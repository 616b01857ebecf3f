import Atradio.Native.Settings

/-! # What the native engine derives from its settings (`engine/src/audio.rs`)

Delays are in milliseconds. `single` and `double` are the arithmetic of `f32` and `f64`. -/

namespace Atradio.Native
open Atradio.Lib
open Atradio.Audio (ChannelMode CrossfeedMode strToCrossfeed toneChannel dspChannel compRatioIndex)

structure EqBand where
  cutoffHz : ℤ
  q : ℚ
  gainDb : ℚ

structure Equalizer where
  enabled : Bool
  precutDb : ℚ
  bands : List EqBand

structure ToneControls where
  bassDb : ℤ
  trebleDb : ℤ
  bassCutoffHz : ℤ
  trebleCutoffHz : ℤ

inductive CrossfadeMode where
  | off
  | autoSkip
  | manualSkip
  | shuffle
  | shuffleOrManualSkip
  | always

inductive MixMode where
  | crossfade
  | mix

structure CrossfadeSettings where
  mode : CrossfadeMode
  fadeInDelay : ℤ
  fadeInDuration : ℤ
  fadeOutDelay : ℤ
  fadeOutDuration : ℤ
  mixMode : MixMode

inductive ReplayGainMode where
  | off
  | track
  | album

structure Crossfeed where
  mode : CrossfeedMode
  directGain : ℤ
  crossGain : ℤ
  highFreqGain : ℤ
  highFreqCutoff : ℤ

def Crossfeed.default : Crossfeed where
  mode := .off
  directGain := -15
  crossGain := -60
  highFreqGain := -160
  highFreqCutoff := 700

structure BassEnhancement where
  strength : ℤ
  precut : ℤ

structure Surround where
  delayMs : ℤ
  balance : ℤ
  cutoffLowHz : ℤ
  cutoffHighHz : ℤ

structure Compressor where
  thresholdDb : ℤ
  makeupGain : ℤ
  ratio : ℤ
  knee : ℤ
  attackMs : ℤ
  releaseMs : ℤ

structure ReplayGain where
  mode : ReplayGainMode
  preampDb : ℚ
  preventClipping : Bool

/-- What the engine's setters have left in the player. -/
structure Player where
  equalizer : Equalizer
  tone : ToneControls
  balance : ℤ
  channelMode : ChannelMode
  stereoWidth : ℤ
  crossfeed : Crossfeed
  bassEnhancement : BassEnhancement
  surround : Surround
  compressor : Compressor
  crossfade : CrossfadeSettings
  replaygain : ReplayGain

/-! ### The readers -/

def number (v : Value) (key : String) (lo hi : ℤ) : ℤ := Audio.number (v.index key).asI64 lo hi

namespace AudioSettings

variable (a : AudioSettings) (single double : Rounding) (shuffle : Bool)

def eqBand (b : Value) : EqBand where
  cutoffHz := number b "frequency" 20 22000
  q := single.fl (number b "q" 5 640 / (10 : ℤ))
  gainDb := single.fl (number b "gain" (-240) 240 / (10 : ℤ))

def equalizer : Equalizer :=
  let eq := a.document.index "equalizer"
  { enabled := (eq.index "enabled").asBool.getD false
    precutDb := single.fl ((-number eq "precut" (-240) 0 : ℤ) / (10 : ℤ))
    bands := (((eq.index "bands").asArray.getD []).take 10).map (eqBand single) }

def crossfadeMode (mode : String) : CrossfadeMode :=
  if mode = "enabled" then .always
  else if mode = "shuffle" ∧ shuffle then .always
  else if mode = "albumChange" ∨ mode = "trackChange" then .autoSkip
  else .off

def crossfade : CrossfadeSettings :=
  let cf := a.document.index "crossfade"
  { mode := crossfadeMode shuffle ((cf.index "mode").asStr.getD "off")
    fadeInDelay := number cf "fadeInDelay" 0 7000
    fadeInDuration := number cf "fadeInDuration" 0 15000
    fadeOutDelay := number cf "fadeOutDelay" 0 7000
    fadeOutDuration := number cf "fadeOutDuration" 0 15000
    mixMode := if (cf.index "fadeOutMixMode").asStr = some "mix" then .mix else .crossfade }

def replaygainMode : ReplayGainMode :=
  let mode := (((a.document.index "replayGain").index "mode").asStr.getD "off")
  if mode = "track" then .track
  else if mode = "album" then .album
  else if mode = "trackIfShuffling" ∧ shuffle then .track
  else if mode = "trackIfShuffling" then .album
  else .off

def crossfeed : Crossfeed :=
  let d := (a.document.index "equalizer").index "dsp"
  { Crossfeed.default with
    mode := strToCrossfeed ((d.index "crossfeedMode").asStr.getD "off")
    directGain := roundHalfAway (double.fl
      (max (-6) (min 0 (((d.index "crossfeedDirect").asF64 double.fl).getD (-3 / 2))) *
        (10 : ℤ))) }

def pbe : BassEnhancement :=
  let d := (a.document.index "equalizer").index "dsp"
  { strength := number d "pbe" 0 100
    precut := -number d "pbePrecut" 0 24 * 10 }

def surround : Surround :=
  let d := (a.document.index "equalizer").index "dsp"
  { delayMs := number d "surroundDelay" 0 30
    balance := max 0 (min 100 ((d.index "surroundBalance").asI64.getD 35))
    cutoffLowHz := 0
    cutoffHighHz := 0 }

def compressor : Compressor :=
  let d := (a.document.index "equalizer").index "dsp"
  { thresholdDb := number d "compThreshold" (-30) 0
    makeupGain := 1
    ratio := compRatioIndex ((d.index "compRatio").asI64.getD 2)
    knee := 2
    attackMs := 5
    releaseMs := 200 }

/-- The calls of setters, in their order. -/
def apply (player : Player) : Player :=
  let player := { player with equalizer := a.equalizer single }
  let tone := a.document.index "tone"
  let player := { player with
    tone := {
      bassDb := number tone "bass" (-24) 24
      trebleDb := number tone "treble" (-24) 24
      bassCutoffHz := number tone "bassCutoff" 0 22000
      trebleCutoffHz := number tone "trebleCutoff" 0 22000 }
    balance := number tone "balance" (-100) 100
    channelMode := toneChannel ((tone.index "channels").asStr.getD "stereo")
    stereoWidth :=
      if (tone.index "channels").asStr = some "wide" then 150
      else number tone "stereoWidth" 0 250 }
  let dsp := (a.document.index "equalizer").index "dsp"
  let player :=
    if dsp.asObject.isSome then { player with
      tone := {
        bassDb := number dsp "bass" (-24) 24
        trebleDb := number dsp "treble" (-24) 24
        bassCutoffHz := 0
        trebleCutoffHz := 0 }
      channelMode := dspChannel ((dsp.index "channelMode").asStr.getD "stereo")
      stereoWidth := max 0 (min 255 ((dsp.index "stereoWidth").asI64.getD 100)) }
    else player
  let player := { player with
    balance := number (a.document.index "equalizer") "balance" (-100) 100
    crossfeed := a.crossfeed double
    bassEnhancement := a.pbe
    surround := a.surround
    compressor := a.compressor
    crossfade := a.crossfade shuffle }
  let rg := a.document.index "replayGain"
  { player with
    replaygain := {
      mode := a.replaygainMode shuffle
      preampDb := single.fl (number rg "preamp" (-120) 120 / (10 : ℤ))
      preventClipping := (rg.index "preventClipping").asBool.getD false } }

/-! ### What is derived -/

/-- `equalizer.dsp` where it is an object: it replaces the tone section. -/
def dsp : Option Value :=
  let dsp := (a.document.index "equalizer").index "dsp"
  if dsp.asObject.isSome then some dsp else none

def toneControls : ToneControls :=
  match a.dsp with
  | some dsp => ⟨number dsp "bass" (-24) 24, number dsp "treble" (-24) 24, 0, 0⟩
  | none =>
    let tone := a.document.index "tone"
    ⟨number tone "bass" (-24) 24, number tone "treble" (-24) 24,
      number tone "bassCutoff" 0 22000, number tone "trebleCutoff" 0 22000⟩

def channelMode : ChannelMode :=
  match a.dsp with
  | some dsp => dspChannel ((dsp.index "channelMode").asStr.getD "stereo")
  | none => toneChannel (((a.document.index "tone").index "channels").asStr.getD "stereo")

def stereoWidth : ℤ :=
  match a.dsp with
  | some dsp => max 0 (min 255 ((dsp.index "stereoWidth").asI64.getD 100))
  | none =>
    let tone := a.document.index "tone"
    if (tone.index "channels").asStr = some "wide" then 150 else number tone "stereoWidth" 0 250

def replaygain : ReplayGain :=
  let rg := a.document.index "replayGain"
  { mode := a.replaygainMode shuffle
    preampDb := single.fl (number rg "preamp" (-120) 120 / (10 : ℤ))
    preventClipping := (rg.index "preventClipping").asBool.getD false }

/-- Nothing is left of the player before. -/
theorem apply_eq (player : Player) :
    a.apply single double shuffle player =
      { equalizer := a.equalizer single
        tone := a.toneControls
        balance := number (a.document.index "equalizer") "balance" (-100) 100
        channelMode := a.channelMode
        stereoWidth := a.stereoWidth
        crossfeed := a.crossfeed double
        bassEnhancement := a.pbe
        surround := a.surround
        compressor := a.compressor
        crossfade := a.crossfade shuffle
        replaygain := a.replaygain single shuffle } := by
  unfold apply toneControls channelMode stereoWidth dsp
  dsimp only
  by_cases h : ((a.document.index "equalizer").index "dsp").asObject.isSome = true
  · simp only [if_pos h]
    rfl
  · simp only [if_neg h]
    rfl

end AudioSettings

/-! ### Parameters and the settings they read -/

inductive Parameter where
  | equalizer
  | tone
  | balance
  | channelMode
  | stereoWidth
  | crossfeed
  | bassEnhancement
  | surround
  | compressor
  | crossfade
  | replaygain

def Parameter.reads : Parameter → List (String × String)
  | .equalizer => [("equalizer", "enabled"), ("equalizer", "precut"), ("equalizer", "bands")]
  | .tone => [("tone", "bass"), ("tone", "treble"), ("tone", "bassCutoff"),
      ("tone", "trebleCutoff"), ("equalizer", "dsp")]
  | .balance => [("equalizer", "balance")]
  | .channelMode => [("tone", "channels"), ("equalizer", "dsp")]
  | .stereoWidth => [("tone", "channels"), ("tone", "stereoWidth"), ("equalizer", "dsp")]
  | .crossfeed | .bassEnhancement | .surround | .compressor => [("equalizer", "dsp")]
  | .crossfade => [("crossfade", "mode"), ("crossfade", "fadeInDelay"),
      ("crossfade", "fadeInDuration"), ("crossfade", "fadeOutDelay"),
      ("crossfade", "fadeOutDuration"), ("crossfade", "fadeOutMixMode")]
  | .replaygain => [("replayGain", "mode"), ("replayGain", "preamp"),
      ("replayGain", "preventClipping")]

def Parameter.Same (p q : Player) : Parameter → Prop
  | .equalizer => p.equalizer = q.equalizer
  | .tone => p.tone = q.tone
  | .balance => p.balance = q.balance
  | .channelMode => p.channelMode = q.channelMode
  | .stereoWidth => p.stereoWidth = q.stereoWidth
  | .crossfeed => p.crossfeed = q.crossfeed
  | .bassEnhancement => p.bassEnhancement = q.bassEnhancement
  | .surround => p.surround = q.surround
  | .compressor => p.compressor = q.compressor
  | .crossfade => p.crossfade = q.crossfade
  | .replaygain => p.replaygain = q.replaygain

theorem reads_sections (parameter : Parameter) :
    ∀ path ∈ parameter.reads, path.1 ∈ SECTIONS := by
  cases parameter <;> decide

theorem apply_same (single double : Rounding) (shuffle : Bool) {a b : AudioSettings}
    (parameter : Parameter) (player player' : Player)
    (h : ∀ path ∈ parameter.reads,
      setting a.document path.1 path.2 = setting b.document path.1 path.2) :
    parameter.Same (a.apply single double shuffle player)
      (b.apply single double shuffle player') := by
  rw [AudioSettings.apply_eq, AudioSettings.apply_eq]
  cases parameter <;> simp only [Parameter.reads, setting, List.forall_mem_cons] at h
  case equalizer => simp only [Parameter.Same, AudioSettings.equalizer, number, h]
  case tone =>
    simp only [Parameter.Same, AudioSettings.toneControls, AudioSettings.dsp, number, h]
  case balance => simp only [Parameter.Same, number, h]
  case channelMode => simp only [Parameter.Same, AudioSettings.channelMode, AudioSettings.dsp, h]
  case stereoWidth =>
    simp only [Parameter.Same, AudioSettings.stereoWidth, AudioSettings.dsp, number, h]
  case crossfeed => simp only [Parameter.Same, AudioSettings.crossfeed, h]
  case bassEnhancement => simp only [Parameter.Same, AudioSettings.pbe, number, h]
  case surround => simp only [Parameter.Same, AudioSettings.surround, number, h]
  case compressor => simp only [Parameter.Same, AudioSettings.compressor, number, h]
  case crossfade => simp only [Parameter.Same, AudioSettings.crossfade, number, h]
  case replaygain =>
    simp only [Parameter.Same, AudioSettings.replaygain, AudioSettings.replaygainMode, number, h]

/-! ### Ranges -/

def Between (lo hi n : ℤ) : Prop := lo ≤ n ∧ n ≤ hi

/-- A number of tenths, as the engine takes it. -/
def Tenths (single : Rounding) (lo hi : ℤ) (x : ℚ) : Prop :=
  ∃ n, Between lo hi n ∧ x = single.fl (n / (10 : ℤ))

structure EqBand.InRange (single : Rounding) (b : EqBand) : Prop where
  cutoffHz : Between 20 22000 b.cutoffHz
  q : Tenths single 5 640 b.q
  gainDb : Tenths single (-240) 240 b.gainDb

structure CrossfadeSettings.InRange (cf : CrossfadeSettings) : Prop where
  fadeInDelay : Between 0 7000 cf.fadeInDelay
  fadeInDuration : Between 0 15000 cf.fadeInDuration
  fadeOutDelay : Between 0 7000 cf.fadeOutDelay
  fadeOutDuration : Between 0 15000 cf.fadeOutDuration

structure ToneControls.InRange (t : ToneControls) : Prop where
  bassDb : Between (-24) 24 t.bassDb
  trebleDb : Between (-24) 24 t.trebleDb
  bassCutoffHz : Between 0 22000 t.bassCutoffHz
  trebleCutoffHz : Between 0 22000 t.trebleCutoffHz

structure Player.InRange (single : Rounding) (p : Player) : Prop where
  precutDb : Tenths single 0 240 p.equalizer.precutDb
  bands : p.equalizer.bands.length ≤ 10 ∧ ∀ b ∈ p.equalizer.bands, b.InRange single
  tone : p.tone.InRange
  balance : Between (-100) 100 p.balance
  stereoWidth : Between 0 255 p.stereoWidth
  directGain : Between (-60) 0 p.crossfeed.directGain
  strength : Between 0 100 p.bassEnhancement.strength
  precut : Between (-240) 0 p.bassEnhancement.precut
  delayMs : Between 0 30 p.surround.delayMs
  surroundBalance : Between 0 100 p.surround.balance
  thresholdDb : Between (-30) 0 p.compressor.thresholdDb
  ratio : Between 0 3 p.compressor.ratio
  crossfade : p.crossfade.InRange
  preampDb : Tenths single (-120) 120 p.replaygain.preampDb

theorem between_clamp {lo hi : ℤ} (h : lo ≤ hi) (n : ℤ) : Between lo hi (max lo (min hi n)) :=
  ⟨le_max_left _ _, max_le h (min_le_left _ _)⟩

theorem between_number (v : Value) (key : String) {lo hi : ℤ} (h : lo ≤ hi) :
    Between lo hi (number v key lo hi) := between_clamp h _

theorem between_ratio (ratio : ℤ) : Between 0 3 (compRatioIndex ratio) := by
  unfold Between compRatioIndex
  split_ifs <;> omega

theorem between_direct (double : OrderedRounding) (x : ℚ) :
    Between (-60) 0 (roundHalfAway (double.fl (max (-6) (min 0 x) * (10 : ℤ)))) := by
  have hlo : (-6 : ℚ) ≤ max (-6) (min 0 x) := le_max_left _ _
  have hhi : max (-6) (min 0 x) ≤ 0 := max_le (by norm_num) (min_le_left _ _)
  constructor
  · refine le_roundHalfAway (double.le_fl (by norm_num) ?_)
    push_cast
    linarith
  · refine roundHalfAway_le (double.fl_le (by norm_num) ?_)
    push_cast
    linarith

theorem eqBand_inRange (single : Rounding) (b : Value) :
    (AudioSettings.eqBand single b).InRange single where
  cutoffHz := between_number b _ (by norm_num)
  q := ⟨_, between_number b _ (by norm_num), rfl⟩
  gainDb := ⟨_, between_number b _ (by norm_num), rfl⟩

theorem tone_inRange (a : AudioSettings) : a.toneControls.InRange := by
  unfold AudioSettings.toneControls
  cases a.dsp with
  | none => exact ⟨between_number _ _ (by norm_num), between_number _ _ (by norm_num),
      between_number _ _ (by norm_num), between_number _ _ (by norm_num)⟩
  | some dsp => exact ⟨between_number _ _ (by norm_num), between_number _ _ (by norm_num),
      between_clamp (by norm_num) 0, between_clamp (by norm_num) 0⟩

theorem between_stereoWidth (a : AudioSettings) : Between 0 255 a.stereoWidth := by
  unfold AudioSettings.stereoWidth
  cases a.dsp with
  | none =>
    dsimp only
    split
    · exact ⟨by norm_num, by norm_num⟩
    · obtain ⟨hlo, hhi⟩ : Between 0 250 (number (a.document.index "tone") "stereoWidth" 0 250) :=
        between_number _ _ (by norm_num)
      exact ⟨hlo, by omega⟩
  | some dsp => exact between_clamp (by norm_num) _

theorem equalizer_inRange (single : Rounding) (a : AudioSettings) :
    Tenths single 0 240 (a.equalizer single).precutDb ∧
      (a.equalizer single).bands.length ≤ 10 ∧
      ∀ b ∈ (a.equalizer single).bands, b.InRange single := by
  obtain ⟨hlo, hhi⟩ : Between (-240) 0 (number (a.document.index "equalizer") "precut" (-240) 0) :=
    between_number _ _ (by norm_num)
  refine ⟨⟨_, ⟨by omega, by omega⟩, rfl⟩, ?_, ?_⟩
  · simp [AudioSettings.equalizer]
  · intro b hb
    obtain ⟨v, -, rfl⟩ := List.mem_map.1 hb
    exact eqBand_inRange single v

theorem between_precut (a : AudioSettings) : Between (-240) 0 a.pbe.precut := by
  obtain ⟨hlo, hhi⟩ :
      Between 0 24 (number ((a.document.index "equalizer").index "dsp") "pbePrecut" 0 24) :=
    between_number _ _ (by norm_num)
  change Between (-240) 0 (-number _ "pbePrecut" 0 24 * 10)
  exact ⟨by omega, by omega⟩

theorem apply_inRange (single : Rounding) (double : OrderedRounding) (shuffle : Bool)
    (a : AudioSettings) (player : Player) :
    (a.apply single double.toRounding shuffle player).InRange single := by
  rw [AudioSettings.apply_eq]
  obtain ⟨hprecut, hbands⟩ := equalizer_inRange single a
  exact {
    precutDb := hprecut
    bands := hbands
    tone := tone_inRange a
    balance := between_number _ _ (by norm_num)
    stereoWidth := between_stereoWidth a
    directGain := between_direct double _
    strength := between_number _ _ (by norm_num)
    precut := between_precut a
    delayMs := between_number _ _ (by norm_num)
    surroundBalance := between_clamp (by norm_num) _
    thresholdDb := between_number _ _ (by norm_num)
    ratio := between_ratio _
    crossfade := ⟨between_number _ _ (by norm_num), between_number _ _ (by norm_num),
      between_number _ _ (by norm_num), between_number _ _ (by norm_num)⟩
    preampDb := ⟨_, between_number _ _ (by norm_num), rfl⟩ }

/-! ### The last writer -/

/-- The value a patch mentions at `equalizer.dsp.key`. -/
def mentionDsp (key : String) (patch : Value) : Option Value :=
  (mention "equalizer" "dsp" patch).bind fun dsp => dsp.asObject.bind (latest key)

/-- For each section and key the last patch that mentions it decides, and a parameter depends on
what it reads. `equalizer.dsp` is one such setting, a whole object. -/
theorem last_writer_wins (single : Rounding) (double : OrderedRounding) (shuffle : Bool) :
    (∀ patches : List Value, ∀ sect ∈ SECTIONS, ∀ key,
      setting (AudioSettings.merged patches).document sect key =
        (lastWrite (mention sect key) patches).getD (setting DEFAULT_DOCUMENT sect key)) ∧
    (∀ (parameter : Parameter) (patches patches' : List Value) (player player' : Player),
      (∀ path ∈ parameter.reads, lastWrite (mention path.1 path.2) patches =
        lastWrite (mention path.1 path.2) patches') →
      parameter.Same
        ((AudioSettings.merged patches).apply single double.toRounding shuffle player)
        ((AudioSettings.merged patches').apply single double.toRounding shuffle player')) ∧
    ∀ (patches : List Value) (player : Player),
      ((AudioSettings.merged patches).apply single double.toRounding shuffle player).InRange
        single := by
  refine ⟨fun patches sect hsect key => AudioSettings.setting_merged patches hsect key, ?_, ?_⟩
  · intro parameter patches patches' player player' h
    refine apply_same single double.toRounding shuffle parameter player player' ?_
    intro path hpath
    have hsect := reads_sections parameter path hpath
    rw [AudioSettings.setting_merged patches hsect, AudioSettings.setting_merged patches' hsect,
      h path hpath]
  · exact fun patches player => apply_inRange single double shuffle _ player

def dspPatch (fields : List (String × Value)) : Value :=
  .object [("equalizer", .object [("dsp", .object fields)])]

def bassBoost : List Value :=
  [dspPatch [("pbe", wholeNumber 45)], dspPatch [("bass", wholeNumber 3)]]

def wide : List Value :=
  [.object [("tone", .object [("channels", .string "wide")])],
    .object [("tone", .object [("bass", .string "loud")])], .null]

def silent : Player :=
  AudioSettings.default.apply .exactly .exactly false
    ⟨⟨false, 0, []⟩, ⟨0, 0, 0, 0⟩, 0, .stereo, 0, .default, ⟨0, 0⟩, ⟨0, 0, 0, 0⟩,
      ⟨0, 0, 0, 0, 0, 0⟩, ⟨.off, 0, 0, 0, 0, .mix⟩, ⟨.off, 0, false⟩⟩

theorem wide_kept :
    setting (AudioSettings.merged wide).document "tone" "channels" = .string "wide" ∧
      Parameter.channelMode.Same
        ((AudioSettings.merged wide).apply .exactly .exactly true silent)
        ((AudioSettings.merged (wide.take 1)).apply .exactly .exactly true silent) := by
  obtain ⟨hlast, hsame, -⟩ := last_writer_wins .exactly .exactly true
  constructor
  · rw [hlast _ _ (by decide)]
    rfl
  · refine hsame .channelMode wide (wide.take 1) silent silent ?_
    simp only [Parameter.reads, List.forall_mem_cons]
    exact ⟨rfl, rfl, List.forall_mem_nil _⟩

/-- A patch of one field of `equalizer.dsp` resets the others. -/
theorem bass_resets_pbe :
    ¬ ∀ (patches patches' : List Value),
      lastWrite (mentionDsp "pbe") patches = lastWrite (mentionDsp "pbe") patches' →
      (AudioSettings.merged patches).pbe.strength = (AudioSettings.merged patches').pbe.strength := by
  intro h
  have hsame := h bassBoost (bassBoost.take 1) rfl
  exact absurd hsame (by decide +kernel)

/-! ### The engine -/

inductive EngineCmd where
  | setShuffle (enabled : Bool)
  | setAudioSettings (settings : Value)

structure Engine where
  audio : AudioSettings
  shuffle : Bool
  player : Player

def Engine.start (player : Player) : Engine := ⟨.default, false, player⟩

section Engine

variable (single double : Rounding)

def Engine.apply (e : Engine) : EngineCmd → Engine
  | .setShuffle enabled =>
    { e with shuffle := enabled, player := e.audio.apply single double enabled e.player }
  | .setAudioSettings settings =>
    let audio := e.audio.merge settings
    { e with audio, player := audio.apply single double e.shuffle e.player }

def EngineCmd.shuffle? : EngineCmd → Option Bool
  | .setShuffle enabled => some enabled
  | .setAudioSettings _ => none

def EngineCmd.patch? : EngineCmd → Option Value
  | .setShuffle _ => none
  | .setAudioSettings settings => some settings

/-- After every command the player is as its settings and the shuffle say. -/
theorem engine_run (player : Player) (cmds : List EngineCmd) :
    let e := cmds.foldl (Engine.apply single double) (Engine.start player)
    e.audio = AudioSettings.merged (cmds.filterMap EngineCmd.patch?) ∧
      e.shuffle = (lastWrite EngineCmd.shuffle? cmds).getD false ∧
      (cmds ≠ [] → ∀ p, e.player = e.audio.apply single double e.shuffle p) := by
  induction cmds using List.reverseRecOn with
  | nil => exact ⟨rfl, rfl, fun h => absurd rfl h⟩
  | append_singleton cmds cmd ih =>
    obtain ⟨haudio, hshuffle, -⟩ := ih
    dsimp only at haudio hshuffle ⊢
    rw [List.foldl_append, List.foldl_cons, List.foldl_nil, List.filterMap_append, lastWrite_snoc]
    cases cmd with
    | setShuffle enabled =>
      refine ⟨?_, rfl, fun _ p => ?_⟩
      · exact haudio.trans (congrArg _ (List.append_nil _).symm)
      · exact (AudioSettings.apply_eq ..).trans (AudioSettings.apply_eq ..).symm
    | setAudioSettings settings =>
      refine ⟨?_, hshuffle, fun _ p => ?_⟩
      · change (Engine.audio _).merge settings = _
        rw [haudio]
        simp [EngineCmd.patch?, AudioSettings.merged]
      · exact (AudioSettings.apply_eq ..).trans (AudioSettings.apply_eq ..).symm

end Engine

end Atradio.Native
