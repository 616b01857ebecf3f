import Atradio.Native.Player

/-! # The typed document of the mobile app and the untyped one of the engine

`Audio.Document` has the sections that a synced record concerns. Where a document reads as a typed
one, the engine derives from it what the typed one says. -/

namespace Atradio.Native
open Atradio.Lib
open Atradio.Audio (crossfeedToStr channelToStr)

structure ReadsDsp (double : Rounding) (v : Value) (d : Audio.DspSettings) : Prop where
  object : v.asObject.isSome = true
  bass : (v.index "bass").asI64 = some d.bass
  treble : (v.index "treble").asI64 = some d.treble
  crossfeedMode : (v.index "crossfeedMode").asStr = some d.crossfeedMode
  crossfeedDirect : (v.index "crossfeedDirect").asF64 double.fl = some d.crossfeedDirect
  pbe : (v.index "pbe").asI64 = some d.pbe
  pbePrecut : (v.index "pbePrecut").asI64 = some d.pbePrecut
  surroundDelay : (v.index "surroundDelay").asI64 = some d.surroundDelay
  surroundBalance : (v.index "surroundBalance").asI64 = some d.surroundBalance
  compThreshold : (v.index "compThreshold").asI64 = some d.compThreshold
  compRatio : (v.index "compRatio").asI64 = some d.compRatio
  channelMode : (v.index "channelMode").asStr = some d.channelMode
  stereoWidth : (v.index "stereoWidth").asI64 = some d.stereoWidth

/-- `get` is the section. -/
structure ReadsEqualizer (double : Rounding) (get : String → Value) (eq : Audio.EqSettings) :
    Prop where
  enabled : (get "enabled").asBool = some eq.enabled
  bands : ∃ items, (get "bands").asArray = some items ∧
    items.map (fun b => (b.index "gain").asI64) = eq.bands.map fun b => some b.gain
  dsp : eq.dsp.elim ((get "dsp").asObject = none) (ReadsDsp double (get "dsp"))

structure ReadsTone (get : String → Value) (tone : Audio.Tone) : Prop where
  bass : (get "bass").asI64 = tone.bass
  treble : (get "treble").asI64 = tone.treble
  channels : (get "channels").asStr = tone.channels
  stereoWidth : (get "stereoWidth").asI64 = tone.stereoWidth

structure Represents (double : Rounding) (a : AudioSettings) (document : Audio.Document) :
    Prop where
  equalizer : ReadsEqualizer double (setting a.document "equalizer") document.equalizer
  tone : ReadsTone (setting a.document "tone") document.tone

/-- What the synced record concerns of a player, on top of what the engine had. -/
def Player.params (player : Player) (p : Audio.Params) : Audio.Params :=
  { p.setEqBands (player.equalizer.bands.map EqBand.gainDb) with
    eqEnabled := player.equalizer.enabled
    bass := player.tone.bassDb
    treble := player.tone.trebleDb
    crossfeedMode := crossfeedToStr player.crossfeed.mode
    directGain := player.crossfeed.directGain
    pbe := player.bassEnhancement.strength
    pbePrecut := player.bassEnhancement.precut
    surroundDelay := player.surround.delayMs
    surroundBalance := player.surround.balance
    compThreshold := player.compressor.thresholdDb
    compRatio := player.compressor.ratio
    channelMode := channelToStr player.channelMode
    stereoWidth := player.stereoWidth }

def DEFAULT_TYPED : Audio.Document where
  equalizer := { dsp := none, enabled := false, bands := [] }
  tone := { bass := some 0, treble := some 0, channels := some "stereo", stereoWidth := some 100 }

theorem default_represents (double : Rounding) :
    Represents double AudioSettings.default DEFAULT_TYPED where
  equalizer := ⟨rfl, ⟨[], rfl, rfl⟩, rfl⟩
  tone := ⟨rfl, rfl, rfl, rfl⟩

section Represented

variable {single double : Rounding} {shuffle : Bool} {a : AudioSettings}
  {document : Audio.Document}

theorem represented_gains (single : Rounding)
    (h : ReadsEqualizer double (setting a.document "equalizer") document.equalizer) :
    (a.equalizer single).bands.map EqBand.gainDb =
      (document.equalizer.bands.take 10).map fun b =>
        single.fl (Audio.number (some b.gain) (-240) 240 / (10 : ℤ)) := by
  obtain ⟨items, hitems, hgains⟩ := h.bands
  have harray : ((a.document.index "equalizer").index "bands").asArray = some items := hitems
  have hmap : ∀ bs : List Value, (bs.map (AudioSettings.eqBand single)).map EqBand.gainDb =
      (bs.map fun b => (b.index "gain").asI64).map fun gain =>
        single.fl (Audio.number gain (-240) 240 / (10 : ℤ)) := by
    intro bs
    rw [List.map_map, List.map_map]
    rfl
  simp only [AudioSettings.equalizer, harray, Option.getD_some]
  rw [hmap, List.map_take, hgains, ← List.map_take, List.map_map]
  rfl

theorem index_of_not_object {v : Value} (h : v.asObject = none) (key : String) :
    v.index key = .null := by
  rw [Value.index, h]
  rfl

/-- The engine and the typed document come to the same parameters. -/
theorem represented_params (h : Represents double a document) (player : Player)
    (p : Audio.Params) :
    (a.apply single double shuffle player).params p = document.apply single double p := by
  have henabled : ((a.document.index "equalizer").index "enabled").asBool =
      some document.equalizer.enabled := h.equalizer.enabled
  have hgains := represented_gains single h.equalizer
  have hbass : ((a.document.index "tone").index "bass").asI64 = document.tone.bass := h.tone.bass
  have htreble : ((a.document.index "tone").index "treble").asI64 = document.tone.treble :=
    h.tone.treble
  have hchannels : ((a.document.index "tone").index "channels").asStr = document.tone.channels :=
    h.tone.channels
  have hwidth : ((a.document.index "tone").index "stereoWidth").asI64 = document.tone.stereoWidth :=
    h.tone.stereoWidth
  have hdsp := h.equalizer.dsp
  rw [AudioSettings.apply_eq]
  simp only [Player.params, hgains]
  cases hd : document.equalizer.dsp with
  | none =>
    rw [hd, Option.elim_none] at hdsp
    have hobject : ((a.document.index "equalizer").index "dsp").asObject = none := hdsp
    have hnull := index_of_not_object hobject
    have hnone : a.dsp = none := by simp [AudioSettings.dsp, hobject]
    simp only [AudioSettings.toneControls, AudioSettings.channelMode, AudioSettings.stereoWidth,
      AudioSettings.equalizer, AudioSettings.crossfeed, AudioSettings.pbe, AudioSettings.surround,
      AudioSettings.compressor, hnone, hnull, number, henabled, hbass, htreble, hchannels, hwidth,
      Audio.Document.apply, Audio.Document.setTone, Audio.Document.setEqualizer, hd]
    rfl
  | some dsp =>
    rw [hd, Option.elim_some] at hdsp
    have hreads : ReadsDsp double ((a.document.index "equalizer").index "dsp") dsp := hdsp
    have hsome : a.dsp = some ((a.document.index "equalizer").index "dsp") :=
      if_pos hreads.object
    simp only [AudioSettings.toneControls, AudioSettings.channelMode, AudioSettings.stereoWidth,
      AudioSettings.equalizer, AudioSettings.crossfeed, AudioSettings.pbe, AudioSettings.surround,
      AudioSettings.compressor, hsome, number, henabled, hreads.bass, hreads.treble,
      hreads.crossfeedMode, hreads.crossfeedDirect, hreads.pbe, hreads.pbePrecut,
      hreads.surroundDelay, hreads.surroundBalance, hreads.compThreshold, hreads.compRatio,
      hreads.channelMode, hreads.stereoWidth, Audio.Document.apply, Audio.Document.setTone,
      Audio.Document.setEqualizer, hd]
    rfl

theorem mentioned_of_read {α : Type} {f : Value → Option α} (hnull : f .null = none)
    {m : Option Value} {x : α} (h : f (m.getD .null) = some x) : m.isSome = true := by
  cases m with
  | none =>
    rw [Option.getD_none, hnull] at h
    cases h
  | some v => rfl

/-- A patch of the section `equalizer` alone is the merge of the typed document. -/
theorem represents_merge (h : Represents double a document) {patch : Value}
    {eq : Audio.EqSettings}
    (heq : ReadsEqualizer double (fun key => (mention "equalizer" key patch).getD .null) eq)
    (hdsp : (mention "equalizer" "dsp" patch).isSome = true)
    (htone : (patch.index "tone").asObject = none) :
    Represents double (a.merge patch) (document.merge eq) where
  equalizer := by
    have hget : ∀ key, (mention "equalizer" key patch).isSome = true →
        setting (a.merge patch).document "equalizer" key =
          (mention "equalizer" key patch).getD .null := by
      intro key hmention
      obtain ⟨v, hv⟩ := Option.isSome_iff_exists.1 hmention
      rw [a.setting_merge patch (by decide), hv]
      rfl
    obtain ⟨items, hitems, hgains⟩ := heq.bands
    refine ⟨?_, ⟨items, ?_, hgains⟩, ?_⟩
    · rw [hget _ (mentioned_of_read (f := Value.asBool) rfl heq.enabled)]
      exact heq.enabled
    · rw [hget _ (mentioned_of_read (f := Value.asArray) rfl hitems)]
      exact hitems
    · rw [hget _ hdsp]
      exact heq.dsp
  tone := by
    have hsame : setting (a.merge patch).document "tone" = setting a.document "tone" := by
      funext key
      rw [a.setting_merge patch (by decide), mention, htone]
      rfl
    rw [hsame]
    exact h.tone

/-- So the mobile app's reader of a synced record is what the engine does with its patch. -/
theorem mobileApply_eq (h : Represents double a document) (r : Audio.AudioSettingsRecord)
    {patch : Value} (htone : (patch.index "tone").asObject = none)
    (heq : ReadsEqualizer double (fun key => (mention "equalizer" key patch).getD .null)
      (Audio.fromRepoEqualizer (Audio.audioSettingsRecordToData double r)))
    (player : Player) (p : Audio.Params) :
    ((a.merge patch).apply single double shuffle player).params p =
      Audio.mobileApply single double r document p := by
  obtain ⟨fields, hfields⟩ := Option.isSome_iff_exists.1 (ReadsDsp.object heq.dsp)
  have hdsp := mentioned_of_read (f := Value.asObject) rfl hfields
  exact represented_params (represents_merge h heq hdsp htone) player p

end Represented

end Atradio.Native
