import Atradio.Lib.Rounding

/-! # The synced audio settings

The record `fm.atradio.audio.settings` and its three readers: the mappers with the web player
(`mappers.ts`, `atoms/audioSettings.ts`), the CLI (`settings.rs`, `player/dsp.rs`), and the mobile
app with its native engine (`playback/equalizer.ts`, `engine/src/audio.rs`). -/

namespace Atradio.Audio
open Atradio.Lib

/-- An integer property with a minimum and a maximum. -/
abbrev Ranged (lo hi : ℤ) := {n : ℤ // lo ≤ n ∧ n ≤ hi}

structure AudioSettingsRecord where
  eqEnabled : Option Bool
  eqGains : Option (List (Ranged (-24) 24))
  bass : Option (Ranged (-24) 24)
  treble : Option (Ranged (-24) 24)
  crossfeedMode : Option String
  crossfeedDirect : Option (Ranged (-60) 0)
  pbe : Option (Ranged 0 100)
  pbePrecut : Option (Ranged 0 24)
  surroundDelay : Option (Ranged 0 30)
  surroundBalance : Option (Ranged 0 100)
  compThreshold : Option (Ranged (-30) 0)
  compRatio : Option (Ranged 2 10)
  channelMode : Option String
  stereoWidth : Option (Ranged 0 255)

/-- `??` -/
def coalesce {lo hi : ℤ} (field : Option (Ranged lo hi)) (default : ℤ) : ℤ :=
  field.elim default Subtype.val

/-! ### The engine -/

/-- What the engine was handed last. -/
@[ext] structure Params where
  eqEnabled : Bool
  gain : Fin 10 → ℚ
  bass : ℤ
  treble : ℤ
  crossfeedMode : String
  directGain : ℤ
  pbe : ℤ
  pbePrecut : ℤ
  surroundDelay : ℤ
  surroundBalance : ℤ
  compThreshold : ℤ
  compRatio : ℤ
  channelMode : String
  stereoWidth : ℤ

/-- There is no band beyond the tenth. -/
def Params.setEqBand (p : Params) (i : ℕ) (gain : ℚ) : Params :=
  { p with gain := fun j => if j = i then gain else p.gain j }

def setEqBandsFrom (i : ℕ) (p : Params) : List ℚ → Params
  | [] => p
  | gain :: gains => setEqBandsFrom (i + 1) (p.setEqBand i gain) gains

/-- The bands from the first on. -/
def Params.setEqBands (p : Params) (gains : List ℚ) : Params := setEqBandsFrom 0 p gains

/-! ### The mappers and the web player -/

structure AudioSettingsData where
  eqEnabled : Bool
  eqGains : List ℤ
  bass : ℤ
  treble : ℤ
  crossfeedMode : String
  crossfeedDirect : ℚ
  pbe : ℤ
  pbePrecut : ℤ
  surroundDelay : ℤ
  surroundBalance : ℤ
  compThreshold : ℤ
  compRatio : ℤ
  channelMode : String
  stereoWidth : ℤ

def DEFAULT_AUDIO_SETTINGS : AudioSettingsData where
  eqEnabled := false
  eqGains := [0, 0, 0, 0, 0, 0, 0, 0, 0, 0]
  bass := 0
  treble := 0
  crossfeedMode := "off"
  crossfeedDirect := -3 / 2
  pbe := 0
  pbePrecut := 0
  surroundDelay := 0
  surroundBalance := 35
  compThreshold := 0
  compRatio := 2
  channelMode := "stereo"
  stereoWidth := 100

/-- `double` is the arithmetic of numbers. -/
def audioSettingsRecordToData (double : Rounding) (r : AudioSettingsRecord) : AudioSettingsData :=
  let d := DEFAULT_AUDIO_SETTINGS
  { eqEnabled := r.eqEnabled.getD d.eqEnabled
    eqGains := r.eqGains.elim d.eqGains fun gains => gains.map Subtype.val
    bass := coalesce r.bass d.bass
    treble := coalesce r.treble d.treble
    crossfeedMode := r.crossfeedMode.getD d.crossfeedMode
    crossfeedDirect := r.crossfeedDirect.elim d.crossfeedDirect fun direct =>
      double.fl (direct.val / (10 : ℤ))
    pbe := coalesce r.pbe d.pbe
    pbePrecut := coalesce r.pbePrecut d.pbePrecut
    surroundDelay := coalesce r.surroundDelay d.surroundDelay
    surroundBalance := coalesce r.surroundBalance d.surroundBalance
    compThreshold := coalesce r.compThreshold d.compThreshold
    compRatio := coalesce r.compRatio d.compRatio
    channelMode := r.channelMode.getD d.channelMode
    stereoWidth := coalesce r.stereoWidth d.stereoWidth }

def compRatioIndex (ratio : ℤ) : ℤ :=
  if ratio ≤ 2 then 0 else if ratio ≤ 4 then 1 else if ratio ≤ 6 then 2 else 3

def applyAudioSettings (double : Rounding) (s : AudioSettingsData) (p : Params) : Params :=
  let p := { p with eqEnabled := s.eqEnabled }
  let p := p.setEqBands (s.eqGains.map fun gain : ℤ => (gain : ℚ))
  { p with
    bass := s.bass, treble := s.treble
    crossfeedMode := s.crossfeedMode
    directGain := mathRound (double.fl (s.crossfeedDirect * (10 : ℤ)))
    pbe := s.pbe, pbePrecut := -mathRound (s.pbePrecut * 10 : ℤ)
    surroundDelay := s.surroundDelay, surroundBalance := s.surroundBalance
    compThreshold := s.compThreshold, compRatio := compRatioIndex s.compRatio
    channelMode := s.channelMode
    stereoWidth := s.stereoWidth }

def webApply (double : Rounding) (r : AudioSettingsRecord) (p : Params) : Params :=
  applyAudioSettings double (audioSettingsRecordToData double r) p

/-! ### The CLI -/

inductive CrossfeedMode where
  | off
  | meier
  | custom

inductive ChannelMode where
  | stereo
  | mono
  | custom
  | monoLeft
  | monoRight
  | karaoke
  | swap

def crossfeedToStr : CrossfeedMode → String
  | .off => "off"
  | .meier => "meier"
  | .custom => "custom"

def strToCrossfeed (s : String) : CrossfeedMode :=
  if s = "meier" then .meier else if s = "custom" then .custom else .off

def channelToStr : ChannelMode → String
  | .stereo => "stereo"
  | .mono => "mono"
  | .custom => "custom"
  | .monoLeft => "mono-left"
  | .monoRight => "mono-right"
  | .karaoke => "karaoke"
  | .swap => "swap"

def strToChannel (s : String) : ChannelMode :=
  if s = "mono" then .mono
  else if s = "custom" then .custom
  else if s = "mono-left" then .monoLeft
  else if s = "mono-right" then .monoRight
  else if s = "karaoke" then .karaoke
  else if s = "swap" then .swap
  else .stereo

structure AudioSettings where
  eqEnabled : Bool
  eqGains : Fin 10 → ℚ
  bass : ℤ
  treble : ℤ
  crossfeedMode : CrossfeedMode
  crossfeedDirect : ℚ
  pbe : ℤ
  pbePrecut : ℤ
  surroundDelay : ℤ
  surroundBalance : ℤ
  compThreshold : ℤ
  compRatio : ℤ
  channelMode : ChannelMode
  stereoWidth : ℤ

def AudioSettings.default : AudioSettings where
  eqEnabled := false
  eqGains := fun _ => 0
  bass := 0
  treble := 0
  crossfeedMode := .off
  crossfeedDirect := -3 / 2
  pbe := 0
  pbePrecut := 0
  surroundDelay := 0
  surroundBalance := 35
  compThreshold := 0
  compRatio := 2
  channelMode := .stereo
  stereoWidth := 100

/-- `single` is the arithmetic of `f32`. -/
def audioFromRecord (single : Rounding) (r : AudioSettingsRecord) : AudioSettings :=
  let a := AudioSettings.default
  { eqEnabled := r.eqEnabled.getD a.eqEnabled
    eqGains := r.eqGains.elim a.eqGains fun gains i =>
      gains[i.val]?.elim (a.eqGains i) fun gain => single.fl gain.val
    bass := coalesce r.bass a.bass
    treble := coalesce r.treble a.treble
    crossfeedMode := r.crossfeedMode.elim a.crossfeedMode strToCrossfeed
    crossfeedDirect := r.crossfeedDirect.elim a.crossfeedDirect fun direct =>
      single.fl (direct.val / (10 : ℤ))
    pbe := coalesce r.pbe a.pbe
    pbePrecut := coalesce r.pbePrecut a.pbePrecut
    surroundDelay := coalesce r.surroundDelay a.surroundDelay
    surroundBalance := coalesce r.surroundBalance a.surroundBalance
    compThreshold := coalesce r.compThreshold a.compThreshold
    compRatio := coalesce r.compRatio a.compRatio
    channelMode := r.channelMode.elim a.channelMode strToChannel
    stereoWidth := coalesce r.stereoWidth a.stereoWidth }

def ratioIndex (ratio : ℤ) : ℤ := compRatioIndex ratio

def AudioSettings.apply (single : Rounding) (a : AudioSettings) (p : Params) : Params :=
  let p := { p with eqEnabled := a.eqEnabled }
  let p := p.setEqBands (List.ofFn a.eqGains)
  { p with
    bass := a.bass, treble := a.treble
    crossfeedMode := crossfeedToStr a.crossfeedMode
    directGain := roundHalfAway (single.fl (a.crossfeedDirect * (10 : ℤ)))
    pbe := a.pbe, pbePrecut := -(a.pbePrecut * 10)
    surroundDelay := a.surroundDelay, surroundBalance := a.surroundBalance
    compThreshold := a.compThreshold, compRatio := ratioIndex a.compRatio
    channelMode := channelToStr a.channelMode
    stereoWidth := a.stereoWidth }

def cliApply (single : Rounding) (r : AudioSettingsRecord) (p : Params) : Params :=
  (audioFromRecord single r).apply single p

/-! ### The mobile app -/

structure Band where
  frequency : ℤ
  q : ℤ
  gain : ℤ

/-- The settings but for the equalizer. -/
structure DspSettings where
  bass : ℤ
  treble : ℤ
  crossfeedMode : String
  crossfeedDirect : ℚ
  pbe : ℤ
  pbePrecut : ℤ
  surroundDelay : ℤ
  surroundBalance : ℤ
  compThreshold : ℤ
  compRatio : ℤ
  channelMode : String
  stereoWidth : ℤ

/-- `EqSettings`, and the section `equalizer` of the native document, where `dsp` may be missing.
The precut and the balance stay on the device. -/
structure EqSettings where
  dsp : Option DspSettings
  enabled : Bool
  bands : List Band

def EQ_BANDS_HZ : List ℤ := [32, 64, 125, 250, 500, 1000, 2000, 4000, 8000, 16000]

def fromRepoEqualizer (data : AudioSettingsData) : EqSettings where
  dsp := some {
    bass := data.bass
    treble := data.treble
    crossfeedMode := data.crossfeedMode
    crossfeedDirect := data.crossfeedDirect
    pbe := data.pbe
    pbePrecut := data.pbePrecut
    surroundDelay := data.surroundDelay
    surroundBalance := data.surroundBalance
    compThreshold := data.compThreshold
    compRatio := data.compRatio
    channelMode := data.channelMode
    stereoWidth := data.stereoWidth }
  enabled := data.eqEnabled
  bands := EQ_BANDS_HZ.mapIdx fun i frequency =>
    { frequency, q := 10
      gain := mathRound (max (-24) (min 24 (data.eqGains[i]?.getD 0)) * 10 : ℤ) }

/-- Without `dsp` the existing settings stay. -/
def AudioSettingsData.withDsp (data : AudioSettingsData) (dsp : Option DspSettings) :
    AudioSettingsData :=
  match dsp with
  | none => data
  | some d =>
    { data with
      bass := d.bass
      treble := d.treble
      crossfeedMode := d.crossfeedMode
      crossfeedDirect := d.crossfeedDirect
      pbe := d.pbe
      pbePrecut := d.pbePrecut
      surroundDelay := d.surroundDelay
      surroundBalance := d.surroundBalance
      compThreshold := d.compThreshold
      compRatio := d.compRatio
      channelMode := d.channelMode
      stereoWidth := d.stereoWidth }

/-- Errors are the messages they are thrown with. -/
def mergeRepoEqualizer (existing : Option AudioSettingsData) (eq : EqSettings) :
    Except String AudioSettingsData :=
  if eq.bands.length ≠ 10 then .error "Invalid equalizer settings."
  else if eq.bands.map Band.frequency ≠ EQ_BANDS_HZ then .error "Invalid equalizer band order."
  else .ok { (existing.getD DEFAULT_AUDIO_SETTINGS).withDsp eq.dsp with
    eqEnabled := eq.enabled
    eqGains := eq.bands.map fun b => mathRound ((max (-240) (min 240 b.gain) : ℤ) / 10) }

/-- The section `tone`, which the record does not touch. -/
structure Tone where
  bass : Option ℤ
  treble : Option ℤ
  channels : Option String
  stereoWidth : Option ℤ

structure Document where
  equalizer : EqSettings
  tone : Tone

/-- The patch `{equalizer}`; it has every key of the section. -/
def Document.merge (document : Document) (equalizer : EqSettings) : Document :=
  { document with equalizer }

def number (v : Option ℤ) (lo hi : ℤ) : ℤ := max lo (min hi (v.getD 0))

/-- `"wide"` stands in the section `tone` only. -/
def toneChannel (s : String) : ChannelMode :=
  if s = "mono" then .mono
  else if s = "monoLeft" ∨ s = "mono-left" then .monoLeft
  else if s = "monoRight" ∨ s = "mono-right" then .monoRight
  else if s = "karaoke" then .karaoke
  else if s = "custom" ∨ s = "wide" then .custom
  else if s = "swap" then .swap
  else .stereo

def dspChannel (s : String) : ChannelMode :=
  if s = "mono" then .mono
  else if s = "monoLeft" ∨ s = "mono-left" then .monoLeft
  else if s = "monoRight" ∨ s = "mono-right" then .monoRight
  else if s = "custom" then .custom
  else if s = "karaoke" then .karaoke
  else if s = "swap" then .swap
  else .stereo

def Document.setEqualizer (single : Rounding) (document : Document) (p : Params) : Params :=
  { p.setEqBands ((document.equalizer.bands.take 10).map fun b =>
      single.fl (number (some b.gain) (-240) 240 / (10 : ℤ))) with
    eqEnabled := document.equalizer.enabled }

def Document.setTone (document : Document) (p : Params) : Params :=
  let tone := document.tone
  let p := { p with
    bass := number tone.bass (-24) 24, treble := number tone.treble (-24) 24
    channelMode := channelToStr (toneChannel (tone.channels.getD "stereo"))
    stereoWidth := if tone.channels = some "wide" then 150 else number tone.stereoWidth 0 250 }
  match document.equalizer.dsp with
  | none => p
  | some dsp => { p with
    bass := number (some dsp.bass) (-24) 24, treble := number (some dsp.treble) (-24) 24
    channelMode := channelToStr (dspChannel dsp.channelMode)
    stereoWidth := max 0 (min 255 dsp.stereoWidth) }

def Document.apply (single double : Rounding) (document : Document) (p : Params) : Params :=
  let p := document.setTone (document.setEqualizer single p)
  let d := document.equalizer.dsp
  { p with
    crossfeedMode := crossfeedToStr (strToCrossfeed ((d.map (·.crossfeedMode)).getD "off"))
    directGain := roundHalfAway (double.fl
      (max (-6) (min 0 ((d.map (·.crossfeedDirect)).getD (-3 / 2))) * (10 : ℤ)))
    pbe := number (d.map (·.pbe)) 0 100
    pbePrecut := -number (d.map (·.pbePrecut)) 0 24 * 10
    surroundDelay := number (d.map (·.surroundDelay)) 0 30
    surroundBalance := max 0 (min 100 ((d.map (·.surroundBalance)).getD 35))
    compThreshold := number (d.map (·.compThreshold)) (-30) 0
    compRatio := compRatioIndex ((d.map (·.compRatio)).getD 2) }

def mobileApply (single double : Rounding) (r : AudioSettingsRecord) (document : Document)
    (p : Params) : Params :=
  (document.merge (fromRepoEqualizer (audioSettingsRecordToData double r))).apply single double p

end Atradio.Audio
