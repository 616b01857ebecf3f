import Atradio.Audio.Formats

/-! # Storage formats of the audio settings (`settings.rs`, `grpc/mod.rs`)

The synced record, the settings file and the message of the control API. -/

namespace Atradio.Cli
open Atradio.Audio Atradio.Lib

/-! ### The synced record -/

/-- What a generated enumeration is written as. -/
def crossfeedToRecord : CrossfeedMode → String
  | .off => "off"
  | .meier => "meier"
  | .custom => "custom"

def channelToRecord : ChannelMode → String
  | .stereo => "stereo"
  | .mono => "mono"
  | .custom => "custom"
  | .monoLeft => "mono-left"
  | .monoRight => "mono-right"
  | .karaoke => "karaoke"
  | .swap => "swap"

def audioToRecord (single : Rounding) (a : AudioSettings) (updatedAt : String) : BuiltRecord where
  eqEnabled := a.eqEnabled
  eqGains := List.ofFn fun band => roundHalfAway (a.eqGains band)
  bass := a.bass
  treble := a.treble
  crossfeedMode := crossfeedToRecord a.crossfeedMode
  crossfeedDirect := roundHalfAway (single.fl (a.crossfeedDirect * (10 : ℤ)))
  pbe := a.pbe
  pbePrecut := a.pbePrecut
  surroundDelay := a.surroundDelay
  surroundBalance := a.surroundBalance
  compThreshold := a.compThreshold
  compRatio := a.compRatio
  channelMode := channelToRecord a.channelMode
  stereoWidth := a.stereoWidth
  updatedAt := updatedAt

/-! ### The settings file -/

/-- The fields of the file that hold the volume and the DSP chain. -/
structure Settings where
  volume : ℚ
  eqEnabled : Bool
  eqGains : List ℚ
  bass : ℤ
  treble : ℤ
  crossfeedMode : String
  crossfeedDirect : ℚ
  pbe : ℤ
  pbePrecut : ℤ
  surroundDelay : ℤ
  surroundBalance : ℤ
  compThreshold : ℤ
  compRatio : ℤ
  channelMode : String
  stereoWidth : ℤ

def Settings.audio (s : Settings) : AudioSettings where
  eqEnabled := s.eqEnabled
  eqGains := fun band => s.eqGains[band.val]?.getD (AudioSettings.default.eqGains band)
  bass := s.bass
  treble := s.treble
  crossfeedMode := strToCrossfeed s.crossfeedMode
  crossfeedDirect := s.crossfeedDirect
  pbe := s.pbe
  pbePrecut := s.pbePrecut
  surroundDelay := s.surroundDelay
  surroundBalance := s.surroundBalance
  compThreshold := s.compThreshold
  compRatio := s.compRatio
  channelMode := strToChannel s.channelMode
  stereoWidth := s.stereoWidth

def Settings.updateFrom (s : Settings) (audio : AudioSettings) (volume : ℚ) : Settings :=
  { s with
    volume
    eqEnabled := audio.eqEnabled
    eqGains := List.ofFn audio.eqGains
    bass := audio.bass
    treble := audio.treble
    crossfeedMode := crossfeedToStr audio.crossfeedMode
    crossfeedDirect := audio.crossfeedDirect
    pbe := audio.pbe
    pbePrecut := audio.pbePrecut
    surroundDelay := audio.surroundDelay
    surroundBalance := audio.surroundBalance
    compThreshold := audio.compThreshold
    compRatio := audio.compRatio
    channelMode := channelToStr audio.channelMode
    stereoWidth := audio.stereoWidth }

/-! ### The message -/

/-- `as i32` of a rounded float saturates. -/
def saturate (n : ℤ) : ℤ := max (-2 ^ 31) (min (2 ^ 31 - 1) n)

/-- `pb::AudioSettings`; every number is an `int32`. -/
structure PbAudio where
  eqEnabled : Bool
  eqGains : List ℤ
  bass : ℤ
  treble : ℤ
  crossfeedMode : String
  crossfeedDirectTenths : ℤ
  pbe : ℤ
  pbePrecut : ℤ
  surroundDelay : ℤ
  surroundBalance : ℤ
  compThreshold : ℤ
  compRatio : ℤ
  channelMode : String
  stereoWidth : ℤ

def audioToPb (single : Rounding) (a : AudioSettings) : PbAudio where
  eqEnabled := a.eqEnabled
  eqGains := List.ofFn fun band => saturate (roundHalfAway (a.eqGains band))
  bass := a.bass
  treble := a.treble
  crossfeedMode := crossfeedToStr a.crossfeedMode
  crossfeedDirectTenths := saturate (roundHalfAway (single.fl (a.crossfeedDirect * (10 : ℤ))))
  pbe := a.pbe
  pbePrecut := a.pbePrecut
  surroundDelay := a.surroundDelay
  surroundBalance := a.surroundBalance
  compThreshold := a.compThreshold
  compRatio := a.compRatio
  channelMode := channelToStr a.channelMode
  stereoWidth := a.stereoWidth

def pbToAudio (single : Rounding) (p : PbAudio) : AudioSettings where
  eqEnabled := p.eqEnabled
  eqGains := fun band =>
    p.eqGains[band.val]?.elim (AudioSettings.default.eqGains band) fun gain => single.fl gain
  bass := p.bass
  treble := p.treble
  crossfeedMode := strToCrossfeed p.crossfeedMode
  crossfeedDirect := single.fl (single.fl p.crossfeedDirectTenths / (10 : ℤ))
  pbe := p.pbe
  pbePrecut := p.pbePrecut
  surroundDelay := p.surroundDelay
  surroundBalance := p.surroundBalance
  compThreshold := p.compThreshold
  compRatio := p.compRatio
  channelMode := strToChannel p.channelMode
  stereoWidth := p.stereoWidth

/-! ### Modes -/

@[simp] theorem strToCrossfeed_toStr (m : CrossfeedMode) : strToCrossfeed (crossfeedToStr m) = m := by
  cases m <;> rfl

@[simp] theorem strToChannel_toStr (m : ChannelMode) : strToChannel (channelToStr m) = m := by
  cases m <;> rfl

/-- The two tables of the source agree. -/
theorem crossfeedToRecord_eq (m : CrossfeedMode) : crossfeedToRecord m = crossfeedToStr m := by
  cases m <;> rfl

theorem channelToRecord_eq (m : ChannelMode) : channelToRecord m = channelToStr m := by
  cases m <;> rfl

theorem crossfeedToStr_mem (m : CrossfeedMode) : crossfeedToStr m ∈ crossfeedModes := by
  cases m <;> simp [crossfeedToStr, crossfeedModes]

theorem channelToStr_mem (m : ChannelMode) : channelToStr m ∈ channelModes := by
  cases m <;> simp [channelToStr, channelModes]

/-! ### Round trips -/

/-- Settings within their ranges: whole gains, the direct gain in tenths of a decibel. -/
structure InLexicon (single : Rounding) (a : AudioSettings) : Prop where
  eqGains : ∀ band, ∃ gain : Ranged (-24) 24, a.eqGains band = gain.val
  bass : -24 ≤ a.bass ∧ a.bass ≤ 24
  treble : -24 ≤ a.treble ∧ a.treble ≤ 24
  crossfeedDirect : ∃ tenths : Ranged (-60) 0, a.crossfeedDirect = single.fl (tenths.val / (10 : ℤ))
  pbe : 0 ≤ a.pbe ∧ a.pbe ≤ 100
  pbePrecut : 0 ≤ a.pbePrecut ∧ a.pbePrecut ≤ 24
  surroundDelay : 0 ≤ a.surroundDelay ∧ a.surroundDelay ≤ 30
  surroundBalance : 0 ≤ a.surroundBalance ∧ a.surroundBalance ≤ 100
  compThreshold : -30 ≤ a.compThreshold ∧ a.compThreshold ≤ 0
  compRatio : 2 ≤ a.compRatio ∧ a.compRatio ≤ 10
  stereoWidth : 0 ≤ a.stereoWidth ∧ a.stereoWidth ≤ 255

section RoundTrips

variable {single : Rounding} {a : AudioSettings}

theorem saturate_of_small {n : ℤ} (h : |n| ≤ 2 ^ 24) : saturate n = n := by
  obtain ⟨hlo, hhi⟩ := abs_le.1 h
  unfold saturate
  omega

theorem roundHalfAway_tenths (R : Rounding) (tenths : Ranged (-60) 0) :
    roundHalfAway (R.fl (R.fl (tenths.val / (10 : ℤ)) * (10 : ℤ))) = tenths.val :=
  roundHalfAway_eq (fl_direct R tenths)

theorem InLexicon.gain_round (h : InLexicon single a) (band : Fin 10) :
    -24 ≤ roundHalfAway (a.eqGains band) ∧ roundHalfAway (a.eqGains band) ≤ 24 ∧
      (roundHalfAway (a.eqGains band) : ℚ) = a.eqGains band := by
  obtain ⟨gain, hgain⟩ := h.eqGains band
  rw [hgain, roundHalfAway_intCast]
  exact ⟨gain.property.1, gain.property.2, rfl⟩

theorem InLexicon.gain_fl (h : InLexicon single a) (band : Fin 10) :
    single.fl (roundHalfAway (a.eqGains band) : ℤ) = a.eqGains band := by
  obtain ⟨hlo, hhi, heq⟩ := h.gain_round band
  rw [fl_gain single ⟨_, hlo, hhi⟩]
  exact heq

theorem InLexicon.built (h : InLexicon single a) (updatedAt : String) :
    (audioToRecord single a updatedAt).InRange := by
  obtain ⟨tenths, htenths⟩ := h.crossfeedDirect
  have hdirect := roundHalfAway_tenths single tenths
  rw [← htenths] at hdirect
  constructor
  case eqGains =>
    intro gain hgain
    obtain ⟨band, rfl⟩ := (List.mem_ofFn' _ _).1 hgain
    exact ⟨(h.gain_round band).1, (h.gain_round band).2.1⟩
  case crossfeedDirect =>
    simp only [audioToRecord, hdirect]
    exact tenths.property
  case crossfeedMode =>
    simp only [audioToRecord, crossfeedToRecord_eq]
    exact crossfeedToStr_mem _
  case channelMode =>
    simp only [audioToRecord, channelToRecord_eq]
    exact channelToStr_mem _
  exacts [h.bass, h.treble, h.pbe, h.pbePrecut, h.surroundDelay, h.surroundBalance,
    h.compThreshold, h.compRatio, h.stereoWidth]

theorem getElem?_pmap_ofFn {n : ℕ} {lo hi : ℤ} {f : Fin n → ℤ}
    (h : ∀ g ∈ List.ofFn f, lo ≤ g ∧ g ≤ hi) (i : Fin n) :
    (((List.ofFn f).pmap Subtype.mk h : List (Ranged lo hi))[i.val]?).map Subtype.val =
      some (f i) := by
  rw [← List.getElem?_map, map_val_pmap, List.getElem?_ofFn, dif_pos i.isLt]

theorem audio_of_record (h : InLexicon single a) (updatedAt : String) :
    audioFromRecord single ((audioToRecord single a updatedAt).record (h.built updatedAt)) = a := by
  obtain ⟨tenths, htenths⟩ := h.crossfeedDirect
  have hdirect := roundHalfAway_tenths single tenths
  rw [← htenths] at hdirect
  have hgains : (fun band : Fin 10 =>
      ((((audioToRecord single a updatedAt).eqGains.pmap Subtype.mk (h.built updatedAt).eqGains :
        List (Ranged (-24) 24))[band.val]?).elim (AudioSettings.default.eqGains band)
          fun gain => single.fl gain.val)) = a.eqGains := by
    funext band
    have hget := getElem?_pmap_ofFn (h.built updatedAt).eqGains band
    obtain ⟨gain, hgain, hval⟩ := Option.map_eq_some_iff.1 hget
    have hgain' : ((audioToRecord single a updatedAt).eqGains.pmap Subtype.mk
      (h.built updatedAt).eqGains : List (Ranged (-24) 24))[band.val]? = some gain := hgain
    rw [hgain', Option.elim_some, hval]
    exact h.gain_fl band
  simp only [audioFromRecord, BuiltRecord.record, coalesce, Option.elim_some, Option.getD_some]
  rw [hgains]
  simp only [audioToRecord, crossfeedToRecord_eq, channelToRecord_eq, strToCrossfeed_toStr,
    strToChannel_toStr, hdirect, ← htenths]

theorem audio_of_settings (s : Settings) (volume : ℚ) : (s.updateFrom a volume).audio = a := by
  have hgains : (fun band : Fin 10 => (List.ofFn a.eqGains)[band.val]?.getD
      (AudioSettings.default.eqGains band)) = a.eqGains := by
    funext band
    rw [List.getElem?_ofFn, dif_pos band.isLt, Option.getD_some]
  simp only [Settings.audio, Settings.updateFrom, strToCrossfeed_toStr, strToChannel_toStr]
  rw [hgains]

theorem InLexicon.gain_saturate (h : InLexicon single a) (band : Fin 10) :
    single.fl (saturate (roundHalfAway (a.eqGains band)) : ℤ) = a.eqGains band := by
  obtain ⟨hlo, hhi, -⟩ := h.gain_round band
  rw [saturate_of_small (abs_le.2 ⟨by omega, by omega⟩)]
  exact h.gain_fl band

theorem audio_of_pb (h : InLexicon single a) : pbToAudio single (audioToPb single a) = a := by
  obtain ⟨tenths, htenths⟩ := h.crossfeedDirect
  have hdirect := roundHalfAway_tenths single tenths
  rw [← htenths] at hdirect
  have hsmall : |tenths.val| ≤ 2 ^ 24 := by
    have hrange := tenths.property
    exact abs_le.2 ⟨by omega, by omega⟩
  have hgains : (fun band : Fin 10 =>
      (List.ofFn fun i => saturate (roundHalfAway (a.eqGains i)))[band.val]?.elim
        (AudioSettings.default.eqGains band) fun gain => single.fl gain) = a.eqGains := by
    funext band
    rw [List.getElem?_ofFn, dif_pos band.isLt, Option.elim_some]
    exact h.gain_saturate band
  simp only [pbToAudio, audioToPb, strToCrossfeed_toStr, strToChannel_toStr, hdirect,
    saturate_of_small hsmall, single.exact _ hsmall, ← htenths]
  rw [hgains]

/-- What is written in any of the formats is read back. -/
theorem settings_survive {double : Rounding} {d : AudioSettingsData} (ha : InLexicon single a)
    (hd : d.Valid double) (s : Settings) (volume : ℚ) (updatedAt : String) :
    (∃ h, audioFromRecord single ((audioToRecord single a updatedAt).record h) = a) ∧
      (s.updateFrom a volume).audio = a ∧
      pbToAudio single (audioToPb single a) = a ∧
      (∃ h, audioSettingsRecordToData double
        ((buildAudioSettingsRecord double d updatedAt).record h) = d) ∧
      (audioSettingsRecordSchema (audioToRecord single a updatedAt).json).isSome ∧
      (audioSettingsRecordSchema (buildAudioSettingsRecord double d updatedAt).json).isSome :=
  ⟨⟨ha.built updatedAt, audio_of_record ha updatedAt⟩, audio_of_settings s volume,
    audio_of_pb ha, ⟨hd.built updatedAt, data_of_built hd updatedAt⟩,
    (ha.built updatedAt).accepted, (hd.built updatedAt).accepted⟩

end RoundTrips

def quiet : AudioSettings :=
  { AudioSettings.default with
    eqGains := fun _ => -24, crossfeedMode := .meier, crossfeedDirect := -7 / 10
    channelMode := .monoLeft, stereoWidth := 255 }

def quietData : AudioSettingsData :=
  { DEFAULT_AUDIO_SETTINGS with eqGains := [-24, 24], crossfeedDirect := -7 / 10 }

def quietFile : Settings :=
  { volume := 1 / 2, eqEnabled := true, eqGains := [], bass := 0, treble := 0
    crossfeedMode := "", crossfeedDirect := 0, pbe := 0, pbePrecut := 0, surroundDelay := 0
    surroundBalance := 0, compThreshold := 0, compRatio := 2, channelMode := ""
    stereoWidth := 100 }

theorem quiet_inLexicon : InLexicon .exactly quiet := by
  constructor
  case eqGains => exact fun _ => ⟨⟨-24, by decide⟩, by simp [quiet]⟩
  case crossfeedDirect => exact ⟨⟨-7, by decide⟩, by simp [quiet, Rounding.exactly]⟩
  all_goals decide

theorem quietData_valid : quietData.Valid .exactly := by
  constructor
  case crossfeedDirect => exact ⟨⟨-7, by decide⟩, by simp [quietData, Rounding.exactly]⟩
  case crossfeedMode => simp [quietData, DEFAULT_AUDIO_SETTINGS, crossfeedModes]
  case channelMode => simp [quietData, DEFAULT_AUDIO_SETTINGS, channelModes]
  all_goals decide

theorem quiet_survives :
    (quietFile.updateFrom quiet (1 / 4)).audio = quiet ∧
      pbToAudio .exactly (audioToPb .exactly quiet) = quiet := by
  obtain ⟨_, hfile, hpb, _⟩ := settings_survive quiet_inLexicon quietData_valid quietFile (1 / 4)
    "2026-01-01T00:00:00Z"
  exact ⟨hfile, hpb⟩

end Atradio.Cli
