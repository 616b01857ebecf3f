import Atradio.Cli.Formats
import Atradio.Cli.Grpc

/-! # The state on the wire of the control API (`grpc/mod.rs`)

A text that is absent goes as an empty one. -/

namespace Atradio.Cli
open Atradio.Audio Atradio.Connect Atradio.Lib

/-! ### The messages -/

namespace Pb

/-- The values of `pb::PlaybackState`. -/
inductive PlaybackState where
  | stopped
  | playing
  | paused

def PlaybackState.value : PlaybackState → ℤ
  | .stopped => 0
  | .playing => 1
  | .paused => 2

structure Station where
  id : String
  name : String
  url : String
  favicon : String

structure ConnectDevice where
  id : String
  name : String
  platform : String
  isSelf : Bool
  playing : Bool
  station : Option Station

structure State where
  playback : ℤ
  station : Option Station
  title : String
  volume : ℚ
  muted : Bool
  audio : Option PbAudio
  version : ℕ
  connectDevices : List ConnectDevice
  connectTarget : String
  connectOnline : Bool

end Pb

/-! ### Conversions -/

/-- `(!s.is_empty()).then(|| s.clone())` -/
def unlessEmpty (s : String) : Option String := if s = "" then none else some s

def stationToPb (s : StationLite) : Pb.Station := ⟨s.id, s.name, s.url, s.favicon.getD ""⟩

def pbToStation (p : Pb.Station) : StationLite := ⟨p.id, p.name, p.url, unlessEmpty p.favicon⟩

def deviceToPb (d : Device) : Pb.ConnectDevice where
  id := d.id
  name := d.name
  platform := d.platform
  isSelf := d.isSelf
  playing := d.state.playing
  station := d.state.station.map stationToPb

def pbToDevice (p : Pb.ConnectDevice) : Device where
  id := p.id
  name := p.name
  platform := p.platform
  isSelf := p.isSelf
  state := { WireState.default with playing := p.playing, station := p.station.map pbToStation }

def playbackOf (w : WireState) : Pb.PlaybackState :=
  if w.playing then .playing else if w.station.isSome then .paused else .stopped

def stateToPb (single : Rounding) (s : GrpcState) : Pb.State where
  playback := (playbackOf s.wire).value
  station := s.wire.station.map stationToPb
  title := s.wire.title.getD ""
  volume := s.wire.volume
  muted := s.wire.muted
  audio := some (audioToPb single s.audio)
  version := s.version
  connectDevices := s.connectDevices.map deviceToPb
  connectTarget := s.connectTarget.getD ""
  connectOnline := s.connectOnline

def pbToState (single : Rounding) (p : Pb.State) : GrpcState where
  wire :=
    { playing := p.playback = Pb.PlaybackState.playing.value
      station := p.station.map pbToStation
      title := unlessEmpty p.title
      volume := p.volume
      muted := p.muted }
  audio := (p.audio.map (pbToAudio single)).getD AudioSettings.default
  version := p.version
  connectDevices := p.connectDevices.map pbToDevice
  connectTarget := unlessEmpty p.connectTarget
  connectOnline := p.connectOnline

/-! ### What is read of what was written -/

theorem nonEmptyText_some (s : String) : nonEmptyText (some s) = unlessEmpty s := by
  by_cases h : s = ""
  · subst h
    rfl
  · simp [nonEmptyText, unlessEmpty, h, Option.filter]

@[simp] theorem unlessEmpty_getD (s : Option String) :
    unlessEmpty (s.getD "") = nonEmptyText s := by
  cases s with
  | none => rfl
  | some s => exact (nonEmptyText_some s).symm

@[simp] theorem nonEmptyText_getD (s : Option String) : (nonEmptyText s).getD "" = s.getD "" := by
  cases s with
  | none => rfl
  | some s =>
    rw [nonEmptyText_some, unlessEmpty]
    split
    · rename_i h
      exact h.symm
    · rfl

theorem pbToStation_toPb (s : StationLite) : pbToStation (stationToPb s) = stationSent s := by
  simp [pbToStation, stationToPb, stationSent]

theorem stationToPb_sent (s : StationLite) : stationToPb (stationSent s) = stationToPb s := by
  simp [stationToPb, stationSent]

theorem pbToDevice_toPb (d : Device) : pbToDevice (deviceToPb d) = deviceSent d := by
  simp [pbToDevice, deviceToPb, deviceSent, Function.comp_def, pbToStation_toPb]

theorem deviceToPb_sent (d : Device) : deviceToPb (deviceSent d) = deviceToPb d := by
  simp [deviceToPb, deviceSent, Function.comp_def, stationToPb_sent]

theorem playbackOf_playing (w : WireState) :
    ((playbackOf w).value = Pb.PlaybackState.playing.value) ↔ w.playing = true := by
  unfold playbackOf
  cases w.playing with
  | true => simp
  | false => cases w.station <;> simp [Pb.PlaybackState.value]

/-- A state arrives as `stateSent` says, with its audio settings rounded. -/
theorem pbToState_toPb (single : Rounding) (s : GrpcState) :
    pbToState single (stateToPb single s) =
      { stateSent s with audio := pbToAudio single (audioToPb single s.audio) } := by
  simp [pbToState, stateToPb, stateSent, Function.comp_def, pbToStation_toPb, pbToDevice_toPb,
    playbackOf_playing]

/-! ### Written twice -/

/-- Gains and the direct gain are within their ranges; the other settings are whole numbers, which
go as they are. -/
structure AudioInRange (a : AudioSettings) : Prop where
  eqGains : ∀ band, -24 ≤ a.eqGains band ∧ a.eqGains band ≤ 24
  crossfeedDirect : -6 ≤ a.crossfeedDirect ∧ a.crossfeedDirect ≤ 0

section Audio
variable {R : OrderedRounding} {a : AudioSettings}

theorem InLexicon.audioInRange (h : InLexicon R.toRounding a) : AudioInRange a := by
  refine ⟨fun band => ?_, ?_⟩
  · obtain ⟨gain, hgain⟩ := h.eqGains band
    rw [hgain]
    exact ⟨by exact_mod_cast gain.property.1, by exact_mod_cast gain.property.2⟩
  · obtain ⟨tenths, htenths⟩ := h.crossfeedDirect
    have hlo : (-60 : ℚ) ≤ tenths.val := by exact_mod_cast tenths.property.1
    have hhi : (tenths.val : ℚ) ≤ 0 := by exact_mod_cast tenths.property.2
    have hlow := R.le_fl (n := -6) (x := tenths.val / (10 : ℤ)) (by norm_num)
      (by push_cast; linarith)
    have hhigh := R.fl_le (n := 0) (x := tenths.val / (10 : ℤ)) (by norm_num)
      (by push_cast; linarith)
    rw [htenths]
    exact ⟨by exact_mod_cast hlow, by exact_mod_cast hhigh⟩

theorem AudioInRange.tenths (h : AudioInRange a) :
    -60 ≤ roundHalfAway (R.fl (a.crossfeedDirect * (10 : ℤ))) ∧
      roundHalfAway (R.fl (a.crossfeedDirect * (10 : ℤ))) ≤ 0 := by
  obtain ⟨hlo, hhi⟩ := h.crossfeedDirect
  constructor
  · refine le_roundHalfAway (R.le_fl (by norm_num) ?_)
    push_cast
    linarith
  · refine roundHalfAway_le (R.fl_le (by norm_num) ?_)
    push_cast
    linarith

theorem AudioInRange.gain (h : AudioInRange a) (band : Fin 10) :
    -24 ≤ roundHalfAway (a.eqGains band) ∧ roundHalfAway (a.eqGains band) ≤ 24 := by
  obtain ⟨hlo, hhi⟩ := h.eqGains band
  exact ⟨le_roundHalfAway (by exact_mod_cast hlo), roundHalfAway_le (by exact_mod_cast hhi)⟩

/-- Gains and tenths that were rounded once are rounded to themselves. -/
theorem audioToPb_of_pb (h : AudioInRange a) :
    audioToPb R.toRounding (pbToAudio R.toRounding (audioToPb R.toRounding a)) =
      audioToPb R.toRounding a := by
  have hgain : ∀ band : Fin 10,
      saturate (roundHalfAway (R.fl (saturate (roundHalfAway (a.eqGains band)) : ℤ))) =
        saturate (roundHalfAway (a.eqGains band)) := by
    intro band
    obtain ⟨hlo, hhi⟩ := h.gain band
    have hsmall : |roundHalfAway (a.eqGains band)| ≤ 2 ^ 24 := abs_le.2 ⟨by omega, by omega⟩
    rw [saturate_of_small hsmall, R.exact _ hsmall, roundHalfAway_intCast,
      saturate_of_small hsmall]
  have htenths := h.tenths (R := R)
  have hsmall : |roundHalfAway (R.fl (a.crossfeedDirect * (10 : ℤ)))| ≤ 2 ^ 24 :=
    abs_le.2 ⟨by omega, by omega⟩
  have hdirect := roundHalfAway_tenths R.toRounding ⟨_, htenths⟩
  have hgains : (fun band : Fin 10 => saturate (roundHalfAway
      ((List.ofFn fun i => saturate (roundHalfAway (a.eqGains i)))[band.val]?.elim
        (AudioSettings.default.eqGains band) fun gain => R.fl gain))) =
      fun band => saturate (roundHalfAway (a.eqGains band)) := by
    funext band
    rw [List.getElem?_ofFn, dif_pos band.isLt, Option.elim_some]
    exact hgain band
  simp only [audioToPb, pbToAudio, strToCrossfeed_toStr, strToChannel_toStr,
    saturate_of_small hsmall, R.exact _ hsmall]
  rw [hgains, hdirect, saturate_of_small hsmall]

end Audio

theorem stateToPb_sent (single : Rounding) (s : GrpcState) (audio : AudioSettings)
    (h : audioToPb single audio = audioToPb single s.audio) :
    stateToPb single { stateSent s with audio } = stateToPb single s := by
  have hplayback : playbackOf { s.wire with
      station := s.wire.station.map stationSent, title := nonEmptyText s.wire.title } =
      playbackOf s.wire := by
    simp [playbackOf]
  simp only [stateToPb, stateSent, h, hplayback, List.map_map, Function.comp_def, deviceToPb_sent,
    Option.map_map, stationToPb_sent, nonEmptyText_getD]

/-- What a device of the roster is shown with. -/
def Device.shown (d : Device) : String × String × String × Bool × Bool × Option StationLite :=
  (d.id, d.name, d.platform, d.isSelf, d.state.playing, d.state.station)

/-- A state that was read is written as it was, and it was read up to empty texts. -/
theorem state_written_twice (R : OrderedRounding) (s : GrpcState) (h : AudioInRange s.audio) :
    let read := pbToState R.toRounding (stateToPb R.toRounding s)
    stateToPb R.toRounding read = stateToPb R.toRounding s ∧
      read.wire.playing = s.wire.playing ∧
      read.wire.station = s.wire.station.map stationSent ∧
      read.wire.title = nonEmptyText s.wire.title ∧
      read.wire.volume = s.wire.volume ∧
      read.wire.muted = s.wire.muted ∧
      read.version = s.version ∧
      read.connectTarget = nonEmptyText s.connectTarget ∧
      read.connectDevices.map Device.shown =
        s.connectDevices.map fun d =>
          { d with state := { d.state with station := d.state.station.map stationSent } }.shown := by
  rw [pbToState_toPb]
  refine ⟨stateToPb_sent _ s _ (audioToPb_of_pb h), rfl, rfl, rfl, rfl, rfl, rfl, rfl, ?_⟩
  simp [stateSent, Function.comp_def, Device.shown, deviceSent]

/-- A station whose directory entry has an empty icon. -/
def iconless : StationLite := ⟨"s1", "One", "http://one", some ""⟩

def quietState : GrpcState where
  wire := ⟨true, some iconless, none, 4 / 5, false⟩
  audio := quiet
  version := 1
  connectDevices := []
  connectTarget := none
  connectOnline := true

theorem quiet_audioInRange : AudioInRange quietState.audio :=
  InLexicon.audioInRange (R := OrderedRounding.exactly) quiet_inLexicon

theorem quietState_written_twice :
    stateToPb .exactly (pbToState .exactly (stateToPb .exactly quietState)) =
      stateToPb .exactly quietState :=
  (state_written_twice .exactly quietState quiet_audioInRange).1

/-- The empty icon is read as none. -/
theorem icon_lost : AudioInRange quietState.audio ∧
    (pbToState .exactly (stateToPb .exactly quietState)).wire.station ≠ quietState.wire.station :=
  ⟨quiet_audioInRange, by decide⟩

end Atradio.Cli
