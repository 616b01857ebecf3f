import Mathlib.Algebra.Order.Ring.Unbundled.Rat
import Atradio.Connect.Protocol
import Atradio.Lexicons.Mappers

/-! # The player of the browser and the device it controls

The atoms of `atoms/player.ts` and `atoms/connect.ts`, the states and stations that go over the wire
(`lib/connect/device.ts`) and `applyCommand` of `ConnectProvider.tsx`. An action returns the command
it has the Connect client send, with its target. -/

namespace Atradio.Web
open Atradio.Connect Atradio.Jetstream Atradio.Lexicons

inductive PlaybackStatus where
  | idle
  | loading
  | playing
  | error

/-- The atoms of one page. -/
structure Player where
  currentStation : Option Station
  isPlaying : Bool
  playbackStatus : PlaybackStatus
  nowPlaying : Option String
  volume : ℚ
  muted : Bool
  devices : List (DeviceInfo protocol)
  remoteTargetId : Option String

def stationToLite (s : Station) : StationLite := ⟨s.id, s.name, s.streamUrl, s.favicon⟩

def sourceOf (id : List Char) : StationSource :=
  if "tunein:".toList.isPrefixOf id then .tunein
  else if "custom:".toList.isPrefixOf id then .custom
  else .radioBrowser

def liteToStation (s : StationLite) : Station where
  id := s.id
  name := s.name
  description := none
  genre := none
  streamUrl := s.url
  homepage := none
  favicon := s.favicon
  country := none
  language := none
  bitrate := none
  codec := none
  tags := none
  source := sourceOf s.id.toList

/-- `if (id)` -/
def chosen (id : Option String) : Option String := id.filter (· ≠ "")

/-- A click that moves the playback, or that starts or pauses it. -/
inductive Transport where
  | playStation (station : Station)
  | togglePlay

namespace Player

/-- Volume and muting are kept by the browser. -/
def new (volume : ℚ) (muted : Bool) : Player where
  currentStation := none
  isPlaying := false
  playbackStatus := .idle
  nowPlaying := none
  volume := volume
  muted := muted
  devices := []
  remoteTargetId := none

def buildPlaybackState (p : Player) : PlaybackState where
  playing := p.isPlaying && p.currentStation.isSome
  station := p.currentStation.map stationToLite
  title := p.nowPlaying
  volume := p.volume
  muted := p.muted

/-- `remoteTargetAtom` -/
def remoteTarget (p : Player) : Option (DeviceInfo protocol) :=
  (chosen p.remoteTargetId).bind fun id => p.devices.find? fun d => d.id = id && !d.self

/-- `isRemoteActiveAtom` -/
def isRemoteActive (p : Player) : Bool := p.remoteTarget.isSome

def load (p : Player) (station : Station) : Player :=
  { p with currentStation := some station, isPlaying := true, playbackStatus := .loading }

/-- What an action does on a page that controls no device. -/
def locally (p : Player) : Transport → Player
  | .playStation station => p.load station
  | .togglePlay => if p.currentStation.isNone then p else { p with isPlaying := !p.isPlaying }

/-- What an action has a device do. -/
def remotely : Transport → Command
  | .playStation station => .playStation (stationToLite station)
  | .togglePlay => .playPause

/-- `playStationAtom` and `togglePlayAtom` -/
def transport (p : Player) (action : Transport) : Player × Option (String × Command) :=
  match chosen p.remoteTargetId with
  | some targetId => (p, some (targetId, remotely action))
  | none => (p.locally action, none)

theorem transport_local {p : Player} (h : chosen p.remoteTargetId = none) (action : Transport) :
    p.transport action = (p.locally action, none) := by
  unfold transport
  rw [h]

theorem transport_remote {p : Player} {id : String} (h : chosen p.remoteTargetId = some id)
    (action : Transport) : p.transport action = (p, some (id, remotely action)) := by
  unfold transport
  rw [h]

def playStation (p : Player) (station : Station) : Player × Option (String × Command) :=
  p.transport (.playStation station)

def togglePlay (p : Player) : Player × Option (String × Command) := p.transport .togglePlay

def control (p : Player) (deviceId : String) : Player :=
  { p with remoteTargetId := some deviceId, isPlaying := false }

/-- No device is controlled any more. -/
def release (p : Player) : Player := { p with remoteTargetId := none }

/-- What the roster has of the device that is controlled: `remoteDev?.state.station`. -/
def remoteStation (p : Player) : Option StationLite :=
  (p.devices.find? fun d => some d.id = p.remoteTargetId).bind (·.state.station)

/-- `selectDeviceAtom` -/
def selectDevice (p : Player) (deviceId : Option String) : Player × Option (String × Command) :=
  match chosen deviceId with
  | some id =>
    (p.control id,
      match p.currentStation with
      | some station =>
        if p.isPlaying then some (id, .playStation (stationToLite station)) else none
      | none => none)
  | none =>
    match p.remoteStation with
    | none => (p.release, none)
    | some station =>
      (p.release.load (liteToStation station),
        (chosen p.remoteTargetId).map fun prev => (prev, .stop))

/-- The device that is chosen gets the station if one plays here. -/
theorem selectDevice_some (p : Player) {deviceId : Option String} {id : String}
    (h : chosen deviceId = some id) :
    (p.selectDevice deviceId).1 = p.control id ∧
      ((p.selectDevice deviceId).2 = none ∨
        ∃ station, p.currentStation = some station ∧ p.isPlaying = true ∧
          (p.selectDevice deviceId).2 = some (id, .playStation (stationToLite station))) := by
  unfold selectDevice
  rw [h]
  refine ⟨rfl, ?_⟩
  cases p.currentStation with
  | none => exact Or.inl rfl
  | some station =>
    cases p.isPlaying with
    | false => exact Or.inl rfl
    | true => exact Or.inr ⟨station, rfl, rfl, rfl⟩

/-- The device that was controlled hands its station over, and is stopped. -/
theorem selectDevice_pull {p : Player} {deviceId : Option String} {station : StationLite}
    (h : chosen deviceId = none) (hstation : p.remoteStation = some station) :
    p.selectDevice deviceId = (p.release.load (liteToStation station),
      (chosen p.remoteTargetId).map fun prev => (prev, .stop)) := by
  unfold selectDevice
  rw [h, hstation]

theorem selectDevice_leave {p : Player} {deviceId : Option String} (h : chosen deviceId = none)
    (hstation : p.remoteStation = none) : p.selectDevice deviceId = (p.release, none) := by
  unfold selectDevice
  rw [h, hstation]

def applyCommand (p : Player) : Command → Player
  | .play => { p.release with isPlaying := true }
  | .pause => { p with isPlaying := false }
  | .playPause => { p with isPlaying := !p.isPlaying }
  | .stop => { p with isPlaying := false, currentStation := none, playbackStatus := .idle }
  | .setVolume value => { p with volume := min 1 (max 0 value) }
  | .toggleMute => { p with muted := !p.muted }
  | .playStation station => p.release.load (liteToStation station)

end Player

end Atradio.Web
