import Mathlib.Algebra.Order.Ring.Unbundled.Rat
import Atradio.Connect.Protocol

/-! # Stations, states and commands of the terminal client (`remote.rs`)

Volumes are exact numbers. -/

namespace Atradio.Cli
open Atradio.Connect

/-- A station as the AppView serves it (`appview.rs`). -/
structure StationInfo where
  stationId : String
  name : String
  streamUrl : String
  source : String
  description : Option String := none
  genre : Option String := none
  homepage : Option String := none
  logo : Option String := none
  country : Option String := none
  language : Option String := none
  bitrate : Option ℕ := none
  codec : Option String := none
  tags : List String := []
  deriving DecidableEq

deriving instance DecidableEq for StationLite

abbrev WireState := PlaybackState

def WireState.default : WireState := ⟨false, none, none, 0, false⟩

structure Device where
  id : String
  name : String
  platform : String
  isSelf : Bool
  state : WireState

inductive RemoteCmd where
  | playPause
  | play
  | pause
  | stop
  | setVolume (value : ℚ)
  | toggleMute
  | loadStation (station : StationLite)
  deriving DecidableEq

inductive RemoteEvent where
  | status (online : Bool)
  | welcome (id : String)
  | devices (devices : List Device)
  | presence (anyPlaying cleanup : Bool)
  | authExpired (detail : String)

/-- `source_of` of the daemon, and the same in `lite_to_station` of the terminal UI. -/
def sourceOf (id : String) : String :=
  if "tunein:".toList.isPrefixOf id.toList then "tunein"
  else if "custom:".toList.isPrefixOf id.toList then "custom"
  else "radio-browser"

def stationToLite (s : StationInfo) : StationLite := ⟨s.stationId, s.name, s.streamUrl, s.logo⟩

def liteToStation (s : StationLite) : StationInfo where
  stationId := s.id
  name := s.name
  streamUrl := s.url
  source := sourceOf s.id
  logo := s.favicon

@[simp] theorem stationToLite_liteToStation (s : StationLite) :
    stationToLite (liteToStation s) = s := rfl

/-- `clamp(0.0, 1.0)` -/
def clampVolume (v : ℚ) : ℚ := max 0 (min 1 v)

theorem clampVolume_inside {v : ℚ} (h : 0 ≤ v ∧ v ≤ 1) : clampVolume v = v := by
  rw [clampVolume, min_eq_right h.2, max_eq_right h.1]

end Atradio.Cli
