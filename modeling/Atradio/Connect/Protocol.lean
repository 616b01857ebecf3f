import Mathlib.Data.Rat.Defs
import Atradio.Lib.Utf16

/-! # The Connect wire protocol (`connect/protocol.ts`)

The hub never looks inside most of what a client sends: it stores ids, names,
platforms and playback states, forwards commands, compares ids and reads
`state.playing`. The handlers are therefore written over a `Payload`, the values of
those members together with the operations the hub applies to them. `protocol` is
the payload of the declared types; the payload of arbitrary JSON is in
`Atradio.Connect.Frames`. -/

namespace Atradio.Connect
open Atradio.Lib

abbrev Did := String

/-- The client-supplied values and what the hub does with them. `less` is `a < b` on
device ids, `playing` reads `state.playing` as a condition; `none` is the TypeError
the operation throws. `orUnknown` is `name || "Unknown device"`. -/
structure Payload where
  Id : Type
  Name : Type
  Platform : Type
  State : Type
  Cmd : Type
  [decId : DecidableEq Id]
  less : Id → Id → Option Bool
  orUnknown : Name → Name
  playing : State → Option Bool

attribute [instance] Payload.decId

/-! ### The declared types -/

structure StationLite where
  id : String
  name : String
  url : String
  favicon : Option String

structure PlaybackState where
  playing : Bool
  station : Option StationLite
  title : Option String
  volume : ℚ
  muted : Bool

inductive Platform where
  | web
  | cli
  | other

inductive Command where
  | playPause
  | play
  | pause
  | stop
  | setVolume (value : ℚ)
  | toggleMute
  | playStation (station : StationLite)

/-- Frames as `protocol.ts` declares them. -/
@[reducible] def protocol : Payload where
  Id := String
  Name := String
  Platform := Platform
  State := PlaybackState
  Cmd := Command
  less a b := some (stringLess a b)
  orUnknown name := if name = "" then "Unknown device" else name
  playing state := some state.playing

/-! ### Messages -/

variable (P : Payload)

structure HelloDevice where
  id : P.Id
  name : P.Name
  platform : P.Platform
  state : P.State

/-- A client frame. `hello none` is a hello whose `device` is null or missing, so that
reading a member of it throws; `other` is a frame with any other `t`. The token is not
kept: what the verifier makes of it arrives as an event of its own. -/
inductive Frame where
  | hello (device : Option (HelloDevice P))
  | state (state : P.State)
  | command (target : P.Id) (cmd : P.Cmd)
  | bye
  | other

structure DeviceInfo where
  id : P.Id
  name : P.Name
  platform : P.Platform
  self : Bool
  state : P.State

/-- Frames the hub sends. `presence` with `cleanup` false is the frame without that member. -/
inductive ServerMsg where
  | welcome (did : Did) (deviceId : P.Id)
  | devices (devices : List (DeviceInfo P))
  | command («from» : P.Id) (cmd : P.Cmd)
  | presence (anyPlaying cleanup : Bool)
  | error (code message : String)

structure WireDevice where
  did : Did
  deviceId : P.Id
  name : P.Name
  platform : P.Platform
  state : P.State
  connectedAt : ℕ

variable (I : Type)

/-- Relay messages between instances named by `I`. -/
inductive RelayMsg where
  | join («instance» : I) (device : WireDevice P)
  | update («instance» : I) (device : WireDevice P)
  | leave («instance» : I) (did : Did) (deviceId : P.Id)
  | command («instance» : I) (did : Did) (target «from» : P.Id) (cmd : P.Cmd)

end Atradio.Connect
