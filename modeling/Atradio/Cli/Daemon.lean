import Atradio.Cli.Tui.Jobs

/-! # The headless daemon (`cmd_daemon` in `cli.rs`)

A load waits for the resolution of its stream before the next event is taken. -/

namespace Atradio.Cli
open Atradio.Audio Atradio.Connect Atradio.Lib

structure Daemon (E : Engine) where
  current : Option StationLite
  player : Player E
  dsp : AudioSettings
  connectDevices : List Device
  connectTarget : Option String
  connectOnline : Bool
  grpcVersion : ℕ
  calls : List Call

/-- Commands come with what a load resolves to. -/
inductive DaemonEvent (E : Engine) where
  | peer (cmd : RemoteCmd) (resolved : Resolved)
  | grpc (cmd : GrpcCmd) (resolved : Resolved)
  | hub (evt : RemoteEvent)
  | tick
  | engine (transport : E.τ)

namespace Daemon

variable {E : Engine}

def callPlayer (d : Daemon E) (c : PlayerCall) : Daemon E :=
  { d with player := d.player.call c, calls := .player c :: d.calls }

def log (d : Daemon E) (c : Call) : Daemon E := { d with calls := c :: d.calls }

def handleRemoteCmd (d : Daemon E) (resolved : Resolved) : RemoteCmd → Daemon E
  | .play => d.callPlayer .play
  | .pause => d.callPlayer .pause
  | .playPause => d.callPlayer .toggle
  | .stop => { d.callPlayer .stop with current := none }
  | .setVolume v => d.callPlayer (.setVolume v)
  | .toggleMute => d.callPlayer .toggleMute
  | .loadStation s =>
    if resolved.isHls then d.log (.load (liteToStation s))
    else
      { d with
        player := d.player.playUrl resolved.url
        calls := .playUrl (liteToStation s) resolved.url :: .load (liteToStation s) :: d.calls
        current := some s }

/-- Answers are left out, and with them what only they are made of. -/
def applyGrpcCmd (d : Daemon E) (resolved : Resolved) : GrpcCmd → Daemon E
  | .remote cmd => d.handleRemoteCmd resolved cmd
  | .setAudio dsp => { d with dsp }.callPlayer (.applyDsp dsp)
  | .adjustDspRow row dir =>
    match adjust d.dsp row dir with
    | some dsp => { d with dsp }.callPlayer (.applyDsp dsp)
    | none => d
  | .setConnectTarget none =>
    match d.connectTarget with
    | some prev => { d with connectTarget := none }.log (.command prev .stop)
    | none => d
  | .setConnectTarget (some id) => { d with connectTarget := some id }
  | .favorite _ | .listStations _ _ | .comment _ _ => d

def applyRemoteEvent (d : Daemon E) : RemoteEvent → Daemon E
  | .status online => { d with connectOnline := online }
  | .devices devices =>
    { d with
      connectDevices := devices
      connectTarget := d.connectTarget.filter fun id => devices.any fun x => x.id = id && !x.isSelf }
  | .welcome _ | .presence _ _ | .authExpired _ => d

def wire (d : Daemon E) : WireState := d.player.wire d.current

def tick (d : Daemon E) : Daemon E :=
  let d := { d with grpcVersion := d.grpcVersion + 1 }
  d.log (.broadcast {
    wire := d.wire
    audio := d.dsp
    version := d.grpcVersion
    connectDevices := d.connectDevices
    connectTarget := d.connectTarget
    connectOnline := d.connectOnline })

/-- The engine starts no stream by itself. -/
def engineMoves (d : Daemon E) (transport : E.τ) : Daemon E :=
  if E.state transport = .playing ∧ E.state d.player.transport ≠ .playing then d
  else { d with player := { d.player with transport } }

def step (d : Daemon E) : DaemonEvent E → Daemon E
  | .peer cmd resolved => d.handleRemoteCmd resolved cmd
  | .grpc cmd resolved => d.applyGrpcCmd resolved cmd
  | .hub evt => d.applyRemoteEvent evt
  | .tick => d.tick
  | .engine transport => d.engineMoves transport

def start (volume : ℚ) (audio : AudioSettings) : Daemon E where
  current := none
  player := (Player.new.setVolume volume).call (.applyDsp audio)
  dsp := audio
  connectDevices := []
  connectTarget := none
  connectOnline := false
  grpcVersion := 0
  calls := []

end Daemon

end Atradio.Cli
