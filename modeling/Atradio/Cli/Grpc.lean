import Atradio.Cli.DspRows
import Atradio.Cli.Remote

/-! # The gRPC control API (`grpc/mod.rs`, `grpc/client.rs`, `grpc/server.rs`)

The state that goes over the wire, the commands, and the client's mirror with the edits made to it
before the server knows of them. -/

namespace Atradio.Cli
open Atradio.Audio Atradio.Connect Atradio.Lib

inductive StationSource where
  | favorites
  | stations
  | recent

/-- What the service forwards to the loop that owns the player, less the reply channels. -/
inductive GrpcCmd where
  | remote (cmd : RemoteCmd)
  | setAudio (audio : AudioSettings)
  | adjustDspRow (row : ℕ) (dir : ℤ)
  | favorite (station : StationLite)
  | listStations (source : StationSource) (limit : ℕ)
  | comment (station : StationLite) (text : String)
  | setConnectTarget (target : Option String)

structure GrpcState where
  wire : WireState
  audio : AudioSettings
  version : ℕ
  connectDevices : List Device
  connectTarget : Option String
  connectOnline : Bool

/-! ### What arrives of a state

`pb_to_state` of `state_to_pb`: empty texts are absent ones, gains are whole. -/

def nonEmptyText (s : Option String) : Option String := s.filter (· ≠ "")

def stationSent (s : StationLite) : StationLite := { s with favicon := nonEmptyText s.favicon }

def audioSent (a : AudioSettings) : AudioSettings :=
  { a with
    eqGains := fun band => roundHalfAway (a.eqGains band)
    crossfeedMode := strToCrossfeed (crossfeedToStr a.crossfeedMode)
    crossfeedDirect := (roundHalfAway (a.crossfeedDirect * 10) : ℚ) / 10
    channelMode := strToChannel (channelToStr a.channelMode) }

def deviceSent (d : Device) : Device :=
  { d with
    state := { WireState.default with
      playing := d.state.playing, station := d.state.station.map stationSent } }

def stateSent (s : GrpcState) : GrpcState :=
  { wire := { s.wire with
      station := s.wire.station.map stationSent, title := nonEmptyText s.wire.title }
    audio := audioSent s.audio
    version := s.version
    connectDevices := s.connectDevices.map deviceSent
    connectTarget := nonEmptyText s.connectTarget
    connectOnline := s.connectOnline }

/-! ### The client -/

structure Mirror where
  wire : WireState
  audio : AudioSettings
  connError : Option String
  connectDevices : List Device
  connectTarget : Option String
  connectOnline : Bool

def Mirror.default : Mirror := ⟨WireState.default, AudioSettings.default, none, [], none, false⟩

def applyState (m : Mirror) (gs : GrpcState) (settled : Bool) : Mirror :=
  let m := { m with connectDevices := gs.connectDevices, connectOnline := gs.connectOnline }
  if settled then { m with wire := gs.wire, audio := gs.audio, connectTarget := gs.connectTarget }
  else { m with wire := { m.wire with title := gs.wire.title } }

structure RemoteLists where
  favorites : List StationLite
  stations : List StationLite
  recent : List StationLite

inductive Cmd where
  | playPause
  | stop
  | toggleMute
  | setVolume (value : ℚ)
  | loadStation (station : StationLite)
  | adjustDspRow (row : ℕ) (dir : ℤ)
  | favorite (station : StationLite)
  | comment (station : StationLite) (text : String)
  | setConnectTarget (target : Option String)
  | listStations (source : StationSource)

/-- The handle of the controller: `cmds` are the commands not taken by `command_loop` yet. -/
structure GrpcRemote where
  mirror : Mirror
  lists : RemoteLists
  cmds : List Cmd
  pending : ℕ

namespace GrpcRemote

def edit (r : GrpcRemote) (f : Mirror → Mirror) : GrpcRemote := { r with mirror := f r.mirror }

/-- The edit of the mirror's playback state. -/
def editWire (r : GrpcRemote) (f : WireState → WireState) : GrpcRemote :=
  r.edit fun m => { m with wire := f m.wire }

/-- `pending.fetch_add(1)` -/
def countUp (r : GrpcRemote) : GrpcRemote := { r with pending := r.pending + 1 }

def enqueue (r : GrpcRemote) (cmd : Cmd) : GrpcRemote := { r with cmds := r.cmds ++ [cmd] }

def send (r : GrpcRemote) (cmd : Cmd) : GrpcRemote := r.countUp.enqueue cmd

def setConnectTarget (r : GrpcRemote) (deviceId : Option String) : GrpcRemote :=
  (r.edit fun m => { m with connectTarget := deviceId }).send (.setConnectTarget deviceId)

/-- List fetches are not counted as pending. -/
def requestLists (r : GrpcRemote) : GrpcRemote :=
  ((r.enqueue (.listStations .favorites)).enqueue (.listStations .stations)).enqueue
    (.listStations .recent)

def playPause (r : GrpcRemote) : GrpcRemote :=
  (r.editWire fun w => { w with playing := !w.playing }).send .playPause

def stop (r : GrpcRemote) : GrpcRemote :=
  (r.editWire fun w => { w with playing := false, station := none }).send .stop

def toggleMute (r : GrpcRemote) : GrpcRemote :=
  (r.editWire fun w => { w with muted := !w.muted }).send .toggleMute

def editVolume (r : GrpcRemote) (v : ℚ) : GrpcRemote := r.editWire fun w => { w with volume := v }

def setVolume (r : GrpcRemote) (v : ℚ) : GrpcRemote :=
  (r.editVolume (clampVolume v)).send (.setVolume (clampVolume v))

/-- What `bump_volume` asks for, from the mirror's volume. -/
def nextVolume (r : GrpcRemote) (delta : ℚ) : ℚ := clampVolume (r.mirror.wire.volume + delta)

def bumpVolume (r : GrpcRemote) (delta : ℚ) : GrpcRemote := r.setVolume (r.nextVolume delta)

def loadStation (r : GrpcRemote) (station : StationLite) : GrpcRemote :=
  (r.editWire fun w => { w with station := some station, playing := true }).send
    (.loadStation station)

def adjustDspRow (r : GrpcRemote) (row : ℕ) (dir : ℤ) : GrpcRemote :=
  (r.edit fun m => { m with audio := (adjust m.audio row dir).getD m.audio }).send
    (.adjustDspRow row dir)

def favorite (r : GrpcRemote) (station : StationLite) : GrpcRemote := r.send (.favorite station)

def comment (r : GrpcRemote) (station : StationLite) (text : String) : GrpcRemote :=
  r.send (.comment station text)

/-- A snapshot of the watch stream. -/
def watched (r : GrpcRemote) (state : GrpcState) : GrpcRemote :=
  r.edit fun m => applyState { m with connError := none } (stateSent state) (r.pending = 0 : Bool)

/-- The answer to a command. -/
def answered (r : GrpcRemote) : GrpcRemote := { r with pending := r.pending - 1 }

end GrpcRemote

/-! ### The service -/

/-- What the RPC of a client command forwards to the loop, before it answers. -/
def Cmd.forward : Cmd → GrpcCmd
  | .playPause => .remote .playPause
  | .stop => .remote .stop
  | .toggleMute => .remote .toggleMute
  | .setVolume v => .remote (.setVolume (clampVolume v))
  | .loadStation s => .remote (.loadStation (stationSent s))
  | .adjustDspRow row dir => .adjustDspRow row dir
  | .favorite s => .favorite (stationSent s)
  | .comment s text => .comment (stationSent s) text
  | .setConnectTarget target => .setConnectTarget (nonEmptyText target)
  | .listStations source => .listStations source 0

end Atradio.Cli
