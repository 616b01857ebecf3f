import Atradio.Cli.Tui.Keys

/-! # The loop of the terminal UI (`run` in `tui/mod.rs`)

A turn renders and then takes one event. While a sign-in runs in the browser the loop takes
nothing else. -/

namespace Atradio.Cli
open Atradio.Audio Atradio.Connect Atradio.Lib

inductive MprisCmd where
  | playPause
  | play
  | pause
  | stop
  | setVolume (v : ℚ)

def MprisCmd.playerCall : MprisCmd → PlayerCall
  | .playPause => .toggle
  | .play => .play
  | .pause => .pause
  | .stop => .stop
  | .setVolume v => .setVolume v

def App.mirrored (a : App) (r : GrpcRemote) : App :=
  App.clampProfile <| App.clampSelection
    { a with
      current := r.mirror.wire.station.map liteToStation
      volume := r.mirror.wire.volume
      muted := r.mirror.wire.muted
      dsp := r.mirror.audio
      remoteDevices := r.mirror.connectDevices
      remoteTarget := r.mirror.connectTarget
      connectOnline := r.mirror.connectOnline
      favorites := r.lists.favorites.map liteToStation
      stations := r.lists.stations.map liteToStation
      profileRecent := r.lists.recent.map liteToStation
      grpcConnError := r.mirror.connError }

def MprisCmd.remoteCmd : MprisCmd → RemoteCmd
  | .playPause => .playPause
  | .play => .play
  | .pause => .pause
  | .stop => .stop
  | .setVolume v => .setVolume v

/-- The call that a command other than a load makes of the player. -/
def RemoteCmd.playerCall : RemoteCmd → Option PlayerCall
  | .playPause => some .toggle
  | .play => some .play
  | .pause => some .pause
  | .stop => some .stop
  | .setVolume v => some (.setVolume v)
  | .toggleMute => some .toggleMute
  | .loadStation _ => none

/-- A fresh roster; a target that dropped off is forgotten. -/
def App.setDevices (a : App) (devices : List Device) : App :=
  let present := a.remoteTarget.filter fun id => devices.any fun d => d.id = id && !d.isSelf
  { a with
    remoteDevices := devices
    remoteTarget := present
    deviceSel :=
      if 0 < devices.length ∧ devices.length ≤ a.deviceSel then devices.length - 1
      else a.deviceSel }

/-- `oauth` is the end of a sign-in and whether the terminal came back after it, `mirror` a change
that the threads of the gRPC client make, `engine` what the engine does by itself. -/
inductive TuiEvent (E : Engine) where
  | key (key : KeyEvent)
  | done (i : ℕ) (answer : Answer)
  | mpris (cmd : MprisCmd)
  | peer (cmd : RemoteCmd)
  | grpc (cmd : GrpcCmd)
  | hub (evt : RemoteEvent)
  | tick
  | oauth (result : Option Profile) (restored : Bool)
  | terminalFailed
  | mirror (r : GrpcRemote)
  | engine (transport : E.τ)

namespace Tui

variable {E : Engine}

def wire (t : Tui E) : WireState := t.player.wire (t.app.current.map stationToLite)

def render (t : Tui E) : Tui E :=
  match t.app.grpcRemote with
  | some r => t.edit fun a => a.mirrored r
  | none =>
    let t := { t with grpcVersion := t.grpcVersion + 1 }
    (t.edit fun a => { a with volume := t.player.volume, muted := t.player.isMuted }).log
      (.broadcast {
        wire := t.wire
        audio := t.app.dsp
        version := t.grpcVersion
        connectDevices := t.app.remoteDevices
        connectTarget := t.app.remoteTarget
        connectOnline := t.app.connectOnline })

/-! ### Messages -/

/-- `PlayResolved` plays only if the station is still the one being loaded. -/
def receive (t : Tui E) (job : Job) : Msg → Tui E
  | .playResolved stationId url =>
    match job.resolving with
    | some s =>
      if t.app.current.map StationInfo.stationId = some stationId then t.playUrl s url else t
    | none => t
  | msg =>
    let t := t.edit fun a => a.applyMsg msg
    match job.account with
    | some (list, actor) => t.log (.listed list actor)
    | none => t

def finish (t : Tui E) (i : ℕ) (answer : Answer) : Tui E :=
  match t.jobs[i]? with
  | none => t
  | some job =>
    let t := { t with jobs := t.jobs.eraseIdx i ++ job.next answer }
    match job.message answer with
    | none => t
    | some msg => t.receive job msg

/-! ### Commands of others -/

def applyRemoteCmd (t : Tui E) : RemoteCmd → Tui E
  | .play => t.callPlayer .play
  | .pause => t.callPlayer .pause
  | .playPause => t.callPlayer .toggle
  | .stop => t.callPlayer .stop
  | .setVolume v => t.callPlayer (.setVolume v)
  | .toggleMute => t.callPlayer .toggleMute
  | .loadStation s =>
    (t.edit fun a => { a with remoteTarget := none }).startPlaying (liteToStation s)

def applyGrpcCmd (t : Tui E) : GrpcCmd → Tui E
  | .remote cmd => t.applyRemoteCmd cmd
  | .setAudio dsp => (t.edit fun a => { a with dsp }).callPlayer (.applyDsp dsp)
  | .adjustDspRow row dir =>
    match adjust t.app.dsp row dir with
    | some dsp => (t.edit fun a => { a with dsp }).callPlayer (.applyDsp dsp)
    | none => t
  | .favorite s => if t.isLoggedIn then t.spawn [.favorite (liteToStation s)] else t
  | .listStations _ _ => t
  | .setConnectTarget none => t.takeBack
  | .setConnectTarget (some id) => t.edit fun a => { a with remoteTarget := some id }
  | .comment s text => if t.isLoggedIn then t.spawn [.comment (liteToStation s) text] else t

def applyRemoteEvent (t : Tui E) : RemoteEvent → Tui E
  | .status online => t.edit fun a => { a with connectOnline := online }
  | .welcome id => t.edit fun a => { a with selfDeviceId := some id }
  | .devices devices => t.edit fun a => a.setDevices devices
  | .presence _ cleanup => if cleanup && t.isLoggedIn then t.spawn [.deletePlayStatus] else t
  | .authExpired _ => t.edit fun a => { a with connectOnline := false }

def fireSearch (t : Tui E) : Tui E :=
  if t.app.searchDirty then
    let t := t.edit fun a => { a with searchDirty := false }
    if trim t.app.searchQuery = "" then t else t.spawn [.search t.app.searchQuery]
  else t

def refreshLists (t : Tui E) : Tui E :=
  match t.app.grpcRemote with
  | none => t
  | some r =>
    if 12 ≤ t.listRefresh + 1 then { t with listRefresh := 0 }.drive r.requestLists
    else { t with listRefresh := t.listRefresh + 1 }

def tick (t : Tui E) : Tui E := t.fireSearch.refreshLists

/-! ### Signing in, and leaving -/

/-- The audio settings are kept here, and in the account where there is one. -/
def pushAudio (t : Tui E) : Tui E :=
  let saved := t.log (.saveSettings t.app.dsp t.player.volume)
  match t.session with
  | none => saved
  | some account => saved.log (.putAudio account t.app.dsp)

/-- Nothing is kept of an instance that was controlled. -/
def exit (t : Tui E) : Tui E :=
  match t.app.grpcRemote with
  | some _ => { t with ended := true }
  | none => { t.pushAudio with ended := true }

def accountLoads (actor : Profile) : List Job :=
  [.load .favorites actor, .load .stations actor, .load .profileRecent actor]

def signedIn (t : Tui E) (p : Profile) : Tui E :=
  (t.edit fun a => a.applyMsg (.signedIn p)).spawn (accountLoads p ++ [.load .notifications p])

def closePrompt (t : Tui E) : Tui E :=
  t.edit fun a => { a with pendingOauth := none, overlay := .none }

/-- `login_oauth` has the profile in the session file before it returns. -/
def endOauth (t : Tui E) (result : Option Profile) (restored : Bool) : Tui E :=
  let t := { t.closePrompt with session := result.or t.session }
  if restored then
    match result with
    | some p => t.signedIn p
    | none => t
  else t.exit

def awaitOauth (t : Tui E) : TuiEvent E → Tui E
  | .oauth result restored => t.endOauth result restored
  | .terminalFailed => t.closePrompt.exit
  | _ => t

/-! ### Turns -/

variable (fuzzy : App.FuzzyMatch)

/-- The channels of Connect are closed without an account at the start, and an instance that drives
another one serves no gRPC. -/
def handle (t : Tui E) : TuiEvent E → Tui E
  | .key key => t.handleEvent fuzzy key
  | .done i answer => t.finish i answer
  | .mpris cmd => t.callPlayer cmd.playerCall
  | .peer cmd => if t.app.remoteControl then t.applyRemoteCmd cmd else t
  | .grpc cmd => if t.app.grpcRemote.isSome then t else t.applyGrpcCmd cmd
  | .hub evt => if t.app.remoteControl then t.applyRemoteEvent evt else t
  | .tick => t.tick
  | .terminalFailed => t.exit
  | .oauth _ _ | .mirror _ | .engine _ => t

def loopTurn (t : Tui E) (e : TuiEvent E) : Tui E :=
  let t := t.render
  if t.app.shouldQuit then t.exit else t.handle fuzzy e

/-- The engine starts no stream by itself. -/
def engineMoves (t : Tui E) (transport : E.τ) : Tui E :=
  if E.state transport = .playing ∧ E.state t.player.transport ≠ .playing then t
  else { t with player := { t.player with transport } }

def step (t : Tui E) (e : TuiEvent E) : Tui E :=
  match e with
  | .mirror r => if t.app.grpcRemote.isSome then t.drive r else t
  | .engine transport => t.engineMoves transport
  | e =>
    if t.ended then t
    else match t.app.pendingOauth with
      | some _ => t.awaitOauth e
      | none => t.loopTurn fuzzy e

/-- What a step comes to: another thread or the engine moves, or the loop takes its turn. -/
inductive Stepped (t : Tui E) (e : TuiEvent E) : Tui E → Prop
  | stays : Stepped t e t
  | mirrors (r : GrpcRemote) (hdrives : t.app.grpcRemote.isSome = true) : Stepped t e (t.drive r)
  | moves (transport : E.τ) : Stepped t e (t.engineMoves transport)
  | awaits (hrunning : t.ended = false) (hoauth : t.app.pendingOauth.isSome = true) :
      Stepped t e (t.awaitOauth e)
  | turns (hrunning : t.ended = false) : Stepped t e (t.loopTurn fuzzy e)

theorem stepped (t : Tui E) (e : TuiEvent E) : Stepped fuzzy t e (t.step fuzzy e) := by
  unfold step
  split
  · split
    · exact .mirrors _ ‹_›
    · exact .stays
  · exact .moves _
  · split
    · exact .stays
    · rename_i hended
      have hrunning : t.ended = false := Bool.not_eq_true _ ▸ hended
      split
      · rename_i hoauth
        exact .awaits hrunning (hoauth ▸ rfl)
      · exact .turns hrunning

/-! ### The start -/

/-- What `run` finds when it starts. -/
structure Startup where
  profile : Option Profile
  envCreds : Option (String × String)
  volume : ℚ
  audio : AudioSettings
  fetched : Fetched
  deviceId : String
  grpcRemote : Option GrpcRemote

/-- The settings of the account win over the local ones. -/
def pullAudio (t : Tui E) (account : Profile) (result : Fetched) : Tui E :=
  let t := t.log (.fetched account result)
  match result with
  | .record dsp =>
    ((t.edit fun a => { a with dsp }).log (.saveSettings dsp t.player.volume)).callPlayer
      (.applyDsp dsp)
  | .nothing | .failed => t

def opened (s : Startup) : Tui E where
  app :=
    { App.new s.profile.isSome (s.profile.map Profile.handle) with
      displayName := s.profile.bind Profile.displayName
      did := s.profile.map Profile.did
      method := s.profile.map Profile.method
      pds := s.profile.bind Profile.pds
      envCreds := s.envCreds
      dsp := s.audio }
  player := (Player.new.setVolume s.volume).call (.applyDsp s.audio)
  session := s.profile
  jobs := []
  listRefresh := 0
  grpcVersion := 0
  ended := false
  calls := []

def start (s : Startup) : Tui E :=
  let t := match s.profile with
    | none => opened s
    | some account => (opened s).pullAudio account s.fetched
  (t.edit fun a =>
    { a with
      remoteControl := s.profile.isSome
      selfDeviceId := some s.deviceId
      grpcRemote := s.grpcRemote.map GrpcRemote.requestLists }).spawn
    ([.trending, .popular, .recentGlobal] ++
      match s.profile with
      | none => []
      | some actor =>
        (if s.grpcRemote.isSome then [] else accountLoads actor) ++ [.load .notifications actor])

/-- Nobody is signed in, and no other instance is driven. -/
def sampleStartup : Startup where
  profile := none
  envCreds := none
  volume := 4 / 5
  audio := AudioSettings.default
  fetched := .nothing
  deviceId := "tui"
  grpcRemote := none

def sampleStation : StationInfo where
  stationId := "s1"
  name := "One"
  streamUrl := "http://one"
  source := "radio-browser"

end Tui

end Atradio.Cli
