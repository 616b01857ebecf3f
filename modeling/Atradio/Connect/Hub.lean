import Mathlib.Data.List.Sort
import Atradio.Lib.Table
import Atradio.Lib.Run
import Atradio.Connect.Protocol

/-! # The Connect hub (`connect/hub.ts`)

One hub process: its registries, the sockets it serves with the closure variables of
their connection handlers, and the effects of the event being handled. Each function
below is the function of that name in the source; a function that may throw a TypeError
returns in `Outcome`, which keeps the hub as the throw leaves it. -/

namespace Atradio.Connect
open Atradio.Lib

/-- Remote devices unheard-of for this long are dropped (`HEARTBEAT_MS * 3`). -/
def REMOTE_TTL_MS : ℕ := 90000

abbrev SockId := ℕ

section Data

variable (P : Payload)

/-- A device connected to this instance. `hello` numbers the `onHello` call that made
the object: with `ws` it is the identity `!==` compares. -/
structure LocalConn extends WireDevice P where
  ws : SockId
  hello : ℕ
  alive : Bool

/-- `readyState` of a socket; `closed` is reached when its close event is emitted. -/
inductive ReadyState where
  | open
  | closing
  | closed
  deriving DecidableEq

/-- A socket with the variables of its connection handler: `conn`, whether `helloTimer`
is armed, how many `onHello` calls it started and which of them await `verifyToken`. -/
structure Sock where
  readyState : ReadyState := .open
  conn : Option (LocalConn P) := none
  helloTimer : Bool := true
  hellos : ℕ := 0
  verifying : List (ℕ × Option (HelloDevice P)) := []

variable (I : Type)

/-- A device connected to another instance, learned via the relay. -/
structure RemoteDevice extends WireDevice P where
  origin : I
  lastSeen : ℕ

/-- What handling an event does to the outside. -/
inductive Effect where
  | sent (ws : SockId) (msg : ServerMsg P)
  | closing (ws : SockId) (code : ℕ) (reason : String)
  | published (msg : RelayMsg P I)

/-- deviceId → conn -/
abbrev LocalMap := Table fun c : LocalConn P => c.deviceId

/-- deviceId → remote device -/
abbrev RemoteMap := Table fun d : RemoteDevice P I => d.deviceId

/-- A hub process. `redis` says whether `pub` is set; `out` collects the effects of the
event being handled; `crashed` is set by an uncaught exception, which ends the process. -/
structure Hub where
  instanceId : I
  redis : Bool
  localReg : JsMap Did (LocalMap P) := Table.empty
  remoteReg : JsMap Did (RemoteMap P I) := Table.empty
  lastAnyPlaying : JsMap Did Bool := Table.empty
  socks : SockId → Sock P := fun _ => {}
  out : List (Effect P I) := []
  crashed : Bool := false

/-- The hub after a call: returned, or thrown out of with a TypeError. -/
abbrev Outcome := Except (Hub P I) (Hub P I)

end Data

variable {P : Payload} {I : Type}

/-- The hub a call leaves behind, whether it returned or threw. -/
def Outcome.hub : Outcome P I → Hub P I
  | .ok h => h
  | .error h => h

@[simp] theorem Outcome.hub_ok (h : Hub P I) : Outcome.hub (.ok h) = h := rfl
@[simp] theorem Outcome.hub_error (h : Hub P I) : Outcome.hub (.error h) = h := rfl

def LocalConn.same (a b : LocalConn P) : Bool := a.ws = b.ws ∧ a.hello = b.hello

namespace Hub

/-! ### Sockets -/

def setSock (h : Hub P I) (ws : SockId) (s : Sock P) : Hub P I :=
  { h with socks := fun ws' => if ws' = ws then s else h.socks ws' }

def effect (h : Hub P I) (e : Effect P I) : Hub P I := { h with out := h.out ++ [e] }

def send (h : Hub P I) (ws : SockId) (msg : ServerMsg P) : Hub P I :=
  if (h.socks ws).readyState = .open then h.effect (.sent ws msg) else h

/-- `ws.close(code, reason)`: starts the closing handshake of an open socket. -/
def close (h : Hub P I) (ws : SockId) (code : ℕ) (reason : String) : Hub P I :=
  if (h.socks ws).readyState = .open then
    (h.setSock ws { h.socks ws with readyState := .closing }).effect (.closing ws code reason)
  else h

def publish (h : Hub P I) (msg : RelayMsg P I) : Hub P I :=
  if h.redis then h.effect (.published msg) else h

/-! ### Registries -/

/-- The map `localMap(did)` returns. That the call also stores an empty map under a new
key is `makeLocalMap`. -/
def localMap (h : Hub P I) (did : Did) : LocalMap P :=
  (JsMap.find h.localReg did).getD Table.empty

def makeLocalMap (h : Hub P I) (did : Did) : Hub P I :=
  match JsMap.find h.localReg did with
  | some _ => h
  | none => { h with localReg := JsMap.set h.localReg did Table.empty }

def remoteMap (h : Hub P I) (did : Did) : RemoteMap P I :=
  (JsMap.find h.remoteReg did).getD Table.empty

def makeRemoteMap (h : Hub P I) (did : Did) : Hub P I :=
  match JsMap.find h.remoteReg did with
  | some _ => h
  | none => { h with remoteReg := JsMap.set h.remoteReg did Table.empty }

def setLocalMap (h : Hub P I) (did : Did) (m : LocalMap P) : Hub P I :=
  { h with localReg := JsMap.set h.localReg did m }

def setRemoteMap (h : Hub P I) (did : Did) (m : RemoteMap P I) : Hub P I :=
  { h with remoteReg := JsMap.set h.remoteReg did m }

/-- `lastAnyPlaying.get(did) ?? false` -/
def lastPlaying (h : Hub P I) (did : Did) : Bool :=
  (JsMap.find h.lastAnyPlaying did).getD false

def setLastPlaying (h : Hub P I) (did : Did) (b : Bool) : Hub P I :=
  { h with lastAnyPlaying := JsMap.set h.lastAnyPlaying did b }

/-- The maps that `roster(did)` creates when they are missing. -/
def makeMaps (h : Hub P I) (did : Did) : Hub P I := (h.makeRemoteMap did).makeLocalMap did

/-- Merged roster for a DID: local wins over a stale remote copy, oldest first. -/
def roster (h : Hub P I) (did : Did) : List (WireDevice P) :=
  let byId : Table (fun d : WireDevice P => d.deviceId) :=
    (h.remoteMap did).rows.foldl (fun m d => m.put d.toWireDevice) Table.empty
  let byId := (h.localMap did).rows.foldl (fun m c => m.put c.toWireDevice) byId
  byId.rows.insertionSort fun a b => a.connectedAt ≤ b.connectedAt

end Hub

/-! ### Rosters -/

def toDeviceInfo (d : WireDevice P) (selfId : P.Id) : DeviceInfo P :=
  { id := d.deviceId, name := d.name, platform := d.platform,
    self := d.deviceId = selfId, state := d.state }

def somePlaying : List (WireDevice P) → Option Bool
  | [] => some false
  | d :: ds =>
    match P.playing d.state with
    | none => none
    | some true => some true
    | some false => somePlaying ds

/-- `all.reduce((a, b) => (a.deviceId < b.deviceId ? a : b))` from the accumulator `a`. -/
def lowest (a : WireDevice P) : List (WireDevice P) → Option (WireDevice P)
  | [] => some a
  | b :: ds =>
    match P.less a.deviceId b.deviceId with
    | none => none
    | some true => lowest a ds
    | some false => lowest b ds

namespace Hub

def anyPlaying (h : Hub P I) (did : Did) : Option Bool := somePlaying (h.roster did)

def sendAll (h : Hub P I) (msgs : List (SockId × ServerMsg P)) : Hub P I :=
  msgs.foldl (fun h m => h.send m.1 m.2) h

/-- Push a fresh roster to every locally-connected device of this DID. -/
def broadcastRoster (h : Hub P I) (did : Did) : Hub P I :=
  let all := h.roster did
  (h.makeMaps did).sendAll <| (h.localMap did).rows.map fun conn =>
    (conn.ws, .devices (all.map fun d => toDeviceInfo d conn.deviceId))

/-- The device responsible for cleaning up: the lowest deviceId across the account. The
outer `none` is a TypeError of the comparison. -/
def cleanupOwner (h : Hub P I) (did : Did) : Option (Option (LocalConn P)) :=
  match h.roster did with
  | [] => some none
  | d :: ds => (lowest d ds).map fun owner => (h.localMap did).get owner.deviceId

/-- The summary (without cleanup) for every locally-connected device of the DID. -/
def sendPresence (h : Hub P I) (did : Did) (now : Bool) : Hub P I :=
  h.sendAll ((h.localMap did).rows.map fun conn => (conn.ws, .presence now false))

def reconcilePresence (h : Hub P I) (did : Did) : Outcome P I :=
  let h := h.makeMaps did
  match h.anyPlaying did with
  | none => .error h
  | some now =>
    let before := h.lastPlaying did
    let h := h.setLastPlaying did now
    if before && !now then
      match h.cleanupOwner did with
      | none => .error h
      | some none => .ok (h.sendPresence did now)
      | some (some owner) => .ok ((h.send owner.ws (.presence false true)).sendPresence did now)
    else .ok (h.sendPresence did now)

/-- Deliver a command to a locally-connected target; returns whether it landed. -/
def deliverCommand (h : Hub P I) (did : Did) (target «from» : P.Id) (cmd : P.Cmd) :
    Hub P I × Bool :=
  let h := h.makeLocalMap did
  match (h.localMap did).get target with
  | none => (h, false)
  | some conn => (h.send conn.ws (.command «from» cmd), true)

/-! ### Client messages -/

/-- Assignment to a member of the object `conn`, seen in the closure of its socket. -/
def storeClosure (h : Hub P I) (conn : LocalConn P) : Hub P I :=
  match (h.socks conn.ws).conn with
  | some c =>
    if c.same conn then h.setSock conn.ws { h.socks conn.ws with conn := some conn } else h
  | none => h

/-- The same assignment, seen in the registry when that holds the object. Nothing reads
`alive` in a closure, and only the registry keeps it up to date. -/
def storeRegistry (h : Hub P I) (conn : LocalConn P) : Hub P I :=
  match (h.localMap conn.did).get conn.deviceId with
  | some c =>
    if c.same conn then
      h.setLocalMap conn.did ((h.localMap conn.did).put { conn with alive := c.alive })
    else h
  | none => h

def store (h : Hub P I) (conn : LocalConn P) : Hub P I := (h.storeClosure conn).storeRegistry conn

/-- `conn.alive = true` -/
def markAlive (h : Hub P I) (conn : LocalConn P) : Hub P I :=
  match (h.localMap conn.did).get conn.deviceId with
  | some c =>
    if c.same conn then h.setLocalMap conn.did ((h.localMap conn.did).put { c with alive := true })
    else h
  | none => h

def handleState (h : Hub P I) (conn : LocalConn P) (state : P.State) : Outcome P I :=
  let conn := { conn with state := state }
  let h := h.store conn
  let h := h.publish (.update h.instanceId conn.toWireDevice)
  (h.broadcastRoster conn.did).reconcilePresence conn.did

def handleCommand (h : Hub P I) (conn : LocalConn P) (target : P.Id) (cmd : P.Cmd) : Hub P I :=
  if target = conn.deviceId then h
  else
    match h.deliverCommand conn.did target conn.deviceId cmd with
    | (h, true) => h
    | (h, false) => h.publish (.command h.instanceId conn.did target conn.deviceId cmd)

def registered (h : Hub P I) (conn : LocalConn P) : Bool :=
  match (h.localMap conn.did).get conn.deviceId with
  | some c => c.same conn
  | none => false

def deleteLocal (h : Hub P I) (did : Did) (deviceId : P.Id) : Hub P I :=
  let m := (h.localMap did).delete deviceId
  if m.size = 0 then { h with localReg := h.localReg.delete did } else h.setLocalMap did m

def removeConn (h : Hub P I) (conn : LocalConn P) : Outcome P I :=
  if !h.registered conn then .ok h
  else
    let h := h.deleteLocal conn.did conn.deviceId
    let h := h.publish (.leave h.instanceId conn.did conn.deviceId)
    (h.broadcastRoster conn.did).reconcilePresence conn.did

/-- `onHello` up to its await. -/
def onHello (h : Hub P I) (ws : SockId) (device : Option (HelloDevice P)) : Hub P I :=
  let s := h.socks ws
  h.setSock ws { s with hellos := s.hellos + 1, verifying := (s.hellos, device) :: s.verifying }

/-- `onHello` after a failed verification. It returns null. -/
def onHelloRejected (h : Hub P I) (ws : SockId) (message : String) : Hub P I :=
  (h.send ws (.error "AuthFailed" message)).close ws 4001 "auth failed"

def helloConn (now : ℕ) (ws : SockId) (hello : ℕ) (did : Did) (device : HelloDevice P) :
    LocalConn P :=
  { did, deviceId := device.id, name := P.orUnknown device.name, platform := device.platform,
    state := device.state, connectedAt := now, ws, hello, alive := true }

/-- Close any prior connection with the same deviceId (reconnect / dup tab). -/
def replacePrior (h : Hub P I) (conn : LocalConn P) : Hub P I :=
  match (h.localMap conn.did).get conn.deviceId with
  | some prior => if prior.ws = conn.ws then h else h.close prior.ws 4002 "replaced"
  | none => h

def register (h : Hub P I) (conn : LocalConn P) : Hub P I :=
  let h := (h.makeLocalMap conn.did).replacePrior conn
  h.setLocalMap conn.did ((h.localMap conn.did).put conn)

/-- The new device's welcome and its announcement to the peers. -/
def announce (h : Hub P I) (conn : LocalConn P) : Hub P I :=
  let h := (h.makeMaps conn.did).send conn.ws (.welcome conn.did conn.deviceId)
  (h.publish (.join h.instanceId conn.toWireDevice)).broadcastRoster conn.did

/-- The presence frames of a hello. A lone session that is not playing is asked to clear
a status record left dangling by a crashed previous session. -/
def greet (h : Hub P I) (conn : LocalConn P) (wasEmpty : Bool) : Outcome P I :=
  match h.anyPlaying conn.did with
  | none => .error h
  | some playing =>
    let h := (h.setLastPlaying conn.did playing).send conn.ws (.presence playing false)
    if wasEmpty then
      match P.playing conn.state with
      | none => .error h
      | some own => .ok (if !own && !playing then h.send conn.ws (.presence false true) else h)
    else .ok h

/-- `onHello` after the token is verified for `did`. -/
def onHelloVerified (h : Hub P I) (now : ℕ) (ws : SockId) (hello : ℕ) (did : Did)
    (device : Option (HelloDevice P)) : Outcome P I :=
  match device with
  | none => .error h
  | some device =>
    let conn := helloConn now ws hello did device
    let h := h.register conn
    let wasEmpty := (h.roster did).length = 1 -- just us
    (h.announce conn).greet conn wasEmpty

/-! ### Relay and timers -/

def fresh (now : ℕ) (m : RemoteMap P I) : RemoteMap P I :=
  m.filter fun d => !(d.lastSeen + REMOTE_TTL_MS < now : Bool)

def dropStale (h : Hub P I) (now : ℕ) (did : Did) (m : RemoteMap P I) : Hub P I :=
  if (fresh now m).size = 0 then { h with remoteReg := h.remoteReg.delete did }
  else h.setRemoteMap did (fresh now m)

def pruneRemote (h : Hub P I) (now : ℕ) (did : Did) : Outcome P I :=
  match JsMap.find h.remoteReg did with
  | none => .ok h
  | some m =>
    let h := h.dropStale now did m
    if (fresh now m).size = m.size then .ok h
    else (h.broadcastRoster did).reconcilePresence did

def onRelay (h : Hub P I) [DecidableEq I] (now : ℕ) : RelayMsg P I → Outcome P I
  | .command inst did target «from» cmd =>
    if inst = h.instanceId then .ok h else .ok (h.deliverCommand did target «from» cmd).1
  | .leave inst did deviceId =>
    if inst = h.instanceId then .ok h
    else
      match JsMap.find h.remoteReg did with
      | none => .ok h
      | some m =>
        match m.get deviceId with
        | none => .ok h
        | some _ =>
          ((h.setRemoteMap did (m.delete deviceId)).broadcastRoster did).reconcilePresence did
  | .join inst d | .update inst d =>
    if inst = h.instanceId then .ok h
    else
      let h := h.setRemoteMap d.did
        ((h.remoteMap d.did).put { d with origin := inst, lastSeen := now })
      (h.broadcastRoster d.did).reconcilePresence d.did

/-- The loop over `remote.keys()` from position `pos` of the map being iterated. The
iterator is live: `pruneRemote` may delete the key it stands on, which moves the next
one to `pos`, and may append a key, which is visited in its turn. -/
def sweepRemote (now : ℕ) : ℕ → ℕ → Hub P I → Outcome P I
  | 0, _, h => .ok h
  | fuel + 1, pos, h =>
    match h.remoteReg.rows[pos]? with
    | none => .ok h
    | some (did, m) =>
      (h.pruneRemote now did).bind
        (sweepRemote now fuel (if (fresh now m).size = 0 then pos else pos + 1))

/-- Re-announce our local devices so peers refresh their remote view + TTL. -/
def heartbeatRemotePresence (h : Hub P I) (now : ℕ) : Outcome P I :=
  let conns := h.localReg.rows.flatMap fun e => e.2.rows
  let h := conns.foldl (fun h c => h.publish (.update h.instanceId c.toWireDevice)) h
  sweepRemote now (2 * h.remoteReg.size) 0 h

def terminate (h : Hub P I) (ws : SockId) : Hub P I :=
  if (h.socks ws).readyState = .open then
    h.setSock ws { h.socks ws with readyState := .closing }
  else h

def terminateAll (h : Hub P I) (conns : List (LocalConn P)) : Hub P I :=
  conns.foldl (fun h c => h.terminate c.ws) h

/-- `conn.alive = false` for every registered device. -/
def clearAlive (h : Hub P I) : Hub P I :=
  { h with
    localReg := JsMap.mapVals
      (fun m => m.mapRows (fun c => { c with alive := false }) fun _ => rfl) h.localReg }

/-- The liveness ping: terminate what has not answered, ask the others again. -/
def pingAll (h : Hub P I) : Hub P I :=
  (h.terminateAll (h.localReg.rows.flatMap fun e => e.2.rows.filter fun c => !c.alive)).clearAlive

end Hub

end Atradio.Connect
