import Atradio.Connect.Hub

/-! # Events of the hub (`attachConnectHub`)

The callbacks the process runs, one at a time: frames, completions of `verifyToken`,
socket and timer callbacks, relay messages. A socket that has said nothing yet is in
its initial state, so accepting a connection is not an event. -/

namespace Atradio.Connect
open Atradio.Lib

section Data

variable (P : Payload) (I : Type)

/-- `verified` and `rejected` complete the await of the `onHello` call with number `hello`;
`closing` is a connection going down, which its close event follows later. -/
inductive Event where
  | frame (ws : SockId) (msg : Frame P)
  | verified (ws : SockId) (hello : ℕ) (did : Did)
  | rejected (ws : SockId) (hello : ℕ) (message : String)
  | helloTimeout (ws : SockId)
  | pong (ws : SockId)
  | closing (ws : SockId)
  | close (ws : SockId)
  | tick
  | relay (msg : RelayMsg P I)

/-- An event with the clock reading its handler sees. -/
structure Input where
  now : ℕ
  event : Event P I

end Data

variable {P : Payload} {I : Type}

def Local (i : Input P I) : Prop := ∀ msg, i.event ≠ .relay msg

/-- An exception that nothing catches ends the process. -/
def Outcome.uncaught : Outcome P I → Hub P I
  | .ok h => h
  | .error h => { h with crashed := true }

namespace Hub

def onMessage (h : Hub P I) (ws : SockId) (msg : Frame P) : Outcome P I :=
  match (h.socks ws).conn with
  | none =>
    match msg with
    | .hello device => .ok (h.onHello ws device)
    | _ => .ok h
  | some conn =>
    match msg with
    | .state state => h.handleState conn state
    | .command target cmd => .ok (h.handleCommand conn target cmd)
    | .bye => .ok (h.close ws 1000 "bye")
    | _ => .ok h

def awaited (h : Hub P I) (ws : SockId) (hello : ℕ) : Hub P I :=
  h.setSock ws { h.socks ws with
    verifying := (h.socks ws).verifying.filter fun v => v.1 ≠ hello }

/-- `.then((c) => { clearTimeout(helloTimer); conn = c; })` -/
def helloDone (h : Hub P I) (ws : SockId) (conn : Option (LocalConn P)) : Hub P I :=
  h.setSock ws { h.socks ws with conn := conn, helloTimer := false }

/-- The continuation of `onHello` and the `then` callback behind it, between which only
other promise callbacks can run. A throw skips the callback. -/
def onVerified (h : Hub P I) (now : ℕ) (ws : SockId) (hello : ℕ) (did : Did) : Outcome P I :=
  match (h.socks ws).verifying.lookup hello with
  | none => .ok h
  | some device =>
    ((h.awaited ws hello).onHelloVerified now ws hello did device).map fun h =>
      h.helloDone ws (device.map fun d => helloConn now ws hello did d)

def onRejected (h : Hub P I) (ws : SockId) (hello : ℕ) (message : String) : Hub P I :=
  match (h.socks ws).verifying.lookup hello with
  | none => h
  | some _ => ((h.awaited ws hello).onHelloRejected ws message).helloDone ws none

def onHelloTimeout (h : Hub P I) (ws : SockId) : Hub P I :=
  if (h.socks ws).helloTimer then
    let h := h.setSock ws { h.socks ws with helloTimer := false }
    if (h.socks ws).conn.isNone then h.close ws 4008 "hello timeout" else h
  else h

def onPong (h : Hub P I) (ws : SockId) : Hub P I :=
  match (h.socks ws).conn with
  | none => h
  | some conn => h.markAlive conn

/-- The close event: `readyState` is already CLOSED when it is emitted. -/
def onClose (h : Hub P I) (ws : SockId) : Outcome P I :=
  let s := h.socks ws
  let h := h.setSock ws { s with readyState := .closed, helloTimer := false }
  match s.conn with
  | none => .ok h
  | some conn => h.removeConn conn

def onTick (h : Hub P I) (now : ℕ) : Outcome P I := h.pingAll.heartbeatRemotePresence now

variable [DecidableEq I]

def handle (h : Hub P I) (i : Input P I) : Hub P I :=
  match i.event with
  | .frame ws msg =>
    if (h.socks ws).readyState = .closed then h else (h.onMessage ws msg).uncaught
  | .verified ws hello did => (h.onVerified i.now ws hello did).uncaught
  | .rejected ws hello message => h.onRejected ws hello message
  | .helloTimeout ws => h.onHelloTimeout ws
  | .pong ws => h.onPong ws
  | .closing ws => h.terminate ws
  | .close ws =>
    if (h.socks ws).readyState = .closed then h else (h.onClose ws).uncaught
  | .tick => (h.onTick i.now).uncaught
  -- the subscriber's callback ignores whatever `onRelay` throws
  | .relay msg => (h.onRelay i.now msg).hub

/-- Handle one event; `out` is what this event did. -/
def step (h : Hub P I) (i : Input P I) : Hub P I :=
  if h.crashed then { h with out := [] } else handle { h with out := [] } i

def init (instanceId : I) (redis : Bool) : Hub P I := { instanceId, redis }

end Hub

/-- A device of the declared types, for runs on fixed inputs. -/
def sampleDevice (id : String) (playing : Bool) : HelloDevice protocol :=
  { id, name := id, platform := .web, state := ⟨playing, none, none, 0, false⟩ }

end Atradio.Connect
