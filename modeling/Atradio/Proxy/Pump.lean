import Atradio.Lib.Mailbox
import Atradio.Lib.Run

/-! # The pump of the Erlang proxy (`proxy_gun_ffi.erl`)

A process opens the upstream, reports the head of the response to its opener, and forwards the body
to a subject when it is told to go. Its mailbox is a list; connections, streams and subjects are
numbers. What `gun:open` and `gun:await_up` return is an input, and `uri_string` is a parameter. -/

namespace Atradio.Proxy.Pump
open Atradio.Lib

/-! ### URLs -/

/-- A map of `uri_string`; the port is `undefined` where it is left empty. -/
structure UriMap where
  scheme : Option String
  host : Option String
  port : Option (Option ℕ)
  path : Option String
  query : Option String

/-- `uri_string:parse` and `uri_string:resolve`, none where they return an error. -/
structure UriString where
  parse : String → Option UriMap
  resolve : String → String → Option String

structure ParsedUrl where
  scheme : String
  host : String
  port : Option ℕ
  path : String

def defaultPort (scheme : String) : ℕ := if scheme = "https" then 443 else 80

def parseUrl (uris : UriString) (url : String) : Option ParsedUrl := do
  let m ← uris.parse url
  let scheme ← m.scheme
  let host ← m.host
  let path0 := if m.path.getD "/" = "" then "/" else m.path.getD "/"
  let query := m.query.getD ""
  return {
    scheme, host
    port := m.port.getD (some (defaultPort scheme))
    path := if query = "" then path0 else path0 ++ "?" ++ query }

abbrev Headers := List (String × String)

def location (headers : Headers) : Option String :=
  (headers.find? fun h => h.1 = "location").map Prod.snd

/-- None where `to_bin` is given the error and finds no clause. -/
def resolve (uris : UriString) (base loc : String) : Option String :=
  if ((uris.parse loc).bind UriMap.scheme).isSome then some loc else uris.resolve loc base

/-! ### The process -/

inductive Message where
  | gunResponse (conn ref : ℕ) (fin : Bool) (status : ℕ) (headers : Headers)
  | gunData (conn ref : ℕ) (fin : Bool) (data : List UInt8)
  | gunError (conn ref : ℕ)
  | gunDown (conn : ℕ)
  | go (subject : ℕ)
  | stop
  | other

inductive Reply where
  | headers (status : ℕ) (headers : Headers) (fin : Bool)
  | failed

inductive PumpMsg where
  | gunChunk (data : List UInt8)
  | gunEof
  | gunFailed

inductive GunCall where
  | «open» (tls : Bool) (host : String) (port : Option ℕ)
  | get (conn : ℕ) (path : String) (headers : Headers)
  | close (conn : ℕ)

inductive Phase where
  /-- `gun:open` has been called. -/
  | opening (url : String) (hops : ℕ) (path : String)
  /-- `gun:await_up` -/
  | connecting (url : String) (hops : ℕ) (path : String) (conn : ℕ)
  | awaitResponse (url : String) (hops : ℕ) (conn ref : ℕ)
  | waitGo (conn ref : ℕ)
  | streamBody (subject conn ref : ℕ)
  | ended
  | crashed

/-- `arrived` and `taken` are all messages so far, in order. -/
structure State where
  phase : Phase
  mailbox : List Message
  replies : List Reply
  sent : List (ℕ × PumpMsg)
  calls : List GunCall
  arrived : List Message
  taken : List Message

inductive Input where
  | arrives (m : Message)
  /-- `gun:open` returns. -/
  | opened (conn : Option ℕ)
  /-- `gun:await_up` returns, and `gun:get` gives a stream. -/
  | up (ref : Option ℕ)
  | receives
  /-- The time of its `after` is up. -/
  | timeout

def REDIRECT_LIMIT : ℕ := 5

section Process

variable (uris : UriString) (reqHeaders : Headers)

def reply (s : State) (r : Reply) : State := { s with replies := s.replies ++ [r] }

def send (s : State) (subject : ℕ) (msg : PumpMsg) : State :=
  { s with sent := s.sent ++ [(subject, msg)] }

def call (s : State) (c : GunCall) : State := { s with calls := s.calls ++ [c] }

def finish (s : State) : State := { s with phase := .ended }

def failed (s : State) : State := finish (reply s .failed)

def closed (s : State) (conn : ℕ) : State := finish (call s (.close conn))

def pumpOpen (s : State) (url : String) (hops : ℕ) : State :=
  match hops, parseUrl uris url with
  | 0, _ => failed s
  | _ + 1, none => failed s
  | _ + 1, some u =>
    { call s (.open (u.scheme = "https") u.host u.port) with phase := .opening url hops u.path }

def deliver (s : State) (conn ref status : ℕ) (headers : Headers) (fin : Bool) : State :=
  let s := reply s (.headers status headers fin)
  if fin then closed s conn else { s with phase := .waitGo conn ref }

/-- The patterns of the loop that the process is in. -/
def Phase.wants : Phase → Message → Bool
  | .awaitResponse _ _ conn ref, .gunResponse c r _ _ _ => c = conn && r = ref
  | .awaitResponse _ _ conn ref, .gunError c r => c = conn && r = ref
  | .awaitResponse _ _ conn _, .gunDown c => c = conn
  | .waitGo _ _, .go _ => true
  | .waitGo _ _, .stop => true
  | .streamBody _ conn ref, .gunData c r _ _ => c = conn && r = ref
  | .streamBody _ conn ref, .gunError c r => c = conn && r = ref
  | .streamBody _ conn _, .gunDown c => c = conn
  | .streamBody _ _ _, .stop => true
  | _, _ => false

def awaitResponse (s : State) (url : String) (hops conn ref : ℕ) : Message → State
  | .gunResponse _ _ fin status headers =>
    match if 300 ≤ status ∧ status < 400 then location headers else none with
    | some loc =>
      let s := call s (.close conn)
      match resolve uris url loc with
      | some next => pumpOpen uris s next (hops - 1)
      | none => { s with phase := .crashed }
    | none => deliver s conn ref status headers fin
  | .gunError _ _ => failed (call s (.close conn))
  | _ => failed s

def waitGo (s : State) (conn ref : ℕ) : Message → State
  | .go subject => { s with phase := .streamBody subject conn ref }
  | _ => closed s conn

def streamBody (s : State) (subject conn : ℕ) : Message → State
  | .gunData _ _ false data => send s subject (.gunChunk data)
  | .gunData _ _ true data => closed (send (send s subject (.gunChunk data)) subject .gunEof) conn
  | .gunError _ _ => closed (send s subject .gunFailed) conn
  | .gunDown _ => finish (send s subject .gunFailed)
  | _ => closed s conn

/-- The clause of the message that has been taken. -/
def handle (s : State) (m : Message) : State :=
  match s.phase with
  | .awaitResponse url hops conn ref => awaitResponse uris s url hops conn ref m
  | .waitGo conn ref => waitGo s conn ref m
  | .streamBody subject conn _ => streamBody s subject conn m
  | _ => s

def after (s : State) : State :=
  match s.phase with
  | .awaitResponse _ _ conn _ => failed (call s (.close conn))
  | .waitGo conn _ => closed s conn
  | .streamBody subject conn _ => closed (send s subject .gunFailed) conn
  | _ => s

def step (s : State) : Input → State
  | .arrives m => { s with mailbox := s.mailbox ++ [m], arrived := s.arrived ++ [m] }
  | .opened result =>
    match s.phase, result with
    | .opening url hops path, some conn => { s with phase := .connecting url hops path conn }
    | .opening _ _ _, none => failed s
    | _, _ => s
  | .up result =>
    match s.phase, result with
    | .connecting url hops path conn, some ref =>
      { call s (.get conn path reqHeaders) with phase := .awaitResponse url hops conn ref }
    | .connecting _ _ _ conn, none => failed (call s (.close conn))
    | _, _ => s
  | .receives =>
    match receive s.phase.wants s.mailbox with
    | some (m, mailbox) => handle uris { s with mailbox, taken := s.taken ++ [m] } m
    | none => s
  | .timeout =>
    match receive s.phase.wants s.mailbox with
    | some _ => s
    | none => after s

def spawn (url : String) : State :=
  pumpOpen uris ⟨.ended, [], [], [], [], [], []⟩ url REDIRECT_LIMIT

end Process

end Atradio.Proxy.Pump
