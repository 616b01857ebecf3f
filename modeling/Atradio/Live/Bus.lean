import Mathlib.Data.List.Nodup
import Atradio.Lib.EventStream

/-! # The live event bus (`live/bus.ts`, `live/index.ts`)

Any number of processes, each with an `EventEmitter` of its own. With Redis a published event goes
through the channel to every process that is subscribed; without it it stays in the process. -/

namespace Atradio.Live
open Atradio.Lib Atradio.Lib.EventStream

/-- What a handler is called with. An emitter calls the handlers of `newListener` and
`removeListener` with the name of an event. -/
inductive Argument (E : Type) where
  | event (e : E)
  | name (stationId : String)

/-- A request of `/live/:stationId` that was answered with a stream. -/
structure Conn where
  process : ℕ
  stationId : String
  closed : Bool := false
  written : List Char := []
deriving DecidableEq

/-- The handler `send` of a stream, under the name it was added for. -/
structure Listener where
  process : ℕ
  stationId : String
  conn : ℕ
deriving DecidableEq

/-- `P` is the type of the payloads on the channel. -/
structure World (P : Type) where
  conns : List Conn := []
  listeners : List Listener := []
  /-- What a process has published and Redis has not accepted yet. -/
  outbox : ℕ → List P := fun _ => []
  /-- What the channel has carried, with the process it came from. -/
  channel : List (Option ℕ × P) := []
  /-- What Redis has for the subscription of a process. -/
  inbox : ℕ → List P := fun _ => []
  subscribed : ℕ → Bool := fun _ => false
  thrown : ℕ := 0

inductive Event (E P : Type) where
  | get (process : ℕ) (stationId : String)
  | close (conn : ℕ)
  | heartbeat (conn : ℕ)
  | publishLive (process : ℕ) (stationId : String) (event : E)
  /-- Redis accepts the oldest message of a process. -/
  | accepted (process : ℕ)
  /-- The oldest message of a process is given up with a warning. -/
  | failed (process : ℕ)
  /-- Something else publishes on the channel. -/
  | foreign (payload : P)
  | message (process : ℕ)
  | ready (process : ℕ)
  /-- The subscription of a process breaks. -/
  | lost (process : ℕ)

variable {E P : Type}

def World.write (w : World P) (c : ℕ) (text : List Char) : World P :=
  { w with conns := w.conns.modify c fun k => { k with written := k.written ++ text } }

def World.listening (w : World P) (p : ℕ) (name : String) : List Listener :=
  w.listeners.filter fun l => l.process = p ∧ l.stationId = name

/-- Whether `REDIS_URL` is set, and the JSON of arguments and messages. -/
structure Config (E P : Type) where
  redis : Bool
  stringify : Argument E → List Char
  encode : String × E → P
  decode : P → Option (String × E)

variable (cfg : Config E P)

def send (w : World P) (c : ℕ) (x : Argument E) : World P :=
  w.write c ("data: ".toList ++ cfg.stringify x ++ "\n\n".toList)

/-- The handlers of a name, in the order in which they were added. -/
def World.call (w : World P) (p : ℕ) (name : String) (x : Argument E) : World P :=
  (w.listening p name).foldl (fun w l => send cfg w l.conn x) w

/-- `local.emit`; `none` is the exception for an `error` that nobody listens for. -/
def World.emit (w : World P) (p : ℕ) (name : String) (x : Argument E) : Option (World P) :=
  if name = "error" ∧ w.listening p name = [] then none else some (w.call cfg p name x)

def publishLive (w : World P) (p : ℕ) (stationId : String) (e : E) : World P :=
  if cfg.redis then
    { w with outbox := Function.update w.outbox p (w.outbox p ++ [cfg.encode (stationId, e)]) }
  else
    match w.emit cfg p stationId (.event e) with
    | some w => w
    | none => { w with thrown := w.thrown + 1 }

/-- The handler of `sub.on("message", …)`. -/
def onMessage (w : World P) (p : ℕ) (payload : P) : World P :=
  match cfg.decode payload with
  | none => w
  | some (stationId, e) => (w.emit cfg p stationId (.event e)).getD w

/-- `local.on`: the handlers of `newListener` come first. -/
def subscribeLive (w : World P) (p : ℕ) (stationId : String) (c : ℕ) : World P :=
  let w := w.call cfg p "newListener" (.name stationId)
  { w with listeners := w.listeners ++ [⟨p, stationId, c⟩] }

def unsubscribe (w : World P) (p : ℕ) (stationId : String) (c : ℕ) : World P :=
  let w := { w with listeners := w.listeners.erase ⟨p, stationId, c⟩ }
  w.call cfg p "removeListener" (.name stationId)

/-- The stream after `flushHeaders` and the first write. -/
def World.connected (w : World P) (p : ℕ) (stationId : String) : World P :=
  { w with conns := w.conns ++
      [{ process := p, stationId, written := ": connected\n\n".toList }] }

/-- `GET /live/:stationId`. An empty station is a bad request. -/
def getLive (w : World P) (p : ℕ) (stationId : String) : World P :=
  if stationId = "" then w
  else subscribeLive cfg (w.connected p stationId) p stationId w.conns.length

def onClose (w : World P) (c : ℕ) : World P :=
  match w.conns[c]? with
  | none => w
  | some k =>
    if k.closed then w
    else
      unsubscribe cfg
        { w with conns := w.conns.modify c fun k => { k with closed := true } }
        k.process k.stationId c

def heartbeat (w : World P) (c : ℕ) : World P :=
  match w.conns[c]? with
  | none => w
  | some k => if k.closed then w else w.write c ": ping\n\n".toList

/-- A message reaches the channel and every subscription. -/
def World.carry (w : World P) (origin : Option ℕ) (payload : P) : World P :=
  { w with channel := w.channel ++ [(origin, payload)]
           inbox := fun q => if w.subscribed q then w.inbox q ++ [payload] else w.inbox q }

def step (w : World P) : Event E P → World P
  | .get p stationId => getLive cfg w p stationId
  | .close c => onClose cfg w c
  | .heartbeat c => heartbeat w c
  | .publishLive p stationId e => publishLive cfg w p stationId e
  | .accepted p =>
    match w.outbox p with
    | [] => w
    | payload :: rest =>
      { w with outbox := Function.update w.outbox p rest }.carry (some p) payload
  | .failed p => { w with outbox := Function.update w.outbox p (w.outbox p).tail }
  | .foreign payload => w.carry none payload
  | .message p =>
    match w.inbox p with
    | [] => w
    | payload :: rest =>
      onMessage cfg { w with inbox := Function.update w.inbox p rest } p payload
  | .ready p => { w with subscribed := Function.update w.subscribed p true }
  | .lost p => { w with subscribed := Function.update w.subscribed p false
                        inbox := Function.update w.inbox p [] }

/-! ### The emitter -/

def Conn.shape (k : Conn) : ℕ × String × Bool := (k.process, k.stationId, k.closed)

/-- Each open stream has its one handler on the emitter of its process. -/
structure Wired (w : World P) : Prop where
  nodup : w.listeners.Nodup
  iff : ∀ l : Listener, l ∈ w.listeners ↔
    w.conns[l.conn]?.map Conn.shape = some (l.process, l.stationId, false)

theorem wired_init : Wired ({} : World P) := ⟨List.nodup_nil, by simp⟩

theorem Wired.congr {w w' : World P} (hw : Wired w)
    (hc : ∀ c : ℕ, w'.conns[c]?.map Conn.shape = w.conns[c]?.map Conn.shape)
    (hl : w'.listeners = w.listeners) : Wired w' :=
  ⟨hl ▸ hw.nodup, fun l => by rw [hc, hl]; exact hw.iff l⟩

/-- What a write adds to a stream. -/
def Conn.hear (k : Conn) (text : List Char) : Conn := { k with written := k.written ++ text }

theorem write_conn (w : World P) (c c' : ℕ) (text : List Char) :
    (w.write c text).conns[c']? =
      w.conns[c']?.map fun k => if c' = c then k.hear text else k := by
  rw [World.write, List.getElem?_modify]
  by_cases hc : c' = c
  · subst hc
    simp [Conn.hear]
  · have hne : ¬ c = c' := fun h => hc h.symm
    simp [hc, hne]

theorem write_shape (w : World P) (c c' : ℕ) (text : List Char) :
    (w.write c text).conns[c']?.map Conn.shape = w.conns[c']?.map Conn.shape := by
  rw [write_conn, Option.map_map]
  refine congrArg (fun f => Option.map f w.conns[c']?) (funext fun k => ?_)
  by_cases hc : c' = c <;> simp [hc, Conn.hear, Conn.shape]

theorem send_eq (w : World P) (c : ℕ) (x : Argument E) :
    send cfg w c x = w.write c (Block.text (.data (cfg.stringify x))) := rfl

theorem call_conns (w : World P) (p : ℕ) (name : String) (x : Argument E)
    (hw : ((w.listening p name).map Listener.conn).Nodup) (c : ℕ) :
    (w.call cfg p name x).conns[c]? =
      w.conns[c]?.map fun k =>
        if c ∈ (w.listening p name).map Listener.conn then
          k.hear (Block.text (.data (cfg.stringify x))) else k := by
  unfold World.call
  revert hw
  generalize w.listening p name = ls
  intro hls
  induction ls generalizing w with
  | nil => simp
  | cons l ls ih =>
    obtain ⟨hl, hrest⟩ := List.nodup_cons.1 hls
    rw [List.foldl_cons, ih _ hrest, send_eq, write_conn, Option.map_map]
    refine congrArg (fun f => Option.map f w.conns[c]?) (funext fun k => ?_)
    by_cases hc : c = l.conn
    · subst hc
      simp [hl]
    · simp [hc]

/-- A call only writes. -/
theorem call_kept (w : World P) (p : ℕ) (name : String) (x : Argument E) :
    (∀ c : ℕ, (w.call cfg p name x).conns[c]?.map Conn.shape = w.conns[c]?.map Conn.shape) ∧
      (w.call cfg p name x).listeners = w.listeners ∧
      (w.call cfg p name x).outbox = w.outbox ∧
      (w.call cfg p name x).channel = w.channel ∧
      (w.call cfg p name x).inbox = w.inbox ∧
      (w.call cfg p name x).subscribed = w.subscribed := by
  unfold World.call
  generalize w.listening p name = ls
  induction ls generalizing w with
  | nil => exact ⟨fun _ => rfl, rfl, rfl, rfl, rfl, rfl⟩
  | cons l ls ih =>
    obtain ⟨hshape, hrest⟩ := ih (send cfg w l.conn x)
    exact ⟨fun c => (hshape c).trans (write_shape w l.conn c _), hrest⟩

theorem Wired.conn_nodup {w : World P} (hw : Wired w) (p : ℕ) (name : String) :
    ((w.listening p name).map Listener.conn).Nodup := by
  refine List.Nodup.map_on ?_ (hw.nodup.filter _)
  intro l hl l' hl' heq
  simp only [World.listening, List.mem_filter, decide_eq_true_eq] at hl hl'
  obtain ⟨p', s, c⟩ := l
  obtain ⟨p'', s', c'⟩ := l'
  obtain ⟨-, rfl, rfl⟩ := hl
  obtain ⟨-, rfl, rfl⟩ := hl'
  rw [show c = c' from heq]

theorem Wired.mem_listening {w : World P} (hw : Wired w) (p : ℕ) (name : String) (c : ℕ) :
    c ∈ (w.listening p name).map Listener.conn ↔
      w.conns[c]?.map Conn.shape = some (p, name, false) := by
  simp only [World.listening, List.mem_map, List.mem_filter, decide_eq_true_eq, hw.iff]
  constructor
  · rintro ⟨l, ⟨hl, rfl, rfl⟩, rfl⟩
    exact hl
  · exact fun h => ⟨⟨p, name, c⟩, ⟨h, rfl, rfl⟩, rfl⟩

theorem Wired.call {w : World P} (hw : Wired w) (p : ℕ) (name : String) (x : Argument E) :
    Wired (w.call cfg p name x) :=
  hw.congr (call_kept cfg w p name x).1 (call_kept cfg w p name x).2.1

/-! ### Steps -/

theorem emit_cases (w : World P) (p : ℕ) (name : String) (x : Argument E) :
    w.emit cfg p name x = none ∧ w.call cfg p name x = w ∨
      w.emit cfg p name x = some (w.call cfg p name x) := by
  rw [World.emit]
  by_cases h : name = "error" ∧ w.listening p name = []
  · rw [if_pos h]
    refine Or.inl ⟨rfl, ?_⟩
    rw [World.call, h.2, List.foldl_nil]
  · rw [if_neg h]
    exact Or.inr rfl

/-- Whether or not it throws, a publication without Redis calls the handlers of the station. -/
theorem publishLive_direct (hredis : cfg.redis = false) (w : World P) (p : ℕ) (s : String) (e : E) :
    (publishLive cfg w p s e).conns =
        (w.call cfg p s (.event e)).conns ∧
      (publishLive cfg w p s e).listeners = w.listeners := by
  rw [publishLive, if_neg (by rw [hredis]; exact Bool.false_ne_true)]
  rcases emit_cases cfg w p s (.event e) with ⟨hemit, hcall⟩ | hemit
  · rw [hemit, hcall]
    exact ⟨rfl, rfl⟩
  · rw [hemit]
    exact ⟨rfl, (call_kept cfg w p s _).2.1⟩

theorem onMessage_eq (w : World P) (p : ℕ) (payload : P) :
    onMessage cfg w p payload =
      match cfg.decode payload with
      | none => w
      | some m => w.call cfg p m.1 (.event m.2) := by
  rw [onMessage]
  cases hm : cfg.decode payload with
  | none => rfl
  | some m =>
    rcases emit_cases cfg w p m.1 (.event m.2) with ⟨hemit, hcall⟩ | hemit
    · simp [hemit, hcall]
    · simp [hemit]

theorem wired_getLive {w : World P} (hw : Wired w) (p : ℕ) (s : String) :
    Wired (getLive cfg w p s) := by
  rw [getLive]
  split
  · exact hw
  · rw [subscribeLive]
    obtain ⟨hshape, hlist, -⟩ := call_kept cfg (w.connected p s) p
      "newListener" (.name s)
    have hsame : (w.connected p s).listeners = w.listeners := rfl
    have hconns : (w.connected p s).conns = w.conns ++
      [{ process := p, stationId := s, written := ": connected\n\n".toList }] := rfl
    have hfresh : ⟨p, s, w.conns.length⟩ ∉ w.listeners := by
      rw [hw.iff, List.getElem?_eq_none (Nat.le_refl _)]
      simp
    constructor
    · rw [hlist, hsame]
      exact List.nodup_append.2 ⟨hw.nodup, List.nodup_singleton _, by
        rintro l hl l' hl' rfl
        exact hfresh (List.mem_singleton.1 hl' ▸ hl)⟩
    · intro l
      rw [hshape, hlist, hsame, hconns, List.mem_append, List.mem_singleton, hw.iff,
        List.getElem?_append]
      obtain ⟨p', s', c⟩ := l
      rcases Nat.lt_trichotomy c w.conns.length with hc | rfl | hc
      · have hne : c ≠ w.conns.length := Nat.ne_of_lt hc
        simp [hc, hne]
      · simp [Conn.shape, eq_comm]
      · have hlen : ¬ c < w.conns.length := by omega
        have hne : c ≠ w.conns.length := by omega
        have hsub : c - w.conns.length ≠ 0 := by omega
        simp [hlen, hne, hsub]

theorem wired_closed {w : World P} (hw : Wired w) {c : ℕ} {k : Conn} (hk : w.conns[c]? = some k) :
    Wired { w with conns := w.conns.modify c fun k => { k with closed := true }
                   listeners := w.listeners.erase ⟨k.process, k.stationId, c⟩ } := by
  refine ⟨hw.nodup.erase _, fun l => ?_⟩
  rw [hw.nodup.mem_erase_iff, hw.iff, List.getElem?_modify]
  by_cases hc : c = l.conn
  · subst hc
    simp only [hk, Option.map_some, Conn.shape, if_pos, Option.map_eq_map]
    constructor
    · rintro ⟨hne, heq⟩
      obtain ⟨p, s, c⟩ := l
      obtain ⟨hp, hs, -⟩ : k.process = p ∧ k.stationId = s ∧ k.closed = false := by simpa using heq
      subst hp hs
      exact (hne rfl).elim
    · intro h
      simp at h
  · have hne : l ≠ ⟨k.process, k.stationId, c⟩ := by
      rintro rfl
      exact hc rfl
    simp [hc, hne]

end Atradio.Live
