import Atradio.Connect.Protocol
import Atradio.Lib.Run

/-! # The Connect client of the browser (`client.ts`)

A client together with what the browser keeps of its sockets, its timers and its pending
`mintToken` promises. A socket that is not open delivers no message; it closes some time after
`close`. -/

namespace Atradio.Web
open Atradio.Connect Atradio.Lib

inductive ReadyState where
  | CONNECTING
  | OPEN
  | CLOSING
  | CLOSED
deriving DecidableEq

inductive ConnectStatus where
  | connecting
  | online
  | offline

inductive ClientFrame where
  | hello (token : String) (device : HelloDevice protocol)
  | state (state : PlaybackState)
  | command (target : String) (cmd : Command)
  | bye

/-- What a client does that can be noticed: sockets, frames, and calls of its handlers. -/
inductive Act where
  | socket (id : ℕ)
  | frame (id : ℕ) (frame : ClientFrame)
  | onStatus (status : ConnectStatus)
  | onWelcome (did : Did) (deviceId : String)
  | onDevices (devices : List (DeviceInfo protocol))
  | onCommand («from» : String) (cmd : Command)
  | onPresence (anyPlaying cleanup : Bool)
  | onAuthError

structure DeviceOptions where
  id : String
  name : String
  platform : Platform

structure ConnectClient where
  ready : ℕ → ReadyState
  sockets : ℕ
  /-- The timers that are armed, with their delays. -/
  timers : List (ℕ × ℕ)
  armed : ℕ
  minting : List ℕ
  /-- Everything done, the latest first. -/
  acts : List Act
  /-- After `stop` or a handled AuthFailed, before the next `start`. -/
  ended : Bool
  ws : Option ℕ
  closed : Bool
  backoff : ℕ
  reconnectTimer : Option ℕ
  authFailures : ℕ
  authErrorNotified : Bool

/-- A message is none if it is not JSON or of no known kind; `constructs` is false where
`new WebSocket` throws. -/
inductive ClientEvent where
  | start (constructs : Bool)
  | stop
  | opened (id : ℕ)
  | minted (id : ℕ) (token : Option String) (state : PlaybackState)
  | message (id : ℕ) (msg : Option (ServerMsg protocol))
  | closed (id : ℕ)
  | timer (id : ℕ) (constructs : Bool)
  | sendState (state : PlaybackState)
  | command (target : String) (cmd : Command)

namespace ConnectClient

def AUTH_FAILURE_THRESHOLD : ℕ := 2

def new : ConnectClient where
  ready _ := .CLOSED
  sockets := 0
  timers := []
  armed := 0
  minting := []
  acts := []
  ended := false
  ws := none
  closed := false
  backoff := 1000
  reconnectTimer := none
  authFailures := 0
  authErrorNotified := false

def tell (w : ConnectClient) (act : Act) : ConnectClient := { w with acts := act :: w.acts }

def setReady (w : ConnectClient) (id : ℕ) (state : ReadyState) : ConnectClient :=
  { w with ready := Function.update w.ready id state }

/-- `close` of a socket. -/
def close (w : ConnectClient) (id : ℕ) : ConnectClient :=
  if w.ready id = .CONNECTING ∨ w.ready id = .OPEN then w.setReady id .CLOSING else w

/-- `this.ws?.close()` -/
def closeWs (w : ConnectClient) : ConnectClient :=
  match w.ws with
  | none => w
  | some id => w.close id

/-- `this.ws.send` if the socket is open. -/
def send (w : ConnectClient) (frame : ClientFrame) : ConnectClient :=
  match w.ws with
  | none => w
  | some id => if w.ready id = .OPEN then w.tell (.frame id frame) else w

def scheduleReconnect (w : ConnectClient) : ConnectClient :=
  if w.closed || w.reconnectTimer.isSome then w
  else { w with
    timers := (w.armed, w.backoff) :: w.timers
    armed := w.armed + 1
    reconnectTimer := some w.armed
    backoff := min (w.backoff * 2) 15000 }

def connect (w : ConnectClient) (constructs : Bool) : ConnectClient :=
  if w.closed then w
  else
    let w := w.tell (.onStatus .connecting)
    if constructs then
      { (w.setReady w.sockets .CONNECTING).tell (.socket w.sockets) with
        sockets := w.sockets + 1
        ws := some w.sockets }
    else w.scheduleReconnect

def notifyAuthError (w : ConnectClient) : ConnectClient :=
  if w.authErrorNotified then w
  else ({ w with authErrorNotified := true }.tell (.onStatus .offline)).tell .onAuthError

def noteAuthFailure (w : ConnectClient) : ConnectClient :=
  let w := { w with authFailures := w.authFailures + 1 }
  if AUTH_FAILURE_THRESHOLD ≤ w.authFailures then w.notifyAuthError else w

def start (w : ConnectClient) (constructs : Bool) : ConnectClient :=
  { w with closed := false, ended := false }.connect constructs

/-- `clearTimeout(this.reconnectTimer)` -/
def clearReconnect (w : ConnectClient) : ConnectClient :=
  match w.reconnectTimer with
  | none => w
  | some id => { w with timers := w.timers.filter (·.1 ≠ id), reconnectTimer := none }

/-- `this.closed = true` -/
def finish (w : ConnectClient) : ConnectClient := { w with closed := true, ended := true }

def stop (w : ConnectClient) : ConnectClient :=
  { (w.finish.clearReconnect.send .bye).closeWs with ws := none }

/-- `onopen` goes on when the token is there, or could not be minted. -/
def onMinted (device : DeviceOptions) (w : ConnectClient) (id : ℕ) (token : Option String)
    (state : PlaybackState) : ConnectClient :=
  let w := { w with minting := w.minting.erase id }
  match token with
  | none => w.noteAuthFailure.close id
  | some token =>
    if w.ws ≠ some id || w.ready id ≠ .OPEN then w
    else w.tell (.frame id (.hello token ⟨device.id, device.name, device.platform, state⟩))

def onMessage (w : ConnectClient) : ServerMsg protocol → ConnectClient
  | .welcome did deviceId =>
    ({ w with backoff := 1000, authFailures := 0, authErrorNotified := false }.tell
      (.onStatus .online)).tell (.onWelcome did deviceId)
  | .devices devices => w.tell (.onDevices devices)
  | .command «from» cmd => w.tell (.onCommand «from» cmd)
  | .presence anyPlaying cleanup => w.tell (.onPresence anyPlaying cleanup)
  | .error code _ =>
    if code = "AuthFailed" then w.notifyAuthError.finish.closeWs else w

def onClose (w : ConnectClient) (id : ℕ) : ConnectClient :=
  let w := if w.ws = some id then { w with ws := none } else w
  (w.tell (.onStatus .offline)).scheduleReconnect

def step (device : DeviceOptions) (w : ConnectClient) : ClientEvent → ConnectClient
  | .start constructs => w.start constructs
  | .stop => w.stop
  | .opened id =>
    if w.ready id = .CONNECTING then { w.setReady id .OPEN with minting := id :: w.minting }
    else w
  | .minted id token state => if id ∈ w.minting then w.onMinted device id token state else w
  | .message id msg =>
    if w.ready id = .OPEN then
      match msg with
      | none => w
      | some msg => w.onMessage msg
    else w
  | .closed id => if w.ready id = .CLOSED then w else (w.setReady id .CLOSED).onClose id
  | .timer id constructs =>
    if id ∈ w.timers.map Prod.fst then
      { w with timers := w.timers.filter (·.1 ≠ id), reconnectTimer := none }.connect constructs
    else w
  | .sendState state => w.send (.state state)
  | .command target cmd => w.send (.command target cmd)

/-- How often `onAuthError` was called since the last welcome. -/
def prompts : List Act → ℕ
  | [] => 0
  | .onWelcome _ _ :: _ => 0
  | .onAuthError :: acts => prompts acts + 1
  | _ :: acts => prompts acts

/-- While the client is over, a step other than `start` does nothing. -/
def Silent (device : DeviceOptions) (w : ConnectClient) (e : ClientEvent) : Prop :=
  w.ended = true → (∀ constructs, e ≠ .start constructs) → (w.step device e).acts = w.acts

structure Single (w : ConnectClient) : Prop where
  timers : w.timers.length ≤ 1
  sockets : ∀ i j, w.ready i ≠ .CLOSED → w.ready j ≠ .CLOSED → i = j

/-- The client is not started over a socket or a timer of its own; when it is over, its socket has
closed, and no mint fails that would have it prompt. -/
def Guarded (w : ConnectClient) : ClientEvent → Prop
  | .start _ => (∀ i < w.sockets, w.ready i = .CLOSED) ∧ w.timers = []
  | .closed id => w.ended = true → w.ready id = .CLOSED
  | .minted id none _ => w.ended = true → id ∈ w.minting →
    w.authFailures + 1 < AUTH_FAILURE_THRESHOLD ∨ w.authErrorNotified = true
  | _ => True

instance (w : ConnectClient) : (e : ClientEvent) → Decidable (w.Guarded e)
  | .start _ => inferInstanceAs (Decidable ((∀ i < w.sockets, w.ready i = .CLOSED) ∧ _))
  | .closed id => inferInstanceAs (Decidable (w.ended = true → w.ready id = .CLOSED))
  | .minted id none _ => inferInstanceAs (Decidable (w.ended = true → id ∈ w.minting → _ ∨ _))
  | .minted _ (some _) _ => isTrue trivial
  | .stop => isTrue trivial
  | .opened _ => isTrue trivial
  | .message _ _ => isTrue trivial
  | .timer _ _ => isTrue trivial
  | .sendState _ => isTrue trivial
  | .command _ _ => isTrue trivial

/-! ### The invariant -/

def Awake (w : ConnectClient) (id : ℕ) : Prop := w.ready id = .CONNECTING ∨ w.ready id = .OPEN

def AllClosed (w : ConnectClient) : Prop := ∀ id, w.ready id = .CLOSED

structure Inv (w : ConnectClient) : Prop where
  fresh : ∀ id, w.sockets ≤ id → w.ready id = .CLOSED
  single : ∀ i j, w.ready i ≠ .CLOSED → w.ready j ≠ .CLOSED → i = j
  current : ∀ id, w.Awake id → w.ws = some id
  timers : w.timers.map Prod.fst = w.reconnectTimer.toList
  waiting : w.timers ≠ [] → w.AllClosed
  ended : w.ended = w.closed
  quiet : w.ended = true → w.timers = [] ∧ ∀ id, ¬ w.Awake id
  prompts : prompts w.acts = if w.authErrorNotified then 1 else 0

variable {w : ConnectClient} {id : ℕ}

theorem ready_self (w : ConnectClient) (id : ℕ) (state : ReadyState) :
    (w.setReady id state).ready id = state := Function.update_self ..

theorem ready_ne (state : ReadyState) {i : ℕ} (h : i ≠ id) :
    (w.setReady id state).ready i = w.ready i := Function.update_of_ne h ..

theorem Awake.ne_closed (h : w.Awake id) : w.ready id ≠ .CLOSED := by
  rcases h with hready | hready
  · rw [hready]
    exact nofun
  · rw [hready]
    exact nofun

theorem inv_new : Inv new where
  fresh _ _ := rfl
  single _ _ h := (h rfl).elim
  current _ h := by rcases h with h | h <;> cases h
  timers := rfl
  waiting h := (h rfl).elim
  ended := rfl
  quiet h := by cases h
  prompts := rfl

/-- What neither prompts nor welcomes. -/
def Act.Plain : Act → Prop
  | .onWelcome _ _ => False
  | .onAuthError => False
  | _ => True

theorem inv_tell (h : Inv w) {act : Act} (hact : Act.Plain act) : Inv (w.tell act) where
  fresh := h.fresh
  single := h.single
  current := h.current
  timers := h.timers
  waiting := h.waiting
  ended := h.ended
  quiet := h.quiet
  prompts := by
    have hprompts := h.prompts
    cases act with
    | onWelcome did deviceId => exact hact.elim
    | onAuthError => exact hact.elim
    | socket id => exact hprompts
    | frame id frame => exact hprompts
    | onStatus status => exact hprompts
    | onDevices devices => exact hprompts
    | onCommand sender cmd => exact hprompts
    | onPresence anyPlaying cleanup => exact hprompts

theorem inv_notify (h : Inv w) : Inv w.notifyAuthError := by
  unfold notifyAuthError
  split
  · exact h
  · rename_i hnot
    have hprompts := h.prompts
    rw [if_neg hnot] at hprompts
    exact ⟨h.fresh, h.single, h.current, h.timers, h.waiting, h.ended, h.quiet,
      congrArg Nat.succ hprompts⟩

theorem inv_note (h : Inv w) : Inv w.noteAuthFailure := by
  have h' : Inv { w with authFailures := w.authFailures + 1 } :=
    ⟨h.fresh, h.single, h.current, h.timers, h.waiting, h.ended, h.quiet, h.prompts⟩
  unfold noteAuthFailure
  dsimp only
  split
  · exact inv_notify h'
  · exact h'

/-- A socket that opens, or gets closer to being closed. -/
theorem inv_setReady (h : Inv w) {state : ReadyState} (hlive : w.ready id ≠ .CLOSED)
    (hstate : w.Awake id ∨ state = .CLOSING ∨ state = .CLOSED) : Inv (w.setReady id state) := by
  have hawake : ∀ i, (w.setReady id state).Awake i → w.Awake i := by
    intro i hi
    by_cases heq : i = id
    · subst heq
      rw [Awake, ready_self] at hi
      rcases hstate with hwas | rfl | rfl
      · exact hwas
      · rcases hi with hi | hi <;> cases hi
      · rcases hi with hi | hi <;> cases hi
    · rwa [Awake, ready_ne state heq] at hi
  have hlives : ∀ i, (w.setReady id state).ready i ≠ .CLOSED → w.ready i ≠ .CLOSED := by
    intro i hi
    by_cases heq : i = id
    · subst heq
      exact hlive
    · rwa [ready_ne state heq] at hi
  constructor
  · intro i hi
    by_contra hne
    exact hlives i hne (h.fresh i hi)
  · exact fun i j hi hj => h.single i j (hlives i hi) (hlives j hj)
  · exact fun i hi => h.current i (hawake i hi)
  · exact h.timers
  · intro htimers
    exact (hlive (h.waiting htimers id)).elim
  · exact h.ended
  · exact fun hover => ⟨(h.quiet hover).1, fun i hi => (h.quiet hover).2 i (hawake i hi)⟩
  · exact h.prompts

theorem inv_close (h : Inv w) (id : ℕ) : Inv (w.close id) := by
  unfold close
  split
  · rename_i hawake
    exact inv_setReady h (Awake.ne_closed hawake) (Or.inr (Or.inl rfl))
  · exact h

theorem inv_schedule (h : Inv w) (hclosed : w.AllClosed) : Inv w.scheduleReconnect := by
  unfold scheduleReconnect
  split
  · exact h
  · rename_i hidle
    rw [Bool.or_eq_true, not_or, Bool.not_eq_true, Bool.not_eq_true, Option.isSome_eq_false_iff,
      Option.isNone_iff_eq_none] at hidle
    have htimers : w.timers = [] := by
      have hids := h.timers
      rw [hidle.2] at hids
      exact List.map_eq_nil_iff.1 hids
    refine ⟨h.fresh, h.single, h.current, by rw [htimers]; rfl, fun _ => hclosed, h.ended,
      fun hover => ?_, h.prompts⟩
    rw [show _ = w.closed from h.ended, hidle.1] at hover
    cases hover

theorem inv_connect (h : Inv w) (hclosed : w.AllClosed) (htimers : w.timers = [])
    (constructs : Bool) : Inv (w.connect constructs) := by
  unfold connect
  split
  · exact h
  rename_i hopen
  have htold : Inv (w.tell (.onStatus .connecting)) := inv_tell h trivial
  cases constructs with
  | false => exact inv_schedule htold hclosed
  | true =>
    have hready : ∀ i, i ≠ w.sockets →
        ((w.tell (.onStatus .connecting)).setReady w.sockets .CONNECTING).ready i = .CLOSED := by
      intro i hi
      rw [ready_ne _ hi]
      exact hclosed i
    have honly : ∀ i,
        ((w.tell (.onStatus .connecting)).setReady w.sockets .CONNECTING).ready i ≠ .CLOSED →
        i = w.sockets := by
      intro i hi
      by_contra hne
      exact hi (hready i hne)
    have hover : w.ended = false := h.ended.trans (eq_false_of_ne_true hopen)
    constructor
    · intro i hi
      exact hready i (Nat.lt_of_succ_le hi).ne'
    · exact fun i j hi hj => (honly i hi).trans (honly j hj).symm
    · intro i hi
      have hne : i = w.sockets := by
        refine honly i fun hclosed' => ?_
        rcases hi with hi | hi
        · cases hi.symm.trans hclosed'
        · cases hi.symm.trans hclosed'
      rw [hne]
      rfl
    · exact h.timers
    · exact fun hne => (hne htimers).elim
    · exact h.ended
    · intro hover'
      cases hover.symm.trans hover'
    · exact h.prompts

/-! ### The steps -/

theorem inv_send (h : Inv w) (frame : ClientFrame) : Inv (w.send frame) := by
  unfold send
  split
  · exact h
  split
  · exact inv_tell h trivial
  · exact h

theorem inv_closeWs (h : Inv w) : Inv w.closeWs := by
  unfold closeWs
  split
  · exact h
  · exact inv_close h _

theorem asleep_closeWs (h : Inv w) (id : ℕ) : ¬ w.closeWs.Awake id := by
  intro hawake
  unfold closeWs at hawake
  split at hawake
  · rename_i hws
    cases hws.symm.trans (h.current id hawake)
  rename_i cur hws
  unfold close at hawake
  split at hawake
  · by_cases heq : id = cur
    · subst heq
      rw [Awake, ready_self] at hawake
      rcases hawake with hready | hready <;> cases hready
    · rw [Awake, ready_ne _ heq] at hawake
      exact heq (Option.some.inj (hws.symm.trans (h.current id hawake))).symm
  · rename_i hasleep
    have hcur : cur = id := Option.some.inj (hws.symm.trans (h.current id hawake))
    subst hcur
    exact hasleep hawake

theorem timers_closeWs (w : ConnectClient) : w.closeWs.timers = w.timers := by
  unfold closeWs close
  split
  · rfl
  · split <;> rfl

theorem timers_send (w : ConnectClient) (frame : ClientFrame) :
    (w.send frame).timers = w.timers := by
  unfold send
  split
  · rfl
  · split <;> rfl

theorem timers_notify (w : ConnectClient) : w.notifyAuthError.timers = w.timers := by
  unfold notifyAuthError
  split <;> rfl

/-- A timer stands only between two sockets. -/
theorem timers_of_live (h : Inv w) (hlive : w.ready id ≠ .CLOSED) : w.timers = [] := by
  by_contra hne
  exact hlive (h.waiting hne id)

theorem timers_clear (h : Inv w) : w.clearReconnect.timers = [] := by
  have hids := h.timers
  unfold clearReconnect
  cases htimer : w.reconnectTimer with
  | none =>
    rw [htimer] at hids
    exact List.map_eq_nil_iff.1 hids
  | some id =>
    rw [htimer] at hids
    refine List.filter_eq_nil_iff.2 fun timer hmem => ?_
    have hid : timer.1 ∈ (some id).toList := hids ▸ List.mem_map_of_mem hmem
    simpa using hid

theorem inv_clear (h : Inv w) : Inv w.clearReconnect := by
  have htimers := timers_clear h
  unfold clearReconnect at htimers ⊢
  cases htimer : w.reconnectTimer with
  | none => exact h
  | some id =>
    rw [htimer] at htimers
    dsimp only at htimers ⊢
    rw [htimers]
    exact ⟨h.fresh, h.single, h.current, rfl, fun hne => (hne rfl).elim, h.ended,
      fun hover => ⟨rfl, (h.quiet hover).2⟩, h.prompts⟩

theorem finish_clear (w : ConnectClient) : w.finish.clearReconnect = w.clearReconnect.finish := by
  unfold clearReconnect
  rw [show w.finish.reconnectTimer = w.reconnectTimer from rfl]
  cases w.reconnectTimer with
  | none => rfl
  | some id => rfl

theorem finish_send (w : ConnectClient) (frame : ClientFrame) :
    w.finish.send frame = (w.send frame).finish := by
  unfold send
  rw [show w.finish.ws = w.ws from rfl]
  cases w.ws with
  | none => rfl
  | some id =>
    dsimp only
    by_cases hready : w.ready id = .OPEN
    · rw [if_pos hready]
      exact if_pos hready
    · rw [if_neg hready]
      exact if_neg hready

theorem finish_closeWs (w : ConnectClient) : w.finish.closeWs = w.closeWs.finish := by
  unfold closeWs
  rw [show w.finish.ws = w.ws from rfl]
  cases w.ws with
  | none => rfl
  | some id =>
    dsimp only
    unfold close
    by_cases hready : w.ready id = .CONNECTING ∨ w.ready id = .OPEN
    · rw [if_pos hready]
      exact if_pos hready
    · rw [if_neg hready]
      exact if_neg hready

theorem inv_finish (h : Inv w) (htimers : w.timers = []) (hasleep : ∀ id, ¬ w.Awake id) :
    Inv w.finish :=
  ⟨h.fresh, h.single, h.current, h.timers, h.waiting, rfl, fun _ => ⟨htimers, hasleep⟩, h.prompts⟩

theorem inv_forget (h : Inv w) (hasleep : ∀ id, ¬ w.Awake id) : Inv { w with ws := none } :=
  ⟨h.fresh, h.single, fun id hawake => (hasleep id hawake).elim, h.timers, h.waiting, h.ended,
    h.quiet, h.prompts⟩

theorem inv_start (h : Inv w) (hclosed : ∀ i < w.sockets, w.ready i = .CLOSED)
    (htimers : w.timers = []) (constructs : Bool) : Inv (w.start constructs) := by
  have hall : w.AllClosed := by
    intro i
    by_cases hi : i < w.sockets
    · exact hclosed i hi
    · exact h.fresh i (Nat.le_of_not_lt hi)
  have hbegun : Inv { w with closed := false, ended := false } :=
    ⟨h.fresh, h.single, h.current, h.timers, h.waiting, rfl, (fun hover => nomatch hover),
      h.prompts⟩
  exact inv_connect hbegun hall htimers constructs

theorem inv_stop (h : Inv w) : Inv w.stop := by
  have hsent : Inv (w.clearReconnect.send .bye) := inv_send (inv_clear h) .bye
  have htimers : (w.clearReconnect.send .bye).closeWs.timers = [] := by
    rw [timers_closeWs, timers_send]
    exact timers_clear h
  have hover := inv_finish (inv_closeWs hsent) htimers (asleep_closeWs hsent)
  unfold stop
  rw [finish_clear, finish_send, finish_closeWs]
  exact inv_forget hover (asleep_closeWs hsent)

theorem inv_message (h : Inv w) (hopen : w.ready id = .OPEN) (msg : ServerMsg protocol) :
    Inv (w.onMessage msg) := by
  cases msg with
  | welcome did deviceId =>
    exact ⟨h.fresh, h.single, h.current, h.timers, h.waiting, h.ended, h.quiet, rfl⟩
  | devices devices => exact inv_tell h trivial
  | command sender cmd => exact inv_tell h trivial
  | presence anyPlaying cleanup => exact inv_tell h trivial
  | error code message =>
    by_cases hcode : code = "AuthFailed"
    · have hlive : w.ready id ≠ .CLOSED := Awake.ne_closed (Or.inr hopen)
      have hnotified := inv_notify h
      have htimers : w.notifyAuthError.closeWs.timers = [] := by
        rw [timers_closeWs, timers_notify]
        exact timers_of_live h hlive
      rw [onMessage, if_pos hcode, finish_closeWs]
      exact inv_finish (inv_closeWs hnotified) htimers (asleep_closeWs hnotified)
    · rw [onMessage, if_neg hcode]
      exact h

theorem inv_minted (device : DeviceOptions) (h : Inv w) (token : Option String)
    (state : PlaybackState) : Inv (w.onMinted device id token state) := by
  have h' : Inv { w with minting := w.minting.erase id } :=
    ⟨h.fresh, h.single, h.current, h.timers, h.waiting, h.ended, h.quiet, h.prompts⟩
  unfold onMinted
  cases token with
  | none => exact inv_close (inv_note h') id
  | some token =>
    dsimp only
    split
    · exact h'
    · exact inv_tell h' trivial

theorem inv_closed (h : Inv w) (hlive : w.ready id ≠ .CLOSED) :
    Inv ((w.setReady id .CLOSED).onClose id) := by
  have hset : Inv (w.setReady id .CLOSED) := inv_setReady h hlive (Or.inr (Or.inr rfl))
  have hall : (w.setReady id .CLOSED).AllClosed := by
    intro i
    by_cases heq : i = id
    · rw [heq]
      exact ready_self w id .CLOSED
    · rw [ready_ne _ heq]
      by_contra hi
      exact heq (h.single i id hi hlive)
  have hasleep : ∀ i, ¬ (w.setReady id .CLOSED).Awake i := fun i hi => hi.ne_closed (hall i)
  unfold onClose
  dsimp only
  split
  · exact inv_schedule (inv_tell (inv_forget hset hasleep) trivial) hall
  · exact inv_schedule (inv_tell hset trivial) hall

theorem inv_timer (h : Inv w) (hmem : id ∈ w.timers.map Prod.fst) (constructs : Bool) :
    Inv ({ w with timers := w.timers.filter (·.1 ≠ id), reconnectTimer := none }.connect
      constructs) := by
  have hpending : w.reconnectTimer = some id := by
    rw [h.timers] at hmem
    exact Option.mem_toList.1 hmem
  have hclear : { w with timers := w.timers.filter (·.1 ≠ id), reconnectTimer := none } =
      w.clearReconnect := by
    unfold clearReconnect
    rw [hpending]
  have hall : w.AllClosed := h.waiting (List.ne_nil_of_mem hmem ∘ congrArg (List.map Prod.fst))
  rw [hclear]
  refine inv_connect (inv_clear h) ?_ (timers_clear h) constructs
  rw [← hclear]
  exact hall

theorem step_inv (device : DeviceOptions) (e : ClientEvent) (h : Inv w) (hguard : w.Guarded e) :
    Inv (w.step device e) := by
  cases e with
  | start constructs => exact inv_start h hguard.1 hguard.2 constructs
  | stop => exact inv_stop h
  | opened id =>
    simp only [step]
    split
    · rename_i hready
      have hset : Inv (w.setReady id .OPEN) :=
        inv_setReady h (Awake.ne_closed (Or.inl hready)) (Or.inl (Or.inl hready))
      exact ⟨hset.fresh, hset.single, hset.current, hset.timers, hset.waiting, hset.ended,
        hset.quiet, hset.prompts⟩
    · exact h
  | minted id token state =>
    simp only [step]
    split
    · exact inv_minted device h token state
    · exact h
  | message id msg =>
    simp only [step]
    split
    · rename_i hready
      cases msg with
      | none => exact h
      | some msg => exact inv_message h hready msg
    · exact h
  | closed id =>
    simp only [step]
    split
    · exact h
    · rename_i hlive
      exact inv_closed h hlive
  | timer id constructs =>
    simp only [step]
    split
    · rename_i hmem
      exact inv_timer h hmem constructs
    · exact h
  | sendState state => exact inv_send h _
  | command target cmd => exact inv_send h _

/-! ### Silence -/

theorem acts_close (w : ConnectClient) (id : ℕ) : (w.close id).acts = w.acts := by
  unfold close
  split <;> rfl

theorem acts_closeWs (w : ConnectClient) : w.closeWs.acts = w.acts := by
  unfold closeWs
  split
  · rfl
  · exact acts_close w _

theorem acts_clear (w : ConnectClient) : w.clearReconnect.acts = w.acts := by
  unfold clearReconnect
  split <;> rfl

theorem acts_note (h : w.authFailures + 1 < AUTH_FAILURE_THRESHOLD ∨ w.authErrorNotified = true) :
    w.noteAuthFailure.acts = w.acts := by
  unfold noteAuthFailure
  dsimp only
  split
  · rename_i hreached
    rcases h with hbelow | hnotified
    · exact (Nat.not_lt.2 hreached hbelow).elim
    · rw [notifyAuthError, if_pos hnotified]
  · rfl

/-- What sends takes an open socket. -/
theorem acts_send (hasleep : ∀ id, ¬ w.Awake id) (frame : ClientFrame) :
    (w.send frame).acts = w.acts := by
  unfold send
  split
  · rfl
  · rw [if_neg fun hready => hasleep _ (Or.inr hready)]

theorem acts_stop (hasleep : ∀ id, ¬ w.Awake id) : w.stop.acts = w.acts := by
  have hasleep' : ∀ id, ¬ w.clearReconnect.Awake id := by
    intro id hawake
    unfold clearReconnect at hawake
    split at hawake
    · exact hasleep id hawake
    · exact hasleep id hawake
  unfold stop
  rw [finish_clear, finish_send, finish_closeWs]
  exact (acts_closeWs _).trans ((acts_send hasleep' .bye).trans (acts_clear w))

theorem acts_minted {device : DeviceOptions} {token : Option String} {state : PlaybackState}
    (hasleep : ∀ id, ¬ w.Awake id)
    (hnone : token = none → w.authFailures + 1 < AUTH_FAILURE_THRESHOLD ∨
      w.authErrorNotified = true) :
    (w.onMinted device id token state).acts = w.acts := by
  cases token with
  | none => exact (acts_close _ id).trans (acts_note (hnone rfl))
  | some token =>
    unfold onMinted
    dsimp only
    split
    · rfl
    · rename_i hgoes
      rw [Bool.or_eq_true, not_or, decide_eq_true_eq, decide_eq_true_eq, not_not, not_not] at hgoes
      exact (hasleep id (Or.inr hgoes.2)).elim

theorem silent_step (device : DeviceOptions) (e : ClientEvent) (h : Inv w)
    (hguard : w.Guarded e) : w.Silent device e := by
  intro hover hstart
  obtain ⟨htimers, hasleep⟩ := h.quiet hover
  cases e with
  | start constructs => exact (hstart constructs rfl).elim
  | stop => exact acts_stop hasleep
  | opened id =>
    simp only [step]
    split <;> rfl
  | minted id token state =>
    simp only [step]
    split
    · rename_i hmem
      refine acts_minted hasleep fun hnone => ?_
      subst hnone
      exact hguard hover hmem
    · rfl
  | message id msg =>
    simp only [step]
    rw [if_neg fun hready => hasleep id (Or.inr hready)]
  | closed id =>
    simp only [step]
    rw [if_pos (hguard hover)]
  | timer id constructs =>
    simp only [step]
    rw [htimers, List.map_nil, if_neg List.not_mem_nil]
  | sendState state => exact acts_send hasleep _
  | command target cmd => exact acts_send hasleep _

/-- A stopped client is silent, unless its socket has yet to close or a mint to fail. -/
theorem silent_of_guarded (device : DeviceOptions) (es : List ClientEvent)
    (h : AllSteps (step device) Guarded new es) :
    AllSteps (step device) (Silent device) new es ∧ (run (step device) new es).Single ∧
      prompts (run (step device) new es).acts ≤ 1 := by
  have hinv : Inv (run (step device) new es) :=
    run_invariant (fun _ e hw hg => step_inv device e hw hg) inv_new h
  refine ⟨allSteps_of_invariant (fun _ e hw hg => step_inv device e hw hg)
    (fun _ e hw hg => silent_step device e hw hg) inv_new h, ⟨?_, hinv.single⟩, ?_⟩
  · rw [← List.length_map Prod.fst, hinv.timers]
    cases (run (step device) new es).reconnectTimer with
    | none => exact Nat.zero_le 1
    | some id => exact Nat.le_refl 1
  · rw [hinv.prompts]
    split
    · exact Nat.le_refl 1
    · exact Nat.zero_le 1

def idle : PlaybackState := ⟨false, none, none, 1, false⟩

/-- The hub refuses the second token, once the socket of the first has closed. -/
def refused : List ClientEvent :=
  [.start true, .opened 0, .minted 0 none idle, .closed 0, .timer 0 true, .opened 1,
    .minted 1 (some "token") idle, .message 1 (some (.error "AuthFailed" "invalid token")),
    .sendState idle, .stop]

def browser : DeviceOptions := ⟨"tab", "Firefox", .web⟩

theorem refused_silent :
    AllSteps (step browser) (Silent browser) new refused ∧
      (run (step browser) new refused).Single ∧
      prompts (run (step browser) new refused).acts ≤ 1 :=
  silent_of_guarded browser refused (by decide)

theorem not_silent {device : DeviceOptions} {es : List ClientEvent} {e : ClientEvent}
    (hover : (run (step device) new es).ended = true) (hstart : ∀ constructs, e ≠ .start constructs)
    (hacts : (run (step device) new (es ++ [e])).acts.length ≠
      (run (step device) new es).acts.length) :
    ¬ AllSteps (step device) (Silent device) new (es ++ [e]) := by
  intro h
  have hlast := ((allSteps_append (step device) (Silent device) new es [e]).1 h).2.1 hover hstart
  rw [run_append, run_cons, run_nil, hlast] at hacts
  exact hacts rfl

def stopped : List ClientEvent := [.start true, .opened 0, .stop]

/-- Stopped while the second token is minted. -/
def stoppedLate : List ClientEvent :=
  [.start true, .opened 0, .minted 0 none idle, .closed 0, .timer 0 true, .opened 1, .stop]

/-- The close of the socket that `stop` closed is told; a mint that fails later prompts; and the
late close has a client that was started again open two sockets. -/
theorem stopped_speaks :
    ¬ AllSteps (step browser) (Silent browser) new (stopped ++ [.closed 0]) ∧
      ¬ AllSteps (step browser) (Silent browser) new (stoppedLate ++ [.minted 1 none idle]) ∧
      ¬ (run (step browser) new
        (stopped ++ [.start true, .opened 1, .closed 0, .timer 0 true, .opened 2])).Single := by
  refine ⟨not_silent rfl nofun (by decide), not_silent rfl nofun (by decide), fun h => ?_⟩
  have hone : (1 : ℕ) = 2 := h.sockets 1 2 (by decide) (by decide)
  exact absurd hone (by decide)

end ConnectClient

end Atradio.Web
