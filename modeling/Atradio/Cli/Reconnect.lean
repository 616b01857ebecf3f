import Mathlib.Algebra.Group.Nat.Defs
import Mathlib.Data.List.Induction
import Mathlib.Data.List.TakeWhile
import Atradio.Cli.Remote
import Atradio.Web.ConnectClient

/-! # Reconnecting to the hub (`run` in `remote.rs`)

The loop of the terminal client beside the client of the browser, over the same outcomes of
connection attempts. -/

namespace Atradio.Cli
open Atradio.Connect Atradio.Lib Atradio.Web

/-- What comes of an attempt to connect. `socketFails` is after the token was minted; a connection
that was welcomed drops later. -/
inductive Outcome where
  | mintFails (detail : String)
  | socketFails
  | welcomed (did : Did) (deviceId : String)

/-! ### The terminal client -/

structure RunLoop where
  backoff : ℕ := 1000
  mintFailures : ℕ := 0
  authNotified : Bool := false
  /-- The events sent and the waits, the latest first. -/
  events : List RemoteEvent := []
  waits : List ℕ := []

namespace RunLoop

def AUTH_FAILURE_THRESHOLD : ℕ := 2

def emit (l : RunLoop) (evt : RemoteEvent) : RunLoop := { l with events := evt :: l.events }

def sleep (l : RunLoop) : RunLoop :=
  { l with waits := l.backoff :: l.waits, backoff := min (l.backoff * 2) 15000 }

def mintFailed (l : RunLoop) (detail : String) : RunLoop :=
  let l := { l with mintFailures := l.mintFailures + 1 }
  if AUTH_FAILURE_THRESHOLD ≤ l.mintFailures ∧ l.authNotified = false then
    { l with authNotified := true }.emit (.authExpired detail)
  else l

/-- What `handle_server_text` does with a welcome. -/
def welcome (l : RunLoop) (deviceId : String) : RunLoop :=
  (l.emit (.welcome deviceId)).emit (.status true)

/-- One turn of the loop. -/
def turn (l : RunLoop) : Outcome → RunLoop
  | .mintFails detail => ((l.mintFailed detail).emit (.status false)).sleep
  | .socketFails =>
    ({ l with mintFailures := 0, authNotified := false }.emit (.status false)).sleep
  | .welcomed _ deviceId =>
    let l := { l with mintFailures := 0 }.welcome deviceId
    ({ l with authNotified := false }.emit (.status false)).sleep

end RunLoop

/-! ### The client of the browser -/

variable (device : DeviceOptions) (token : String) (state : PlaybackState)

/-- The owner starts the client, and its timer goes on from there. -/
def begins (w : ConnectClient) : ClientEvent :=
  match w.reconnectTimer with
  | none => .start true
  | some id => .timer id true

/-- What happens to the socket of an attempt. -/
def Outcome.events (id : ℕ) : Outcome → List ClientEvent
  | .mintFails _ => [.opened id, .minted id none state, .closed id]
  | .socketFails => [.opened id, .minted id (some token) state, .closed id]
  | .welcomed did deviceId =>
    [.opened id, .minted id (some token) state, .message id (some (.welcome did deviceId)),
      .closed id]

def attempt (w : ConnectClient) (o : Outcome) : ConnectClient :=
  run (ConnectClient.step device) w (begins w :: o.events token state w.sockets)

/-- Between two attempts: every socket has closed, and at most the next attempt is timed. -/
structure Between (w : ConnectClient) : Prop where
  ready : ∀ id, w.ready id = .CLOSED
  closed : w.closed = false
  ended : w.ended = false
  minting : w.minting = []
  timers : w.timers.map Prod.fst = w.reconnectTimer.toList

variable {w : ConnectClient}

/-- How often the client has asked for a new sign-in. -/
def alarms (w : ConnectClient) : ℕ :=
  w.acts.countP fun act => match act with
    | .onAuthError => true
    | _ => false

/-- The socket of an attempt is not closed, and `minting` says who awaits a token. -/
structure During (w : ConnectClient) (id : ℕ) (minting : List ℕ) : Prop where
  other : ∀ j, j ≠ id → w.ready j = .CLOSED
  closed : w.closed = false
  ended : w.ended = false
  minting : w.minting = minting
  timers : w.timers = []
  timer : w.reconnectTimer = none

/-- What both clients keep between attempts, and the notices so far. -/
structure Counts where
  backoff : ℕ
  failures : ℕ
  notified : Bool
  alarms : ℕ

def counts (w : ConnectClient) : Counts :=
  ⟨w.backoff, w.authFailures, w.authErrorNotified, alarms w⟩

theorem begins_during (h : Between w) :
    During (w.step device (begins w)) w.sockets [] ∧
      (w.step device (begins w)).ready w.sockets = .CONNECTING ∧
      counts (w.step device (begins w)) = counts w := by
  obtain ⟨ready, sockets, timers, armed, minting, acts, ended, ws, closed, backoff, timer, failures,
    notified⟩ := w
  obtain ⟨hready, hclosed, hended, hminting, htimers⟩ := h
  dsimp only at hready hclosed hended hminting htimers
  subst hclosed hended hminting
  have hother : ∀ j, j ≠ sockets → Function.update ready sockets .CONNECTING j = .CLOSED := by
    intro j hj
    rw [Function.update_of_ne hj]
    exact hready j
  cases timer with
  | none =>
    have hnil : timers = [] := List.map_eq_nil_iff.1 htimers
    subst hnil
    exact ⟨⟨hother, rfl, rfl, rfl, rfl, rfl⟩, Function.update_self .., rfl⟩
  | some id =>
    obtain ⟨t, rfl, rfl⟩ := List.map_eq_singleton_iff.1 htimers
    have hstep : ConnectClient.step device
        ⟨ready, sockets, [t], armed, [], acts, false, ws, false, backoff, some t.1, failures,
          notified⟩ (.timer t.1 true) =
        ConnectClient.connect ⟨ready, sockets, [], armed, [], acts, false, ws, false, backoff, none,
          failures, notified⟩ true := by
      simp [ConnectClient.step]
    rw [show begins _ = ClientEvent.timer t.1 true from rfl, hstep]
    exact ⟨⟨hother, rfl, rfl, rfl, rfl, rfl⟩, Function.update_self .., rfl⟩

theorem opened_during {id : ℕ} (h : During w id []) (hready : w.ready id = .CONNECTING) :
    During (w.step device (.opened id)) id [id] ∧
      (w.step device (.opened id)).ready id = .OPEN ∧
      counts (w.step device (.opened id)) = counts w := by
  have hstep : w.step device (.opened id) =
      { w.setReady id .OPEN with minting := id :: w.minting } := if_pos hready
  rw [hstep]
  refine ⟨⟨fun j hj => ?_, h.closed, h.ended, ?_, h.timers, h.timer⟩, Function.update_self .., rfl⟩
  · exact (Function.update_of_ne hj ..).trans (h.other j hj)
  · exact congrArg (id :: ·) h.minting

/-- A socket that closes times the next attempt. -/
theorem closed_between {id : ℕ} (h : During w id []) (hready : w.ready id ≠ .CLOSED) :
    Between (w.step device (.closed id)) ∧
      (w.step device (.closed id)).timers.map Prod.snd = [(counts w).backoff] ∧
      counts (w.step device (.closed id)) =
        { counts w with backoff := min ((counts w).backoff * 2) 15000 } := by
  have hstep : w.step device (.closed id) = (w.setReady id .CLOSED).onClose id := if_neg hready
  obtain ⟨ready, sockets, timers, armed, minting, acts, ended, ws, closed, backoff, timer, failures,
    notified⟩ := w
  obtain ⟨hother, hclosed, hended, hminting, htimers, htimer⟩ := h
  dsimp only at hother hclosed hended hminting htimers htimer
  subst hclosed hended hminting htimers htimer
  rw [hstep]
  have hall : ∀ j, Function.update ready id .CLOSED j = .CLOSED := by
    intro j
    by_cases hj : j = id
    · rw [hj, Function.update_self]
    · rw [Function.update_of_ne hj, hother j hj]
  unfold ConnectClient.onClose
  dsimp only
  split
  · exact ⟨⟨hall, rfl, rfl, rfl, rfl⟩, rfl, rfl⟩
  · exact ⟨⟨hall, rfl, rfl, rfl, rfl⟩, rfl, rfl⟩

/-- What an attempt makes of them. -/
def Counts.after (c : Counts) : Outcome → Counts
  | .mintFails _ =>
    { backoff := min (c.backoff * 2) 15000
      failures := c.failures + 1
      notified := c.notified || ConnectClient.AUTH_FAILURE_THRESHOLD ≤ c.failures + 1
      alarms := c.alarms +
        if ConnectClient.AUTH_FAILURE_THRESHOLD ≤ c.failures + 1 ∧ c.notified = false then 1
        else 0 }
  | .socketFails => { c with backoff := min (c.backoff * 2) 15000 }
  | .welcomed _ _ => ⟨2000, 0, false, c.alarms⟩

/-- The delay of the timer that follows an attempt. -/
def Counts.delay (c : Counts) : Outcome → ℕ
  | .mintFails _ | .socketFails => c.backoff
  | .welcomed _ _ => 1000

theorem minted_during {id : ℕ} (h : During w id [id]) (hready : w.ready id = .OPEN) :
    During (w.step device (.minted id (some token) state)) id [] ∧
      (w.step device (.minted id (some token) state)).ready id = .OPEN ∧
      counts (w.step device (.minted id (some token) state)) = counts w := by
  have hmem : id ∈ w.minting := h.minting ▸ List.mem_singleton.2 rfl
  have herase : w.minting.erase id = [] := by simp [h.minting]
  rw [show w.step device (.minted id (some token) state) = _ from if_pos hmem]
  unfold ConnectClient.onMinted
  dsimp only
  split
  · exact ⟨⟨h.other, h.closed, h.ended, herase, h.timers, h.timer⟩, hready, rfl⟩
  · exact ⟨⟨h.other, h.closed, h.ended, herase, h.timers, h.timer⟩, hready, rfl⟩

theorem mintFailed_during {id : ℕ} (detail : String) (h : During w id [id])
    (hready : w.ready id = .OPEN) :
    During (w.step device (.minted id none state)) id [] ∧
      (w.step device (.minted id none state)).ready id ≠ .CLOSED ∧
      counts (w.step device (.minted id none state)) =
        { (counts w).after (.mintFails detail) with backoff := (counts w).backoff } := by
  have hmem : id ∈ w.minting := h.minting ▸ List.mem_singleton.2 rfl
  have hstep : w.step device (.minted id none state) =
      { w with minting := w.minting.erase id }.noteAuthFailure.close id := if_pos hmem
  obtain ⟨ready, sockets, timers, armed, minting, acts, ended, ws, closed, backoff, timer, failures,
    notified⟩ := w
  obtain ⟨hother, hclosed, hended, hminting, htimers, htimer⟩ := h
  dsimp only at hother hclosed hended hminting htimers htimer hready
  subst hclosed hended hminting htimers htimer
  rw [hstep]
  have hclosing : ∀ j, j ≠ id → Function.update ready id .CLOSING j = .CLOSED := by
    intro j hj
    rw [Function.update_of_ne hj]
    exact hother j hj
  have hself : Function.update ready id ReadyState.CLOSING id ≠ .CLOSED := by
    rw [Function.update_self]
    exact nofun
  have herase : [id].erase id = [] := by simp
  by_cases hthreshold : ConnectClient.AUTH_FAILURE_THRESHOLD ≤ failures + 1
  · cases notified with
    | true =>
      simp only [ConnectClient.noteAuthFailure, ConnectClient.notifyAuthError,
        ConnectClient.close, hthreshold, hready, or_true, if_true]
      refine ⟨⟨hclosing, rfl, rfl, herase, rfl, rfl⟩, hself, ?_⟩
      simp [counts, Counts.after, alarms, ConnectClient.setReady]
    | false =>
      simp only [ConnectClient.noteAuthFailure, ConnectClient.notifyAuthError,
        ConnectClient.close, ConnectClient.tell, hthreshold, hready, or_true, if_true,
        Bool.false_eq_true, if_false]
      refine ⟨⟨hclosing, rfl, rfl, herase, rfl, rfl⟩, hself, ?_⟩
      simp [counts, Counts.after, alarms, ConnectClient.setReady, hthreshold]
  · simp only [ConnectClient.noteAuthFailure, ConnectClient.close, hthreshold, hready, or_true,
      if_true, if_false]
    refine ⟨⟨hclosing, rfl, rfl, herase, rfl, rfl⟩, hself, ?_⟩
    simp [counts, Counts.after, alarms, ConnectClient.setReady, hthreshold]

theorem welcomed_during {id : ℕ} (did : Did) (deviceId : String) (h : During w id [])
    (hready : w.ready id = .OPEN) :
    During (w.step device (.message id (some (.welcome did deviceId)))) id [] ∧
      (w.step device (.message id (some (.welcome did deviceId)))).ready id = .OPEN ∧
      counts (w.step device (.message id (some (.welcome did deviceId)))) =
        ⟨1000, 0, false, alarms w⟩ := by
  rw [show w.step device (.message id (some (.welcome did deviceId))) = _ from if_pos hready]
  exact ⟨⟨h.other, h.closed, h.ended, h.minting, h.timers, h.timer⟩, hready, rfl⟩

theorem attempt_between (h : Between w) (o : Outcome) :
    Between (attempt device token state w o) ∧
      (attempt device token state w o).timers.map Prod.snd = [(counts w).delay o] ∧
      counts (attempt device token state w o) = (counts w).after o := by
  obtain ⟨hdial, hconnecting, hdialed⟩ := begins_during device h
  obtain ⟨hopen, hready, hopened⟩ := opened_during device hdial hconnecting
  rw [hdialed] at hopened
  cases o with
  | mintFails detail =>
    obtain ⟨hmint, hlive, hminted⟩ := mintFailed_during device state detail hopen hready
    obtain ⟨hbetween, hdelay, hclosed⟩ := closed_between device hmint hlive
    rw [hminted, hopened] at hdelay hclosed
    simp only [attempt, Outcome.events, run_cons, run_nil]
    exact ⟨hbetween, hdelay, hclosed⟩
  | socketFails =>
    obtain ⟨hmint, hready', hminted⟩ := minted_during device token state hopen hready
    obtain ⟨hbetween, hdelay, hclosed⟩ := closed_between device hmint (by simp [hready'])
    rw [hminted, hopened] at hdelay hclosed
    simp only [attempt, Outcome.events, run_cons, run_nil]
    exact ⟨hbetween, hdelay, hclosed⟩
  | welcomed did deviceId =>
    obtain ⟨hmint, hready', hminted⟩ := minted_during device token state hopen hready
    obtain ⟨hwelcome, hready₂, hwelcomed⟩ := welcomed_during device did deviceId hmint hready'
    obtain ⟨hbetween, hdelay, hclosed⟩ := closed_between device hwelcome (by simp [hready₂])
    rw [hwelcomed] at hdelay hclosed
    dsimp only at hclosed
    have halarms := congrArg Counts.alarms (hminted.trans hopened)
    simp only [attempt, Outcome.events, run_cons, run_nil]
    refine ⟨hbetween, hdelay, hclosed.trans ?_⟩
    rw [show alarms _ = (counts w).alarms from halarms]
    rfl

/-! ### Both along every sequence of outcomes -/

def Outcome.isWelcomed : Outcome → Bool
  | .welcomed _ _ => true
  | .mintFails _ | .socketFails => false

def Outcome.isMintFails : Outcome → Bool
  | .mintFails _ => true
  | .socketFails | .welcomed _ _ => false

/-- The attempts since the last welcome, the latest first. -/
def sinceWelcome (os : List Outcome) : List Outcome := os.reverse.takeWhile fun o => !o.isWelcomed

def failedSince (os : List Outcome) : ℕ := (sinceWelcome os).countP Outcome.isMintFails

def failedInARow (os : List Outcome) : ℕ := (os.reverse.takeWhile Outcome.isMintFails).length

/-- How often the client of the browser has waited since its delay was one second. -/
def doublings (os : List Outcome) : ℕ :=
  (sinceWelcome os).length + if os.any Outcome.isWelcomed then 1 else 0

/-- A delay of one second that was doubled, up to fifteen seconds. -/
def doubled (n : ℕ) : ℕ := min (1000 * 2 ^ n) 15000

theorem doubled_succ (n : ℕ) : doubled (n + 1) = min (doubled n * 2) 15000 := by
  unfold doubled
  rw [pow_succ]
  omega

theorem sinceWelcome_snoc (os : List Outcome) (o : Outcome) :
    sinceWelcome (os ++ [o]) = if o.isWelcomed then [] else o :: sinceWelcome os := by
  cases h : o.isWelcomed <;> simp [sinceWelcome, h]

theorem failedSince_snoc (os : List Outcome) (o : Outcome) :
    failedSince (os ++ [o]) =
      if o.isWelcomed then 0 else failedSince os + if o.isMintFails then 1 else 0 := by
  rw [failedSince, sinceWelcome_snoc]
  cases o.isWelcomed with
  | true => rfl
  | false => exact List.countP_cons

theorem failedInARow_snoc (os : List Outcome) (o : Outcome) :
    failedInARow (os ++ [o]) = if o.isMintFails then failedInARow os + 1 else 0 := by
  cases h : o.isMintFails <;> simp [failedInARow, h]

theorem doublings_snoc (os : List Outcome) (o : Outcome) :
    doublings (os ++ [o]) = if o.isWelcomed then 1 else doublings os + 1 := by
  rw [doublings, sinceWelcome_snoc]
  cases h : o.isWelcomed with
  | true => simp [h]
  | false =>
    simp only [List.any_append, List.any_cons, List.any_nil, h, Bool.or_false, Bool.false_eq_true,
      if_false, List.length_cons, doublings]
    omega

theorem doublings_of_none {os : List Outcome} (h : ∀ o ∈ os, o.isWelcomed = false) :
    doublings os = os.length := by
  have hall : sinceWelcome os = os.reverse := by
    rw [sinceWelcome, List.takeWhile_eq_self_iff]
    simpa using h
  have hnone : os.any Outcome.isWelcomed = false := by simpa using h
  simp [doublings, hall, hnone]

theorem takeWhile_mints {l : List Outcome}
    (h : ∀ o ∈ l.takeWhile fun o => !o.isWelcomed, o.isMintFails = true) :
    l.takeWhile Outcome.isMintFails = l.takeWhile fun o => !o.isWelcomed := by
  induction l with
  | nil => rfl
  | cons o l ih =>
    cases o with
    | welcomed did deviceId => rfl
    | socketFails => cases h .socketFails (List.mem_cons_self ..)
    | mintFails detail =>
      have htail := ih fun x hx => h x (List.mem_cons_of_mem _ hx)
      exact congrArg (Outcome.mintFails detail :: ·) htail

/-- Where every attempt since the last welcome failed to mint, the failures are in a row. -/
theorem failedInARow_eq {os : List Outcome} (h : ∀ o ∈ sinceWelcome os, o.isMintFails = true) :
    failedInARow os = failedSince os := by
  rw [failedInARow, takeWhile_mints h]
  exact (List.countP_eq_length.2 h).symm

/-- The terminal client after some attempts, and the client of the browser. -/
def terminal (os : List Outcome) : RunLoop := run RunLoop.turn {} os

def browser (os : List Outcome) : ConnectClient := run (attempt device token state) .new os

/-- How often the terminal client has said that the session is over. -/
def RunLoop.notices (l : RunLoop) : ℕ :=
  l.events.countP fun evt => match evt with
    | .authExpired _ => true
    | _ => false

structure TerminalAt (l : RunLoop) (os : List Outcome) : Prop where
  backoff : l.backoff = doubled os.length
  mintFailures : l.mintFailures = failedInARow os
  authNotified : l.authNotified = decide (2 ≤ failedInARow os)

structure BrowserAt (w : ConnectClient) (os : List Outcome) : Prop where
  between : Between w
  backoff : w.backoff = doubled (doublings os)
  authFailures : w.authFailures = failedSince os
  authErrorNotified : w.authErrorNotified = decide (2 ≤ failedSince os)

theorem browserAt_snoc {os : List Outcome} (h : BrowserAt w os) (o : Outcome) :
    BrowserAt (attempt device token state w o) (os ++ [o]) := by
  obtain ⟨hbetween, -, hcounts⟩ := attempt_between device token state h.between o
  have hbackoff := congrArg Counts.backoff hcounts
  have hfailures := congrArg Counts.failures hcounts
  have hnotified := congrArg Counts.notified hcounts
  have hdoubled : min (w.backoff * 2) 15000 = doubled (doublings os + 1) := by
    rw [h.backoff, doubled_succ]
  refine ⟨hbetween, hbackoff.trans ?_, hfailures.trans ?_, hnotified.trans ?_⟩
  · rw [doublings_snoc]
    cases o with
    | welcomed did deviceId => rfl
    | mintFails detail => exact hdoubled
    | socketFails => exact hdoubled
  · rw [failedSince_snoc]
    cases o with
    | welcomed did deviceId => rfl
    | mintFails detail => exact congrArg (· + 1) h.authFailures
    | socketFails => exact h.authFailures
  · rw [failedSince_snoc]
    cases o with
    | welcomed did deviceId => rfl
    | socketFails => exact h.authErrorNotified
    | mintFails detail =>
      show (w.authErrorNotified || decide (2 ≤ w.authFailures + 1)) =
        decide (2 ≤ failedSince os + 1)
      rw [h.authErrorNotified, h.authFailures, ← Bool.decide_or]
      congr 1
      exact propext (by omega)

theorem browserAt (os : List Outcome) : BrowserAt (browser device token state os) os := by
  induction os using List.reverseRecOn with
  | nil => exact ⟨⟨fun _ => rfl, rfl, rfl, rfl, rfl⟩, rfl, rfl, rfl⟩
  | append_singleton os o ih =>
    rw [browser, run_append]
    exact browserAt_snoc device token state ih o

theorem mintFailed_cases (l : RunLoop) (detail : String) :
    l.mintFailed detail =
        { l with mintFailures := l.mintFailures + 1, authNotified := true
                 events := .authExpired detail :: l.events } ∧
        2 ≤ l.mintFailures + 1 ∧ l.authNotified = false ∨
      l.mintFailed detail = { l with mintFailures := l.mintFailures + 1 } ∧
        ¬ (2 ≤ l.mintFailures + 1 ∧ l.authNotified = false) := by
  unfold RunLoop.mintFailed
  dsimp only
  split
  · rename_i h
    exact .inl ⟨rfl, h⟩
  · rename_i h
    exact .inr ⟨rfl, h⟩

theorem terminalAt_snoc {l : RunLoop} {os : List Outcome} (h : TerminalAt l os) (o : Outcome) :
    TerminalAt (l.turn o) (os ++ [o]) ∧ (l.turn o).waits = doubled os.length :: l.waits ∧
      (l.turn o).notices = l.notices + if o.isMintFails ∧ failedInARow os = 1 then 1 else 0 := by
  have hbackoff : min (l.backoff * 2) 15000 = doubled (os ++ [o]).length := by
    rw [List.length_append, List.length_singleton, doubled_succ, h.backoff]
  have hwaits : l.backoff :: l.waits = doubled os.length :: l.waits := by rw [h.backoff]
  cases o with
  | socketFails =>
    have hnone : failedInARow (os ++ [.socketFails]) = 0 := failedInARow_snoc os _
    exact ⟨⟨hbackoff, hnone.symm, by rw [hnone]; rfl⟩, hwaits, rfl⟩
  | welcomed did deviceId =>
    have hnone : failedInARow (os ++ [.welcomed did deviceId]) = 0 := failedInARow_snoc os _
    exact ⟨⟨hbackoff, hnone.symm, by rw [hnone]; rfl⟩, hwaits, rfl⟩
  | mintFails detail =>
    have hcount : failedInARow (os ++ [.mintFails detail]) = failedInARow os + 1 :=
      failedInARow_snoc os _
    have hnotified := h.authNotified
    rcases mintFailed_cases l detail with ⟨hl, htwo, hnot⟩ | ⟨hl, hnot⟩
    · rw [hnot, eq_comm, decide_eq_false_iff_not] at hnotified
      rw [h.mintFailures] at htwo
      simp only [RunLoop.turn, hl]
      refine ⟨⟨hbackoff, ?_, ?_⟩, hwaits, ?_⟩
      · rw [hcount]
        exact congrArg (· + 1) h.mintFailures
      · rw [hcount]
        exact (decide_eq_true htwo).symm
      · rw [if_pos ⟨rfl, by omega⟩]
        simp [RunLoop.notices, RunLoop.emit, RunLoop.sleep]
    · rw [h.mintFailures, hnotified, decide_eq_false_iff_not] at hnot
      simp only [RunLoop.turn, hl]
      refine ⟨⟨hbackoff, ?_, ?_⟩, hwaits, ?_⟩
      · rw [hcount]
        exact congrArg (· + 1) h.mintFailures
      · rw [hcount]
        refine hnotified.trans ?_
        congr 1
        exact propext (by omega)
      · rw [if_neg (by omega)]
        rfl

theorem terminalAt (os : List Outcome) : TerminalAt (terminal os) os := by
  induction os using List.reverseRecOn with
  | nil => exact ⟨rfl, rfl, rfl⟩
  | append_singleton os o ih =>
    rw [terminal, run_append]
    exact (terminalAt_snoc ih o).1

theorem terminal_turn (os : List Outcome) (o : Outcome) :
    (terminal (os ++ [o])).waits = doubled os.length :: (terminal os).waits ∧
      (terminal (os ++ [o])).notices =
        (terminal os).notices + if o.isMintFails ∧ failedInARow os = 1 then 1 else 0 := by
  rw [terminal, run_append]
  exact (terminalAt_snoc (terminalAt os) o).2

theorem browser_attempt (os : List Outcome) (o : Outcome) :
    (browser device token state (os ++ [o])).timers.map Prod.snd =
        [if o.isWelcomed then doubled 0 else doubled (doublings os)] ∧
      alarms (browser device token state (os ++ [o])) =
        alarms (browser device token state os) +
          if o.isMintFails ∧ failedSince os = 1 then 1 else 0 := by
  have h := browserAt device token state os
  obtain ⟨-, hdelay, hcounts⟩ := attempt_between device token state h.between o
  have halarms := congrArg Counts.alarms hcounts
  rw [browser, run_append]
  refine ⟨hdelay.trans ?_, halarms.trans ?_⟩
  · cases o with
    | welcomed did deviceId => rfl
    | mintFails detail => exact congrArg (fun d => [d]) h.backoff
    | socketFails => exact congrArg (fun d => [d]) h.backoff
  · cases o with
    | welcomed did deviceId => rfl
    | socketFails => rfl
    | mintFails detail =>
      refine congrArg (alarms (browser device token state os) + ·) ?_
      show (if 2 ≤ (browser device token state os).authFailures + 1 ∧
        (browser device token state os).authErrorNotified = false then 1 else 0) = _
      simp only [h.authFailures, h.authErrorNotified, decide_eq_false_iff_not]
      refine if_congr ⟨fun hc => ⟨rfl, ?_⟩, fun hc => ?_⟩ rfl rfl
      · omega
      · have hone := hc.2
        omega

/-- The delays and the notices of both clients. -/
theorem reconnect_alike (os : List Outcome) (o : Outcome) :
    ((∀ x ∈ os ++ [o], x.isWelcomed = false) →
      (terminal (os ++ [o])).waits = doubled os.length :: (terminal os).waits ∧
      (browser device token state (os ++ [o])).timers.map Prod.snd = [doubled os.length]) ∧
    (browser device token state (os ++ [o])).timers.map Prod.snd =
      [if o.isWelcomed then doubled 0 else doubled (doublings os)] ∧
    (terminal (os ++ [o])).notices =
      (terminal os).notices + (if o.isMintFails ∧ failedInARow os = 1 then 1 else 0) ∧
    alarms (browser device token state (os ++ [o])) =
      alarms (browser device token state os) +
        (if o.isMintFails ∧ failedSince os = 1 then 1 else 0) ∧
    ((∀ x ∈ sinceWelcome os, x.isMintFails = true) → failedInARow os = failedSince os) := by
  obtain ⟨hwaits, hnotices⟩ := terminal_turn os o
  obtain ⟨hdelay, halarms⟩ := browser_attempt device token state os o
  refine ⟨fun hall => ⟨hwaits, hdelay.trans ?_⟩, hdelay, hnotices, halarms, failedInARow_eq⟩
  rw [hall o (by simp), doublings_of_none fun x hx => hall x (List.mem_append_left _ hx)]
  rfl

/-- A mint fails and the next attempt is welcomed: the terminal client goes on doubling, the browser
starts again. Two mints fail, a socket does, and two more: only the terminal client speaks twice. -/
theorem reconnect_differs :
    (terminal [.mintFails "", .welcomed "did" "d"]).waits = [2000, 1000] ∧
      (browser ⟨"d", "D", .web⟩ "" ⟨false, none, none, 0, false⟩
        [.mintFails "", .welcomed "did" "d"]).timers.map Prod.snd = [1000] ∧
      (terminal [.mintFails "", .mintFails "", .socketFails, .mintFails "", .mintFails ""]).notices =
        2 ∧
      alarms (browser ⟨"d", "D", .web⟩ "" ⟨false, none, none, 0, false⟩
        [.mintFails "", .mintFails "", .socketFails, .mintFails "", .mintFails ""]) = 1 := by
  decide +kernel

end Atradio.Cli
