import Atradio.Lib.Run
import Atradio.Proxy.PassThrough

/-! # How `open` settles (`upstream.ts`)

A redirect makes `open` call itself. Each call has a socket and variables of its own, and what the
last call does with its promise becomes of the first one's. -/

namespace Atradio.Proxy
open Atradio.Lib

def REDIRECT_LIMIT : ℕ := 5

/-- A call of `open` that has got a socket. -/
structure Call where
  id : ℕ
  url : String
  hops : ℕ
  target : Target
  buf : List UInt8
  settled : Bool
  /-- The listeners for data, errors and the close are attached, and the timer runs. -/
  listening : Bool
  timer : Bool
  /-- The request was written to the socket. -/
  requested : Bool
  destroyed : Bool

/-- What a promise was told: an error with its message, or a response on the socket of a call. -/
inductive Outcome where
  | rejected (message : String)
  | resolved (call status : ℕ) (headers : Headers) (leftover : List UInt8) (fin chunked : Bool)

structure Fetch where
  calls : Table Call.id
  started : ℕ
  /-- Everything the promise was told; only the first counts. -/
  outcomes : List Outcome

/-- Events at the sockets and the timers of the calls. -/
inductive SocketEvent where
  | connect (id : ℕ)
  | data (id : ℕ) (chunk : List UInt8)
  | error (id : ℕ) (message : String)
  | close (id : ℕ)
  | timeout (id : ℕ)

def Fetch.tell (w : Fetch) (outcome : Outcome) : Fetch :=
  { w with outcomes := outcome :: w.outcomes }

def Fetch.set (w : Fetch) (c : Call) : Fetch := { w with calls := w.calls.put c }

def Call.new (id : ℕ) (url : String) (hops : ℕ) (target : Target) : Call where
  id := id
  url := url
  hops := hops
  target := target
  buf := []
  settled := false
  listening := true
  timer := true
  requested := false
  destroyed := false

section Open

variable (urls : Urls)

/-- `open` -/
def openUpstream (w : Fetch) (url : String) (hops : ℕ) : Fetch :=
  if hops = 0 then w.tell (.rejected "too many redirects")
  else match parseUrl urls url with
    | none => w.tell (.rejected ("bad url: " ++ url))
    | some target =>
      { w.set (.new w.started url hops target) with started := w.started + 1 }

def Call.cleanup (c : Call) : Call := { c with listening := false, timer := false }

def Call.settle (c : Call) : Call := { c.cleanup with settled := true }

def Call.destroy (c : Call) : Call := { c with destroyed := true }

def fail (w : Fetch) (c : Call) (message : String) : Fetch :=
  if c.settled then w else (w.set c.settle.destroy).tell (.rejected message)

/-- The head of the response is there. -/
def onHead (w : Fetch) (c : Call) (text leftover : List UInt8) : Fetch :=
  if c.settled then w
  else
    let c := c.settle
    match answer urls c.url text with
    | .badStatusLine => fail (w.set c) c "bad status line"
    | .redirect next => openUpstream urls (w.set c.destroy) next (c.hops - 1)
    | .response status headers fin chunked =>
      (w.set (if fin then c.destroy else c)).tell
        (.resolved c.id status headers leftover fin chunked)

def onData (w : Fetch) (c : Call) (chunk : List UInt8) : Fetch :=
  match receive c.buf chunk with
  | .more buf => w.set { c with buf }
  | .tooLarge => fail w { c with buf := c.buf ++ chunk } "headers too large"
  | .head text leftover => onHead urls w { c with buf := c.buf ++ chunk } text leftover

def Fetch.at (w : Fetch) (id : ℕ) (k : Call → Fetch) : Fetch :=
  match w.calls.get id with
  | none => w
  | some c => k c

def Fetch.step (w : Fetch) : SocketEvent → Fetch
  | .connect id => w.at id fun c =>
    if c.requested || c.destroyed then w else w.set { c with requested := true }
  | .data id chunk => w.at id fun c => if c.listening then onData urls w c chunk else w
  | .error id message => w.at id fun c => if c.listening then fail w c message else w
  | .close id => w.at id fun c =>
    if c.listening then fail w c "closed before headers" else w
  | .timeout id => w.at id fun c => if c.timer then fail w c "header timeout" else w

def Fetch.init (url : String) (hops : ℕ) : Fetch :=
  openUpstream urls ⟨Table.empty, 0, []⟩ url hops

/-- The promise settles once, at the latest when the timer fires. A rejection leaves no socket, a
response leaves its own, or none without a body; there are at most `hops` requests. -/
structure Fetch.Clean (hops : ℕ) (w : Fetch) : Prop where
  once : w.outcomes.length ≤ 1
  pending : w.outcomes = [] → ∃ c ∈ w.calls.rows, c.timer = true ∧
    (w.step urls (.timeout c.id)).outcomes.length = 1
  rejected : ∀ message, .rejected message ∈ w.outcomes → ∀ c ∈ w.calls.rows, c.destroyed = true
  resolved : ∀ id status headers leftover fin chunked,
    .resolved id status headers leftover fin chunked ∈ w.outcomes →
      (fin = true → ∀ c ∈ w.calls.rows, c.destroyed = true) ∧
      (fin = false → ∃ c ∈ w.calls.rows, c.id = id ∧ c.destroyed = false ∧
        ∀ c' ∈ w.calls.rows, c'.destroyed = false → c' = c)
  requests : (w.calls.rows.filter Call.requested).length ≤ hops

def Received.Proper : Received → Prop
  | .head text _ => (parseHead (latin1 text)).isSome = true
  | _ => True

/-- A head that arrives has a status line. -/
def Fetch.Guarded (w : Fetch) : SocketEvent → Prop
  | .data id chunk => ∀ c ∈ w.calls.get id, c.listening = true → (receive c.buf chunk).Proper
  | _ => True

instance : (r : Received) → Decidable r.Proper
  | .head text _ => inferInstanceAs (Decidable ((parseHead (latin1 text)).isSome = true))
  | .more _ => isTrue trivial
  | .tooLarge => isTrue trivial

instance (w : Fetch) : (e : SocketEvent) → Decidable (w.Guarded e)
  | .data id chunk => inferInstanceAs (Decidable (∀ c ∈ w.calls.get id, c.listening = true →
      (receive c.buf chunk).Proper))
  | .connect _ => isTrue trivial
  | .error _ _ => isTrue trivial
  | .close _ => isTrue trivial
  | .timeout _ => isTrue trivial

end Open

/-! ### Every call but the last is over -/

structure Call.Over (c : Call) : Prop where
  settled : c.settled = true
  listening : c.listening = false
  timer : c.timer = false
  destroyed : c.destroyed = true

structure Call.Live (c : Call) : Prop where
  settled : c.settled = false
  listening : c.listening = true
  timer : c.timer = true
  destroyed : c.destroyed = false
  hops : 0 < c.hops

/-- The socket went with the response. -/
structure Call.Handed (c : Call) : Prop where
  listening : c.listening = false
  timer : c.timer = false
  destroyed : c.destroyed = false

def Outcome.Closed : Outcome → Prop
  | .rejected _ => True
  | .resolved _ _ _ _ fin _ => fin = true

/-- `c` is the last call, and those before it are over. -/
def Fetch.Last (w : Fetch) (c : Call) : Prop :=
  ∃ past, w.calls.rows = past ++ [c] ∧ ∀ p ∈ past, p.Over

/-- Nothing was told; the hops left and the calls started make up the limit. -/
structure Fetch.Waiting (hops : ℕ) (w : Fetch) (c : Call) : Prop where
  last : w.Last c
  live : c.Live
  budget : w.started + c.hops = hops + 1
  quiet : w.outcomes = []

inductive Fetch.Phase (hops : ℕ) (w : Fetch) : Prop
  | waiting (c : Call) : w.Waiting hops c → Phase hops w
  | ended (o : Outcome) : (∀ c ∈ w.calls.rows, c.Over) → w.outcomes = [o] → o.Closed →
      Phase hops w
  | handed (c : Call) (status : ℕ) (headers : Headers) (leftover : List UInt8) (chunked : Bool) :
      w.Last c → c.Handed → w.outcomes = [.resolved c.id status headers leftover false chunked] →
      Phase hops w

structure Fetch.Counted (hops : ℕ) (w : Fetch) : Prop where
  length : w.calls.rows.length = w.started
  ids : ∀ c ∈ w.calls.rows, c.id < w.started
  bound : w.started ≤ hops

section Steps

variable {urls : Urls} {hops : ℕ} {w : Fetch} {c : Call}

theorem Fetch.tell_outcomes (h : w.outcomes = []) (o : Outcome) : (w.tell o).outcomes = [o] := by
  rw [Fetch.tell, h]

theorem Fetch.Last.mem (h : w.Last c) : c ∈ w.calls.rows := by
  obtain ⟨past, hrows, _⟩ := h
  rw [hrows]
  exact List.mem_append_right past (List.mem_singleton_self c)

theorem Fetch.Last.over_or_eq (h : w.Last c) {p : Call} (hp : p ∈ w.calls.rows) :
    p.Over ∨ p = c := by
  obtain ⟨past, hrows, hpast⟩ := h
  rw [hrows, List.mem_append, List.mem_singleton] at hp
  exact hp.imp_left (hpast p)

theorem Fetch.Last.all_over (h : w.Last c) (hc : c.Over) : ∀ p ∈ w.calls.rows, p.Over := by
  intro p hp
  rcases h.over_or_eq hp with hp | rfl
  · exact hp
  · exact hc

theorem Fetch.Last.set (h : w.Last c) (c' : Call) (hid : c.id = c'.id) : (w.set c').Last c' := by
  obtain ⟨past, hrows, hpast⟩ := h
  exact ⟨past, Table.rows_put_split hrows hid, hpast⟩

theorem Fetch.Counted.set (h : w.Counted hops) (hlast : w.Last c) (c' : Call)
    (hid : c.id = c'.id) : (w.set c').Counted hops := by
  obtain ⟨past, hrows, _⟩ := hlast
  have hrows' : (w.set c').calls.rows = past ++ [c'] := Table.rows_put_split hrows hid
  have hc : c.id < w.started := h.ids c (hrows ▸ List.mem_append_right past (by simp))
  constructor
  · rw [hrows', List.length_append, List.length_singleton]
    rw [← List.length_singleton (a := c), ← List.length_append, ← hrows]
    exact h.length
  · intro p hp
    rw [hrows', List.mem_append, List.mem_singleton] at hp
    rcases hp with hp | rfl
    · exact h.ids p (hrows ▸ List.mem_append_left [c] hp)
    · exact hid ▸ hc
  · exact h.bound

theorem Fetch.Counted.tell (h : w.Counted hops) (o : Outcome) : (w.tell o).Counted hops :=
  ⟨h.length, h.ids, h.bound⟩

theorem openUpstream_counted (url : String) {n : ℕ} (h : w.Counted hops)
    (hn : w.started + n ≤ hops) : (openUpstream urls w url n).Counted hops := by
  unfold openUpstream
  split
  · exact h.tell _
  rename_i hpos
  split
  · exact h.tell _
  · rename_i target _
    have hnew : ∀ u ∈ w.calls.rows, u.id ≠ (Call.new w.started url n target).id :=
      fun u hu => (h.ids u hu).ne
    constructor
    · show (w.calls.put _).rows.length = _
      rw [w.calls.rows_put_new _ hnew, List.length_append, h.length]
      rfl
    · intro p hp
      rcases (w.calls.mem_put_new hnew).1 hp with rfl | hp
      · exact Nat.lt_succ_self _
      · exact (h.ids p hp).trans (Nat.lt_succ_self _)
    · show w.started + 1 ≤ hops
      omega

theorem openUpstream_phase (url : String) {n : ℕ} (h : w.Counted hops)
    (hover : ∀ c ∈ w.calls.rows, c.Over) (hout : w.outcomes = []) (hn : w.started + n = hops) :
    (openUpstream urls w url n).Phase hops := by
  have hreject : ∀ message, (w.tell (.rejected message)).Phase hops := by
    intro message
    exact .ended _ hover (Fetch.tell_outcomes hout _) trivial
  unfold openUpstream
  split
  · exact hreject _
  rename_i hpos
  split
  · exact hreject _
  · rename_i target _
    have hrows := Table.rows_put_new w.calls (Call.new w.started url n target)
      fun u hu => (h.ids u hu).ne
    refine .waiting (.new w.started url n target) ⟨⟨w.calls.rows, hrows, hover⟩,
      ⟨rfl, rfl, rfl, rfl, Nat.pos_of_ne_zero hpos⟩, ?_, hout⟩
    show w.started + 1 + n = hops + 1
    omega

theorem fail_phase (message : String) {c₀ : Call} (hlast : w.Last c₀) (hid : c₀.id = c.id)
    (hc : c.settled = false) (hout : w.outcomes = []) : (fail w c message).Phase hops := by
  rw [fail, if_neg (by simp [hc])]
  have hover : c.settle.destroy.Over := ⟨rfl, rfl, rfl, rfl⟩
  exact .ended (.rejected message) ((hlast.set c.settle.destroy hid).all_over hover)
    (Fetch.tell_outcomes hout _) trivial

theorem fail_counted (message : String) {c₀ : Call} (h : w.Counted hops) (hlast : w.Last c₀)
    (hid : c₀.id = c.id) : (fail w c message).Counted hops := by
  unfold fail
  split
  · exact h
  · exact (h.set hlast c.settle.destroy hid).tell _

theorem Fetch.Waiting.set (h : w.Waiting hops c) (c' : Call) (hid : c.id = c'.id)
    (hhops : c.hops = c'.hops) (hlive : c'.Live) : (w.set c').Waiting hops c' :=
  ⟨h.last.set c' hid, hlive, hhops ▸ h.budget, h.quiet⟩

theorem Fetch.Phase.of_listening (h : w.Phase hops) (hc : c ∈ w.calls.rows)
    (hon : c.listening = true ∨ c.timer = true) : w.Waiting hops c := by
  have hover : ¬ c.Over := by
    rintro ⟨_, hlistening, htimer, _⟩
    simp [hlistening, htimer] at hon
  cases h with
  | waiting c' h =>
    rcases h.last.over_or_eq hc with hc | rfl
    · exact (hover hc).elim
    · exact h
  | ended o hall => exact (hover (hall c hc)).elim
  | handed c' status headers leftover chunked hlast hhanded =>
    rcases hlast.over_or_eq hc with hc | rfl
    · exact (hover hc).elim
    · simp [hhanded.listening, hhanded.timer] at hon

theorem onHead_phase {text leftover : List UInt8} (hw : w.Counted hops) {c₀ : Call}
    (h : w.Waiting hops c₀) (hid : c₀.id = c.id) (hhops : c₀.hops = c.hops)
    (hc : c.settled = false) (hdestroyed : c.destroyed = false)
    (hhead : (parseHead (latin1 text)).isSome = true) :
    (onHead urls w c text leftover).Phase hops := by
  rw [onHead, if_neg (by simp [hc])]
  dsimp only
  have hover : c.settle.destroy.Over := ⟨rfl, rfl, rfl, rfl⟩
  have hlast := h.last.set c.settle.destroy hid
  cases hanswer : answer urls c.settle.url text with
  | badStatusLine =>
    obtain ⟨⟨status, headers⟩, hsome⟩ := Option.isSome_iff_exists.1 hhead
    rw [answer, hsome] at hanswer
    dsimp only at hanswer
    split at hanswer <;> cases hanswer
  | redirect next =>
    have hcounted := hw.set h.last c.settle.destroy hid
    refine openUpstream_phase next hcounted (hlast.all_over hover) h.quiet ?_
    have hbudget := h.budget
    have hpos := h.live.hops
    show w.started + (c.hops - 1) = hops
    omega
  | response status headers fin chunked =>
    cases fin with
    | true =>
      exact .ended (.resolved c.id status headers leftover true chunked) (hlast.all_over hover)
        (Fetch.tell_outcomes h.quiet _) rfl
    | false =>
      exact .handed c.settle status headers leftover chunked (h.last.set c.settle hid)
        ⟨rfl, rfl, hdestroyed⟩ (Fetch.tell_outcomes h.quiet _)

theorem onHead_counted (text leftover : List UInt8) (hw : w.Counted hops) {c₀ : Call}
    (h : w.Waiting hops c₀) (hid : c₀.id = c.id) (hhops : c₀.hops = c.hops) :
    (onHead urls w c text leftover).Counted hops := by
  unfold onHead
  split
  · exact hw
  dsimp only
  split
  · have hset := hw.set h.last c.settle hid
    exact fail_counted _ hset (h.last.set c.settle hid) rfl
  · refine openUpstream_counted _ (hw.set h.last c.settle.destroy hid) ?_
    have hbudget := h.budget
    have hpos := h.live.hops
    show w.started + (c.hops - 1) ≤ hops
    omega
  · rename_i status headers fin chunked _
    cases fin with
    | true => exact (hw.set h.last c.settle.destroy hid).tell _
    | false => exact (hw.set h.last c.settle hid).tell _

theorem onData_phase (chunk : List UInt8) (hw : w.Counted hops) (h : w.Waiting hops c)
    (hproper : (receive c.buf chunk).Proper) : (onData urls w c chunk).Phase hops := by
  unfold onData
  have hlive := h.live
  cases hreceive : receive c.buf chunk with
  | more buf =>
    have hlive' : Call.Live { c with buf } :=
      ⟨hlive.settled, hlive.listening, hlive.timer, hlive.destroyed, hlive.hops⟩
    exact .waiting { c with buf } (h.set { c with buf } rfl rfl hlive')
  | tooLarge => exact fail_phase _ h.last rfl hlive.settled h.quiet
  | head text leftover =>
    rw [hreceive] at hproper
    exact onHead_phase hw h rfl rfl hlive.settled hlive.destroyed hproper

theorem onData_counted (chunk : List UInt8) (hw : w.Counted hops) (h : w.Waiting hops c) :
    (onData urls w c chunk).Counted hops := by
  unfold onData
  cases receive c.buf chunk with
  | more buf => exact hw.set h.last { c with buf } rfl
  | tooLarge => exact fail_counted _ hw h.last rfl
  | head text leftover => exact onHead_counted text leftover hw h rfl rfl

theorem at_cases (w : Fetch) (id : ℕ) (k : Call → Fetch) :
    w.at id k = w ∨ ∃ c ∈ w.calls.rows, c.id = id ∧ w.at id k = k c := by
  unfold Fetch.at
  cases hc : w.calls.get id with
  | none => exact Or.inl rfl
  | some c =>
    obtain ⟨hmem, hid⟩ := (w.calls.get_eq_some id c).1 hc
    exact Or.inr ⟨c, hmem, hid, rfl⟩

theorem at_fails (h : w.Phase hops) (id : ℕ) (p : Call → Bool) (message : String)
    (hp : ∀ c, p c = true → c.listening = true ∨ c.timer = true) :
    (w.at id fun c => if p c then fail w c message else w) = w ∨
    ∃ c, w.Waiting hops c ∧
      (w.at id fun c => if p c then fail w c message else w) = fail w c message := by
  rcases at_cases w id fun c => if p c then fail w c message else w with hat | ⟨c, hc, _, hat⟩
  · exact Or.inl hat
  rw [hat]
  split
  · rename_i hpc
    exact Or.inr ⟨c, h.of_listening hc (hp c hpc), rfl⟩
  · exact Or.inl rfl

/-- Besides the request that is sent, only the events of the waiting call do something. -/
theorem step_cases (urls : Urls) (h : w.Phase hops) (e : SocketEvent) :
    (w.step urls e = w ∨ ∃ c message, w.Waiting hops c ∧ w.step urls e = fail w c message) ∨
    (∃ c ∈ w.calls.rows, c.destroyed = false ∧ w.step urls e = w.set { c with requested := true }) ∨
    ∃ c chunk, w.Waiting hops c ∧ e = .data c.id chunk ∧ w.step urls e = onData urls w c chunk := by
  have hfails : ∀ (id : ℕ) (p : Call → Bool) (message : String),
      (∀ c, p c = true → c.listening = true ∨ c.timer = true) →
      w.step urls e = (w.at id fun c => if p c then fail w c message else w) →
      w.step urls e = w ∨ ∃ c message, w.Waiting hops c ∧ w.step urls e = fail w c message := by
    intro id p message hp hstep
    rw [hstep]
    exact (at_fails h id p message hp).imp_right fun ⟨c, hc⟩ => ⟨c, message, hc⟩
  cases e with
  | connect id =>
    rcases at_cases w id _ with hat | ⟨c, hc, _, hat⟩
    · exact Or.inl (Or.inl hat)
    rw [Fetch.step, hat]
    split
    · exact Or.inl (Or.inl rfl)
    · rename_i hlive
      rw [Bool.or_eq_true, not_or] at hlive
      exact Or.inr (Or.inl ⟨c, hc, eq_false_of_ne_true hlive.2, rfl⟩)
  | data id chunk =>
    rcases at_cases w id _ with hat | ⟨c, hc, hid, hat⟩
    · exact Or.inl (Or.inl hat)
    rw [Fetch.step, hat]
    split
    · rename_i hon
      exact Or.inr (Or.inr ⟨c, chunk, h.of_listening hc (Or.inl hon), hid ▸ rfl, rfl⟩)
    · exact Or.inl (Or.inl rfl)
  | error id message => exact Or.inl (hfails id _ message (fun _ hon => Or.inl hon) rfl)
  | close id => exact Or.inl (hfails id _ _ (fun _ hon => Or.inl hon) rfl)
  | timeout id => exact Or.inl (hfails id _ _ (fun _ hon => Or.inr hon) rfl)

theorem requested_phase (h : w.Phase hops) (hc : c ∈ w.calls.rows) (hlive : c.destroyed = false) :
    w.Last c ∧ (w.set { c with requested := true }).Phase hops := by
  have hover : ¬ c.Over := fun hover => by simp [hover.destroyed] at hlive
  cases h with
  | waiting c' h =>
    rcases h.last.over_or_eq hc with hc | rfl
    · exact (hover hc).elim
    have hl := h.live
    exact ⟨h.last, .waiting { c with requested := true } (h.set { c with requested := true } rfl rfl
      ⟨hl.settled, hl.listening, hl.timer, hl.destroyed, hl.hops⟩)⟩
  | ended o hall => exact (hover (hall c hc)).elim
  | handed c' status headers leftover chunked hlast hhanded hout =>
    rcases hlast.over_or_eq hc with hc | rfl
    · exact (hover hc).elim
    exact ⟨hlast, .handed { c with requested := true } status headers leftover chunked
      (hlast.set { c with requested := true } rfl)
      ⟨hhanded.listening, hhanded.timer, hhanded.destroyed⟩ hout⟩

theorem step_phase (e : SocketEvent) (h : w.Counted hops ∧ w.Phase hops)
    (hguard : w.Guarded e) : (w.step urls e).Counted hops ∧ (w.step urls e).Phase hops := by
  obtain ⟨hcounted, hphase⟩ := h
  rcases step_cases urls hphase e with
    (hstep | ⟨c, message, hc, hstep⟩) | ⟨c, hc, hlive, hstep⟩ | ⟨c, chunk, hc, rfl, hstep⟩
  · rw [hstep]
    exact ⟨hcounted, hphase⟩
  · rw [hstep]
    exact ⟨fail_counted message hcounted hc.last rfl,
      fail_phase message hc.last rfl hc.live.settled hc.quiet⟩
  · rw [hstep]
    obtain ⟨hlast, hset⟩ := requested_phase hphase hc hlive
    exact ⟨hcounted.set hlast { c with requested := true } rfl, hset⟩
  · rw [hstep]
    have hget : w.calls.get c.id = some c := (w.calls.mem_rows c).1 hc.last.mem
    exact ⟨onData_counted chunk hcounted hc,
      onData_phase chunk hcounted hc (hguard c hget hc.live.listening)⟩

theorem clean_of_phase (hcounted : w.Counted hops) (h : w.Phase hops) : w.Clean urls hops := by
  have hrequests : (w.calls.rows.filter Call.requested).length ≤ hops :=
    (List.length_filter_le _ _).trans (hcounted.length ▸ hcounted.bound)
  cases h with
  | waiting c h =>
    have hnone : ∀ o, o ∉ w.outcomes := by simp [h.quiet]
    refine ⟨by simp [h.quiet], fun _ => ⟨c, h.last.mem, h.live.timer, ?_⟩,
      fun _ ho => (hnone _ ho).elim, fun _ _ _ _ _ _ ho => (hnone _ ho).elim, hrequests⟩
    have hget : w.calls.get c.id = some c := (w.calls.mem_rows c).1 h.last.mem
    simp [Fetch.step, Fetch.at, hget, h.live.timer, fail, h.live.settled, Fetch.tell, Fetch.set,
      h.quiet]
  | ended o hall hout hclosed =>
    refine ⟨by simp [hout], by simp [hout], fun _ _ c hc => (hall c hc).destroyed, ?_, hrequests⟩
    intro id status headers leftover fin chunked ho
    rw [hout, List.mem_singleton] at ho
    subst ho
    refine ⟨fun _ c hc => (hall c hc).destroyed, fun hfin => ?_⟩
    have htrue : fin = true := hclosed
    simp [htrue] at hfin
  | handed c status headers leftover chunked hlast hhanded hout =>
    refine ⟨by simp [hout], by simp [hout], by simp [hout], ?_, hrequests⟩
    intro id status' headers' leftover' fin chunked' ho
    rw [hout, List.mem_singleton] at ho
    injection ho with hid _ _ _ hfin
    refine ⟨by simp [hfin], fun _ => ⟨c, hlast.mem, hid.symm, hhanded.destroyed, ?_⟩⟩
    intro c' hc' hlive
    rcases hlast.over_or_eq hc' with hover | rfl
    · simp [hover.destroyed] at hlive
    · rfl

theorem init_phase (urls : Urls) (url : String) (hops : ℕ) :
    (Fetch.init urls url hops).Counted hops ∧ (Fetch.init urls url hops).Phase hops := by
  have hcounted : Fetch.Counted hops ⟨Table.empty, 0, []⟩ := ⟨rfl, by simp, Nat.zero_le _⟩
  exact ⟨openUpstream_counted url hcounted (by simp),
    openUpstream_phase url hcounted (by simp) rfl (by simp)⟩

/-- Where no head arrives without a status line, every run of `open` is clean. -/
theorem clean_of_guarded (url : String) (hops : ℕ) (es : List SocketEvent)
    (h : AllSteps (Fetch.step urls) Fetch.Guarded (Fetch.init urls url hops) es) :
    (run (Fetch.step urls) (Fetch.init urls url hops) es).Clean urls hops := by
  obtain ⟨hcounted, hphase⟩ := run_invariant (I := fun w => w.Counted hops ∧ w.Phase hops)
    (fun w e hw hguard => step_phase e hw hguard) (init_phase urls url hops) h
  exact clean_of_phase hcounted hphase

end Steps

def radioUrl (pathname : String) : Url := ⟨"http:", "radio.test", none, pathname, ""⟩

def radioUrls : Urls where
  parse url := if url = "http://radio.test/new" then some (radioUrl "/new")
    else if url = "http://radio.test/" then some (radioUrl "/") else none
  resolve loc _ := if loc = "/new" then some "http://radio.test/new" else none

/-- A redirect, and a station that speaks ICY. -/
def moved : List SocketEvent :=
  [.connect 0, .data 0 (bytes "HTTP/1.1 302 Found\r\nLocation: /new\r"), .data 0 (bytes "\n\r\n"),
    .connect 1, .data 1 (bytes "ICY 200 OK\r\n\r\n"), .close 0]

theorem moved_clean :
    (run (Fetch.step radioUrls) (Fetch.init radioUrls "http://radio.test/" REDIRECT_LIMIT)
      moved).Clean radioUrls REDIRECT_LIMIT :=
  clean_of_guarded "http://radio.test/" REDIRECT_LIMIT moved (by decide)

/-- A server that is not an HTTP one. -/
def greeted : List SocketEvent :=
  [.connect 0, .data 0 (bytes "220 smtp.test\r\n\r\n"), .close 0, .timeout 0]

theorem greeted_pends :
    ¬ (run (Fetch.step radioUrls) (Fetch.init radioUrls "http://radio.test/" REDIRECT_LIMIT)
      greeted).Clean radioUrls REDIRECT_LIMIT := by
  intro h
  have htimers : ∀ c ∈ (run (Fetch.step radioUrls)
      (Fetch.init radioUrls "http://radio.test/" REDIRECT_LIMIT) greeted).calls.rows,
      c.timer = false := by decide
  obtain ⟨c, hc, htimer, _⟩ := h.pending (by decide)
  exact Bool.false_ne_true ((htimers c hc).symm.trans htimer)

end Atradio.Proxy
