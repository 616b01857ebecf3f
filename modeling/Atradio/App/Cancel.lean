import Atradio.App.Sessions

/-! # Cancelling on mobile (`auth/runtime.ts`)

`authCancel` starts a generation without a task of its own. -/

namespace Atradio.App.Auth
open Atradio.Lib

/-- The states a loading screen is shown for. -/
def AuthState.loads (state : AuthState) : Bool :=
  match state.phase with
  | .starting | .restoring => true
  | _ => false

/-- The states in which nothing is under way. -/
def AuthState.lasts (state : AuthState) : Bool :=
  match state.phase with
  | .signedOut _ | .signedIn _ => true
  | _ => false

def Op.isTask (op : Op) : Bool :=
  match op.work with
  | .task _ _ => true
  | _ => false

/-- A loading state is one that a task of the current generation will replace. -/
def Runtime.Attended (s : Runtime) : Prop :=
  s.state.loads = true → ∃ op ∈ s.ops.rows, op.gen = s.generation ∧ op.isTask = true

/-- What `Attended` is for: when such a task settles, it puts another state there. -/
def Runtime.Replaced (s : Runtime) : Prop :=
  s.state.loads = true → ∃ op ∈ s.ops.rows, op.gen = s.generation ∧ op.isTask = true ∧
    ∀ attempt next, op.work = .task attempt (.returned next) → (settled s op).state.loads = false

/-- A task does not end with a loading state. -/
def Work.ends (work : Work) : Prop :=
  ∀ attempt state, work = .task attempt (.returned (.ok state)) → state.loads = false

structure Runtime.Sound (s : Runtime) : Prop where
  aged : s.Aged
  previous : s.previousState.lasts = true
  results : ∀ op ∈ s.ops.rows, op.work.ends

theorem loads_of_lasts {state : AuthState} (h : state.lasts = true) : state.loads = false := by
  obtain ⟨phase, offline⟩ := state
  cases phase with
  | signedOut | signedIn => rfl
  | _ => cases h

theorem pending_of_lasts {state : AuthState} (h : state.lasts = true) :
    state.isPending = false := by
  obtain ⟨phase, offline⟩ := state
  cases phase with
  | signedOut | signedIn => rfl
  | _ => cases h

section Attended

variable {s : Runtime} {op : Op}

theorem attended_rest (h : s.state.loads = false) : s.Attended := fun hloads => by
  cases h.symm.trans hloads

theorem attended_await {s : Runtime} (attempt : ℕ) (awaits : Awaits) :
    (s.await (.task attempt awaits)).Attended :=
  fun _ => ⟨⟨s.started, s.generation, .task attempt awaits⟩,
    (Table.mem_put _ _ _).2 (.inl rfl), rfl, rfl⟩

theorem attended_goOn (h : s.Attended) (hop : op ∈ s.ops.rows) {work : Work}
    (htask : op.isTask = true → Op.isTask { op with work } = true) (deleted : List String)
    (savedHandle : Option String) :
    Runtime.Attended ({ s with deleted, savedHandle }.goOn op work) := by
  intro hloads
  obtain ⟨u, hu, hgen, hu'⟩ := h hloads
  by_cases hticket : u.ticket = op.ticket
  · have heq := s.ops.eq_of_key hu hop hticket
    subst heq
    exact ⟨{ u with work }, mem_goOn.2 (.inl rfl), hgen, htask hu'⟩
  · exact ⟨u, mem_goOn.2 (.inr ⟨hu, hticket⟩), hgen, hu'⟩

theorem attended_done (h : s.Attended) (hop : op ∈ s.ops.rows)
    (hother : op.isTask = true → op.gen ≠ s.generation) {state : AuthState}
    (hstate : state.loads = s.state.loads) (deleted : List String) (savedHandle : Option String) :
    Runtime.Attended { s.done op with state, deleted, savedHandle } := by
  intro hloads
  obtain ⟨u, hu, hgen, hu'⟩ := h (hstate.symm.trans hloads)
  refine ⟨u, mem_done.2 ⟨hu, fun hticket => ?_⟩, hgen, hu'⟩
  have heq := s.ops.eq_of_key hu hop hticket
  subst heq
  exact hother hu' hgen

theorem attended_other (h : s.Attended) (hop : op ∈ s.ops.rows) (hother : op.isTask = false)
    {state : AuthState} (hstate : state.loads = s.state.loads) (deleted : List String)
    (savedHandle : Option String) :
    Runtime.Attended { s.done op with state, deleted, savedHandle } :=
  attended_done h hop (fun htask => (Bool.false_ne_true (hother.symm.trans htask)).elim) hstate
    deleted savedHandle

theorem attended_session (h : s.Attended) (hop : op ∈ s.ops.rows)
    (answer : Except Failure (Option String)) : (session s op answer).Attended := by
  obtain ⟨ticket, gen, work⟩ := op
  rcases work with ⟨attempt, _ | _ | did | did | next⟩ | did | did | ⟨did, rest⟩
  case task.session =>
    cases answer with
    | ok scope => exact attended_goOn h hop (fun _ => rfl) s.deleted s.savedHandle
    | error e => cases e <;> exact attended_goOn h hop (fun _ => rfl) _ s.savedHandle
  case task.staleSession => exact attended_goOn h hop (fun _ => rfl) s.deleted s.savedHandle
  case refresh =>
    simp only [session]
    split
    · split
      · exact attended_rest rfl
      · exact attended_rest rfl
      · exact attended_other h hop rfl rfl s.deleted s.savedHandle
    · exact attended_other h hop rfl rfl s.deleted s.savedHandle
  case stationAction =>
    simp only [session]
    split
    · exact attended_rest rfl
    · exact attended_other h hop rfl rfl s.deleted s.savedHandle
  case logout =>
    cases rest with
    | nil => exact attended_other h hop rfl rfl _ none
    | cons next rest => exact attended_goOn h hop (fun htask => by cases htask) _ s.savedHandle
  all_goals exact h

theorem attended_goes (h : s.Attended) (hs : s.Sound) (hop : op ∈ s.ops.rows) (e : Event) :
    (op.goes s e).Attended := by
  cases e with
  | authorizationUrl t answer =>
    simp only [Op.goes, authorizationUrl]
    split
    · exact attended_goOn h hop (fun _ => rfl) s.deleted s.savedHandle
    · exact h
  | finalized t answer =>
    simp only [Op.goes, finalized]
    split
    · split
      · exact attended_goOn h hop (fun _ => rfl) s.deleted s.savedHandle
      · split
        · exact attended_goOn h hop (fun _ => rfl) _ s.savedHandle
        · exact attended_goOn h hop (fun _ => rfl) s.deleted _
    · exact h
  | session t answer => exact attended_session h hop answer
  | settled t =>
    simp only [Op.goes, settled]
    split
    · rename_i attempt next hwork
      split
      · split
        · exact attended_rest (hs.results op hop attempt _ hwork)
        · exact attended_rest rfl
      · rename_i hgen
        exact attended_done h hop (fun _ => Ne.symm hgen) rfl s.deleted s.savedHandle
    · exact h
  | _ => exact h

theorem ends_goOn (h : ∀ u ∈ s.ops.rows, u.work.ends) {work : Work} (hwork : work.ends) :
    ∀ u ∈ (s.goOn op work).ops.rows, u.work.ends := by
  intro u hu
  rcases mem_goOn.1 hu with rfl | ⟨hu, -⟩
  · exact hwork
  · exact h u hu

theorem ends_done (h : ∀ u ∈ s.ops.rows, u.work.ends) :
    ∀ u ∈ (s.done op).ops.rows, u.work.ends := fun u hu => h u (mem_done.1 hu).1

theorem ends_put (h : ∀ u ∈ s.ops.rows, u.work.ends) {ticket gen : ℕ} {work : Work}
    (hwork : work.ends) : ∀ u ∈ (s.ops.put ⟨ticket, gen, work⟩).rows, u.work.ends := by
  intro u hu
  rcases (Table.mem_put _ _ _).1 hu with rfl | ⟨hu, -⟩
  · exact hwork
  · exact h u hu

theorem ends_returned {attempt : ℕ} {next : Except Failure AuthState}
    (h : ∀ state, next = .ok state → state.loads = false) :
    (Work.task attempt (.returned next)).ends := by
  rintro _ state ⟨⟩
  exact h state rfl

theorem ends_session (h : ∀ u ∈ s.ops.rows, u.work.ends)
    (answer : Except Failure (Option String)) :
    ∀ u ∈ (session s op answer).ops.rows, u.work.ends := by
  obtain ⟨ticket, gen, work⟩ := op
  rcases work with ⟨attempt, _ | _ | did | did | next⟩ | did | did | ⟨did, rest⟩
  case task.session =>
    cases answer with
    | ok scope => exact ends_goOn h (ends_returned fun _ heq => by cases heq; rfl)
    | error e =>
      cases e with
      | tokenRefresh message => exact ends_goOn h (ends_returned fun _ heq => by cases heq; rfl)
      | other message => exact ends_goOn h (by simp [Work.ends])
  case task.staleSession =>
    refine ends_goOn h (ends_returned fun _ heq => ?_)
    cases answer with
    | ok scope => cases heq; rfl
    | error e => cases heq
  case refresh =>
    simp only [session]
    split
    · split
      · exact ends_done h
      · exact ends_done h
      · exact ends_done h
    · exact ends_done h
  case stationAction =>
    simp only [session]
    split
    · exact ends_done h
    · exact ends_done h
  case logout =>
    cases rest with
    | nil => exact ends_done h
    | cons next rest => exact ends_goOn h (by simp [Work.ends])
  all_goals exact h

theorem ends_goes (h : ∀ u ∈ s.ops.rows, u.work.ends) (e : Event) :
    ∀ u ∈ (op.goes s e).ops.rows, u.work.ends := by
  cases e with
  | authorizationUrl t answer =>
    simp only [Op.goes, authorizationUrl]
    split
    · refine ends_goOn h (ends_returned fun _ heq => ?_)
      cases answer with
      | ok url => cases heq; rfl
      | error e => cases heq
    · exact h
  | finalized t answer =>
    simp only [Op.goes, finalized]
    split
    · split
      · exact ends_goOn h (ends_returned fun _ heq => by cases heq)
      · split
        · exact ends_goOn h (ends_returned fun _ heq => by cases heq; rfl)
        · exact ends_goOn h (ends_returned fun _ heq => by cases heq; rfl)
    · exact h
  | session t answer => exact ends_session h answer
  | settled t =>
    simp only [Op.goes, settled]
    split
    · split
      · split
        · exact ends_done h
        · exact ends_done h
      · exact ends_done h
    · exact h
  | _ => exact h

theorem start_previous (s : Runtime) (signup : Bool) (argument : String) :
    (authStart s signup argument).previousState.lasts = true := by
  simp only [authStart, Runtime.await]
  split
  · rename_i account hphase
    simp only [AuthState.lasts, hphase]
  · rfl

theorem sound_step (h : s.Sound) (e : Event) : (Auth.step s e).Sound := by
  have haged := (follows_step h.aged e).1
  have hanswer {ticket : ℕ} (hticket : e.ticket = some ticket) : (Auth.step s e).Sound := by
    cases hop : s.resumed e with
    | none => rwa [step_of_ticket hticket hop]
    | some op =>
      rw [step_of_resumed hop] at haged ⊢
      exact ⟨haged, (goes_went s op e).previousState ▸ h.previous, ends_goes h.results e⟩
  cases e with
  | authStart signup argument =>
    exact ⟨haged, start_previous s signup argument,
      ends_put h.results (by simp [Work.ends])⟩
  | authCallback url attempt =>
    revert haged
    simp only [Auth.step, authCallback]
    split
    · exact fun haged => ⟨haged, h.previous, ends_put h.results (by simp [Work.ends])⟩
    · exact fun _ => h
  | authCancel => exact ⟨haged, h.previous, h.results⟩
  | authRestore stored =>
    cases stored with
    | nil =>
      exact ⟨haged, h.previous,
        ends_put h.results (ends_returned fun _ heq => by cases heq; rfl)⟩
    | cons did rest =>
      exact ⟨haged, h.previous, ends_put h.results (by simp [Work.ends])⟩
  | authRefresh =>
    revert haged
    simp only [Auth.step, authRefresh]
    split
    · exact fun haged => ⟨haged, h.previous, ends_put h.results (by simp [Work.ends])⟩
    · exact fun _ => h
  | authLogout stored =>
    cases stored with
    | nil => exact ⟨haged, rfl, h.results⟩
    | cons did rest => exact ⟨haged, rfl, ends_put h.results (by simp [Work.ends])⟩
  | stationAction actor action =>
    revert haged
    simp only [Auth.step, stationAction]
    split
    · split
      · exact fun _ => h
      · exact fun haged => ⟨haged, h.previous, ends_put h.results (by simp [Work.ends])⟩
    · exact fun _ => h
  | authorizationUrl | finalized | session | settled => exact hanswer rfl

theorem Runtime.Sound.replaced_iff (hs : s.Sound) : s.Replaced ↔ s.Attended := by
  constructor
  · intro h hloads
    obtain ⟨op, hop, hgen, htask, -⟩ := h hloads
    exact ⟨op, hop, hgen, htask⟩
  · intro h hloads
    obtain ⟨op, hop, hgen, htask⟩ := h hloads
    refine ⟨op, hop, hgen, htask, fun attempt next hwork => ?_⟩
    simp only [settled, hwork, if_pos hgen.symm]
    cases next with
    | ok state => exact hs.results op hop attempt state hwork
    | error e => rfl

/-- The `restoring` that is left has no task of the generation that the cancel has begun. -/
theorem cancel_attended_iff (hs : s.Sound) :
    (authCancel s).Attended ↔ s.state.phase ≠ .restoring := by
  constructor
  · intro h hphase
    have hstate : (authCancel s).state = s.state := by
      simp only [authCancel, hphase]
    obtain ⟨op, hop, hgen, -⟩ := h (by simp only [hstate, AuthState.loads, hphase])
    have haged := hs.aged op hop
    rw [hgen] at haged
    exact Nat.not_succ_le_self _ haged
  · intro h
    refine attended_rest ?_
    simp only [authCancel]
    split
    · exact loads_of_lasts hs.previous
    · exact loads_of_lasts hs.previous
    · exact loads_of_lasts hs.previous
    · simp only [AuthState.loads]

theorem attended_step (h : s.Attended) (hs : s.Sound) {e : Event} (he : e ≠ .authCancel) :
    (Auth.step s e).Attended := by
  have hanswer {ticket : ℕ} (hticket : e.ticket = some ticket) : (Auth.step s e).Attended := by
    cases hop : s.resumed e with
    | none => rwa [step_of_ticket hticket hop]
    | some op =>
      rw [step_of_resumed hop]
      exact attended_goes h hs (resumed_mem hop).1 e
  cases e with
  | authStart signup argument => exact attended_await s.started .authorizationUrl
  | authCallback url attempt =>
    simp only [Auth.step, authCallback]
    split
    · exact attended_rest rfl
    · exact h
  | authCancel => exact (he rfl).elim
  | authRestore stored =>
    cases stored with
    | nil => exact attended_await s.started (.returned (.ok signedOut))
    | cons did rest => exact attended_await s.started (.session did)
  | authRefresh =>
    simp only [Auth.step, authRefresh]
    split
    · rename_i account hphase
      exact attended_rest (by simp only [Runtime.await, AuthState.loads, hphase])
    · exact h
  | authLogout stored => cases stored <;> exact attended_rest rfl
  | stationAction actor action =>
    simp only [Auth.step, stationAction]
    split
    · split
      · exact h
      · rename_i account hphase _
        exact attended_rest (by simp only [Runtime.await, AuthState.loads, hphase])
    · exact h
  | authorizationUrl | finalized | session | settled => exact hanswer rfl

end Attended

theorem sound_init (savedHandle : Option String) : (Runtime.init savedHandle).Sound where
  aged := fun _ hop => nomatch hop
  previous := rfl
  results := fun _ hop => nomatch hop

/-- A loading state is replaced in every state of a run exactly where no restore is cancelled. -/
theorem replaced_iff_uncancelled (savedHandle : Option String) (es : List Event) :
    (∀ fs gs, es = fs ++ gs → (run Auth.step (Runtime.init savedHandle) fs).Replaced) ↔
      AllSteps Auth.step (fun s e => e = .authCancel → s.state.phase ≠ .restoring)
        (Runtime.init savedHandle) es := by
  have hstep : ∀ (s : Runtime) e, s.Sound ∧ s.Attended →
      ((Auth.step s e).Replaced ↔ (e = .authCancel → s.state.phase ≠ .restoring)) := by
    rintro s e ⟨hs, h⟩
    rw [(sound_step hs e).replaced_iff]
    by_cases he : e = .authCancel
    · subst he
      exact (cancel_attended_iff hs).trans ⟨fun h _ => h, fun h => h rfl⟩
    · exact iff_of_true (attended_step h hs he) fun heq => (he heq).elim
  have hinit := sound_init savedHandle
  have hrest : (Runtime.init savedHandle).Attended := attended_rest rfl
  rw [forall_prefix_iff, and_iff_right (hinit.replaced_iff.2 hrest)]
  refine allSteps_iff_of_step (I := fun s => s.Sound ∧ s.Attended) hstep ?_ ⟨hinit, hrest⟩
  intro s e hI he
  exact ⟨sound_step hI.1 e, (sound_step hI.1 e).replaced_iff.1 ((hstep s e hI).2 he)⟩

def cancelledRestore : List Event := [.authRestore ["did:plc:a"], .authCancel]

/-- The task of the cancelled restore settles without effect. -/
theorem cancelled_restore_stays :
    ¬ ∀ fs gs, cancelledRestore = fs ++ gs → (run Auth.step (Runtime.init none) fs).Replaced := by
  intro h
  obtain ⟨op, hop, hgen, -⟩ := h cancelledRestore [] rfl rfl
  revert op
  decide

/-! ### The account that a cancel brings back -/

/-- Whom `authCancel` would leave signed in. -/
def Runtime.restored (s : Runtime) : Option String := (authCancel s).state.did

/-- What a sign-in goes through, and what may come of it. -/
def Work.signs : Work → Bool
  | .task _ .authorizationUrl | .task _ .finalizeAuthorization => true
  | .task _ (.returned (.error _)) => true
  | .task _ (.returned (.ok state)) => state.isPending || state.isSignedIn
  | _ => false

/-- A task has come back with a session. -/
def Work.completes : Work → Bool
  | .task _ (.returned (.ok state)) => state.isSignedIn
  | _ => false

/-- The commands of a sign-in, and the calls they have made from the ticket `n` on. No sign-in is
completed. -/
def Runtime.Signing (n : ℕ) (s : Runtime) : Event → Prop
  | .authStart .. | .authCallback .. | .authCancel => True
  | .authorizationUrl ticket _ | .finalized ticket _ => n ≤ ticket
  | .settled ticket =>
    n ≤ ticket ∧ ∀ op ∈ s.ops.get ticket, op.gen = s.generation → op.work.completes = false
  | _ => False

instance (n : ℕ) (s : Runtime) : (e : Event) → Decidable (s.Signing n e)
  | .authStart .. | .authCallback .. | .authCancel => isTrue trivial
  | .authorizationUrl .. | .finalized .. => inferInstanceAs (Decidable (_ ≤ _))
  | .settled _ => inferInstanceAs (Decidable (_ ∧ _))
  | .authRestore _ | .authRefresh | .authLogout _ | .stationAction .. | .session .. =>
    isFalse id

/-- An attempt is started by the account itself, and a callback answers one that was. -/
def Runtime.Retains (did : String) (s : Runtime) : Event → Prop
  | .authStart .. => s.state.did = some did
  | .authCallback url _ => isCallback url = true → s.previousState.did = some did
  | _ => True

instance (did : String) (s : Runtime) : (e : Event) → Decidable (s.Retains did e)
  | .authStart .. => inferInstanceAs (Decidable (_ = _))
  | .authCallback .. => inferInstanceAs (Decidable (_ → _))
  | .authCancel | .authorizationUrl .. | .finalized .. | .settled _ | .authRestore _
  | .authRefresh | .authLogout _ | .stationAction .. | .session .. => isTrue trivial

section Restored

variable {s : Runtime} {op : Op} {n : ℕ} {did : String}

theorem cancel_state (s : Runtime) :
    (authCancel s).state = if s.state.isPending then s.previousState else s.state := by
  cases hphase : s.state.phase <;> simp only [authCancel, AuthState.isPending, hphase] <;> rfl

theorem restored_of_pending (h : s.state.isPending = true) :
    s.restored = s.previousState.did := by
  rw [Runtime.restored, cancel_state, if_pos h]

theorem restored_of_rest (h : s.state.isPending = false) : s.restored = s.state.did := by
  rw [Runtime.restored, cancel_state, h, if_neg Bool.false_ne_true]

theorem pending_of_did {state : AuthState} (h : state.did = some did) :
    state.isPending = false := by
  obtain ⟨phase, offline⟩ := state
  cases phase with
  | signedIn account => rfl
  | _ => cases h

/-- A new attempt takes the state as the one to go back to. -/
theorem start_restored (signup : Bool) (argument : String) :
    (authStart s signup argument).restored = s.state.did := by
  rw [restored_of_pending rfl]
  simp only [authStart, Runtime.await, AuthState.did]
  cases hphase : s.state.phase <;> simp only [hphase] <;> rfl

theorem cancel_restored (h : s.previousState.lasts = true) :
    (authCancel s).restored = s.restored := by
  have hrest : (authCancel s).state.isPending = false := by
    rw [cancel_state]
    split
    · exact pending_of_lasts h
    · exact Bool.eq_false_iff.2 ‹_›
  exact restored_of_rest hrest

/-- While a sign-in is under way nothing but the cancel ends it. -/
structure Runtime.Own (n : ℕ) (did : String) (s : Runtime) : Prop where
  aged : s.Aged
  previous : s.previousState.lasts = true
  signs : ∀ op ∈ s.ops.rows, n ≤ op.ticket → op.gen = s.generation →
    s.state.isPending = true ∧ op.work.signs = true
  back : s.previousState.did = some did → s.restored = some did

theorem Runtime.Own.goOn (h : s.Own n did) (hop : op ∈ s.ops.rows) (hn : n ≤ op.ticket)
    {work : Work} (hwork : op.gen = s.generation → work.signs = true) (deleted : List String)
    (savedHandle : Option String) :
    Runtime.Own n did ({ s with deleted, savedHandle }.goOn op work) where
  aged := by
    intro u hu
    rcases mem_goOn.1 hu with rfl | ⟨hu, -⟩
    · exact h.aged op hop
    · exact h.aged u hu
  previous := h.previous
  signs := by
    intro u hu hticket hgen
    rcases mem_goOn.1 hu with rfl | ⟨hu, -⟩
    · exact ⟨(h.signs op hop hn hgen).1, hwork hgen⟩
    · exact h.signs u hu hticket hgen
  back := h.back

theorem Runtime.Own.done (h : s.Own n did) {state : AuthState}
    (hstate : state = s.state ∨ s.state.isPending = true ∧ state.isPending = true) :
    Runtime.Own n did { s.done op with state } where
  aged := fun u hu => h.aged u (mem_done.1 hu).1
  previous := h.previous
  signs := by
    intro u hu hticket hgen
    obtain ⟨hpending, hsigns⟩ := h.signs u (mem_done.1 hu).1 hticket hgen
    refine ⟨?_, hsigns⟩
    rcases hstate with rfl | ⟨-, hstate⟩
    · exact hpending
    · exact hstate
  back := by
    intro hprevious
    rcases hstate with rfl | ⟨-, hstate⟩
    · exact h.back hprevious
    · exact (restored_of_pending hstate).trans hprevious

theorem done_restored {state : AuthState}
    (hstate : state = s.state ∨ s.state.isPending = true ∧ state.isPending = true) :
    Runtime.restored { s.done op with state } = s.restored := by
  rcases hstate with rfl | ⟨hs, hstate⟩
  · rfl
  · exact (restored_of_pending hstate).trans (restored_of_pending hs).symm

/-- What the calls of a sign-in answer takes the state of one attempt to another. -/
theorem own_goes (h : s.Own n did) {e : Event} (he : s.Signing n e) (hop : s.resumed e = some op) :
    (op.goes s e).Own n did ∧ (op.goes s e).restored = s.restored := by
  obtain ⟨hmem, hticket⟩ := resumed_mem hop
  cases e with
  | authorizationUrl t answer =>
    obtain rfl : t = op.ticket := Option.some.inj hticket
    simp only [Op.goes, authorizationUrl]
    split
    · refine ⟨h.goOn hmem he (fun _ => ?_) s.deleted s.savedHandle, rfl⟩
      cases answer <;> rfl
    · exact ⟨h, rfl⟩
  | finalized t answer =>
    obtain rfl : t = op.ticket := Option.some.inj hticket
    simp only [Op.goes, finalized]
    split
    · split
      · exact ⟨h.goOn hmem he (fun _ => rfl) s.deleted s.savedHandle, rfl⟩
      · split
        · exact ⟨h.goOn hmem he (fun hgen => absurd hgen ‹_›) _ s.savedHandle, rfl⟩
        · exact ⟨h.goOn hmem he (fun _ => rfl) s.deleted _, rfl⟩
    · exact ⟨h, rfl⟩
  | settled t =>
    obtain rfl : t = op.ticket := Option.some.inj hticket
    simp only [Op.goes, settled]
    split
    · rename_i attempt next hwork
      split
      · rename_i hgen
        obtain ⟨hpending, hsigns⟩ := h.signs op hmem he.1 hgen.symm
        have hcompletes := he.2 op hop hgen.symm
        rw [hwork] at hsigns hcompletes
        split
        · rename_i state
          have hstate : state = s.state ∨ s.state.isPending = true ∧ state.isPending = true :=
            .inr ⟨hpending, (Bool.or_eq_true_iff.1 hsigns).resolve_right
              (Bool.eq_false_iff.1 hcompletes)⟩
          exact ⟨h.done hstate, done_restored hstate⟩
        · exact ⟨h.done (.inr ⟨hpending, rfl⟩), done_restored (.inr ⟨hpending, rfl⟩)⟩
      · exact ⟨h.done (.inl rfl), rfl⟩
    · exact ⟨h, rfl⟩
  | session => exact he.elim
  | _ => cases hticket

/-- A new generation has no task of its own yet. -/
theorem Runtime.Own.gen_ne (h : s.Own n did) {u : Op} (hu : u ∈ s.ops.rows) :
    u.gen ≠ s.generation + 1 := Nat.ne_of_lt (Nat.lt_succ_of_le (h.aged u hu))

theorem own_start (h : s.Own n did) (signup : Bool) (argument : String) :
    (authStart s signup argument).Own n did where
  aged := (follows_start h.aged signup argument).1
  previous := start_previous s signup argument
  signs := by
    intro u hu _ hgen
    rcases mem_await_or hu with rfl | hu
    · exact ⟨rfl, rfl⟩
    · exact absurd hgen (h.gen_ne hu)
  back := fun hprevious => (restored_of_pending rfl).trans hprevious

theorem own_callback (h : s.Own n did) (attempt : ℕ) :
    Runtime.Own n did ({ s with state := .of (.authorizing none) }.await
      (.task attempt .finalizeAuthorization)) where
  aged := by
    intro u hu
    rcases mem_await_or hu with rfl | hu
    · exact Nat.le_refl _
    · exact h.aged u hu
  previous := h.previous
  signs := by
    intro u hu hticket hgen
    rcases mem_await_or hu with rfl | hu
    · exact ⟨rfl, rfl⟩
    · exact ⟨rfl, (h.signs u hu hticket hgen).2⟩
  back := fun hprevious => (restored_of_pending rfl).trans hprevious

theorem own_cancel (h : s.Own n did) : (authCancel s).Own n did where
  aged := (follows_cancel h.aged).1
  previous := h.previous
  signs := fun _ hu _ hgen => absurd hgen (h.gen_ne hu)
  back := fun hprevious => (cancel_restored h.previous).trans (h.back hprevious)

/-- Only an attempt and a callback change whom the cancel brings back. -/
theorem own_step (h : s.Own n did) {e : Event} (he : s.Signing n e) :
    (Auth.step s e).Own n did ∧
      ((Auth.step s e).restored = some did ↔ s.restored = some did ∧ s.Retains did e) := by
  have hanswer {ticket : ℕ} (hticket : e.ticket = some ticket) :
      (Auth.step s e).Own n did ∧ (Auth.step s e).restored = s.restored := by
    cases hop : s.resumed e with
    | none =>
      rw [step_of_ticket hticket hop]
      exact ⟨h, rfl⟩
    | some op =>
      rw [step_of_resumed hop]
      exact own_goes h he hop
  cases e with
  | authStart signup argument =>
    refine ⟨own_start h signup argument, ?_⟩
    have hrestored : (Auth.step s (.authStart signup argument)).restored = s.state.did :=
      start_restored signup argument
    rw [hrestored]
    exact ⟨fun hdid => ⟨(restored_of_rest (pending_of_did hdid)).trans hdid, hdid⟩, And.right⟩
  | authCallback url attempt =>
    simp only [Auth.step, authCallback]
    cases hurl : isCallback url with
    | true =>
      rw [if_pos rfl]
      refine ⟨own_callback h attempt, ?_⟩
      rw [restored_of_pending rfl]
      exact ⟨fun hprevious => ⟨h.back hprevious, fun _ => hprevious⟩,
        fun hretains => hretains.2 hurl⟩
    | false =>
      rw [if_neg Bool.false_ne_true]
      refine ⟨h, fun hdid => ⟨hdid, fun hcallback => ?_⟩, And.left⟩
      exact (Bool.false_ne_true (hurl.symm.trans hcallback)).elim
  | authCancel =>
    refine ⟨own_cancel h, ?_⟩
    rw [show (Auth.step s .authCancel).restored = s.restored from cancel_restored h.previous]
    exact ⟨fun hdid => ⟨hdid, trivial⟩, And.left⟩
  | session => exact he.elim
  | authorizationUrl | finalized | settled =>
    obtain ⟨hown, hrestored⟩ := hanswer rfl
    rw [hrestored]
    exact ⟨hown, fun hdid => ⟨hdid, trivial⟩, And.left⟩
  | _ => exact he.elim

end Restored

/-! ### What comes before -/

/-- The tickets of what is under way were given out. -/
def Runtime.Numbered (s : Runtime) : Prop := ∀ op ∈ s.ops.rows, op.ticket < s.started

section Numbered

variable {s : Runtime}

theorem numbered_init (savedHandle : Option String) : (Runtime.init savedHandle).Numbered :=
  List.forall_mem_nil _

theorem goes_started (s : Runtime) (op : Op) (e : Event) : (op.goes s e).started = s.started := by
  cases e with
  | authorizationUrl t answer =>
    simp only [Op.goes, authorizationUrl]
    split <;> rfl
  | finalized t answer =>
    simp only [Op.goes, finalized]
    split
    · split
      · rfl
      · split <;> rfl
    · rfl
  | session t answer =>
    simp only [Op.goes, session]
    split
    · split <;> rfl
    · rfl
    · split
      · split <;> rfl
      · rfl
    · split <;> rfl
    · split <;> rfl
    · rfl
  | settled t =>
    simp only [Op.goes, settled]
    split
    · split
      · split <;> rfl
      · rfl
    · rfl
  | _ => rfl

theorem numbered_goes (h : s.Numbered) {op : Op} (hop : op ∈ s.ops.rows) (e : Event) :
    (op.goes s e).Numbered := by
  intro u hu
  rw [goes_started]
  rcases (goes_went s op e).ops with ⟨hops, -⟩ | hops | ⟨work, hops, -⟩
  · exact h u (hops ▸ hu)
  · rw [hops] at hu
    exact h u (mem_done.1 hu).1
  · rw [hops] at hu
    rcases mem_goOn.1 hu with rfl | ⟨hu, -⟩
    · exact h op hop
    · exact h u hu

theorem numbered_put (h : s.Numbered) {gen : ℕ} {work : Work} :
    ∀ u ∈ (s.ops.put ⟨s.started, gen, work⟩).rows, u.ticket < s.started + 1 := by
  intro u hu
  rcases (Table.mem_put _ _ _).1 hu with rfl | ⟨hu, -⟩
  · exact Nat.lt_succ_self _
  · exact Nat.lt_succ_of_lt (h u hu)

theorem numbered_step (h : s.Numbered) (e : Event) : (Auth.step s e).Numbered := by
  have hanswer {ticket : ℕ} (hticket : e.ticket = some ticket) : (Auth.step s e).Numbered := by
    cases hop : s.resumed e with
    | none => rwa [step_of_ticket hticket hop]
    | some op =>
      rw [step_of_resumed hop]
      exact numbered_goes h (resumed_mem hop).1 e
  cases e with
  | authStart signup argument => exact numbered_put h
  | authCallback url attempt =>
    simp only [Auth.step, authCallback]
    split
    · exact numbered_put h
    · exact h
  | authCancel => exact h
  | authRestore stored =>
    cases stored with
    | nil => exact numbered_put h
    | cons did rest => exact numbered_put h
  | authRefresh =>
    simp only [Auth.step, authRefresh]
    split
    · exact numbered_put h
    · exact h
  | authLogout stored =>
    cases stored with
    | nil => exact h
    | cons did rest => exact numbered_put h
  | stationAction actor action =>
    simp only [Auth.step, stationAction]
    split
    · split
      · exact h
      · exact numbered_put h
    · exact h
  | authorizationUrl | finalized | session | settled => exact hanswer rfl

end Numbered

/-- A cancel after any commands and answers of a sign-in brings the account back exactly where
every attempt was begun, and every callback taken, with it to go back to. -/
theorem restored_iff_retained (savedHandle : Option String) (before es : List Event) (did : String)
    (hdid : (run Auth.step (Runtime.init savedHandle) before).state.did = some did)
    (hes : AllSteps Auth.step
      (Runtime.Signing (run Auth.step (Runtime.init savedHandle) before).started)
      (run Auth.step (Runtime.init savedHandle) before) es) :
    (run Auth.step (Runtime.init savedHandle) (before ++ es ++ [.authCancel])).state.did =
        some did ↔
      AllSteps Auth.step (Runtime.Retains did) (run Auth.step (Runtime.init savedHandle) before)
        es := by
  have hsound := run_kept (I := Runtime.Sound) (fun _ e h => sound_step h e)
    (sound_init savedHandle) before
  have hnumbered := run_kept (I := Runtime.Numbered) (fun _ e h => numbered_step h e)
    (numbered_init savedHandle) before
  rw [run_append, run_append]
  generalize run Auth.step (Runtime.init savedHandle) before = s at *
  have hback : s.restored = some did := (restored_of_rest (pending_of_did hdid)).trans hdid
  have hown : s.Own s.started did := ⟨hsound.aged, hsound.previous,
    fun op hop hticket => absurd (hnumbered op hop) (Nat.not_lt.2 hticket), fun _ => hback⟩
  have hiff := run_iff_of_step (I := Runtime.Own s.started did)
    (P := fun r => Runtime.restored r = some did) (Q := Runtime.Retains did)
    (fun r e h he => (own_step h he).1) (fun r e h he => (own_step h he).2) hown hes
  exact hiff.trans (and_iff_right hback)

/-- An account, signed in when a callback comes back with an error. -/
def signedInBefore : List Event := [.authRestore ["did:plc:a"], .session 0 (.ok none), .settled 0]

def failedConsent : List Event :=
  [.authStart false "a.test", .authorizationUrl 1 (.ok "https://provider.test/authorize"),
    .settled 1, .authCallback (some ⟨"https://atradio.fm", "/oauth/callback"⟩) 1,
    .finalized 2 (.error (.other none)), .settled 2]

theorem failedConsent_restored :
    (run Auth.step (Runtime.init none) (signedInBefore ++ failedConsent ++ [.authCancel])).state.did
      = some "did:plc:a" :=
  (restored_iff_retained none signedInBefore failedConsent "did:plc:a" (by decide)
    (by decide)).2 (by decide)

/-- The second of two attempts takes the `starting` of the first as the state to go back to. -/
theorem second_attempt_loses :
    (run Auth.step (Runtime.init none) signedInBefore).state.did = some "did:plc:a" ∧
      ¬ ∀ es, AllSteps Auth.step
          (Runtime.Signing (run Auth.step (Runtime.init none) signedInBefore).started)
          (run Auth.step (Runtime.init none) signedInBefore) es →
        (run Auth.step (Runtime.init none) (signedInBefore ++ es ++ [.authCancel])).state.did =
          some "did:plc:a" := by
  refine ⟨by decide, fun h => ?_⟩
  have hdid := h [.authStart false "a.test", .authStart false "a.test"] (by decide)
  revert hdid
  decide

end Atradio.App.Auth
