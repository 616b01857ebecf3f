import Atradio.App.Auth

/-! # Who is signed in

The history of the attempts stands beside the variables of the code: which sign-in or restore is
the latest, and whom such an attempt has let in. -/

namespace Atradio.App.Auth
open Atradio.Lib

structure World where
  runtime : Runtime
  /-- The latest sign-in or restore, unless it was cancelled or the user has logged out. -/
  live : Option ℕ
  /-- A callback was taken for it, or none belongs to it. -/
  answered : Bool
  /-- Someone was signed in since `previousState` was taken from the state. -/
  entered : Bool
  /-- The last account that a callback or a restore has signed in for the live attempt, unless the
  user has logged out. -/
  admitted : Option String

/-- The account a task of the live attempt signs in when it settles. -/
def Op.admits (op : Op) (live : Option ℕ) : Option String :=
  match op.work with
  | .task attempt (.returned (.ok ⟨.signedIn account, _⟩)) =>
    if live = some attempt then some account.profile.did else none
  | _ => none

theorem admits_eq_some {op : Op} {live : Option ℕ} {did : String} :
    op.admits live = some did ↔ ∃ attempt account offline,
      op.work = .task attempt (.returned (.ok ⟨.signedIn account, offline⟩)) ∧
        live = some attempt ∧ account.profile.did = did := by
  unfold Op.admits
  constructor
  · intro h
    split at h
    · rename_i attempt account offline hwork
      split at h
      · rename_i hlive
        exact ⟨attempt, account, offline, hwork, hlive, Option.some.inj h⟩
      · cases h
    · cases h
  · rintro ⟨attempt, account, offline, hwork, hlive, rfl⟩
    rw [hwork]
    exact if_pos hlive

def World.step (w : World) (e : Event) : World :=
  let runtime := Auth.step w.runtime e
  match e with
  | .authStart _ _ =>
    { w with runtime, live := some w.runtime.started, answered := false, entered := false }
  | .authCallback url _ => { w with runtime, answered := w.answered || isCallback url }
  | .authRestore _ => { w with runtime, live := some w.runtime.started, answered := true }
  | .authCancel => { w with runtime, live := none }
  | .authLogout _ => { w with runtime, live := none, admitted := none }
  | .settled ticket =>
    match (w.runtime.ops.get ticket).bind fun op => op.admits w.live with
    | some did => { w with runtime, entered := true, admitted := some did }
    | none => { w with runtime }
  | _ => { w with runtime }

def World.init (savedHandle : Option String) : World where
  runtime := .init savedHandle
  live := none
  answered := false
  entered := false
  admitted := none

/-- Who is signed in was let in by a callback or a restore of the live attempt. -/
def World.Admitted (w : World) : Prop :=
  ∀ account, w.runtime.state.phase = .signedIn account →
    w.admitted = some account.profile.did

def Event.ticket : Event → Option ℕ
  | .authorizationUrl ticket _ | .finalized ticket _ | .session ticket _ | .settled ticket =>
    some ticket
  | _ => none

/-- What was started in an earlier generation leaves the state alone when it goes on. -/
def World.Undisturbed (w : World) (e : Event) : Prop :=
  ∀ ticket op, e.ticket = some ticket → w.runtime.ops.get ticket = some op →
    op.gen ≠ w.runtime.generation → (w.step e).runtime.state = w.runtime.state

def AuthState.isSignedIn (state : AuthState) : Bool :=
  match state.phase with
  | .signedIn _ => true
  | _ => false

/-- The state that `authCancel` takes back. -/
def AuthState.isPending (state : AuthState) : Bool :=
  match state.phase with
  | .starting | .authorizing _ | .error _ => true
  | _ => false

def Op.isAction (op : Op) : Bool :=
  match op.work with
  | .stationAction _ => true
  | _ => false

/-- A callback is the first answer to the live sign-in, a cancel does not bring back an account
from before the last one signed in, and a session is found revoked by a station action only in
the generation of the action. -/
def World.Guarded (w : World) : Event → Prop
  | .authCallback url attempt => isCallback url = true → w.live = some attempt ∧ w.answered = false
  | .authCancel => w.runtime.state.isPending = true → w.runtime.previousState.isSignedIn = true →
      w.entered = false
  | .session ticket (.error (.tokenRefresh _)) =>
    ((w.runtime.ops.get ticket).all fun op =>
      !op.isAction || op.gen = w.runtime.generation) = true
  | _ => True

instance (w : World) : (e : Event) → Decidable (w.Guarded e)
  | .authCallback _ _ => inferInstanceAs (Decidable (_ → _))
  | .authCancel => inferInstanceAs (Decidable (_ → _))
  | .session _ (.error (.tokenRefresh _)) => inferInstanceAs (Decidable (_ = true))
  | .session _ (.error (.other _)) => isTrue trivial
  | .session _ (.ok _) => isTrue trivial
  | .authStart .. | .authRestore _ | .authRefresh | .authLogout _ | .stationAction ..
  | .authorizationUrl .. | .finalized .. | .settled _ => isTrue trivial

/-! ### What guarded steps keep -/

def Op.mayEnter (op : Op) : Bool :=
  match op.work with
  | .task _ .finalizeAuthorization | .task _ (.session _) | .task _ (.staleSession _) => true
  | .task _ (.returned (.ok state)) => state.isSignedIn
  | _ => false

/-- Nobody else can be signed in before the next generation. -/
def World.Closed (w : World) : Prop :=
  (∀ op ∈ w.runtime.ops.rows, op.mayEnter = true → op.gen ≠ w.runtime.generation) ∧
    (w.live.isSome = true → w.answered = true)

structure Inv (w : World) : Prop where
  tickets : ∀ op ∈ w.runtime.ops.rows, op.ticket < w.runtime.started
  gens : ∀ op ∈ w.runtime.ops.rows, op.gen ≤ w.runtime.generation
  live : ∀ attempt, w.live = some attempt → attempt < w.runtime.started
  attempts : ∀ op ∈ w.runtime.ops.rows, ∀ attempt awaits, op.work = .task attempt awaits →
    attempt < w.runtime.started ∧ (op.gen = w.runtime.generation ↔ w.live = some attempt)
  single : ∀ op ∈ w.runtime.ops.rows, ∀ op' ∈ w.runtime.ops.rows,
    op.mayEnter = true → op'.mayEnter = true → op.gen = w.runtime.generation →
      op'.gen = w.runtime.generation → op.ticket = op'.ticket
  answered : ∀ op ∈ w.runtime.ops.rows, op.mayEnter = true → op.gen = w.runtime.generation →
    w.answered = true
  admitted : w.Admitted
  closed : w.runtime.state.isSignedIn = true → w.Closed
  previous : ∀ account, w.runtime.previousState.phase = .signedIn account → w.entered = false →
    w.admitted = some account.profile.did
  refreshes : ∀ op ∈ w.runtime.ops.rows, ∀ did, op.work = .refresh did →
    op.gen = w.runtime.generation → w.admitted = some did ∧ w.Closed

theorem inv_init (savedHandle : Option String) : Inv (World.init savedHandle) where
  tickets := fun _ hop => nomatch hop
  gens := fun _ hop => nomatch hop
  live := fun _ h => nomatch h
  attempts := fun _ hop => nomatch hop
  single := fun _ hop => nomatch hop
  answered := fun _ hop => nomatch hop
  admitted := fun _ h => nomatch h
  closed := fun h => nomatch h
  previous := fun _ h => nomatch h
  refreshes := fun _ hop => nomatch hop

section Steps

variable {w : World}

theorem Inv.handles (hI : Inv w) (currentHandle : String) (savedHandle : Option String)
    (deleted : List String) :
    Inv { w with runtime := { w.runtime with currentHandle, savedHandle, deleted } } :=
  ⟨hI.tickets, hI.gens, hI.live, hI.attempts, hI.single, hI.answered, hI.admitted, hI.closed,
    hI.previous, hI.refreshes⟩

/-- The state is assigned, to nobody else than the one let in. -/
theorem Inv.assign (hI : Inv w) {state : AuthState}
    (h : ∀ account, state.phase = .signedIn account →
      w.admitted = some account.profile.did ∧ w.Closed) :
    Inv { w with runtime := { w.runtime with state } } where
  tickets := hI.tickets
  gens := hI.gens
  live := hI.live
  attempts := hI.attempts
  single := hI.single
  answered := hI.answered
  admitted := fun account ha => (h account ha).1
  closed := by
    intro hs
    cases hp : state.phase with
    | signedIn account => exact (h account hp).2
    | _ => simp [AuthState.isSignedIn, hp] at hs
  previous := hI.previous
  refreshes := hI.refreshes

theorem mem_done {s : Runtime} {op u : Op} :
    u ∈ (s.done op).ops.rows ↔ u ∈ s.ops.rows ∧ u.ticket ≠ op.ticket := Table.mem_delete _ _ _

theorem Inv.done (hI : Inv w) (op : Op) : Inv { w with runtime := w.runtime.done op } := by
  have hsub : ∀ u ∈ (w.runtime.done op).ops.rows, u ∈ w.runtime.ops.rows :=
    fun u hu => (mem_done.1 hu).1
  have hclosed : w.Closed → World.Closed { w with runtime := w.runtime.done op } :=
    fun hc => ⟨fun u hu => hc.1 u (hsub u hu), hc.2⟩
  exact {
    tickets := fun u hu => hI.tickets u (hsub u hu)
    gens := fun u hu => hI.gens u (hsub u hu)
    live := hI.live
    attempts := fun u hu => hI.attempts u (hsub u hu)
    single := fun u hu v hv => hI.single u (hsub u hu) v (hsub v hv)
    answered := fun u hu => hI.answered u (hsub u hu)
    admitted := hI.admitted
    closed := fun hs => hclosed (hI.closed hs)
    previous := hI.previous
    refreshes := fun u hu did hw hg =>
      ⟨(hI.refreshes u (hsub u hu) did hw hg).1, hclosed (hI.refreshes u (hsub u hu) did hw hg).2⟩ }

theorem mem_goOn {s : Runtime} {op u : Op} {work : Work} :
    u ∈ (s.goOn op work).ops.rows ↔
      u = { op with work } ∨ u ∈ s.ops.rows ∧ u.ticket ≠ op.ticket := Table.mem_put _ _ _

theorem Inv.goOn (hI : Inv w) {op : Op} (hop : op ∈ w.runtime.ops.rows) {work : Work}
    (htask : ∀ attempt awaits, work = .task attempt awaits →
      ∃ before, op.work = .task attempt before)
    (hrefresh : ∀ did, work ≠ .refresh did)
    (henter : Op.mayEnter { op with work } = true → op.mayEnter = true) :
    Inv { w with runtime := w.runtime.goOn op work } := by
  -- every operation now stands for one from before that may enter if it may
  have hfrom : ∀ u ∈ (w.runtime.goOn op work).ops.rows,
      ∃ v ∈ w.runtime.ops.rows, v.ticket = u.ticket ∧ v.gen = u.gen ∧
        (u.mayEnter = true → v.mayEnter = true) := by
    intro u hu
    rcases mem_goOn.1 hu with rfl | ⟨hu, -⟩
    · exact ⟨op, hop, rfl, rfl, henter⟩
    · exact ⟨u, hu, rfl, rfl, id⟩
  have hclosed : w.Closed → World.Closed { w with runtime := w.runtime.goOn op work } := by
    refine fun hc => ⟨fun u hu hm => ?_, hc.2⟩
    obtain ⟨v, hv, -, hgen, hmay⟩ := hfrom u hu
    have hne := hc.1 v hv (hmay hm)
    rw [hgen] at hne
    exact hne
  exact {
    tickets := by
      intro u hu
      obtain ⟨v, hv, ht, -, -⟩ := hfrom u hu
      exact ht ▸ hI.tickets v hv
    gens := by
      intro u hu
      obtain ⟨v, hv, -, hgen, -⟩ := hfrom u hu
      exact hgen ▸ hI.gens v hv
    live := hI.live
    attempts := by
      intro u hu attempt awaits hw
      rcases mem_goOn.1 hu with rfl | ⟨hu, -⟩
      · obtain ⟨before, hbefore⟩ := htask attempt awaits hw
        exact hI.attempts op hop attempt before hbefore
      · exact hI.attempts u hu attempt awaits hw
    single := by
      intro u hu v hv hmu hmv hgu hgv
      obtain ⟨u', hu', htu, hgu', hmu'⟩ := hfrom u hu
      obtain ⟨v', hv', htv, hgv', hmv'⟩ := hfrom v hv
      rw [← htu, ← htv]
      exact hI.single u' hu' v' hv' (hmu' hmu) (hmv' hmv) (hgu'.trans hgu) (hgv'.trans hgv)
    answered := by
      intro u hu hm hg
      obtain ⟨v, hv, -, hgen, hmay⟩ := hfrom u hu
      exact hI.answered v hv (hmay hm) (hgen.trans hg)
    admitted := hI.admitted
    closed := fun hs => hclosed (hI.closed hs)
    previous := hI.previous
    refreshes := by
      intro u hu did hw hg
      rcases mem_goOn.1 hu with rfl | ⟨hu, -⟩
      · exact absurd hw (hrefresh did)
      · exact ⟨(hI.refreshes u hu did hw hg).1, hclosed (hI.refreshes u hu did hw hg).2⟩ }

theorem Inv.taskGoesOn (hI : Inv w) {op : Op} (hop : op ∈ w.runtime.ops.rows) {attempt : ℕ}
    {before awaits : Awaits} (hwork : op.work = .task attempt before)
    (henter : Op.mayEnter { op with work := .task attempt awaits } = true → op.mayEnter = true) :
    Inv { w with runtime := w.runtime.goOn op (.task attempt awaits) } := by
  refine hI.goOn hop (fun a _ h => ?_) (fun _ h => nomatch h) henter
  cases h
  exact ⟨before, hwork⟩

theorem mem_await (hI : Inv w) {gen : ℕ} {work : Work} {u : Op} :
    u ∈ (w.runtime.ops.put ⟨w.runtime.started, gen, work⟩).rows ↔
      u = ⟨w.runtime.started, gen, work⟩ ∨ u ∈ w.runtime.ops.rows :=
  Table.mem_put_new _ fun v hv => Nat.ne_of_lt (hI.tickets v hv)

theorem Inv.await_tickets (hI : Inv w) {gen : ℕ} {work : Work} :
    ∀ u ∈ (w.runtime.ops.put ⟨w.runtime.started, gen, work⟩).rows,
      u.ticket < w.runtime.started + 1 := by
  intro u hu
  rcases (mem_await hI).1 hu with rfl | hu
  · exact Nat.lt_succ_self _
  · exact Nat.lt_succ_of_lt (hI.tickets u hu)

theorem Inv.await_gens (hI : Inv w) {gen : ℕ} {work : Work} (hgen : w.runtime.generation ≤ gen) :
    ∀ u ∈ (w.runtime.ops.put ⟨w.runtime.started, gen, work⟩).rows, u.gen ≤ gen := by
  intro u hu
  rcases (mem_await hI).1 hu with rfl | hu
  · exact Nat.le_refl _
  · exact Nat.le_trans (hI.gens u hu) hgen

theorem Inv.await (hI : Inv w) {work : Work}
    (htask : ∀ attempt awaits, work ≠ .task attempt awaits)
    (hrefresh : ∀ did, work = .refresh did → w.admitted = some did ∧ w.Closed) :
    Inv { w with runtime := w.runtime.await work } := by
  have hnew : Op.mayEnter ⟨w.runtime.started, w.runtime.generation, work⟩ = false := by
    cases work with
    | task attempt awaits => exact absurd rfl (htask attempt awaits)
    | _ => rfl
  have hold : ∀ u ∈ (w.runtime.await work).ops.rows, u.mayEnter = true →
      u ∈ w.runtime.ops.rows := by
    intro u hu hm
    rcases (mem_await hI).1 hu with rfl | hu
    · rw [hnew] at hm
      cases hm
    · exact hu
  have hclosed : w.Closed → World.Closed { w with runtime := w.runtime.await work } :=
    fun hc => ⟨fun u hu hm => hc.1 u (hold u hu hm) hm, hc.2⟩
  exact {
    tickets := hI.await_tickets
    gens := hI.await_gens (Nat.le_refl _)
    live := fun attempt h => Nat.lt_succ_of_lt (hI.live attempt h)
    attempts := by
      intro u hu attempt awaits hw
      rcases (mem_await hI).1 hu with rfl | hu
      · exact absurd hw (htask attempt awaits)
      · obtain ⟨hlt, hiff⟩ := hI.attempts u hu attempt awaits hw
        exact ⟨Nat.lt_succ_of_lt hlt, hiff⟩
    single := fun u hu v hv hmu hmv =>
      hI.single u (hold u hu hmu) v (hold v hv hmv) hmu hmv
    answered := fun u hu hm => hI.answered u (hold u hu hm) hm
    admitted := hI.admitted
    closed := fun hs => hclosed (hI.closed hs)
    previous := hI.previous
    refreshes := by
      intro u hu did hw hg
      rcases (mem_await hI).1 hu with rfl | hu
      · exact ⟨(hrefresh did hw).1, hclosed (hrefresh did hw).2⟩
      · exact ⟨(hI.refreshes u hu did hw hg).1, hclosed (hI.refreshes u hu did hw hg).2⟩ }

theorem Inv.gen_ne_succ (hI : Inv w) {u : Op} (hu : u ∈ w.runtime.ops.rows) :
    u.gen ≠ w.runtime.generation + 1 := Nat.ne_of_lt (Nat.lt_succ_of_le (hI.gens u hu))

theorem Inv.callback (hI : Inv w) {attempt : ℕ} (hlive : w.live = some attempt)
    (hanswered : w.answered = false) :
    Inv { w with
      runtime := { w.runtime with state := .of (.authorizing none) }.await
        (.task attempt .finalizeAuthorization)
      answered := true } := by
  have hnone : ∀ u ∈ w.runtime.ops.rows, u.mayEnter = true → u.gen ≠ w.runtime.generation := by
    intro u hu hm hg
    rw [hI.answered u hu hm hg] at hanswered
    cases hanswered
  have hopen : ¬ w.Closed := by
    intro hc
    have h := hc.2 (by rw [hlive]; rfl)
    rw [hanswered] at h
    cases h
  exact {
    tickets := hI.await_tickets
    gens := hI.await_gens (Nat.le_refl _)
    live := fun a h => Nat.lt_succ_of_lt (hI.live a h)
    attempts := by
      intro u hu a awaits hw
      rcases (mem_await hI).1 hu with rfl | hu
      · cases hw
        exact ⟨Nat.lt_succ_of_lt (hI.live attempt hlive), iff_of_true rfl hlive⟩
      · obtain ⟨hlt, hiff⟩ := hI.attempts u hu a awaits hw
        exact ⟨Nat.lt_succ_of_lt hlt, hiff⟩
    single := by
      intro u hu v hv hmu hmv hgu hgv
      rcases (mem_await hI).1 hu with rfl | hu
      · rcases (mem_await hI).1 hv with rfl | hv
        · rfl
        · exact absurd hgv (hnone v hv hmv)
      · exact absurd hgu (hnone u hu hmu)
    answered := fun _ _ _ _ => rfl
    admitted := fun _ h => nomatch h
    closed := fun h => nomatch h
    previous := hI.previous
    refreshes := by
      intro u hu did hw hg
      rcases (mem_await hI).1 hu with rfl | hu
      · cases hw
      · exact absurd (hI.refreshes u hu did hw hg).2 hopen }

theorem Inv.attempt (hI : Inv w) {state previousState : AuthState} {awaits : Awaits}
    {answered entered : Bool} (hstate : state.isSignedIn = false)
    (hanswered : Op.mayEnter ⟨w.runtime.started, w.runtime.generation + 1,
      .task w.runtime.started awaits⟩ = true → answered = true)
    (hprevious : ∀ account, previousState.phase = .signedIn account → entered = false →
      w.admitted = some account.profile.did) :
    Inv { w with
      runtime := { w.runtime with
        generation := w.runtime.generation + 1, state, previousState }.await
          (.task w.runtime.started awaits)
      live := some w.runtime.started
      answered, entered } := by
  have hold : ∀ u ∈ w.runtime.ops.rows, u.gen ≠ w.runtime.generation + 1 :=
    fun u hu => hI.gen_ne_succ hu
  exact {
    tickets := hI.await_tickets
    gens := hI.await_gens (Nat.le_succ _)
    live := by
      intro a h
      rw [← Option.some.inj h]
      exact Nat.lt_succ_self _
    attempts := by
      intro u hu a awaits hw
      rcases (mem_await hI).1 hu with rfl | hu
      · cases hw
        exact ⟨Nat.lt_succ_self _, iff_of_true rfl rfl⟩
      · have hlt := (hI.attempts u hu a awaits hw).1
        refine ⟨Nat.lt_succ_of_lt hlt, iff_of_false (hold u hu) fun h => ?_⟩
        exact Nat.ne_of_gt hlt (Option.some.inj h)
    single := by
      intro u hu v hv _ _ hgu hgv
      rcases (mem_await hI).1 hu with rfl | hu
      · rcases (mem_await hI).1 hv with rfl | hv
        · rfl
        · exact absurd hgv (hold v hv)
      · exact absurd hgu (hold u hu)
    answered := by
      intro u hu hm hg
      rcases (mem_await hI).1 hu with rfl | hu
      · exact hanswered hm
      · exact absurd hg (hold u hu)
    admitted := by
      intro account h
      have hphase : state.phase = .signedIn account := h
      simp [AuthState.isSignedIn, hphase] at hstate
    closed := by
      intro h
      have hsigned : state.isSignedIn = true := h
      rw [hstate] at hsigned
      cases hsigned
    previous := hprevious
    refreshes := by
      intro u hu did hw hg
      rcases (mem_await hI).1 hu with rfl | hu
      · cases hw
      · exact absurd hg (hold u hu) }

theorem Inv.leave (hI : Inv w) {state previousState : AuthState} {admitted : Option String}
    (hstate : ∀ account, state.phase = .signedIn account → admitted = some account.profile.did)
    (hprevious : ∀ account, previousState.phase = .signedIn account → w.entered = false →
      admitted = some account.profile.did) :
    Inv { w with
      runtime := { w.runtime with generation := w.runtime.generation + 1, state, previousState }
      live := none
      admitted } where
  tickets := hI.tickets
  gens := fun u hu => Nat.le_succ_of_le (hI.gens u hu)
  live := fun _ h => nomatch h
  attempts := fun u hu a awaits hw =>
    ⟨(hI.attempts u hu a awaits hw).1, iff_of_false (hI.gen_ne_succ hu) fun h => nomatch h⟩
  single := fun _ hu _ _ _ _ hgu _ => absurd hgu (hI.gen_ne_succ hu)
  answered := fun _ hu _ hg => absurd hg (hI.gen_ne_succ hu)
  admitted := hstate
  closed := fun _ => ⟨fun _ hu _ => hI.gen_ne_succ hu, fun h => nomatch h⟩
  previous := hprevious
  refreshes := fun _ hu _ _ hg => absurd hg (hI.gen_ne_succ hu)

theorem Inv.enter (hI : Inv w) {op : Op} (hop : op ∈ w.runtime.ops.rows)
    (hgen : op.gen = w.runtime.generation) (henter : op.mayEnter = true) {account : Account}
    {state : AuthState} (hstate : state.phase = .signedIn account) :
    Inv { w with
      runtime := { w.runtime.done op with state }
      entered := true
      admitted := some account.profile.did } := by
  have hsub : ∀ u ∈ (w.runtime.done op).ops.rows, u ∈ w.runtime.ops.rows :=
    fun u hu => (mem_done.1 hu).1
  have hnone : ∀ u ∈ (w.runtime.done op).ops.rows, u.mayEnter = true →
      u.gen ≠ w.runtime.generation := fun u hu hm hg =>
    (mem_done.1 hu).2 (hI.single u (hsub u hu) op hop hm henter hg hgen)
  exact {
    tickets := fun u hu => hI.tickets u (hsub u hu)
    gens := fun u hu => hI.gens u (hsub u hu)
    live := hI.live
    attempts := fun u hu => hI.attempts u (hsub u hu)
    single := fun u hu v hv => hI.single u (hsub u hu) v (hsub v hv)
    answered := fun u hu => hI.answered u (hsub u hu)
    admitted := by
      intro account' h
      have hphase : state.phase = .signedIn account' := h
      rw [hstate] at hphase
      cases hphase
      rfl
    closed := fun _ => ⟨hnone, fun _ => hI.answered op hop henter hgen⟩
    previous := fun _ _ h => nomatch h
    refreshes := fun u hu did hw hg =>
      absurd hgen ((hI.refreshes u (hsub u hu) did hw hg).2.1 op hop henter) }

/-! ### The answers -/

section Answers

variable {op : Op} (hop : op ∈ w.runtime.ops.rows)
include hop

theorem Inv.authorizationUrl (hI : Inv w) (answer : Except Failure String) :
    Inv { w with runtime := Auth.authorizationUrl w.runtime op answer } := by
  unfold Auth.authorizationUrl
  split
  · rename_i attempt hwork
    refine hI.taskGoesOn hop hwork fun h => ?_
    cases answer with
    | error e => cases h
    | ok url => cases h
  · exact hI

theorem Inv.finalized (hI : Inv w) (answer : Except Failure Session) :
    Inv { w with runtime := Auth.finalized w.runtime op answer } := by
  unfold Auth.finalized
  split
  · rename_i attempt hwork
    cases answer with
    | error e => exact hI.taskGoesOn hop hwork (by simp [Op.mayEnter])
    | ok session =>
      dsimp only
      split
      · refine (hI.taskGoesOn hop hwork fun h => ?_).handles _ _ _
        cases h
      · refine (hI.taskGoesOn hop hwork fun _ => ?_).handles _ _ _
        simp [Op.mayEnter, hwork]
  · exact hI

theorem Inv.refreshed (hI : Inv w) {did : String} (hwork : op.work = .refresh did)
    (hgen : op.gen = w.runtime.generation) (session : Session) (hsub : session.sub = did)
    (handle : String) :
    Inv { w with runtime := { w.runtime.done op with state := signedIn session handle } } := by
  obtain ⟨hadmitted, hclosed⟩ := hI.refreshes op hop did hwork hgen
  refine (hI.done op).assign fun account ha => ?_
  have hdid : account.profile.did = did := by
    cases ha
    exact hsub
  rw [hdid]
  exact ⟨hadmitted, fun u hu => hclosed.1 u (mem_done.1 hu).1, hclosed.2⟩

theorem Inv.session (hI : Inv w) (answer : Except Failure (Option String)) :
    Inv { w with runtime := Auth.session w.runtime op answer } := by
  have hrevoked : Inv { w with runtime := { w.runtime.done op with state := revoked } } :=
    (hI.done op).assign fun _ h => nomatch h
  unfold Auth.session
  split
  · rename_i attempt did hwork
    have hmay : op.mayEnter = true := by simp [Op.mayEnter, hwork]
    split
    · exact hI.taskGoesOn hop hwork fun _ => hmay
    · refine (hI.taskGoesOn hop hwork fun h => ?_).handles _ _ _
      cases h
    · exact hI.taskGoesOn hop hwork fun _ => hmay
  · rename_i attempt did hwork
    exact hI.taskGoesOn hop hwork fun _ => by simp [Op.mayEnter, hwork]
  · rename_i did hwork
    split
    · rename_i hgen
      split
      · exact hI.refreshed hop hwork hgen ⟨did, _⟩ rfl _
      · exact hrevoked.handles _ _ _
      · refine (hI.done op).assign fun account ha => ?_
        have hsigned : w.runtime.state.isSignedIn = true := by
          simp [AuthState.isSignedIn, show w.runtime.state.phase = _ from ha]
        exact ⟨(hI.done op).admitted account ha, (hI.done op).closed hsigned⟩
    · exact hI.done op
  · split
    · exact hrevoked.handles _ _ _
    · exact hI.done op
  · rename_i did rest hwork
    split
    · exact (hI.done op).handles _ _ _
    · refine (hI.goOn hop ?_ ?_ fun h => ?_).handles _ _ _
      · exact fun _ _ h => nomatch h
      · exact fun _ h => nomatch h
      · cases h
  · exact hI

/-- The `then` of a task assigns in the generation of the task, where its attempt is the live one. -/
theorem Inv.settled (hI : Inv w) : Inv (match op.admits w.live with
    | some did =>
      { w with runtime := Auth.settled w.runtime op, entered := true, admitted := some did }
    | none => { w with runtime := Auth.settled w.runtime op }) := by
  cases hadmits : op.admits w.live with
  | some did =>
    obtain ⟨attempt, account, offline, hwork, hlive, rfl⟩ := admits_eq_some.1 hadmits
    have hgen := (hI.attempts op hop attempt _ hwork).2.2 hlive
    have hmay : op.mayEnter = true := by simp [Op.mayEnter, hwork, AuthState.isSignedIn]
    have hsettled : Auth.settled w.runtime op =
        { w.runtime.done op with state := ⟨.signedIn account, offline⟩ } := by
      simp [Auth.settled, hwork, hgen]
    dsimp only
    rw [hsettled]
    exact hI.enter hop hgen hmay rfl
  | none =>
    unfold Auth.settled
    dsimp only
    split
    · rename_i attempt next hwork
      split
      · rename_i hgen
        split
        · rename_i state
          refine (hI.done op).assign fun account ha => ?_
          have hlive := (hI.attempts op hop attempt _ hwork).2.1 hgen.symm
          have hsome : op.admits w.live = some account.profile.did :=
            admits_eq_some.2 ⟨attempt, account, state.offline, by rw [hwork, ← ha], hlive, rfl⟩
          rw [hadmits] at hsome
          cases hsome
        · exact (hI.done op).assign fun _ h => nomatch h
      · exact hI.done op
    · exact hI

end Answers

theorem Inv.resume (hI : Inv w) (ticket : ℕ) {k : Op → Runtime}
    (h : ∀ op ∈ w.runtime.ops.rows, Inv { w with runtime := k op }) :
    Inv { w with runtime := w.runtime.resume ticket k } := by
  unfold Runtime.resume
  cases hget : w.runtime.ops.get ticket with
  | none => exact hI
  | some op => exact h op ((Table.get_eq_some _ _ _).1 hget).1

theorem Inv.start (hI : Inv w) (signup : Bool) (argument : String) :
    Inv (w.step (.authStart signup argument)) := by
  refine (hI.attempt rfl (fun h => ?_) ?_).handles _ _ _
  · cases h
  · intro account ha _
    cases hp : w.runtime.state.phase with
    | signedIn account' =>
      rw [hp] at ha
      exact hI.admitted account ha
    | _ =>
      rw [hp] at ha
      cases ha

theorem Inv.cancel (hI : Inv w) (hg : w.Guarded .authCancel) : Inv (w.step .authCancel) := by
  refine hI.leave (fun account ha => ?_) hI.previous
  have hback (hpending : w.runtime.state.isPending = true)
      (hp : w.runtime.previousState.phase = .signedIn account) :
      w.admitted = some account.profile.did := by
    refine hI.previous account hp (hg hpending ?_)
    simp [AuthState.isSignedIn, hp]
  cases hp : w.runtime.state.phase with
  | starting | authorizing | error =>
    rw [hp] at ha
    exact hback (by simp [AuthState.isPending, hp]) ha
  | _ =>
    rw [hp] at ha
    exact hI.admitted account ha

theorem Inv.restore (hI : Inv w) (stored : List String) : Inv (w.step (.authRestore stored)) := by
  cases stored with
  | nil => exact hI.attempt rfl (fun _ => rfl) hI.previous
  | cons did rest => exact (hI.attempt rfl (fun _ => rfl) hI.previous).handles _ _ _

theorem Inv.refresh (hI : Inv w) : Inv (w.step .authRefresh) := by
  simp only [World.step, Auth.step, authRefresh]
  split
  · rename_i account hp
    refine hI.await (fun _ _ h => nomatch h) fun did hdid => ?_
    cases hdid
    exact ⟨hI.admitted account hp, hI.closed (by simp [AuthState.isSignedIn, hp])⟩
  · exact hI

theorem Inv.logout (hI : Inv w) (stored : List String) : Inv (w.step (.authLogout stored)) := by
  have hleave : Inv { w with
      runtime := { w.runtime with
        generation := w.runtime.generation + 1, state := signedOut, previousState := signedOut }
      live := none
      admitted := none } := hI.leave (fun _ h => nomatch h) fun _ h => nomatch h
  cases stored with
  | nil => exact hleave.handles _ _ _
  | cons did rest => exact hleave.await (fun _ _ h => nomatch h) fun _ h => nomatch h

theorem Inv.action (hI : Inv w) (actor : Option String) (action : String) :
    Inv (w.step (.stationAction actor action)) := by
  simp only [World.step, Auth.step, stationAction]
  split
  · split
    · exact hI
    · exact hI.await (fun _ _ h => nomatch h) fun _ h => nomatch h
  · exact hI

theorem inv_step (hI : Inv w) {e : Event} (hg : w.Guarded e) : Inv (w.step e) := by
  cases e with
  | authStart signup argument => exact hI.start signup argument
  | authCallback url attempt =>
    simp only [World.step, Auth.step, authCallback]
    cases hurl : isCallback url with
    | false =>
      rw [Bool.or_false, if_neg Bool.false_ne_true]
      exact hI
    | true =>
      rw [Bool.or_true, if_pos rfl]
      exact hI.callback (hg hurl).1 (hg hurl).2
  | authCancel => exact hI.cancel hg
  | authRestore stored => exact hI.restore stored
  | authRefresh => exact hI.refresh
  | authLogout stored => exact hI.logout stored
  | stationAction actor action => exact hI.action actor action
  | authorizationUrl ticket answer =>
    exact hI.resume ticket fun op hop => hI.authorizationUrl hop answer
  | finalized ticket answer => exact hI.resume ticket fun op hop => hI.finalized hop answer
  | session ticket answer => exact hI.resume ticket fun op hop => hI.session hop answer
  | settled ticket =>
    simp only [World.step, Auth.step, Runtime.resume]
    cases hget : w.runtime.ops.get ticket with
    | none => exact hI
    | some op => exact hI.settled ((Table.get_eq_some _ _ _).1 hget).1

end Steps

/-! ### Earlier generations -/

section Earlier

variable {s : Runtime} {op : Op}

theorem authorizationUrl_state (answer : Except Failure String) :
    (authorizationUrl s op answer).state = s.state := by
  unfold authorizationUrl
  split
  · rfl
  · rfl

theorem finalized_state (answer : Except Failure Session) :
    (finalized s op answer).state = s.state := by
  unfold finalized
  split
  · split
    · rfl
    · split
      · rfl
      · rfl
  · rfl

/-- Apart from a station action, `getSession` is followed by a check of the generation. -/
theorem session_state (hgen : op.gen ≠ s.generation) {answer : Except Failure (Option String)}
    (haction : ∀ message, answer = .error (.tokenRefresh message) → op.isAction = false) :
    (session s op answer).state = s.state := by
  unfold session
  split
  · split
    · rfl
    · rfl
    · rfl
  · rfl
  · rw [if_neg hgen]
    rfl
  · rename_i did hwork
    split
    · have hfalse := haction _ rfl
      simp [Op.isAction, hwork] at hfalse
    · rfl
  · split
    · rfl
    · rfl
  · rfl

theorem settled_state (hgen : op.gen ≠ s.generation) : (settled s op).state = s.state := by
  unfold settled
  split
  · rw [if_neg (Ne.symm hgen)]
    rfl
  · rfl

end Earlier

theorem resume_of_get {s : Runtime} {ticket : ℕ} {op : Op} (hget : s.ops.get ticket = some op)
    (k : Op → Runtime) : s.resume ticket k = k op := by
  unfold Runtime.resume
  rw [hget]

theorem undisturbed_of_guarded {w : World} {e : Event} (hg : w.Guarded e) : w.Undisturbed e := by
  intro ticket op hticket hget hgen
  cases e with
  | authorizationUrl t answer =>
    obtain rfl : t = ticket := Option.some.inj hticket
    exact (congrArg Runtime.state (resume_of_get hget _)).trans (authorizationUrl_state answer)
  | finalized t answer =>
    obtain rfl : t = ticket := Option.some.inj hticket
    exact (congrArg Runtime.state (resume_of_get hget _)).trans (finalized_state answer)
  | session t answer =>
    obtain rfl : t = ticket := Option.some.inj hticket
    refine (congrArg Runtime.state (resume_of_get hget _)).trans (session_state hgen ?_)
    rintro message rfl
    have hall : (w.runtime.ops.get t).all _ = true := hg
    rw [hget] at hall
    simpa [hgen] using hall
  | settled t =>
    obtain rfl : t = ticket := Option.some.inj hticket
    have hstate : (World.step w (.settled t)).runtime = w.runtime.resume t (settled w.runtime) := by
      simp only [World.step]
      split
      · rfl
      · rfl
    rw [hstate, resume_of_get hget]
    exact settled_state hgen
  | _ => cases hticket

/-- What the generations are for. -/
def World.Correct (w : World) (e : Event) : Prop := (w.step e).Admitted ∧ w.Undisturbed e

/-- Along guarded commands and answers, whoever is signed in was let in by a callback or a restore
of the live attempt, and nothing of an earlier generation changes the state. -/
theorem correct_of_guarded (savedHandle : Option String) (es : List Event)
    (hg : AllSteps World.step World.Guarded (World.init savedHandle) es) :
    AllSteps World.step World.Correct (World.init savedHandle) es :=
  allSteps_of_invariant (G := World.Guarded) (fun _ _ hI hg => inv_step hI hg)
    (fun _ _ hI hg => ⟨(inv_step hI hg).admitted, undisturbed_of_guarded hg⟩)
    (inv_init savedHandle) hg

/-- A callback for which the exchange ends after the cancel, and a revoked session. -/
theorem correct_cancelled : AllSteps World.step World.Correct (World.init none)
    [.authRestore ["did:plc:a"], .session 0 (.ok none), .settled 0,
      .authStart false "b.test", .authorizationUrl 1 (.ok "https://provider.test/authorize"),
      .settled 1, .authCallback (some ⟨"https://atradio.fm", "/oauth/callback"⟩) 1, .authCancel,
      .finalized 2 (.ok ⟨"did:plc:b", none⟩), .settled 2, .stationAction none "favorite",
      .session 3 (.error (.tokenRefresh "revoked"))] :=
  correct_of_guarded none _ (by decide)

def afterCancel : List Event :=
  [.authStart false "a.test", .authorizationUrl 0 (.ok "https://provider.test/authorize"),
    .settled 0, .authCancel, .authCallback (some ⟨"https://atradio.fm", "/oauth/callback"⟩) 0,
    .finalized 1 (.ok ⟨"did:plc:a", none⟩), .settled 1]

def afterSwitch : List Event :=
  [.authRestore ["did:plc:a"], .session 0 (.ok none), .settled 0,
    .stationAction none "listFavorites", .authStart false "b.test",
    .session 1 (.error (.tokenRefresh "revoked"))]

/-- The callback of a cancelled sign-in signs in, and a station action from before a sign-in ends
it when the session of the action is found revoked. -/
theorem cancelled_signs_in :
    ¬ AllSteps World.step World.Correct (World.init none) afterCancel ∧
      ¬ AllSteps World.step World.Correct (World.init none) afterSwitch := by
  constructor
  · intro h
    have hlast := h.2.2.2.2.2.2.1.1 _ rfl
    cases hlast
  · intro h
    have hlast := h.2.2.2.2.2.1.2 1 _ rfl rfl (by decide)
    cases hlast

end Atradio.App.Auth
