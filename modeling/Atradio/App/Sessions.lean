import Atradio.App.SignIn

/-! # The stored sessions

`finalizeAuthorization` stores the session it returns, and `deleteStoredSession` is called after
awaits. The accounts in the store stand beside the runtime, so that a deletion can be held against
who is signed in. -/

namespace Atradio.App.Auth
open Atradio.Lib

def AuthState.did (state : AuthState) : Option String :=
  match state.phase with
  | .signedIn account => some account.profile.did
  | _ => none

/-- The command that `e` lets go on. -/
def Runtime.resumed (s : Runtime) (e : Event) : Option Op := e.ticket.bind s.ops.get

def Op.stores (op : Op) : Event → Option String
  | .finalized _ (.ok session) =>
    match op.work with
    | .task _ .finalizeAuthorization => some session.sub
    | _ => none
  | _ => none

/-- Whose session is deleted by a callback of an earlier generation or by the loop of a logout. -/
def Op.drops (op : Op) (s : Runtime) : Event → Option String
  | .finalized _ (.ok session) =>
    match op.work with
    | .task _ .finalizeAuthorization => if op.gen ≠ s.generation then some session.sub else none
    | _ => none
  | .session _ _ =>
    match op.work with
    | .logout did _ => some did
    | _ => none
  | _ => none

/-- Whose session is deleted because `getSession` has failed with a `TokenRefreshError`. -/
def Op.revokes (op : Op) (s : Runtime) : Event → Option String
  | .session _ (.error (.tokenRefresh _)) =>
    match op.work with
    | .task _ (.session did) => some did
    | .stationAction did => some did
    | .refresh did => if op.gen = s.generation then some did else none
    | _ => none
  | _ => none

/-- Whom the `then` of a task signs in. -/
def Op.enters (op : Op) (s : Runtime) : Event → Option String
  | .settled _ =>
    match op.work with
    | .task _ (.returned (.ok state)) => if s.generation = op.gen then state.did else none
    | _ => none
  | _ => none

/-- For whom a logout calls `signOut`. -/
def Op.leaves (op : Op) : Event → Option String
  | .session _ (.ok _) =>
    match op.work with
    | .logout did _ => some did
    | _ => none
  | _ => none

def Runtime.stores (s : Runtime) (e : Event) : Option String :=
  (s.resumed e).bind fun op => op.stores e

def Runtime.drops (s : Runtime) (e : Event) : Option String :=
  (s.resumed e).bind fun op => op.drops s e

def Runtime.revokes (s : Runtime) (e : Event) : Option String :=
  (s.resumed e).bind fun op => op.revokes s e

def Runtime.enters (s : Runtime) (e : Event) : Option String :=
  (s.resumed e).bind fun op => op.enters s e

def Runtime.leaves (s : Runtime) (e : Event) : Option String :=
  (s.resumed e).bind fun op => op.leaves e

/-- Ends by signing in `did`, unless what it awaits fails. -/
def Op.signsIn (op : Op) (did : String) : Bool :=
  match op.work with
  | .task _ (.session d) | .task _ (.staleSession d) => d = did
  | .task _ (.returned (.ok state)) => state.did = some did
  | _ => false

def Op.renews (op : Op) (did : String) : Bool :=
  match op.work with
  | .refresh d => d = did
  | _ => false

/-- The state is `did`'s, or may become so again without a sign-in. -/
def Runtime.Keeps (s : Runtime) (did : String) : Prop :=
  s.state.did = some did ∨ s.previousState.did = some did ∨
    ∃ op ∈ s.ops.rows, op.gen = s.generation ∧ op.renews did = true

/-- A task of this generation, other than the one that `e` lets go on, signs in `did`. -/
def Runtime.Awaits (s : Runtime) (e : Option ℕ) (did : String) : Prop :=
  ∃ op ∈ s.ops.rows, e ≠ some op.ticket ∧ op.gen = s.generation ∧ op.signsIn did = true

instance (s : Runtime) (did : String) : Decidable (s.Keeps did) :=
  inferInstanceAs (Decidable (_ ∨ _ ∨ _))

instance (s : Runtime) (e : Option ℕ) (did : String) : Decidable (s.Awaits e did) :=
  inferInstanceAs (Decidable (∃ op ∈ s.ops.rows, _))

/-! ### The store -/

structure Device where
  runtime : Runtime
  /-- The accounts of the sessions in the store of the OAuth library. -/
  store : List String
  /-- Whose session was deleted after a `TokenRefreshError`, until a task signs them in again. -/
  revoked : List String
  /-- For whom the `signOut` of a logout is under way. -/
  leaving : List String

inductive Input where
  | auth (event : Event)
  /-- `getSession` stores what it has refreshed. -/
  | refreshed (did : String)
  /-- `signOut` deletes the session when it ends. -/
  | signedOut (did : String)

def Device.step (d : Device) : Input → Device
  | .auth e =>
    { runtime := Auth.step d.runtime e
      store := ((d.runtime.stores e).toList ++ d.store).filter fun did =>
        d.runtime.drops e ≠ some did && d.runtime.revokes e ≠ some did
      revoked := (d.runtime.revokes e).toList ++
        d.revoked.filter fun did => d.runtime.enters e ≠ some did
      leaving := (d.runtime.leaves e).toList ++ d.leaving }
  | .refreshed did => { d with store := did :: d.store }
  | .signedOut did =>
    if did ∈ d.leaving then
      { d with store := d.store.filter (· ≠ did), leaving := d.leaving.erase did }
    else d

def Device.init (savedHandle : Option String) (store : List String) : Device where
  runtime := .init savedHandle
  store := store
  revoked := []
  leaving := []

/-- Who is signed in has a session in the store, or it was found revoked since. -/
def Device.Stored (d : Device) : Prop :=
  ∀ account, d.runtime.state.phase = .signedIn account → account.profile.did ∉ d.revoked →
    account.profile.did ∈ d.store

def Device.Lists (d : Device) (stored : List String) : Prop :=
  (∀ did ∈ stored, did ∈ d.store) ∧ ∀ did ∈ d.store, did ∈ stored

instance (d : Device) (stored : List String) : Decidable (d.Lists stored) :=
  inferInstanceAs (Decidable (_ ∧ _))

/-- `listStoredSessions` lists what the store holds. -/
def Device.Listed (d : Device) : Input → Prop
  | .auth (.authRestore stored) | .auth (.authLogout stored) => d.Lists stored
  | _ => True

instance (d : Device) : (i : Input) → Decidable (d.Listed i)
  | .auth (.authRestore stored) | .auth (.authLogout stored) =>
    inferInstanceAs (Decidable (d.Lists stored))
  | .auth (.authStart ..) | .auth (.authCallback ..) | .auth .authCancel | .auth .authRefresh
  | .auth (.stationAction ..) | .auth (.authorizationUrl ..) | .auth (.finalized ..)
  | .auth (.session ..) | .auth (.settled _) | .refreshed _ | .signedOut _ => isTrue trivial

/-- The session of `did` is in use. -/
def Device.InUse (d : Device) (did : String) : Prop :=
  did ∉ d.revoked ∧ d.runtime.Keeps did ∨ d.runtime.Awaits none did

instance (d : Device) (did : String) : Decidable (d.InUse did) :=
  inferInstanceAs (Decidable (_ ∧ _ ∨ _))

/-- A late callback, a logout and its `signOut` delete no session in use, and a revoked session is
not deleted while another task of the generation signs its account in. -/
def Device.Guarded (d : Device) : Input → Prop
  | .auth e => (∀ did ∈ d.runtime.drops e, ¬ d.InUse did) ∧
      ∀ did ∈ d.runtime.revokes e, ¬ d.runtime.Awaits e.ticket did
  | .refreshed _ => True
  | .signedOut did => did ∈ d.leaving → ¬ d.InUse did

instance (d : Device) : (i : Input) → Decidable (d.Guarded i)
  | .auth _ => inferInstanceAs (Decidable (_ ∧ _))
  | .refreshed _ => isTrue trivial
  | .signedOut _ => inferInstanceAs (Decidable (_ → _))

/-! ### What a step deletes, and who relies on the store after it -/

section Steps

variable {s : Runtime} {op : Op}

theorem resumed_mem {e : Event} (h : s.resumed e = some op) :
    op ∈ s.ops.rows ∧ e.ticket = some op.ticket := by
  obtain ⟨ticket, hticket, hget⟩ := Option.bind_eq_some_iff.1 h
  obtain ⟨hmem, hkey⟩ := (Table.get_eq_some _ _ _).1 hget
  exact ⟨hmem, by rw [hticket, hkey]⟩

/-- What a step does once the command it lets go on is known. -/
def Op.goes (op : Op) (s : Runtime) : Event → Runtime
  | .authorizationUrl _ answer => authorizationUrl s op answer
  | .finalized _ answer => finalized s op answer
  | .session _ answer => session s op answer
  | .settled _ => settled s op
  | _ => s

theorem step_of_resumed {e : Event} (h : s.resumed e = some op) : Auth.step s e = op.goes s e := by
  cases e with
  | authorizationUrl | finalized | session | settled => exact resume_of_get h _
  | _ => cases h

theorem step_of_ticket {e : Event} {ticket : ℕ} (hticket : e.ticket = some ticket)
    (h : s.resumed e = none) : Auth.step s e = s := by
  cases e with
  | authorizationUrl | finalized | session | settled =>
    have hget : s.ops.get _ = none := h
    simp only [Auth.step, Runtime.resume, hget]
  | _ => cases hticket

/-- The work that stands for `op` after `e` signs in whom `op` did or whom `e` has stored. -/
def Op.BecomesIn (op : Op) (s : Runtime) (e : Event) (work : Work) : Prop :=
  (∀ did, Op.renews { op with work } did = false) ∧
    ∀ did, Op.signsIn { op with work } did = true →
      op.signsIn did = true ∧ op.revokes s e = none ∨
        op.stores e = some did ∧ op.drops s e = none

theorem Op.BecomesIn.idle {e : Event} {work : Work}
    (hrenews : ∀ did, Op.renews { op with work } did = false)
    (hsigns : ∀ did, Op.signsIn { op with work } did = false) : op.BecomesIn s e work :=
  ⟨hrenews, fun did h => by cases (hsigns did).symm.trans h⟩

/-- What becomes of the runtime where `e` lets `op` go on. `deleteStoredSession` is called for the
accounts that are dropped or revoked and no others; only the `then` of a task and a refresh assign a
signed-in state. -/
structure Op.Went (op : Op) (s : Runtime) (e : Event) (s' : Runtime) : Prop where
  deleted : s'.deleted = (op.drops s e).toList ++ (op.revokes s e).toList ++ s.deleted
  generation : s'.generation = s.generation
  previousState : s'.previousState = s.previousState
  ops : s'.ops = s.ops ∧ op.revokes s e = none ∨ s'.ops = (s.done op).ops ∨
    ∃ work, s'.ops = (s.goOn op work).ops ∧ op.BecomesIn s e work
  did : ∀ did, s'.state.did = some did → s.state.did = some did ∨ op.enters s e = some did ∨
    op.gen = s.generation ∧ op.renews did = true

section Went

variable {e : Event}

theorem Op.Went.same (hdrops : op.drops s e = none) (hrevokes : op.revokes s e = none) :
    op.Went s e s where
  deleted := by rw [hdrops, hrevokes]; rfl
  generation := rfl
  previousState := rfl
  ops := .inl ⟨rfl, hrevokes⟩
  did _ h := .inl h

theorem Op.Went.goOn {deleted : List String} {work : Work} (savedHandle : Option String)
    (hdeleted : deleted = (op.drops s e).toList ++ (op.revokes s e).toList ++ s.deleted)
    (hbecomes : op.BecomesIn s e work) :
    op.Went s e ({ s with deleted, savedHandle }.goOn op work) where
  deleted := hdeleted
  generation := rfl
  previousState := rfl
  ops := .inr (.inr ⟨work, rfl, hbecomes⟩)
  did _ h := .inl h

theorem Op.Went.done {deleted : List String} {state : AuthState} (savedHandle : Option String)
    (hdeleted : deleted = (op.drops s e).toList ++ (op.revokes s e).toList ++ s.deleted)
    (hdid : ∀ did, state.did = some did → s.state.did = some did ∨ op.enters s e = some did ∨
      op.gen = s.generation ∧ op.renews did = true) :
    op.Went s e { s.done op with deleted, savedHandle, state } where
  deleted := hdeleted
  generation := rfl
  previousState := rfl
  ops := .inr (.inl rfl)
  did := hdid

end Went

theorem finalized_went (s : Runtime) (op : Op) (t : ℕ) (answer : Except Failure Session) :
    op.Went s (.finalized t answer) (finalized s op answer) := by
  obtain ⟨ticket, gen, work⟩ := op
  rcases work with ⟨attempt, _ | _ | did | did | next⟩ | did | did | ⟨did, rest⟩
  case task.finalizeAuthorization =>
    cases answer with
    | error e => exact .goOn _ rfl (.idle (fun _ => rfl) fun _ => rfl)
    | ok session =>
      simp only [finalized]
      split
      · rename_i hgen
        refine .goOn _ ?_ (.idle (fun _ => rfl) fun _ => rfl)
        simp only [Op.drops, if_pos hgen]
        rfl
      · rename_i hgen
        have hdrops : Op.drops ⟨ticket, gen, .task attempt .finalizeAuthorization⟩ s
            (.finalized t (.ok session)) = none := if_neg hgen
        refine .goOn _ ?_ ⟨fun _ => rfl, fun did h => .inr ⟨?_, hdrops⟩⟩
        · rw [hdrops]
          rfl
        · exact congrArg some (Option.some.inj (of_decide_eq_true h))
  all_goals cases answer <;> exact .same rfl rfl

theorem session_went (s : Runtime) (op : Op) (t : ℕ) (answer : Except Failure (Option String)) :
    op.Went s (.session t answer) (session s op answer) := by
  obtain ⟨ticket, gen, work⟩ := op
  rcases work with ⟨attempt, _ | _ | d | d | next⟩ | d | d | ⟨d, rest⟩
  case task.session =>
    rcases answer with (message | message) | scope
    · exact .goOn _ rfl (.idle (fun _ => rfl) fun _ => rfl)
    · exact .goOn _ rfl ⟨fun _ => rfl, fun did h => .inl ⟨h, rfl⟩⟩
    · refine .goOn _ rfl ⟨fun _ => rfl, fun did h => .inl ⟨?_, rfl⟩⟩
      exact decide_eq_true (Option.some.inj (of_decide_eq_true h))
  case task.staleSession =>
    rcases answer with (message | message) | scope
    · exact .goOn _ rfl (.idle (fun _ => rfl) fun _ => rfl)
    · exact .goOn _ rfl (.idle (fun _ => rfl) fun _ => rfl)
    · refine .goOn _ rfl ⟨fun _ => rfl, fun did h => .inl ⟨?_, rfl⟩⟩
      exact decide_eq_true (Option.some.inj (of_decide_eq_true h))
  case refresh =>
    simp only [Auth.session]
    split
    · rename_i hgen
      rcases answer with (message | message) | scope
      · refine .done _ ?_ fun _ h => by cases h
        simp only [Op.drops, Op.revokes, if_pos hgen]
        rfl
      · exact .done _ rfl fun _ h => .inl h
      · exact .done _ rfl fun _ h => .inr (.inr ⟨hgen, decide_eq_true (Option.some.inj h)⟩)
    · rename_i hgen
      refine .done _ ?_ fun _ h => .inl h
      rcases answer with (message | message) | scope
      · simp only [Op.drops, Op.revokes, if_neg hgen]
        rfl
      · rfl
      · rfl
  case stationAction =>
    rcases answer with (message | message) | scope
    · exact .done _ rfl fun _ h => by cases h
    · exact .done _ rfl fun _ h => .inl h
    · exact .done _ rfl fun _ h => .inl h
  case logout =>
    cases rest with
    | nil =>
      refine .done _ ?_ fun _ h => .inl h
      rcases answer with (message | message) | scope <;> rfl
    | cons next rest =>
      refine .goOn _ ?_ (.idle (fun _ => rfl) fun _ => rfl)
      rcases answer with (message | message) | scope <;> rfl
  all_goals
    rcases answer with (message | message) | scope <;> exact .same rfl rfl

theorem settled_went (s : Runtime) (op : Op) (t : ℕ) : op.Went s (.settled t) (settled s op) := by
  obtain ⟨ticket, gen, work⟩ := op
  rcases work with ⟨attempt, _ | _ | did | did | next⟩ | did | did | ⟨did, rest⟩
  case task.returned =>
    simp only [settled]
    split
    · rename_i hgen
      cases next with
      | error e => exact .done _ rfl fun _ h => by cases h
      | ok state => exact .done _ rfl fun _ h => .inr (.inl ((if_pos hgen).trans h))
    · exact .done _ rfl fun _ h => .inl h
  all_goals exact .same rfl rfl

theorem goes_went (s : Runtime) (op : Op) (e : Event) : op.Went s e (op.goes s e) := by
  cases e with
  | authorizationUrl t answer =>
    obtain ⟨ticket, gen, work⟩ := op
    rcases work with ⟨attempt, _ | _ | did | did | next⟩ | did | did | ⟨did, rest⟩
    case task.authorizationUrl =>
      refine .goOn _ rfl (.idle (fun _ => rfl) fun did => ?_)
      cases answer <;> rfl
    all_goals exact .same rfl rfl
  | finalized t answer => exact finalized_went s op t answer
  | session t answer => exact session_went s op t answer
  | settled t => exact settled_went s op t
  | _ => exact .same rfl rfl

theorem step_deleted (s : Runtime) (e : Event) : (Auth.step s e).deleted =
    (s.drops e).toList ++ (s.revokes e).toList ++ s.deleted := by
  simp only [Runtime.drops, Runtime.revokes]
  cases hop : s.resumed e with
  | some op =>
    rw [step_of_resumed hop]
    exact (goes_went s op e).deleted
  | none =>
    cases e with
    | authorizationUrl | finalized | session | settled =>
      rw [step_of_ticket rfl hop]
      rfl
    | authStart | authCancel => rfl
    | authCallback url attempt =>
      simp only [Auth.step, authCallback]
      split <;> rfl
    | authRestore stored => cases stored <;> rfl
    | authRefresh =>
      simp only [Auth.step, authRefresh]
      split <;> rfl
    | authLogout stored => cases stored <;> rfl
    | stationAction actor action =>
      simp only [Auth.step, stationAction]
      split
      · split <;> rfl
      · rfl

theorem awaits_of_enters {e : Event} {did : String} (h : s.enters e = some did) :
    s.Awaits none did := by
  obtain ⟨op, hop, henters⟩ := Option.bind_eq_some_iff.1 h
  obtain ⟨hmem, -⟩ := resumed_mem hop
  unfold Op.enters at henters
  split at henters
  · split at henters
    · rename_i hwork
      split at henters
      · rename_i hgen
        refine ⟨op, hmem, nofun, hgen.symm, ?_⟩
        simp only [Op.signsIn, hwork]
        exact decide_eq_true henters
      · cases henters
    · cases henters
  · cases henters

theorem revokes_of_stores {e : Event} {did : String} (h : s.stores e = some did) :
    s.revokes e = none := by
  obtain ⟨op, hop, hstores⟩ := Option.bind_eq_some_iff.1 h
  unfold Op.stores at hstores
  split at hstores
  · simp only [Runtime.revokes, hop, Option.bind_some, Op.revokes]
  · cases hstores

theorem mem_await_or {work : Work} {u : Op} (hu : u ∈ (s.await work).ops.rows) :
    u = ⟨s.started, s.generation, work⟩ ∨ u ∈ s.ops.rows :=
  ((Table.mem_put _ _ _).1 hu).imp_right And.left

/-- A command that renews nobody and signs nobody in is new to no account. -/
theorem await_idle {work : Work} {Q R : String → Prop}
    (hrenews : ∀ did, Op.renews ⟨s.started, s.generation, work⟩ did = false)
    (hsigns : ∀ did, Op.signsIn ⟨s.started, s.generation, work⟩ did = false) :
    ∀ u ∈ (s.await work).ops.rows, u ∈ s.ops.rows ∨ u.gen = s.generation ∧
      (∀ did, u.renews did = true → Q did) ∧ ∀ did, u.signsIn did = true → R did := by
  intro u hu
  rcases mem_await_or hu with rfl | hu
  · refine .inr ⟨rfl, fun did h => ?_, fun did h => ?_⟩
    · cases (hrenews did).symm.trans h
    · cases (hsigns did).symm.trans h
  · exact .inl hu

/-- No command is of a later generation. -/
def Runtime.Aged (s : Runtime) : Prop := ∀ op ∈ s.ops.rows, op.gen ≤ s.generation

/-- Whoever relies on a session did so before the step, or was signed in by it. -/
def Runtime.Follows (s s' : Runtime) (e : Event) : Prop :=
  s'.Aged ∧ (∀ did, s'.Keeps did → s.Keeps did ∨ s.enters e = some did) ∧
    ∀ did, s'.Awaits none did →
      s.Awaits none did ∧ (s.revokes e = some did → s.Awaits e.ticket did) ∨
        s.stores e = some did ∧ s.drops e = none ∨ ∃ rest, e = .authRestore (did :: rest)

theorem follows_goes (hs : s.Aged) {e : Event} (hop : s.resumed e = some op) :
    s.Follows (op.goes s e) e := by
  obtain ⟨hmem, hticket⟩ := resumed_mem hop
  obtain ⟨-, hgen, hprevious, hops, hdid⟩ := goes_went s op e
  -- every command after the step comes from one of the same generation
  have hfrom : ∀ u ∈ (op.goes s e).ops.rows, (u ∈ s.ops.rows ∧
      (op.revokes s e = none ∨ u.ticket ≠ op.ticket)) ∨
        ∃ work, u = { op with work } ∧ op.BecomesIn s e work := by
    intro u hu
    rcases hops with ⟨hops, hrevokes⟩ | hops | ⟨work, hops, hbecomes⟩
    · rw [hops] at hu
      exact .inl ⟨hu, .inl hrevokes⟩
    · rw [hops] at hu
      exact .inl ⟨(mem_done.1 hu).1, .inr (mem_done.1 hu).2⟩
    · rw [hops] at hu
      rcases mem_goOn.1 hu with rfl | ⟨hu, hne⟩
      · exact .inr ⟨work, rfl, hbecomes⟩
      · exact .inl ⟨hu, .inr hne⟩
  refine ⟨fun u hu => ?_, fun did h => ?_, fun did h => ?_⟩
  · rw [hgen]
    rcases hfrom u hu with ⟨hu, -⟩ | ⟨work, rfl, -⟩
    · exact hs u hu
    · exact hs op hmem
  · rcases h with h | h | ⟨u, hu, hugen, hrenews⟩
    · rcases hdid did h with h | h | ⟨hopgen, hrenews⟩
      · exact .inl (.inl h)
      · exact .inr (by simp only [Runtime.enters, hop, Option.bind_some, h])
      · exact .inl (.inr (.inr ⟨op, hmem, hopgen, hrenews⟩))
    · rw [hprevious] at h
      exact .inl (.inr (.inl h))
    · rcases hfrom u hu with ⟨hu, -⟩ | ⟨work, rfl, hbecomes⟩
      · exact .inl (.inr (.inr ⟨u, hu, hugen.trans hgen, hrenews⟩))
      · rw [hbecomes.1 did] at hrenews
        cases hrenews
  · obtain ⟨u, hu, -, hugen, hsigns⟩ := h
    have hrevokes : s.revokes e = op.revokes s e := by
      simp only [Runtime.revokes, hop, Option.bind_some]
    rcases hfrom u hu with ⟨hu, hother⟩ | ⟨work, rfl, hbecomes⟩
    · refine .inl ⟨⟨u, hu, nofun, hugen.trans hgen, hsigns⟩, fun hdid => ?_⟩
      rw [hrevokes] at hdid
      refine ⟨u, hu, ?_, hugen.trans hgen, hsigns⟩
      rw [hticket]
      rcases hother with hnone | hne
      · rw [hnone] at hdid
        cases hdid
      · exact fun h => hne (Option.some.inj h).symm
    · rcases hbecomes.2 did hsigns with ⟨hsigns, hnone⟩ | ⟨hstores, hdrops⟩
      · refine .inl ⟨⟨op, hmem, nofun, hugen.trans hgen, hsigns⟩, fun hdid => ?_⟩
        rw [hrevokes, hnone] at hdid
        cases hdid
      · refine .inr (.inl ⟨?_, ?_⟩)
        · simp only [Runtime.stores, hop, Option.bind_some, hstores]
        · simp only [Runtime.drops, hop, Option.bind_some, hdrops]

theorem follows_same (hs : s.Aged) {e : Event} (hop : s.resumed e = none) : s.Follows s e := by
  refine ⟨hs, fun did h => .inl h, fun did h => .inl ⟨h, fun hdid => ?_⟩⟩
  simp only [Runtime.revokes, hop, Option.bind_none] at hdid
  cases hdid

/-- What a command starts. -/
theorem follows_command (hs : s.Aged) {s' : Runtime} {e : Event} (he : e.ticket = none)
    (hgen : s.generation ≤ s'.generation)
    (hops : ∀ u ∈ s'.ops.rows, u ∈ s.ops.rows ∨ u.gen = s'.generation ∧
      (∀ did, u.renews did = true → s.state.did = some did) ∧
        ∀ did, u.signsIn did = true → ∃ rest, e = .authRestore (did :: rest))
    (hstate : ∀ did, s'.state.did = some did → s.state.did = some did ∨
      s.previousState.did = some did)
    (hprevious : ∀ did, s'.previousState.did = some did → s.state.did = some did ∨
      s.previousState.did = some did) : s.Follows s' e := by
  have hkeeps {did : String} (h : s.state.did = some did ∨ s.previousState.did = some did) :
      s.Keeps did := h.imp_right .inl
  have hold {u : Op} (hu : u ∈ s.ops.rows) (h : u.gen = s'.generation) : u.gen = s.generation :=
    Nat.le_antisymm (hs u hu) (h ▸ hgen)
  refine ⟨fun u hu => ?_, fun did h => .inl ?_, fun did h => ?_⟩
  · rcases hops u hu with hu | ⟨hugen, -⟩
    · exact Nat.le_trans (hs u hu) hgen
    · exact Nat.le_of_eq hugen
  · rcases h with h | h | ⟨u, hu, hugen, hrenews⟩
    · exact hkeeps (hstate did h)
    · exact hkeeps (hprevious did h)
    · rcases hops u hu with hu | ⟨-, hrefresh, -⟩
      · exact .inr (.inr ⟨u, hu, hold hu hugen, hrenews⟩)
      · exact hkeeps (.inl (hrefresh did hrenews))
  · obtain ⟨u, hu, -, hugen, hsigns⟩ := h
    rcases hops u hu with hu | ⟨-, -, hrestore⟩
    · refine .inl ⟨⟨u, hu, nofun, hold hu hugen, hsigns⟩, fun hdid => ?_⟩
      simp only [Runtime.revokes, Runtime.resumed, he, Option.bind_none] at hdid
      cases hdid
    · exact .inr (.inr (hrestore did hsigns))

theorem follows_start (hs : s.Aged) (signup : Bool) (argument : String) :
    s.Follows (authStart s signup argument) (.authStart signup argument) := by
  refine follows_command hs rfl (Nat.le_succ _) (await_idle (fun _ => rfl) fun _ => rfl)
    (fun _ h => nomatch h) fun did h => ?_
  simp only [authStart, Runtime.await] at h
  split at h
  · exact .inl h
  · cases h

theorem follows_callback (hs : s.Aged) (url : Option Url) (attempt : ℕ) :
    s.Follows (authCallback s url attempt) (.authCallback url attempt) := by
  unfold authCallback
  split
  · exact follows_command hs rfl (Nat.le_refl _) (await_idle (fun _ => rfl) fun _ => rfl)
      (fun _ h => nomatch h) fun _ h => .inr h
  · exact follows_same hs rfl

theorem follows_cancel (hs : s.Aged) : s.Follows (authCancel s) .authCancel := by
  refine follows_command hs rfl (Nat.le_succ _) (fun u hu => .inl hu) (fun did h => ?_)
    fun _ h => .inr h
  simp only [authCancel] at h
  split at h
  · exact .inr h
  · exact .inr h
  · exact .inr h
  · exact .inl h

theorem follows_restore (hs : s.Aged) (stored : List String) :
    s.Follows (authRestore s stored) (.authRestore stored) := by
  cases stored with
  | nil =>
    exact follows_command hs rfl (Nat.le_succ _) (await_idle (fun _ => rfl) fun _ => rfl)
      (fun _ h => nomatch h) fun _ h => .inr h
  | cons did rest =>
    refine follows_command hs rfl (Nat.le_succ _) (fun u hu => ?_) (fun _ h => nomatch h)
      fun _ h => .inr h
    rcases mem_await_or hu with rfl | hu
    · refine .inr ⟨rfl, fun other h => ?_, fun other h => ⟨rest, ?_⟩⟩
      · cases h
      · rw [of_decide_eq_true (p := did = other) h]
    · exact .inl hu

theorem follows_refresh (hs : s.Aged) : s.Follows (authRefresh s) .authRefresh := by
  unfold authRefresh
  split
  · rename_i account hphase
    refine follows_command hs rfl (Nat.le_refl _) (fun u hu => ?_) (fun _ h => .inl h)
      fun _ h => .inr h
    rcases mem_await_or hu with rfl | hu
    · refine .inr ⟨rfl, fun did h => ?_, fun did h => ?_⟩
      · rw [← of_decide_eq_true (p := account.profile.did = did) h]
        simp only [AuthState.did, hphase]
      · cases h
    · exact .inl hu
  · exact follows_same hs rfl

theorem follows_logout (hs : s.Aged) (stored : List String) :
    s.Follows (authLogout s stored) (.authLogout stored) := by
  cases stored with
  | nil =>
    exact follows_command hs rfl (Nat.le_succ _) (fun u hu => .inl hu) (fun _ h => nomatch h)
      fun _ h => nomatch h
  | cons did rest =>
    exact follows_command hs rfl (Nat.le_succ _) (await_idle (fun _ => rfl) fun _ => rfl)
      (fun _ h => nomatch h) fun _ h => nomatch h

theorem follows_action (hs : s.Aged) (actor : Option String) (action : String) :
    s.Follows (stationAction s actor action) (.stationAction actor action) := by
  unfold stationAction
  split
  · split
    · exact follows_same hs rfl
    · exact follows_command hs rfl (Nat.le_refl _) (await_idle (fun _ => rfl) fun _ => rfl)
        (fun _ h => .inl h) fun _ h => .inr h
  · exact follows_same hs rfl

theorem follows_step (hs : s.Aged) (e : Event) : s.Follows (Auth.step s e) e := by
  have hanswer {ticket : ℕ} (hticket : e.ticket = some ticket) :
      s.Follows (Auth.step s e) e := by
    cases hop : s.resumed e with
    | none =>
      rw [step_of_ticket hticket hop]
      exact follows_same hs hop
    | some op =>
      rw [step_of_resumed hop]
      exact follows_goes hs hop
  cases e with
  | authStart signup argument => exact follows_start hs signup argument
  | authCallback url attempt => exact follows_callback hs url attempt
  | authCancel => exact follows_cancel hs
  | authRestore stored => exact follows_restore hs stored
  | authRefresh => exact follows_refresh hs
  | authLogout stored => exact follows_logout hs stored
  | stationAction actor action => exact follows_action hs actor action
  | authorizationUrl | finalized | session | settled => exact hanswer rfl

end Steps

/-! ### Guarded runs -/

structure Device.Inv (d : Device) : Prop where
  aged : d.runtime.Aged
  kept : ∀ did, d.runtime.Keeps did → did ∈ d.store ∨ did ∈ d.revoked
  awaited : ∀ did, d.runtime.Awaits none did → did ∈ d.store

theorem Device.inv_init (savedHandle : Option String) (store : List String) :
    (Device.init savedHandle store).Inv where
  aged := fun _ hop => nomatch hop
  kept := by
    rintro did (h | h | ⟨op, hop, -⟩)
    · cases h
    · cases h
    · cases hop
  awaited := by
    rintro did ⟨op, hop, -⟩
    cases hop

section Guarded

variable {d : Device}

theorem mem_step_store {e : Event} {did : String} : did ∈ (d.step (.auth e)).store ↔
    (d.runtime.stores e = some did ∨ did ∈ d.store) ∧ d.runtime.drops e ≠ some did ∧
      d.runtime.revokes e ≠ some did := by
  simp only [Device.step, List.mem_filter, List.mem_append, Option.mem_toList, Bool.and_eq_true,
    decide_eq_true_eq, ne_eq]

theorem mem_step_revoked {e : Event} {did : String} : did ∈ (d.step (.auth e)).revoked ↔
    d.runtime.revokes e = some did ∨ did ∈ d.revoked ∧ d.runtime.enters e ≠ some did := by
  simp only [Device.step, List.mem_filter, List.mem_append, Option.mem_toList, decide_eq_true_eq,
    ne_eq]

theorem Device.Inv.auth (hI : d.Inv) {e : Event} (hl : d.Listed (.auth e))
    (hg : d.Guarded (.auth e)) : (d.step (.auth e)).Inv := by
  obtain ⟨haged, hkeeps, hawaits⟩ := follows_step hI.aged e
  refine ⟨haged, fun did h => ?_, fun did h => ?_⟩
  · rw [mem_step_store, mem_step_revoked]
    by_cases hrevokes : d.runtime.revokes e = some did
    · exact .inr (.inl hrevokes)
    by_cases henters : d.runtime.enters e = some did
    · -- signed in by a task, whose session no guarded step deletes
      have hawait := awaits_of_enters henters
      refine .inl ⟨.inr (hI.awaited did hawait), fun hdrops => ?_, hrevokes⟩
      exact hg.1 did hdrops (.inr hawait)
    have hkept := (hkeeps did h).resolve_right henters
    by_cases hrevoked : did ∈ d.revoked
    · exact .inr (.inr ⟨hrevoked, henters⟩)
    · refine .inl ⟨.inr ((hI.kept did hkept).resolve_right hrevoked), fun hdrops => ?_, hrevokes⟩
      exact hg.1 did hdrops (.inl ⟨hrevoked, hkept⟩)
  · rw [mem_step_store]
    rcases hawaits did h with ⟨hawait, hother⟩ | ⟨hstores, hdrops⟩ | ⟨rest, rfl⟩
    · exact ⟨.inr (hI.awaited did hawait), fun hdrops => hg.1 did hdrops (.inr hawait),
        fun hrevokes => hg.2 did hrevokes (hother hrevokes)⟩
    · rw [hdrops, revokes_of_stores hstores]
      exact ⟨.inl hstores, nofun, nofun⟩
    · exact ⟨.inr (hl.1 did (List.mem_cons_self ..)), nofun, nofun⟩

theorem Device.Inv.delete (hI : d.Inv) {did : String} (hg : ¬ d.InUse did)
    (leaving : List String) :
    Device.Inv { d with store := d.store.filter (· ≠ did), leaving } where
  aged := hI.aged
  kept := by
    intro other h
    by_cases hrevoked : other ∈ d.revoked
    · exact .inr hrevoked
    · refine .inl (List.mem_filter.2 ⟨(hI.kept other h).resolve_right hrevoked, ?_⟩)
      refine decide_eq_true fun heq => hg ?_
      exact .inl ⟨heq ▸ hrevoked, heq ▸ h⟩
  awaited := by
    intro other h
    refine List.mem_filter.2 ⟨hI.awaited other h, decide_eq_true fun heq => hg ?_⟩
    exact .inr (heq ▸ h)

theorem Device.inv_step (hI : d.Inv) {i : Input} (hl : d.Listed i) (hg : d.Guarded i) :
    (d.step i).Inv := by
  cases i with
  | auth e => exact hI.auth hl hg
  | refreshed did =>
    exact ⟨hI.aged, fun other h => (hI.kept other h).imp_left (List.mem_cons_of_mem _),
      fun other h => List.mem_cons_of_mem _ (hI.awaited other h)⟩
  | signedOut did =>
    simp only [Device.step]
    split
    · rename_i hleaving
      exact hI.delete (hg hleaving) _
    · exact hI

theorem Device.Inv.stored (hI : d.Inv) : d.Stored := by
  intro account hphase hrevoked
  refine (hI.kept account.profile.did (.inl ?_)).resolve_right hrevoked
  simp only [AuthState.did, hphase]

end Guarded

/-- Along guarded commands and answers, whoever is signed in has a session in the store, unless it
was found revoked since. -/
theorem stored_of_guarded (savedHandle : Option String) (store : List String) (is : List Input)
    (hg : AllSteps Device.step (fun d i => d.Listed i ∧ d.Guarded i)
      (Device.init savedHandle store) is) :
    (run Device.step (Device.init savedHandle store) is).Stored :=
  (run_invariant (I := Device.Inv) (fun _ _ hI hi => Device.inv_step hI hi.1 hi.2)
    (Device.inv_init savedHandle store) hg).stored

def reauthorization : List Event :=
  [.authRestore ["did:plc:a"], .session 0 (.ok none), .settled 0, .authStart false "a.test",
    .authorizationUrl 1 (.ok "https://provider.test/authorize"), .settled 1,
    .authCallback (some ⟨"https://atradio.fm", "/oauth/callback"⟩) 1, .authCancel]

def exchanged (did : String) : List Input :=
  (reauthorization ++ [Event.finalized 2 (.ok ⟨did, none⟩)]).map .auth

/-- The exchange ends after the cancel, with another account. -/
theorem stored_cancelled :
    (run Device.step (Device.init none ["did:plc:a"]) (exchanged "did:plc:b")).Stored :=
  stored_of_guarded none ["did:plc:a"] (exchanged "did:plc:b") (by decide)

/-- The cancel of a second authorization keeps the account signed in, and the end of its exchange
deletes the session. -/
theorem reauthorization_deletes :
    AllSteps Device.step Device.Listed (Device.init none ["did:plc:a"]) (exchanged "did:plc:a") ∧
      ¬ (run Device.step (Device.init none ["did:plc:a"]) (exchanged "did:plc:a")).Stored := by
  refine ⟨by decide, fun h => ?_⟩
  have hstored := h ⟨⟨"did:plc:a", "did:plc:a"⟩, false, false, false⟩ (by decide) (by decide)
  revert hstored
  decide

end Atradio.App.Auth
