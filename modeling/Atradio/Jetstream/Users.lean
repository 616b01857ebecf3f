import Atradio.Lib.Asks
import Atradio.Jetstream.Consumer

/-! # The profile cache

The rows of `users` are written by `ensureUser`, which every handler runs, and by the
backfill of missing handles. Neither writes over a handle with nothing. -/

namespace Atradio.Jetstream
open Atradio.Lib

/-! ### The backfill -/

/-- A profile of the batch lookup. -/
structure FoundProfile extends ProfileData where
  did : String

/-- `updateUser` sets the columns of the row with the DID of `row`. -/
inductive BackfillReq where
  | selectMissing (limit : ℕ)
  | getProfiles (actors : List String)
  | updateUser (row : UserRow)
  | sleep (ms : ℕ)

@[reducible] def BackfillReq.Ans : BackfillReq → Type
  | .selectMissing _ => List String
  | .getProfiles _ => List FoundProfile
  | _ => Unit

@[reducible] def healing : Sig := jetstream.extend BackfillReq BackfillReq.Ans

abbrev HealTask := Prog healing Unit

abbrev request (q : BackfillReq) : Prog healing q.Ans := @Prog.await healing (.inr q)

def healProfile (p : FoundProfile) : HealTask :=
  if p.handle = "" then .pure ()
  else do
    let now ← @Prog.perform healing .now
    request (.updateUser { did := p.did, handle := some p.handle, displayName := p.displayName,
                           avatarUrl := p.avatar, description := p.description, updatedAt := now })
    @Prog.perform healing (.enrich p.did)

def healProfiles : List FoundProfile → HealTask
  | [] => .pure ()
  | p :: profiles => do
    healProfile p
    healProfiles profiles

def healBatches : List (List String) → HealTask
  | [] => .pure ()
  | batch :: batches => do
    let profiles ← request (.getProfiles batch)
    healProfiles profiles
    request (.sleep 250)
    healBatches batches

/-- One-shot repair for rows whose handle is null. -/
def backfillMissingHandles : HealTask := do
  let dids ← request (.selectMissing 1000)
  healBatches (dids.toChunks 25)

/-! ### Its requests -/

structure HealChoice extends Choice where
  profiles : List FoundProfile := []

def UserRow.update (row old : UserRow) : UserRow :=
  if old.did = row.did then row.updated old else old

theorem UserRow.update_did (row old : UserRow) : (row.update old).did = old.did := by
  unfold UserRow.update
  split <;> rfl

def Db.updateUser (db : Db) (row : UserRow) : Db :=
  { db with users := db.users.mapRows row.update row.update_did }

/-- The batch lookup catches its own errors. -/
def World.heal (c : HealChoice) (q : BackfillReq) (w : World) : Option q.Ans × World :=
  match q with
  | .selectMissing limit =>
    if c.fail then (none, w)
    else (some (((w.db.users.rows.filter fun r => r.handle = none).take limit).map (·.did)), w)
  | .getProfiles _ => (some c.profiles, w)
  | .updateUser row => if c.fail then (none, w) else (some (), { w with db := w.db.updateUser row })
  | .sleep _ => (some (), w)

def healMachine : Machine healing HealChoice World :=
  machine.extend HealChoice.toChoice World.heal

/-! ### The process -/

/-- What writes to `users`: the jobs of the consumer, any call of `ensureUser`, the backfill. -/
inductive UserJob where
  | consumer (job : Job)
  | ensureUser (did : String)
  | backfill

def userMain (parseDate : String → Option ℤ) : UserJob → HealTask
  | .consumer job => (main parseDate job).lift
  | .ensureUser did => (ensureUser did).lift
  | .backfill => backfillMissingHandles.tryCatch (.pure ())

abbrev UserProcess := Pool healing UserJob World

abbrev UserProcess.step (parseDate : String → Option ℤ) (P : UserProcess)
    (e : Turn UserJob HealChoice) : UserProcess :=
  Pool.step healMachine (userMain parseDate) P e

/-- The handle that is cached for a DID. -/
def Db.handleOf (db : Db) (did : String) : Option String := (db.users.get did).bind (·.handle)

/-- Every profile that a lookup returns has a handle. -/
def HealChoice.Profiled (c : HealChoice) : Prop :=
  (∀ p ∈ c.profile, p.handle ≠ "") ∧ ∀ p ∈ c.profiles, p.handle ≠ ""

/-! ### What is asked -/

/-- Statements that set a handle set a good one. -/
def Refills : Req ⊕ BackfillReq → Prop
  | .inl (.upsertUser row) => goodHandle row.handle
  | .inr (.updateUser row) => goodHandle row.handle
  | _ => True

def Answered : ∀ q : Req ⊕ BackfillReq, healing.Ans q → Prop
  | .inl (.getProfile _), r => ∀ p, r = some p → p.handle ≠ ""
  | _, _ => True

theorem goodHandle_some {handle : String} : goodHandle (some handle) ↔ handle ≠ "" := by
  simp [goodHandle]

/-- The same of the consumer's own signature. -/
def Task.Asks {α : Type} (p : Prog jetstream α) : Prop :=
  p.Asks (fun q => Refills (.inl q)) fun q => Answered (.inl q)

theorem ensureUser_asks (did : String) : Task.Asks (ensureUser did) := by
  refine asks_bind (asks_perform _) fun enriched => ?_
  split
  · trivial
  · refine asks_bind (asks_await trivial) fun cached => asks_bind (asks_perform _) fun now => ?_
    split
    · exact asks_perform _
    · refine asks_await_bind trivial fun profile hprofile => ?_
      cases profile with
      | none => exact asks_bind (asks_perform _) fun now => asks_await trivial
      | some profile =>
        refine asks_bind (asks_perform _) fun _ => asks_bind (asks_perform _) fun now => ?_
        exact asks_await (goodHandle_some.2 (hprofile profile rfl))

theorem getActorInfo_asks (did : String) : Task.Asks (getActorInfo did) :=
  asks_bind (asks_await trivial) fun _ => trivial

theorem publish_asks (c : Commit) (did : RepoDid) (stationId : String)
    (event : ActorInfo → LiveEvent) :
    Task.Asks (if c.operation = .create then do
      let actor ← getActorInfo did.did
      perform (.publishLive stationId (event actor))
    else Pure.pure ()) := by
  split
  · exact asks_bind (getActorInfo_asks did.did) fun actor => asks_perform _
  · trivial

section Handlers

variable (parseDate : String → Option ℤ)

theorem dated_asks (did : String) (createdAt : String) {k : ℕ → ℤ → Task}
    (hk : ∀ now t, Task.Asks (k now t)) :
    Task.Asks (ensureUser did >>= fun _ => perform .now >>= fun now =>
      date parseDate createdAt >>= fun t => k now t) := by
  refine asks_bind (ensureUser_asks did) fun _ => asks_bind (asks_perform _) fun now => ?_
  unfold date
  split
  · exact hk now _
  · trivial

theorem fanout_asks (author uri : String) (station : StationInfo) (text : String)
    (facets : Option (List Mention)) (createdAt : ℤ) :
    Task.Asks (fanoutCommentNotifications author uri station text facets createdAt) := by
  refine asks_bind (asks_await trivial) fun _ => asks_bind ?_ fun owner => ?_
  · unfold stationOwner
    split
    · exact asks_await trivial
    · trivial
  · dsimp only
    split
    · trivial
    · exact asks_bind (asks_perform _) fun now => asks_await trivial

theorem indexFavorite_asks (did : RepoDid) (c : Commit) (uri : String) :
    Task.Asks (indexFavorite parseDate did c uri) := by
  unfold indexFavorite
  split
  · trivial
  · exact dated_asks parseDate _ _ fun now t => asks_await trivial

theorem indexStation_asks (did : RepoDid) (c : Commit) (uri : String) :
    Task.Asks (indexStation parseDate did c uri) := by
  unfold indexStation
  split
  · trivial
  · exact dated_asks parseDate _ _ fun now t => asks_await trivial

theorem indexPlay_asks (did : RepoDid) (c : Commit) : Task.Asks (indexPlay parseDate did c) := by
  unfold indexPlay
  split
  · trivial
  · exact dated_asks parseDate _ _ fun now t => asks_await trivial

theorem indexComment_asks (did : RepoDid) (c : Commit) (uri : String) :
    Task.Asks (indexComment parseDate did c uri) := by
  unfold indexComment
  split
  · trivial
  · refine dated_asks parseDate _ _ fun now t => asks_bind (asks_await trivial) fun _ => ?_
    exact asks_bind (fanout_asks _ _ _ _ _ _) fun _ => publish_asks c did _ _

theorem indexReaction_asks (did : RepoDid) (c : Commit) (uri : String) :
    Task.Asks (indexReaction parseDate did c uri) := by
  unfold indexReaction
  split
  · trivial
  · refine dated_asks parseDate _ _ fun now t => asks_bind (asks_await trivial) fun _ => ?_
    exact publish_asks c did _ _

theorem processDelete_asks (collection uri : String) :
    Task.Asks (processDelete collection uri) := by
  unfold processDelete
  split
  · exact asks_await trivial
  split
  · exact asks_await trivial
  split
  · exact asks_bind (asks_await trivial) fun _ => asks_await trivial
  split
  · exact asks_await trivial
  · trivial

theorem processCommit_asks (evt : JetstreamEvent) : Task.Asks (processCommit parseDate evt) := by
  unfold processCommit
  cases evt.commit with
  | none => trivial
  | some c =>
    dsimp only
    split
    · trivial
    split
    · exact processDelete_asks _ _
    split
    · exact indexFavorite_asks parseDate _ _ _
    split
    · exact indexStation_asks parseDate _ _ _
    split
    · exact indexPlay_asks parseDate _ _
    split
    · exact indexComment_asks parseDate _ _ _
    split
    · exact indexReaction_asks parseDate _ _ _
    · trivial

theorem forward_asks (evt : JetstreamEvent) : Task.Asks (forwardCommitToFirehose evt) := by
  unfold forwardCommitToFirehose
  cases evt.commit with
  | none => trivial
  | some c =>
    dsimp only
    split
    · trivial
    · refine asks_bind (asks_perform _) fun first => ?_
      split
      · refine asks_tryCatch ?_ trivial
        exact asks_bind (getActorInfo_asks _) fun actor => asks_perform _
      · trivial

theorem main_asks (job : Job) : Task.Asks (main parseDate job) := by
  cases job with
  | message host number evt =>
    refine asks_bind (asks_perform _) fun _ => ?_
    split
    · refine asks_bind (asks_tryCatch (processCommit_asks parseDate evt) (asks_perform _)) fun _ => ?_
      exact forward_asks evt
    · trivial
  | connect host => exact asks_bind (asks_perform _) fun cursor => asks_perform _
  | load =>
    refine asks_bind (asks_await trivial) fun row => ?_
    cases row with
    | none => trivial
    | some row =>
      dsimp only
      split
      · exact asks_perform _
      · trivial
  | tick =>
    refine asks_tryCatch (asks_bind (asks_perform _) fun cursor => ?_) trivial
    split
    · trivial
    · exact asks_bind (asks_perform _) fun now => asks_await trivial

end Handlers

theorem healProfile_asks (p : FoundProfile) : (healProfile p).Asks Refills Answered := by
  unfold healProfile
  split
  · trivial
  · rename_i hp
    refine asks_bind (asks_perform _) fun now => asks_bind (asks_await ?_) fun _ => asks_perform _
    exact goodHandle_some.2 hp

theorem healProfiles_asks (profiles : List FoundProfile) :
    (healProfiles profiles).Asks Refills Answered := by
  induction profiles with
  | nil => trivial
  | cons p profiles ih => exact asks_bind (healProfile_asks p) fun _ => ih

theorem healBatches_asks (batches : List (List String)) :
    (healBatches batches).Asks Refills Answered := by
  induction batches with
  | nil => trivial
  | cons batch batches ih =>
    refine asks_bind (asks_await trivial) fun profiles => ?_
    refine asks_bind (healProfiles_asks profiles) fun _ => ?_
    exact asks_bind (asks_await trivial) fun _ => ih

theorem userMain_asks (parseDate : String → Option ℤ) (job : UserJob) :
    (userMain parseDate job).Asks Refills Answered := by
  cases job with
  | consumer job => exact asks_lift (main_asks parseDate job)
  | ensureUser did => exact asks_lift (ensureUser_asks did)
  | backfill =>
    refine asks_tryCatch (asks_bind (asks_await trivial) fun dids => ?_) trivial
    exact healBatches_asks _

/-! ### What the handles become -/

/-- A handle that is there stays, and one that is not empty does not become so. -/
structure Upheld (handle handle' : Option String) : Prop where
  cached : handle.isSome → handle'.isSome
  good : goodHandle handle → goodHandle handle'

theorem Upheld.refl (handle : Option String) : Upheld handle handle := ⟨id, id⟩

theorem upheld_of_good {handle handle' : Option String} (h : goodHandle handle') :
    Upheld handle handle' := by
  refine ⟨fun _ => ?_, fun _ => h⟩
  cases handle' with
  | none => cases h
  | some handle' => rfl

def World.Upholds (w w' : World) : Prop := ∀ did, Upheld (w.db.handleOf did) (w'.db.handleOf did)

theorem upholds_of_users {w w' : World} (h : w'.db.users = w.db.users) : w.Upholds w' := by
  intro did
  unfold Db.handleOf
  rw [h]
  exact .refl _

theorem handleOf_insert (users : Table UserRow.did) (row : UserRow) (did : String) :
    Upheld ((users.get did).bind (·.handle)) (((users.insertNew row).get did).bind (·.handle)) := by
  rw [Table.get_insertNew]
  split
  · cases users.get did with
    | none => exact ⟨(fun h => by cases h), (fun h => by cases h)⟩
    | some old => exact .refl _
  · exact .refl _

theorem handleOf_upsert {users : Table UserRow.did} {row : UserRow} (hrow : goodHandle row.handle)
    (did : String) :
    Upheld ((users.get did).bind (·.handle))
      (((users.upsert row row.updated).get did).bind (·.handle)) := by
  unfold Table.upsert
  cases hold : users.get row.did with
  | none =>
    dsimp only
    rw [Table.get_put]
    split
    · exact upheld_of_good hrow
    · exact .refl _
  | some old =>
    dsimp only
    rw [Table.get_put]
    split
    · exact upheld_of_good hrow
    · exact .refl _

theorem handleOf_update {users : Table UserRow.did} {row : UserRow} (hrow : goodHandle row.handle)
    (did : String) :
    Upheld ((users.get did).bind (·.handle))
      (((users.mapRows row.update row.update_did).get did).bind (·.handle)) := by
  rw [Table.get_mapRows]
  cases users.get did with
  | none => exact .refl _
  | some old =>
    show Upheld old.handle (row.update old).handle
    unfold UserRow.update
    split
    · exact upheld_of_good hrow
    · exact .refl _

theorem serve_users {profile : Option ProfileData} {q : Req} (hq : Refills (.inl q)) (w : World) :
    w.Upholds { w with db := (Db.serve profile q w.db).2 } := by
  cases q with
  | insertUser row => exact handleOf_insert w.db.users row
  | upsertUser row => exact handleOf_upsert hq
  | delete table uri => cases table <;> exact upholds_of_users rfl
  | _ => exact upholds_of_users rfl

/-- The requests let no handle go, whatever the order in which they are served. -/
theorem healMachine_respects :
    Respects healMachine HealChoice.Profiled Refills Answered World.Upholds where
  refl _ _ := .refl _
  trans _ _ _ h h' did :=
    ⟨fun hs => (h' did).cached ((h did).cached hs), fun hs => (h' did).good ((h did).good hs)⟩
  act c a w _ := upholds_of_users (by cases a <;> rfl)
  serve := by
    intro c q w hc hq
    cases q with
    | inl q =>
      show w.Upholds (World.serve c.toChoice q w).2
      unfold World.serve
      split
      · exact upholds_of_users rfl
      · exact serve_users hq w
    | inr q =>
      show w.Upholds (World.heal c q w).2
      cases q with
      | selectMissing limit =>
        unfold World.heal
        dsimp only
        split <;> exact upholds_of_users rfl
      | updateUser row =>
        unfold World.heal
        dsimp only
        split
        · exact upholds_of_users rfl
        · exact handleOf_update hq
      | _ => exact upholds_of_users rfl
  answer := by
    intro c q w r hc hr
    cases q with
    | inl q =>
      cases q with
      | getProfile did =>
        have hserve : (World.serve c.toChoice (.getProfile did) w).1 = some c.profile := by
          unfold World.serve
          rw [if_neg (by simp [Req.canFail])]
          rfl
        obtain rfl := Option.some.inj (hserve.symm.trans hr)
        exact fun p hp => hc.1 p hp
      | _ => trivial
    | inr q => trivial

/-- In every interleaving, a handle that is cached stays cached, and stays a good one. -/
theorem handles_kept (parseDate : String → Option ℤ) (w : World)
    (es fs : List (Turn UserJob HealChoice)) (h : ∀ e ∈ es ++ fs, e.choice.Profiled) (did : String) :
    Upheld ((run (UserProcess.step parseDate) { state := w } es).state.db.handleOf did)
      ((run (UserProcess.step parseDate) { state := w } (es ++ fs)).state.db.handleOf did) := by
  obtain ⟨_, hasks⟩ := Pool.run_respects healMachine_respects (userMain_asks parseDate)
    (Pool.allAsk_init w) fun e he => h e (List.mem_append_left fs he)
  rw [run_append]
  obtain ⟨hkept, _⟩ := Pool.run_respects healMachine_respects (userMain_asks parseDate) hasks
    fun e he => h e (List.mem_append_right es he)
  exact hkept did

/-! ### Two lookups of one profile -/

/-- Two calls have both missed the cache; the first one's lookup succeeds. -/
def looked : List (Turn UserJob HealChoice) :=
  [.start (.ensureUser "did:plc:alice") {}, .start (.ensureUser "did:plc:alice") {},
    .answer 0 {}, .resume 0 {}, .answer 1 {}, .resume 1 {},
    .answer 0 { profile := some { handle := "alice.test", displayName := none, avatar := none,
                                  description := none } },
    .resume 0 {}, .answer 0 {}]

/-- The second one's lookup fails, and a backfill runs. -/
def lookedLate : List (Turn UserJob HealChoice) :=
  [.answer 1 {}, .resume 1 {}, .answer 1 {}, .start .backfill {}, .answer 2 {}]

theorem handle_raced :
    (run (UserProcess.step fun _ => none) { state := {} } looked).state.db.handleOf
        "did:plc:alice" = some "alice.test" ∧
      Upheld ((run (UserProcess.step fun _ => none) { state := {} } looked).state.db.handleOf
          "did:plc:alice")
        ((run (UserProcess.step fun _ => none) { state := {} }
          (looked ++ lookedLate)).state.db.handleOf "did:plc:alice") :=
  ⟨by decide +kernel,
    handles_kept (fun _ => none) {} looked lookedLate
      (by simp [looked, lookedLate, Turn.choice, HealChoice.Profiled]) "did:plc:alice"⟩

end Atradio.Jetstream
