import Atradio.Jetstream.Mirror

/-! # Commits that run to their end

When no statement fails, a commit of the schemas is processed to the end of its handler. -/

namespace Atradio.Jetstream
open Atradio.Lib

variable (parseDate : String → Option ℤ)

/-- A commit in one of the four collections; what it creates or updates is of its schema,
with a date that parses. -/
def Valid (evt : JetstreamEvent) : Prop := (changeOf parseDate evt).isSome

instance : DecidablePred (Valid parseDate) :=
  fun evt => inferInstanceAs (Decidable ((changeOf parseDate evt).isSome = true))

def Calm (c : Choice) : Prop := c.fail = false

section Runs

variable {X : Type} {f : World → X}

theorem runs_perform_of {a : Act} (h : ∀ w mem, f { w with mem := mem } = f w) :
    (perform a).Runs machine Calm f := by
  refine runs_perform fun c w _ => ?_
  cases a <;> exact h _ _

theorem runs_await_of {q : Req}
    (h : ∀ profile w, f { w with db := (Db.serve profile q w.db).2 } = f w) :
    (await q).Runs machine Calm f := by
  refine runs_await fun c w hc => ?_
  unfold Calm at hc
  simp only [machine, World.serve, hc, Bool.false_and, Bool.false_eq_true, if_false]
  exact ⟨rfl, h c.profile w⟩

/-- What does not depend on the profiles, nor on the variables of the process. -/
def Aside (f : World → X) : Prop :=
  ∀ w users mem, f { db := { w.db with users := users }, mem := mem } = f w

theorem perform_runs (hf : Aside f) (a : Act) : (perform a).Runs machine Calm f :=
  runs_perform_of fun w mem => hf w w.db.users mem

theorem ensureUser_runs (hf : Aside f) (did : String) : (ensureUser did).Runs machine Calm f := by
  have hstay : ∀ {q : Req}, (∀ profile db, ∃ users, (Db.serve profile q db).2 = { db with users }) →
      (await q).Runs machine Calm f := by
    intro q hq
    refine runs_await_of fun profile w => ?_
    obtain ⟨users, hu⟩ := hq profile w.db
    rw [hu]
    exact hf w users w.mem
  unfold ensureUser
  refine (perform_runs hf _).bind fun enriched => ?_
  split
  · exact runs_pure _
  · refine (hstay fun _ db => ⟨db.users, rfl⟩).bind fun cached => (perform_runs hf _).bind fun now => ?_
    split
    · exact perform_runs hf _
    · refine (hstay fun _ db => ⟨db.users, rfl⟩).bind fun profile => ?_
      cases profile with
      | none => exact (perform_runs hf _).bind fun now => hstay fun _ db => ⟨_, rfl⟩
      | some profile =>
        exact (perform_runs hf _).bind fun _ => (perform_runs hf _).bind fun now =>
          hstay fun _ db => ⟨_, rfl⟩

theorem getActorInfo_runs (did : String) : (getActorInfo did).Runs machine Calm f := by
  unfold getActorInfo
  exact (runs_await_of fun _ _ => rfl).bind fun _ => runs_pure _

theorem publish_runs (hf : Aside f) (did : RepoDid) (c : Commit) (stationId : String)
    (event : ActorInfo → LiveEvent) :
    (if c.operation = .create then do
      let actor ← getActorInfo did.did
      perform (.publishLive stationId (event actor))
    else Pure.pure () : Task).Runs machine Calm f := by
  split
  · exact (getActorInfo_runs did.did).bind fun actor => perform_runs hf _
  · exact runs_pure _

theorem index_runs {rest : ℕ → ℤ → Task} (hf : Aside f) (did : String)
    {s : String} {t : ℤ} (hs : parseDate s = some t) {Q : Option Unit → World → Prop} {w : World}
    (hrest : ∀ now w', f w' = f w → (rest now t).wp machine Calm Q w') :
    (ensureUser did >>= fun _ => perform .now >>= fun now =>
      date parseDate s >>= rest now : Task).wp machine Calm Q w := by
  refine (ensureUser_runs hf did).wp_bind fun _ w' hw' => ?_
  refine (perform_runs hf _).wp_bind fun now w'' hw'' => ?_
  unfold date
  rw [hs]
  exact hrest now w'' (hw''.trans hw')

end Runs

theorem aside_unit : Aside fun _ => () := fun _ _ _ => rfl

/-- The program runs to its end without an exception. -/
abbrev Completes (p : Task) : Prop := p.Runs machine Calm fun _ => ()

theorem completes_await (q : Req) : (await q).Runs machine Calm fun _ => () :=
  runs_await_of fun _ _ => rfl

theorem fanout_completes (author uri : String) (station : StationInfo) (text : String)
    (facets : Option (List Mention)) (createdAt : ℤ) :
    Completes (fanoutCommentNotifications author uri station text facets createdAt) := by
  have howner : (stationOwner station.stationId).Runs machine Calm fun _ => () := by
    unfold stationOwner
    split
    · exact completes_await _
    · exact runs_pure _
  unfold fanoutCommentNotifications
  refine (completes_await _).bind fun _ => howner.bind fun owner => ?_
  dsimp only
  split
  · exact runs_pure _
  · exact (perform_runs aside_unit _).bind fun now => completes_await _

theorem processDelete_completes (collection uri : String) :
    Completes (processDelete collection uri) := by
  unfold processDelete
  repeat' split
  all_goals first | exact completes_await _ | exact runs_pure _ |
    exact (completes_await _).bind fun _ => completes_await _

/-- An indexer whose record has a date that parses. -/
theorem dated_completes {did s : String} {row : ℤ → Row} {rest : ℕ → ℤ → Task}
    (h : ((parseDate s).map row).isSome) (hrest : ∀ now t, Completes (rest now t)) :
    Completes (ensureUser did >>= fun _ => perform .now >>= fun now =>
      date parseDate s >>= rest now) := by
  rw [Option.isSome_map] at h
  obtain ⟨t, ht⟩ := Option.isSome_iff_exists.1 h
  exact fun w => index_runs parseDate aside_unit did ht fun now w' _ => hrest now t w'

theorem indexFavorite_completes {did : RepoDid} {c : Commit} {uri : String}
    (h : (favoriteOf parseDate did c uri).isSome) : Completes (indexFavorite parseDate did c uri) := by
  unfold favoriteOf at h
  unfold indexFavorite
  cases hr : c.record.bind favoriteRecordSchema with
  | none =>
    rw [hr] at h
    cases h
  | some r =>
    rw [hr] at h
    exact dated_completes parseDate h fun _ _ => completes_await _

theorem indexStation_completes {did : RepoDid} {c : Commit} {uri : String}
    (h : (stationOf parseDate did c uri).isSome) : Completes (indexStation parseDate did c uri) := by
  unfold stationOf at h
  unfold indexStation
  cases hr : c.record.bind stationRecordSchema with
  | none =>
    rw [hr] at h
    cases h
  | some r =>
    rw [hr] at h
    exact dated_completes parseDate h fun _ _ => completes_await _

theorem indexComment_completes {did : RepoDid} {c : Commit} {uri : String}
    (h : (commentOf parseDate did c uri).isSome) : Completes (indexComment parseDate did c uri) := by
  unfold commentOf at h
  unfold indexComment
  cases hr : c.record.bind commentRecordSchema with
  | none =>
    rw [hr] at h
    cases h
  | some r =>
    rw [hr] at h
    refine dated_completes parseDate h fun now t => (completes_await _).bind fun _ => ?_
    have hf := fanout_completes did.did uri r.station r.text r.facets t
    exact Prog.Runs.bind hf fun _ => publish_runs aside_unit did c _ _

theorem indexReaction_completes {did : RepoDid} {c : Commit} {uri : String}
    (h : (reactionOf parseDate did c uri).isSome) :
    Completes (indexReaction parseDate did c uri) := by
  unfold reactionOf at h
  unfold indexReaction
  cases hr : c.record.bind reactionRecordSchema with
  | none =>
    rw [hr] at h
    cases h
  | some r =>
    rw [hr] at h
    refine dated_completes parseDate h fun now t => (completes_await _).bind fun _ => ?_
    exact publish_runs aside_unit did c _ _

theorem processCommit_completes {evt : JetstreamEvent} (h : Valid parseDate evt) :
    Completes (processCommit parseDate evt) := by
  unfold Valid changeOf at h
  unfold processCommit
  cases hc : evt.commit with
  | none =>
    rw [hc] at h
    cases h
  | some c =>
    rw [hc] at h
    dsimp only at h ⊢
    cases ht : tableOf c.collection with
    | none =>
      rw [ht] at h
      cases h
    | some table =>
      have hcoll := (tableOf_eq_some _ table).1 ht
      rw [ht] at h
      rw [hcoll, if_neg (not_not.2 (nsid_wanted table))]
      dsimp only at h ⊢
      by_cases hop : c.operation = .delete
      · rw [if_pos hop]
        exact processDelete_completes _ _
      · rw [if_neg hop, Option.isSome_map, hcoll] at h
        rw [if_neg hop]
        cases table with
        | favorites =>
          rw [if_pos (by decide)]
          exact indexFavorite_completes parseDate h
        | stations =>
          rw [if_neg (by decide), if_pos (by decide)]
          exact indexStation_completes parseDate h
        | comments =>
          rw [if_neg (by decide), if_neg (by decide), if_neg (by decide), if_pos (by decide)]
          exact indexComment_completes parseDate h
        | reactions =>
          rw [if_neg (by decide), if_neg (by decide), if_neg (by decide), if_neg (by decide),
            if_pos (by decide)]
          exact indexReaction_completes parseDate h

end Atradio.Jetstream
