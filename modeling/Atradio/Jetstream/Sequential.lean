import Atradio.Lib.Run
import Atradio.Jetstream.Completion

/-! # Commits one at a time

The abstract repositories hold the current version of each record. When commits are
processed one after the other, the rows are the image of the current versions, except for
reactions: a reaction keeps the row of the version it was created with. -/

namespace Atradio.Jetstream
open Atradio.Lib

/-! ### Uris -/

theorem split_slash {a b c d : List Char} (ha : '/' ∉ a) (hc : '/' ∉ c)
    (h : a ++ '/' :: b = c ++ '/' :: d) : a = c ∧ b = d := by
  induction a generalizing c with
  | nil =>
    cases c with
    | nil => exact ⟨rfl, (List.cons.inj h).2⟩
    | cons x c =>
      obtain ⟨rfl, _⟩ := List.cons.inj h
      exact (hc (List.mem_cons_self ..)).elim
  | cons x a ih =>
    cases c with
    | nil =>
      obtain ⟨rfl, _⟩ := List.cons.inj h
      exact (ha (List.mem_cons_self ..)).elim
    | cons y c =>
      obtain ⟨rfl, ht⟩ := List.cons.inj h
      obtain ⟨rfl, rfl⟩ := ih (fun hm => ha (List.mem_cons_of_mem _ hm))
        (fun hm => hc (List.mem_cons_of_mem _ hm)) ht
      exact ⟨rfl, rfl⟩

theorem atUri_inj {did did' : RepoDid} {collection rkey rkey' : String}
    (h : atUri did.did collection rkey = atUri did'.did collection rkey') :
    did = did' ∧ rkey = rkey' := by
  have hslash : "/".toList = ['/'] := by decide
  have hl := congrArg String.toList h
  simp only [atUri, String.toList_append, List.append_assoc, hslash, List.nil_append,
    List.cons_append, List.append_right_inj] at hl
  obtain ⟨hdid, hrest⟩ := split_slash did.noSlash did'.noSlash hl
  rw [List.append_right_inj] at hrest
  have hkey := String.toList_injective (List.cons.inj hrest).2
  have hrepo := String.toList_injective hdid
  refine ⟨?_, hkey⟩
  cases did
  cases did'
  simpa using hrepo

/-! ### Repositories -/

variable (parseDate : String → Option ℤ)

def commitOn (table : TableName) (did : RepoDid) (rkey : String) (evt : JetstreamEvent) :
    Option Commit :=
  evt.commit.filter fun c => evt.did.did = did.did ∧ c.collection = table.nsid ∧ c.rkey = rkey

/-- The commit that made the current version of a record. -/
def revise (table : TableName) (did : RepoDid) (rkey : String) (version : Option Commit)
    (evt : JetstreamEvent) : Option Commit :=
  match commitOn table did rkey evt with
  | some c => if c.operation = .delete then none else some c
  | none => version

/-- The commit that made the first version since the record was last deleted. -/
def originate (table : TableName) (did : RepoDid) (rkey : String) (version : Option Commit)
    (evt : JetstreamEvent) : Option Commit :=
  match commitOn table did rkey evt with
  | some c => if c.operation = .delete then none else version.or (some c)
  | none => version

def current (evts : List JetstreamEvent) (table : TableName) (did : RepoDid) (rkey : String) :
    Option Commit := evts.foldl (revise table did rkey) none

def original (evts : List JetstreamEvent) (table : TableName) (did : RepoDid) (rkey : String) :
    Option Commit := evts.foldl (originate table did rkey) none

def image (table : TableName) (did : RepoDid) (rkey : String) (version : Option Commit) :
    Option Row :=
  version.bind fun c => rowOf parseDate table did c (atUri did.did table.nsid rkey)

/-- The four tables are the image of the repositories' current contents. -/
def MirrorsRepos (evts : List JetstreamEvent) (db : Db) : Prop :=
  (∀ (table : TableName) (did : RepoDid) (rkey : String),
      db.row table (atUri did.did table.nsid rkey) =
        image parseDate table did rkey (current evts table did rkey)) ∧
    ∀ (table : TableName) (uri : String),
      (∀ (did : RepoDid) rkey, uri ≠ atUri did.did table.nsid rkey) → db.row table uri = none

/-- One commit, processed to completion. -/
def process (w : World) (e : JetstreamEvent × (ℕ → Choice)) : World :=
  ((processCommit parseDate e.1).eval machine e.2 0 w).2.2

/-! ### One commit -/

theorem process_row {evt : JetstreamEvent} (h : Valid parseDate evt) {ω : ℕ → Choice}
    (hω : ∀ n, (ω n).fail = false) (w : World) (table : TableName) (uri : String) :
    (process parseDate w (evt, ω)).db.row table uri =
      effectAt (table, uri) (changeOf parseDate evt) (w.db.row table uri) := by
  obtain ⟨tr, hpath, hend⟩ := (row_follows table uri).eval ω (processCommit parseDate evt) 0 w
  obtain ⟨a, ha⟩ := Option.isSome_iff_exists.1 ((processCommit_completes parseDate h).eval hω 0 w).1
  have hsel := (processCommit_yields parseDate evt).onReturn tr a (hpath a ha)
  have hfold : ∀ (tr : List (Entry jetstream)) (o : Option Row),
      tr.foldl (fun x e => entryEffect (table, uri) e x) o =
        (tr.filterMap mirrorSel).foldl (fun x ch => effectAt (table, uri) (some ch) x) o := by
    intro tr
    induction tr with
    | nil => exact fun _ => rfl
    | cons e tr ih =>
      intro o
      rw [List.foldl_cons, ih, List.filterMap_cons]
      cases e with
      | got q r =>
        simp only [mirrorSel, entryEffect]
        cases Req.change q <;> rfl
      | _ => rfl
  unfold process
  rw [hend, hfold, hsel]
  cases changeOf parseDate evt <;> rfl

/-! ### What the tables keep -/

/-- The version of a record whose row the table keeps. -/
def keep (table : TableName) (did : RepoDid) (rkey : String) (version : Option Commit)
    (evt : JetstreamEvent) : Option Commit :=
  if table = .reactions then originate table did rkey version evt
  else revise table did rkey version evt

def Mirrored (table : TableName) (did : RepoDid) (rkey : String) (version : Option Commit) : Prop :=
  ∀ c ∈ version, c.rkey = rkey ∧ (image parseDate table did rkey version).isSome

variable {parseDate} {table : TableName} {did : RepoDid} {rkey : String} {evt : JetstreamEvent}

theorem commitOn_eq_some {c : Commit} :
    commitOn table did rkey evt = some c ↔
      evt.commit = some c ∧ evt.did = did ∧ c.collection = table.nsid ∧ c.rkey = rkey := by
  have hdid : evt.did.did = did.did ↔ evt.did = did := by
    constructor
    · intro h
      cases hd : evt.did
      cases did
      simpa [hd] using h
    · intro h
      rw [h]
  simp [commitOn, Option.filter_eq_some_iff, hdid]

theorem effect_elsewhere (h : commitOn table did rkey evt = none) (o : Option Row) :
    effectAt (table, atUri did.did table.nsid rkey) (changeOf parseDate evt) o = o := by
  cases hch : changeOf parseDate evt with
  | none => rfl
  | some ch =>
    obtain ⟨⟨t, u⟩, change⟩ := ch
    refine if_neg fun hk => ?_
    obtain ⟨rfl, rfl⟩ := Prod.mk.inj hk
    obtain ⟨c, hc, ht, hu⟩ := changeOf_key parseDate hch
    rw [ht] at hu
    obtain ⟨hd, hr⟩ := atUri_inj hu
    rw [commitOn_eq_some.2 ⟨hc, hd.symm, ht, hr.symm⟩] at h
    cases h

theorem effect_deleted {c : Commit} (h : commitOn table did rkey evt = some c)
    (hop : c.operation = .delete) (o : Option Row) :
    effectAt (table, atUri did.did table.nsid rkey) (changeOf parseDate evt) o = none := by
  obtain ⟨hc, rfl, ht, rfl⟩ := commitOn_eq_some.1 h
  rw [changeOf_eq parseDate hc ht, if_pos hop]
  exact if_pos rfl

theorem effect_written {c : Commit} (h : commitOn table did rkey evt = some c)
    (hv : Valid parseDate evt) (hop : c.operation ≠ .delete) :
    ∃ r, image parseDate table did rkey (some c) = some r ∧ ∀ o,
      effectAt (table, atUri did.did table.nsid rkey) (changeOf parseDate evt) o =
        (changeTo table r).apply o := by
  obtain ⟨hc, rfl, ht, rfl⟩ := commitOn_eq_some.1 h
  unfold Valid at hv
  rw [changeOf_eq parseDate hc ht, if_neg hop, Option.isSome_map] at hv
  obtain ⟨r, hr⟩ := Option.isSome_iff_exists.1 hv
  refine ⟨r, hr, fun o => ?_⟩
  rw [changeOf_eq parseDate hc ht, if_neg hop, hr]
  exact if_pos rfl

/-- The columns that no conflict clause sets, with the table. -/
def Row.kept : Row → TableName × String × String × String
  | .favorite r => (.favorites, r.uri, r.did, r.rkey)
  | .station r => (.stations, r.uri, r.did, r.rkey)
  | .comment r => (.comments, r.uri, r.did, r.rkey)
  | .reaction r => (.reactions, r.uri, r.did, r.rkey)

theorem Row.over_of_kept {r old : Row} (h : r.kept = old.kept) : r.over old = r := by
  cases r with
  | reaction r => rfl
  | favorite r =>
    cases old with
    | favorite old =>
      cases r
      simp_all [Row.kept, Row.over, FavoriteRow.updated]
    | _ => rfl
  | station r =>
    cases old with
    | station old =>
      cases r
      simp_all [Row.kept, Row.over, StationRow.updated]
    | _ => rfl
  | comment r =>
    cases old with
    | comment old =>
      cases r
      simp_all [Row.kept, Row.over, CommentRow.updated]
    | _ => rfl

theorem rowOf_kept {c : Commit} {uri : String} {r : Row}
    (h : rowOf parseDate table did c uri = some r) : r.kept = (table, uri, did.did, c.rkey) := by
  cases table with
  | favorites =>
    simp only [rowOf, favoriteOf] at h
    split at h
    · cases h
    · obtain ⟨t, _, rfl⟩ := Option.map_eq_some_iff.1 h
      rfl
  | stations =>
    simp only [rowOf, stationOf] at h
    split at h
    · cases h
    · obtain ⟨t, _, rfl⟩ := Option.map_eq_some_iff.1 h
      rfl
  | comments =>
    simp only [rowOf, commentOf] at h
    split at h
    · cases h
    · obtain ⟨t, _, rfl⟩ := Option.map_eq_some_iff.1 h
      rfl
  | reactions =>
    simp only [rowOf, reactionOf] at h
    split at h
    · cases h
    · obtain ⟨t, _, rfl⟩ := Option.map_eq_some_iff.1 h
      rfl

theorem keep_step (hv : Valid parseDate evt) {version : Option Commit}
    (hm : Mirrored parseDate table did rkey version) :
    effectAt (table, atUri did.did table.nsid rkey) (changeOf parseDate evt)
        (image parseDate table did rkey version) =
      image parseDate table did rkey (keep table did rkey version evt) ∧
    Mirrored parseDate table did rkey (keep table did rkey version evt) := by
  cases hc : commitOn table did rkey evt with
  | none =>
    have hkeep : keep table did rkey version evt = version := by
      simp [keep, originate, revise, hc]
    rw [hkeep]
    exact ⟨effect_elsewhere hc _, hm⟩
  | some c =>
    by_cases hop : c.operation = .delete
    · have hkeep : keep table did rkey version evt = none := by
        simp [keep, originate, revise, hc, hop]
      rw [hkeep]
      exact ⟨effect_deleted hc hop _, fun _ h => by cases h⟩
    · obtain ⟨r, hr, heff⟩ := effect_written hc hv hop
      have hrkey := (commitOn_eq_some.1 hc).2.2.2
      have hnew : Mirrored parseDate table did rkey (some c) := by
        rintro _ ⟨⟩
        exact ⟨hrkey, by rw [hr]; rfl⟩
      rw [heff]
      cases version with
      | none =>
        have hkeep : keep table did rkey none evt = some c := by
          simp [keep, originate, revise, hc, hop]
        rw [hkeep, hr]
        refine ⟨?_, hnew⟩
        unfold changeTo
        split <;> rfl
      | some old =>
        obtain ⟨horkey, hosome⟩ := hm old rfl
        obtain ⟨ro, hro⟩ := Option.isSome_iff_exists.1 hosome
        by_cases htable : table = .reactions
        · subst htable
          have hkeep : keep .reactions did rkey (some old) evt = some old := by
            simp [keep, originate, hc, hop]
          rw [hkeep, hro]
          exact ⟨rfl, hm⟩
        · have hkeep : keep table did rkey (some old) evt = some c := by
            simp [keep, revise, hc, hop, htable]
          rw [hkeep, hr, hro]
          refine ⟨?_, hnew⟩
          have hkept : r.kept = ro.kept := by
            rw [rowOf_kept hr, rowOf_kept hro, hrkey, horkey]
          simp [changeTo, htable, Change.apply, Row.over_of_kept hkept]

theorem foldl_keep (evts : List JetstreamEvent) :
    evts.foldl (keep table did rkey) none =
      if table = .reactions then original evts table did rkey
      else current evts table did rkey := by
  unfold original current
  split
  · congr 1
    funext version evt
    exact if_pos ‹_›
  · congr 1
    funext version evt
    exact if_neg ‹_›

/-! ### Runs -/

/-- Commits of the schemas, whose statements the database does not fail. -/
def Served (parseDate : String → Option ℤ) (es : List (JetstreamEvent × (ℕ → Choice))) : Prop :=
  ∀ e ∈ es, Valid parseDate e.1 ∧ ∀ n, (e.2 n).fail = false

theorem run_row {es : List (JetstreamEvent × (ℕ → Choice))} (hes : Served parseDate es) {w : World}
    {version : Option Commit} (hm : Mirrored parseDate table did rkey version)
    (hrow : w.db.row table (atUri did.did table.nsid rkey) =
      image parseDate table did rkey version) :
    (run (process parseDate) w es).db.row table (atUri did.did table.nsid rkey) =
      image parseDate table did rkey ((es.map Prod.fst).foldl (keep table did rkey) version) := by
  induction es generalizing w version with
  | nil => exact hrow
  | cons e es ih =>
    obtain ⟨evt, ω⟩ := e
    obtain ⟨hv, hω⟩ := hes _ (List.mem_cons_self ..)
    obtain ⟨hstep, hm'⟩ := keep_step hv hm
    refine ih (fun e he => hes e (List.mem_cons_of_mem _ he)) hm' ?_
    rw [process_row parseDate hv hω, hrow]
    exact hstep

theorem run_no_row {es : List (JetstreamEvent × (ℕ → Choice))} (hes : Served parseDate es)
    {w : World} {uri : String} (huri : ∀ (did : RepoDid) rkey, uri ≠ atUri did.did table.nsid rkey)
    (hrow : w.db.row table uri = none) : (run (process parseDate) w es).db.row table uri = none := by
  induction es generalizing w with
  | nil => exact hrow
  | cons e es ih =>
    obtain ⟨evt, ω⟩ := e
    obtain ⟨hv, hω⟩ := hes _ (List.mem_cons_self ..)
    refine ih (fun e he => hes e (List.mem_cons_of_mem _ he)) ?_
    rw [process_row parseDate hv hω, hrow]
    cases hch : changeOf parseDate evt with
    | none => rfl
    | some ch =>
      obtain ⟨⟨t, u⟩, change⟩ := ch
      refine if_neg fun hk => ?_
      obtain ⟨rfl, rfl⟩ := Prod.mk.inj hk
      obtain ⟨c, _, ht, hu⟩ := changeOf_key parseDate hch
      exact huri evt.did c.rkey (ht ▸ hu)

/-- From empty tables, the tables mirror the repositories exactly when each reaction still
has the row of the version it was created with. -/
theorem mirrors_repos_iff (parseDate : String → Option ℤ)
    {es : List (JetstreamEvent × (ℕ → Choice))} (hes : Served parseDate es) {w : World}
    (hempty : ∀ table uri, w.db.row table uri = none) :
    MirrorsRepos parseDate (es.map Prod.fst) (run (process parseDate) w es).db ↔
      ∀ (did : RepoDid) (rkey : String),
        image parseDate .reactions did rkey (original (es.map Prod.fst) .reactions did rkey) =
          image parseDate .reactions did rkey (current (es.map Prod.fst) .reactions did rkey) := by
  have hrow : ∀ (table : TableName) (did : RepoDid) (rkey : String),
      (run (process parseDate) w es).db.row table (atUri did.did table.nsid rkey) =
        image parseDate table did rkey (if table = .reactions
          then original (es.map Prod.fst) table did rkey
          else current (es.map Prod.fst) table did rkey) := by
    intro table did rkey
    rw [← foldl_keep]
    exact run_row hes (fun _ h => by cases h) (hempty _ _)
  constructor
  · intro h did rkey
    rw [← h.1 .reactions did rkey, hrow, if_pos rfl]
  · intro h
    refine ⟨fun table did rkey => ?_, fun table uri huri => run_no_row hes huri (hempty _ _)⟩
    rw [hrow]
    by_cases ht : table = .reactions
    · subst ht
      rw [if_pos rfl]
      exact h did rkey
    · rw [if_neg ht]

/-! ### A reaction that is updated -/

/-- The only date the examples use. -/
def epochDate (s : String) : Option ℤ := if s = "1970-01-01T00:00:00Z" then some 0 else none

def reactionEvent (operation : Operation) (emoji : String) : JetstreamEvent :=
  { did := alice
    timeUs := 1
    kind := .commit
    commit := some
      { operation, collection := NSID.reaction, rkey := "3kreact", cid := some "bafy"
        record := some (.obj
          [("station", .obj [("stationId", .str "tunein:s1"), ("name", .str "One"),
              ("streamUrl", .str "http://one"), ("source", .str "tunein")]),
            ("emoji", .str emoji), ("createdAt", .str "1970-01-01T00:00:00Z")]) } }

def calm : ℕ → Choice := fun _ => {}

theorem reactionEvent_served (es : List (Operation × String))
    (h : ∀ e ∈ es, e.1 = .delete ∨ e.2 = "A" ∨ e.2 = "B") :
    Served epochDate (es.map fun e => (reactionEvent e.1 e.2, calm)) := by
  rintro _ he
  obtain ⟨⟨op, emoji⟩, hmem, rfl⟩ := List.mem_map.1 he
  refine ⟨?_, fun _ => rfl⟩
  rcases h _ hmem with h | h | h
  · dsimp only at h
    subst h
    rfl
  · dsimp only at h
    subst h
    cases op <;> decide
  · dsimp only at h
    subst h
    cases op <;> decide

theorem reaction_update_lost :
    ¬ ∀ es, Served epochDate es →
      MirrorsRepos epochDate (es.map Prod.fst) (run (process epochDate) {} es).db := by
  intro h
  have hm := h [(reactionEvent .create "A", calm), (reactionEvent .update "B", calm)]
    (reactionEvent_served [(.create, "A"), (.update, "B")] (by decide))
  have hrow := hm.1 .reactions ⟨"did:plc:alice", by decide⟩ "3kreact"
  exact absurd hrow (by decide)

theorem mirrors_repos_created :
    MirrorsRepos epochDate ([(reactionEvent .create "A", calm)].map Prod.fst)
      (run (process epochDate) {} [(reactionEvent .create "A", calm)]).db :=
  (mirrors_repos_iff epochDate (reactionEvent_served [(.create, "A")] (by decide))
    (fun table _ => by cases table <;> rfl)).2 fun _ _ => rfl

end Atradio.Jetstream
