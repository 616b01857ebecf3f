import Atradio.Jetstream.Consumer

/-! # The mirror of the repositories

The four tables map uris to rows. Seen up to `indexedAt`, a statement on them changes one
row (`Change`), and a commit stands for at most one change (`changeOf`). -/

namespace Atradio.Jetstream
open Atradio.Lib

/-! ### Rows up to `indexedAt` -/

inductive Row where
  | favorite (r : FavoriteRow)
  | station (r : StationRow)
  | comment (r : CommentRow)
  | reaction (r : ReactionRow)
  deriving DecidableEq

def FavoriteRow.erase (r : FavoriteRow) : Row := .favorite { r with indexedAt := 0 }
def StationRow.erase (r : StationRow) : Row := .station { r with indexedAt := 0 }
def CommentRow.erase (r : CommentRow) : Row := .comment { r with indexedAt := 0 }
def ReactionRow.erase (r : ReactionRow) : Row := .reaction { r with indexedAt := 0 }

def Db.row (db : Db) (table : TableName) (uri : String) : Option Row :=
  match table with
  | .favorites => (db.favorites.get uri).map (·.erase)
  | .stations => (db.stations.get uri).map (·.erase)
  | .comments => (db.comments.get uri).map (·.erase)
  | .reactions => (db.reactions.get uri).map (·.erase)

/-- What an upsert keeps of the row it meets: the columns its conflict clause does not set. -/
def Row.over : Row → Row → Row
  | .favorite r, .favorite old => .favorite (r.updated old)
  | .station r, .station old => .station (r.updated old)
  | .comment r, .comment old => .comment (r.updated old)
  | r, _ => r

/-- `put` is an upsert, `putNew` an insert that does nothing on conflict. -/
inductive Change where
  | put (r : Row)
  | putNew (r : Row)
  | remove
  deriving DecidableEq

def Change.apply : Change → Option Row → Option Row
  | .put r, none => some r
  | .put r, some old => some (r.over old)
  | .putNew r, none => some r
  | .putNew _, some old => some old
  | .remove, _ => none

/-- The change a statement makes to the mirror, and where. -/
def Req.change : Req → Option ((TableName × String) × Change)
  | .upsertFavorite values => some ((.favorites, values.uri), .put values.erase)
  | .upsertStation values => some ((.stations, values.uri), .put values.erase)
  | .upsertComment values => some ((.comments, values.uri), .put values.erase)
  | .insertReaction row => some ((.reactions, row.uri), .putNew row.erase)
  | .delete table uri => some ((table, uri), .remove)
  | _ => none

def effectAt (k : TableName × String) (ch : Option ((TableName × String) × Change))
    (o : Option Row) : Option Row :=
  match ch with
  | some (k', c) => if k' = k then c.apply o else o
  | none => o

theorem upsert_row {K V : Type} [DecidableEq K] {key : V → K} (t : Table key) (v : V)
    (updated : V → V) (erase : V → Row) (hkey : ∀ u, key (updated u) = key u)
    (hover : ∀ u, erase (updated u) = (erase v).over (erase u)) (k : K) :
    ((t.upsert v updated).get k).map erase =
      if key v = k then (Change.put (erase v)).apply ((t.get k).map erase)
      else (t.get k).map erase := by
  rw [Table.get_upsert _ _ hkey]
  by_cases hk : key v = k
  · rw [if_pos hk.symm, if_pos hk]
    cases t.get k with
    | none => rfl
    | some u => exact congrArg some (hover u)
  · rw [if_neg (Ne.symm hk), if_neg hk]

theorem delete_row {K V : Type} [DecidableEq K] {key : V → K} (t : Table key) (erase : V → Row)
    (k k' : K) :
    ((t.delete k').get k).map erase =
      if k' = k then Change.remove.apply ((t.get k).map erase) else (t.get k).map erase := by
  rw [Table.get_delete]
  by_cases hk : k = k'
  · rw [if_pos hk, if_pos hk.symm]
    rfl
  · rw [if_neg hk, if_neg (Ne.symm hk)]

theorem serve_row (profile : Option ProfileData) (q : Req) (db : Db) (table : TableName)
    (uri : String) :
    (Db.serve profile q db).2.row table uri =
      effectAt (table, uri) q.change (db.row table uri) := by
  cases q with
  | upsertFavorite values =>
    cases table with
    | favorites =>
      simp only [effectAt, Req.change, Prod.mk.injEq, true_and]
      exact upsert_row _ values values.updated FavoriteRow.erase (fun _ => rfl) (fun _ => rfl) uri
    | _ => simp [effectAt, Req.change, Db.serve, Db.row]
  | upsertStation values =>
    cases table with
    | stations =>
      simp only [effectAt, Req.change, Prod.mk.injEq, true_and]
      exact upsert_row _ values values.updated StationRow.erase (fun _ => rfl) (fun _ => rfl) uri
    | _ => simp [effectAt, Req.change, Db.serve, Db.row]
  | upsertComment values =>
    cases table with
    | comments =>
      simp only [effectAt, Req.change, Prod.mk.injEq, true_and]
      exact upsert_row _ values values.updated CommentRow.erase (fun _ => rfl) (fun _ => rfl) uri
    | _ => simp [effectAt, Req.change, Db.serve, Db.row]
  | insertReaction row =>
    cases table with
    | reactions =>
      simp only [effectAt, Req.change, Prod.mk.injEq, true_and, Db.serve, Db.row]
      rw [Table.get_insertNew]
      by_cases hk : row.uri = uri
      · rw [if_pos hk.symm, if_pos hk]
        cases db.reactions.get uri <;> rfl
      · rw [if_neg (Ne.symm hk), if_neg hk]
    | _ => simp [effectAt, Req.change, Db.serve, Db.row]
  | delete table' uri' =>
    by_cases ht : table' = table
    · subst ht
      simp only [effectAt, Req.change, Prod.mk.injEq, true_and]
      cases table' <;> exact delete_row _ _ _ _
    · have hne : (table', uri') ≠ (table, uri) := fun h => ht (Prod.mk.inj h).1
      simp only [effectAt, Req.change, if_neg hne]
      cases table' <;> cases table <;> first | rfl | exact (ht rfl).elim
  | _ => rfl

/-- The mirror follows the answered statements. -/
def entryEffect (k : TableName × String) (e : Entry jetstream) (o : Option Row) : Option Row :=
  match e with
  | .got q _ => effectAt k (Req.change q) o
  | _ => o

theorem row_follows (table : TableName) (uri : String) :
    Follows machine (fun w => w.db.row table uri) (entryEffect (table, uri)) := by
  refine ⟨fun c a w => ?_, fun c q w => ?_⟩
  · cases a <;> rfl
  · simp only [machine, World.serve]
    split
    · rfl
    · exact serve_row c.profile q w.db table uri

/-! ### What a commit stands for -/

variable (parseDate : String → Option ℤ)

def favoriteOf (did : RepoDid) (c : Commit) (uri : String) : Option Row :=
  match c.record.bind favoriteRecordSchema with
  | none => none
  | some r => (parseDate r.createdAt).map fun createdAt => .favorite
      { uri, did := did.did, rkey := c.rkey, stationId := r.station.stationId, station := r.station,
        subjectUri := r.subject.map (·.uri), createdAt, indexedAt := 0 }

def stationOf (did : RepoDid) (c : Commit) (uri : String) : Option Row :=
  match c.record.bind stationRecordSchema with
  | none => none
  | some r => (parseDate r.createdAt).map fun createdAt => .station
      { uri, did := did.did, rkey := c.rkey, name := r.name, streamUrl := r.streamUrl,
        description := r.description, genre := r.genre, homepage := r.homepage, logoUrl := r.logo,
        tags := r.tags, createdAt, indexedAt := 0 }

def commentOf (did : RepoDid) (c : Commit) (uri : String) : Option Row :=
  match c.record.bind commentRecordSchema with
  | none => none
  | some r => (parseDate r.createdAt).map fun createdAt => .comment
      { uri, did := did.did, rkey := c.rkey, stationId := r.station.stationId, station := r.station,
        text := r.text, facets := r.facets, gif := r.gif, createdAt, indexedAt := 0 }

def reactionOf (did : RepoDid) (c : Commit) (uri : String) : Option Row :=
  match c.record.bind reactionRecordSchema with
  | none => none
  | some r => (parseDate r.createdAt).map fun createdAt => .reaction
      { uri, did := did.did, rkey := c.rkey, stationId := r.station.stationId, emoji := r.emoji,
        createdAt, indexedAt := 0 }

/-- The row that mirrors a record; a record that is not of its schema, or whose date does
not parse, has none. -/
def rowOf (table : TableName) (did : RepoDid) (c : Commit) (uri : String) : Option Row :=
  match table with
  | .favorites => favoriteOf parseDate did c uri
  | .stations => stationOf parseDate did c uri
  | .comments => commentOf parseDate did c uri
  | .reactions => reactionOf parseDate did c uri

def tableOf (collection : String) : Option TableName :=
  if collection = NSID.favorite then some .favorites
  else if collection = NSID.station then some .stations
  else if collection = NSID.comment then some .comments
  else if collection = NSID.reaction then some .reactions
  else none

def TableName.nsid : TableName → String
  | .favorites => NSID.favorite
  | .stations => NSID.station
  | .comments => NSID.comment
  | .reactions => NSID.reaction

theorem tableOf_eq_some (collection : String) (table : TableName) :
    tableOf collection = some table ↔ collection = table.nsid := by
  constructor
  · intro h
    unfold tableOf at h
    repeat' split at h
    all_goals cases h
    all_goals
      rename_i hc
      exact hc
  · rintro rfl
    cases table <;> decide

theorem tableOf_none {collection : String} (h : tableOf collection = none) :
    collection ≠ NSID.favorite ∧ collection ≠ NSID.station ∧ collection ≠ NSID.comment ∧
      collection ≠ NSID.reaction := by
  have hne : ∀ table : TableName, collection ≠ table.nsid := by
    intro table hc
    rw [(tableOf_eq_some collection table).2 hc] at h
    cases h
  exact ⟨hne .favorites, hne .stations, hne .comments, hne .reactions⟩

/-- A reaction is inserted, the other records are upserted. -/
def changeTo (table : TableName) (r : Row) : Change :=
  if table = .reactions then .putNew r else .put r

/-- The change the handler of an event makes to the mirror, and where. -/
def changeOf (evt : JetstreamEvent) : Option ((TableName × String) × Change) :=
  match evt.commit with
  | none => none
  | some c =>
    match tableOf c.collection with
    | none => none
    | some table =>
      let uri := atUri evt.did.did c.collection c.rkey
      if c.operation = .delete then some ((table, uri), .remove)
      else (rowOf parseDate table evt.did c uri).map fun r => ((table, uri), changeTo table r)

theorem changeOf_eq {evt : JetstreamEvent} {c : Commit} {table : TableName}
    (hc : evt.commit = some c) (ht : c.collection = table.nsid) :
    changeOf parseDate evt =
      if c.operation = .delete then some ((table, atUri evt.did.did table.nsid c.rkey), .remove)
      else (rowOf parseDate table evt.did c (atUri evt.did.did table.nsid c.rkey)).map fun r =>
        ((table, atUri evt.did.did table.nsid c.rkey), changeTo table r) := by
  unfold changeOf
  rw [hc]
  dsimp only
  rw [(tableOf_eq_some _ table).2 ht, ht]

theorem changeOf_key {evt : JetstreamEvent} {table : TableName} {uri : String} {ch : Change}
    (h : changeOf parseDate evt = some ((table, uri), ch)) :
    ∃ c, evt.commit = some c ∧ c.collection = table.nsid ∧
      uri = atUri evt.did.did c.collection c.rkey := by
  unfold changeOf at h
  cases hc : evt.commit with
  | none =>
    rw [hc] at h
    cases h
  | some c =>
    rw [hc] at h
    dsimp only at h
    cases ht : tableOf c.collection with
    | none =>
      rw [ht] at h
      cases h
    | some t =>
      rw [ht] at h
      have hkey : (t, atUri evt.did.did c.collection c.rkey) = (table, uri) := by
        dsimp only at h
        split at h
        · exact (Prod.mk.inj (Option.some.inj h)).1
        · obtain ⟨r, _, hr⟩ := Option.map_eq_some_iff.1 h
          exact (Prod.mk.inj hr).1
      obtain ⟨rfl, rfl⟩ := Prod.mk.inj hkey
      exact ⟨c, rfl, (tableOf_eq_some _ t).1 ht, rfl⟩

/-! ### Silent parts of the handlers -/

def Act.inner : Act → Bool
  | .now | .isEnriched _ | .enrich _ => true
  | _ => false

section Narrow

variable {γ : Type}

/-- A selection that passes over the user lookup, and looks at statements that change the
mirror at most. -/
structure Narrow (sel : Entry jetstream → Option γ) : Prop where
  did : ∀ (a : Act) r, a.inner = true → sel (.did a r) = none
  got : ∀ (q : Req) r, q.change = none → sel (.got q r) = none
  failed : ∀ q : Req, sel (.failed q) = none

variable {sel : Entry jetstream → Option γ}

theorem Narrow.perform (hn : Narrow sel) {a : Act} (ha : a.inner = true) :
    Yields sel (perform a) [] :=
  yields_perform fun r => by rw [hn.did a r ha]; rfl

theorem Narrow.await (hn : Narrow sel) {q : Req} (hq : q.change = none) :
    Yields sel (await q) [] :=
  yields_await (fun r => by rw [hn.got q r hq]; rfl) (hn.failed q)

theorem Narrow.ensureUser (hn : Narrow sel) (did : String) : Yields sel (ensureUser did) [] := by
  have hnow : Yields sel (Jetstream.perform .now) [] := hn.perform rfl
  have henrich : Yields sel (Jetstream.perform (.enrich did)) [] :=
    hn.perform rfl
  unfold Jetstream.ensureUser
  refine (hn.perform rfl).after fun enriched => ?_
  split
  · exact yields_pure _
  · refine (hn.await rfl).after fun cached => hnow.after fun now => ?_
    split
    · exact henrich
    · refine (hn.await rfl).after fun profile => ?_
      cases profile with
      | none => exact hnow.after fun now => hn.await rfl
      | some profile => exact henrich.after fun _ => hnow.after fun now => hn.await rfl

theorem Narrow.getActorInfo (hn : Narrow sel) (did : String) :
    Yields sel (getActorInfo did) [] := by
  unfold Jetstream.getActorInfo
  exact (hn.await rfl).after fun u => yields_pure _

theorem Narrow.fanout (hn : Narrow sel) (author uri : String) (station : StationInfo)
    (text : String) (facets : Option (List Mention)) (createdAt : ℤ) :
    Yields sel (fanoutCommentNotifications author uri station text facets createdAt) [] := by
  have howner : Yields sel (stationOwner station.stationId) [] := by
    unfold stationOwner
    split
    · exact hn.await rfl
    · exact yields_pure _
  unfold fanoutCommentNotifications
  refine (hn.await rfl).after fun _ => howner.after fun owner => ?_
  dsimp only
  split
  · exact yields_pure _
  · exact (hn.perform rfl).after fun now => hn.await rfl

theorem Narrow.date (s : String) : Yields sel (date parseDate s) [] := by
  unfold Jetstream.date
  split
  · exact yields_pure _
  · exact yields_throw _

theorem Narrow.forward (hn : Narrow sel)
    (hclaim : ∀ key r, sel (.did (.claimFirstDelivery key) r) = none)
    (henqueue : ∀ c actor r, sel (.did (.enqueueEmbed c actor) r) = none) (evt : JetstreamEvent) :
    Yields sel (forwardCommitToFirehose evt) [] := by
  unfold forwardCommitToFirehose
  split
  · exact yields_pure _
  · split
    · exact yields_pure _
    · rename_i c _ _
      refine (yields_perform fun r => by rw [hclaim]; rfl).after fun first => ?_
      split
      · have hembed : ∀ actor, Yields sel (Jetstream.perform (.enqueueEmbed c actor)) [] :=
          fun actor => yields_perform fun r => by rw [henqueue]; rfl
        exact ((hn.getActorInfo evt.did.did).after hembed).tryCatch_silent (yields_pure _)
      · exact yields_pure _

end Narrow

/-! ### Handlers and their changes -/

/-- Whether the handler of an event calls `publishLive`: it creates a comment or a reaction
of its schema. -/
def publishes (evt : JetstreamEvent) : Bool :=
  evt.commit.any fun c => decide (c.operation = .create) &&
    match tableOf c.collection with
    | some .comments => (commentOf parseDate evt.did c (atUri evt.did.did c.collection c.rkey)).isSome
    | some .reactions =>
      (reactionOf parseDate evt.did c (atUri evt.did.did c.collection c.rkey)).isSome
    | _ => false

section Watches

variable {γ : Type}

/-- A selection of the changes of the mirror, through `g`, and of the live events, as `l`. -/
structure Watches (sel : Entry jetstream → Option γ)
    (g : (TableName × String) × Change → Option γ) (l : Option γ) : Prop where
  live : ∀ stationId event r, sel (.did (.publishLive stationId event) r) = l
  inner : ∀ (a : Act) r, a.inner = true → sel (.did a r) = none
  got : ∀ (q : Req) r, sel (.got q r) = q.change.bind g
  failed : ∀ q : Req, sel (.failed q) = none

variable {sel : Entry jetstream → Option γ} {g : (TableName × String) × Change → Option γ}
  {l : Option γ}

theorem Watches.narrow (hw : Watches sel g l) : Narrow sel :=
  ⟨hw.inner, fun q r hq => by rw [hw.got, hq]; rfl, hw.failed⟩

theorem Watches.await (hw : Watches sel g l) (q : Req) :
    Yields sel (await q) (q.change.bind g).toList :=
  yields_await (fun r => by rw [hw.got]) (hw.failed q)

theorem Watches.publish (hw : Watches sel g l) (did : RepoDid) (c : Commit) (stationId : String)
    (event : ActorInfo → LiveEvent) :
    Yields sel (if c.operation = .create then do
      let actor ← getActorInfo did.did
      perform (.publishLive stationId (event actor))
    else Pure.pure ()) (if c.operation = .create then l.toList else []) := by
  split
  · exact (hw.narrow.getActorInfo did.did).after fun actor => yields_perform fun r => by rw [hw.live]
  · exact yields_pure _

/-- An indexer up to its statement: a date that cannot be read throws. -/
theorem Watches.dated (hw : Watches sel g l) (did : String) {createdAt : String}
    {k : Act.Res .now → ℤ → Task} {ys : List γ}
    (hk : ∀ now t, parseDate createdAt = some t → Yields sel (k now t) ys) :
    Yields sel (ensureUser did >>= fun _ => perform .now >>= fun now =>
      date parseDate createdAt >>= fun t => k now t) ys := by
  refine (hw.narrow.ensureUser did).after fun _ => (hw.narrow.perform rfl).after fun now => ?_
  unfold date
  cases hdate : parseDate createdAt with
  | none => exact yields_throw _
  | some t => exact hk now t hdate

theorem indexFavorite_yields (hw : Watches sel g l) (did : RepoDid) (c : Commit) (uri : String) :
    Yields sel (indexFavorite parseDate did c uri)
      ((favoriteOf parseDate did c uri).bind fun r => g ((.favorites, uri), .put r)).toList := by
  unfold indexFavorite favoriteOf
  cases c.record.bind favoriteRecordSchema with
  | none => exact yields_pure _
  | some r =>
    refine hw.dated parseDate did.did fun now createdAt hdate => ?_
    simp only [Option.bind_some, hdate, Option.map_some]
    exact hw.await _

theorem indexStation_yields (hw : Watches sel g l) (did : RepoDid) (c : Commit) (uri : String) :
    Yields sel (indexStation parseDate did c uri)
      ((stationOf parseDate did c uri).bind fun r => g ((.stations, uri), .put r)).toList := by
  unfold indexStation stationOf
  cases c.record.bind stationRecordSchema with
  | none => exact yields_pure _
  | some r =>
    refine hw.dated parseDate did.did fun now createdAt hdate => ?_
    simp only [Option.bind_some, hdate, Option.map_some]
    exact hw.await _

theorem indexPlay_yields (hw : Watches sel g l) (did : RepoDid) (c : Commit) :
    Yields sel (indexPlay parseDate did c) [] := by
  unfold indexPlay
  cases c.record.bind actorStatusRecordSchema with
  | none => exact yields_pure _
  | some r =>
    refine (hw.narrow.ensureUser _).after fun _ => (hw.narrow.perform rfl).after fun now => ?_
    exact (Narrow.date parseDate _).after fun playedAt => hw.await _

theorem indexComment_yields (hw : Watches sel g l) (did : RepoDid) (c : Commit) (uri : String) :
    Yields sel (indexComment parseDate did c uri)
      (((commentOf parseDate did c uri).bind fun r => g ((.comments, uri), .put r)).toList ++
        if c.operation = .create then ((commentOf parseDate did c uri).bind fun _ => l).toList
        else []) := by
  unfold indexComment commentOf
  cases c.record.bind commentRecordSchema with
  | none =>
    simp only [Option.bind_none, Option.toList_none, ite_self, List.append_nil]
    exact yields_pure _
  | some r =>
    refine hw.dated parseDate did.did fun now createdAt hdate => ?_
    simp only [Option.bind_some, hdate, Option.map_some]
    refine (hw.await _).bind fun _ => Yields.after ?_ fun _ => hw.publish did c _ _
    exact hw.narrow.fanout _ _ _ _ _ _

theorem indexReaction_yields (hw : Watches sel g l) (did : RepoDid) (c : Commit) (uri : String) :
    Yields sel (indexReaction parseDate did c uri)
      (((reactionOf parseDate did c uri).bind fun r => g ((.reactions, uri), .putNew r)).toList ++
        if c.operation = .create then ((reactionOf parseDate did c uri).bind fun _ => l).toList
        else []) := by
  unfold indexReaction reactionOf
  cases c.record.bind reactionRecordSchema with
  | none =>
    simp only [Option.bind_none, Option.toList_none, ite_self, List.append_nil]
    exact yields_pure _
  | some r =>
    refine hw.dated parseDate did.did fun now createdAt hdate => ?_
    simp only [Option.bind_some, hdate, Option.map_some]
    exact (hw.await _).bind fun _ => hw.publish did c _ _

theorem nsid_wanted (table : TableName) : table.nsid ∈ WANTED := by cases table <;> decide

theorem processDelete_yields (hw : Watches sel g l) (table : TableName) (uri : String) :
    Yields sel (processDelete table.nsid uri) (g ((table, uri), .remove)).toList := by
  unfold processDelete
  cases table with
  | favorites =>
    rw [if_pos (by decide)]
    exact hw.await _
  | stations =>
    rw [if_neg (by decide), if_pos (by decide)]
    exact hw.await _
  | comments =>
    rw [if_neg (by decide), if_neg (by decide), if_pos (by decide)]
    have h := (hw.await (.delete .comments uri)).bind fun _ => hw.await (.deleteNotifications uri)
    exact (List.append_nil (g ((.comments, uri), .remove)).toList) ▸ h
  | reactions =>
    rw [if_neg (by decide), if_neg (by decide), if_neg (by decide), if_pos (by decide)]
    exact hw.await _

omit parseDate in
theorem processDelete_silent {collection : String} (h : tableOf collection = none) (uri : String) :
    Yields sel (processDelete collection uri) [] := by
  obtain ⟨h1, h2, h3, h4⟩ := tableOf_none h
  unfold processDelete
  rw [if_neg h1, if_neg h2, if_neg h3, if_neg h4]
  exact yields_pure _

omit parseDate in
theorem toList_onCreate (p : Prop) [Decidable p] (o : Option Row) (l : Option γ) :
    (bif decide p && o.isSome then l.toList else []) =
      if p then (o.bind fun _ => l).toList else [] := by
  by_cases hp : p <;> cases o <;> simp [hp]

theorem processCommit_watched (hw : Watches sel g l) (evt : JetstreamEvent) :
    Yields sel (processCommit parseDate evt)
      (((changeOf parseDate evt).bind g).toList ++
        bif publishes parseDate evt then l.toList else []) := by
  unfold processCommit changeOf publishes
  cases evt.commit with
  | none => exact yields_pure _
  | some c =>
    simp only [Option.any_some]
    cases ht : tableOf c.collection with
    | none =>
      obtain ⟨h1, h2, h3, h4⟩ := tableOf_none ht
      simp only [Bool.and_false, cond_false, Option.bind_none, Option.toList_none, List.append_nil]
      split
      · exact yields_pure _
      · split
        · exact processDelete_silent ht _
        · split
          · exact indexPlay_yields parseDate hw _ _
          · exact yields_pure _
    | some table =>
      have hc := (tableOf_eq_some _ table).1 ht
      rw [hc, if_neg (not_not.2 (nsid_wanted table))]
      dsimp only
      by_cases hop : c.operation = .delete
      · rw [if_pos hop, if_pos hop, hop]
        simp only [reduceCtorEq, decide_false, Bool.false_and, cond_false, Option.bind_some,
          List.append_nil]
        exact processDelete_yields hw table _
      · rw [if_neg hop, if_neg hop]
        simp only [Option.bind_map, Function.comp_def]
        cases table with
        | favorites =>
          rw [if_pos (by decide)]
          simpa [rowOf, changeTo] using indexFavorite_yields parseDate hw evt.did c _
        | stations =>
          rw [if_neg (by decide), if_pos (by decide)]
          simpa [rowOf, changeTo] using indexStation_yields parseDate hw evt.did c _
        | comments =>
          rw [if_neg (by decide), if_neg (by decide), if_neg (by decide), if_pos (by decide)]
          rw [toList_onCreate]
          simpa [rowOf, changeTo] using indexComment_yields parseDate hw evt.did c _
        | reactions =>
          rw [if_neg (by decide), if_neg (by decide), if_neg (by decide), if_neg (by decide),
            if_pos (by decide)]
          rw [toList_onCreate]
          simpa [rowOf, changeTo] using indexReaction_yields parseDate hw evt.did c _

end Watches

def mirrorSel : Entry jetstream → Option ((TableName × String) × Change)
  | .got q _ => Req.change q
  | _ => none

theorem mirrorSel_watches : Watches mirrorSel some none :=
  ⟨fun _ _ _ => rfl, fun _ _ _ => rfl, fun q _ => by cases q <;> rfl, fun _ => rfl⟩

theorem processCommit_yields (evt : JetstreamEvent) :
    Yields mirrorSel (processCommit parseDate evt) (changeOf parseDate evt).toList := by
  have h := processCommit_watched parseDate mirrorSel_watches evt
  rw [Option.bind_fun_some, Option.toList_none, Bool.cond_self, List.append_nil] at h
  exact h

end Atradio.Jetstream
