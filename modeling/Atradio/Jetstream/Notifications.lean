import Mathlib.Data.List.Induction
import Atradio.Jetstream.Sequential

/-! # Notifications of comments

Whom a version of a comment concerns is said on its own (`Due`). The rows of a comment are
the ones due, as long as the ids tell the notifications of two comments apart. -/

namespace Atradio.Jetstream
open Atradio.Lib

/-! ### Recipients -/

def Mentioned (author : String) (facets : Option (List Mention)) (recipient : String) : Prop :=
  recipient ≠ "" ∧ recipient ≠ author ∧ ∃ f ∈ facets.getD [], f.did = recipient

instance (author : String) (facets : Option (List Mention)) :
    DecidablePred (Mentioned author facets) := fun recipient =>
  inferInstanceAs (Decidable (recipient ≠ "" ∧ recipient ≠ author ∧
    ∃ f ∈ facets.getD [], f.did = recipient))

/-- Whom a comment concerns, and why. -/
def Due (author : String) (facets : Option (List Mention)) (owner : Option String)
    (recipient : String) : Reason → Prop
  | .mention => Mentioned author facets recipient
  | .comment => owner = some recipient ∧ recipient ≠ "" ∧ recipient ≠ author ∧
      ¬ Mentioned author facets recipient

theorem Due.not_author {author : String} {facets : Option (List Mention)} {owner : Option String}
    {recipient : String} {reason : Reason} (h : Due author facets owner recipient reason) :
    recipient ≠ author := by
  cases reason with
  | mention => exact h.2.1
  | comment => exact h.2.2.1

theorem mem_mentionedDids (facets : Option (List Mention)) (author recipient : String) :
    recipient ∈ mentionedDids facets author ↔ Mentioned author facets recipient := by
  have main : ∀ (l : List Mention) (out : List String),
      recipient ∈ l.foldl (fun out f =>
          if f.did ≠ "" ∧ f.did ≠ author ∧ f.did ∉ out then out ++ [f.did] else out) out ↔
        recipient ∈ out ∨ recipient ≠ "" ∧ recipient ≠ author ∧ ∃ f ∈ l, f.did = recipient := by
    intro l
    induction l with
    | nil => simp
    | cons f l ih =>
      intro out
      rw [List.foldl_cons, ih]
      by_cases hf : f.did = recipient
      · subst hf
        split
        · simp_all
        · simp_all
          tauto
      · split <;> simp [hf, Ne.symm hf]
  exact (main (facets.getD []) []).trans (by simp [Mentioned])

theorem find_mentions (dids : List String) (m : JsMap String Reason) (recipient : String) :
    JsMap.find (dids.foldl (fun m did => JsMap.set m did .mention) m) recipient =
      if recipient ∈ dids then some .mention else JsMap.find m recipient := by
  induction dids generalizing m with
  | nil => simp
  | cons did dids ih =>
    rw [List.foldl_cons, ih, JsMap.find_set]
    by_cases hm : recipient ∈ dids
    · simp [hm]
    · by_cases hd : recipient = did <;> simp [hm, hd]

theorem find_recipientsOf (author : String) (facets : Option (List Mention))
    (owner : Option String) (recipient : String) (reason : Reason) :
    JsMap.find (recipientsOf author facets owner) recipient = some reason ↔
      Due author facets owner recipient reason := by
  have hmention : ∀ did, JsMap.find ((mentionedDids facets author).foldl
      (fun m did => JsMap.set m did Reason.mention) Table.empty) did =
        if Mentioned author facets did then some Reason.mention else none := by
    intro did
    rw [find_mentions, JsMap.find_empty]
    simp only [mem_mentionedDids]
  unfold recipientsOf withOwner
  cases owner with
  | none =>
    dsimp only
    rw [hmention]
    cases reason <;> simp [Due]
  | some did =>
    dsimp only
    split
    · rename_i h
      rw [hmention] at h
      rw [JsMap.find_set, hmention]
      by_cases hd : recipient = did
      · subst hd
        cases reason <;> simp_all [Due]
      · cases reason <;> simp [Due, hd, Ne.symm hd]
    · rename_i h
      rw [hmention] at h
      rw [hmention]
      cases reason <;> simp_all [Due]
      intro hd
      subst hd
      tauto

theorem mem_notificationRows {author uri : String} {station : StationInfo} {text : String}
    {createdAt : ℤ} {indexedAt : ℕ} {m : JsMap String Reason} {row : NotificationRow}
    (h : row ∈ notificationRows author uri station text createdAt indexedAt m) :
    row.subjectUri = uri ∧ row.id = notificationId row.reason uri row.recipientDid ∧
      JsMap.find m row.recipientDid = some row.reason := by
  obtain ⟨e, he, rfl⟩ := List.mem_map.1 h
  refine ⟨rfl, rfl, ?_⟩
  exact congrArg (Option.map Prod.snd) ((m.mem_rows e).1 he)

/-! ### What a commit does to the notifications -/

/-- The owner the station lookup resolves. -/
def Db.stationOwner (db : Db) (stationId : String) : Option String :=
  match customRkey stationId with
  | some rkey => (db.stations.rows.find? fun r => r.rkey = rkey).map (·.did)
  | none => none

/-- The tables the fan-out reads and writes. -/
def board (w : World) : Table NotificationRow.id × Table StationRow.uri :=
  (w.db.notifications, w.db.stations)

theorem aside_board : Aside board := fun _ _ _ => rfl

theorem wp_await_bind {α : Type} {q : Req} {k : q.Ans → Prog jetstream α}
    {Q : Option α → World → Prop} {w : World}
    (h : ∀ profile, (k (Db.serve profile q w.db).1).wp machine Calm Q
      { w with db := (Db.serve profile q w.db).2 }) :
    ((await q).bind k).wp machine Calm Q w := by
  refine Prog.wp_bind (Prog.wp_await fun c hc => ?_)
  unfold Calm at hc
  simp only [machine, World.serve, hc, Bool.false_and, Bool.false_eq_true, if_false]
  exact h c.profile

theorem wp_stationOwner {α : Type} {stationId : String} {k : Option String → Prog jetstream α}
    {Q : Option α → World → Prop} {w : World}
    (h : (k (w.db.stationOwner stationId)).wp machine Calm Q w) :
    ((stationOwner stationId).bind k).wp machine Calm Q w := by
  unfold stationOwner
  unfold Db.stationOwner at h
  cases hr : customRkey stationId with
  | none =>
    rw [hr] at h
    exact h
  | some rkey =>
    rw [hr] at h
    exact wp_await_bind fun profile => h

def Db.withoutSubject (db : Db) (uri : String) : Table NotificationRow.id :=
  db.notifications.filter fun r => r.subjectUri ≠ uri

theorem fanout_wp {author uri : String} {station : StationInfo} {text : String}
    {facets : Option (List Mention)} {createdAt : ℤ} {k : Unit → Task}
    {Q : Option Unit → World → Prop} {w : World}
    (h : ∀ now w', board w' =
        ((notificationRows author uri station text createdAt now
            (recipientsOf author facets (w.db.stationOwner station.stationId))).foldl
          Table.insertNew (w.db.withoutSubject uri), w.db.stations) →
      (k ()).wp machine Calm Q w') :
    ((fanoutCommentNotifications author uri station text facets createdAt).bind k).wp
      machine Calm Q w := by
  unfold fanoutCommentNotifications
  refine Prog.wp_bind (wp_await_bind fun _ => wp_stationOwner ?_)
  dsimp only
  split
  · rename_i hsize
    refine h 0 _ ?_
    have hempty := ((Table.size_eq_zero _).1 hsize)
    have hsame : (recipientsOf author facets (w.db.stationOwner station.stationId)) = Table.empty :=
      hempty
    rw [hsame]
    rfl
  · refine (perform_runs aside_board _).wp_bind fun now w' hw' => ?_
    obtain ⟨hnotes, hstations⟩ := Prod.mk.inj hw'
    refine Prog.wp_await fun c hc => ?_
    unfold Calm at hc
    simp only [machine, World.serve, hc, Bool.false_and, Bool.false_eq_true, if_false]
    refine h now _ ?_
    simp only [board, Db.serve]
    rw [hnotes, hstations]
    rfl

variable {parseDate : String → Option ℤ} {evt : JetstreamEvent} {c : Commit} {ω : ℕ → Choice}
  {w : World}

theorem process_deleted (hc : evt.commit = some c) (hcoll : c.collection = NSID.comment)
    (hop : c.operation = .delete) (hω : ∀ n, Calm (ω n)) :
    board (process parseDate w (evt, ω)) =
      (w.db.withoutSubject (atUri evt.did.did NSID.comment c.rkey), w.db.stations) := by
  have h : (processCommit parseDate evt).wp machine Calm (fun _ w' => board w' =
      (w.db.withoutSubject (atUri evt.did.did NSID.comment c.rkey), w.db.stations)) w := by
    unfold processCommit
    rw [hc]
    dsimp only
    rw [hcoll, if_neg (not_not.2 (by decide)), if_pos hop]
    unfold processDelete
    rw [if_neg (by decide), if_neg (by decide), if_pos rfl]
    refine wp_await_bind fun _ => Prog.wp_await fun c hc => ?_
    unfold Calm at hc
    simp only [machine, World.serve, hc, Bool.false_and, Bool.false_eq_true, if_false]
    rfl
  exact Prog.wp_eval hω h

theorem process_written (hc : evt.commit = some c) (hcoll : c.collection = NSID.comment)
    (hop : c.operation ≠ .delete) {r : CommentRecord}
    (hr : c.record.bind commentRecordSchema = some r) {t : ℤ} (ht : parseDate r.createdAt = some t)
    (hω : ∀ n, Calm (ω n)) :
    ∃ now, board (process parseDate w (evt, ω)) =
      ((notificationRows evt.did.did (atUri evt.did.did NSID.comment c.rkey) r.station r.text t now
          (recipientsOf evt.did.did r.facets (w.db.stationOwner r.station.stationId))).foldl
        Table.insertNew (w.db.withoutSubject (atUri evt.did.did NSID.comment c.rkey)),
      w.db.stations) := by
  have h : (processCommit parseDate evt).wp machine Calm (fun _ w' => ∃ now, board w' =
      ((notificationRows evt.did.did (atUri evt.did.did NSID.comment c.rkey) r.station r.text t now
          (recipientsOf evt.did.did r.facets (w.db.stationOwner r.station.stationId))).foldl
        Table.insertNew (w.db.withoutSubject (atUri evt.did.did NSID.comment c.rkey)),
      w.db.stations)) w := by
    unfold processCommit
    rw [hc]
    dsimp only
    rw [hcoll, if_neg (not_not.2 (by decide)), if_neg hop, if_neg (by decide), if_neg (by decide),
      if_neg (by decide), if_pos rfl]
    unfold indexComment
    rw [hr]
    refine index_runs parseDate aside_board evt.did.did ht fun now w' hw' => ?_
    refine wp_await_bind fun _ => fanout_wp fun now w'' hw'' => ?_
    refine Prog.wp_mono (fun o s hs => ⟨now, hs.2.trans ?_⟩)
      (publish_runs aside_board evt.did c _ _ w'')
    rw [hw'']
    obtain ⟨hnotes, hstations⟩ := Prod.mk.inj hw'
    simp only [Db.serve, Db.withoutSubject, Db.stationOwner, hnotes, hstations]
  exact Prog.wp_eval hω h

/-! ### Exactness -/

def Db.notificationsFor (db : Db) (uri : String) : List NotificationRow :=
  db.notifications.rows.filter fun r => r.subjectUri = uri

/-- Whom the current version of the comment with this uri concerns; `owner` is the station
lookup. -/
def DueTo (owner : String → Option String) (evts : List JetstreamEvent)
    (uri recipient : String) (reason : Reason) : Prop :=
  ∃ (did : RepoDid) (rkey : String) (c : Commit) (r : CommentRecord),
    uri = atUri did.did NSID.comment rkey ∧ current evts .comments did rkey = some c ∧
      c.record.bind commentRecordSchema = some r ∧
      Due did.did r.facets (owner r.station.stationId) recipient reason

/-- A live comment has exactly the rows that are due, a deleted one has none. -/
structure NotificationsExact (owner : String → Option String) (evts : List JetstreamEvent)
    (db : Db) : Prop where
  due : ∀ uri recipient reason,
    (∃ row ∈ db.notificationsFor uri, row.recipientDid = recipient ∧ row.reason = reason) ↔
      DueTo owner evts uri recipient reason
  once : ∀ uri, ((db.notificationsFor uri).map (·.recipientDid)).Nodup
  author : ∀ (did : RepoDid) (rkey : String),
    ∀ row ∈ db.notificationsFor (atUri did.did NSID.comment rkey), row.recipientDid ≠ did.did

/-- No notification due to the new version of a comment has the id of one that is due to
another live comment. -/
def IdsApart (owner : String → Option String) (evts : List JetstreamEvent)
    (evt : JetstreamEvent) : Prop :=
  ∀ c ∈ evt.commit, ∀ recipient reason,
    DueTo owner (evts ++ [evt]) (atUri evt.did.did NSID.comment c.rkey) recipient reason →
    ∀ uri recipient' reason', uri ≠ atUri evt.did.did NSID.comment c.rkey →
      DueTo owner evts uri recipient' reason' →
      notificationId reason' uri recipient' ≠
        notificationId reason (atUri evt.did.did NSID.comment c.rkey) recipient

def Labelled (db : Db) : Prop :=
  ∀ row ∈ db.notifications.rows, row.id = notificationId row.reason row.subjectUri row.recipientDid

theorem current_append (evts : List JetstreamEvent) (evt : JetstreamEvent) (table : TableName)
    (did : RepoDid) (rkey : String) :
    current (evts ++ [evt]) table did rkey = revise table did rkey (current evts table did rkey) evt := by
  simp [current]

section Commit

variable {owner : String → Option String} {evts : List JetstreamEvent}

theorem dueTo_other (hc : evt.commit = some c) {uri : String}
    (huri : uri ≠ atUri evt.did.did NSID.comment c.rkey) (recipient : String) (reason : Reason) :
    DueTo owner (evts ++ [evt]) uri recipient reason ↔ DueTo owner evts uri recipient reason := by
  have hsame : ∀ (did : RepoDid) rkey, uri = atUri did.did NSID.comment rkey →
      current (evts ++ [evt]) .comments did rkey = current evts .comments did rkey := by
    rintro did rkey rfl
    have hnone : commitOn .comments did rkey evt = none := by
      refine Option.eq_none_iff_forall_not_mem.2 fun c' hc' => huri ?_
      obtain ⟨hc'', rfl, _, rfl⟩ := commitOn_eq_some.1 hc'
      rw [hc] at hc''
      obtain rfl := Option.some.inj hc''
      rfl
    rw [current_append, revise, hnone]
  constructor
  · rintro ⟨did, rkey, c', r, huri, hcur, hr, hdue⟩
    exact ⟨did, rkey, c', r, huri, (hsame did rkey huri) ▸ hcur, hr, hdue⟩
  · rintro ⟨did, rkey, c', r, huri, hcur, hr, hdue⟩
    exact ⟨did, rkey, c', r, huri, (hsame did rkey huri).trans hcur, hr, hdue⟩

theorem current_here (hc : evt.commit = some c) (hcoll : c.collection = NSID.comment) :
    current (evts ++ [evt]) .comments evt.did c.rkey =
      if c.operation = .delete then none else some c := by
  have hon : commitOn .comments evt.did c.rkey evt = some c :=
    commitOn_eq_some.2 ⟨hc, rfl, hcoll, rfl⟩
  rw [current_append, revise, hon]

theorem dueTo_deleted (hc : evt.commit = some c) (hcoll : c.collection = NSID.comment)
    (hop : c.operation = .delete) (recipient : String) (reason : Reason) :
    ¬ DueTo owner (evts ++ [evt]) (atUri evt.did.did NSID.comment c.rkey) recipient reason := by
  rintro ⟨did, rkey, c', r, huri, hcur, _, _⟩
  obtain ⟨rfl, rfl⟩ := atUri_inj huri
  rw [current_here hc hcoll, if_pos hop] at hcur
  cases hcur

theorem dueTo_written (hc : evt.commit = some c) (hcoll : c.collection = NSID.comment)
    (hop : c.operation ≠ .delete) {r : CommentRecord}
    (hr : c.record.bind commentRecordSchema = some r) (recipient : String) (reason : Reason) :
    DueTo owner (evts ++ [evt]) (atUri evt.did.did NSID.comment c.rkey) recipient reason ↔
      Due evt.did.did r.facets (owner r.station.stationId) recipient reason := by
  have hcur : current (evts ++ [evt]) .comments evt.did c.rkey = some c :=
    (current_here hc hcoll).trans (if_neg hop)
  constructor
  · rintro ⟨did, rkey, c', r', huri, hcur', hr', hdue⟩
    obtain ⟨rfl, rfl⟩ := atUri_inj huri
    rw [hcur] at hcur'
    obtain rfl := Option.some.inj hcur'
    rw [hr] at hr'
    obtain rfl := Option.some.inj hr'
    exact hdue
  · intro hdue
    exact ⟨evt.did, c.rkey, c, r, rfl, hcur, hr, hdue⟩

end Commit

/-- Of another comment, the rows stay; of the comment itself, they are the new rows whose
id is free. -/
theorem notificationsFor_insert {db db' : Db} {uri : String} {rows : List NotificationRow}
    (hdb : db'.notifications = rows.foldl Table.insertNew (db.withoutSubject uri))
    (hrows : ∀ row ∈ rows, row.subjectUri = uri) (hnodup : (rows.map (·.id)).Nodup) (uri' : String) :
    db'.notificationsFor uri' = if uri' = uri
      then rows.filter fun row => ((db.withoutSubject uri).get row.id).isNone
      else db.notificationsFor uri' := by
  unfold Db.notificationsFor
  rw [hdb, Table.rows_foldl_insertNew _ _ hnodup, List.filter_append]
  have hold : ((db.withoutSubject uri).rows.filter fun r => r.subjectUri = uri') =
      if uri' = uri then [] else db.notifications.rows.filter fun r => r.subjectUri = uri' := by
    unfold Db.withoutSubject Table.filter
    dsimp only
    rw [List.filter_filter]
    split
    · rename_i huri
      simp [huri]
    · rename_i huri
      apply List.filter_congr
      intro row _
      by_cases hrow : row.subjectUri = uri' <;> simp [hrow, huri]
  rw [hold]
  split
  · rename_i huri
    rw [List.nil_append, List.filter_eq_self.2]
    intro row hrow
    simp [hrows row (List.mem_filter.1 hrow).1, huri]
  · rename_i huri
    have hnone : ((rows.filter fun row => ((db.withoutSubject uri).get row.id).isNone).filter
        fun r => r.subjectUri = uri') = [] := by
      rw [List.filter_eq_nil_iff]
      intro row hrow
      simpa [hrows row (List.mem_filter.1 hrow).1] using Ne.symm huri
    rw [hnone, List.append_nil]

theorem notificationId_inj {reason reason' : Reason} {uri recipient recipient' : String}
    (h : notificationId reason uri recipient = notificationId reason' uri recipient') :
    recipient = recipient' := by
  have hl := congrArg String.toList h
  simp only [notificationId, String.toList_append, List.append_assoc] at hl
  have hreason : reason = reason' := by
    cases reason with
    | mention =>
      cases reason' with
      | mention => rfl
      | comment => cases (List.cons.inj hl).1
    | comment =>
      cases reason' with
      | mention => cases (List.cons.inj hl).1
      | comment => rfl
  subst hreason
  simp only [List.append_cancel_left_eq] at hl
  exact String.toList_injective hl

theorem notificationRows_ids {author uri : String} {station : StationInfo} {text : String}
    {createdAt : ℤ} {now : ℕ} (m : JsMap String Reason) :
    ((notificationRows author uri station text createdAt now m).map (·.id)).Nodup := by
  have hkeys := m.nodup
  unfold notificationRows
  rw [List.map_map]
  refine List.Nodup.map_on (fun x hx y hy hxy => ?_) (List.Nodup.of_map _ hkeys)
  have hfst : x.1 = y.1 := notificationId_inj hxy
  exact List.inj_on_of_nodup_map hkeys hx hy hfst

theorem notificationRows_recipients {author uri : String} {station : StationInfo} {text : String}
    {createdAt : ℤ} {now : ℕ} (m : JsMap String Reason) :
    ((notificationRows author uri station text createdAt now m).map (·.recipientDid)).Nodup := by
  rw [notificationRows, List.map_map]
  exact m.nodup

theorem notificationRows_due {author uri : String} {station : StationInfo} {text : String}
    {createdAt : ℤ} {now : ℕ} {facets : Option (List Mention)} {owner : Option String}
    {recipient : String} {reason : Reason} :
    (∃ row ∈ notificationRows author uri station text createdAt now
        (recipientsOf author facets owner), row.recipientDid = recipient ∧ row.reason = reason) ↔
      Due author facets owner recipient reason := by
  rw [← find_recipientsOf]
  constructor
  · rintro ⟨row, hrow, rfl, rfl⟩
    exact (mem_notificationRows hrow).2.2
  · intro h
    obtain ⟨e, he, rfl⟩ := Option.map_eq_some_iff.1 h
    obtain ⟨hrow, rfl⟩ := (Table.get_eq_some _ _ _).1 he
    exact ⟨_, List.mem_map_of_mem hrow, rfl, rfl⟩

theorem labelled_insert {db db' : Db} {author uri : String} {station : StationInfo}
    {text : String} {createdAt : ℤ} {now : ℕ} {m : JsMap String Reason}
    (hdb : db'.notifications = (notificationRows author uri station text createdAt now m).foldl
      Table.insertNew (db.withoutSubject uri)) (h : Labelled db) : Labelled db' := by
  intro row hrow
  rw [hdb, Table.rows_foldl_insertNew _ _ (notificationRows_ids m)] at hrow
  rcases List.mem_append.1 hrow with hold | hnew
  · exact h row ((Table.mem_filter _ _ _).1 hold).1
  · obtain ⟨huri, hid, _⟩ := mem_notificationRows (List.mem_filter.1 hnew).1
    rw [huri]
    exact hid

theorem id_free {owner : String → Option String} {evts : List JetstreamEvent} {db : Db}
    (hl : Labelled db) (hex : NotificationsExact owner evts db) (uri id : String) :
    (db.withoutSubject uri).get id = none ↔
      ∀ uri' recipient reason, uri' ≠ uri → DueTo owner evts uri' recipient reason →
        notificationId reason uri' recipient ≠ id := by
  rw [Table.get_eq_none]
  constructor
  · intro h uri' recipient reason huri hdue
    obtain ⟨row, hrow, rfl, rfl⟩ := (hex.due uri' recipient reason).2 hdue
    obtain ⟨hmem, hsubj⟩ := List.mem_filter.1 hrow
    have hsubj' : row.subjectUri = uri' := by simpa using hsubj
    have hne := h row ((Table.mem_filter _ _ _).2 ⟨hmem, by simpa [hsubj'] using huri⟩)
    rw [hl row hmem, hsubj'] at hne
    exact hne
  · intro h row hrow
    obtain ⟨hmem, hsubj⟩ := (Table.mem_filter _ _ _).1 hrow
    rw [hl row hmem]
    refine h row.subjectUri row.recipientDid row.reason (by simpa using hsubj) ?_
    refine (hex.due _ _ _).1 ⟨row, List.mem_filter.2 ⟨hmem, by simp⟩, rfl, rfl⟩

/-! ### Runs -/

def OfComment (evt : JetstreamEvent) : Prop := ∀ c ∈ evt.commit, c.collection = NSID.comment

theorem valid_commit (hv : Valid parseDate evt) : ∃ c, evt.commit = some c := by
  obtain ⟨⟨⟨table, uri⟩, ch⟩, h⟩ := Option.isSome_iff_exists.1 hv
  obtain ⟨c, hc, _⟩ := changeOf_key parseDate h
  exact ⟨c, hc⟩

theorem valid_comment (hv : Valid parseDate evt) (hc : evt.commit = some c)
    (hcoll : c.collection = NSID.comment) (hop : c.operation ≠ .delete) :
    ∃ r t, c.record.bind commentRecordSchema = some r ∧ parseDate r.createdAt = some t := by
  have ht : c.collection = TableName.nsid .comments := hcoll
  unfold Valid at hv
  rw [changeOf_eq parseDate hc ht, if_neg hop, Option.isSome_map] at hv
  simp only [rowOf, commentOf] at hv
  cases hr : c.record.bind commentRecordSchema with
  | none =>
    rw [hr] at hv
    cases hv
  | some r =>
    rw [hr, Option.isSome_map] at hv
    obtain ⟨t, ht⟩ := Option.isSome_iff_exists.1 hv
    exact ⟨r, t, rfl, ht⟩

theorem process_labelled (hv : Valid parseDate evt) (hcoll : OfComment evt)
    (hω : ∀ n, Calm (ω n)) (hl : Labelled w.db) :
    Labelled (process parseDate w (evt, ω)).db ∧
      (process parseDate w (evt, ω)).db.stationOwner = w.db.stationOwner := by
  obtain ⟨c, hc⟩ := valid_commit hv
  have howner : (process parseDate w (evt, ω)).db.stations = w.db.stations →
      (process parseDate w (evt, ω)).db.stationOwner = w.db.stationOwner := by
    intro h
    unfold Db.stationOwner
    rw [h]
  by_cases hop : c.operation = .delete
  · have hboard : board (process parseDate w (evt, ω)) = _ :=
      process_deleted hc (hcoll c hc) hop hω
    obtain ⟨hnotes, hstations⟩ := Prod.mk.inj hboard
    refine ⟨fun row hrow => ?_, howner hstations⟩
    rw [hnotes] at hrow
    exact hl row ((Table.mem_filter _ _ _).1 hrow).1
  · obtain ⟨r, t, hr, ht⟩ := valid_comment hv hc (hcoll c hc) hop
    obtain ⟨now, hboard⟩ := process_written (w := w) hc (hcoll c hc) hop hr ht hω
    obtain ⟨hnotes, hstations⟩ := Prod.mk.inj hboard
    exact ⟨labelled_insert hnotes hl, howner hstations⟩

theorem NotificationsExact.commit {owner : String → Option String} {evts : List JetstreamEvent}
    {db db' : Db} (hex : NotificationsExact owner evts db) (hc : evt.commit = some c)
    {rows : List NotificationRow}
    (hrows : ∀ uri, db'.notificationsFor uri =
      if uri = atUri evt.did.did NSID.comment c.rkey then rows else db.notificationsFor uri)
    (hdue : ∀ recipient reason, (∃ row ∈ rows, row.recipientDid = recipient ∧ row.reason = reason) ↔
      DueTo owner (evts ++ [evt]) (atUri evt.did.did NSID.comment c.rkey) recipient reason)
    (honce : (rows.map (·.recipientDid)).Nodup)
    (hauthor : ∀ row ∈ rows, row.recipientDid ≠ evt.did.did) :
    NotificationsExact owner (evts ++ [evt]) db' where
  due := by
    intro uri recipient reason
    rw [hrows]
    split
    · rename_i huri
      subst huri
      exact hdue recipient reason
    · rename_i huri
      rw [dueTo_other hc huri]
      exact hex.due uri recipient reason
  once := by
    intro uri
    rw [hrows]
    split
    · exact honce
    · exact hex.once uri
  author := by
    intro did rkey row hrow
    rw [hrows] at hrow
    split at hrow
    · rename_i huri
      obtain ⟨rfl, _⟩ := atUri_inj huri
      exact hauthor row hrow
    · exact hex.author did rkey row hrow

theorem exact_step {owner : String → Option String} {evts : List JetstreamEvent}
    (howner : w.db.stationOwner = owner) (hl : Labelled w.db)
    (hex : NotificationsExact owner evts w.db) (hv : Valid parseDate evt) (hcoll : OfComment evt)
    (hω : ∀ n, Calm (ω n)) :
    NotificationsExact owner (evts ++ [evt]) (process parseDate w (evt, ω)).db ↔
      IdsApart owner evts evt := by
  obtain ⟨c, hc⟩ := valid_commit hv
  have hcoll := hcoll c hc
  by_cases hop : c.operation = .delete
  · -- nothing is due to a deleted comment, and its rows are gone
    have hboard : board (process parseDate w (evt, ω)) = _ := process_deleted hc hcoll hop hω
    obtain ⟨hnotes, _⟩ := Prod.mk.inj hboard
    have hrows := @notificationsFor_insert _ _ _ [] hnotes (by simp) (by simp)
    have hnone : ∀ recipient reason,
        ¬ DueTo owner (evts ++ [evt]) (atUri evt.did.did NSID.comment c.rkey) recipient reason :=
      dueTo_deleted hc hcoll hop
    refine iff_of_true (hex.commit hc hrows (fun recipient reason => ?_) (by simp) (by simp)) ?_
    · exact iff_of_false (by simp) (hnone recipient reason)
    · intro c' hc' recipient reason hdue
      rw [hc] at hc'
      obtain rfl := Option.some.inj hc'
      exact (hnone recipient reason hdue).elim
  · obtain ⟨r, t, hr, ht⟩ := valid_comment hv hc hcoll hop
    obtain ⟨now, hboard⟩ := process_written (w := w) hc hcoll hop hr ht hω
    obtain ⟨hnotes, _⟩ := Prod.mk.inj hboard
    rw [howner] at hnotes
    have hrows := notificationsFor_insert hnotes
      (fun row hrow => (mem_notificationRows hrow).1) (notificationRows_ids _)
    have hdue : ∀ recipient reason,
        DueTo owner (evts ++ [evt]) (atUri evt.did.did NSID.comment c.rkey) recipient reason ↔
          Due evt.did.did r.facets (owner r.station.stationId) recipient reason :=
      dueTo_written hc hcoll hop hr
    constructor
    · intro hex' c' hc' recipient reason hdue' uri recipient' reason' huri hother
      rw [hc] at hc'
      obtain rfl := Option.some.inj hc'
      obtain ⟨row, hrow, rfl, rfl⟩ := (hex'.due _ recipient reason).2 hdue'
      rw [hrows, if_pos rfl] at hrow
      obtain ⟨hrow, hfree⟩ := List.mem_filter.1 hrow
      rw [← (mem_notificationRows hrow).2.1]
      exact (id_free hl hex _ _).1 (Option.isNone_iff_eq_none.1 hfree) uri recipient' reason'
        huri hother
    · intro hapart
      -- every new row finds its id free
      rw [List.filter_eq_self.2] at hrows
      · refine hex.commit hc hrows (fun recipient reason => ?_) (notificationRows_recipients _) ?_
        · rw [hdue]
          exact notificationRows_due
        · intro row hrow
          exact (notificationRows_due.1 ⟨row, hrow, rfl, rfl⟩).not_author
      · intro row hrow
        rw [Option.isNone_iff_eq_none, id_free hl hex, (mem_notificationRows hrow).2.1]
        exact fun uri recipient reason huri h => hapart c hc _ _
          ((hdue _ _).2 (notificationRows_due.1 ⟨row, hrow, rfl, rfl⟩)) uri recipient reason huri h

theorem run_labelled {es : List (JetstreamEvent × (ℕ → Choice))} (hes : Served parseDate es)
    (hcoll : ∀ e ∈ es, OfComment e.1) (hl : Labelled w.db) :
    Labelled (run (process parseDate) w es).db ∧
      (run (process parseDate) w es).db.stationOwner = w.db.stationOwner := by
  induction es generalizing w with
  | nil => exact ⟨hl, rfl⟩
  | cons e es ih =>
    obtain ⟨evt, ω⟩ := e
    obtain ⟨hv, hω⟩ := hes _ (List.mem_cons_self ..)
    obtain ⟨hl', howner⟩ := process_labelled hv (hcoll _ (List.mem_cons_self ..)) hω hl
    have hrest := ih (fun e he => hes e (List.mem_cons_of_mem _ he))
      (fun e he => hcoll e (List.mem_cons_of_mem _ he)) hl'
    exact ⟨hrest.1, hrest.2.trans howner⟩

/-- The notifications are exact after each commit if and only if no commit brings a
notification whose id is taken by another live comment. -/
theorem notifications_exact_iff (parseDate : String → Option ℤ) {w : World}
    {es : List (JetstreamEvent × (ℕ → Choice))} (hes : Served parseDate es)
    (hcoll : ∀ e ∈ es, OfComment e.1) (hempty : w.db.notifications = Table.empty) :
    (∀ pre, pre <+: es → NotificationsExact w.db.stationOwner (pre.map Prod.fst)
        (run (process parseDate) w pre).db) ↔
      ∀ pre e, pre ++ [e] <+: es → IdsApart w.db.stationOwner (pre.map Prod.fst) e.1 := by
  have hl : Labelled w.db := by
    intro row hrow
    rw [hempty] at hrow
    cases hrow
  have hstep : ∀ pre e, pre ++ [e] <+: es →
      NotificationsExact w.db.stationOwner (pre.map Prod.fst) (run (process parseDate) w pre).db →
      (NotificationsExact w.db.stationOwner ((pre ++ [e]).map Prod.fst)
          (run (process parseDate) w (pre ++ [e])).db ↔
        IdsApart w.db.stationOwner (pre.map Prod.fst) e.1) := by
    intro pre e hpre hex
    obtain ⟨evt, ω⟩ := e
    have hsub : ∀ e' ∈ pre ++ [(evt, ω)], e' ∈ es := fun e' he' => hpre.subset he'
    obtain ⟨hv, hω⟩ := hes _ (hsub (evt, ω) (by simp))
    obtain ⟨hl', howner⟩ := @run_labelled _ _ pre
      (fun e' he' => hes e' (hsub e' (List.mem_append_left _ he')))
      (fun e' he' => hcoll e' (hsub e' (List.mem_append_left _ he'))) hl
    rw [List.map_append, run_append]
    exact exact_step howner hl' hex hv (hcoll _ (hsub (evt, ω) (by simp))) hω
  constructor
  · intro h pre e hpre
    have hpre' : pre <+: es := (List.prefix_append pre [e]).trans hpre
    exact (hstep pre e hpre (h pre hpre')).1 (h _ hpre)
  · intro h pre
    induction pre using List.reverseRecOn with
    | nil =>
      intro _
      have hnone : ∀ uri, w.db.notificationsFor uri = [] := by
        intro uri
        unfold Db.notificationsFor
        rw [hempty]
        rfl
      refine ⟨fun uri recipient reason => ?_, fun uri => ?_, fun did rkey row hrow => ?_⟩
      · rw [run_nil, hnone]
        refine iff_of_false (by simp) ?_
        rintro ⟨did, rkey, c, r, _, hcur, _, _⟩
        cases hcur
      · rw [run_nil, hnone]
        exact List.nodup_nil
      · rw [run_nil, hnone] at hrow
        cases hrow
    | append_singleton pre e ih =>
      intro hpre
      have hpre' : pre <+: es := (List.prefix_append pre [e]).trans hpre
      exact (hstep pre e hpre (ih hpre')).2 (h pre e hpre)

/-! ### Two comments with one notification id -/

/-- A commit that creates a comment which mentions an actor. -/
def mentionEvent (rkey mentioned : String) : JetstreamEvent :=
  { did := alice
    timeUs := 1
    kind := .commit
    commit := some
      { operation := .create, collection := NSID.comment, rkey, cid := some "bafy"
        record := some (.obj
          [("station", .obj [("stationId", .str "tunein:s1"), ("name", .str "One"),
              ("streamUrl", .str "http://one"), ("source", .str "tunein")]),
            ("text", .str "hi"),
            ("facets", .arr [.obj [("did", .str mentioned), ("byteStart", .num 0),
              ("byteEnd", .num 1)]]),
            ("createdAt", .str "1970-01-01T00:00:00Z")]) } }

theorem mention_lost :
    ¬ ∀ (w : World) es, Served epochDate es → (∀ e ∈ es, OfComment e.1) →
      w.db.notifications = Table.empty → ∀ pre, pre <+: es →
        NotificationsExact w.db.stationOwner (pre.map Prod.fst)
          (run (process epochDate) w pre).db := by
  intro h
  have hex := h {} [(mentionEvent "k" "did:x:did:plc:b", calm),
    (mentionEvent "k:did:x" "did:plc:b", calm)]
    (by
      intro e he
      rcases List.mem_cons.1 he with rfl | he
      · exact ⟨by decide, fun _ => rfl⟩
      · obtain rfl := List.mem_singleton.1 he
        exact ⟨by decide, fun _ => rfl⟩)
    (by
      intro e he c hc
      rcases List.mem_cons.1 he with rfl | he
      · obtain rfl := Option.some.inj hc
        rfl
      · obtain rfl := List.mem_singleton.1 he
        obtain rfl := Option.some.inj hc
        rfl)
    rfl _ (List.prefix_refl _)
  have hdue := (hex.due "at://did:plc:alice/fm.atradio.comment/k:did:x" "did:plc:b" .mention).2
    ⟨⟨"did:plc:alice", by decide⟩, "k:did:x", _, _, by decide, rfl, rfl, by decide, by decide,
      ⟨_, List.mem_singleton_self _, rfl⟩⟩
  exact absurd hdue (by decide)

theorem mention_exact :
    NotificationsExact (Db.stationOwner {}) [mentionEvent "k" "did:plc:b"]
      (run (process epochDate) {} [(mentionEvent "k" "did:plc:b", calm)]).db := by
  refine (notifications_exact_iff epochDate (w := {}) ?_ ?_ rfl).2 (fun pre e hpre => ?_) _
    (List.prefix_refl [(mentionEvent "k" "did:plc:b", calm)])
  · intro e he
    obtain rfl := List.mem_singleton.1 he
    exact ⟨by decide, fun _ => rfl⟩
  · intro e he c hc
    obtain rfl := List.mem_singleton.1 he
    obtain rfl := Option.some.inj hc
    rfl
  · have hlen := hpre.length_le
    have hnil : pre = [] := List.length_eq_zero_iff.1 (by simpa using hlen)
    subst hnil
    rintro c hc recipient reason hdue uri recipient' reason' huri ⟨did, rkey, c', r, _, hcur, _, _⟩
    cases hcur

end Atradio.Jetstream
