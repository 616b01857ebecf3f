import Atradio.Xrpc.Lossless

/-! # The last-seen marker of the bell (`updateSeen`)

Each request runs a few statements, and those of any number of requests interleave. -/

namespace Atradio.Xrpc
open Atradio.Lib

/-! ### Dates -/

structure Date where
  millis : ℤ
  deriving DecidableEq

/-- The time that a table keeps of a `Date`. -/
def Date.instant (d : Date) : ℤ := d.millis * 1000

@[simp] theorem isoDate_instant (d : Date) : isoDate d.instant = d.instant := by
  unfold isoDate Date.instant
  omega

/-- The tables; the consumer, the only writer of notifications, takes `createdAt` from a `Date`. -/
structure AppView extends Db where
  dated : ∀ r ∈ notifications, isoDate r.createdAt = r.createdAt

/-! ### Statements -/

/-- `insert … on conflict (did) do update set last_seen_at` -/
def upsertSeen (did : String) (seenAt : Date) : List SeenRow → List SeenRow
  | [] => [{ did, lastSeenAt := seenAt.instant }]
  | s :: rows =>
    if s.did = did then { s with lastSeenAt := seenAt.instant } :: rows
    else s :: upsertSeen did seenAt rows

def Db.withSeen (db : Db) (rows : List SeenRow) : Db := { db with notificationSeen := rows }

theorem find_upsertSeen (did did' : String) (seenAt : Date) (rows : List SeenRow) :
    ((upsertSeen did seenAt rows).find? fun s => s.did = did').map (·.lastSeenAt) =
      if did' = did then some seenAt.instant
      else (rows.find? fun s => s.did = did').map (·.lastSeenAt) := by
  induction rows with
  | nil =>
    by_cases h : did' = did
    · simp [upsertSeen, h]
    · simp [upsertSeen, h, Ne.symm h]
  | cons s rows ih =>
    by_cases hs : s.did = did
    · by_cases h : did' = did
      · simp [upsertSeen, hs, h]
      · simp [upsertSeen, hs, h, Ne.symm h]
    · simp only [upsertSeen, if_neg hs]
      by_cases h : s.did = did'
      · have hne : ¬ did' = did := fun e => hs (h.trans e)
        simp [h, hne]
      · simpa [h] using ih

theorem lastSeen_upsertSeen (db : Db) (did did' : String) (seenAt : Date) (rows : List SeenRow) :
    lastSeen (db.withSeen (upsertSeen did seenAt rows)) did' =
      if did' = did then some seenAt.instant else lastSeen (db.withSeen rows) did' := by
  have h := congrArg (Option.map isoDate) (find_upsertSeen did did' seenAt rows)
  by_cases hd : did' = did
  · simpa [lastSeen, Db.withSeen, hd, Option.map_map, Function.comp_def] using h
  · simpa [lastSeen, Db.withSeen, hd, Option.map_map, Function.comp_def] using h

/-- `count(*)` of the notifications behind a marker -/
def unreadCount (db : Db) (did : String) (seen : Option ℤ) : ℕ :=
  ((notificationsOf db did).rows.filter fun r => seen.all fun t => t < r.createdAt).length

/-- `getNotifications` behind its query for the marker. -/
def notificationsWith (pg : Postgres) (db : Db) (seen : Option ℤ) (n : ℕ) (did : String)
    (params : FeedParams) : NotificationListOutput :=
  let L := notificationsOf db did
  let page := L.page isoDate (clampLimit params.limit fallbackThirty).val
    (pg.notifications n (L.rows.filter (L.before params.cursor)))
  { items := page.items.map (notificationView db seen), cursor := page.cursor
    unreadCount := unreadCount db did seen }

theorem getNotifications_eq (pg : Postgres) (db : Db) (n : ℕ) (did : String)
    (params : FeedParams) :
    getNotifications pg db n did params =
      notificationsWith pg db (lastSeen db did) n did params := rfl

/-- Body of `updateSeen`, with the DID the actor resolves to; `seenAt` is a string or nothing. -/
structure SeenParams where
  did : String
  seenAt : Option Date

def SeenParams.date (params : SeenParams) (now : Date) : Date := params.seenAt.getD now

/-! ### Requests in flight -/

/-- A `getNotifications` that has read its marker. -/
structure Asked where
  did : String
  seen : Option ℤ
  n : ℕ
  params : FeedParams

/-- An `updateSeen` that has written its marker. -/
structure Marked where
  did : String
  seenAt : Date

inductive Response where
  | listed (did : String) (seen : Option ℤ) (out : NotificationListOutput)
  | marked (did : String) (seenAt : Date) (unreadCount : ℕ)

structure Bell where
  notificationSeen : List SeenRow
  asked : List Asked
  marked : List Marked
  log : List Response

inductive Event where
  | mark (params : SeenParams) (now : Date)
  | marked (k : ℕ)
  | ask (did : String) (n : ℕ) (params : FeedParams)
  | listed (k : ℕ)

def Bell.marker (db : Db) (s : Bell) (did : String) : Option ℤ :=
  lastSeen (db.withSeen s.notificationSeen) did

def Bell.step (pg : Postgres) (db : Db) (s : Bell) : Event → Bell
  | .mark params now =>
    { s with
      notificationSeen := upsertSeen params.did (params.date now) s.notificationSeen
      marked := s.marked ++ [⟨params.did, params.date now⟩] }
  | .marked k =>
    match s.marked[k]? with
    | none => s
    | some m =>
      { s with
        marked := s.marked.eraseIdx k
        log := s.log ++
          [.marked m.did m.seenAt (unreadCount db m.did (some m.seenAt.instant))] }
  | .ask did n params => { s with asked := s.asked ++ [⟨did, s.marker db did, n, params⟩] }
  | .listed k =>
    match s.asked[k]? with
    | none => s
    | some a =>
      { s with
        asked := s.asked.eraseIdx k
        log := s.log ++ [.listed a.did a.seen (notificationsWith pg db a.seen a.n a.did a.params)] }

def Bell.run (pg : Postgres) (db : Db) (s : Bell) (es : List Event) : Bell :=
  es.foldl (Bell.step pg db) s

section Steps

variable {pg : Postgres} {db : Db} {s : Bell} {k : ℕ}

theorem step_marked_none (hk : s.marked[k]? = none) : s.step pg db (.marked k) = s := by
  simp only [Bell.step, hk]

theorem step_marked {m : Marked} (hk : s.marked[k]? = some m) :
    s.step pg db (.marked k) =
      { s with
        marked := s.marked.eraseIdx k
        log := s.log ++
          [.marked m.did m.seenAt (unreadCount db m.did (some m.seenAt.instant))] } := by
  simp only [Bell.step, hk]

theorem step_listed_none (hk : s.asked[k]? = none) : s.step pg db (.listed k) = s := by
  simp only [Bell.step, hk]

theorem step_listed {a : Asked} (hk : s.asked[k]? = some a) :
    s.step pg db (.listed k) =
      { s with
        asked := s.asked.eraseIdx k
        log := s.log ++
          [.listed a.did a.seen (notificationsWith pg db a.seen a.n a.did a.params)] } := by
  simp only [Bell.step, hk]

end Steps

/-- Whatever markers are stored, with no request in flight. -/
def Bell.idle (rows : List SeenRow) : Bell :=
  { notificationSeen := rows, asked := [], marked := [], log := [] }

/-! ### What the responses show -/

def Response.did : Response → String
  | .listed did _ _ => did
  | .marked did _ _ => did

def Response.marker : Response → Option ℤ
  | .listed _ seen _ => seen
  | .marked _ seenAt _ => some seenAt.instant

def Response.unreadCount : Response → ℕ
  | .listed _ _ out => out.unreadCount
  | .marked _ _ count => count

def Response.items : Response → List NotificationView
  | .listed _ _ out => out.items
  | .marked _ _ _ => []

def fullListing (db : Db) (did : String) (seen : Option ℤ) : List NotificationView :=
  (notificationsOf db did).rows.map (notificationView db seen)

/-- The views show one notification. -/
def SameNotification (v w : NotificationView) : Prop := { v with isRead := w.isRead } = w

structure BellAgrees (db : Db) (log : List Response) : Prop where
  staysRead : log.Pairwise fun a b => a.did = b.did →
    ∀ v ∈ a.items, ∀ w ∈ b.items, SameNotification v w → v.isRead → w.isRead
  badge : ∀ r ∈ log,
    r.unreadCount = ((fullListing db r.did r.marker).filter fun v => !v.isRead).length

/-! ### Markers that move forward -/

/-- Marker `m'` covers the actor's notifications that `m` covers. -/
def Covers (db : Db) (did : String) (m' m : Option ℤ) : Prop :=
  ∀ t ∈ m, ∀ r ∈ (notificationsOf db did).rows, r.createdAt ≤ t → ∃ t' ∈ m', r.createdAt ≤ t'

theorem Covers.refl (db : Db) (did : String) (m : Option ℤ) : Covers db did m m :=
  fun t ht _ _ hle => ⟨t, ht, hle⟩

theorem Covers.trans {db : Db} {did : String} {m₁ m₂ m₃ : Option ℤ} (h : Covers db did m₃ m₂)
    (h' : Covers db did m₂ m₁) : Covers db did m₃ m₁ := by
  intro t ht r hr hle
  obtain ⟨t', ht', hle'⟩ := h' t ht r hr hle
  exact h t' ht' r hr hle'

/-- A marker is not set back over a notification, and no listing is answered before one that
read an earlier marker of the actor, where the two differ on a notification. -/
def Event.Forward (db : Db) (s : Bell) : Event → Prop
  | .mark params now =>
    Covers db params.did (some (params.date now).instant) (s.marker db params.did)
  | .listed k => ∀ a ∈ s.asked[k]?, ∀ b ∈ s.asked.take k, b.did = a.did →
    Covers db a.did b.seen a.seen
  | .marked _ => True
  | .ask _ _ _ => True

def Bell.AllForward (pg : Postgres) (db : Db) (s : Bell) : List Event → Prop
  | [] => True
  | e :: es => e.Forward db s ∧ (s.step pg db e).AllForward pg db es

instance (db : Db) (did : String) (m' m : Option ℤ) : Decidable (Covers db did m' m) :=
  inferInstanceAs (Decidable (∀ t ∈ m, ∀ r ∈ (notificationsOf db did).rows,
    r.createdAt ≤ t → ∃ t' ∈ m', r.createdAt ≤ t'))

instance (db : Db) (s : Bell) : DecidablePred (Event.Forward db s)
  | .mark params now => inferInstanceAs (Decidable
      (Covers db params.did (some (params.date now).instant) (s.marker db params.did)))
  | .listed k => inferInstanceAs (Decidable (∀ a ∈ s.asked[k]?, ∀ b ∈ s.asked.take k,
      b.did = a.did → Covers db a.did b.seen a.seen))
  | .marked _ => isTrue trivial
  | .ask _ _ _ => isTrue trivial

instance decAllForward (pg : Postgres) (db : Db) :
    ∀ (s : Bell) (es : List Event), Decidable (s.AllForward pg db es)
  | _, [] => isTrue trivial
  | s, e :: es =>
    have := decAllForward pg db (s.step pg db e) es
    inferInstanceAs (Decidable (e.Forward db s ∧ (s.step pg db e).AllForward pg db es))

/-- The marker whose views a response shows. -/
def Response.shown : Response → Option ℤ
  | .listed _ seen _ => seen
  | .marked _ _ _ => none

def Response.Follows (db : Db) (r : Response) : Response → Prop
  | .listed did seen _ => r.did = did → Covers db did seen r.shown
  | .marked _ _ _ => True

/-- Markers read earlier cover no more than markers read later, and the stored one covers all. -/
structure InOrder (db : Db) (s : Bell) : Prop where
  asked_stored : ∀ a ∈ s.asked, Covers db a.did (s.marker db a.did) a.seen
  asked : s.asked.Pairwise fun a b => a.did = b.did → Covers db a.did b.seen a.seen
  log_stored : ∀ r ∈ s.log, Covers db r.did (s.marker db r.did) r.shown
  log_asked : ∀ r ∈ s.log, ∀ a ∈ s.asked, r.did = a.did → Covers db r.did a.seen r.shown
  log : s.log.Pairwise (Response.Follows db)

section Runs

variable (pg : Postgres) (db : Db)

theorem marker_mark (s : Bell) (params : SeenParams) (now : Date) (did : String) :
    (s.step pg db (.mark params now)).marker db did =
      if did = params.did then some (params.date now).instant else s.marker db did :=
  lastSeen_upsertSeen db params.did did (params.date now) s.notificationSeen

theorem covers_mark {s : Bell} {params : SeenParams} {now : Date}
    (h : (Event.mark params now).Forward db s) (did : String) :
    Covers db did ((s.step pg db (.mark params now)).marker db did) (s.marker db did) := by
  rw [marker_mark]
  by_cases hd : did = params.did
  · rw [if_pos hd, hd]
    exact h
  · rw [if_neg hd]
    exact Covers.refl db did _

theorem inOrder_mark {s : Bell} {params : SeenParams} {now : Date} (hi : InOrder db s)
    (h : (Event.mark params now).Forward db s) :
    InOrder db (s.step pg db (.mark params now)) where
  asked_stored a ha := (covers_mark pg db h a.did).trans (hi.asked_stored a ha)
  asked := hi.asked
  log_stored r hr := (covers_mark pg db h r.did).trans (hi.log_stored r hr)
  log_asked := hi.log_asked
  log := hi.log

theorem inOrder_marked {s : Bell} {k : ℕ} (hi : InOrder db s) :
    InOrder db (s.step pg db (.marked k)) := by
  cases hk : s.marked[k]? with
  | none =>
    rw [step_marked_none hk]
    exact hi
  | some m =>
    rw [step_marked hk]
    have hnone : ∀ m', Covers db m.did m' none := fun m' t ht => by simp at ht
    refine ⟨hi.asked_stored, hi.asked, ?_, ?_, ?_⟩
    · intro r hr
      rcases List.mem_append.1 hr with hr | hr
      · exact hi.log_stored r hr
      · rw [List.mem_singleton.1 hr]
        exact hnone _
    · intro r hr
      rcases List.mem_append.1 hr with hr | hr
      · exact hi.log_asked r hr
      · rw [List.mem_singleton.1 hr]
        exact fun a _ _ => hnone _
    · rw [List.pairwise_append]
      refine ⟨hi.log, List.pairwise_singleton _ _, ?_⟩
      intro r _ r' hr'
      rw [List.mem_singleton.1 hr']
      trivial

theorem inOrder_ask {s : Bell} {did : String} {n : ℕ} {params : FeedParams}
    (hi : InOrder db s) : InOrder db (s.step pg db (.ask did n params)) := by
  refine ⟨?_, ?_, hi.log_stored, ?_, hi.log⟩
  · intro a ha
    rcases List.mem_append.1 ha with ha | ha
    · exact hi.asked_stored a ha
    · rw [List.mem_singleton.1 ha]
      exact Covers.refl db did _
  · refine List.pairwise_append.2 ⟨hi.asked, List.pairwise_singleton _ _, ?_⟩
    intro a ha b hb hd
    rw [List.mem_singleton.1 hb] at hd ⊢
    have h := hi.asked_stored a ha
    rw [show a.did = did from hd] at h ⊢
    exact h
  · intro r hr a ha hd
    rcases List.mem_append.1 ha with ha | ha
    · exact hi.log_asked r hr a ha hd
    · rw [List.mem_singleton.1 ha] at hd ⊢
      have h := hi.log_stored r hr
      rw [show r.did = did from hd] at h ⊢
      exact h

/-- What the listing that is answered read, what was read before it and after it. -/
theorem asked_split {s : Bell} {k : ℕ} {a : Asked} (hk : s.asked[k]? = some a) :
    s.asked = s.asked.take k ++ a :: s.asked.drop (k + 1) := by
  obtain ⟨hlt, ha⟩ := List.getElem?_eq_some_iff.1 hk
  rw [← ha, ← List.drop_eq_getElem_cons hlt, List.take_append_drop]

theorem inOrder_listed {s : Bell} {k : ℕ} (hi : InOrder db s)
    (h : (Event.listed k).Forward db s) : InOrder db (s.step pg db (.listed k)) := by
  cases hk : s.asked[k]? with
  | none =>
    rw [step_listed_none hk]
    exact hi
  | some a =>
    rw [step_listed hk]
    have hsub : (s.asked.eraseIdx k).Sublist s.asked := List.eraseIdx_sublist _ _
    have hsplit := asked_split hk
    have ha : a ∈ s.asked := List.mem_of_getElem? hk
    have hpair := hi.asked
    rw [hsplit, List.pairwise_append, List.pairwise_cons] at hpair
    refine ⟨fun b hb => hi.asked_stored b (hsub.subset hb), hi.asked.sublist hsub, ?_, ?_, ?_⟩
    · intro r hr
      rcases List.mem_append.1 hr with hr | hr
      · exact hi.log_stored r hr
      · rw [List.mem_singleton.1 hr]
        exact hi.asked_stored a ha
    · intro r hr b hb hd
      rcases List.mem_append.1 hr with hr | hr
      · exact hi.log_asked r hr b (hsub.subset hb) hd
      · -- The listings still in flight: those read before by the condition, the others by order.
        rw [List.mem_singleton.1 hr] at hd ⊢
        rw [List.eraseIdx_eq_take_drop_succ] at hb
        rcases List.mem_append.1 hb with hb | hb
        · exact h a hk b hb hd.symm
        · exact hpair.2.1.1 b hb hd
    · refine List.pairwise_append.2 ⟨hi.log, List.pairwise_singleton _ _, ?_⟩
      intro r hr r' hr'
      rw [List.mem_singleton.1 hr']
      intro hd
      have hcov := hi.log_asked r hr a ha hd
      rw [show r.did = a.did from hd] at hcov
      exact hcov

theorem inOrder_step {s : Bell} {e : Event} (hi : InOrder db s) (h : e.Forward db s) :
    InOrder db (s.step pg db e) := by
  cases e with
  | mark params now => exact inOrder_mark pg db hi h
  | marked k => exact inOrder_marked pg db hi
  | ask did n params => exact inOrder_ask pg db hi
  | listed k => exact inOrder_listed pg db hi h

theorem inOrder_run {s : Bell} {es : List Event} (hi : InOrder db s)
    (h : s.AllForward pg db es) : InOrder db (s.run pg db es) := by
  induction es generalizing s with
  | nil => exact hi
  | cons e es ih => exact ih (inOrder_step pg db hi h.1) h.2

/-! ### Responses from their markers -/

/-- A response is computed from its marker alone. -/
def Response.Computed : Response → Prop
  | .listed did seen out => ∃ n params, out = notificationsWith pg db seen n did params
  | .marked did seenAt count => count = Xrpc.unreadCount db did (some seenAt.instant)

theorem computed_step {s : Bell} (e : Event) (hc : ∀ r ∈ s.log, r.Computed pg db) :
    ∀ r ∈ (s.step pg db e).log, r.Computed pg db := by
  cases e with
  | mark params now => exact hc
  | ask did n params => exact hc
  | marked k =>
    cases hk : s.marked[k]? with
    | none =>
      rw [step_marked_none hk]
      exact hc
    | some m =>
      rw [step_marked hk]
      simp only [List.mem_append, List.mem_singleton, or_imp, forall_and, forall_eq]
      exact ⟨hc, rfl⟩
  | listed k =>
    cases hk : s.asked[k]? with
    | none =>
      rw [step_listed_none hk]
      exact hc
    | some a =>
      rw [step_listed hk]
      simp only [List.mem_append, List.mem_singleton, or_imp, forall_and, forall_eq]
      exact ⟨hc, a.n, a.params, rfl⟩

theorem computed_run {s : Bell} (es : List Event) (hc : ∀ r ∈ s.log, r.Computed pg db) :
    ∀ r ∈ (s.run pg db es).log, r.Computed pg db := by
  induction es generalizing s with
  | nil => exact hc
  | cons e es ih => exact ih (computed_step pg db e hc)

end Runs

/-! ### The badge -/

theorem isRead_view {V : AppView} {r : NotificationRow} (hr : r ∈ V.notifications)
    (seen : Option ℤ) :
    (notificationView V.toDb seen r).isRead = seen.any fun t => r.createdAt ≤ t := by
  simp only [notificationView, V.dated r hr]

/-- `<=` in the views and `>` in the counts disagree on no row. -/
theorem unreadCount_eq (V : AppView) (did : String) (seen : Option ℤ) :
    unreadCount V.toDb did seen =
      ((fullListing V.toDb did seen).filter fun v => !v.isRead).length := by
  unfold unreadCount fullListing
  rw [List.filter_map, List.length_map]
  refine congrArg List.length (List.filter_congr ?_)
  intro r hr
  have hmem : r ∈ V.notifications := (List.mem_filter.1 hr).1
  simp only [Function.comp_apply, isRead_view hmem]
  cases seen with
  | none => rfl
  | some t =>
    by_cases h : r.createdAt ≤ t
    · simp [h]
    · simp [h, not_le.1 h]

theorem computed_badge {pg : Postgres} {V : AppView} {r : Response} (h : r.Computed pg V.toDb) :
    r.unreadCount = ((fullListing V.toDb r.did r.marker).filter fun v => !v.isRead).length := by
  cases r with
  | listed did seen out =>
    obtain ⟨n, params, rfl⟩ := h
    exact unreadCount_eq V did seen
  | marked did seenAt count =>
    rw [show (Response.marked did seenAt count).unreadCount = _ from h]
    exact unreadCount_eq V did (some seenAt.instant)

/-! ### Read notifications stay read -/

/-- A view stands for a row of its actor. -/
theorem mem_notificationsWith {pg : Postgres} {db : Db} {seen : Option ℤ} {n : ℕ} {did : String}
    {params : FeedParams} {v : NotificationView}
    (hv : v ∈ (notificationsWith pg db seen n did params).items) :
    ∃ r ∈ (notificationsOf db did).rows, v = notificationView db seen r := by
  obtain ⟨r, hr, rfl⟩ := List.mem_map.1 hv
  have hpage := List.mem_of_mem_take (List.mem_of_mem_take hr)
  have hrow := ((pg.notifications_recent n).perm _).mem_iff.1 hpage
  exact ⟨r, (List.mem_filter.1 hrow).1, rfl⟩

theorem staysRead_of_covers {pg : Postgres} {V : AppView} {a b : Response}
    (ha : a.Computed pg V.toDb) (hb : b.Computed pg V.toDb) (hf : a.Follows V.toDb b)
    (hd : a.did = b.did) :
    ∀ v ∈ a.items, ∀ w ∈ b.items, SameNotification v w → v.isRead → w.isRead := by
  intro v hv w hw hsame hread
  cases a with
  | marked did seenAt count => simp [Response.items] at hv
  | listed did seen out =>
  cases b with
  | marked did' seenAt count => simp [Response.items] at hw
  | listed did' seen' out' =>
    obtain ⟨n, params, rfl⟩ := ha
    obtain ⟨n', params', rfl⟩ := hb
    obtain ⟨r, hr, rfl⟩ := mem_notificationsWith hv
    obtain ⟨r', hr', rfl⟩ := mem_notificationsWith hw
    have hrow : r ∈ V.notifications := (List.mem_filter.1 hr).1
    have hrow' : r' ∈ V.notifications := (List.mem_filter.1 hr').1
    have htime : r.createdAt = r'.createdAt := by
      rw [← V.dated r hrow, ← V.dated r' hrow']
      exact congrArg NotificationView.createdAt hsame
    rw [isRead_view hrow] at hread
    rw [isRead_view hrow', ← htime]
    simp only [Option.any_eq_true, decide_eq_true_eq] at hread ⊢
    obtain ⟨t, ht, hle⟩ := hread
    have hr₂ : r ∈ (notificationsOf V.toDb did').rows := by
      rw [show did' = did from hd.symm]
      exact hr
    exact hf hd t ht r hr₂ hle

theorem bell_agrees (pg : Postgres) (V : AppView) (rows : List SeenRow) (es : List Event)
    (h : (Bell.idle rows).AllForward pg V.toDb es) :
    BellAgrees V.toDb ((Bell.idle rows).run pg V.toDb es).log := by
  have hidle : InOrder V.toDb (Bell.idle rows) := by
    constructor <;> simp [Bell.idle]
  have hcomputed := computed_run pg V.toDb (s := Bell.idle rows) es (by simp [Bell.idle])
  constructor
  · refine (inOrder_run pg V.toDb hidle h).log.imp_of_mem ?_
    intro a b ha hb hf hd
    exact staysRead_of_covers (hcomputed a ha) (hcomputed b hb) hf hd
  · intro r hr
    exact computed_badge (hcomputed r hr)

/-! ### A marker that is set back -/

def reply : NotificationRow :=
  { recipientDid := "did:plc:a", authorDid := "did:plc:b", reason := "reply"
    subjectUri := "at://did:plc:b/fm.atradio.comment/1", station := some jazz
    text := some "hello", createdAt := 7000000 }

def oneReply : AppView :=
  { users := [], stations := [], favorites := [], recentlyPlayed := [], comments := []
    notifications := [reply], notificationSeen := []
    dated := by decide }

def markAt (seconds : ℤ) : Event :=
  .mark { did := "did:plc:a", seenAt := some ⟨seconds * 1000⟩ } ⟨60000⟩

def askBell : Event := .ask "did:plc:a" 0 { limit := none, cursor := none }

theorem bell_agrees_forward :
    BellAgrees oneReply.toDb ((Bell.idle []).run stable oneReply.toDb
      [askBell, markAt 5, askBell, markAt 10, askBell, .listed 0, .listed 0, .listed 0,
        .marked 1, .marked 0]).log :=
  bell_agrees stable oneReply [] _ (by decide +kernel)

/-- Another device sends the time at which it looked last. -/
theorem read_reply_unread :
    ¬ BellAgrees oneReply.toDb ((Bell.idle []).run stable oneReply.toDb
      [markAt 10, askBell, .listed 0, markAt 5, askBell, .listed 0]).log := by
  intro h
  have hpair := (List.pairwise_cons.1 h.staysRead).1 _ (List.mem_singleton_self _) rfl
  have hview := hpair (notificationView oneReply.toDb (some 10000000) reply)
    (List.mem_singleton_self _) (notificationView oneReply.toDb (some 5000000) reply)
    (List.mem_singleton_self _) rfl
  exact absurd (hview (by decide)) (by decide)

end Atradio.Xrpc
