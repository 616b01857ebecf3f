import Atradio.Jetstream.Notifications

/-! # The owner of a station

A record key is unique only within its repository. The lookup of a station's owner knows
the key alone: what others publish under it may stand before the owner's row. -/

namespace Atradio.Jetstream
open Atradio.Lib

/-- The first row under a record key. -/
def Db.firstUnder (db : Db) (rkey : String) : Option StationRow :=
  db.stations.rows.find? fun r => r.rkey = rkey

/-- Rows under `rkey`, by others than `did`, have come into the stations, anywhere among the
rows that were there. -/
structure Joined (did rkey : String) (added : StationRow → Bool) (before after : Db) : Prop where
  stations : before.stations.rows = after.stations.rows.filter fun r => !added r
  rest : { before with stations := after.stations } = after
  foreign : ∀ r ∈ after.stations.rows, added r → r.did ≠ did ∧ r.rkey = rkey
  filed : ∀ r ∈ after.stations.rows, r.uri = atUri r.did NSID.station r.rkey

/-- The "comment" notification of the comment with this uri. -/
def Db.received (db : Db) (uri recipient : String) : Prop :=
  ∃ row ∈ db.notificationsFor uri, row.recipientDid = recipient ∧ row.reason = .comment

instance (db : Db) (uri : String) : DecidablePred (db.received uri) := fun recipient =>
  inferInstanceAs (Decidable (∃ row ∈ db.notificationsFor uri,
    row.recipientDid = recipient ∧ row.reason = .comment))

/-- As the owner, `recipient` would be notified of the comment. -/
def Db.Notifiable (db : Db) (author uri : String) (facets : Option (List Mention))
    (recipient : String) : Prop :=
  recipient ≠ "" ∧ recipient ≠ author ∧ ¬ Mentioned author facets recipient ∧
    (db.withoutSubject uri).get (notificationId .comment uri recipient) = none

instance (db : Db) (author uri : String) (facets : Option (List Mention)) :
    DecidablePred (db.Notifiable author uri facets) := fun recipient =>
  inferInstanceAs (Decidable (recipient ≠ "" ∧ recipient ≠ author ∧
    ¬ Mentioned author facets recipient ∧
    (db.withoutSubject uri).get (notificationId .comment uri recipient) = none))

section Joined

variable {did rkey : String} {added : StationRow → Bool} {db db' : Db}

theorem Joined.notifiable (h : Joined did rkey added db db') :
    db'.Notifiable = db.Notifiable := by
  rw [← h.rest]
  rfl

theorem Joined.firstUnder_kept (h : Joined did rkey added db db')
    (hkept : ∀ row, db'.firstUnder rkey = some row → added row = false) :
    db.firstUnder rkey = db'.firstUnder rkey := by
  unfold Db.firstUnder at hkept ⊢
  rw [h.stations, List.find?_filter]
  cases hfirst : db'.stations.rows.find? fun r => r.rkey = rkey with
  | none =>
    rw [List.find?_eq_none] at hfirst ⊢
    intro r hr
    simpa using fun _ => by simpa using hfirst r hr
  | some row =>
    obtain ⟨hrkey, pre, post, hrows, hpre⟩ := List.find?_eq_some_iff_append.1 hfirst
    refine List.find?_eq_some_iff_append.2 ⟨?_, pre, post, hrows, fun r hr => ?_⟩
    · simpa [hkept row hfirst] using hrkey
    · have hne := hpre r hr
      simp only [Bool.not_eq_true', decide_eq_false_iff_not] at hne
      simp [hne]

theorem firstUnder_mem {row : StationRow} (h : db.firstUnder rkey = some row) :
    row ∈ db.stations.rows ∧ row.rkey = rkey :=
  ⟨List.mem_of_find?_eq_some h, by simpa using List.find?_some h⟩

/-- Of two rows under one key, of which one has come in, the authors differ. -/
theorem Joined.apart (h : Joined did rkey added db db') {row old : StationRow}
    (hrow : db'.firstUnder rkey = some row) (hadded : added row)
    (hold : db.firstUnder rkey = some old) : row.did ≠ old.did := by
  obtain ⟨hmem, hrkey⟩ := firstUnder_mem hrow
  obtain ⟨hmem', hrkey'⟩ := firstUnder_mem hold
  rw [h.stations, List.mem_filter] at hmem'
  intro hdid
  have huri : row.uri = old.uri := by
    rw [h.filed row hmem, h.filed old hmem'.1, hdid, hrkey, hrkey']
  have hsame : row = old := Table.eq_of_key hmem hmem'.1 huri
  rw [← hsame, hadded] at hmem'
  cases hmem'.2

end Joined

variable {parseDate : String → Option ℤ} {evt : JetstreamEvent} {c : Commit}
  {ω ω' : ℕ → Choice} {w : World}

/-- The owner row that the lookup meets first receives the notification, if it can. -/
theorem received_iff (hc : evt.commit = some c) (hcoll : c.collection = NSID.comment)
    (hop : c.operation ≠ .delete) {r : CommentRecord}
    (hr : c.record.bind commentRecordSchema = some r) {t : ℤ} (ht : parseDate r.createdAt = some t)
    {rkey : String} (hst : customRkey r.station.stationId = some rkey) (hω : ∀ n, Calm (ω n))
    (recipient : String) :
    (process parseDate w (evt, ω)).db.received (atUri evt.did.did NSID.comment c.rkey) recipient ↔
      (∃ row, w.db.firstUnder rkey = some row ∧ row.did = recipient) ∧
        w.db.Notifiable evt.did.did (atUri evt.did.did NSID.comment c.rkey) r.facets recipient := by
  obtain ⟨now, hboard⟩ := process_written (w := w) hc hcoll hop hr ht hω
  obtain ⟨hnotes, _⟩ := Prod.mk.inj hboard
  have hrows := notificationsFor_insert hnotes
    (fun row hrow => (mem_notificationRows hrow).1) (notificationRows_ids _)
    (atUri evt.did.did NSID.comment c.rkey)
  rw [if_pos rfl] at hrows
  have howner : w.db.stationOwner r.station.stationId = some recipient ↔
      ∃ row, w.db.firstUnder rkey = some row ∧ row.did = recipient := by
    simp only [Db.stationOwner, hst]
    exact Option.map_eq_some_iff
  unfold Db.received
  rw [hrows, ← howner]
  constructor
  · rintro ⟨row, hrow, rfl, hreason⟩
    obtain ⟨hrow, hfree⟩ := List.mem_filter.1 hrow
    obtain ⟨hown, hne, hauthor, hmention⟩ := notificationRows_due.1 ⟨row, hrow, rfl, hreason⟩
    rw [(mem_notificationRows hrow).2.1, hreason] at hfree
    exact ⟨hown, hne, hauthor, hmention, Option.isNone_iff_eq_none.1 hfree⟩
  · rintro ⟨hown, hne, hauthor, hmention, hfree⟩
    have hdue : Due evt.did.did r.facets (w.db.stationOwner r.station.stationId) recipient
        .comment := ⟨hown, hne, hauthor, hmention⟩
    obtain ⟨row, hrow, rfl, hreason⟩ := notificationRows_due.2 hdue
    refine ⟨row, List.mem_filter.2 ⟨hrow, ?_⟩, rfl, hreason⟩
    rw [(mem_notificationRows hrow).2.1, hreason, hfree]
    rfl

/-- What others publish under a station's key leaves the recipient as it was if and only if
no row of theirs comes first in a lookup that notifies somebody. -/
theorem owner_uninfluenced_iff (hc : evt.commit = some c) (hcoll : c.collection = NSID.comment)
    (hop : c.operation ≠ .delete) {r : CommentRecord}
    (hr : c.record.bind commentRecordSchema = some r) {t : ℤ} (ht : parseDate r.createdAt = some t)
    {rkey : String} (hst : customRkey r.station.stationId = some rkey) (hω : ∀ n, Calm (ω n))
    (hω' : ∀ n, Calm (ω' n)) {did : String} {added : StationRow → Bool} {db' : Db}
    (hjoin : Joined did rkey added w.db db') :
    (∀ recipient,
      (process parseDate { w with db := db' } (evt, ω')).db.received
          (atUri evt.did.did NSID.comment c.rkey) recipient ↔
        (process parseDate w (evt, ω)).db.received
          (atUri evt.did.did NSID.comment c.rkey) recipient) ↔
      ∀ row, db'.firstUnder rkey = some row → added row → ∀ d,
        d = row.did ∨ (∃ old, w.db.firstUnder rkey = some old ∧ d = old.did) →
        ¬ w.db.Notifiable evt.did.did (atUri evt.did.did NSID.comment c.rkey) r.facets d := by
  have hafter := received_iff (w := { w with db := db' }) hc hcoll hop hr ht hst hω'
  have hbefore := received_iff (w := w) hc hcoll hop hr ht hst hω
  simp only [hafter, hbefore, hjoin.notifiable]
  constructor
  · intro h row hrow hadded d hd hnote
    rcases hd with rfl | ⟨old, hold, rfl⟩
    · obtain ⟨⟨old, hold, hdid⟩, _⟩ := (h row.did).1 ⟨⟨row, hrow, rfl⟩, hnote⟩
      exact hjoin.apart hrow hadded hold hdid.symm
    · obtain ⟨⟨row', hrow', hdid⟩, _⟩ := (h old.did).2 ⟨⟨old, hold, rfl⟩, hnote⟩
      obtain rfl := Option.some.inj (hrow.symm.trans hrow')
      exact hjoin.apart hrow hadded hold hdid
  · intro h recipient
    by_cases hfirst : ∃ row, db'.firstUnder rkey = some row ∧ added row
    · obtain ⟨row, hrow, hadded⟩ := hfirst
      refine iff_of_false ?_ ?_
      · rintro ⟨⟨row', hrow', rfl⟩, hnote⟩
        exact h row hrow hadded _ (Or.inl (by rw [Option.some.inj (hrow'.symm.trans hrow)])) hnote
      · rintro ⟨⟨old, hold, rfl⟩, hnote⟩
        exact h row hrow hadded _ (Or.inr ⟨old, hold, rfl⟩) hnote
    · have hsame := hjoin.firstUnder_kept fun row hrow => by
        simpa using fun hadded => hfirst ⟨row, hrow, hadded⟩
      rw [hsame]

/-! ### Two stations with one record key -/

def stationBy (did : String) : StationRow :=
  { uri := atUri did NSID.station "k", did, rkey := "k", name := "One", streamUrl := "http://one"
    description := none, genre := none, homepage := none, logoUrl := none, tags := none
    createdAt := 0, indexedAt := 0 }

/-- The stations of these authors under one key. -/
def stationsOf (dids : List String) : Db :=
  { stations := dids.foldl (fun t did => t.insertNew (stationBy did)) Table.empty }

/-- A commit that creates a comment on a custom station. -/
def customEvent : JetstreamEvent :=
  { did := alice
    timeUs := 1
    kind := .commit
    commit := some
      { operation := .create, collection := NSID.comment, rkey := "c", cid := some "bafy"
        record := some (.obj
          [("station", .obj [("stationId", .str "custom:k"), ("name", .str "One"),
              ("streamUrl", .str "http://one"), ("source", .str "custom")]),
            ("text", .str "hi"),
            ("createdAt", .str "1970-01-01T00:00:00Z")]) } }

def byOther (row : StationRow) : Bool := row.did = "did:plc:other"

theorem joined_first : Joined "did:plc:owner" "k" byOther (stationsOf ["did:plc:owner"])
    (stationsOf ["did:plc:other", "did:plc:owner"]) where
  stations := by decide +kernel
  rest := rfl
  foreign := by decide +kernel
  filed := by decide +kernel

theorem joined_last : Joined "did:plc:owner" "k" byOther (stationsOf ["did:plc:owner"])
    (stationsOf ["did:plc:owner", "did:plc:other"]) where
  stations := by decide +kernel
  rest := rfl
  foreign := by decide +kernel
  filed := by decide +kernel

theorem owner_displaced :
    ¬ ∀ (w : World) (db' : Db) (evt : JetstreamEvent) (c : Commit) (r : CommentRecord) (t : ℤ)
        (rkey did : String) (added : StationRow → Bool),
      evt.commit = some c → c.collection = NSID.comment → c.operation = .create →
      c.record.bind commentRecordSchema = some r → epochDate r.createdAt = some t →
      customRkey r.station.stationId = some rkey →
      (∃ row ∈ w.db.stations.rows, row.did = did ∧ row.rkey = rkey) →
      Joined did rkey added w.db db' →
      ∀ recipient,
        (process epochDate { w with db := db' } (evt, calm)).db.received
            (atUri evt.did.did NSID.comment c.rkey) recipient ↔
          (process epochDate w (evt, calm)).db.received
            (atUri evt.did.did NSID.comment c.rkey) recipient := by
  intro h
  have hsame := h { db := stationsOf ["did:plc:owner"] }
    (stationsOf ["did:plc:other", "did:plc:owner"]) customEvent _ _ _ "k" "did:plc:owner" byOther
    rfl rfl rfl rfl rfl (by decide +kernel) (by decide +kernel) joined_first "did:plc:other"
  have hafter : (process epochDate { db := stationsOf ["did:plc:other", "did:plc:owner"] }
      (customEvent, calm)).db.received "at://did:plc:alice/fm.atradio.comment/c" "did:plc:other" := by
    decide +kernel
  have hbefore : ¬ (process epochDate { db := stationsOf ["did:plc:owner"] }
      (customEvent, calm)).db.received "at://did:plc:alice/fm.atradio.comment/c" "did:plc:other" := by
    decide +kernel
  exact hbefore (hsame.1 hafter)

theorem owner_undisturbed :
    (process epochDate { db := stationsOf ["did:plc:owner", "did:plc:other"] }
        (customEvent, calm)).db.received "at://did:plc:alice/fm.atradio.comment/c"
          "did:plc:owner" ↔
      (process epochDate { db := stationsOf ["did:plc:owner"] } (customEvent, calm)).db.received
        "at://did:plc:alice/fm.atradio.comment/c" "did:plc:owner" := by
  obtain ⟨_, h⟩ := @owner_uninfluenced_iff epochDate customEvent _ calm calm
    { db := stationsOf ["did:plc:owner"] } rfl rfl (by decide) _ rfl _ rfl "k" (by decide +kernel)
    (fun _ => rfl) (fun _ => rfl) "did:plc:owner" byOther _ joined_last
  refine h (fun row hrow hadded => ?_) "did:plc:owner"
  have hfirst : (stationsOf ["did:plc:owner", "did:plc:other"]).firstUnder "k" =
      some (stationBy "did:plc:owner") := by decide +kernel
  obtain rfl := Option.some.inj (hfirst.symm.trans hrow)
  exact absurd hadded (by decide +kernel)

end Atradio.Jetstream
