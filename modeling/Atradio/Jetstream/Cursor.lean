import Atradio.Jetstream.Handlers

/-! # The cursor

The cursor moves when a message arrives; it is written to the database by a timer, and
used when a connection is opened. -/

namespace Atradio.Jetstream
open Atradio.Lib

variable (parseDate : String → Option ℤ)

/-- The value of the cursor an entry writes to the table or resumes a host with. -/
def usesCursor : Entry jetstream → Option ℕ
  | .got (.upsertCursor row) _ => some row.timeUs
  | .did (.openSocket _ cursor) _ => cursor
  | _ => none

def Process.uses (P : Process) (e : Turn Job Choice) : List ℕ :=
  ((P.step parseDate e).log.drop P.log.length).filterMap fun e => usesCursor e.2

/-- The delivered commits up to a time, each with its task and where its handler is. -/
def Process.Delivered (P : Process) (c : ℕ) (t : ℕ) (evt : JetstreamEvent) (p : Task) : Prop :=
  ∃ host n, P.tasks[t]? = some (.message host n evt, p) ∧ evt.kind = .commit ∧ evt.timeUs ≤ c

/-- Whatever cursor a turn uses, the commits delivered up to it are indexed. -/
def CursorSafe (P : Process) (e : Turn Job Choice) : Prop :=
  ∀ c ∈ P.uses parseDate e, ∀ t evt p, P.Delivered c t evt p → Indexed parseDate evt (P.logOf t)

def claims : Entry jetstream → Bool
  | .did (.claimFirstDelivery _) _ => true
  | _ => false

def errs : Entry jetstream → Bool
  | .did .logError _ => true
  | _ => false

/-- The handler has gone on to the mirror or has returned, and has reported no error. -/
def Past (l : List (Entry jetstream)) (p : Task) : Prop :=
  (p = .pure () ∨ l.any claims) ∧ l.any errs = false

/-- All handlers are past the indexing, none with an error. -/
def Process.Handled (P : Process) : Prop :=
  ∀ t host n evt p, P.tasks[t]? = some (.message host n evt, p) → evt.kind = .commit →
    Past (P.logOf t) p

/-- Whatever cursor a turn uses, the handlers of the commits delivered up to it are past
the indexing. -/
def InStep (P : Process) (e : Turn Job Choice) : Prop :=
  ∀ c ∈ P.uses parseDate e, ∀ t evt p, P.Delivered c t evt p → Past (P.logOf t) p

variable {parseDate}

def claimsSel (e : Entry jetstream) : Option Unit := if claims e then some () else none

theorem claimsSel_watches : Watches claimsSel (fun _ => none) none := by
  refine ⟨fun _ _ _ => rfl, fun a r ha => ?_, fun q r => ?_, fun _ => rfl⟩
  · cases a <;> first | rfl | cases ha
  · cases q <;> rfl

theorem processCommit_claims {evt : JetstreamEvent} {l : List (Entry jetstream)} {p : Task}
    (h : Path (processCommit parseDate evt) l p) : l.any claims = false := by
  have hprefix := (processCommit_watched parseDate claimsSel_watches evt).along l p h
  have hnil : l.filterMap claimsSel = [] := by
    simpa using hprefix
  rw [List.any_eq_false]
  intro e he
  have hsel := List.filterMap_eq_nil_iff.1 hnil e he
  intro hc
  simp [claimsSel, hc] at hsel

theorem indexed_of_past {evt : JetstreamEvent} (hk : evt.kind = .commit)
    {l : List (Entry jetstream)} {p : Task} (h : Path (handleEvent parseDate evt) l p)
    (hpast : Past l p) : Indexed parseDate evt l := by
  obtain ⟨hdone, herr⟩ := hpast
  have hbind : ∀ p' : Task, (p'.bind fun _ => forwardCommitToFirehose evt) = .pure () →
      p' = .pure () := by
    intro p' hp'
    cases p' with
    | pure a => rfl
    | _ => cases hp'
  cases handleEvent_stage hk h with
  | fresh hl hp =>
    subst hl
    rcases hdone with hd | hd
    · rw [hd, handleEvent] at hp
      cases hp
    · cases hd
  | indexing l1 p' hl h1 hp =>
    subst hl
    rcases hdone with hd | hd
    · have hp' := hbind _ (hp.symm.trans hd)
      cases p' with
      | pure a => exact ⟨l1, [], by rw [List.append_nil], h1⟩
      | throw => cases hp'
      | act a k => cases hp'
      | ask q k => cases hp'
    · have hnone := processCommit_claims h1
      rw [List.any_cons, hnone] at hd
      cases hd
  | failing l1 hl h1 hp =>
    subst hl
    rcases hdone with hd | hd
    · have hp' := hbind _ (hp.symm.trans hd)
      cases hp'
    · have hnone := processCommit_claims h1
      rw [List.any_cons, hnone] at hd
      cases hd
  | failed l1 l2 hl h1 h2 =>
    subst hl
    simp [errs] at herr
  | forwarding l1 l2 hl h1 h2 => exact ⟨l1, l2, hl, h1⟩

def unfavoriteEvent : JetstreamEvent :=
  { did := alice
    timeUs := 5
    kind := .commit
    commit := some
      { operation := .delete, collection := NSID.favorite, rkey := "3kfav", record := none,
        cid := none } }

def unfavoriteStart : Turn Job Choice := .start (.message "jetstream1" 0 unfavoriteEvent) {}

end Atradio.Jetstream
