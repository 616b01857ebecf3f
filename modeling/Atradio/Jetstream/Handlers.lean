import Mathlib.Algebra.BigOperators.Group.Finset.Basic
import Mathlib.Algebra.Order.BigOperators.Group.Finset
import Atradio.Lib.Run
import Atradio.Jetstream.Mirror

/-! # Handlers in flight

Handlers of messages run concurrently with each other, with the persistence of the cursor
and with reconnects. A handler first indexes its commit, then mirrors it. -/

namespace Atradio.Jetstream
open Atradio.Lib

variable (parseDate : String → Option ℤ)

abbrev Process := Pool jetstream Job World

abbrev Process.step (P : Process) (e : Turn Job Choice) : Process :=
  Pool.step machine (main parseDate) P e

def Process.init (w : World) : Process := { state := w }

variable {parseDate}

theorem run_traced (w : World) (es : List (Turn Job Choice)) :
    Pool.Traced (main parseDate) (run (Process.step parseDate) (Process.init w) es) :=
  run_kept (fun _ e h => h.step e) (Pool.traced_init w) es

/-- The handler has done what `processCommit` does for the event, to its end. -/
def Indexed (parseDate : String → Option ℤ) (evt : JetstreamEvent) (l : List (Entry jetstream)) :
    Prop :=
  ∃ l1 l2, l = .did (.seeTime evt.timeUs) () :: (l1 ++ l2) ∧
    Path (processCommit parseDate evt) l1 (.pure ())

/-- Where a handler of a commit can be. -/
inductive Stage (parseDate : String → Option ℤ) (evt : JetstreamEvent)
    (l : List (Entry jetstream)) (p : Task) : Prop where
  | fresh (h : l = []) (hp : p = handleEvent parseDate evt)
  | indexing (l1) (p') (h : l = .did (.seeTime evt.timeUs) () :: l1)
      (h1 : Path (processCommit parseDate evt) l1 p')
      (hp : p = (p'.tryCatch (perform .logError)).bind fun _ => forwardCommitToFirehose evt)
  | failing (l1) (h : l = .did (.seeTime evt.timeUs) () :: l1)
      (h1 : Path (processCommit parseDate evt) l1 .throw)
      (hp : p = (perform .logError).bind fun _ => forwardCommitToFirehose evt)
  | failed (l1 l2) (h : l = .did (.seeTime evt.timeUs) () :: (l1 ++ .did .logError () :: l2))
      (h1 : Path (processCommit parseDate evt) l1 .throw)
      (h2 : Path (forwardCommitToFirehose evt) l2 p)
  | forwarding (l1 l2) (h : l = .did (.seeTime evt.timeUs) () :: (l1 ++ l2))
      (h1 : Path (processCommit parseDate evt) l1 (.pure ()))
      (h2 : Path (forwardCommitToFirehose evt) l2 p)

theorem handleEvent_stage {evt : JetstreamEvent} (hk : evt.kind = .commit)
    {l : List (Entry jetstream)} {p : Task} (h : Path (handleEvent parseDate evt) l p) :
    Stage parseDate evt l p := by
  have hfresh : l = [] → p = handleEvent parseDate evt → Stage parseDate evt l p := .fresh
  unfold handleEvent at h hfresh
  rw [if_pos hk] at h hfresh
  cases h with
  | nil => exact hfresh rfl rfl
  | @act _ _ _ l _ h =>
    clear hfresh
    have h : Path ((Prog.tryCatch (processCommit parseDate evt) (perform .logError)).bind
        fun _ => forwardCommitToFirehose evt) l p := h
    rcases h.of_bind with ⟨p', h1, rfl⟩ | ⟨l1, l2, _, rfl, h1, h2⟩
    · rcases h1.of_tryCatch with ⟨p'', h2, rfl⟩ | ⟨l1, l2, rfl, h2, h3⟩
      · exact .indexing _ p'' rfl h2 rfl
      · cases h3 with
        | nil =>
          rw [List.append_nil]
          exact .failing l1 rfl h2 rfl
        | act h3 =>
          cases h3
          exact .failed l1 [] rfl h2 (.nil _)
    · rcases h1.of_tryCatch with ⟨p'', h3, hp⟩ | ⟨l3, l4, rfl, h3, h4⟩
      · cases p'' with
        | pure a => exact .forwarding l1 l2 rfl h3 h2
        | throw => cases hp
        | act a k => cases hp
        | ask q k => cases hp
      · cases h4 with
        | act h4 =>
          cases h4
          rw [List.append_assoc]
          exact .failed l3 l2 rfl h3 h2

/-! ### What a handler selects -/

section Selected

variable {γ : Type} {sel : Entry jetstream → Option γ} {evt : JetstreamEvent} {ys : List γ}
  {l : List (Entry jetstream)} {p : Task}

/-- A selection that looks only at what `processCommit` does. -/
structure OfIndexing (sel : Entry jetstream → Option γ) (evt : JetstreamEvent) : Prop where
  see : ∀ t r, sel (.did (.seeTime t) r) = none
  log : ∀ r, sel (.did .logError r) = none
  forward : Yields sel (forwardCommitToFirehose evt) []

theorem handler_along (hs : OfIndexing sel evt) (hy : Yields sel (processCommit parseDate evt) ys)
    (hk : evt.kind = .commit) (h : Path (handleEvent parseDate evt) l p) :
    l.filterMap sel <+: ys := by
  cases handleEvent_stage hk h with
  | fresh hl _ =>
    subst hl
    exact List.nil_prefix
  | indexing l1 p' hl h1 _ =>
    subst hl
    rw [List.filterMap_cons_none (hs.see _ _)]
    exact hy.along l1 p' h1
  | failing l1 hl h1 _ =>
    subst hl
    rw [List.filterMap_cons_none (hs.see _ _)]
    exact hy.along l1 _ h1
  | failed l1 l2 hl h1 h2 =>
    subst hl
    rw [List.filterMap_cons_none (hs.see _ _), List.filterMap_append,
      List.filterMap_cons_none (hs.log _), List.prefix_nil.1 (hs.forward.along l2 p h2),
      List.append_nil]
    exact hy.along l1 _ h1
  | forwarding l1 l2 hl h1 h2 =>
    subst hl
    rw [List.filterMap_cons_none (hs.see _ _), List.filterMap_append,
      List.prefix_nil.1 (hs.forward.along l2 p h2), List.append_nil, hy.onReturn l1 () h1]

theorem indexed_selects (hs : OfIndexing sel evt) (hy : Yields sel (processCommit parseDate evt) ys)
    (hk : evt.kind = .commit) (h : Path (handleEvent parseDate evt) l p)
    (hi : Indexed parseDate evt l) : l.filterMap sel = ys := by
  refine (handler_along hs hy hk h).eq_of_length_le ?_
  obtain ⟨l1, l2, rfl, h1⟩ := hi
  rw [List.filterMap_cons_none (hs.see _ _), List.filterMap_append, List.length_append,
    hy.onReturn l1 () h1]
  omega

end Selected

end Atradio.Jetstream
