import Mathlib.Algebra.BigOperators.Group.Finset.Piecewise
import Atradio.Jetstream.Cursor
import Atradio.Jetstream.Sequential

/-! # Live fan-out

Each delivery of a create commit publishes once: nothing between the delivery and
`publishLive` looks at what an earlier delivery did. -/

namespace Atradio.Jetstream
open Atradio.Lib

theorem countP_by_task {E : Type} (n : ℕ) (p : ℕ → Bool) (q : E → Bool) (l : List (ℕ × E))
    (h : ∀ e ∈ l, e.1 < n) :
    (l.countP fun e => p e.1 && q e.2) = ∑ t ∈ Finset.range n,
      if p t then (l.filterMap fun e => if e.1 = t then some e.2 else none).countP q else 0 := by
  induction l with
  | nil => simp
  | cons e l ih =>
    have hcons : ∀ t, (if p t then ((e :: l).filterMap fun e =>
          if e.1 = t then some e.2 else none).countP q else 0) =
        (if p t then (l.filterMap fun e => if e.1 = t then some e.2 else none).countP q else 0) +
          if e.1 = t then (if p e.1 && q e.2 then 1 else 0) else 0 := by
      intro t
      by_cases ht : e.1 = t
      · subst ht
        cases hp : p e.1 <;> simp [List.countP_cons]
      · simp [ht]
    have hmem : e.1 ∈ Finset.range n := Finset.mem_range.2 (h e (List.mem_cons_self ..))
    rw [List.countP_cons, ih fun e he => h e (List.mem_cons_of_mem _ he)]
    simp only [hcons, Finset.sum_add_distrib, Finset.sum_ite_eq, if_pos hmem]

variable (parseDate : String → Option ℤ)

def Job.copyOf (did : String) (number : ℕ) : Job → Bool
  | .message _ n evt => decide (n = number ∧ evt.did.did = did ∧ evt.kind = .commit)
  | _ => false

/-- A copy of the commit, which creates a comment or a reaction of its schema. -/
def Job.creates (did : String) (number : ℕ) (j : Job) : Bool :=
  j.copyOf did number &&
    match j with
    | .message _ _ evt => publishes parseDate evt
    | _ => false

def isLive : Entry jetstream → Bool
  | .did (.publishLive _ _) _ => true
  | _ => false

def Process.deliveries (P : Process) (did : String) (number : ℕ) : ℕ :=
  P.tasks.countP fun t => t.1.creates parseDate did number

def Process.calls (P : Process) (did : String) (number : ℕ) : ℕ :=
  P.log.countP fun e => ((P.tasks[e.1]?).any fun t => t.1.copyOf did number) && isLive e.2

/-- A task that counts here is a delivery of the commit. -/
theorem copy_cases (did : String) (number : ℕ) (j : Job) :
    ¬ j.copyOf did number = true ∧ ¬ j.creates parseDate did number = true ∨
      ∃ host n evt, j = .message host n evt ∧ evt.kind = .commit ∧ j.copyOf did number = true ∧
        j.creates parseDate did number = publishes parseDate evt := by
  cases hj : j.copyOf did number with
  | false => exact Or.inl ⟨Bool.false_ne_true, by simp [Job.creates, hj]⟩
  | true =>
    cases j with
    | message host n evt =>
      have hcopy : n = number ∧ evt.did.did = did ∧ evt.kind = .commit := of_decide_eq_true hj
      refine Or.inr ⟨host, n, evt, rfl, hcopy.2.2, rfl, ?_⟩
      rw [Job.creates, hj, Bool.true_and]
    | _ => cases hj

variable {parseDate}

def liveSel (e : Entry jetstream) : Option Unit := if isLive e then some () else none

theorem liveSel_watches : Watches liveSel (fun _ => none) (some ()) := by
  refine ⟨fun _ _ _ => rfl, fun a r ha => ?_, fun q r => ?_, fun _ => rfl⟩
  · cases a <;> first | rfl | cases ha
  · cases q <;> rfl

theorem countP_isLive (l : List (Entry jetstream)) :
    l.countP isLive = (l.filterMap liveSel).length := by
  induction l with
  | nil => rfl
  | cons e l ih =>
    rw [List.countP_cons, ih, List.filterMap_cons]
    cases h : isLive e <;> simp [liveSel, h]

theorem processCommit_live (evt : JetstreamEvent) :
    Yields liveSel (processCommit parseDate evt)
      (bif publishes parseDate evt then [()] else []) := by
  have h := processCommit_watched parseDate liveSel_watches evt
  rw [Option.bind_fun_none] at h
  exact h

theorem liveSel_indexing (evt : JetstreamEvent) : OfIndexing liveSel evt :=
  ⟨fun _ _ => rfl, fun _ => rfl,
    liveSel_watches.narrow.forward (fun _ _ => rfl) (fun _ _ _ => rfl) evt⟩

/-- A handler publishes at most once, and once when it has indexed a fresh record. -/
theorem handler_live {evt : JetstreamEvent} (hk : evt.kind = .commit)
    {l : List (Entry jetstream)} {p : Task} (h : Path (handleEvent parseDate evt) l p) :
    l.countP isLive ≤ bif publishes parseDate evt then 1 else 0 := by
  have hle := (handler_along (liveSel_indexing evt) (processCommit_live evt) hk h).length_le
  rw [countP_isLive]
  cases hpub : publishes parseDate evt <;> rw [hpub] at hle <;> exact hle

theorem indexed_live {evt : JetstreamEvent} (hk : evt.kind = .commit)
    {l : List (Entry jetstream)} {p : Task} (h : Path (handleEvent parseDate evt) l p)
    (hpast : Past l p) :
    l.countP isLive = bif publishes parseDate evt then 1 else 0 := by
  rw [countP_isLive, indexed_selects (liveSel_indexing evt) (processCommit_live evt) hk h
    (indexed_of_past hk h hpast)]
  cases publishes parseDate evt <;> rfl

theorem calls_eq {P : Process} (hP : Pool.Traced (main parseDate) P) (did : String) (number : ℕ) :
    P.calls did number = ∑ t ∈ Finset.range P.tasks.length,
      if (P.tasks[t]?).any fun t => t.1.copyOf did number then (P.logOf t).countP isLive else 0 :=
  countP_by_task P.tasks.length
    (fun t => (P.tasks[t]?).any fun (j : Job × Task) => j.1.copyOf did number) isLive P.log hP.known

theorem countP_eq_sum {α : Type} (p : α → Bool) (l : List α) :
    l.countP p = ∑ t ∈ Finset.range l.length, if (l[t]?).any p then 1 else 0 := by
  induction l with
  | nil => simp
  | cons a l ih =>
    rw [List.countP_cons, List.length_cons, Finset.sum_range_succ', ih]
    simp

theorem call_le {P : Process} (hP : Pool.Traced (main parseDate) P) (did : String) (number t : ℕ) :
    (if (P.tasks[t]?).any fun t => t.1.copyOf did number then (P.logOf t).countP isLive else 0) ≤
      if (P.tasks[t]?).any fun t => t.1.creates parseDate did number then 1 else 0 := by
  cases ht : P.tasks[t]? with
  | none => simp
  | some jp =>
    obtain ⟨j, p⟩ := jp
    simp only [Option.any_some]
    obtain ⟨hcopy, -⟩ | ⟨host, n, evt, rfl, hkind, hcopy, hcreates⟩ :=
      copy_cases parseDate did number j
    · rw [if_neg hcopy]
      exact Nat.zero_le _
    · have hle := handler_live hkind (hP.path t _ p ht)
      rw [if_pos hcopy]
      simp only [hcreates]
      cases hpub : publishes parseDate evt <;> rw [hpub] at hle <;> simpa using hle

theorem call_eq {P : Process} (hP : Pool.Traced (main parseDate) P) (hh : P.Handled)
    (did : String) (number t : ℕ) :
    (if (P.tasks[t]?).any fun t => t.1.copyOf did number then (P.logOf t).countP isLive else 0) =
      if (P.tasks[t]?).any fun t => t.1.creates parseDate did number then 1 else 0 := by
  cases ht : P.tasks[t]? with
  | none => simp
  | some jp =>
    obtain ⟨j, p⟩ := jp
    simp only [Option.any_some]
    obtain ⟨hcopy, hnone⟩ | ⟨host, n, evt, rfl, hkind, hcopy, hcreates⟩ :=
      copy_cases parseDate did number j
    · rw [if_neg hcopy, if_neg hnone]
    · have heq := indexed_live hkind (hP.path t _ p ht) (hh t host n evt p ht hkind)
      rw [if_pos hcopy]
      simp only [hcreates]
      cases hpub : publishes parseDate evt <;> rw [hpub] at heq <;> simpa using heq

/-- Every created record is published at most once if it is delivered at most once, and,
when all deliveries have been handled, only then. -/
theorem live_once (parseDate : String → Option ℤ) (w : World) (es : List (Turn Job Choice)) :
    let P := run (Process.step parseDate) (Process.init w) es
    ((∀ did number, P.deliveries parseDate did number ≤ 1) →
      ∀ did number, P.calls did number ≤ 1) ∧
    (P.Handled → ((∀ did number, P.calls did number ≤ 1) ↔
      ∀ did number, P.deliveries parseDate did number ≤ 1)) := by
  intro P
  have hP : Pool.Traced (main parseDate) P := run_traced w es
  constructor
  · intro h did number
    refine Nat.le_trans ?_ (h did number)
    rw [calls_eq hP, Process.deliveries, countP_eq_sum]
    exact Finset.sum_le_sum fun t _ => call_le hP did number t
  · intro hh
    have heq : ∀ did number, P.calls did number = P.deliveries parseDate did number := by
      intro did number
      rw [calls_eq hP, Process.deliveries, countP_eq_sum]
      exact Finset.sum_congr rfl fun t _ => call_eq hP hh did number t
    simp only [heq]

/-! ### Two hosts -/

/-- A host delivers a reaction and its handler runs, as task `t`, until it has published. -/
def deliverReaction (host : String) (t : ℕ) : List (Turn Job Choice) :=
  .start (.message host 0 (reactionEvent .create "A")) {} ::
    [.answer t {}, .resume t {}, .answer t {}, .resume t {}, .answer t {}, .resume t {},
      .answer t {}, .resume t {}, .answer t {}, .resume t {}]

theorem published_twice :
    ¬ ∀ es did number,
      (run (Process.step epochDate) (Process.init {}) es).calls did number ≤ 1 := by
  intro h
  have htwice := h (deliverReaction "jetstream1" 0 ++ deliverReaction "jetstream2" 1)
    "did:plc:alice" 0
  exact absurd htwice (by decide)

theorem published_once :
    (run (Process.step epochDate) (Process.init {}) (deliverReaction "jetstream1" 0)).calls
      "did:plc:alice" 0 ≤ 1 :=
  (live_once epochDate {} (deliverReaction "jetstream1" 0)).1
    (fun did number => List.countP_le_length.trans (by decide)) "did:plc:alice" 0

end Atradio.Jetstream
