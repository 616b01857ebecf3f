import Mathlib.Data.List.Basic

/-! # Selective receive

A process takes the first message in its mailbox that one of its patterns matches, and leaves the
others where they are. Messages of one kind are taken in the order in which they arrived, as long as
each pattern set matches all of the kind or none. -/

namespace Atradio.Lib

variable {μ : Type} {p q : μ → Bool} {box rest : List μ} {m : μ}

/-- The first message that `p` matches, and the mailbox without it. -/
def receive (p : μ → Bool) : List μ → Option (μ × List μ)
  | [] => none
  | m :: box => if p m then some (m, box) else (receive p box).map fun r => (r.1, m :: r.2)

theorem receive_eq_some (h : receive p box = some (m, rest)) :
    p m = true ∧ ∃ front back, box = front ++ m :: back ∧ rest = front ++ back ∧
      ∀ x ∈ front, p x = false := by
  induction box generalizing rest with
  | nil => cases h
  | cons x box ih =>
    rw [receive] at h
    by_cases hx : p x = true
    · rw [if_pos hx] at h
      obtain ⟨rfl, rfl⟩ := Prod.mk.inj (Option.some.inj h)
      exact ⟨hx, [], box, rfl, rfl, by simp⟩
    · rw [if_neg hx, Option.map_eq_some_iff] at h
      obtain ⟨⟨m', rest'⟩, hrest, heq⟩ := h
      obtain ⟨rfl, rfl⟩ := Prod.mk.inj heq
      obtain ⟨hm, front, back, rfl, rfl, hfront⟩ := ih hrest
      refine ⟨hm, x :: front, back, rfl, rfl, List.forall_mem_cons.2 ⟨?_, hfront⟩⟩
      simpa using hx

/-- A kind that is matched is taken from the front. -/
theorem receive_filter (h : receive p box = some (m, rest)) (hq : ∀ x, q x = true → p x = true) :
    box.filter q = [m].filter q ++ rest.filter q := by
  obtain ⟨-, front, back, rfl, rfl, hfront⟩ := receive_eq_some h
  have hnone : front.filter q = [] := by
    rw [List.filter_eq_nil_iff]
    intro x hx hxq
    have hpx := hfront x hx
    rw [hq x hxq] at hpx
    cases hpx
  rw [List.filter_append, List.filter_append, hnone, List.nil_append, List.nil_append,
    ← List.filter_append, List.singleton_append]

/-- A kind that is not matched stays as it is. -/
theorem receive_filter_other (h : receive p box = some (m, rest))
    (hq : ∀ x, q x = true → p x = false) : box.filter q = [m].filter q ++ rest.filter q := by
  obtain ⟨hm, front, back, rfl, rfl, -⟩ := receive_eq_some h
  have hqm : q m = false := by
    by_contra hne
    rw [hq m (by simpa using hne)] at hm
    cases hm
  simp [hqm]

end Atradio.Lib
