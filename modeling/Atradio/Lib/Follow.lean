import Mathlib.Order.Notation
import Mathlib.Data.Nat.Notation

/-! # Links that are followed a bounded number of times -/

namespace Atradio.Lib

section Follow

variable {α β ε : Type}

/-- A turn leads on to another place or gives a result. -/
def follow (turn : α → Except ε (α ⊕ β)) (tooDeep : ε) : ℕ → α → Except ε β
  | 0, _ => .error tooDeep
  | n + 1, a =>
    match turn a with
    | .ok (.inl b) => follow turn tooDeep n b
    | .ok (.inr r) => .ok r
    | .error e => .error e

/-- `k` links lead from one place to the other. -/
def Reaches (link : α → α → Prop) : ℕ → α → α → Prop
  | 0, a, b => a = b
  | k + 1, a, c => ∃ b, link a b ∧ Reaches link k b c

variable {turn : α → Except ε (α ⊕ β)} {tooDeep : ε} {link : α → α → Prop}

/-- What is there within `n` links is at the place itself or within the others of the next one. -/
theorem exists_reaches_succ {P : α → Prop} {n : ℕ} {a : α} :
    (∃ k < n + 1, ∃ b, Reaches link k a b ∧ P b) ↔
      P a ∨ ∃ c, link a c ∧ ∃ k < n, ∃ b, Reaches link k c b ∧ P b := by
  constructor
  · rintro ⟨k, hk, b, hreach, hb⟩
    cases k with
    | zero => exact Or.inl ((show a = b from hreach) ▸ hb)
    | succ k =>
      obtain ⟨c, hlink, hrest⟩ := hreach
      exact Or.inr ⟨c, hlink, k, Nat.lt_of_succ_lt_succ hk, b, hrest, hb⟩
  · rintro (ha | ⟨c, hlink, k, hk, b, hreach, hb⟩)
    · exact ⟨0, Nat.succ_pos n, a, rfl, ha⟩
    · exact ⟨k + 1, Nat.succ_lt_succ hk, b, ⟨c, hlink, hreach⟩, hb⟩

theorem follow_ok (hlink : ∀ a b, link a b ↔ turn a = .ok (.inl b)) {n : ℕ} {a : α} {r : β} :
    follow turn tooDeep n a = .ok r ↔
      ∃ k < n, ∃ b, Reaches link k a b ∧ turn b = .ok (.inr r) := by
  induction n generalizing a with
  | zero =>
    constructor
    · intro h
      cases h
    · rintro ⟨k, hk, -⟩
      exact absurd hk (Nat.not_lt_zero k)
  | succ n ih =>
    rw [exists_reaches_succ, follow]
    cases hturn : turn a with
    | error e =>
      constructor
      · intro h
        cases h
      · rintro (h | ⟨c, hc, -⟩)
        · cases h
        · rw [hlink, hturn] at hc
          cases hc
    | ok x =>
      cases x with
      | inl b =>
        refine ih.trans ⟨fun h => Or.inr ⟨b, (hlink a b).2 hturn, h⟩, ?_⟩
        rintro (h | ⟨c, hc, h⟩)
        · cases h
        · rw [hlink, hturn] at hc
          obtain rfl := Sum.inl.inj (Except.ok.inj hc)
          exact h
      | inr r' =>
        constructor
        · intro h
          have hsame : r' = r := Except.ok.inj h
          exact Or.inl (hsame ▸ rfl)
        · rintro (h | ⟨c, hc, -⟩)
          · exact congrArg Except.ok (Sum.inr.inj (Except.ok.inj h))
          · rw [hlink, hturn] at hc
            cases hc

theorem follow_tooDeep (hlink : ∀ a b, link a b ↔ turn a = .ok (.inl b)) {n : ℕ} {a b : α}
    (h : Reaches link n a b) : follow turn tooDeep n a = .error tooDeep := by
  induction n generalizing a with
  | zero => rfl
  | succ n ih =>
    obtain ⟨c, hc, hrest⟩ := h
    rw [follow, (hlink a c).1 hc]
    exact ih hrest

end Follow

end Atradio.Lib
