import Mathlib.Data.List.Basic

/-! # Strings by UTF-16 code units

The order that relational operators of JavaScript give to strings: lexicographic in the
code units. Encoding is injective, so the order is linear. -/

namespace Atradio.Lib

/-- UTF-16 code units of one character. -/
def charUnits (c : Char) : List ℕ :=
  if c.toNat < 0x10000 then [c.toNat]
  else [0xD800 + (c.toNat - 0x10000) / 0x400, 0xDC00 + (c.toNat - 0x10000) % 0x400]

def codeUnits (cs : List Char) : List ℕ := cs.flatMap charUnits

/-- `a < b` on strings. -/
def stringLess (a b : String) : Bool := decide (codeUnits a.toList < codeUnits b.toList)

theorem toNat_ranges (c : Char) : c.toNat < 0xD800 ∨ (0xE000 ≤ c.toNat ∧ c.toNat < 0x110000) := by
  have h := c.valid
  simp only [UInt32.isValidChar, Nat.isValidChar] at h
  unfold Char.toNat
  omega

theorem charUnits_append_inj {c d : Char} {us vs : List ℕ}
    (h : charUnits c ++ us = charUnits d ++ vs) : c = d ∧ us = vs := by
  have hc := toNat_ranges c
  have hd := toNat_ranges d
  unfold charUnits at h
  split at h <;> split at h
  · simp only [List.cons_append, List.nil_append, List.cons.injEq] at h
    exact ⟨Char.toNat_inj.1 h.1, h.2⟩
  · simp only [List.cons_append, List.nil_append, List.cons.injEq] at h
    omega
  · simp only [List.cons_append, List.nil_append, List.cons.injEq] at h
    omega
  · simp only [List.cons_append, List.nil_append, List.cons.injEq] at h
    have hn : c.toNat = d.toNat := by omega
    exact ⟨Char.toNat_inj.1 hn, h.2.2⟩

theorem codeUnits_inj {cs ds : List Char} (h : codeUnits cs = codeUnits ds) : cs = ds := by
  have hne : ∀ c : Char, charUnits c ≠ [] := by
    intro c
    unfold charUnits
    split <;> simp
  induction cs generalizing ds with
  | nil =>
    cases ds with
    | nil => rfl
    | cons d ds =>
      have hnil : charUnits d = [] := (List.append_eq_nil_iff.1 h.symm).1
      exact (hne d hnil).elim
  | cons c cs ih =>
    cases ds with
    | nil =>
      have hnil : charUnits c = [] := (List.append_eq_nil_iff.1 h).1
      exact (hne c hnil).elim
    | cons d ds =>
      obtain ⟨hcd, hrest⟩ := @charUnits_append_inj c d (codeUnits cs) (codeUnits ds) h
      rw [hcd, ih hrest]

theorem stringLess_irrefl (a : String) : stringLess a a = false := by
  simp only [stringLess, decide_eq_false_iff_not]
  exact List.lt_irrefl _

theorem stringLess_trans {a b c : String} (hab : stringLess a b = true)
    (hbc : stringLess b c = true) : stringLess a c = true := by
  simp only [stringLess, decide_eq_true_eq] at hab hbc ⊢
  exact List.lt_trans hab hbc

theorem stringLess_antisymm {a b : String} (hab : stringLess a b = false)
    (hba : stringLess b a = false) : a = b := by
  simp only [stringLess, decide_eq_false_iff_not] at hab hba
  have heq := List.le_antisymm (List.not_lt.1 hba) (List.not_lt.1 hab)
  exact String.toList_inj.1 (codeUnits_inj heq)

theorem stringLess_of_false {a b : String} (hab : stringLess a b = false) (hne : a ≠ b) :
    stringLess b a = true := by
  cases hba : stringLess b a with
  | true => rfl
  | false => exact (hne (stringLess_antisymm hab hba)).elim

end Atradio.Lib
