import Mathlib.Algebra.Order.Round
import Mathlib.Data.Rat.Floor
import Mathlib.Tactic.Linarith
import Mathlib.Tactic.NormNum
import Mathlib.Tactic.Positivity

/-! # Rounded arithmetic

A binary floating-point format as the function that rounds an exact result to it. Only magnitudes
far from its limits are spoken about, where a format of at least 24 significant bits has a relative
error of at most `2⁻²⁴`. -/

namespace Atradio.Lib

structure Rounding where
  fl : ℚ → ℚ
  exact : ∀ n : ℤ, |n| ≤ 2 ^ 24 → fl n = n
  close : ∀ x, 1 / 16 ≤ |x| → |x| ≤ 2 ^ 16 → |fl x - x| ≤ |x| / 2 ^ 24

namespace Rounding

def exactly : Rounding where
  fl := id
  exact := fun _ _ => rfl
  close := by
    intro x _ _
    rw [id, sub_self, abs_zero]
    positivity

variable (R : Rounding)

/-- A quotient of integers multiplied back misses the dividend by less than one half. -/
theorem abs_fl_mul_fl_div_sub {c d : ℤ} (hc : |c| ≤ 2 ^ 10) (hd : 0 < d) (hd16 : d ≤ 16) :
    |R.fl (R.fl (c / d) * d) - c| < 1 / 2 := by
  have hdpos : (0 : ℚ) < d := by exact_mod_cast hd
  have hd' : (d : ℚ) ≤ 16 := by exact_mod_cast hd16
  rcases eq_or_ne c 0 with rfl | hne
  · have hzero : R.fl 0 = 0 := by exact_mod_cast R.exact 0 (by norm_num)
    simp [hzero]
  · have hc1 : (1 : ℚ) ≤ |(c : ℚ)| := by exact_mod_cast Int.one_le_abs hne
    have hc2 : |(c : ℚ)| ≤ 2 ^ 10 := by exact_mod_cast hc
    have habs : |(c : ℚ) / d| = |(c : ℚ)| / d := by rw [abs_div, abs_of_pos hdpos]
    -- the quotient
    have hquot : |R.fl (c / d) - c / d| ≤ |(c : ℚ)| / d / 2 ^ 24 := by
      have hlo : 1 / 16 ≤ |(c : ℚ) / d| := by
        rw [habs, div_le_div_iff₀ (by norm_num) hdpos]
        linarith
      have hhi : |(c : ℚ) / d| ≤ 2 ^ 16 := by
        rw [habs, div_le_iff₀ hdpos]
        have hd1 : (1 : ℚ) ≤ d := by exact_mod_cast hd
        linarith
      rw [← habs]
      exact R.close _ hlo hhi
    -- the product before it is rounded
    have hprod : |R.fl (c / d) * d - c| ≤ |(c : ℚ)| / 2 ^ 24 := by
      have hmul : R.fl (c / d) * d - c = (R.fl (c / d) - c / d) * d := by
        rw [sub_mul, div_mul_cancel₀ _ hdpos.ne']
      calc |R.fl (c / d) * d - c| = |R.fl (c / d) - c / d| * d := by
            rw [hmul, abs_mul, abs_of_pos hdpos]
        _ ≤ |(c : ℚ)| / d / 2 ^ 24 * d := mul_le_mul_of_nonneg_right hquot hdpos.le
        _ = |(c : ℚ)| / 2 ^ 24 := by field_simp
    obtain ⟨hp1, hp2⟩ := abs_le.1 hprod
    have hsize : |R.fl (c / d) * d| ≤ 2 ^ 11 ∧ 1 / 16 ≤ |R.fl (c / d) * d| := by
      have htri := abs_sub_abs_le_abs_sub (R.fl (c / d) * d) c
      have htri' := abs_sub_abs_le_abs_sub (c : ℚ) (R.fl (c / d) * d)
      rw [abs_sub_comm] at htri'
      constructor
      · linarith
      · linarith
    have hlast := R.close _ hsize.2 (hsize.1.trans (by norm_num))
    calc |R.fl (R.fl (c / d) * d) - c|
        ≤ |R.fl (R.fl (c / d) * d) - R.fl (c / d) * d| + |R.fl (c / d) * d - c| :=
          abs_sub_le _ _ _
      _ ≤ 2 ^ 11 / 2 ^ 24 + 2 ^ 10 / 2 ^ 24 := by
          refine add_le_add (hlast.trans ?_) (hprod.trans ?_)
          · linarith [hsize.1]
          · linarith
      _ < 1 / 2 := by norm_num

end Rounding

/-- A rounding that keeps the order, as the one to nearest does. -/
structure OrderedRounding extends Rounding where
  mono : ∀ x y, x ≤ y → fl x ≤ fl y

namespace OrderedRounding

def exactly : OrderedRounding where
  toRounding := .exactly
  mono := fun _ _ h => h

theorem le_fl (R : OrderedRounding) {n : ℤ} {x : ℚ} (hn : |n| ≤ 2 ^ 24) (h : n ≤ x) :
    n ≤ R.fl x := by
  rw [← R.exact n hn]
  exact R.mono _ _ h

theorem fl_le (R : OrderedRounding) {n : ℤ} {x : ℚ} (hn : |n| ≤ 2 ^ 24) (h : x ≤ n) :
    R.fl x ≤ n := by
  rw [← R.exact n hn]
  exact R.mono _ _ h

end OrderedRounding

/-- `Math.round` -/
def mathRound (x : ℚ) : ℤ := ⌊x + 1 / 2⌋

/-- `f32::round` and `f64::round`: halves go away from zero. -/
def roundHalfAway (x : ℚ) : ℤ := if 0 ≤ x then ⌊x + 1 / 2⌋ else ⌈x - 1 / 2⌉

theorem mathRound_eq {x : ℚ} {n : ℤ} (h : |x - n| < 1 / 2) : mathRound x = n := by
  obtain ⟨hlo, hhi⟩ := abs_lt.1 h
  rw [mathRound, Int.floor_eq_iff]
  constructor
  · linarith
  · linarith

theorem roundHalfAway_eq {x : ℚ} {n : ℤ} (h : |x - n| < 1 / 2) : roundHalfAway x = n := by
  obtain ⟨hlo, hhi⟩ := abs_lt.1 h
  unfold roundHalfAway
  split
  · exact mathRound_eq h
  · rw [Int.ceil_eq_iff]
    constructor
    · linarith
    · linarith

theorem mathRound_intCast (n : ℤ) : mathRound n = n := mathRound_eq (by norm_num)

theorem roundHalfAway_intCast (n : ℤ) : roundHalfAway n = n := roundHalfAway_eq (by norm_num)

theorem le_roundHalfAway {n : ℤ} {x : ℚ} (h : n ≤ x) : n ≤ roundHalfAway x := by
  unfold roundHalfAway
  split
  · rw [Int.le_floor]
    linarith
  · rw [Int.le_ceil_iff]
    linarith

theorem roundHalfAway_le {n : ℤ} {x : ℚ} (h : x ≤ n) : roundHalfAway x ≤ n := by
  unfold roundHalfAway
  split
  · rw [Int.floor_le_iff]
    linarith
  · rw [Int.ceil_le]
    linarith

end Atradio.Lib
