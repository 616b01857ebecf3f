import Atradio.Lib.Rounding
import Mathlib.Data.Int.Log

/-! # Numbers of 24 significant bits

The numbers of a binary format without limits to the exponent, its rounding to nearest with ties
to even, and what every rounding to it does. -/

namespace Atradio.Lib

/-- `2 ^ 24` itself is `2 ^ 23 * 2`. -/
def Float24 (x : ℚ) : Prop := ∃ m e : ℤ, |m| ≤ 2 ^ 24 ∧ x = m * 2 ^ e

/-- A rounding to numbers of 24 bits. -/
structure Rounding24 extends Rounding where
  holds : ∀ x, Float24 (fl x)
  fixed : ∀ x, Float24 x → fl x = x
  mono : ∀ x y, x ≤ y → fl x ≤ fl y

theorem Float24.int {n : ℤ} (h : |n| ≤ 2 ^ 24) : Float24 n := ⟨n, 0, h, by simp⟩

theorem Float24.half : Float24 (1 / 2) := ⟨1, -1, by norm_num, by norm_num⟩

theorem Float24.neg {x : ℚ} (h : Float24 x) : Float24 (-x) := by
  obtain ⟨m, e, hm, rfl⟩ := h
  exact ⟨-m, e, by rwa [abs_neg], by push_cast; ring⟩

/-- A half step towards zero is exact. -/
theorem Float24.half_step {x : ℚ} (h : Float24 x) (hlo : -2 ^ 16 ≤ x) (hhi : x ≤ -(1 / 2)) :
    Float24 (x + 1 / 2) := by
  obtain ⟨m, e, hm, rfl⟩ := h
  obtain ⟨hm1, hm2⟩ := abs_le.1 hm
  rcases lt_or_ge e 0 with he | he
  · -- One half is a multiple of the last bit.
    obtain ⟨k, hk⟩ : ∃ k : ℕ, e = -(k + 1 : ℕ) := ⟨(-e - 1).toNat, by omega⟩
    have hpow : (2 : ℚ) ^ k * 2 ^ e = 1 / 2 := by
      rw [hk, zpow_neg, zpow_natCast, pow_succ]
      field_simp
    have hmle : m ≤ -2 ^ k := by
      have hpos : (0 : ℚ) < 2 ^ e := zpow_pos two_pos e
      have hq : (m : ℚ) * 2 ^ e ≤ -2 ^ k * 2 ^ e := by linarith
      exact_mod_cast le_of_mul_le_mul_right hq hpos
    have hkpos : (0 : ℤ) < 2 ^ k := by positivity
    refine ⟨m + 2 ^ k, e, abs_le.2 ⟨by linarith, by linarith⟩, ?_⟩
    push_cast
    rw [add_mul, hpow]
  · -- A whole number.
    obtain ⟨k, rfl⟩ := Int.eq_ofNat_of_zero_le he
    have hcast : (m : ℚ) * 2 ^ (k : ℤ) = (m * 2 ^ k : ℤ) := by
      push_cast
      rw [zpow_natCast]
    rw [hcast] at hlo hhi ⊢
    have hlo' : -2 ^ 16 ≤ m * 2 ^ k := by exact_mod_cast hlo
    have hhi' : m * 2 ^ k ≤ 0 := by
      have hzero : ((m * 2 ^ k : ℤ) : ℚ) ≤ 0 := by linarith
      exact_mod_cast hzero
    refine ⟨2 * (m * 2 ^ k) + 1, -1, abs_le.2 ⟨by linarith, by linarith⟩, ?_⟩
    push_cast
    rw [zpow_neg_one]
    ring

/-! ### To nearest, ties to even -/

def roundHalfEven (x : ℚ) : ℤ :=
  let n := ⌊x⌋
  if x - n < 1 / 2 then n
  else if 1 / 2 < x - n then n + 1
  else if n % 2 = 0 then n else n + 1

theorem roundHalfEven_cases (x : ℚ) :
    (roundHalfEven x = ⌊x⌋ ∧ x - ⌊x⌋ ≤ 1 / 2) ∨
      (roundHalfEven x = ⌊x⌋ + 1 ∧ 1 / 2 ≤ x - ⌊x⌋) := by
  unfold roundHalfEven
  dsimp only
  split_ifs with h₁ h₂ h₃
  · exact .inl ⟨rfl, h₁.le⟩
  · exact .inr ⟨rfl, h₂.le⟩
  · exact .inl ⟨rfl, not_lt.1 h₂⟩
  · exact .inr ⟨rfl, not_lt.1 h₁⟩

theorem roundHalfEven_near (x : ℚ) : |(roundHalfEven x : ℚ) - x| ≤ 1 / 2 := by
  have hfloor := Int.floor_le x
  have hlt := Int.lt_floor_add_one x
  rcases roundHalfEven_cases x with ⟨heq, h⟩ | ⟨heq, h⟩
  · rw [heq]
    exact abs_le.2 ⟨by linarith, by linarith⟩
  · rw [heq]
    push_cast
    exact abs_le.2 ⟨by linarith, by linarith⟩

theorem roundHalfEven_int (n : ℤ) : roundHalfEven n = n := by
  unfold roundHalfEven
  simp

theorem roundHalfEven_mono {x y : ℚ} (h : x ≤ y) : roundHalfEven x ≤ roundHalfEven y := by
  have hfloor := Int.floor_le_floor h
  rcases lt_or_eq_of_le hfloor with hlt | heq
  · rcases roundHalfEven_cases x with ⟨hx, -⟩ | ⟨hx, -⟩ <;>
      rcases roundHalfEven_cases y with ⟨hy, -⟩ | ⟨hy, -⟩ <;> omega
  · unfold roundHalfEven
    dsimp only
    rw [heq]
    split_ifs <;> first | omega | (exfalso; linarith)

/-- The exponent of the last of the 24 bits. -/
def lastBit (x : ℚ) : ℤ := Int.log 2 |x| - 23

def fl24 (x : ℚ) : ℚ := roundHalfEven (x / 2 ^ lastBit x) * 2 ^ lastBit x

theorem two_zpow_pos (e : ℤ) : (0 : ℚ) < 2 ^ e := zpow_pos two_pos e

theorem abs_lt_of_lastBit (x : ℚ) : |x| < 2 ^ 24 * 2 ^ lastBit x := by
  have h := Int.lt_zpow_succ_log_self (b := 2) one_lt_two |x|
  have hpow : (2 : ℚ) ^ 24 * 2 ^ lastBit x = 2 ^ (Int.log 2 |x| + 1) := by
    rw [← zpow_natCast, ← zpow_add₀ two_ne_zero, lastBit]
    congr 1
    push_cast
    ring
  rw [hpow]
  exact_mod_cast h

theorem le_abs_of_lastBit {x : ℚ} (hx : x ≠ 0) : 2 ^ 23 * 2 ^ lastBit x ≤ |x| := by
  have h := Int.zpow_log_le_self (b := 2) one_lt_two (abs_pos.2 hx)
  have hpow : (2 : ℚ) ^ 23 * 2 ^ lastBit x = 2 ^ Int.log 2 |x| := by
    rw [← zpow_natCast, ← zpow_add₀ two_ne_zero, lastBit]
    congr 1
    push_cast
    ring
  rw [hpow]
  exact_mod_cast h

theorem lastBit_mono {x y : ℚ} (hx : x ≠ 0) (h : |x| ≤ |y|) : lastBit x ≤ lastBit y := by
  have hlog := Int.log_mono_right (b := 2) (abs_pos.2 hx) h
  unfold lastBit
  omega

/-- A rounding keeps to the bounds that are multiples of the last bit. -/
theorem fl24_le {x : ℚ} {n : ℤ} (h : x ≤ n * 2 ^ lastBit x) : fl24 x ≤ n * 2 ^ lastBit x := by
  have hpos := two_zpow_pos (lastBit x)
  have hround := roundHalfEven_mono ((div_le_iff₀ hpos).2 h)
  rw [roundHalfEven_int] at hround
  exact mul_le_mul_of_nonneg_right (by exact_mod_cast hround) hpos.le

theorem le_fl24 {x : ℚ} {n : ℤ} (h : n * 2 ^ lastBit x ≤ x) : n * 2 ^ lastBit x ≤ fl24 x := by
  have hpos := two_zpow_pos (lastBit x)
  have hround := roundHalfEven_mono ((le_div_iff₀ hpos).2 h)
  rw [roundHalfEven_int] at hround
  exact mul_le_mul_of_nonneg_right (by exact_mod_cast hround) hpos.le

theorem float24_fl24 (x : ℚ) : Float24 (fl24 x) := by
  have hpos := two_zpow_pos (lastBit x)
  obtain ⟨hlo, hhi⟩ := abs_lt.1 (abs_lt_of_lastBit x)
  have hupper := fl24_le (x := x) (n := 2 ^ 24) (by push_cast; linarith)
  have hlower := le_fl24 (x := x) (n := -2 ^ 24) (by push_cast; linarith)
  refine ⟨roundHalfEven (x / 2 ^ lastBit x), lastBit x, abs_le.2 ⟨?_, ?_⟩, rfl⟩
  · exact_mod_cast le_of_mul_le_mul_right hlower hpos
  · exact_mod_cast le_of_mul_le_mul_right hupper hpos

theorem fl24_of_multiple {x : ℚ} {n : ℤ} (h : x = n * 2 ^ lastBit x) : fl24 x = x := by
  exact le_antisymm ((fl24_le h.le).trans h.ge) (h.le.trans (le_fl24 h.ge))

/-- A binade ends where the next one starts. -/
theorem binade_le {c d : ℤ} (h : c < d) : (2 : ℚ) ^ 24 * 2 ^ c ≤ 2 ^ 23 * 2 ^ d := by
  have hexp : (2 : ℚ) ^ (c + 1) ≤ 2 ^ d := zpow_le_zpow_right₀ one_le_two (by omega)
  rw [zpow_add_one₀ two_ne_zero] at hexp
  linarith

theorem fl24_fixed {x : ℚ} (h : Float24 x) : fl24 x = x := by
  rcases eq_or_ne x 0 with rfl | hx
  · exact fl24_of_multiple (n := 0) (by simp)
  obtain ⟨m, e, hm, rfl⟩ := h
  have hle := le_abs_of_lastBit hx
  generalize hc : lastBit ((m : ℚ) * 2 ^ e) = c at hle
  rcases le_or_gt c e with hce | hce
  · -- The exponent of the number is that of the last bit, or a larger one.
    obtain ⟨k, rfl⟩ : ∃ k : ℕ, e = c + k := ⟨(e - c).toNat, by omega⟩
    refine fl24_of_multiple (n := m * 2 ^ k) ?_
    rw [hc, zpow_add₀ two_ne_zero, zpow_natCast]
    push_cast
    ring
  · -- A number with all its bits above `m` is the power of two itself.
    have habs : |(m : ℚ) * 2 ^ e| = |(m : ℚ)| * 2 ^ e := by
      rw [abs_mul, abs_of_pos (two_zpow_pos e)]
    have hmq : |(m : ℚ)| ≤ 2 ^ 24 := by exact_mod_cast hm
    have hpow := binade_le hce
    have heq : |(m : ℚ)| * 2 ^ e = 2 ^ 23 * 2 ^ c := by
      have hupper := mul_le_mul_of_nonneg_right hmq (two_zpow_pos e).le
      rw [habs] at hle
      linarith
    rcases abs_choice (m : ℚ) with hs | hs
    · refine fl24_of_multiple (n := 2 ^ 23) ?_
      rw [hc, ← hs, heq]
      push_cast
      rfl
    · refine fl24_of_multiple (n := -2 ^ 23) ?_
      rw [hc]
      push_cast
      rw [hs] at heq
      linarith

theorem fl24_nonneg {x : ℚ} (h : 0 ≤ x) : 0 ≤ fl24 x := by
  have hle := le_fl24 (x := x) (n := 0) (by simpa using h)
  simpa using hle

theorem fl24_nonpos {x : ℚ} (h : x ≤ 0) : fl24 x ≤ 0 := by
  have hle := fl24_le (x := x) (n := 0) (by simpa using h)
  simpa using hle

theorem fl24_mono_same {x y : ℚ} (h : x ≤ y) (hbit : lastBit x = lastBit y) : fl24 x ≤ fl24 y := by
  have hpos := two_zpow_pos (lastBit y)
  unfold fl24
  rw [hbit]
  refine mul_le_mul_of_nonneg_right ?_ hpos.le
  exact_mod_cast roundHalfEven_mono (div_le_div_of_nonneg_right h hpos.le)

theorem fl24_mono {x y : ℚ} (h : x ≤ y) : fl24 x ≤ fl24 y := by
  rcases le_or_gt x 0 with hx | hx
  · rcases le_or_gt 0 y with hy | hy
    · exact (fl24_nonpos hx).trans (fl24_nonneg hy)
    · -- both negative
      have habs : |y| ≤ |x| := by
        rw [abs_of_neg hy, abs_of_nonpos hx]
        linarith
      rcases eq_or_lt_of_le (lastBit_mono hy.ne habs) with hbit | hbit
      · exact fl24_mono_same h hbit.symm
      · have hxle := le_abs_of_lastBit (x := x) (by linarith : x < 0).ne
        have hylt := abs_lt_of_lastBit y
        rw [abs_of_nonpos hx] at hxle
        rw [abs_of_neg hy] at hylt
        have hupper := fl24_le (x := x) (n := -2 ^ 23) (by push_cast; linarith)
        have hlower := le_fl24 (x := y) (n := -2 ^ 24) (by push_cast; linarith)
        have hbin := binade_le hbit
        push_cast at hupper hlower
        linarith
  · -- both positive
    have hy : 0 < y := hx.trans_le h
    have habs : |x| ≤ |y| := by rwa [abs_of_pos hx, abs_of_pos hy]
    rcases eq_or_lt_of_le (lastBit_mono hx.ne' habs) with hbit | hbit
    · exact fl24_mono_same h hbit
    · have hyle := le_abs_of_lastBit hy.ne'
      have hxlt := abs_lt_of_lastBit x
      rw [abs_of_pos hy] at hyle
      rw [abs_of_pos hx] at hxlt
      have hupper := fl24_le (x := x) (n := 2 ^ 24) (by push_cast; linarith)
      have hlower := le_fl24 (x := y) (n := 2 ^ 23) (by push_cast; linarith)
      have hbin := binade_le hbit
      push_cast at hupper hlower
      linarith

theorem fl24_close (x : ℚ) : |fl24 x - x| ≤ |x| / 2 ^ 24 := by
  rcases eq_or_ne x 0 with rfl | hx
  · rw [fl24_fixed ⟨0, 0, by norm_num, by norm_num⟩]
    simp
  · have hpos := two_zpow_pos (lastBit x)
    have hle := le_abs_of_lastBit hx
    have hdiff : fl24 x - x =
        (roundHalfEven (x / 2 ^ lastBit x) - x / 2 ^ lastBit x) * 2 ^ lastBit x := by
      rw [fl24, sub_mul, div_mul_cancel₀ _ hpos.ne']
    rw [hdiff, abs_mul, abs_of_pos hpos]
    calc |(roundHalfEven (x / 2 ^ lastBit x) : ℚ) - x / 2 ^ lastBit x| * 2 ^ lastBit x
        ≤ 1 / 2 * 2 ^ lastBit x :=
          mul_le_mul_of_nonneg_right (roundHalfEven_near _) hpos.le
      _ = 2 ^ 23 * 2 ^ lastBit x / 2 ^ 24 := by ring
      _ ≤ |x| / 2 ^ 24 := div_le_div_of_nonneg_right hle (by norm_num)

/-- The arithmetic of `f32`, away from the limits of its exponent. -/
def nearestEven : Rounding24 where
  fl := fl24
  exact := fun _ h => fl24_fixed (Float24.int h)
  close := fun x _ _ => fl24_close x
  holds := float24_fl24
  fixed := fun _ => fl24_fixed
  mono := fun _ _ => fl24_mono

end Atradio.Lib
