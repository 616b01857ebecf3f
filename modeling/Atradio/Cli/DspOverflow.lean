import Atradio.Cli.DspPanel
import Atradio.Cli.Formats

/-! # The DSP chain under the control API

`SetAudioSettings` and `AdjustDspRow` as the loop handles them, with the `i32` operations of
`adjust` and of `apply` made explicit: `op` says what becomes of an exact result, so that `some`
is exact arithmetic and `i32` the machine's, which has no result where it overflows. -/

namespace Atradio.Cli
open Atradio.Audio Atradio.Lib

def I32 (n : ℤ) : Prop := -2 ^ 31 ≤ n ∧ n ≤ 2 ^ 31 - 1

instance (n : ℤ) : Decidable (I32 n) := inferInstanceAs (Decidable (_ ∧ _))

def i32 (n : ℤ) : Option ℤ := if I32 n then some n else none

/-! ### The functions of the source -/

section Source

variable (op : ℤ → Option ℤ) (single : Rounding)

def cycleOp {α : Type} (modes : List α) (cur : ℕ) (mode : α) (dir : ℤ) : Option α :=
  (op ((cur : ℤ) + dir)).map fun sum => modes.getD (sum % (modes.length : ℤ)).toNat mode

/-- Where the mode stands in `CROSSFEED_MODES`. -/
def crossfeedIndex (s : AudioSettings) : ℕ :=
  (CROSSFEED_MODES.findIdx? fun m => crossfeedToStr m = crossfeedToStr s.crossfeedMode).getD 0

def channelIndex (s : AudioSettings) : ℕ :=
  (CHANNEL_MODES.findIdx? fun m => channelToStr m = channelToStr s.channelMode).getD 0

/-- `(n + dir * 5)` -/
def addFive (n dir : ℤ) : Option ℤ := (op (dir * 5)).bind fun step => op (n + step)

/-- `adjust_tail`: the settings behind it and what it returns. -/
def adjustTailOp (s : AudioSettings) (idx : ℕ) (dir : ℤ) : Option (AudioSettings × Bool) :=
  match idx with
  | 0 => (op (s.bass + dir)).map fun n => ({ s with bass := clamp (-24) 24 n }, true)
  | 1 => (op (s.treble + dir)).map fun n => ({ s with treble := clamp (-24) 24 n }, true)
  | 2 => (cycleOp op CROSSFEED_MODES (crossfeedIndex s) s.crossfeedMode dir).map fun m =>
    ({ s with crossfeedMode := m }, true)
  | 3 => some ({ s with
      crossfeedDirect := max (-6) (min 0
        (single.fl (s.crossfeedDirect + single.fl (single.fl dir * (1 / 2))))) }, true)
  | 4 => (addFive op s.pbe dir).map fun n => ({ s with pbe := clamp 0 100 n }, true)
  | 5 => (op (s.pbePrecut + dir)).map fun n => ({ s with pbePrecut := clamp 0 24 n }, true)
  | 6 => (op (s.surroundDelay + dir)).map fun n => ({ s with surroundDelay := clamp 0 30 n }, true)
  | 7 => (addFive op s.surroundBalance dir).map fun n =>
    ({ s with surroundBalance := clamp 0 100 n }, true)
  | 8 => (op (s.compThreshold + dir)).map fun n =>
    ({ s with compThreshold := clamp (-30) 0 n }, true)
  | 9 => (op (s.compRatio + dir)).map fun n => ({ s with compRatio := clamp 2 10 n }, true)
  | 10 => (cycleOp op CHANNEL_MODES (channelIndex s) s.channelMode dir).map fun m =>
    ({ s with channelMode := m }, true)
  | 11 => (addFive op s.stereoWidth dir).map fun n =>
    ({ s with stereoWidth := clamp 0 200 n }, true)
  | _ => some (s, false)

def adjustOp (s : AudioSettings) (row : ℕ) (dir : ℤ) : Option (AudioSettings × Bool) :=
  if row = 0 then some ({ s with eqEnabled := !s.eqEnabled }, true)
  else if row < 1 + 10 then
    some ({ s with
      eqGains := fun band =>
        if band.val = row - 1 then
          max (-24) (min 24 (single.fl (s.eqGains band + single.fl dir)))
        else s.eqGains band }, true)
  else adjustTailOp op single s (row - (1 + 10)) dir

/-- `apply`, whose integer operations are those of `-(pbe_precut * 10)`. -/
def applyOp (a : AudioSettings) (p : Params) : Option Params :=
  (op (a.pbePrecut * 10)).bind fun tenths => (op (-tenths)).map fun precut =>
    { a.apply single p with
      directGain := saturate (roundHalfAway (single.fl (a.crossfeedDirect * (10 : ℤ))))
      pbePrecut := precut }

/-! ### Requests -/

inductive DspRequest where
  | setAudioSettings (audio : PbAudio)
  | adjustDspRow (row : ℕ) (dir : ℤ)

structure DspLoop where
  dsp : AudioSettings
  engine : Params

def DspLoop.apply (s : DspLoop) : Option DspLoop :=
  (applyOp op single s.dsp s.engine).map fun engine => { s with engine }

def DspLoop.handle (s : DspLoop) : DspRequest → Option DspLoop
  | .setAudioSettings audio => ({ s with dsp := pbToAudio single audio }).apply op single
  | .adjustDspRow row dir =>
    (adjustOp op single s.dsp row dir).bind fun r =>
      if r.2 then ({ s with dsp := r.1 }).apply op single else some { s with dsp := r.1 }

end Source

theorem adjustTailOp_exact (s : AudioSettings) (idx : ℕ) (dir : ℤ) :
    adjustTailOp some .exactly s idx dir =
      some ((adjustTail s idx dir).getD s, (adjustTail s idx dir).isSome) := by
  rcases idx with _ | _ | _ | _ | _ | _ | _ | _ | _ | _ | _ | _ | idx
  case succ.succ.succ.zero =>
    simp only [adjustTailOp, adjustTail, Rounding.exactly, id, mul_one_div, Option.getD_some,
      Option.isSome_some]
  all_goals rfl

/-- On exact numbers this is the model of the panel. -/
theorem adjustOp_exact (s : AudioSettings) (row : ℕ) (dir : ℤ) :
    adjustOp some .exactly s row dir =
      some ((adjust s row dir).getD s, (adjust s row dir).isSome) := by
  unfold adjustOp adjust
  by_cases hzero : row = 0
  · rw [if_pos hzero, if_pos hzero]
    rfl
  · rw [if_neg hzero, if_neg hzero]
    by_cases hband : row < 1 + 10
    · rw [if_pos hband, if_pos hband]
      rfl
    · rw [if_neg hband, if_neg hband]
      exact adjustTailOp_exact s _ dir

/-! ### Sums -/

/-- What `adjust` computes in `i32` on a row behind the bands, before it clamps. -/
def rowSums (s : AudioSettings) (dir : ℤ) : ℕ → List ℤ
  | 0 => [s.bass + dir]
  | 1 => [s.treble + dir]
  | 2 => [crossfeedIndex s + dir]
  | 3 => []
  | 4 => [dir * 5, s.pbe + dir * 5]
  | 5 => [s.pbePrecut + dir]
  | 6 => [s.surroundDelay + dir]
  | 7 => [dir * 5, s.surroundBalance + dir * 5]
  | 8 => [s.compThreshold + dir]
  | 9 => [s.compRatio + dir]
  | 10 => [channelIndex s + dir]
  | 11 => [dir * 5, s.stereoWidth + dir * 5]
  | _ => []

theorem i32_of_fits {n : ℤ} (h : I32 n) : i32 n = some n := if_pos h

theorem i32_of_not_fits {n : ℤ} (h : ¬ I32 n) : i32 n = none := if_neg h

section Sums

variable (single : Rounding) (s : AudioSettings) (dir : ℤ)

theorem adjustTailOp_i32 (idx : ℕ) :
    adjustTailOp i32 single s idx dir =
      if ∀ n ∈ rowSums s dir idx, I32 n then adjustTailOp some single s idx dir else none := by
  rcases idx with _ | _ | _ | _ | _ | _ | _ | _ | _ | _ | _ | _ | idx
  all_goals
    simp only [adjustTailOp, rowSums, cycleOp, addFive, i32, List.mem_cons, List.not_mem_nil,
      or_false, forall_eq, forall_eq_or_imp, false_imp_iff, implies_true, if_true,
      Option.bind_some, Option.map_some]
  all_goals split_ifs <;> simp_all

end Sums

/-! ### Requests that fit -/

/-- `pbe_precut * 10` and its negation fit. -/
def PrecutFits (a : AudioSettings) : Prop := -214748364 ≤ a.pbePrecut ∧ a.pbePrecut ≤ 214748364

/-- What is set has a pre-cut whose tenths fit. What is adjusted has sums that fit, and is applied
with a pre-cut that fits, unless it is the pre-cut itself, which is clamped before. -/
def DspRequest.Fits (s : DspLoop) : DspRequest → Prop
  | .setAudioSettings audio => -214748364 ≤ audio.pbePrecut ∧ audio.pbePrecut ≤ 214748364
  | .adjustDspRow row dir =>
    (11 ≤ row → ∀ n ∈ rowSums s.dsp dir (row - 11), I32 n) ∧
      (row < 23 → row ≠ 16 → PrecutFits s.dsp)

section Handled

variable {single : Rounding}

theorem applyOp_i32 (a : AudioSettings) (p : Params) (h : PrecutFits a) :
    applyOp i32 single a p = applyOp some single a p := by
  obtain ⟨hlo, hhi⟩ := h
  have hmul : I32 (a.pbePrecut * 10) := by
    unfold I32
    omega
  have hneg : I32 (-(a.pbePrecut * 10)) := by
    unfold I32
    omega
  simp only [applyOp, i32_of_fits hmul, i32_of_fits hneg, Option.bind_some, Option.map_some]

theorem applyOp_overflow (a : AudioSettings) (p : Params) (h : ¬ PrecutFits a) :
    applyOp i32 single a p = none := by
  have hmul : ¬ I32 (a.pbePrecut * 10) := by
    unfold I32
    unfold PrecutFits at h
    omega
  simp only [applyOp, i32_of_not_fits hmul, Option.bind_none]

theorem apply_i32 {s : DspLoop} (h : PrecutFits s.dsp) : s.apply i32 single = s.apply some single := by
  unfold DspLoop.apply
  rw [applyOp_i32 s.dsp s.engine h]

theorem apply_overflow {s : DspLoop} (h : ¬ PrecutFits s.dsp) : s.apply i32 single = none := by
  unfold DspLoop.apply
  rw [applyOp_overflow s.dsp s.engine h]
  rfl

end Handled

/-- The range of a setting in the lexicon. -/
def Setting.InRange (s : AudioSettings) : Setting → Prop
  | .eqEnabled => True
  | .eqGain band => -24 ≤ s.eqGains band ∧ s.eqGains band ≤ 24
  | .bass => -24 ≤ s.bass ∧ s.bass ≤ 24
  | .treble => -24 ≤ s.treble ∧ s.treble ≤ 24
  | .crossfeedMode => crossfeedToStr s.crossfeedMode ∈ crossfeedModes
  | .crossfeedDirect => -6 ≤ s.crossfeedDirect ∧ s.crossfeedDirect ≤ 0
  | .pbe => 0 ≤ s.pbe ∧ s.pbe ≤ 100
  | .pbePrecut => 0 ≤ s.pbePrecut ∧ s.pbePrecut ≤ 24
  | .surroundDelay => 0 ≤ s.surroundDelay ∧ s.surroundDelay ≤ 30
  | .surroundBalance => 0 ≤ s.surroundBalance ∧ s.surroundBalance ≤ 100
  | .compThreshold => -30 ≤ s.compThreshold ∧ s.compThreshold ≤ 0
  | .compRatio => 2 ≤ s.compRatio ∧ s.compRatio ≤ 10
  | .channelMode => channelToStr s.channelMode ∈ channelModes
  | .stereoWidth => 0 ≤ s.stereoWidth ∧ s.stereoWidth ≤ 255

theorem clamp_mem {lo hi : ℤ} (h : lo ≤ hi) (n : ℤ) : lo ≤ clamp lo hi n ∧ clamp lo hi n ≤ hi := by
  unfold clamp
  omega

/-- What an adjusted row leaves behind. -/
structure Adjusted (s s' : AudioSettings) (row : ℕ) : Prop where
  precut : row ≠ 16 → s'.pbePrecut = s.pbePrecut
  inRange : ∀ f ∈ panel[row]?, f.InRange s'

theorem adjustTailOp_adjusted (single : Rounding) (s : AudioSettings) (dir : ℤ) :
    ∀ idx, ∃ s', adjustTailOp some single s idx dir = some (s', decide (idx < 12)) ∧
      Adjusted s s' (11 + idx)
  | 0 | 1 | 4 | 6 | 7 | 8 | 9 => by
    refine ⟨_, rfl, fun _ => rfl, ?_⟩
    rintro f ⟨⟩
    exact clamp_mem (by decide) _
  | 2 => by
    refine ⟨_, rfl, fun _ => rfl, ?_⟩
    rintro f ⟨⟩
    exact crossfeedToStr_mem _
  | 3 => by
    refine ⟨_, rfl, fun _ => rfl, ?_⟩
    rintro f ⟨⟩
    exact ⟨le_max_left _ _, max_le (by norm_num) (min_le_left _ _)⟩
  | 5 => by
    refine ⟨_, rfl, fun h => absurd rfl h, ?_⟩
    rintro f ⟨⟩
    exact clamp_mem (by decide) _
  | 10 => by
    refine ⟨_, rfl, fun _ => rfl, ?_⟩
    rintro f ⟨⟩
    exact channelToStr_mem _
  | 11 => by
    refine ⟨_, rfl, fun _ => rfl, ?_⟩
    rintro f ⟨⟩
    obtain ⟨hlo, hhi⟩ := clamp_mem (show (0 : ℤ) ≤ 200 by decide) (s.stereoWidth + dir * 5)
    exact ⟨hlo, hhi.trans (by decide)⟩
  | idx + 12 => by
    have hlt : ¬ idx + 12 < 12 := by omega
    refine ⟨s, ?_, fun _ => rfl, ?_⟩
    · rw [decide_eq_false hlt]
      rfl
    · intro f hf
      rw [List.getElem?_eq_none (by rw [panel_length]; omega)] at hf
      cases hf

theorem adjustOp_adjusted (single : Rounding) (s : AudioSettings) (row : ℕ) (dir : ℤ) :
    ∃ s', adjustOp some single s row dir = some (s', decide (row < 23)) ∧ Adjusted s s' row := by
  unfold adjustOp
  by_cases hzero : row = 0
  · subst hzero
    refine ⟨_, rfl, fun _ => rfl, ?_⟩
    rintro f ⟨⟩
    exact trivial
  · rw [if_neg hzero]
    by_cases hband : row < 1 + 10
    · rw [if_pos hband, decide_eq_true (show row < 23 by omega)]
      refine ⟨_, rfl, fun _ => rfl, ?_⟩
      intro f hf
      have hpanel := panel_band ⟨row - 1, by omega⟩
      have hrow : 1 + (row - 1) = row := by omega
      simp only [hrow] at hpanel
      rw [hpanel] at hf
      obtain rfl := Option.some.inj hf
      simp only [Setting.InRange, if_true]
      exact ⟨le_max_left _ _, max_le (by norm_num) (min_le_left _ _)⟩
    · rw [if_neg hband]
      obtain ⟨s', hs', hadj⟩ := adjustTailOp_adjusted single s dir (row - (1 + 10))
      have hrow : 11 + (row - (1 + 10)) = row := by omega
      have hiff : decide (row - (1 + 10) < 12) = decide (row < 23) :=
        decide_eq_decide.2 (by omega)
      rw [hrow] at hadj
      rw [hiff] at hs'
      exact ⟨s', hs', hadj⟩

theorem adjustOp_tail (op : ℤ → Option ℤ) (single : Rounding) (s : AudioSettings) {row : ℕ}
    (dir : ℤ) (hrow : 11 ≤ row) :
    adjustOp op single s row dir = adjustTailOp op single s (row - 11) dir := by
  unfold adjustOp
  rw [if_neg (by omega), if_neg (by omega)]

theorem adjustOp_i32 {single : Rounding} {s : AudioSettings} {row : ℕ} {dir : ℤ}
    (h : 11 ≤ row → ∀ n ∈ rowSums s dir (row - 11), I32 n) :
    adjustOp i32 single s row dir = adjustOp some single s row dir := by
  by_cases hrow : 11 ≤ row
  · rw [adjustOp_tail i32 single s dir hrow, adjustOp_tail some single s dir hrow,
      adjustTailOp_i32, if_pos (h hrow)]
  · unfold adjustOp
    by_cases hzero : row = 0
    · rw [if_pos hzero, if_pos hzero]
    · rw [if_neg hzero, if_neg hzero, if_pos (by omega), if_pos (by omega)]

theorem adjustOp_overflow {single : Rounding} {s : AudioSettings} {row : ℕ} {dir : ℤ}
    (hrow : 11 ≤ row) (h : ¬ ∀ n ∈ rowSums s dir (row - 11), I32 n) :
    adjustOp i32 single s row dir = none := by
  rw [adjustOp_tail i32 single s dir hrow, adjustTailOp_i32, if_neg h]

/-! ### One request -/

/-- The adjusted field is in its range. -/
def DspRequest.InRange (dsp : AudioSettings) : DspRequest → Prop
  | .setAudioSettings _ => True
  | .adjustDspRow row _ => ∀ f ∈ panel[row]?, f.InRange dsp

section Requests

variable {single : Rounding} {s : DspLoop} {r : DspRequest}

theorem precutFits_adjusted {row : ℕ} {a a' : AudioSettings} (h : Adjusted a a' row)
    (hfits : row ≠ 16 → PrecutFits a) : PrecutFits a' := by
  by_cases hrow : row = 16
  · subst hrow
    obtain ⟨hlo, hhi⟩ := h.inRange .pbePrecut rfl
    exact ⟨by omega, by omega⟩
  · have heq := h.precut hrow
    have hprecut := hfits hrow
    unfold PrecutFits at hprecut ⊢
    rwa [heq]

theorem handle_exact (s : DspLoop) (r : DspRequest) :
    ∃ s', s.handle some single r = some s' ∧ r.InRange s'.dsp := by
  cases r with
  | setAudioSettings audio => exact ⟨_, rfl, trivial⟩
  | adjustDspRow row dir =>
    obtain ⟨dsp, hdsp, hadj⟩ := adjustOp_adjusted single s.dsp row dir
    simp only [DspLoop.handle, hdsp, Option.bind_some]
    by_cases hrow : row < 23
    · rw [if_pos (decide_eq_true hrow)]
      exact ⟨_, rfl, hadj.inRange⟩
    · rw [if_neg (by simpa using hrow)]
      exact ⟨_, rfl, hadj.inRange⟩

theorem handle_fits (h : r.Fits s) : s.handle i32 single r = s.handle some single r := by
  cases r with
  | setAudioSettings audio => exact apply_i32 h
  | adjustDspRow row dir =>
    obtain ⟨hsums, hprecut⟩ := h
    obtain ⟨dsp, hdsp, hadj⟩ := adjustOp_adjusted single s.dsp row dir
    simp only [DspLoop.handle, adjustOp_i32 hsums, hdsp, Option.bind_some]
    by_cases hrow : row < 23
    · rw [if_pos (decide_eq_true hrow), if_pos (decide_eq_true hrow)]
      exact apply_i32 (precutFits_adjusted hadj (hprecut hrow))
    · rw [if_neg (by simpa using hrow), if_neg (by simpa using hrow)]

theorem handle_overflow (h : ¬ r.Fits s) : s.handle i32 single r = none := by
  cases r with
  | setAudioSettings audio => exact apply_overflow h
  | adjustDspRow row dir =>
    by_cases hsums : 11 ≤ row → ∀ n ∈ rowSums s.dsp dir (row - 11), I32 n
    · have hprecut : ¬ (row < 23 → row ≠ 16 → PrecutFits s.dsp) := fun hp => h ⟨hsums, hp⟩
      push Not at hprecut
      obtain ⟨hrow, hne, hover⟩ := hprecut
      obtain ⟨dsp, hdsp, hadj⟩ := adjustOp_adjusted single s.dsp row dir
      simp only [DspLoop.handle, adjustOp_i32 hsums, hdsp, Option.bind_some]
      rw [if_pos (decide_eq_true hrow)]
      refine apply_overflow fun hfits => hover ?_
      have heq := hadj.precut hne
      unfold PrecutFits at hfits ⊢
      rwa [← heq]
    · push Not at hsums
      obtain ⟨hrow, n, hn, hover⟩ := hsums
      simp only [DspLoop.handle]
      rw [adjustOp_overflow hrow fun hall => hover (hall n hn)]
      rfl

end Requests

/-! ### Runs -/

/-- No `i32` operation overflows, and each adjusted field is in its range. -/
def DspLoop.Safe (single : Rounding) : DspLoop → List DspRequest → Prop
  | _, [] => True
  | s, r :: rs =>
    ∃ s', s.handle i32 single r = some s' ∧ r.InRange s'.dsp ∧ s'.Safe single rs

/-- Each request fits in the state that it finds. -/
def DspLoop.AllFit (single : Rounding) : DspLoop → List DspRequest → Prop
  | _, [] => True
  | s, r :: rs => r.Fits s ∧ ∀ s' ∈ s.handle some single r, s'.AllFit single rs

theorem safe_iff (single : Rounding) (s : DspLoop) (rs : List DspRequest) :
    s.Safe single rs ↔ s.AllFit single rs := by
  induction rs generalizing s with
  | nil => exact Iff.rfl
  | cons r rs ih =>
    obtain ⟨s', hs', hrange⟩ : ∃ s', s.handle some single r = some s' ∧ r.InRange s'.dsp :=
      handle_exact s r
    constructor
    · rintro ⟨s₁, hs₁, -, hsafe⟩
      have hfits : r.Fits s := by
        by_contra h
        rw [handle_overflow h] at hs₁
        cases hs₁
      rw [handle_fits hfits] at hs₁
      refine ⟨hfits, fun s₂ hs₂ => ?_⟩
      obtain rfl := Option.some.inj (hs₁.symm.trans hs₂)
      exact (ih s₁).1 hsafe
    · rintro ⟨hfits, hrest⟩
      exact ⟨s', (handle_fits hfits).trans hs', hrange, (ih s').2 (hrest s' hs')⟩

/-- The largest pre-cut, set over the socket. -/
def loudest : PbAudio :=
  { eqEnabled := false, eqGains := [], bass := 0, treble := 0, crossfeedMode := "off"
    crossfeedDirectTenths := 0, pbe := 0, pbePrecut := 2 ^ 31 - 1, surroundDelay := 0
    surroundBalance := 0, compThreshold := 0, compRatio := 2, channelMode := "stereo"
    stereoWidth := 100 }

def flatEngine : Params :=
  { eqEnabled := false, gain := fun _ => 0, bass := 0, treble := 0, crossfeedMode := "off"
    directGain := 0, pbe := 0, pbePrecut := 0, surroundDelay := 0, surroundBalance := 0
    compThreshold := 0, compRatio := 0, channelMode := "stereo", stereoWidth := 100 }

def atStart : DspLoop := ⟨AudioSettings.default, flatEngine⟩

/-- A pre-cut has no tenths, a step no fivefold. -/
theorem largest_overflow :
    ¬ atStart.Safe .exactly [.setAudioSettings loudest] ∧
      ¬ atStart.Safe .exactly [.adjustDspRow 15 (2 ^ 31 - 1)] := by
  have hset : atStart.handle i32 .exactly (.setAudioSettings loudest) = none := rfl
  have hadjust : atStart.handle i32 .exactly (.adjustDspRow 15 (2 ^ 31 - 1)) = none := rfl
  constructor
  · rintro ⟨s', hs', -⟩
    rw [hset] at hs'
    cases hs'
  · rintro ⟨s', hs', -⟩
    rw [hadjust] at hs'
    cases hs'

end Atradio.Cli
