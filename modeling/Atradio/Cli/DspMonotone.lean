import Atradio.Cli.DspOverflow

/-! # Steps up and down on the rows of the panel -/

namespace Atradio.Cli
open Atradio.Audio Atradio.Lib

/-! ### Numbers on rows -/

def Setting.number (s : AudioSettings) : Setting → Option ℚ
  | .eqEnabled => none
  | .eqGain band => some (s.eqGains band)
  | .bass => some s.bass
  | .treble => some s.treble
  | .crossfeedMode => none
  | .crossfeedDirect => some s.crossfeedDirect
  | .pbe => some s.pbe
  | .pbePrecut => some s.pbePrecut
  | .surroundDelay => some s.surroundDelay
  | .surroundBalance => some s.surroundBalance
  | .compThreshold => some s.compThreshold
  | .compRatio => some s.compRatio
  | .channelMode => none
  | .stereoWidth => some s.stereoWidth

def Setting.step : Setting → ℚ
  | .crossfeedDirect => 1 / 2
  | .pbe | .surroundBalance | .stereoWidth => 5
  | _ => 1

def Setting.lo : Setting → ℚ
  | .eqGain _ | .bass | .treble => -24
  | .crossfeedDirect => -6
  | .compThreshold => -30
  | .compRatio => 2
  | _ => 0

/-- The upper end of a row, where its bar is full. -/
def Setting.hi : Setting → ℚ
  | .eqGain _ | .bass | .treble | .pbePrecut => 24
  | .pbe | .surroundBalance => 100
  | .surroundDelay => 30
  | .compRatio => 10
  | .stereoWidth => 200
  | _ => 0

/-- The maximum of the lexicon. -/
def Setting.lexiconHi : Setting → ℚ
  | .stereoWidth => 255
  | f => f.hi

/-- `+1` never decreases a number and `-1` never increases it; a number one step or more inside
`hi` comes back. -/
def AdjustLaw (single : Rounding) (s : AudioSettings) (i : ℕ) (hi : Setting → ℚ) : Prop :=
  ∀ f ∈ panel[i]?, ∀ v ∈ f.number s,
    (∃ s' v', adjustOp i32 single s i 1 = some (s', true) ∧ f.number s' = some v' ∧ v ≤ v') ∧
    (∃ s' v', adjustOp i32 single s i (-1) = some (s', true) ∧ f.number s' = some v' ∧ v' ≤ v) ∧
    (f.lo + f.step ≤ v → v + f.step ≤ hi f → ∃ s' s'', adjustOp i32 single s i 1 = some (s', true) ∧
      adjustOp i32 single s' i (-1) = some (s'', true) ∧ f.number s'' = some v)

def Setting.index : Setting → ℕ
  | .eqEnabled => 0
  | .eqGain band => 1 + band.val
  | .bass => 11
  | .treble => 12
  | .crossfeedMode => 13
  | .crossfeedDirect => 14
  | .pbe => 15
  | .pbePrecut => 16
  | .surroundDelay => 17
  | .surroundBalance => 18
  | .compThreshold => 19
  | .compRatio => 20
  | .channelMode => 21
  | .stereoWidth => 22

theorem panel_index (f : Setting) : panel[f.index]? = some f := by
  cases f with
  | eqGain band => exact panel_band band
  | _ => rfl

theorem eq_index {i : ℕ} {f : Setting} (h : panel[i]? = some f) : i = f.index := by
  obtain ⟨hi, hget⟩ := List.getElem?_eq_some_iff.1 h
  obtain ⟨hj, hget'⟩ := List.getElem?_eq_some_iff.1 (panel_index f)
  exact panel_nodup.getElem_inj_iff.1 (hget.trans hget'.symm)

/-! ### How a row steps -/

/-- On the numbers of `ok`, row `f` goes from `v` to `next dir v`. -/
def Steps (single : Rounding) (f : Setting) (ok : ℚ → Prop) (next : ℤ → ℚ → ℚ) : Prop :=
  ∀ s v, f.number s = some v → ok v → ∀ dir, dir = 1 ∨ dir = -1 →
    ∃ s', adjustOp i32 single s f.index dir = some (s', true) ∧ f.number s' = some (next dir v)

/-- Whole numbers whose sums are far from overflowing. -/
def Whole (v : ℚ) : Prop := ∃ n : ℤ, -300 ≤ n ∧ n ≤ 300 ∧ v = n

def Setting.next (f : Setting) (dir : ℤ) (v : ℚ) : ℚ := max f.lo (min f.hi (v + dir * f.step))

section Whole

variable {single : Rounding}

theorem i32_step {n dir : ℤ} (hlo : -300 ≤ n) (hhi : n ≤ 300) (hd : dir = 1 ∨ dir = -1) :
    i32 (n + dir) = some (n + dir) := by
  refine i32_of_fits ?_
  unfold I32
  omega

theorem addFive_step {n dir : ℤ} (hlo : -300 ≤ n) (hhi : n ≤ 300) (hd : dir = 1 ∨ dir = -1) :
    addFive i32 n dir = some (n + dir * 5) := by
  have hfive : I32 (dir * 5) := by
    unfold I32
    omega
  have hsum : I32 (n + dir * 5) := by
    unfold I32
    omega
  rw [addFive, i32_of_fits hfive, Option.bind_some, i32_of_fits hsum]

theorem clamp_cast (lo hi n : ℤ) : ((clamp lo hi n : ℤ) : ℚ) = max (lo : ℚ) (min (hi : ℚ) n) := by
  unfold clamp
  push_cast
  rfl

theorem fl_dir (R : Rounding) {dir : ℤ} (hd : dir = 1 ∨ dir = -1) : R.fl dir = dir := by
  refine R.exact dir ?_
  rcases hd with rfl | rfl <;> norm_num

/-- All numbers but the direct gain. -/
theorem steps_whole (f : Setting) (hf : f ≠ .crossfeedDirect) :
    Steps single f Whole f.next := by
  intro s v hv hok dir hd
  obtain ⟨n, hlo, hhi, rfl⟩ := hok
  cases f
  case eqEnabled | crossfeedMode | channelMode => cases hv
  case crossfeedDirect => exact absurd rfl hf
  case eqGain band =>
    have hgain : s.eqGains band = n := Option.some.inj hv
    have hsum : single.fl ((n : ℚ) + single.fl dir) = n + dir := by
      rw [fl_dir single hd]
      have hexact := single.exact (n + dir) (abs_le.2 ⟨by omega, by omega⟩)
      push_cast at hexact
      exact hexact
    have hne : ¬ 1 + band.val = 0 := by omega
    have hlt : 1 + band.val < 1 + 10 := by omega
    unfold adjustOp
    rw [Setting.index, if_neg hne, if_pos hlt]
    refine ⟨_, rfl, ?_⟩
    simp [Setting.number, Setting.next, Setting.lo, Setting.hi, Setting.step, hgain, hsum]
  case pbe | surroundBalance | stereoWidth =>
    have hval := Int.cast_injective (Option.some.inj hv)
    rw [Setting.index, adjustOp_tail _ _ _ _ (by omega)]
    simp only [Nat.reduceSub, adjustTailOp, hval, addFive_step hlo hhi hd, Option.map_some]
    refine ⟨_, rfl, ?_⟩
    simp [Setting.number, Setting.next, Setting.lo, Setting.hi, Setting.step, clamp_cast]
  all_goals
    have hval := Int.cast_injective (Option.some.inj hv)
    rw [Setting.index, adjustOp_tail _ _ _ _ (by omega)]
    simp only [Nat.reduceSub, adjustTailOp, hval, i32_step hlo hhi hd, Option.map_some]
    refine ⟨_, rfl, ?_⟩
    simp [Setting.number, Setting.next, Setting.lo, Setting.hi, Setting.step, clamp_cast]

end Whole

/-- The direct gain, which goes in half steps of `f32`. -/
def nextDirect (R : Rounding24) (dir : ℤ) (v : ℚ) : ℚ :=
  max (-6) (min 0 (R.fl (v + dir * (1 / 2))))

theorem steps_direct (R : Rounding24) :
    Steps R.toRounding .crossfeedDirect (fun _ => True) (nextDirect R) := by
  intro s v hv _ dir hd
  have hval : s.crossfeedDirect = v := Option.some.inj hv
  have hhalf : R.fl ((dir : ℚ) * (1 / 2)) = dir * (1 / 2) := by
    refine R.fixed _ ?_
    rcases hd with rfl | rfl
    · simpa using Float24.half
    · simpa using Float24.half.neg
  rw [Setting.index, adjustOp_tail _ _ _ _ (by omega)]
  refine ⟨_, rfl, ?_⟩
  simp only [Setting.number, nextDirect, hval, fl_dir R.toRounding hd, hhalf]

/-! ### The law of a row -/

theorem law_of_steps {single : Rounding} {f : Setting} {ok : ℚ → Prop} {next : ℤ → ℚ → ℚ}
    {s : AudioSettings} {hi : Setting → ℚ} (hsteps : Steps single f ok next)
    (h : ∀ v, f.number s = some v → ok v ∧ v ≤ next 1 v ∧ next (-1) v ≤ v ∧
      (f.lo + f.step ≤ v → v + f.step ≤ hi f → ok (next 1 v) ∧ next (-1) (next 1 v) = v)) :
    AdjustLaw single s f.index hi := by
  intro g hg v hv
  obtain rfl := Option.some.inj ((panel_index f).symm.trans hg)
  obtain ⟨hok, hup, hdown, hback⟩ := h v hv
  obtain ⟨s₁, hs₁, hv₁⟩ := hsteps s v hv hok 1 (.inl rfl)
  obtain ⟨s₂, hs₂, hv₂⟩ := hsteps s v hv hok (-1) (.inr rfl)
  refine ⟨⟨s₁, _, hs₁, hv₁, hup⟩, ⟨s₂, _, hs₂, hv₂, hdown⟩, fun hlo hhi => ?_⟩
  obtain ⟨hok₁, hback₁⟩ := hback hlo hhi
  obtain ⟨s₃, hs₃, hv₃⟩ := hsteps s₁ _ hv₁ hok₁ (-1) (.inr rfl)
  exact ⟨s₁, s₃, hs₁, hs₃, hback₁ ▸ hv₃⟩

theorem step_pos (f : Setting) : 0 < f.step := by
  cases f <;> simp [Setting.step]

theorem next_up (f : Setting) {v : ℚ} (hhi : v ≤ f.hi) : v ≤ f.next 1 v := by
  have hpos := step_pos f
  refine le_max_of_le_right (le_min hhi ?_)
  push_cast
  linarith

theorem next_down (f : Setting) {v : ℚ} (hlo : f.lo ≤ v) : f.next (-1) v ≤ v := by
  have hpos := step_pos f
  refine max_le hlo (min_le_of_right_le ?_)
  push_cast
  linarith

theorem next_inside (f : Setting) {v : ℚ} (hlo : f.lo + f.step ≤ v) (hhi : v + f.step ≤ f.hi) :
    f.next 1 v = v + f.step := by
  have hpos := step_pos f
  unfold Setting.next
  push_cast
  rw [one_mul, min_eq_right hhi, max_eq_right (by linarith)]

theorem next_back (f : Setting) {v : ℚ} (hlo : f.lo + f.step ≤ v) (hhi : v + f.step ≤ f.hi) :
    f.next (-1) (f.next 1 v) = v := by
  have hpos := step_pos f
  rw [next_inside f hlo hhi]
  unfold Setting.next
  push_cast
  rw [neg_one_mul, add_neg_cancel_right, min_eq_right (by linarith), max_eq_right (by linarith)]

theorem whole_add {v : ℚ} {f : Setting} (hf : f ≠ .crossfeedDirect) (h : Whole v)
    (hhi : v + f.step ≤ f.hi) : Whole (v + f.step) := by
  obtain ⟨n, hlo, -, rfl⟩ := h
  have hstep : ∃ k : ℤ, 0 ≤ k ∧ f.step = k := by
    cases f
    case crossfeedDirect => exact absurd rfl hf
    case pbe | surroundBalance | stereoWidth => exact ⟨5, by decide, by simp [Setting.step]⟩
    all_goals exact ⟨1, by decide, by simp [Setting.step]⟩
  have hmax : f.hi ≤ 200 := by
    cases f <;> norm_num [Setting.hi]
  obtain ⟨k, hk, heq⟩ := hstep
  rw [heq] at hhi ⊢
  have hsum : ((n + k : ℤ) : ℚ) ≤ (200 : ℤ) := by
    push_cast
    linarith
  exact ⟨n + k, by omega, by have := Int.cast_le.1 hsum; omega, by push_cast; rfl⟩

/-! ### Settings of a synced record -/

theorem inLexicon_of_record (R : Rounding24) (r : AudioSettingsRecord) :
    InLexicon R.toRounding (audioFromRecord R.toRounding r) := by
  have hdefault : ∃ tenths : Ranged (-60) 0, (-3 / 2 : ℚ) = R.fl (tenths.val / (10 : ℤ)) := by
    refine ⟨⟨-15, by decide⟩, ?_⟩
    have hfixed := R.fixed (-3 / 2) ⟨-3, -1, by norm_num, by norm_num⟩
    norm_num at hfixed ⊢
    exact hfixed.symm
  constructor
  case eqGains =>
    intro band
    simp only [audioFromRecord]
    cases r.eqGains with
    | none => exact ⟨⟨0, by decide⟩, by simp [AudioSettings.default]⟩
    | some gains =>
      simp only [Option.elim_some]
      cases gains[band.val]? with
      | none => exact ⟨⟨0, by decide⟩, by simp [AudioSettings.default]⟩
      | some gain => exact ⟨gain, fl_gain R.toRounding gain⟩
  case crossfeedDirect =>
    simp only [audioFromRecord]
    cases r.crossfeedDirect with
    | none => exact hdefault
    | some tenths => exact ⟨tenths, rfl⟩
  all_goals exact coalesce_mem _ (by decide) (by decide)

/-- The numbers that a record delivers lie between the minimum and the maximum of the lexicon. -/
theorem InLexicon.number {single : Rounding} {s : AudioSettings} (h : InLexicon single s)
    {f : Setting} (hf : f ≠ .crossfeedDirect) {v : ℚ} (hv : f.number s = some v) :
    Whole v ∧ f.lo ≤ v ∧ v ≤ f.lexiconHi := by
  have hwhole : ∀ {n lo hi : ℤ}, lo ≤ n ∧ n ≤ hi → -300 ≤ lo → hi ≤ 300 →
      Whole n ∧ (lo : ℚ) ≤ n ∧ (n : ℚ) ≤ hi := by
    intro n lo hi hn hlo hhi
    exact ⟨⟨n, by omega, by omega, rfl⟩, by exact_mod_cast hn.1, by exact_mod_cast hn.2⟩
  cases f
  case eqEnabled | crossfeedMode | channelMode => cases hv
  case crossfeedDirect => exact absurd rfl hf
  case eqGain band =>
    obtain ⟨gain, hgain⟩ := h.eqGains band
    obtain rfl := Option.some.inj hv
    rw [hgain]
    simpa [Setting.lo, Setting.hi, Setting.lexiconHi] using
      hwhole gain.property (by decide) (by decide)
  all_goals
    obtain rfl := Option.some.inj hv
    simp only [Setting.lo, Setting.hi, Setting.lexiconHi]
  case bass => simpa using hwhole h.bass (by decide) (by decide)
  case treble => simpa using hwhole h.treble (by decide) (by decide)
  case pbe => simpa using hwhole h.pbe (by decide) (by decide)
  case pbePrecut => simpa using hwhole h.pbePrecut (by decide) (by decide)
  case surroundDelay => simpa using hwhole h.surroundDelay (by decide) (by decide)
  case surroundBalance => simpa using hwhole h.surroundBalance (by decide) (by decide)
  case compThreshold => simpa using hwhole h.compThreshold (by decide) (by decide)
  case compRatio => simpa using hwhole h.compRatio (by decide) (by decide)
  case stereoWidth => simpa using hwhole h.stereoWidth (by decide) (by decide)

/-- A direct gain is a number of `f32` in its range. -/
theorem InLexicon.direct {R : Rounding24} {s : AudioSettings} (h : InLexicon R.toRounding s) :
    Float24 s.crossfeedDirect ∧ -6 ≤ s.crossfeedDirect ∧ s.crossfeedDirect ≤ 0 := by
  obtain ⟨tenths, htenths⟩ := h.crossfeedDirect
  rw [htenths]
  exact ⟨R.holds _, fl_tenth_mem R.toRounding tenths⟩

/-! ### Which rows obey the law -/

section Laws

variable {R : Rounding24} {s : AudioSettings} {hi : Setting → ℚ}

theorem direct_law (h : InLexicon R.toRounding s)
    (hhi : hi .crossfeedDirect = Setting.hi .crossfeedDirect) :
    AdjustLaw R.toRounding s 14 hi := by
  refine law_of_steps (f := .crossfeedDirect) (steps_direct R) ?_
  intro v hv
  obtain rfl : s.crossfeedDirect = v := Option.some.inj hv
  obtain ⟨hfloat, hlo, hle⟩ := h.direct
  have hfixed := R.fixed _ hfloat
  have hup : s.crossfeedDirect ≤ R.fl (s.crossfeedDirect + (1 : ℤ) * (1 / 2)) := by
    have hmono := R.mono s.crossfeedDirect (s.crossfeedDirect + (1 : ℤ) * (1 / 2)) (by norm_num)
    rwa [hfixed] at hmono
  have hdown : R.fl (s.crossfeedDirect + (-1 : ℤ) * (1 / 2)) ≤ s.crossfeedDirect := by
    have hmono := R.mono (s.crossfeedDirect + (-1 : ℤ) * (1 / 2)) s.crossfeedDirect (by norm_num)
    rwa [hfixed] at hmono
  refine ⟨trivial, le_max_of_le_right (le_min hle hup), max_le hlo (min_le_of_right_le hdown), ?_⟩
  intro hin hout
  rw [hhi] at hout
  simp only [Setting.lo, Setting.hi, Setting.step] at hin hout
  -- Half a step up from -1/2 or less is exact, and so is the way back.
  have hstep := R.fixed _ (hfloat.half_step (by linarith) (by linarith))
  have hnext : nextDirect R 1 s.crossfeedDirect = s.crossfeedDirect + 1 / 2 := by
    unfold nextDirect
    push_cast
    rw [one_mul, hstep, min_eq_right (by linarith), max_eq_right (by linarith)]
  refine ⟨trivial, ?_⟩
  rw [hnext]
  unfold nextDirect
  push_cast
  rw [neg_one_mul, add_neg_cancel_right, hfixed, min_eq_right hle, max_eq_right hlo]

theorem whole_law (h : InLexicon R.toRounding s) {f : Setting} (hf : f ≠ .crossfeedDirect)
    (hv : ∀ v, f.number s = some v →
      v ≤ f.hi ∧ (f.lo + f.step ≤ v → v + f.step ≤ hi f → v + f.step ≤ f.hi)) :
    AdjustLaw R.toRounding s f.index hi := by
  refine law_of_steps (steps_whole f hf) ?_
  intro v hnum
  obtain ⟨hwhole, hlo, -⟩ := h.number hf hnum
  obtain ⟨hle, hinside⟩ := hv v hnum
  refine ⟨hwhole, next_up f hle, next_down f hlo, ?_⟩
  intro hin hout
  have hin' := hinside hin hout
  exact ⟨next_inside f hin hin' ▸ whole_add hf hwhole hin', next_back f hin hin'⟩

/-- The way up and back of a row that obeys the law. -/
theorem AdjustLaw.steps {single : Rounding} {f : Setting} {ok : ℚ → Prop} {next : ℤ → ℚ → ℚ}
    {v : ℚ} (h : AdjustLaw single s f.index hi) (hsteps : Steps single f ok next)
    (hv : f.number s = some v) (hok : ok v) (hok' : ok (next 1 v)) :
    v ≤ next 1 v ∧ (f.lo + f.step ≤ v → v + f.step ≤ hi f → next (-1) (next 1 v) = v) := by
  obtain ⟨⟨s', v', hs', hv', hle⟩, -, hback⟩ := h f (panel_index f) v hv
  obtain ⟨s₁, hs₁, hv₁⟩ := hsteps s v hv hok 1 (.inl rfl)
  obtain ⟨rfl, -⟩ := Prod.mk.inj (Option.some.inj (hs'.symm.trans hs₁))
  obtain rfl := Option.some.inj (hv'.symm.trans hv₁)
  refine ⟨hle, fun hin hout => ?_⟩
  obtain ⟨s₂, s₃, hs₂, hs₃, hv₃⟩ := hback hin hout
  obtain ⟨rfl, -⟩ := Prod.mk.inj (Option.some.inj (hs₂.symm.trans hs'))
  obtain ⟨s₄, hs₄, hv₄⟩ := hsteps s₂ _ hv' hok' (-1) (.inr rfl)
  obtain ⟨rfl, -⟩ := Prod.mk.inj (Option.some.inj (hs₃.symm.trans hs₄))
  exact Option.some.inj (hv₄.symm.trans hv₃)

/-- The width is clamped to 200, and may be 255. -/
theorem width_law {single : Rounding} (h : AdjustLaw single s 22 hi)
    (hlo : 0 ≤ s.stereoWidth) (hmax : s.stereoWidth ≤ 255) :
    s.stereoWidth ≤ 200 ∧ (s.stereoWidth + 5 ≤ hi .stereoWidth → s.stereoWidth ≤ 195) := by
  have hclamp : ∀ n : ℤ, 195 < n → Setting.next .stereoWidth 1 (n : ℚ) = (200 : ℤ) := by
    intro n hn
    have hq : (195 : ℤ) + 1 ≤ (n : ℚ) := by exact_mod_cast hn
    simp only [Setting.next, Setting.lo, Setting.hi, Setting.step]
    push_cast at hq ⊢
    rw [min_eq_left (by linarith), max_eq_right (by norm_num)]
  by_contra hnot
  have hwide : 195 < s.stereoWidth := by
    by_contra hle
    exact hnot ⟨by omega, fun _ => by omega⟩
  obtain ⟨hup, hback⟩ := h.steps (f := .stereoWidth) (steps_whole .stereoWidth (by simp))
    (v := s.stereoWidth) rfl ⟨s.stereoWidth, by omega, by omega, rfl⟩
    (hclamp _ hwide ▸ ⟨200, by decide, by decide, rfl⟩)
  rw [hclamp _ hwide] at hup hback
  have hle : s.stereoWidth ≤ 200 := by exact_mod_cast hup
  refine hnot ⟨hle, fun hout => ?_⟩
  have hq : ((195 : ℤ) : ℚ) < s.stereoWidth := by exact_mod_cast hwide
  have hdown := hback (by simp only [Setting.lo, Setting.step]; push_cast at hq; linarith) hout
  have h195 : Setting.next .stereoWidth (-1) ((200 : ℤ) : ℚ) = 195 := by
    norm_num [Setting.next, Setting.lo, Setting.hi, Setting.step]
  rw [h195] at hdown
  push_cast at hq
  linarith

end Laws

theorem other_law {R : Rounding24} {s : AudioSettings} (h : InLexicon R.toRounding s)
    {f : Setting} (hf : f ≠ .crossfeedDirect) (hwidth : f ≠ .stereoWidth) {hi : Setting → ℚ}
    (hhi : hi f = f.hi) : AdjustLaw R.toRounding s f.index hi := by
  refine whole_law h hf fun v hv => ?_
  obtain ⟨-, -, hle⟩ := h.number hf hv
  have hsame : f.lexiconHi = f.hi := by
    cases f
    case stereoWidth => exact absurd rfl hwidth
    all_goals rfl
  rw [hsame] at hle
  rw [hhi]
  exact ⟨hle, fun _ hout => hout⟩

theorem adjustLaw_iff {R : Rounding24} {s : AudioSettings} (h : InLexicon R.toRounding s) (i : ℕ)
    {hi : Setting → ℚ} (hhi : ∀ f, f ≠ .stereoWidth → hi f = f.hi) :
    AdjustLaw R.toRounding s i hi ↔ (i = 22 → s.stereoWidth ≤ 200 ∧
      ((s.stereoWidth : ℚ) + 5 ≤ hi .stereoWidth → s.stereoWidth ≤ 195)) := by
  constructor
  · rintro hlaw rfl
    exact width_law hlaw h.stereoWidth.1 h.stereoWidth.2
  · intro hcond
    cases hf : panel[i]? with
    | none =>
      intro f hf'
      rw [hf] at hf'
      cases hf'
    | some f =>
      obtain rfl := eq_index hf
      by_cases hdirect : f = .crossfeedDirect
      · subst hdirect
        exact direct_law h (hhi _ (by simp))
      by_cases hwidth : f = .stereoWidth
      · subst hwidth
        obtain ⟨hle, hinside⟩ := hcond rfl
        refine whole_law h hdirect fun v hv => ?_
        obtain rfl : (s.stereoWidth : ℚ) = v := Option.some.inj hv
        have hq : (s.stereoWidth : ℚ) ≤ (200 : ℤ) := by exact_mod_cast hle
        simp only [Setting.hi, Setting.lo, Setting.step]
        push_cast at hq
        refine ⟨hq, fun _ hout => ?_⟩
        have hq' : (s.stereoWidth : ℚ) ≤ (195 : ℤ) := by exact_mod_cast hinside hout
        push_cast at hq'
        linarith
      · exact other_law h hdirect hwidth (hhi f hwidth)

/-- The width is the only row that breaks the law: above 200, and above 195 when a number is
compared with the maximum of the lexicon. -/
theorem record_law_iff (R : Rounding24) (r : AudioSettingsRecord) (i : ℕ) :
    (AdjustLaw R.toRounding (audioFromRecord R.toRounding r) i Setting.hi ↔
      (i = 22 → coalesce r.stereoWidth 100 ≤ 200)) ∧
    (AdjustLaw R.toRounding (audioFromRecord R.toRounding r) i Setting.lexiconHi ↔
      (i = 22 → coalesce r.stereoWidth 100 ≤ 195)) := by
  have h := inLexicon_of_record R r
  have hwidth : (audioFromRecord R.toRounding r).stereoWidth = coalesce r.stereoWidth 100 := rfl
  constructor
  · rw [adjustLaw_iff h i fun _ _ => rfl, hwidth]
    refine imp_congr_right fun _ => and_iff_left_of_imp fun _ hout => ?_
    simp only [Setting.hi] at hout
    have hle : (coalesce r.stereoWidth 100 : ℚ) ≤ (195 : ℤ) := by
      push_cast
      linarith
    exact_mod_cast hle
  · rw [adjustLaw_iff h i fun f hf => by cases f <;> first | rfl | exact absurd rfl hf, hwidth]
    refine imp_congr_right fun _ => ⟨fun hcond => ?_, fun hle => ⟨by omega, fun _ => hle⟩⟩
    refine hcond.2 ?_
    have hle : (coalesce r.stereoWidth 100 : ℚ) ≤ (200 : ℤ) := by exact_mod_cast hcond.1
    simp only [Setting.lexiconHi]
    push_cast at hle
    linarith

/-- A record of another client with the width at its maximum. -/
def wideRecord : AudioSettingsRecord where
  eqEnabled := none
  eqGains := none
  bass := none
  treble := none
  crossfeedMode := none
  crossfeedDirect := none
  pbe := none
  pbePrecut := none
  surroundDelay := none
  surroundBalance := none
  compThreshold := none
  compRatio := none
  channelMode := none
  stereoWidth := some ⟨255, by decide⟩

theorem wide_decreases :
    ¬ AdjustLaw nearestEven.toRounding (audioFromRecord nearestEven.toRounding wideRecord) 22
      Setting.hi := by
  intro h
  have hwidth := (width_law h (by decide) (by decide)).1
  exact absurd hwidth (by decide)

end Atradio.Cli
