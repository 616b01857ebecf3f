import Atradio.Cli.Tui.Keys
import Atradio.Lib.Float24
import Mathlib.Tactic.FinCases

/-! # The panel over the rows (`rows` in `tui/dsp_rows.rs`, the cursor in `tui/mod.rs`) -/

namespace Atradio.Cli
open Atradio.Audio Atradio.Lib

/-! ### Texts -/

/-- `{:+}` -/
def signed (n : ℤ) : String := if 0 ≤ n then "+" ++ toString n else toString n

/-- `{:+.0}` -/
def signedWhole (x : ℚ) : String :=
  (if 0 ≤ x then "+" else "-") ++ toString (roundHalfEven |x|)

/-- `{:.1}` -/
def oneDecimal (x : ℚ) : String :=
  let tenths := roundHalfEven (|x| * 10)
  (if 0 ≤ x then "" else "-") ++ toString (tenths / 10) ++ "." ++ toString (tenths % 10)

def freqLabel (hz : ℤ) : String :=
  if 1000 ≤ hz then toString (hz / 1000) ++ "kHz" else toString hz ++ "Hz"

def crossfeedLabel : CrossfeedMode → String
  | .off => "Off"
  | .meier => "Meier"
  | .custom => "Custom"

def channelLabel : ChannelMode → String
  | .stereo => "Stereo"
  | .mono => "Mono"
  | .custom => "Custom"
  | .monoLeft => "Mono L"
  | .monoRight => "Mono R"
  | .karaoke => "Karaoke"
  | .swap => "Swap"

/-! ### Rows -/

structure Row where
  label : String
  value : String
  fill : Option ℚ

inductive Setting where
  | eqEnabled
  | eqGain (band : Fin 10)
  | bass
  | treble
  | crossfeedMode
  | crossfeedDirect
  | pbe
  | pbePrecut
  | surroundDelay
  | surroundBalance
  | compThreshold
  | compRatio
  | channelMode
  | stereoWidth
  deriving DecidableEq

/-- The settings in the order in which `rows` pushes them. -/
def panel : List Setting :=
  .eqEnabled :: ((List.finRange 10).map .eqGain ++
    [.bass, .treble, .crossfeedMode, .crossfeedDirect, .pbe, .pbePrecut, .surroundDelay,
      .surroundBalance, .compThreshold, .compRatio, .channelMode, .stereoWidth])

section Rows

variable (single : Rounding) (freqs : Fin 10 → ℤ)

def norm (v lo hi : ℚ) : ℚ := max 0 (min 1 (single.fl (single.fl (v - lo) / (hi - lo))))

/-- `norm` of an `i32` cast to `f32`. -/
def normInt (n : ℤ) (lo hi : ℚ) : ℚ := norm single (single.fl n) lo hi

def row (s : AudioSettings) : Setting → Row
  | .eqEnabled => ⟨"Equalizer", if s.eqEnabled then "On" else "Off", none⟩
  | .eqGain band =>
    ⟨"  " ++ freqLabel (freqs band), signedWhole (s.eqGains band) ++ " dB",
      some (norm single (s.eqGains band) (-24) 24)⟩
  | .bass => ⟨"Bass", signed s.bass ++ " dB", some (normInt single s.bass (-24) 24)⟩
  | .treble => ⟨"Treble", signed s.treble ++ " dB", some (normInt single s.treble (-24) 24)⟩
  | .crossfeedMode => ⟨"Crossfeed", crossfeedLabel s.crossfeedMode, none⟩
  | .crossfeedDirect =>
    ⟨"  Direct gain", oneDecimal s.crossfeedDirect ++ " dB",
      some (norm single s.crossfeedDirect (-6) 0)⟩
  | .pbe => ⟨"Perceptual bass", toString s.pbe ++ "%", some (normInt single s.pbe 0 100)⟩
  | .pbePrecut =>
    ⟨"  Pre-cut", "-" ++ toString s.pbePrecut ++ " dB", some (normInt single s.pbePrecut 0 24)⟩
  | .surroundDelay =>
    ⟨"Surround delay", toString s.surroundDelay ++ " ms",
      some (normInt single s.surroundDelay 0 30)⟩
  | .surroundBalance =>
    ⟨"  Balance", toString s.surroundBalance ++ "%",
      some (normInt single s.surroundBalance 0 100)⟩
  | .compThreshold =>
    ⟨"Compressor thr.", toString s.compThreshold ++ " dB",
      some (normInt single s.compThreshold (-30) 0)⟩
  | .compRatio =>
    ⟨"  Ratio", toString s.compRatio ++ ":1", some (normInt single s.compRatio 2 10)⟩
  | .channelMode => ⟨"Channel mode", channelLabel s.channelMode, none⟩
  | .stereoWidth =>
    ⟨"  Stereo width", toString s.stereoWidth ++ "%",
      some (normInt single s.stereoWidth 0 200)⟩

def rows (s : AudioSettings) : List Row := panel.map (row single freqs s)

end Rows

theorem panel_length : panel.length = 23 := rfl

theorem panel_nodup : panel.Nodup := by decide

theorem rows_length (single : Rounding) (freqs : Fin 10 → ℤ) (s : AudioSettings) :
    (rows single freqs s).length = 23 := by
  rw [rows, List.length_map, panel_length]

/-! ### A setting and the others -/

inductive SettingValue where
  | flag (b : Bool)
  | gain (x : ℚ)
  | whole (n : ℤ)
  | crossfeed (m : CrossfeedMode)
  | channel (m : ChannelMode)

def Setting.get (s : AudioSettings) : Setting → SettingValue
  | .eqEnabled => .flag s.eqEnabled
  | .eqGain band => .gain (s.eqGains band)
  | .bass => .whole s.bass
  | .treble => .whole s.treble
  | .crossfeedMode => .crossfeed s.crossfeedMode
  | .crossfeedDirect => .gain s.crossfeedDirect
  | .pbe => .whole s.pbe
  | .pbePrecut => .whole s.pbePrecut
  | .surroundDelay => .whole s.surroundDelay
  | .surroundBalance => .whole s.surroundBalance
  | .compThreshold => .whole s.compThreshold
  | .compRatio => .whole s.compRatio
  | .channelMode => .channel s.channelMode
  | .stereoWidth => .whole s.stereoWidth

/-- The settings other than `f` are those of `s`. -/
def ChangesOnly (f : Setting) (s s' : AudioSettings) : Prop :=
  ∀ g, g ≠ f → g.get s' = g.get s

/-- A row shows its setting and nothing else. -/
theorem row_congr {s s' : AudioSettings} (single : Rounding) (freqs : Fin 10 → ℤ) {f : Setting}
    (h : f.get s' = f.get s) : row single freqs s' f = row single freqs s f := by
  cases f <;> simp only [Setting.get, SettingValue.flag.injEq, SettingValue.gain.injEq,
    SettingValue.whole.injEq, SettingValue.crossfeed.injEq, SettingValue.channel.injEq] at h <;>
    simp only [row, h]

theorem other_rows {s s' : AudioSettings} (single : Rounding) (freqs : Fin 10 → ℤ) {i : ℕ}
    {f : Setting} (hf : panel[i]? = some f) (h : ChangesOnly f s s') :
    ∀ j, j ≠ i → (rows single freqs s')[j]? = (rows single freqs s)[j]? := by
  intro j hj
  simp only [rows, List.getElem?_map]
  cases hg : panel[j]? with
  | none => rfl
  | some g =>
    have hne : g ≠ f := by
      rintro rfl
      obtain ⟨hlt, hget⟩ := List.getElem?_eq_some_iff.1 hg
      obtain ⟨hlt', hget'⟩ := List.getElem?_eq_some_iff.1 hf
      exact hj ((panel_nodup.getElem_inj_iff).1 (hget.trans hget'.symm))
    exact congrArg some (row_congr single freqs (h g hne))

/-! ### What `adjust` changes -/

theorem panel_band (band : Fin 10) : panel[1 + band.val]? = some (.eqGain band) := by
  revert band
  decide

theorem band_changes (s : AudioSettings) (dir : ℤ) (band : Fin 10) :
    ChangesOnly (.eqGain band) s
      { s with
        eqGains := fun b =>
          if b.val = 1 + band.val - 1 then max (-24) (min 24 (s.eqGains b + dir))
          else s.eqGains b } := by
  intro g hg
  cases g with
  | eqGain b =>
    have hne : b.val ≠ 1 + band.val - 1 := by
      intro h
      exact hg (congrArg Setting.eqGain (Fin.ext (by omega)))
    simp only [Setting.get, if_neg hne]
  | _ => rfl

theorem tail_changes (s : AudioSettings) (dir : ℤ) (idx : Fin 12) :
    ∃ s' f, adjustTail s idx.val dir = some s' ∧ panel[11 + idx.val]? = some f ∧
      ChangesOnly f s s' := by
  fin_cases idx
  all_goals
    refine ⟨_, _, rfl, rfl, ?_⟩
    intro g hg
    cases g <;> first | rfl | exact absurd rfl hg

/-- Each of the 23 rows has its setting in the panel. -/
theorem adjust_changes (s : AudioSettings) (dir : ℤ) {i : ℕ} (hi : i < 23) :
    ∃ s' f, adjust s i dir = some s' ∧ panel[i]? = some f ∧ ChangesOnly f s s' := by
  unfold adjust
  by_cases hzero : i = 0
  · subst hzero
    refine ⟨_, _, if_pos rfl, rfl, ?_⟩
    intro g hg
    cases g <;> first | rfl | exact absurd rfl hg
  · rw [if_neg hzero]
    by_cases hband : i < 1 + 10
    · have hrow : i = 1 + (i - 1) := by omega
      have hpanel := panel_band ⟨i - 1, by omega⟩
      have hchange := band_changes s dir ⟨i - 1, by omega⟩
      simp only [← hrow] at hpanel hchange
      exact ⟨_, _, if_pos hband, hpanel, hchange⟩
    · rw [if_neg hband]
      obtain ⟨s', f, hs', hf, hchange⟩ := tail_changes s dir ⟨i - (1 + 10), by omega⟩
      have hrow : 11 + (i - (1 + 10)) = i := by omega
      rw [hrow] at hf
      exact ⟨s', f, hs', hf, hchange⟩

/-! ### The cursor -/

inductive CursorKey where
  | up
  | down

def App.press (a : App) : CursorKey → App
  | .up => a.moveUp
  | .down => a.moveDown

theorem press_view (a : App) (key : CursorKey) (hv : a.view = .dsp) :
    (a.press key).view = .dsp := by
  cases key with
  | up => simp only [App.press, App.moveUp, hv]
  | down =>
    simp only [App.press, App.moveDown, hv]
    split
    · rfl
    · exact hv

theorem press_up_row (a : App) (hv : a.view = .dsp) : (a.press .up).dspRow = a.dspRow - 1 := by
  simp only [App.press, App.moveUp, hv]

theorem press_down_row (a : App) (hv : a.view = .dsp) :
    (a.press .down).dspRow = if a.dspRow + 1 < rowCount then a.dspRow + 1 else a.dspRow := by
  simp only [App.press, App.moveDown, hv]
  split
  · rfl
  · rfl

theorem presses_row (keys : List CursorKey) (a : App) (hv : a.view = .dsp)
    (h : a.dspRow < rowCount) : (keys.foldl App.press a).dspRow < rowCount := by
  induction keys generalizing a with
  | nil => exact h
  | cons key keys ih =>
    refine ih (a.press key) (press_view a key hv) ?_
    cases key with
    | up =>
      rw [press_up_row a hv]
      omega
    | down =>
      rw [press_down_row a hv]
      split
      · assumption
      · exact h

theorem downs_row (n : ℕ) (a : App) (hv : a.view = .dsp) (h : a.dspRow + n < rowCount) :
    ((List.replicate n CursorKey.down).foldl App.press a).dspRow = a.dspRow + n := by
  induction n generalizing a with
  | zero => rfl
  | succ n ih =>
    have hdown : (a.press .down).dspRow = a.dspRow + 1 := by
      rw [press_down_row a hv, if_pos (by omega)]
    rw [List.replicate_succ, List.foldl_cons, ih _ (press_view a .down hv) (by omega)]
    omega

/-- The rows that the cursor reaches on the panel, where it starts at the first one. -/
def CursorReaches (a : App) (i : ℕ) : Prop :=
  ∃ keys : List CursorKey, (keys.foldl App.press { a with view := .dsp, dspRow := 0 }).dspRow = i

theorem cursorReaches_iff (a : App) (i : ℕ) : CursorReaches a i ↔ i < rowCount := by
  constructor
  · rintro ⟨keys, rfl⟩
    exact presses_row keys _ rfl (show 0 < rowCount by decide)
  · intro h
    refine ⟨List.replicate i .down, ?_⟩
    rw [downs_row i _ rfl (by dsimp only; omega)]
    exact Nat.zero_add i

/-! ### Rows and controls -/

/-- `adjust` changes the setting that row `i` shows, and no other row. -/
def Corresponds (single : Rounding) (freqs : Fin 10 → ℤ) (s : AudioSettings) (i : ℕ) (dir : ℤ) :
    Prop :=
  ∃ s' f, adjust s i dir = some s' ∧ panel[i]? = some f ∧ ChangesOnly f s s' ∧
    ∀ j, j ≠ i → (rows single freqs s')[j]? = (rows single freqs s)[j]?

theorem corresponds_iff (single : Rounding) (freqs : Fin 10 → ℤ) (s : AudioSettings) (i : ℕ)
    (dir : ℤ) : Corresponds single freqs s i dir ↔ i < 23 := by
  constructor
  · rintro ⟨s', f, hs', -⟩
    have hsome := adjust_isSome s i dir
    rw [hs'] at hsome
    exact of_decide_eq_true hsome.symm
  · intro hi
    obtain ⟨s', f, hs', hf, hchange⟩ := adjust_changes s dir hi
    exact ⟨s', f, hs', hf, hchange, other_rows single freqs hf hchange⟩

/-- `row_count` counts one row more than there are, and the cursor reaches it. -/
theorem panel_rows (single : Rounding) (freqs : Fin 10 → ℤ) (a : App) (s : AudioSettings) :
    (∀ i, CursorReaches a i ↔ i < rowCount) ∧
      (rows single freqs s).length ≠ rowCount ∧
      ∀ (i : Fin rowCount) (dir : ℤ), Corresponds single freqs s i.val dir ↔ i.val ≠ 23 := by
  refine ⟨cursorReaches_iff a, ?_, ?_⟩
  · rw [rows_length]
    decide
  · intro i dir
    have hi : i.val < 24 := i.isLt
    rw [corresponds_iff]
    omega

theorem last_row_missing :
    (rows .exactly (fun i => EQ_BANDS_HZ.getD i.val 0) AudioSettings.default).length ≠ rowCount ∧
      ¬ Corresponds .exactly (fun i => EQ_BANDS_HZ.getD i.val 0) AudioSettings.default 23 1 := by
  rw [rows_length, corresponds_iff]
  decide

end Atradio.Cli
