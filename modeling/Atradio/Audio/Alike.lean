import Mathlib.Tactic.FinCases
import Mathlib.Tactic.IntervalCases
import Atradio.Audio.Settings

/-! # A synced record on three clients

The record says by itself what the engine is to be handed. The CLI hands just that; the other two
do under conditions. -/

namespace Atradio.Audio
open Atradio.Lib

/-- The band gain of the record; bands without an entry are flat. -/
def AudioSettingsRecord.gain (r : AudioSettingsRecord) (i : ℕ) : ℚ :=
  ((r.eqGains.bind fun gains => gains[i]?).map Subtype.val).getD 0

/-- What a record says. -/
def Params.of (r : AudioSettingsRecord) : Params where
  eqEnabled := r.eqEnabled.getD false
  gain := fun i => r.gain i
  bass := coalesce r.bass 0
  treble := coalesce r.treble 0
  crossfeedMode := crossfeedToStr (strToCrossfeed (r.crossfeedMode.getD "off"))
  directGain := coalesce r.crossfeedDirect (-15)
  pbe := coalesce r.pbe 0
  pbePrecut := -(coalesce r.pbePrecut 0 * 10)
  surroundDelay := coalesce r.surroundDelay 0
  surroundBalance := coalesce r.surroundBalance 35
  compThreshold := coalesce r.compThreshold 0
  compRatio := compRatioIndex (coalesce r.compRatio 2)
  channelMode := channelToStr (strToChannel (r.channelMode.getD "stereo"))
  stereoWidth := coalesce r.stereoWidth 100

theorem coalesce_mem {lo hi : ℤ} (field : Option (Ranged lo hi)) {default : ℤ} (hlo : lo ≤ default)
    (hhi : default ≤ hi) : lo ≤ coalesce field default ∧ coalesce field default ≤ hi := by
  cases field with
  | none => exact ⟨hlo, hhi⟩
  | some v => exact v.property

/-! ### Bands -/

theorem setEqBandsFrom_eq (gains : List ℚ) (i : ℕ) (p : Params) : setEqBandsFrom i p gains =
    { p with gain := fun j =>
        if i ≤ j then gains[j.val - i]?.getD (p.gain j) else p.gain j } := by
  induction gains generalizing i p with
  | nil => simp [setEqBandsFrom]
  | cons gain gains ih =>
    rw [setEqBandsFrom, ih]
    refine Params.ext rfl (funext fun j => ?_) rfl rfl rfl rfl rfl rfl rfl rfl rfl rfl rfl rfl
    simp only [Params.setEqBand]
    rcases Nat.lt_trichotomy i j with hlt | heq | hgt
    · have hsub : j.val - i = (j.val - (i + 1)) + 1 := by omega
      rw [if_pos (by omega), if_pos hlt.le, if_neg (by omega), hsub, List.getElem?_cons_succ]
    · rw [if_neg (by omega), if_pos heq.symm, if_pos heq.le, heq, Nat.sub_self]
      rfl
    · rw [if_neg (by omega), if_neg (by omega), if_neg (by omega)]

theorem setEqBands_eq (gains : List ℚ) (p : Params) : p.setEqBands gains =
    { p with gain := fun j => gains[j.val]?.getD (p.gain j) } := by
  rw [Params.setEqBands, setEqBandsFrom_eq]
  simp

/-- The ten bands of the defaults. -/
theorem flat_getElem? {α : Type} [Zero α] {i : ℕ} (h : i < 10) :
    ([0, 0, 0, 0, 0, 0, 0, 0, 0, 0] : List α)[i]? = some 0 := by
  rw [show ([0, 0, 0, 0, 0, 0, 0, 0, 0, 0] : List α) = List.replicate 10 0 from rfl,
    List.getElem?_replicate, if_pos h]

theorem gain_of_entries (r : AudioSettingsRecord) {gains : List (Ranged (-24) 24)}
    (h : r.eqGains = some gains) (i : ℕ) : r.gain i = (gains[i]?.map fun g => (g.val : ℚ)).getD 0 := by
  unfold AudioSettingsRecord.gain
  rw [h, Option.bind_some]
  cases gains[i]? with
  | none => simp
  | some g => rfl

theorem gain_of_none (r : AudioSettingsRecord) (h : r.eqGains = none) (i : ℕ) : r.gain i = 0 := by
  unfold AudioSettingsRecord.gain
  rw [h]
  rfl

/-! ### Units -/

section Units

variable (R : Rounding)

theorem fl_gain (g : Ranged (-24) 24) : R.fl g.val = g.val := by
  obtain ⟨n, hlo, hhi⟩ := g
  exact R.exact n (abs_le.2 ⟨by norm_num; omega, by norm_num; omega⟩)

theorem fl_default_direct : R.fl (-3 / 2 * (10 : ℤ)) = (-15 : ℤ) := by
  have h := R.exact (-15) (by norm_num)
  norm_num at h ⊢
  exact h

theorem fl_direct (c : Ranged (-60) 0) :
    |R.fl (R.fl (c.val / (10 : ℤ)) * (10 : ℤ)) - c.val| < 1 / 2 := by
  obtain ⟨n, hlo, hhi⟩ := c
  exact R.abs_fl_mul_fl_div_sub (abs_le.2 ⟨by norm_num; omega, by norm_num; omega⟩) (by norm_num)
    (by norm_num)

theorem fl_tenth_mem (c : Ranged (-60) 0) :
    -6 ≤ R.fl (c.val / (10 : ℤ)) ∧ R.fl (c.val / (10 : ℤ)) ≤ 0 := by
  obtain ⟨n, hlo, hhi⟩ := c
  have hend (m : ℤ) (hm : |m| ≤ 2 ^ 24) (hn : n = 10 * m) : R.fl ((n : ℚ) / (10 : ℤ)) = m := by
    rw [hn, Int.cast_mul, mul_div_cancel_left₀ _ (by norm_num)]
    exact R.exact m hm
  rcases eq_or_ne n 0 with h0 | h0
  · rw [hend 0 (by norm_num) (by omega)]
    norm_num
  rcases eq_or_ne n (-60) with h6 | h6
  · rw [hend (-6) (by norm_num) (by omega)]
    norm_num
  have h1 : (-59 : ℚ) ≤ n := by exact_mod_cast (show -59 ≤ n by omega)
  have h2 : (n : ℚ) ≤ -1 := by exact_mod_cast (show n ≤ -1 by omega)
  have habs : |(n : ℚ) / (10 : ℤ)| = -(n : ℚ) / 10 := by
    rw [abs_of_nonpos (by push_cast; linarith)]
    push_cast
    ring
  have hclose := R.close ((n : ℚ) / (10 : ℤ)) (by rw [habs]; linarith) (by rw [habs]; linarith)
  rw [habs] at hclose
  push_cast at hclose ⊢
  obtain ⟨hc1, hc2⟩ := abs_le.1 hclose
  constructor
  · linarith
  · linarith

end Units

/-! ### Modes -/

def crossfeedModes : List String := ["off", "meier", "custom"]

def channelModes : List String :=
  ["stereo", "mono", "custom", "mono-left", "mono-right", "karaoke", "swap"]

theorem crossfeed_eq_iff (s : String) :
    crossfeedToStr (strToCrossfeed s) = s ↔ s ∈ crossfeedModes := by
  unfold strToCrossfeed crossfeedModes
  constructor
  · intro h
    split_ifs at h <;> simp [crossfeedToStr] at h <;> simp [← h]
  · intro h
    fin_cases h <;> rfl

theorem channel_eq_iff (s : String) : channelToStr (strToChannel s) = s ↔ s ∈ channelModes := by
  unfold strToChannel channelModes
  constructor
  · intro h
    split_ifs at h <;> simp [channelToStr] at h <;> simp [← h]
  · intro h
    fin_cases h <;> rfl

theorem dspChannel_of_mem {s : String} (h : s ∈ channelModes) : dspChannel s = strToChannel s := by
  unfold channelModes at h
  fin_cases h <;> rfl

structure AudioSettingsRecord.Known (r : AudioSettingsRecord) : Prop where
  crossfeed : ∀ mode, r.crossfeedMode = some mode → mode ∈ crossfeedModes
  channel : ∀ mode, r.channelMode = some mode → mode ∈ channelModes

/-! ### The three clients -/

section Clients

variable (single double : Rounding) (r : AudioSettingsRecord) (p : Params)

theorem cliApply_eq : cliApply single r p = Params.of r := by
  have hgain (j : Fin 10) : (audioFromRecord single r).eqGains j = r.gain j := by
    simp only [audioFromRecord]
    cases hg : r.eqGains with
    | none => exact (gain_of_none r hg j).symm
    | some gains =>
      rw [gain_of_entries r hg, Option.elim_some]
      cases gains[j.val]? with
      | none => rfl
      | some g => exact fl_gain single g
  have hdirect : roundHalfAway (single.fl ((audioFromRecord single r).crossfeedDirect * (10 : ℤ))) =
      coalesce r.crossfeedDirect (-15) := by
    simp only [audioFromRecord]
    cases r.crossfeedDirect with
    | none =>
      simp only [Option.elim_none, AudioSettings.default, fl_default_direct]
      exact roundHalfAway_intCast _
    | some direct => exact roundHalfAway_eq (fl_direct single direct)
  have hcrossfeed : crossfeedToStr (audioFromRecord single r).crossfeedMode =
      (Params.of r).crossfeedMode := by
    simp only [audioFromRecord, Params.of]
    cases r.crossfeedMode with
    | none => rfl
    | some mode => rfl
  have hchannel : channelToStr (audioFromRecord single r).channelMode =
      (Params.of r).channelMode := by
    simp only [audioFromRecord, Params.of]
    cases r.channelMode with
    | none => rfl
    | some mode => rfl
  have hgains (j : Fin 10) : (cliApply single r p).gain j = r.gain j := by
    simp only [cliApply, AudioSettings.apply, setEqBands_eq]
    rw [List.getElem?_ofFn, dif_pos j.isLt, Option.getD_some]
    exact hgain j
  exact Params.ext rfl (funext hgains) rfl rfl hcrossfeed hdirect rfl rfl rfl rfl rfl rfl hchannel
    rfl

/-- The web player leaves bands without an entry as they are, and passes the modes on. -/
theorem webApply_eq_iff : webApply double r p = Params.of r ↔
    (∀ gains, r.eqGains = some gains → ∀ j : Fin 10, gains.length ≤ j → p.gain j = 0) ∧ r.Known := by
  have hgain (j : Fin 10) : (webApply double r p).gain j =
      (r.eqGains.elim [0, 0, 0, 0, 0, 0, 0, 0, 0, 0] fun gains =>
        gains.map fun g => (g.val : ℚ))[j.val]?.getD (p.gain j) := by
    simp only [webApply, applyAudioSettings, setEqBands_eq, audioSettingsRecordToData]
    cases r.eqGains with
    | none => rfl
    | some gains => simp only [Option.elim_some, List.map_map, Function.comp_def]
  have hnone (h : r.eqGains = none) (j : Fin 10) : (webApply double r p).gain j = r.gain j := by
    rw [hgain, h, gain_of_none r h, Option.elim_none, flat_getElem? j.isLt]
    rfl
  have hsome {gains : List (Ranged (-24) 24)} (h : r.eqGains = some gains) (j : Fin 10) :
      (webApply double r p).gain j = r.gain j ↔ (gains.length ≤ j → p.gain j = 0) := by
    rw [hgain, h, gain_of_entries r h, Option.elim_some, List.getElem?_map]
    rcases Nat.lt_or_ge j gains.length with hlt | hge
    · simp [hlt]
    · simp [hge]
  have hdirect : mathRound (double.fl
      ((audioSettingsRecordToData double r).crossfeedDirect * (10 : ℤ))) =
      coalesce r.crossfeedDirect (-15) := by
    simp only [audioSettingsRecordToData]
    cases r.crossfeedDirect with
    | none =>
      simp only [Option.elim_none, DEFAULT_AUDIO_SETTINGS, fl_default_direct]
      exact mathRound_intCast _
    | some direct => exact mathRound_eq (fl_direct double direct)
  have hcrossfeed : (webApply double r p).crossfeedMode = (Params.of r).crossfeedMode ↔
      ∀ mode, r.crossfeedMode = some mode → mode ∈ crossfeedModes := by
    show r.crossfeedMode.getD "off" = crossfeedToStr (strToCrossfeed (r.crossfeedMode.getD "off")) ↔ _
    rw [eq_comm, crossfeed_eq_iff]
    cases r.crossfeedMode with
    | none => simp [crossfeedModes]
    | some mode => simp
  have hchannel : (webApply double r p).channelMode = (Params.of r).channelMode ↔
      ∀ mode, r.channelMode = some mode → mode ∈ channelModes := by
    show r.channelMode.getD "stereo" = channelToStr (strToChannel (r.channelMode.getD "stereo")) ↔ _
    rw [eq_comm, channel_eq_iff]
    cases r.channelMode with
    | none => simp [channelModes]
    | some mode => simp
  constructor
  · intro h
    refine ⟨fun gains hg j => (hsome hg j).1 ?_, hcrossfeed.1 (by rw [h]), hchannel.1 (by rw [h])⟩
    rw [h]
    rfl
  · rintro ⟨hflat, hknown⟩
    have hgains : (webApply double r p).gain = (Params.of r).gain := by
      funext j
      cases hg : r.eqGains with
      | none => exact hnone hg j
      | some gains => exact (hsome hg j).2 (hflat gains hg j)
    have hprecut : (webApply double r p).pbePrecut = (Params.of r).pbePrecut :=
      congrArg Neg.neg (mathRound_intCast _)
    have henabled : (webApply double r p).eqEnabled = (Params.of r).eqEnabled := by
      simp only [webApply, applyAudioSettings, setEqBands_eq]
      rfl
    exact Params.ext henabled hgains rfl rfl (hcrossfeed.2 hknown.crossfeed) hdirect rfl hprecut rfl rfl
      rfl rfl (hchannel.2 hknown.channel) rfl

theorem entry_eq_gain (i : ℕ) :
    (-24 ≤ (audioSettingsRecordToData double r).eqGains[i]?.getD 0 ∧
      (audioSettingsRecordToData double r).eqGains[i]?.getD 0 ≤ 24) ∧
    (((audioSettingsRecordToData double r).eqGains[i]?.getD 0 : ℤ) : ℚ) = r.gain i := by
  simp only [audioSettingsRecordToData]
  cases hg : r.eqGains with
  | none =>
    have hzero : DEFAULT_AUDIO_SETTINGS.eqGains[i]?.getD 0 = 0 := by
      rw [DEFAULT_AUDIO_SETTINGS]
      rcases Nat.lt_or_ge i 10 with hlt | hge
      · rw [flat_getElem? hlt]
        rfl
      · rw [List.getElem?_eq_none hge]
        rfl
    rw [gain_of_none r hg, Option.elim_none, hzero]
    exact ⟨⟨by norm_num, by norm_num⟩, rfl⟩
  | some gains =>
    rw [gain_of_entries r hg, Option.elim_some, List.getElem?_map]
    cases gains[i]? with
    | none => exact ⟨⟨by norm_num, by norm_num⟩, rfl⟩
    | some g => exact ⟨g.property, rfl⟩

theorem fl_number_gain {x : ℤ} (hx : -24 ≤ x ∧ x ≤ 24) :
    single.fl (number (some (mathRound (max (-24) (min 24 x) * 10 : ℤ))) (-240) 240 / (10 : ℤ)) =
      x := by
  obtain ⟨hlo, hhi⟩ := hx
  rw [mathRound_intCast, min_eq_right hhi, max_eq_right hlo]
  have hnumber : number (some (x * 10)) (-240) 240 = x * 10 := by
    rw [number, Option.getD_some, min_eq_right (by omega), max_eq_right (by omega)]
  rw [hnumber, Int.cast_mul, mul_div_cancel_right₀ _ (by norm_num)]
  exact single.exact x (abs_le.2 ⟨by norm_num; omega, by norm_num; omega⟩)

theorem number_of_mem {n lo hi : ℤ} (h : lo ≤ n ∧ n ≤ hi) : number (some n) lo hi = n := by
  rw [number, Option.getD_some, min_eq_right h.2, max_eq_right h.1]

/-- The section `tone` of the document and what the engine was handed before play no part. -/
theorem mobileApply_eq (document : Document) (hknown : r.Known) :
    mobileApply single double r document p = Params.of r := by
  have hgains (j : Fin 10) : (mobileApply single double r document p).gain j = r.gain j := by
    have hband : EQ_BANDS_HZ[j.val]? = some EQ_BANDS_HZ[j.val] := List.getElem?_eq_getElem j.isLt
    obtain ⟨hmem, hentry⟩ := entry_eq_gain double r j
    simp only [mobileApply, Document.apply, Document.setTone, Document.setEqualizer, Document.merge,
      fromRepoEqualizer, setEqBands_eq]
    rw [List.getElem?_map, List.getElem?_take_of_lt j.isLt, List.getElem?_mapIdx, hband, ← hentry]
    exact fl_number_gain single hmem
  have hdirect : roundHalfAway (double.fl (max (-6) (min 0
      (audioSettingsRecordToData double r).crossfeedDirect) * (10 : ℤ))) =
      coalesce r.crossfeedDirect (-15) := by
    simp only [audioSettingsRecordToData]
    cases r.crossfeedDirect with
    | none =>
      have hclamp : max (-6) (min 0 (-3 / 2 : ℚ)) = -3 / 2 := by norm_num
      simp only [Option.elim_none, DEFAULT_AUDIO_SETTINGS, hclamp, fl_default_direct]
      exact roundHalfAway_intCast _
    | some direct =>
      obtain ⟨hlo, hhi⟩ := fl_tenth_mem double direct
      simp only [Option.elim_some, min_eq_right hhi, max_eq_right hlo]
      exact roundHalfAway_eq (fl_direct double direct)
  have hcrossfeed : crossfeedToStr (strToCrossfeed (r.crossfeedMode.getD "off")) =
      (Params.of r).crossfeedMode := rfl
  have hchannel : channelToStr (dspChannel (r.channelMode.getD "stereo")) =
      (Params.of r).channelMode := by
    have hmem : r.channelMode.getD "stereo" ∈ channelModes := by
      cases hm : r.channelMode with
      | none => simp [channelModes]
      | some mode => exact hknown.channel mode hm
    rw [dspChannel_of_mem hmem]
    rfl
  have hclamp {n lo hi : ℤ} (h : lo ≤ n ∧ n ≤ hi) : max lo (min hi n) = n := number_of_mem h
  have hprecut : -number (some (coalesce r.pbePrecut 0)) 0 24 * 10 =
      -(coalesce r.pbePrecut 0 * 10) := by
    rw [number_of_mem (coalesce_mem r.pbePrecut (by decide) (by decide)), neg_mul]
  exact Params.ext rfl (funext hgains)
    (number_of_mem (coalesce_mem r.bass (by decide) (by decide)))
    (number_of_mem (coalesce_mem r.treble (by decide) (by decide)))
    hcrossfeed hdirect
    (number_of_mem (coalesce_mem r.pbe (by decide) (by decide)))
    hprecut
    (number_of_mem (coalesce_mem r.surroundDelay (by decide) (by decide)))
    (hclamp (coalesce_mem r.surroundBalance (by decide) (by decide)))
    (number_of_mem (coalesce_mem r.compThreshold (by decide) (by decide)))
    rfl hchannel
    (hclamp (coalesce_mem r.stereoWidth (by decide) (by decide)))

end Clients

/-- The three clients hand their engines the same, each after settings of its own. -/
def AppliedAlike (single double : Rounding) (r : AudioSettingsRecord) (web cli mobile : Params)
    (document : Document) : Prop :=
  webApply double r web = cliApply single r cli ∧
    mobileApply single double r document mobile = cliApply single r cli

/-- They do when the web player has no gain left in a band that the record leaves out, and the
modes are known. -/
theorem appliedAlike_iff (single double : Rounding) (r : AudioSettingsRecord)
    (web cli mobile : Params) (document : Document) :
    AppliedAlike single double r web cli mobile document ↔
      (∀ gains, r.eqGains = some gains → ∀ j : Fin 10, gains.length ≤ j → web.gain j = 0) ∧
        r.Known := by
  unfold AppliedAlike
  rw [cliApply_eq, webApply_eq_iff]
  exact and_iff_left_of_imp fun h => mobileApply_eq single double r mobile document h.2

def oneGain : AudioSettingsRecord where
  eqEnabled := some true
  eqGains := some [⟨3, by decide⟩]
  bass := none
  treble := none
  crossfeedMode := none
  crossfeedDirect := none
  pbe := none
  pbePrecut := none
  surroundDelay := none
  surroundBalance := none
  compThreshold := none
  compRatio := none
  channelMode := none
  stereoWidth := none

def boosted : Params :=
  { Params.of oneGain with gain := fun j => if j.val < 2 then 6 else 0 }

def emptyDocument : Document where
  equalizer := { dsp := none, enabled := false, bands := [] }
  tone := { bass := some 0, treble := some 0, channels := some "stereo", stereoWidth := some 100 }

/-- The second band of the web player stays boosted. -/
theorem second_band_kept :
    ¬ AppliedAlike .exactly .exactly oneGain boosted boosted boosted emptyDocument := by
  rintro ⟨h, -⟩
  rw [cliApply_eq] at h
  have hgain : (6 : ℚ) = 0 := congrFun (congrArg Params.gain h) 1
  norm_num at hgain

end Atradio.Audio
