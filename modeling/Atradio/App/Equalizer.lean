import Atradio.Audio.Formats
import Atradio.Lexicons.Mappers

/-! # The equalizer of the mobile app (`playback/equalizer.ts`)

What the screens hand over: a part of the DSP settings, bands that may be missing or not finite,
and the precut and the balance of the device. -/

namespace Atradio.App.Equalizer
open Atradio.Audio Atradio.Lib
open Atradio.Lexicons (JsNumber)

structure EqBand where
  frequency : JsNumber
  q : JsNumber
  gain : JsNumber

/-- `Partial<DspSettings>`; a key that is absent is none. -/
structure PartialDsp where
  bass : Option ℤ
  treble : Option ℤ
  crossfeedMode : Option String
  crossfeedDirect : Option ℚ
  pbe : Option ℤ
  pbePrecut : Option ℤ
  surroundDelay : Option ℤ
  surroundBalance : Option ℤ
  compThreshold : Option ℤ
  compRatio : Option ℤ
  channelMode : Option String
  stereoWidth : Option ℤ

/-- `enabled` is none where it is not a boolean. -/
structure EqSettings where
  dsp : Option PartialDsp
  balance : Option JsNumber
  enabled : Option Bool
  precut : JsNumber
  bands : Option (List EqBand)

def bandOf (double : Rounding) (data : AudioSettingsData) (i : ℕ) (frequency : ℤ) : EqBand where
  frequency := .finite frequency
  q := .finite 10
  gain := .finite (mathRound (double.fl
    (max (-24) (min 24 (data.eqGains[i]?.elim 0 fun gain : ℤ => (gain : ℚ))) * 10)) : ℤ)

def fromRepoEqualizer (double : Rounding) (data : AudioSettingsData) (precut balance : JsNumber) :
    EqSettings where
  dsp := some {
    bass := some data.bass
    treble := some data.treble
    crossfeedMode := some data.crossfeedMode
    crossfeedDirect := some data.crossfeedDirect
    pbe := some data.pbe
    pbePrecut := some data.pbePrecut
    surroundDelay := some data.surroundDelay
    surroundBalance := some data.surroundBalance
    compThreshold := some data.compThreshold
    compRatio := some data.compRatio
    channelMode := some data.channelMode
    stereoWidth := some data.stereoWidth }
  balance := some balance
  enabled := some data.eqEnabled
  precut := precut
  bands := some (EQ_BANDS_HZ.mapIdx (bandOf double data))

/-- `{...data, ...dsp}` -/
def spreadDsp (data : AudioSettingsData) (dsp : PartialDsp) : AudioSettingsData :=
  { data with
    bass := dsp.bass.getD data.bass
    treble := dsp.treble.getD data.treble
    crossfeedMode := dsp.crossfeedMode.getD data.crossfeedMode
    crossfeedDirect := dsp.crossfeedDirect.getD data.crossfeedDirect
    pbe := dsp.pbe.getD data.pbe
    pbePrecut := dsp.pbePrecut.getD data.pbePrecut
    surroundDelay := dsp.surroundDelay.getD data.surroundDelay
    surroundBalance := dsp.surroundBalance.getD data.surroundBalance
    compThreshold := dsp.compThreshold.getD data.compThreshold
    compRatio := dsp.compRatio.getD data.compRatio
    channelMode := dsp.channelMode.getD data.channelMode
    stereoWidth := dsp.stereoWidth.getD data.stereoWidth }

def gainOfTenths (double : Rounding) (gain : ℚ) : ℤ :=
  mathRound (double.fl (max (-240) (min 240 gain) / 10))

/-- The gain of a band, unless it stands at another frequency; a gain that is not finite does not
get here. -/
def gainAt (double : Rounding) (b : EqBand) (frequency : ℤ) : Except String ℤ :=
  if b.frequency ≠ .finite frequency then .error "Invalid equalizer band order."
  else
    match b.gain with
    | .finite gain => .ok (gainOfTenths double gain)
    | .nonFinite => .error "Invalid equalizer settings."

def gainsAt (double : Rounding) : List EqBand → List ℤ → Except String (List ℤ)
  | b :: bands, frequency :: frequencies =>
    match gainAt double b frequency with
    | .error message => .error message
    | .ok gain => (gainsAt double bands frequencies).map (gain :: ·)
  | _, _ => .ok []

def EqBand.isFinite (b : EqBand) : Bool := b.gain ≠ .nonFinite

/-- Errors are the messages they are thrown with. -/
def mergeRepoEqualizer (double : Rounding) (existing : Option AudioSettingsData)
    (eq : EqSettings) : Except String AudioSettingsData :=
  match eq.enabled, eq.bands with
  | some enabled, some bands =>
    if bands.length ≠ 10 ∨ bands.any (fun b => !b.isFinite) then
      .error "Invalid equalizer settings."
    else
      let data := existing.getD DEFAULT_AUDIO_SETTINGS
      (gainsAt double bands EQ_BANDS_HZ).map fun eqGains =>
        { eq.dsp.elim data (spreadDsp data) with eqEnabled := enabled, eqGains }
  | _, _ => .error "Invalid equalizer settings."

/-! ### Bands -/

/-- Ten finite gains at the ten frequencies, in their order. -/
def ValidBands (bands : Option (List EqBand)) : Prop :=
  ∃ bs ∈ bands, bs.map EqBand.frequency = EQ_BANDS_HZ.map (fun hz : ℤ => JsNumber.finite hz) ∧
    ∀ b ∈ bs, b.isFinite = true

def EqBand.tenths (b : EqBand) : ℚ :=
  match b.gain with
  | .finite gain => gain
  | .nonFinite => 0

section Bands

variable (double : Rounding)

theorem gainAt_ok {b : EqBand} {hz : ℤ} (hfreq : b.frequency = .finite hz)
    (hfin : b.isFinite = true) : gainAt double b hz = .ok (gainOfTenths double b.tenths) := by
  unfold gainAt EqBand.tenths
  rw [if_neg (not_not.2 hfreq)]
  cases hgain : b.gain with
  | finite gain => rfl
  | nonFinite => simp [EqBand.isFinite, hgain] at hfin

theorem gainsAt_ok {bs : List EqBand} {hzs : List ℤ}
    (hfreq : bs.map EqBand.frequency = hzs.map fun hz : ℤ => JsNumber.finite hz)
    (hfin : ∀ b ∈ bs, b.isFinite = true) :
    gainsAt double bs hzs = .ok (bs.map fun b => gainOfTenths double b.tenths) := by
  induction bs generalizing hzs with
  | nil => cases hzs <;> rfl
  | cons b bs ih =>
    cases hzs with
    | nil => cases hfreq
    | cons hz hzs =>
      rw [List.map_cons, List.map_cons, List.cons.injEq] at hfreq
      rw [gainsAt, gainAt_ok double hfreq.1 (hfin b (List.mem_cons_self ..)),
        ih hfreq.2 fun c hc => hfin c (List.mem_cons_of_mem b hc)]
      rfl

theorem gainsAt_error {bs : List EqBand} {hzs : List ℤ} (hlen : bs.length = hzs.length)
    (hfin : ∀ b ∈ bs, b.isFinite = true)
    (hfreq : bs.map EqBand.frequency ≠ hzs.map fun hz : ℤ => JsNumber.finite hz) :
    gainsAt double bs hzs = .error "Invalid equalizer band order." := by
  induction bs generalizing hzs with
  | nil =>
    cases hzs with
    | nil => exact absurd rfl hfreq
    | cons hz hzs => cases hlen
  | cons b bs ih =>
    cases hzs with
    | nil => cases hlen
    | cons hz hzs =>
      rw [gainsAt]
      by_cases hb : b.frequency = .finite hz
      · have hrest : bs.map EqBand.frequency ≠ hzs.map fun hz : ℤ => JsNumber.finite hz := by
          intro heq
          exact hfreq (by rw [List.map_cons, List.map_cons, hb, heq])
        rw [gainAt_ok double hb (hfin b (List.mem_cons_self ..)),
          ih (Nat.succ.inj hlen) (fun c hc => hfin c (List.mem_cons_of_mem b hc)) hrest]
        rfl
      · rw [gainAt, if_pos hb]

/-! ### The merge -/

/-- What the equalizer supplies, over what exists. -/
def merged (existing : Option AudioSettingsData) (dsp : Option PartialDsp) (enabled : Bool)
    (bs : List EqBand) : AudioSettingsData :=
  { dsp.elim (existing.getD DEFAULT_AUDIO_SETTINGS)
      (spreadDsp (existing.getD DEFAULT_AUDIO_SETTINGS)) with
    eqEnabled := enabled
    eqGains := bs.map fun b => gainOfTenths double b.tenths }

theorem merge_of_valid {existing : Option AudioSettingsData} {eq : EqSettings} {enabled : Bool}
    {bs : List EqBand} (henabled : eq.enabled = some enabled) (hbands : eq.bands = some bs)
    (hfreq : bs.map EqBand.frequency = EQ_BANDS_HZ.map fun hz : ℤ => JsNumber.finite hz)
    (hfin : ∀ b ∈ bs, b.isFinite = true) :
    mergeRepoEqualizer double existing eq = .ok (merged double existing eq.dsp enabled bs) := by
  have hlen : bs.length = 10 := by
    have h := congrArg List.length hfreq
    rwa [List.length_map, List.length_map] at h
  have hany : bs.any (fun b => !b.isFinite) = false := by
    rw [List.any_eq_false]
    intro b hb
    simp [hfin b hb]
  unfold mergeRepoEqualizer
  rw [henabled, hbands]
  dsimp only
  rw [if_neg (by simp [hlen, hany]), gainsAt_ok double hfreq hfin]
  rfl

theorem merge_of_invalid (existing : Option AudioSettingsData) {eq : EqSettings}
    (h : ¬ ValidBands eq.bands) : ∃ message, mergeRepoEqualizer double existing eq = .error message := by
  unfold mergeRepoEqualizer
  cases henabled : eq.enabled with
  | none => exact ⟨_, rfl⟩
  | some enabled =>
    cases hbands : eq.bands with
    | none => exact ⟨_, rfl⟩
    | some bs =>
      dsimp only
      by_cases hbad : bs.length ≠ 10 ∨ bs.any (fun b => !b.isFinite) = true
      · rw [if_pos hbad]
        exact ⟨_, rfl⟩
      · rw [if_neg hbad]
        rw [not_or, not_not, Bool.not_eq_true, List.any_eq_false] at hbad
        have hfin : ∀ b ∈ bs, b.isFinite = true := fun b hb => by simpa using hbad.2 b hb
        have hfreq : bs.map EqBand.frequency ≠ EQ_BANDS_HZ.map fun hz : ℤ => JsNumber.finite hz :=
          fun heq => h ⟨bs, hbands, heq, hfin⟩
        rw [gainsAt_error double hbad.1 hfin hfreq]
        exact ⟨_, rfl⟩

end Bands

/-! ### Fields -/

inductive DspKey where
  | bass
  | treble
  | crossfeedMode
  | crossfeedDirect
  | pbe
  | pbePrecut
  | surroundDelay
  | surroundBalance
  | compThreshold
  | compRatio
  | channelMode
  | stereoWidth

inductive DspValue where
  | whole (n : ℤ)
  | real (x : ℚ)
  | mode (s : String)

def DspKey.get (d : AudioSettingsData) : DspKey → DspValue
  | .bass => .whole d.bass
  | .treble => .whole d.treble
  | .crossfeedMode => .mode d.crossfeedMode
  | .crossfeedDirect => .real d.crossfeedDirect
  | .pbe => .whole d.pbe
  | .pbePrecut => .whole d.pbePrecut
  | .surroundDelay => .whole d.surroundDelay
  | .surroundBalance => .whole d.surroundBalance
  | .compThreshold => .whole d.compThreshold
  | .compRatio => .whole d.compRatio
  | .channelMode => .mode d.channelMode
  | .stereoWidth => .whole d.stereoWidth

def DspKey.supplied (dsp : PartialDsp) : DspKey → Option DspValue
  | .bass => dsp.bass.map .whole
  | .treble => dsp.treble.map .whole
  | .crossfeedMode => dsp.crossfeedMode.map .mode
  | .crossfeedDirect => dsp.crossfeedDirect.map .real
  | .pbe => dsp.pbe.map .whole
  | .pbePrecut => dsp.pbePrecut.map .whole
  | .surroundDelay => dsp.surroundDelay.map .whole
  | .surroundBalance => dsp.surroundBalance.map .whole
  | .compThreshold => dsp.compThreshold.map .whole
  | .compRatio => dsp.compRatio.map .whole
  | .channelMode => dsp.channelMode.map .mode
  | .stereoWidth => dsp.stereoWidth.map .whole

theorem get_spreadDsp (data : AudioSettingsData) (dsp : PartialDsp) (k : DspKey) :
    k.get (spreadDsp data dsp) = (k.supplied dsp).getD (k.get data) := by
  cases k <;> simp only [DspKey.get, DspKey.supplied, spreadDsp, Option.getD_map]

/-! ### Round trip -/

section RoundTrip

variable (double : Rounding)

theorem tenths_of_gain {n : ℤ} (hlo : -24 ≤ n) (hhi : n ≤ 24) :
    mathRound (double.fl (max (-24) (min 24 (n : ℚ)) * 10)) = n * 10 := by
  have hlo' : ((-24 : ℤ) : ℚ) ≤ n := by exact_mod_cast hlo
  have hhi' : (n : ℚ) ≤ (24 : ℤ) := by exact_mod_cast hhi
  push_cast at hlo' hhi'
  have hexact := double.exact (n * 10) (abs_le.2 ⟨by omega, by omega⟩)
  push_cast at hexact
  have hround := mathRound_intCast (n * 10)
  push_cast at hround
  rw [min_eq_right hhi', max_eq_right hlo', hexact, hround]

theorem gain_of_tenths {n : ℤ} (hlo : -24 ≤ n) (hhi : n ≤ 24) :
    gainOfTenths double ((n * 10 : ℤ) : ℚ) = n := by
  have hlo' : ((-24 : ℤ) : ℚ) ≤ n := by exact_mod_cast hlo
  have hhi' : (n : ℚ) ≤ (24 : ℤ) := by exact_mod_cast hhi
  push_cast at hlo' hhi'
  have hexact := double.exact n (abs_le.2 ⟨by omega, by omega⟩)
  unfold gainOfTenths
  push_cast
  rw [min_eq_right (by linarith), max_eq_right (by linarith), mul_div_cancel_right₀ _ (by norm_num),
    hexact, mathRound_intCast]

theorem bands_frequency (data : AudioSettingsData) :
    (EQ_BANDS_HZ.mapIdx (bandOf double data)).map EqBand.frequency =
      EQ_BANDS_HZ.map fun hz : ℤ => JsNumber.finite hz := rfl

theorem bands_finite (data : AudioSettingsData) :
    ∀ b ∈ EQ_BANDS_HZ.mapIdx (bandOf double data), b.isFinite = true := by
  intro b hb
  obtain ⟨i, hi, rfl⟩ := List.mem_mapIdx.1 hb
  rfl

theorem bands_gains {data : AudioSettingsData} (hlen : data.eqGains.length = 10)
    (hgains : ∀ gain ∈ data.eqGains, -24 ≤ gain ∧ gain ≤ 24) :
    (EQ_BANDS_HZ.mapIdx (bandOf double data)).map (fun b => gainOfTenths double b.tenths) =
      data.eqGains := by
  refine List.ext_getElem (by simp [hlen, EQ_BANDS_HZ]) ?_
  intro i hi hi'
  obtain ⟨hlo, hhi⟩ := hgains _ (List.getElem_mem hi')
  simp only [List.getElem_map, List.getElem_mapIdx, bandOf, EqBand.tenths,
    List.getElem?_eq_getElem hi', Option.elim_some, tenths_of_gain double hlo hhi]
  exact gain_of_tenths double hlo hhi

theorem merge_from {data : AudioSettingsData} (hlen : data.eqGains.length = 10)
    (hgains : ∀ gain ∈ data.eqGains, -24 ≤ gain ∧ gain ≤ 24)
    (existing : Option AudioSettingsData) (precut balance : JsNumber) :
    mergeRepoEqualizer double existing (fromRepoEqualizer double data precut balance) =
      .ok data := by
  rw [merge_of_valid double rfl rfl (bands_frequency double data) (bands_finite double data),
    merged, bands_gains double hlen hgains]
  rfl

end RoundTrip

/-! ### Whole equalizers

The settings of the station actions have whole gains, and all of `dsp` or nothing of it. -/

def wholeBand (b : Audio.Band) : EqBand where
  frequency := .finite b.frequency
  q := .finite b.q
  gain := .finite b.gain

def wholeDsp (d : Audio.DspSettings) : PartialDsp where
  bass := some d.bass
  treble := some d.treble
  crossfeedMode := some d.crossfeedMode
  crossfeedDirect := some d.crossfeedDirect
  pbe := some d.pbe
  pbePrecut := some d.pbePrecut
  surroundDelay := some d.surroundDelay
  surroundBalance := some d.surroundBalance
  compThreshold := some d.compThreshold
  compRatio := some d.compRatio
  channelMode := some d.channelMode
  stereoWidth := some d.stereoWidth

def wholeEqualizer (eq : Audio.EqSettings) (precut : JsNumber) (balance : Option JsNumber) : EqSettings where
  dsp := eq.dsp.map wholeDsp
  balance := balance
  enabled := some eq.enabled
  precut := precut
  bands := some (eq.bands.map wholeBand)

theorem whole_frequency (bs : List Audio.Band) (hzs : List ℤ) :
    ((bs.map wholeBand).map EqBand.frequency = hzs.map fun hz : ℤ => JsNumber.finite hz) ↔
      bs.map Audio.Band.frequency = hzs := by
  have hinj : Function.Injective fun hz : ℤ => JsNumber.finite (hz : ℚ) := by
    intro m n h
    exact Int.cast_injective (JsNumber.finite.inj h)
  rw [← (List.map_injective_iff.2 hinj).eq_iff, List.map_map, List.map_map]
  rfl

theorem whole_finite (bs : List Audio.Band) : ∀ b ∈ bs.map wholeBand, b.isFinite = true := by
  intro b hb
  obtain ⟨c, -, rfl⟩ := List.mem_map.1 hb
  rfl

theorem gainOfTenths_exactly (gain : ℤ) :
    gainOfTenths .exactly gain = mathRound ((max (-240) (min 240 gain) : ℤ) / 10) := by
  unfold gainOfTenths
  push_cast
  rfl

/-- The merge of the station actions is this one, there. -/
theorem merge_whole (existing : Option AudioSettingsData) (eq : Audio.EqSettings)
    (precut : JsNumber) (balance : Option JsNumber) :
    mergeRepoEqualizer .exactly existing (wholeEqualizer eq precut balance) =
      Audio.mergeRepoEqualizer existing eq := by
  unfold Audio.mergeRepoEqualizer
  by_cases hlen : eq.bands.length = 10
  · rw [if_neg (not_not.2 hlen)]
    by_cases hfreq : eq.bands.map Audio.Band.frequency = EQ_BANDS_HZ
    · rw [if_neg (not_not.2 hfreq), merge_of_valid .exactly rfl rfl
        ((whole_frequency _ _).2 hfreq) (whole_finite _)]
      have hgains : (eq.bands.map wholeBand).map (fun b => gainOfTenths .exactly b.tenths) =
          eq.bands.map fun b => mathRound ((max (-240) (min 240 b.gain) : ℤ) / 10) := by
        rw [List.map_map]
        exact List.map_congr_left fun b _ => gainOfTenths_exactly b.gain
      rw [merged, hgains]
      unfold wholeEqualizer AudioSettingsData.withDsp
      cases eq.dsp <;> rfl
    · rw [if_pos hfreq]
      unfold mergeRepoEqualizer wholeEqualizer
      dsimp only
      rw [if_neg (by simp [hlen, wholeBand, EqBand.isFinite]),
        gainsAt_error .exactly (by simp [hlen, EQ_BANDS_HZ]) (whole_finite _)
          (mt (whole_frequency _ _).1 hfreq)]
      rfl
  · rw [if_pos hlen]
    unfold mergeRepoEqualizer wholeEqualizer
    dsimp only
    rw [if_pos (Or.inl (by rwa [List.length_map]))]

/-- Round trip, partial updates and rejection. -/
theorem equalizer_merge (double : Rounding) :
    (∀ (d : AudioSettingsData) (existing : Option AudioSettingsData) (precut balance : JsNumber),
      d.eqGains.length = 10 → (∀ gain ∈ d.eqGains, -24 ≤ gain ∧ gain ≤ 24) →
      mergeRepoEqualizer double existing (fromRepoEqualizer double d precut balance) = .ok d) ∧
    (∀ (existing : Option AudioSettingsData) (eq : EqSettings), ValidBands eq.bands →
      ∀ enabled ∈ eq.enabled, ∃ r, r.eqEnabled = enabled ∧
        (∀ k : DspKey, k.get r =
          (eq.dsp.bind k.supplied).getD (k.get (existing.getD DEFAULT_AUDIO_SETTINGS))) ∧
        ∀ precut balance,
          mergeRepoEqualizer double existing { eq with precut, balance } = .ok r) ∧
    (∀ (existing : Option AudioSettingsData) (eq : EqSettings), ¬ ValidBands eq.bands →
      ∃ message, mergeRepoEqualizer double existing eq = .error message) := by
  refine ⟨fun d existing precut balance hlen hgains =>
    merge_from double hlen hgains existing precut balance, ?_, ?_⟩
  · rintro existing eq ⟨bs, hbands, hfreq, hfin⟩ enabled henabled
    refine ⟨merged double existing eq.dsp enabled bs, rfl, ?_, ?_⟩
    · intro k
      cases hdsp : eq.dsp with
      | none => cases k <;> rfl
      | some dsp =>
        have hget := get_spreadDsp (existing.getD DEFAULT_AUDIO_SETTINGS) dsp k
        rw [Option.bind_some, ← hget]
        cases k <;> rfl
    · intro precut balance
      exact merge_of_valid double henabled hbands hfreq hfin
  · exact fun existing eq h => merge_of_invalid double existing h

def steep : AudioSettingsData :=
  { DEFAULT_AUDIO_SETTINGS with
    eqGains := [-24, -12, -3, 0, 1, 3, 6, 9, 12, 24], crossfeedDirect := -5 / 2 }

theorem steep_merged :
    mergeRepoEqualizer .exactly none (fromRepoEqualizer .exactly steep (.finite (-40)) .nonFinite) = .ok steep ∧
      ∃ message, mergeRepoEqualizer .exactly (some steep)
        { dsp := none, balance := none, enabled := some true, precut := .finite 0, bands := some [] } =
          .error message := by
  obtain ⟨hround, -, hreject⟩ := equalizer_merge .exactly
  refine ⟨hround steep none (.finite (-40)) .nonFinite rfl (by decide), hreject (some steep) _ ?_⟩
  rintro ⟨bs, hbs, hfreq, -⟩
  obtain rfl := Option.some.inj hbs
  cases hfreq

end Atradio.App.Equalizer
