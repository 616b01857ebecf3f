import Atradio.Audio.Alike
import Atradio.Lib.Schema

/-! # Settings records as they are built (`mappers.ts`, `schema.ts`) -/

namespace Atradio.Audio
open Atradio.Lib Atradio.Lib.Schema

/-- What a client writes; nothing has checked its ranges. -/
structure BuiltRecord where
  eqEnabled : Bool
  eqGains : List ℤ
  bass : ℤ
  treble : ℤ
  crossfeedMode : String
  crossfeedDirect : ℤ
  pbe : ℤ
  pbePrecut : ℤ
  surroundDelay : ℤ
  surroundBalance : ℤ
  compThreshold : ℤ
  compRatio : ℤ
  channelMode : String
  stereoWidth : ℤ
  updatedAt : String

def buildAudioSettingsRecord (double : Rounding) (s : AudioSettingsData) (updatedAt : String) :
    BuiltRecord where
  eqEnabled := s.eqEnabled
  eqGains := s.eqGains.map fun gain : ℤ => mathRound gain
  bass := mathRound s.bass
  treble := mathRound s.treble
  crossfeedMode := s.crossfeedMode
  crossfeedDirect := mathRound (double.fl (s.crossfeedDirect * (10 : ℤ)))
  pbe := mathRound s.pbe
  pbePrecut := mathRound s.pbePrecut
  surroundDelay := mathRound s.surroundDelay
  surroundBalance := mathRound s.surroundBalance
  compThreshold := mathRound s.compThreshold
  compRatio := mathRound s.compRatio
  channelMode := s.channelMode
  stereoWidth := mathRound s.stereoWidth
  updatedAt := updatedAt

/-! ### The schema of the app -/

/-- What the schema makes of a record. -/
structure ParsedRecord where
  eqEnabled : Option Bool
  eqGains : Option (List ℚ)
  bass : Option ℚ
  treble : Option ℚ
  crossfeedMode : Option String
  crossfeedDirect : Option ℚ
  pbe : Option ℚ
  pbePrecut : Option ℚ
  surroundDelay : Option ℚ
  surroundBalance : Option ℚ
  compThreshold : Option ℚ
  compRatio : Option ℚ
  channelMode : Option String
  stereoWidth : Option ℚ
  updatedAt : String

def boolean : Schema Bool
  | .bool b => some b
  | _ => none

/-- `z.number().min(lo).max(hi)` -/
def between (lo hi : ℚ) : Schema ℚ := refine Schema.number fun q => lo ≤ q ∧ q ≤ hi

def crossfeedModeSchema : Schema String := refine string (· ∈ crossfeedModes)

def channelModeSchema : Schema String := refine string (· ∈ channelModes)

def audioSettingsRecordSchema : Schema ParsedRecord := fun v => do
  let _ ← optional "$type" (literal "fm.atradio.audio.settings") v
  let eqEnabled ← optional "eqEnabled" boolean v
  let eqGains ← optional "eqGains" (array (between (-24) 24)) v
  let bass ← optional "bass" (between (-24) 24) v
  let treble ← optional "treble" (between (-24) 24) v
  let crossfeedMode ← optional "crossfeedMode" crossfeedModeSchema v
  let crossfeedDirect ← optional "crossfeedDirect" (between (-60) 0) v
  let pbe ← optional "pbe" (between 0 100) v
  let pbePrecut ← optional "pbePrecut" (between 0 24) v
  let surroundDelay ← optional "surroundDelay" (between 0 30) v
  let surroundBalance ← optional "surroundBalance" (between 0 100) v
  let compThreshold ← optional "compThreshold" (between (-30) 0) v
  let compRatio ← optional "compRatio" (between 2 10) v
  let channelMode ← optional "channelMode" channelModeSchema v
  let stereoWidth ← optional "stereoWidth" (between 0 255) v
  let updatedAt ← member "updatedAt" string v
  return { eqEnabled, eqGains, bass, treble, crossfeedMode, crossfeedDirect, pbe, pbePrecut,
           surroundDelay, surroundBalance, compThreshold, compRatio, channelMode, stereoWidth,
           updatedAt }

def BuiltRecord.json (r : BuiltRecord) : Json :=
  .obj [("$type", .str "fm.atradio.audio.settings"), ("eqEnabled", .bool r.eqEnabled),
    ("eqGains", .arr (r.eqGains.map fun gain : ℤ => .num gain)), ("bass", .num r.bass),
    ("treble", .num r.treble), ("crossfeedMode", .str r.crossfeedMode),
    ("crossfeedDirect", .num r.crossfeedDirect), ("pbe", .num r.pbe),
    ("pbePrecut", .num r.pbePrecut), ("surroundDelay", .num r.surroundDelay),
    ("surroundBalance", .num r.surroundBalance), ("compThreshold", .num r.compThreshold),
    ("compRatio", .num r.compRatio), ("channelMode", .str r.channelMode),
    ("stereoWidth", .num r.stereoWidth), ("updatedAt", .str r.updatedAt)]

/-! ### Records within their ranges -/

structure BuiltRecord.InRange (r : BuiltRecord) : Prop where
  eqGains : ∀ gain ∈ r.eqGains, -24 ≤ gain ∧ gain ≤ 24
  bass : -24 ≤ r.bass ∧ r.bass ≤ 24
  treble : -24 ≤ r.treble ∧ r.treble ≤ 24
  crossfeedMode : r.crossfeedMode ∈ crossfeedModes
  crossfeedDirect : -60 ≤ r.crossfeedDirect ∧ r.crossfeedDirect ≤ 0
  pbe : 0 ≤ r.pbe ∧ r.pbe ≤ 100
  pbePrecut : 0 ≤ r.pbePrecut ∧ r.pbePrecut ≤ 24
  surroundDelay : 0 ≤ r.surroundDelay ∧ r.surroundDelay ≤ 30
  surroundBalance : 0 ≤ r.surroundBalance ∧ r.surroundBalance ≤ 100
  compThreshold : -30 ≤ r.compThreshold ∧ r.compThreshold ≤ 0
  compRatio : 2 ≤ r.compRatio ∧ r.compRatio ≤ 10
  channelMode : r.channelMode ∈ channelModes
  stereoWidth : 0 ≤ r.stereoWidth ∧ r.stereoWidth ≤ 255

/-- The record that its readers are given. -/
def BuiltRecord.record (r : BuiltRecord) (h : r.InRange) : AudioSettingsRecord where
  eqEnabled := some r.eqEnabled
  eqGains := some (r.eqGains.pmap Subtype.mk h.eqGains)
  bass := some ⟨r.bass, h.bass⟩
  treble := some ⟨r.treble, h.treble⟩
  crossfeedMode := some r.crossfeedMode
  crossfeedDirect := some ⟨r.crossfeedDirect, h.crossfeedDirect⟩
  pbe := some ⟨r.pbe, h.pbe⟩
  pbePrecut := some ⟨r.pbePrecut, h.pbePrecut⟩
  surroundDelay := some ⟨r.surroundDelay, h.surroundDelay⟩
  surroundBalance := some ⟨r.surroundBalance, h.surroundBalance⟩
  compThreshold := some ⟨r.compThreshold, h.compThreshold⟩
  compRatio := some ⟨r.compRatio, h.compRatio⟩
  channelMode := some r.channelMode
  stereoWidth := some ⟨r.stereoWidth, h.stereoWidth⟩

theorem between_int {lo hi n : ℤ} (h : lo ≤ n ∧ n ≤ hi) :
    between lo hi (.num n) = some (n : ℚ) := by
  have hlo : (lo : ℚ) ≤ n := by exact_mod_cast h.1
  have hhi : (n : ℚ) ≤ hi := by exact_mod_cast h.2
  simp [between, refine, Schema.number, hlo, hhi]

theorem array_between {lo hi : ℤ} {ns : List ℤ} (h : ∀ n ∈ ns, lo ≤ n ∧ n ≤ hi) :
    array (between lo hi) (.arr (ns.map fun n : ℤ => .num n)) =
      some (ns.map fun n : ℤ => (n : ℚ)) := by
  unfold array
  induction ns with
  | nil => rfl
  | cons n ns ih =>
    have hrest := ih fun m hm => h m (List.mem_cons_of_mem n hm)
    dsimp only at hrest
    simp only [List.map_cons, List.mapM_cons, between_int (h n (List.mem_cons_self ..)), hrest]
    rfl

/-- A record within its ranges passes the schema. -/
theorem BuiltRecord.InRange.accepted {r : BuiltRecord} (h : r.InRange) :
    (audioSettingsRecordSchema r.json).isSome = true := by
  have hgains := array_between h.eqGains
  have hbass := between_int h.bass
  have htreble := between_int h.treble
  have hdirect := between_int h.crossfeedDirect
  have hpbe := between_int h.pbe
  have hprecut := between_int h.pbePrecut
  have hdelay := between_int h.surroundDelay
  have hbalance := between_int h.surroundBalance
  have hthreshold := between_int h.compThreshold
  have hratio := between_int h.compRatio
  have hwidth := between_int h.stereoWidth
  push_cast at hgains hbass htreble hdirect hpbe hprecut hdelay hbalance hthreshold hratio hwidth
  simp [audioSettingsRecordSchema, BuiltRecord.json, Schema.optional, Schema.member,
    crossfeedModeSchema, channelModeSchema, List.lookup_cons, hgains, h.crossfeedMode, h.channelMode,
    hbass, htreble, hdirect, hpbe, hprecut, hdelay, hbalance, hthreshold, hratio, hwidth, boolean,
    Schema.literal, refine, Schema.string, Option.filter_some]

/-! ### Web settings -/

/-- Settings within their ranges, the direct gain in tenths of a decibel. -/
structure AudioSettingsData.Valid (double : Rounding) (d : AudioSettingsData) : Prop where
  eqGains : ∀ gain ∈ d.eqGains, -24 ≤ gain ∧ gain ≤ 24
  bass : -24 ≤ d.bass ∧ d.bass ≤ 24
  treble : -24 ≤ d.treble ∧ d.treble ≤ 24
  crossfeedMode : d.crossfeedMode ∈ crossfeedModes
  crossfeedDirect : ∃ tenths : Ranged (-60) 0, d.crossfeedDirect = double.fl (tenths.val / (10 : ℤ))
  pbe : 0 ≤ d.pbe ∧ d.pbe ≤ 100
  pbePrecut : 0 ≤ d.pbePrecut ∧ d.pbePrecut ≤ 24
  surroundDelay : 0 ≤ d.surroundDelay ∧ d.surroundDelay ≤ 30
  surroundBalance : 0 ≤ d.surroundBalance ∧ d.surroundBalance ≤ 100
  compThreshold : -30 ≤ d.compThreshold ∧ d.compThreshold ≤ 0
  compRatio : 2 ≤ d.compRatio ∧ d.compRatio ≤ 10
  channelMode : d.channelMode ∈ channelModes
  stereoWidth : 0 ≤ d.stereoWidth ∧ d.stereoWidth ≤ 255

theorem mathRound_tenths (R : Rounding) (tenths : Ranged (-60) 0) :
    mathRound (R.fl (R.fl (tenths.val / (10 : ℤ)) * (10 : ℤ))) = tenths.val :=
  mathRound_eq (fl_direct R tenths)

theorem AudioSettingsData.Valid.built {double : Rounding} {d : AudioSettingsData}
    (h : d.Valid double) (updatedAt : String) :
    (buildAudioSettingsRecord double d updatedAt).InRange := by
  obtain ⟨tenths, htenths⟩ := h.crossfeedDirect
  have hdirect := mathRound_tenths double tenths
  rw [← htenths] at hdirect
  constructor
  all_goals simp only [buildAudioSettingsRecord, mathRound_intCast, hdirect, List.map_id']
  exacts [h.eqGains, h.bass, h.treble, h.crossfeedMode, tenths.property, h.pbe, h.pbePrecut,
    h.surroundDelay, h.surroundBalance, h.compThreshold, h.compRatio, h.channelMode,
    h.stereoWidth]

theorem map_val_pmap {lo hi : ℤ} {ns : List ℤ} (h : ∀ n ∈ ns, lo ≤ n ∧ n ≤ hi) :
    (ns.pmap Subtype.mk h : List (Ranged lo hi)).map Subtype.val = ns := by
  rw [List.map_pmap]
  exact List.pmap_eq_map .. |>.trans (List.map_id' ns)

theorem data_of_built {double : Rounding} {d : AudioSettingsData} (h : d.Valid double)
    (updatedAt : String) :
    audioSettingsRecordToData double
      ((buildAudioSettingsRecord double d updatedAt).record (h.built updatedAt)) = d := by
  obtain ⟨tenths, htenths⟩ := h.crossfeedDirect
  have hdirect := mathRound_tenths double tenths
  rw [← htenths] at hdirect
  simp only [audioSettingsRecordToData, BuiltRecord.record, coalesce, Option.elim_some,
    Option.getD_some, map_val_pmap]
  simp only [buildAudioSettingsRecord, mathRound_intCast, hdirect, List.map_id', ← htenths]

end Atradio.Audio
