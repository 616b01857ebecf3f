import Atradio.Audio.Settings
import Atradio.Lib.Document

/-! # The settings document of the native engine (`engine/src/audio.rs`)

Patches arrive as JSON of any shape. They are merged into an untyped document, and every reader of
the document converts units and clamps on its own. -/

namespace Atradio.Native
open Atradio.Lib

def SECTIONS : List String := ["equalizer", "tone", "crossfade", "replayGain"]

/-! ### Merging -/

/-- `self.document[section][key] = value` -/
def assign (document : Value) (sect key : String) (value : Value) : Option Value :=
  document.modify sect fun fields => fields.modify key fun _ => some value

def mergeFields (sect : String) (document : Value) : List (String × Value) → Option Value
  | [] => some document
  | (key, value) :: fields =>
    (assign document sect key value).bind fun document => mergeFields sect document fields

def mergeSections (patch document : Value) : List String → Option Value
  | [] => some document
  | sect :: sects =>
    match (patch.index sect).asObject with
    | none => mergeSections patch document sects
    | some fields =>
      (mergeFields sect document fields).bind fun document => mergeSections patch document sects

/-- The value a patch mentions at a path. -/
def mention (sect key : String) (patch : Value) : Option Value :=
  (patch.index sect).asObject.bind (latest key)

/-- No assignment panics. -/
def Assignable (document : Value) : Prop :=
  document.Keyed ∧ ∀ sect ∈ SECTIONS, (document.index sect).Keyed

def setting (document : Value) (sect key : String) : Value := (document.index sect).index key

theorem assign_spec {document : Value} (hd : Assignable document) {sect : String}
    (hsect : sect ∈ SECTIONS) (key : String) (value : Value) :
    ∃ d, assign document sect key value = some d ∧ Assignable d ∧
      ∀ s k, setting d s k = if sect = s ∧ key = k then value else setting document s k := by
  obtain ⟨fields, hfields, hkeyed, hget⟩ := Value.modify_keyed (hd.2 sect hsect) key
    (fun _ => some value) rfl
  obtain ⟨d, hsome, hd', hindex⟩ := Value.modify_keyed hd.1 sect
    (fun fields => fields.modify key fun _ => some value) hfields
  refine ⟨d, hsome, ⟨hd', ?_⟩, ?_⟩
  · intro s hs
    rw [hindex]
    by_cases h : sect = s
    · rwa [if_pos h]
    · rw [if_neg h]
      exact hd.2 s hs
  · intro s k
    rw [setting, hindex]
    by_cases h : sect = s
    · subst h
      rw [if_pos rfl, hget]
      simp [setting]
    · rw [if_neg h, if_neg fun h' => h h'.1, setting]

theorem mergeFields_spec {document : Value} (hd : Assignable document) {sect : String}
    (hsect : sect ∈ SECTIONS) (fields : List (String × Value)) :
    ∃ d, mergeFields sect document fields = some d ∧ Assignable d ∧
      ∀ s k, setting d s k =
        if sect = s then (latest k fields).getD (setting document s k)
        else setting document s k := by
  induction fields generalizing document with
  | nil => exact ⟨document, rfl, hd, fun s k => by simp [latest]⟩
  | cons field fields ih =>
    obtain ⟨key, value⟩ := field
    obtain ⟨d₁, h₁, hd₁, hget₁⟩ := assign_spec hd hsect key value
    obtain ⟨d₂, h₂, hd₂, hget₂⟩ := ih hd₁
    refine ⟨d₂, ?_, hd₂, ?_⟩
    · rw [mergeFields, h₁]
      exact h₂
    · intro s k
      rw [hget₂, hget₁, latest]
      by_cases hs : sect = s
      · by_cases hk : key = k <;> cases latest k fields <;> simp [hs, hk]
      · simp [hs]

theorem mergeSections_spec (patch : Value) {sects : List String} (hnodup : sects.Nodup)
    (hsub : ∀ s ∈ sects, s ∈ SECTIONS) {document : Value} (hd : Assignable document) :
    ∃ d, mergeSections patch document sects = some d ∧ Assignable d ∧
      ∀ s k, setting d s k =
        if s ∈ sects then (mention s k patch).getD (setting document s k)
        else setting document s k := by
  induction sects generalizing document with
  | nil => exact ⟨document, rfl, hd, fun s k => by simp⟩
  | cons sect sects ih =>
    rw [List.nodup_cons] at hnodup
    have ih' := fun {document : Value} => @ih hnodup.2
      (fun s hs => hsub s (List.mem_cons_of_mem _ hs)) document
    cases hfields : (patch.index sect).asObject with
    | none =>
      obtain ⟨d, hsome, hd', hget⟩ := ih' hd
      refine ⟨d, ?_, hd', ?_⟩
      · rw [mergeSections, hfields]
        exact hsome
      · intro s k
        rw [hget]
        by_cases hs : s = sect
        · subst hs
          simp [hnodup.1, mention, hfields]
        · simp [hs]
    | some fields =>
      obtain ⟨d₁, h₁, hd₁, hget₁⟩ := mergeFields_spec hd (hsub sect (List.mem_cons_self ..)) fields
      obtain ⟨d₂, h₂, hd₂, hget₂⟩ := ih' hd₁
      refine ⟨d₂, ?_, hd₂, ?_⟩
      · rw [mergeSections, hfields]
        dsimp only
        rw [h₁]
        exact h₂
      · intro s k
        rw [hget₂, hget₁]
        by_cases hs : sect = s
        · subst hs
          simp [hnodup.1, mention, hfields]
        · simp [hs, Ne.symm hs]

/-! ### The settings -/

def wholeNumber (n : UInt64) : Value := .number (.posInt n)

def DEFAULT_DOCUMENT : Value :=
  .object [
    ("equalizer", .object [
      ("enabled", .bool false), ("precut", wholeNumber 0), ("bands", .array [])]),
    ("tone", .object [
      ("bass", wholeNumber 0), ("treble", wholeNumber 0), ("balance", wholeNumber 0),
      ("channels", .string "stereo"), ("stereoWidth", wholeNumber 100)]),
    ("crossfade", .object [
      ("mode", .string "off"), ("fadeInDelay", wholeNumber 0),
      ("fadeInDuration", wholeNumber 2000), ("fadeOutDelay", wholeNumber 0),
      ("fadeOutDuration", wholeNumber 2000), ("fadeOutMixMode", .string "crossfade")]),
    ("replayGain", .object [
      ("mode", .string "off"), ("preamp", wholeNumber 0), ("preventClipping", .bool false)])]

theorem default_assignable : Assignable DEFAULT_DOCUMENT := by
  refine ⟨.object _, ?_⟩
  intro sect hsect
  simp only [SECTIONS, List.mem_cons, List.not_mem_nil, or_false] at hsect
  rcases hsect with rfl | rfl | rfl | rfl <;> exact .object _

structure AudioSettings where
  document : Value
  assignable : Assignable document

namespace AudioSettings

def default : AudioSettings where
  document := DEFAULT_DOCUMENT
  assignable := default_assignable

theorem sections_nodup : SECTIONS.Nodup := by decide

theorem mergeSections_isSome (a : AudioSettings) (patch : Value) :
    (mergeSections patch a.document SECTIONS).isSome = true := by
  obtain ⟨d, hd, -⟩ := mergeSections_spec patch sections_nodup (fun s hs => hs) a.assignable
  rw [hd]
  rfl

theorem assignable_get (a : AudioSettings) (patch : Value) :
    Assignable ((mergeSections patch a.document SECTIONS).get (a.mergeSections_isSome patch)) := by
  obtain ⟨d, hd, hd', -⟩ := mergeSections_spec patch sections_nodup (fun s hs => hs) a.assignable
  simpa only [hd, Option.get_some] using hd'

def merge (a : AudioSettings) (patch : Value) : AudioSettings where
  document := (mergeSections patch a.document SECTIONS).get (a.mergeSections_isSome patch)
  assignable := a.assignable_get patch

theorem setting_merge (a : AudioSettings) (patch : Value) {s : String} (hs : s ∈ SECTIONS)
    (k : String) : setting (a.merge patch).document s k =
      (mention s k patch).getD (setting a.document s k) := by
  obtain ⟨d, hd, -, hget⟩ :=
    mergeSections_spec patch sections_nodup (fun s hs => hs) a.assignable
  simp only [merge, hd, Option.get_some, hget, if_pos hs]

def merged (patches : List Value) : AudioSettings := patches.foldl merge default

/-- The last patch that mentions a path decides, or the default when none does. -/
theorem setting_merged (patches : List Value) {s : String} (hs : s ∈ SECTIONS) (k : String) :
    setting (merged patches).document s k =
      (lastWrite (mention s k) patches).getD (setting DEFAULT_DOCUMENT s k) :=
  @get_foldl_of_step _ _ _ merge (fun a => setting a.document s k) (mention s k)
    (fun a patch => a.setting_merge patch hs k) default patches

end AudioSettings

end Atradio.Native
