import Mathlib.Data.Rat.Defs
import Mathlib.Data.List.Basic

/-! # JSON values and schemas

A schema reads a JSON value as a value of a type, or rejects it. An object schema reads
the members it names and strips the others. -/

namespace Atradio.Lib

/-- The values `JSON.parse` makes; an object has one member for each of its keys. -/
inductive Json where
  | null
  | bool (b : Bool)
  | num (q : ℚ)
  | str (s : String)
  | arr (xs : List Json)
  | obj (members : List (String × Json))

abbrev Schema (α : Type) := Json → Option α

namespace Schema

variable {α : Type}

def string : Schema String
  | .str s => some s
  | _ => none

def number : Schema ℚ
  | .num q => some q
  | _ => none

def array (elem : Schema α) : Schema (List α)
  | .arr xs => xs.mapM elem
  | _ => none

def refine (s : Schema α) (p : α → Bool) : Schema α := fun v => (s v).filter p

def member (key : String) (s : Schema α) : Schema α
  | .obj members => (members.lookup key).bind s
  | _ => none

/-- An optional member of an object: absent, or of its schema. -/
def optional (key : String) (s : Schema α) : Schema (Option α)
  | .obj members =>
    match members.lookup key with
    | none => some none
    | some v => (s v).map some
  | _ => none

def literal (value : String) : Schema String := refine string (· = value)

end Schema

/-! ### Objects under construction -/

/-- The members of an object literal; `none` is `undefined`. -/
abbrev Fields := List (String × Option Json)

def Json.blank : Json → Bool
  | .str s => decide (s = "")
  | _ => false

/-- A value that is neither `undefined` nor the empty string. -/
def kept (v : Option Json) : Option Json := v.filter fun j => !j.blank

/-- Drop `undefined` and empty-string values. -/
def clean (fields : Fields) : Json :=
  .obj (fields.filterMap fun f => (kept f.2).map fun j => (f.1, j))

/-- The members a literal is left with when `keep` says what becomes of each value. -/
def members (keep : Option Json → Option Json) (fields : Fields) : List (String × Json) :=
  fields.filterMap fun f => (keep f.2).map fun j => (f.1, j)

theorem lookup_absent {fields : Fields} {key : String} (h : key ∉ fields.map Prod.fst) :
    fields.lookup key = none := by
  rw [List.lookup_eq_none_iff]
  intro f hf
  have hne : key ≠ f.1 := by
    rintro rfl
    exact h (List.mem_map.2 ⟨f, hf, rfl⟩)
  simpa using hne

theorem lookup_members (keep : Option Json → Option Json) {fields : Fields}
    (h : (fields.map Prod.fst).Nodup) (key : String) :
    (members keep fields).lookup key = (fields.lookup key).bind keep := by
  unfold members
  induction fields with
  | nil => rfl
  | cons f fields ih =>
    obtain ⟨hnot, hrest⟩ := List.nodup_cons.1 h
    obtain ⟨k, v⟩ := f
    rw [List.filterMap_cons, List.lookup_cons]
    by_cases hk : key = k
    · subst hk
      rw [beq_self_eq_true]
      dsimp only
      cases hv : keep v with
      | some j => simp [hv]
      | none =>
        simp [hv, ih hrest, lookup_absent hnot]
    · have hbeq : (key == k) = false := by simpa using hk
      rw [hbeq]
      cases keep v with
      | none => exact ih hrest
      | some j =>
        rw [Option.map_some, List.lookup_cons, hbeq]
        exact ih hrest

theorem lookup_clean {fields : Fields} (h : (fields.map Prod.fst).Nodup) (key : String) :
    (fields.filterMap fun f => (kept f.2).map fun j => (f.1, j)).lookup key =
      (fields.lookup key).bind kept :=
  lookup_members kept h key

/-! ### Objects as maps -/

def Json.get (key : String) : Json → Option Json
  | .obj members => members.lookup key
  | _ => none

def SameObject (a b : Json) : Prop := ∀ key, a.get key = b.get key

theorem sameObject_iff {keep keep' : Option Json → Option Json} {F G : Fields}
    (hF : (F.map Prod.fst).Nodup) (hG : (G.map Prod.fst).Nodup) :
    SameObject (.obj (members keep F)) (.obj (members keep' G)) ↔
      ∀ key ∈ F.map Prod.fst ++ G.map Prod.fst,
        (F.lookup key).bind keep = (G.lookup key).bind keep' := by
  have hget : ∀ (g : Option Json → Option Json) {H : Fields}, (H.map Prod.fst).Nodup →
      ∀ key, (Json.obj (members g H)).get key = (H.lookup key).bind g :=
    fun g H hH key => lookup_members g hH key
  constructor
  · intro h key _
    rw [← hget keep hF, ← hget keep' hG]
    exact h key
  · intro h key
    rw [hget keep hF, hget keep' hG]
    by_cases hkey : key ∈ F.map Prod.fst ++ G.map Prod.fst
    · exact h key hkey
    · rw [List.mem_append, not_or] at hkey
      rw [lookup_absent hkey.1, lookup_absent hkey.2]
      rfl

namespace Schema

variable {α : Type} {fields : Fields} {key : String} {v : Option Json}

theorem member_clean (h : (fields.map Prod.fst).Nodup) (hv : fields.lookup key = some v)
    (s : Schema α) : member key s (clean fields) = (kept v).bind s := by
  unfold clean
  simp only [member, lookup_clean h, hv, Option.bind_some]

theorem optional_clean (h : (fields.map Prod.fst).Nodup) (hv : fields.lookup key = some v)
    (s : Schema α) : optional key s (clean fields) =
      match kept v with
      | none => some none
      | some j => (s j).map some := by
  unfold clean
  simp only [optional, lookup_clean h, hv, Option.bind_some]

theorem optional_absent (h : (fields.map Prod.fst).Nodup) (hv : fields.lookup key = none)
    (s : Schema α) : optional key s (clean fields) = some none := by
  unfold clean
  simp only [optional, lookup_clean h, hv, Option.bind_none]

end Schema

end Atradio.Lib
