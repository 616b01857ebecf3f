import Mathlib.Data.Rat.Defs
import Mathlib.Data.List.Induction

/-! # Untyped documents

A JSON value as a reader without a schema sees it: every access yields a value, an absent one is
null, and an assignment through a key makes an object of a null. -/

namespace Atradio.Lib

/-- A number with a fraction or an exponent is a float, and so is one out of both ranges. -/
inductive Number where
  | posInt (n : UInt64)
  | negInt (n : Int64)
  | float (x : ℚ)

/-- An object stands for the insertions it was built by: of two under one key the later holds. -/
inductive Value where
  | null
  | bool (b : Bool)
  | number (n : Number)
  | string (s : String)
  | array (items : List Value)
  | object (entries : List (String × Value))

section Entries

variable {V : Type}

def latest (key : String) : List (String × V) → Option V
  | [] => none
  | (k, v) :: entries => (latest key entries).or (if k = key then some v else none)

theorem latest_append (key : String) (l l' : List (String × V)) :
    latest key (l ++ l') = (latest key l').or (latest key l) := by
  induction l with
  | nil => simp [latest]
  | cons e l ih => rw [List.cons_append, latest, ih, latest, Option.or_assoc]

theorem latest_snoc (key k : String) (l : List (String × V)) (v : V) :
    latest key (l ++ [(k, v)]) = if k = key then some v else latest key l := by
  rw [latest_append]
  by_cases h : k = key <;> simp [latest, h]

end Entries

namespace Value

def asI64 : Value → Option ℤ
  | .number (.posInt n) => if n.toNat ≤ 9223372036854775807 then some n.toNat else none
  | .number (.negInt n) => some n.toInt
  | _ => none

/-- `round` turns an integer into a float. -/
def asF64 (round : ℚ → ℚ) : Value → Option ℚ
  | .number (.posInt n) => some (round n.toNat)
  | .number (.negInt n) => some (round n.toInt)
  | .number (.float x) => some x
  | _ => none

def asBool : Value → Option Bool
  | .bool b => some b
  | _ => none

def asStr : Value → Option String
  | .string s => some s
  | _ => none

def asArray : Value → Option (List Value)
  | .array items => some items
  | _ => none

def asObject : Value → Option (List (String × Value))
  | .object entries => some entries
  | _ => none

/-- `&v[key]` -/
def index (v : Value) (key : String) : Value := (v.asObject.bind (latest key)).getD .null

/-- A write through `&mut v[key]`; none is a panic, of this access or of the write. -/
def modify (v : Value) (key : String) (write : Value → Option Value) : Option Value :=
  match v with
  | .null => (write .null).map fun x => .object [(key, x)]
  | .object entries =>
    (write ((latest key entries).getD .null)).map fun x => .object (entries ++ [(key, x)])
  | _ => none

/-- What takes an assignment through a key. -/
inductive Keyed : Value → Prop where
  | null : Keyed .null
  | object (entries : List (String × Value)) : Keyed (.object entries)

theorem modify_keyed {v : Value} (hv : v.Keyed) (key : String) (write : Value → Option Value)
    {x : Value} (hx : write (v.index key) = some x) :
    ∃ w, v.modify key write = some w ∧ w.Keyed ∧
      ∀ k, w.index k = if key = k then x else v.index k := by
  cases hv with
  | null =>
    refine ⟨.object [(key, x)], ?_, .object _, ?_⟩
    · change write .null = some x at hx
      rw [modify, hx]
      rfl
    · intro k
      by_cases hk : key = k <;> simp [index, asObject, latest, hk]
  | object entries =>
    refine ⟨.object (entries ++ [(key, x)]), ?_, .object _, ?_⟩
    · change write ((latest key entries).getD .null) = some x at hx
      rw [modify, hx]
      rfl
    · intro k
      simp only [index, asObject, Option.bind_some, latest_snoc]
      by_cases hk : key = k <;> simp [hk]

end Value

/-! ### The last writer -/

section LastWriter

variable {S P V : Type} {step : S → P → S} {get : S → V} {write : P → Option V}

/-- What the last step that writes has written. -/
def lastWrite (write : P → Option V) (ps : List P) : Option V := (ps.filterMap write).getLast?

theorem lastWrite_snoc (write : P → Option V) (ps : List P) (p : P) :
    lastWrite write (ps ++ [p]) = (write p).or (lastWrite write ps) := by
  unfold lastWrite
  rw [List.filterMap_append]
  cases h : write p with
  | none => simp [h]
  | some v => simp [h]

theorem get_foldl_of_step (hstep : ∀ s p, get (step s p) = (write p).getD (get s)) (s : S)
    (ps : List P) : get (ps.foldl step s) = (lastWrite write ps).getD (get s) := by
  induction ps using List.reverseRecOn with
  | nil => rfl
  | append_singleton ps p ih =>
    rw [List.foldl_append, List.foldl_cons, List.foldl_nil, hstep, ih, lastWrite_snoc]
    cases write p <;> rfl

end LastWriter

end Atradio.Lib
