import Atradio.Lib.Utf8Slices
import Mathlib.Data.Nat.Notation

/-! # Percent escapes

A percent sign and two hexadecimal digits stand for a byte. Any other character stands for its bytes
in UTF-8. -/

namespace Atradio.Lib

/-! ### Hexadecimal digits -/

def upperDigit (n : ℕ) : Char := (Nat.digitChar n).toUpper

def upperHex (n : ℕ) : List Char := (Nat.toDigits 16 n).map Char.toUpper

def hexValue (c : Char) : Option ℕ :=
  let n := c.toNat
  if 48 ≤ n && n ≤ 57 then some (n - 48)
  else if 65 ≤ n && n ≤ 70 then some (n - 55)
  else if 97 ≤ n && n ≤ 102 then some (n - 87)
  else none

theorem hexValue_upperDigit {n : ℕ} (h : n < 16) : hexValue (upperDigit n) = some n := by
  interval_cases n <;> rfl

theorem upperDigit_ascii {n : ℕ} (h : n < 16) : (upperDigit n).toNat < 0x80 := by
  interval_cases n <;> decide

theorem upperDigit_ne_percent {n : ℕ} (h : n < 16) : upperDigit n ≠ '%' := by
  interval_cases n <;> decide

theorem upperHex_digit {n : ℕ} (h : n < 16) : upperHex n = [upperDigit n] := by
  rw [upperHex, Nat.toDigits_of_lt_base h]
  rfl

theorem upperHex_step {n : ℕ} (h : 16 ≤ n) :
    upperHex n = upperHex (n / 16) ++ [upperDigit (n % 16)] := by
  rw [upperHex, Nat.toDigits_of_base_le (by decide) h, List.map_append]
  rfl

theorem exists_upperDigit {n : ℕ} : ∀ c ∈ upperHex n, ∃ d < 16, c = upperDigit d := by
  induction n using Nat.strong_induction_on with
  | _ n ih =>
    intro c hc
    by_cases h : n < 16
    · rw [upperHex_digit h, List.mem_singleton] at hc
      exact ⟨n, h, hc⟩
    · rw [upperHex_step (by omega), List.mem_append, List.mem_singleton] at hc
      rcases hc with hc | hc
      · exact ih (n / 16) (by omega) c hc
      · exact ⟨n % 16, by omega, hc⟩

/-- Two digits at least. -/
def hex02 (n : ℕ) : List Char := (upperHex n).leftpad 2 '0'

theorem hex02_byte {n : ℕ} (h : n < 256) :
    hex02 n = [upperDigit (n / 16), upperDigit (n % 16)] := by
  by_cases hn : n < 16
  · have hdiv : n / 16 = 0 := by omega
    have hmod : n % 16 = n := by omega
    rw [hex02, upperHex_digit hn, hdiv, hmod]
    rfl
  · rw [hex02, upperHex_step (by omega), upperHex_digit (by omega)]
    rfl

/-- From 256 on there are digits behind the first two. -/
theorem hex02_long {n : ℕ} (h : 256 ≤ n) : ∃ x < 16, ∃ y < 16, ∃ z < 16, ∃ rest,
    hex02 n = upperDigit x :: upperDigit y :: upperDigit z :: rest ∧
      ∀ c ∈ rest, ∃ d < 16, c = upperDigit d := by
  have hlength : 2 < (upperHex n).length := by
    rw [upperHex, List.length_map]
    by_contra hshort
    have hsmall := (Nat.length_toDigits_le_iff (n := n) (k := 2) (by decide) (by decide)).1
      (not_lt.1 hshort)
    omega
  have hpad : hex02 n = upperHex n := by
    have hzero : 2 - (upperHex n).length = 0 := by omega
    rw [hex02, List.leftpad, hzero]
    rfl
  have hdigits := exists_upperDigit (n := n)
  rw [hpad]
  match hhex : upperHex n with
  | [] => simp [hhex] at hlength
  | [_] => simp [hhex] at hlength
  | [_, _] => simp [hhex] at hlength
  | a :: b :: c :: rest =>
    rw [hhex, List.forall_mem_cons, List.forall_mem_cons, List.forall_mem_cons] at hdigits
    obtain ⟨⟨x, hx, rfl⟩, ⟨y, hy, rfl⟩, ⟨z, hz, rfl⟩, hrest⟩ := hdigits
    exact ⟨x, hx, y, hy, z, hz, rest, rfl, hrest⟩

/-! ### Escapes -/

def escapeByte (b : UInt8) : List Char :=
  ['%', upperDigit (b.toNat / 16), upperDigit (b.toNat % 16)]

def percentDecode : List Char → List UInt8
  | [] => []
  | [a] => scalarBytes a.toNat
  | [a, b] => scalarBytes a.toNat ++ percentDecode [b]
  | a :: b :: c :: s =>
    if a = '%' then
      match hexValue b, hexValue c with
      | some x, some y => UInt8.ofNat (16 * x + y) :: percentDecode s
      | _, _ => scalarBytes a.toNat ++ percentDecode (b :: c :: s)
    else scalarBytes a.toNat ++ percentDecode (b :: c :: s)

theorem percentDecode_escape {b c : Char} {x y : ℕ} (hb : hexValue b = some x)
    (hc : hexValue c = some y) (s : List Char) :
    percentDecode ('%' :: b :: c :: s) = UInt8.ofNat (16 * x + y) :: percentDecode s := by
  rw [percentDecode, if_pos rfl, hb, hc]

theorem percentDecode_plain {a : Char} (ha : a ≠ '%') (s : List Char) :
    percentDecode (a :: s) = scalarBytes a.toNat ++ percentDecode s := by
  match s with
  | [] => exact (List.append_nil _).symm
  | [_] => rfl
  | _ :: _ :: _ => rw [percentDecode, if_neg ha]

theorem percentDecode_escaped (b : UInt8) (s : List Char) :
    percentDecode (escapeByte b ++ s) = b :: percentDecode s := by
  have hb := b.toNat_lt
  have hsum : 16 * (b.toNat / 16) + b.toNat % 16 = b.toNat := by omega
  have hescape := percentDecode_escape (hexValue_upperDigit (n := b.toNat / 16) (by omega))
    (hexValue_upperDigit (n := b.toNat % 16) (by omega)) s
  rw [hsum, UInt8.ofNat_toNat] at hescape
  exact hescape

theorem percentDecode_escapes (bs : List UInt8) (s : List Char) :
    percentDecode (bs.flatMap escapeByte ++ s) = bs ++ percentDecode s := by
  induction bs with
  | nil => rfl
  | cons b bs ih =>
    rw [List.flatMap_cons, List.append_assoc, percentDecode_escaped, ih]
    rfl

theorem percentDecode_digits {ds : List Char} (hds : ∀ c ∈ ds, ∃ d < 16, c = upperDigit d)
    (s : List Char) :
    percentDecode (ds ++ s) = ds.map (fun c => UInt8.ofNat c.toNat) ++ percentDecode s := by
  induction ds with
  | nil => rfl
  | cons c ds ih =>
    obtain ⟨⟨d, hd, rfl⟩, hrest⟩ := List.forall_mem_cons.1 hds
    rw [List.cons_append, percentDecode_plain (upperDigit_ne_percent hd),
      scalarBytes_ascii (upperDigit_ascii hd), ih hrest]
    rfl

/-- A text encoded character by character decodes character by character. -/
theorem percentDecode_flatMap {f : Char → List Char} {bytes : Char → List UInt8} {cs : List Char}
    (h : ∀ c ∈ cs, ∀ s, percentDecode (f c ++ s) = bytes c ++ percentDecode s) :
    percentDecode (cs.flatMap f) = cs.flatMap bytes := by
  induction cs with
  | nil => rfl
  | cons c cs ih =>
    obtain ⟨hc, hrest⟩ := List.forall_mem_cons.1 h
    rw [List.flatMap_cons, hc, ih hrest, List.flatMap_cons]

/-! ### Text that is escaped -/

/-- Characters that are themselves, and escapes. -/
inductive Escaped (plain : Char → Bool) : List Char → Prop where
  | nil : Escaped plain []
  | plain {c : Char} {s : List Char} (hc : plain c = true) (hs : Escaped plain s) :
      Escaped plain (c :: s)
  | escape {b c : Char} {s : List Char} (hb : (hexValue b).isSome) (hc : (hexValue c).isSome)
      (hs : Escaped plain s) : Escaped plain ('%' :: b :: c :: s)

theorem Escaped.append {plain : Char → Bool} {s t : List Char} (hs : Escaped plain s)
    (ht : Escaped plain t) : Escaped plain (s ++ t) := by
  induction hs with
  | nil => exact ht
  | plain hc _ ih => exact .plain hc ih
  | escape hb hc _ ih => exact .escape hb hc ih

theorem Escaped.flatMap {plain : Char → Bool} {f : Char → List Char} {cs : List Char}
    (h : ∀ c ∈ cs, Escaped plain (f c)) : Escaped plain (cs.flatMap f) := by
  induction cs with
  | nil => exact .nil
  | cons c cs ih =>
    obtain ⟨hc, hrest⟩ := List.forall_mem_cons.1 h
    rw [List.flatMap_cons]
    exact hc.append (ih hrest)

theorem Escaped.of_plain {plain : Char → Bool} {s : List Char} (h : ∀ c ∈ s, plain c = true) :
    Escaped plain s := by
  induction s with
  | nil => exact .nil
  | cons c s ih =>
    obtain ⟨hc, hrest⟩ := List.forall_mem_cons.1 h
    exact .plain hc (ih hrest)

/-- What is not plain is not in it, hexadecimal digits and the sign apart. -/
theorem Escaped.notMem {plain : Char → Bool} {s : List Char} {a : Char} (hs : Escaped plain s)
    (hplain : plain a = false) (hhex : hexValue a = none) (ha : a ≠ '%') : a ∉ s := by
  induction hs with
  | nil => exact List.not_mem_nil
  | @plain c s hc _ ih =>
    have hne : a ≠ c := by
      rintro rfl
      rw [hplain] at hc
      cases hc
    exact List.not_mem_cons_of_ne_of_not_mem hne ih
  | @escape b c s hb hc _ ih =>
    have hne {d : Char} (hd : (hexValue d).isSome) : a ≠ d := by
      rintro rfl
      rw [hhex] at hd
      cases hd
    exact List.not_mem_cons_of_ne_of_not_mem ha (List.not_mem_cons_of_ne_of_not_mem (hne hb)
      (List.not_mem_cons_of_ne_of_not_mem (hne hc) ih))

theorem escaped_upperDigits {plain : Char → Bool} {m n : ℕ} (hm : m < 16) (hn : n < 16) :
    Escaped plain ['%', upperDigit m, upperDigit n] :=
  .escape (by rw [hexValue_upperDigit hm]; rfl) (by rw [hexValue_upperDigit hn]; rfl) .nil

theorem escaped_bytes {plain : Char → Bool} (bs : List UInt8) :
    Escaped plain (bs.flatMap escapeByte) := by
  induction bs with
  | nil => exact .nil
  | cons b bs ih =>
    have hb := b.toNat_lt
    rw [List.flatMap_cons]
    exact (escaped_upperDigits (by omega) (by omega)).append ih

end Atradio.Lib
