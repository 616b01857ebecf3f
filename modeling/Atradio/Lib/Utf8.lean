import Mathlib.Data.List.Basic

/-! # UTF-8 of strings that are UTF-16 code units

A string of JavaScript is a list of code units, surrogates in any order. `TextEncoder` writes U+FFFD
for a surrogate that stands alone; `TextDecoder` writes it for bytes that begin no character, and
leaves out a byte order mark at the start. -/

namespace Atradio.Lib

abbrev Units := List UInt16

/-! ### Encoding -/

def isHighSurrogate (u : UInt16) : Bool := 0xD800 ≤ u.toNat && u.toNat < 0xDC00

def isLowSurrogate (u : UInt16) : Bool := 0xDC00 ≤ u.toNat && u.toNat < 0xE000

/-- A code unit that is not half of a pair. -/
def unitScalar (u : UInt16) : ℕ :=
  if isHighSurrogate u || isLowSurrogate u then 0xFFFD else u.toNat

def pairScalar (u v : UInt16) : ℕ :=
  0x10000 + (u.toNat - 0xD800) * 0x400 + (v.toNat - 0xDC00)

/-- The scalar values of a string, U+FFFD for a lone surrogate. -/
def scalars : Units → List ℕ
  | [] => []
  | [u] => [unitScalar u]
  | u :: v :: us =>
    if isHighSurrogate u && isLowSurrogate v then pairScalar u v :: scalars us
    else unitScalar u :: scalars (v :: us)

/-- The UTF-8 bytes of a scalar value. -/
def scalarBytes (c : ℕ) : List UInt8 :=
  if c < 0x80 then [UInt8.ofNat c]
  else if c < 0x800 then [UInt8.ofNat (0xC0 + c / 64), UInt8.ofNat (0x80 + c % 64)]
  else if c < 0x10000 then
    [UInt8.ofNat (0xE0 + c / 4096), UInt8.ofNat (0x80 + c / 64 % 64), UInt8.ofNat (0x80 + c % 64)]
  else
    [UInt8.ofNat (0xF0 + c / 262144), UInt8.ofNat (0x80 + c / 4096 % 64),
      UInt8.ofNat (0x80 + c / 64 % 64), UInt8.ofNat (0x80 + c % 64)]

/-- `new TextEncoder().encode(s)` -/
def encode (s : Units) : List UInt8 := (scalars s).flatMap scalarBytes

/-! ### Decoding -/

/-- A character begun: the bytes it still wants, the bounds of the next one, and the bits so far. -/
structure Begun where
  needed : ℕ
  lower : ℕ := 0x80
  upper : ℕ := 0xBF
  point : ℕ

/-- A byte where a character begins: what it is by itself, or what it begins. -/
def leadByte (b : UInt8) : List ℕ × Option Begun :=
  let n := b.toNat
  if n < 0x80 then ([n], none)
  else if 0xC2 ≤ n && n ≤ 0xDF then ([], some { needed := 1, point := n - 0xC0 })
  else if n = 0xE0 then ([], some { needed := 2, lower := 0xA0, point := 0 })
  else if n = 0xED then ([], some { needed := 2, upper := 0x9F, point := 0xD })
  else if 0xE1 ≤ n && n ≤ 0xEF then ([], some { needed := 2, point := n - 0xE0 })
  else if n = 0xF0 then ([], some { needed := 3, lower := 0x90, point := 0 })
  else if n = 0xF4 then ([], some { needed := 3, upper := 0x8F, point := 4 })
  else if 0xF1 ≤ n && n ≤ 0xF3 then ([], some { needed := 3, point := n - 0xF0 })
  else ([0xFFFD], none)

def decodeFrom : Option Begun → List UInt8 → List ℕ
  | none, [] => []
  | some _, [] => [0xFFFD]
  | none, b :: bs => (leadByte b).1 ++ decodeFrom (leadByte b).2 bs
  | some p, b :: bs =>
    if p.lower ≤ b.toNat && b.toNat ≤ p.upper then
      let point := p.point * 64 + b.toNat % 64
      if p.needed = 1 then point :: decodeFrom none bs
      else decodeFrom (some { needed := p.needed - 1, point }) bs
    else 0xFFFD :: (leadByte b).1 ++ decodeFrom (leadByte b).2 bs

def scalarUnits (c : ℕ) : Units :=
  if c < 0x10000 then [UInt16.ofNat c]
  else [UInt16.ofNat (0xD800 + (c - 0x10000) / 0x400), UInt16.ofNat (0xDC00 + (c - 0x10000) % 0x400)]

def withoutMark : List UInt8 → List UInt8
  | 0xEF :: 0xBB :: 0xBF :: bs => bs
  | bs => bs

/-- `new TextDecoder().decode(bytes)` -/
def decode (bytes : List UInt8) : Units :=
  (decodeFrom none (withoutMark bytes)).flatMap scalarUnits

/-! ### ASCII -/

def isAscii (u : UInt16) : Bool := u.toNat < 0x80

theorem not_surrogate {u : UInt16} (hu : isAscii u = true) :
    isHighSurrogate u = false ∧ isLowSurrogate u = false := by
  have hlt : u.toNat < 0x80 := of_decide_eq_true hu
  unfold isHighSurrogate isLowSurrogate
  simp only [Bool.and_eq_false_iff, decide_eq_false_iff_not]
  omega

theorem unitScalar_ascii {u : UInt16} (hu : isAscii u = true) : unitScalar u = u.toNat := by
  rw [unitScalar, (not_surrogate hu).1, (not_surrogate hu).2]
  rfl

theorem scalars_ascii {u : UInt16} (hu : isAscii u = true) (us : Units) :
    scalars (u :: us) = u.toNat :: scalars us := by
  cases us with
  | nil => exact congrArg (fun n => [n]) (unitScalar_ascii hu)
  | cons v us =>
    rw [scalars, (not_surrogate hu).1, Bool.false_and, if_neg Bool.false_ne_true,
      unitScalar_ascii hu]

/-- A string may be cut before a character of one byte: it ends no surrogate pair. -/
theorem scalars_append {u : UInt16} (hu : isAscii u = true) (s us : Units) :
    scalars (s ++ u :: us) = scalars s ++ scalars (u :: us) := by
  fun_induction scalars s with
  | case1 => rfl
  | case2 v =>
    rw [List.singleton_append, scalars.eq_3, (not_surrogate hu).2, Bool.and_false,
      if_neg Bool.false_ne_true]
    rfl
  | case3 v w vs hpair ih =>
    rw [List.cons_append, List.cons_append, scalars, if_pos hpair, ih, List.cons_append]
  | case4 v w vs hpair ih =>
    rw [List.cons_append, List.cons_append, scalars, if_neg hpair, List.cons_append]
    rw [List.cons_append] at ih
    rw [ih]

theorem encode_append {u : UInt16} (hu : isAscii u = true) (s us : Units) :
    encode (s ++ u :: us) = encode s ++ encode (u :: us) := by
  unfold encode
  rw [scalars_append hu, List.flatMap_append]

def asciiBytes (s : Units) : List UInt8 := s.map fun u => UInt8.ofNat u.toNat

theorem encode_ascii {s : Units} (h : ∀ u ∈ s, isAscii u = true) (us : Units) :
    encode (s ++ us) = asciiBytes s ++ encode us := by
  induction s with
  | nil => rfl
  | cons u s ih =>
    have hu := h u (List.mem_cons_self ..)
    have hrest := ih fun v hv => h v (List.mem_cons_of_mem u hv)
    unfold encode at hrest ⊢
    rw [List.cons_append, scalars_ascii hu, List.flatMap_cons, hrest, scalarBytes,
      if_pos (of_decide_eq_true hu)]
    rfl

theorem decodeFrom_ascii {s : Units} (h : ∀ u ∈ s, isAscii u = true) :
    decodeFrom none (asciiBytes s) = s.map fun u => u.toNat := by
  induction s with
  | nil => rfl
  | cons u s ih =>
    have hlt : u.toNat < 0x80 := of_decide_eq_true (h u (List.mem_cons_self ..))
    have hbyte : (UInt8.ofNat u.toNat).toNat = u.toNat := by
      rw [UInt8.toNat_ofNat']
      omega
    have hlead : leadByte (UInt8.ofNat u.toNat) = ([u.toNat], none) := by
      simp only [leadByte, hbyte, if_pos hlt]
    rw [asciiBytes, List.map_cons, decodeFrom, hlead, ← asciiBytes,
      ih fun v hv => h v (List.mem_cons_of_mem u hv)]
    rfl

theorem decode_ascii {s : Units} (h : ∀ u ∈ s, isAscii u = true) : decode (asciiBytes s) = s := by
  have hmark : withoutMark (asciiBytes s) = asciiBytes s := by
    cases s with
    | nil => rfl
    | cons u s =>
      have hlt : u.toNat < 0x80 := of_decide_eq_true (h u (List.mem_cons_self ..))
      unfold withoutMark
      split
      · rename_i hbytes
        rw [asciiBytes, List.map_cons] at hbytes
        have hhead := congrArg UInt8.toNat (List.cons.inj hbytes).1
        rw [UInt8.toNat_ofNat'] at hhead
        have hmark : (0xEF : UInt8).toNat = 0xEF := rfl
        omega
      · rfl
  unfold decode
  rw [hmark, decodeFrom_ascii h, List.flatMap_map]
  have hone : ∀ u ∈ s, scalarUnits u.toNat = [u] := by
    intro u hu
    have hlt : u.toNat < 0x80 := of_decide_eq_true (h u hu)
    rw [scalarUnits, if_pos (by omega), UInt16.ofNat_toNat]
  rw [List.flatMap_congr hone, List.flatMap_singleton']

end Atradio.Lib
