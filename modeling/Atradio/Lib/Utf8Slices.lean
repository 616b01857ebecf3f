import Mathlib.Data.List.Count
import Mathlib.Tactic.IntervalCases
import Atradio.Lib.Utf8

/-! # Slices of UTF-8 decoded one by one

The bytes of a string are cut into slices and each slice is decoded by itself. The scalar values
come back exactly if every slice begins where a character does, and none with a byte order mark: a
cut character is read as U+FFFD at least twice, and a mark is left out. -/

namespace Atradio.Lib

def IsScalar (c : ℕ) : Prop := c < 0xD800 ∨ 0xE000 ≤ c ∧ c < 0x110000

def isContinuation (b : UInt8) : Bool := 0x80 ≤ b.toNat && b.toNat < 0xC0

def utf8 (cs : List ℕ) : List UInt8 := cs.flatMap scalarBytes

/-! ### One character -/

/-- The bytes that complete the character `c` once `p` has been read. -/
inductive Completes (c : ℕ) : Begun → List UInt8 → Prop where
  | last {p : Begun} {b : UInt8} (hb : isContinuation b = true)
      (h : ∀ s, decodeFrom (some p) (b :: s) = c :: decodeFrom none s) : Completes c p [b]
  | more {p q : Begun} {b : UInt8} {bs : List UInt8} (hb : isContinuation b = true)
      (h : ∀ s, decodeFrom (some p) (b :: s) = decodeFrom (some q) s) (hrest : Completes c q bs) :
      Completes c p (b :: bs)

section Completing

variable {c : ℕ} {p : Begun} {bs : List UInt8}

theorem Completes.decode (h : Completes c p bs) (s : List UInt8) :
    decodeFrom (some p) (bs ++ s) = c :: decodeFrom none s := by
  induction h with
  | last hb h => exact h s
  | more hb h hrest ih =>
    rw [List.cons_append, h]
    exact ih

theorem Completes.continuation (h : Completes c p bs) : ∀ b ∈ bs, isContinuation b = true := by
  induction h with
  | last hb h => simpa using hb
  | more hb h hrest ih => exact List.forall_mem_cons.2 ⟨hb, ih⟩

/-- A character that breaks off is read as U+FFFD. -/
theorem Completes.cut (h : Completes c p bs) {front back : List UInt8} (hbs : bs = front ++ back)
    (hback : back ≠ []) : decodeFrom (some p) front = [0xFFFD] := by
  induction h generalizing front with
  | last hb h =>
    cases front with
    | nil => rfl
    | cons x front =>
      have hnil := (List.append_eq_nil_iff.1 (List.cons.inj hbs).2.symm).2
      exact absurd hnil hback
  | more hb h hrest ih =>
    cases front with
    | nil => rfl
    | cons x front =>
      obtain ⟨rfl, hrest'⟩ := List.cons.inj hbs
      rw [h]
      exact ih hrest'

end Completing

theorem toNat_byte {n : ℕ} (h : n < 256) : (UInt8.ofNat n).toNat = n := by
  rw [UInt8.toNat_ofNat']
  exact Nat.mod_eq_of_lt h

theorem isContinuation_tail {x : ℕ} (hx : x < 64) :
    isContinuation (UInt8.ofNat (0x80 + x)) = true := by
  rw [isContinuation, toNat_byte (by omega)]
  simp only [Bool.and_eq_true, decide_eq_true_eq]
  omega

theorem decodeFrom_tail {p : Begun} {x : ℕ} (hx : x < 64) (hlower : p.lower ≤ 0x80 + x)
    (hupper : 0x80 + x ≤ p.upper) (s : List UInt8) :
    decodeFrom (some p) (UInt8.ofNat (0x80 + x) :: s) =
      if p.needed = 1 then (p.point * 64 + x) :: decodeFrom none s
      else decodeFrom (some { needed := p.needed - 1, point := p.point * 64 + x }) s := by
  have hmod : (0x80 + x) % 64 = x := by omega
  have hin : (p.lower ≤ 0x80 + x && 0x80 + x ≤ p.upper) = true := by simp [hlower, hupper]
  rw [decodeFrom, toNat_byte (by omega), if_pos hin, hmod]

theorem completes_one {c : ℕ} {p : Begun} {x : ℕ} (hneeded : p.needed = 1) (hx : x < 64)
    (hlower : p.lower ≤ 0x80 + x) (hupper : 0x80 + x ≤ p.upper) (hpoint : p.point * 64 + x = c) :
    Completes c p [UInt8.ofNat (0x80 + x)] := by
  refine .last (isContinuation_tail hx) fun s => ?_
  rw [decodeFrom_tail hx hlower hupper, if_pos hneeded, hpoint]

theorem completes_more {c n : ℕ} {p : Begun} {x : ℕ} {bs : List UInt8} (hneeded : p.needed = n + 2)
    (hx : x < 64) (hlower : p.lower ≤ 0x80 + x) (hupper : 0x80 + x ≤ p.upper)
    (hrest : Completes c { needed := n + 1, point := p.point * 64 + x } bs) :
    Completes c p (UInt8.ofNat (0x80 + x) :: bs) := by
  refine .more (isContinuation_tail hx) (fun s => ?_) hrest
  have hne : p.needed ≠ 1 := by omega
  have hnext : p.needed - 1 = n + 1 := by omega
  rw [decodeFrom_tail hx hlower hupper, if_neg hne, hnext]

theorem leadByte_two {k : ℕ} (hlow : 2 ≤ k) (hhigh : k < 32) :
    leadByte (UInt8.ofNat (0xC0 + k)) = ([], some { needed := 1, point := k }) := by
  interval_cases k <;> rfl

theorem leadByte_three {k : ℕ} (hk : k < 16) : leadByte (UInt8.ofNat (0xE0 + k)) =
    ([], some { needed := 2, lower := if k = 0 then 0xA0 else 0x80
                upper := if k = 13 then 0x9F else 0xBF, point := k }) := by
  interval_cases k <;> rfl

theorem leadByte_four {k : ℕ} (hk : k < 5) : leadByte (UInt8.ofNat (0xF0 + k)) =
    ([], some { needed := 3, lower := if k = 0 then 0x90 else 0x80
                upper := if k = 4 then 0x8F else 0xBF, point := k }) := by
  interval_cases k <;> rfl

theorem decodeFrom_lead {b : UInt8} {p : Begun} (h : leadByte b = ([], some p)) (s : List UInt8) :
    decodeFrom none (b :: s) = decodeFrom (some p) s := by
  rw [decodeFrom, h]
  rfl

structure Reads (c : ℕ) (b : UInt8) (bs : List UInt8) : Prop where
  bytes : scalarBytes c = b :: bs
  lead : isContinuation b = false
  steps : (bs = [] ∧ ∀ s, decodeFrom none (b :: s) = c :: decodeFrom none s) ∨
    ∃ p, (∀ s, decodeFrom none (b :: s) = decodeFrom (some p) s) ∧ Completes c p bs

theorem isContinuation_lead {n : ℕ} (h : n < 256) (hout : n < 0x80 ∨ 0xC0 ≤ n) :
    isContinuation (UInt8.ofNat n) = false := by
  rw [isContinuation, toNat_byte h, Bool.and_eq_false_iff]
  simp only [decide_eq_false_iff_not]
  omega

theorem exists_reads {c : ℕ} (hc : IsScalar c) : ∃ b bs, Reads c b bs := by
  have hrange : c < 0x110000 := by
    rcases hc with h | h <;> omega
  by_cases hone : c < 0x80
  · refine ⟨UInt8.ofNat c, [], ?_, isContinuation_lead (by omega) (by omega),
      Or.inl ⟨rfl, fun s => ?_⟩⟩
    · rw [scalarBytes, if_pos hone]
    · have hlead : leadByte (UInt8.ofNat c) = ([c], none) := by
        simp only [leadByte, toNat_byte (show c < 256 by omega), if_pos hone]
      rw [decodeFrom, hlead]
      rfl
  by_cases htwo : c < 0x800
  · have hlead := leadByte_two (k := c / 64) (by omega) (by omega)
    refine ⟨UInt8.ofNat (0xC0 + c / 64), [UInt8.ofNat (0x80 + c % 64)], ?_,
      isContinuation_lead (by omega) (by omega), Or.inr ⟨_, decodeFrom_lead hlead, ?_⟩⟩
    · rw [scalarBytes, if_neg hone, if_pos htwo]
    · exact completes_one rfl (by omega) (by simp only; omega) (by simp only; omega)
        (Nat.div_add_mod' c 64)
  by_cases hthree : c < 0x10000
  · have hlead := leadByte_three (k := c / 4096) (by omega)
    have hbounds : (if c / 4096 = 0 then 0xA0 else 0x80) ≤ 0x80 + c / 64 % 64 ∧
        0x80 + c / 64 % 64 ≤ if c / 4096 = 13 then 0x9F else 0xBF := by
      unfold IsScalar at hc
      constructor <;> split <;> omega
    refine ⟨UInt8.ofNat (0xE0 + c / 4096),
      [UInt8.ofNat (0x80 + c / 64 % 64), UInt8.ofNat (0x80 + c % 64)], ?_,
      isContinuation_lead (by omega) (by omega), Or.inr ⟨_, decodeFrom_lead hlead, ?_⟩⟩
    · rw [scalarBytes, if_neg hone, if_neg htwo, if_pos hthree]
    · refine completes_more (n := 0) rfl (by omega) hbounds.1 hbounds.2 ?_
      exact completes_one rfl (by omega) (by simp only; omega) (by simp only; omega)
        (by simp only; omega)
  · have hlead := leadByte_four (k := c / 262144) (by omega)
    have hbounds : (if c / 262144 = 0 then 0x90 else 0x80) ≤ 0x80 + c / 4096 % 64 ∧
        0x80 + c / 4096 % 64 ≤ if c / 262144 = 4 then 0x8F else 0xBF := by
      constructor <;> split <;> omega
    refine ⟨UInt8.ofNat (0xF0 + c / 262144), [UInt8.ofNat (0x80 + c / 4096 % 64),
      UInt8.ofNat (0x80 + c / 64 % 64), UInt8.ofNat (0x80 + c % 64)], ?_,
      isContinuation_lead (by omega) (by omega), Or.inr ⟨_, decodeFrom_lead hlead, ?_⟩⟩
    · rw [scalarBytes, if_neg hone, if_neg htwo, if_neg hthree]
    · refine completes_more (n := 1) rfl (by omega) hbounds.1 hbounds.2 ?_
      refine completes_more (n := 0) rfl (by omega) (by simp only; omega) (by simp only; omega) ?_
      exact completes_one rfl (by omega) (by simp only; omega) (by simp only; omega)
        (by simp only; omega)

section Character

variable {c : ℕ} (hc : IsScalar c)

include hc

theorem decodeFrom_character (s : List UInt8) :
    decodeFrom none (scalarBytes c ++ s) = c :: decodeFrom none s := by
  obtain ⟨b, bs, hreads⟩ := exists_reads hc
  rw [hreads.bytes, List.cons_append]
  rcases hreads.steps with ⟨rfl, hone⟩ | ⟨p, hbegun, hcompletes⟩
  · exact hone s
  · rw [hbegun]
    exact hcompletes.decode s

theorem decodeFrom_cut {front back : List UInt8} (hcut : scalarBytes c = front ++ back)
    (hfront : front ≠ []) (hback : back ≠ []) :
    decodeFrom none front = [0xFFFD] ∧ ∀ b ∈ back, isContinuation b = true := by
  obtain ⟨b, bs, hreads⟩ := exists_reads hc
  rw [hreads.bytes] at hcut
  cases front with
  | nil => exact absurd rfl hfront
  | cons x front =>
    obtain ⟨rfl, hbs⟩ := List.cons.inj hcut
    rcases hreads.steps with ⟨rfl, -⟩ | ⟨p, hbegun, hcompletes⟩
    · exact absurd (List.append_eq_nil_iff.1 hbs.symm).2 hback
    · refine ⟨?_, fun y hy => hcompletes.continuation y ?_⟩
      · rw [hbegun]
        exact hcompletes.cut hbs hback
      · rw [hbs]
        exact List.mem_append_right front hy

end Character

/-- Where no character begins. -/
theorem decodeFrom_continuation {bs : List UInt8} (hbs : ∀ b ∈ bs, isContinuation b = true)
    (s : List UInt8) :
    decodeFrom none (bs ++ s) = List.replicate bs.length 0xFFFD ++ decodeFrom none s := by
  induction bs with
  | nil => rfl
  | cons b bs ih =>
    obtain ⟨hb, hrest⟩ := List.forall_mem_cons.1 hbs
    have hlead : leadByte b = ([0xFFFD], none) := by
      simp only [isContinuation, Bool.and_eq_true, decide_eq_true_eq] at hb
      unfold leadByte
      dsimp only
      rw [if_neg (by omega), if_neg (by simp; omega), if_neg (by omega), if_neg (by omega),
        if_neg (by simp; omega), if_neg (by omega), if_neg (by omega), if_neg (by simp; omega)]
    rw [List.cons_append, decodeFrom, hlead, ih hrest]
    rfl

/-! ### Slices -/

theorem decodeFrom_utf8 {cs : List ℕ} (hcs : ∀ c ∈ cs, IsScalar c) (s : List UInt8) :
    decodeFrom none (utf8 cs ++ s) = cs ++ decodeFrom none s := by
  induction cs with
  | nil => rfl
  | cons c cs ih =>
    obtain ⟨hc, hrest⟩ := List.forall_mem_cons.1 hcs
    have hutf8 : utf8 (c :: cs) = scalarBytes c ++ utf8 cs := List.flatMap_cons
    rw [hutf8, List.append_assoc, decodeFrom_character hc, ih hrest]
    rfl

theorem scalarBytes_ne_nil (c : ℕ) : scalarBytes c ≠ [] := by
  unfold scalarBytes
  split
  · exact List.cons_ne_nil _ _
  split
  · exact List.cons_ne_nil _ _
  split <;> exact List.cons_ne_nil _ _

/-- A cut between two characters, or within one. -/
theorem utf8_cut {cs : List ℕ} {front back : List UInt8} (h : utf8 cs = front ++ back) :
    (∃ ds es, cs = ds ++ es ∧ front = utf8 ds ∧ back = utf8 es) ∨
      ∃ ds c es f b, cs = ds ++ c :: es ∧ scalarBytes c = f ++ b ∧ f ≠ [] ∧ b ≠ [] ∧
        front = utf8 ds ++ f ∧ back = b ++ utf8 es := by
  induction cs generalizing front with
  | nil =>
    obtain ⟨rfl, rfl⟩ := List.append_eq_nil_iff.1 h.symm
    exact Or.inl ⟨[], [], rfl, rfl, rfl⟩
  | cons c cs ih =>
    have hutf8 : utf8 (c :: cs) = scalarBytes c ++ utf8 cs := List.flatMap_cons
    rw [hutf8, List.append_eq_append_iff] at h
    rcases h with ⟨later, rfl, hlater⟩ | ⟨b, hb, rfl⟩
    · rcases ih hlater with ⟨ds, es, rfl, rfl, rfl⟩ | ⟨ds, d, es, f, b, rfl, hd, hf, hb, rfl, rfl⟩
      · exact Or.inl ⟨c :: ds, es, rfl, List.flatMap_cons.symm, rfl⟩
      · refine Or.inr ⟨c :: ds, d, es, f, b, rfl, hd, hf, hb, ?_, rfl⟩
        rw [← List.append_assoc]
        exact congrArg (· ++ f) List.flatMap_cons.symm
    · by_cases hfront : front = []
      · subst hfront
        exact Or.inl ⟨[], c :: cs, rfl, rfl, by rw [hutf8, hb, List.nil_append]⟩
      · by_cases hnil : b = []
        · subst hnil
          rw [List.append_nil] at hb
          refine Or.inl ⟨[c], cs, rfl, ?_, rfl⟩
          rw [← hb]
          exact (List.flatMap_singleton ..).symm
        · exact Or.inr ⟨[], c, cs, front, b, rfl, hb, hfront, hnil, rfl, rfl⟩

/-! ### ASCII in it -/

theorem scalarBytes_ascii {c : ℕ} (hc : c < 0x80) : scalarBytes c = [UInt8.ofNat c] := if_pos hc

theorem scalarBytes_high {c : ℕ} (hc : c < 0x110000) (hhigh : 0x80 ≤ c) :
    ∀ b ∈ scalarBytes c, 0x80 ≤ b.toNat := by
  have hbyte {n : ℕ} (hlow : 0x80 ≤ n) (hn : n < 256) : 0x80 ≤ (UInt8.ofNat n).toNat := by
    rwa [toNat_byte hn]
  have htail (n : ℕ) : 0x80 ≤ (UInt8.ofNat (0x80 + n % 64)).toNat := hbyte (by omega) (by omega)
  unfold scalarBytes
  rw [if_neg (by omega)]
  split
  · simp only [List.forall_mem_cons]
    exact ⟨hbyte (by omega) (by omega), htail _, by simp⟩
  split
  · simp only [List.forall_mem_cons]
    exact ⟨hbyte (by omega) (by omega), htail _, htail _, by simp⟩
  · simp only [List.forall_mem_cons]
    exact ⟨hbyte (by omega) (by omega), htail _, htail _, htail _, by simp⟩

section Ascii

variable {w cs : List ℕ} (hw : ∀ a ∈ w, a < 0x80) (hcs : ∀ c ∈ cs, c < 0x110000)

include hw hcs

theorem prefix_of_utf8 (h : w.map UInt8.ofNat <+: utf8 cs) : w <+: cs := by
  induction w generalizing cs with
  | nil => exact List.nil_prefix ..
  | cons a w ih =>
    cases cs with
    | nil => cases List.prefix_nil.1 h
    | cons c cs =>
      have ha := hw a (List.mem_cons_self ..)
      have hc := hcs c (List.mem_cons_self ..)
      have hutf8 : utf8 (c :: cs) = scalarBytes c ++ utf8 cs := List.flatMap_cons
      rw [hutf8, List.map_cons] at h
      by_cases hlow : c < 0x80
      · rw [scalarBytes_ascii hlow, List.singleton_append, List.cons_prefix_cons] at h
        have hac := congrArg UInt8.toNat h.1
        rw [toNat_byte (by omega), toNat_byte (by omega)] at hac
        rw [hac, List.cons_prefix_cons]
        exact ⟨rfl, ih (fun b hb => hw b (List.mem_cons_of_mem a hb))
          (fun d hd => hcs d (List.mem_cons_of_mem c hd)) h.2⟩
      · obtain ⟨b, bs, hb⟩ := List.exists_cons_of_ne_nil (scalarBytes_ne_nil c)
        have hhigh := scalarBytes_high hc (Nat.not_lt.1 hlow) b (hb ▸ List.mem_cons_self ..)
        rw [hb, List.cons_append, List.cons_prefix_cons] at h
        rw [← h.1, toNat_byte (by omega)] at hhigh
        omega

/-- An ASCII word is in the bytes only where it is in the text. -/
theorem infix_of_utf8 (h : w.map UInt8.ofNat <:+: utf8 cs) : w <:+: cs := by
  cases w with
  | nil => exact List.nil_infix ..
  | cons a w =>
    have ha := hw a (List.mem_cons_self ..)
    have hskip {x s : List UInt8} (hx : ∀ b ∈ x, 0x80 ≤ b.toNat)
        (hin : (a :: w).map UInt8.ofNat <:+: x ++ s) : (a :: w).map UInt8.ofNat <:+: s := by
      induction x with
      | nil => exact hin
      | cons b x ih =>
        rcases List.infix_cons_iff.1 hin with hfirst | hlater
        · have hb := hx b (List.mem_cons_self ..)
          rw [← (List.cons_prefix_cons.1 hfirst).1, toNat_byte (by omega)] at hb
          omega
        · exact ih (fun d hd => hx d (List.mem_cons_of_mem b hd)) hlater
    induction cs with
    | nil => cases List.infix_nil.1 h
    | cons c cs ih =>
      have hutf8 : utf8 (c :: cs) = scalarBytes c ++ utf8 cs := List.flatMap_cons
      have hlater (hin : (a :: w).map UInt8.ofNat <:+: utf8 cs) : a :: w <:+: c :: cs :=
        List.infix_cons (ih (fun d hd => hcs d (List.mem_cons_of_mem c hd)) hin)
      by_cases hlow : c < 0x80
      · have hone : utf8 (c :: cs) = UInt8.ofNat c :: utf8 cs := by
          rw [hutf8, scalarBytes_ascii hlow]
          rfl
        rw [hone, List.infix_cons_iff, ← hone] at h
        rcases h with hfirst | hin
        · exact (prefix_of_utf8 hw hcs hfirst).isInfix
        · exact hlater hin
      · rw [hutf8] at h
        have hc := hcs c (List.mem_cons_self ..)
        exact hlater (hskip (scalarBytes_high hc (Nat.not_lt.1 hlow)) h)

end Ascii

/-! ### Bytes that need not be of characters -/

theorem decodeFrom_low {b : UInt8} (hb : b.toNat < 0x80) (s : List UInt8) :
    decodeFrom none (b :: s) = b.toNat :: decodeFrom none s := by
  have hlead : leadByte b = ([b.toNat], none) := if_pos hb
  rw [decodeFrom, hlead]
  rfl

theorem decodeFrom_lows {bs : List UInt8} (hbs : ∀ b ∈ bs, b.toNat < 0x80) (s : List UInt8) :
    decodeFrom none (bs ++ s) = bs.map UInt8.toNat ++ decodeFrom none s := by
  induction bs with
  | nil => rfl
  | cons b bs ih =>
    obtain ⟨hb, hrest⟩ := List.forall_mem_cons.1 hbs
    rw [List.cons_append, decodeFrom_low hb, ih hrest]
    rfl

/-- What is begun can only be a character from `U+0100` on. -/
structure Begun.Wide (p : Begun) : Prop where
  upper : p.upper ≤ 0xBF
  point : 4 ≤ p.point ∨ 2 ≤ p.needed ∧ (1 ≤ p.point ∨ 0x84 ≤ p.lower)

/-- A byte that is not ASCII begins nothing, or a character of two bytes, or a wide one. -/
theorem leadByte_cases {b : UInt8} (hb : 0x80 ≤ b.toNat) : leadByte b = ([0xFFFD], none) ∨
    ∃ p, leadByte b = ([], some p) ∧ 0x80 ≤ p.lower ∧ p.upper ≤ 0xBF ∧ (p.needed = 1 ∨ p.Wide) := by
  unfold leadByte
  dsimp only
  rw [if_neg (by omega)]
  split
  · exact Or.inr ⟨_, rfl, le_rfl, le_rfl, Or.inl rfl⟩
  split
  · exact Or.inr ⟨_, rfl, by decide, le_rfl, Or.inr ⟨le_rfl, by decide⟩⟩
  split
  · exact Or.inr ⟨_, rfl, le_rfl, by decide, Or.inr ⟨by decide, by decide⟩⟩
  split
  · rename_i hin
    rw [Bool.and_eq_true, decide_eq_true_eq, decide_eq_true_eq] at hin
    have hpoint : 1 ≤ b.toNat - 0xE0 := by omega
    exact Or.inr ⟨_, rfl, le_rfl, le_rfl, Or.inr ⟨le_rfl, Or.inr ⟨le_rfl, Or.inl hpoint⟩⟩⟩
  split
  · exact Or.inr ⟨_, rfl, by decide, le_rfl, Or.inr ⟨le_rfl, by decide⟩⟩
  split
  · exact Or.inr ⟨_, rfl, le_rfl, by decide, Or.inr ⟨by decide, by decide⟩⟩
  split
  · rename_i hin
    rw [Bool.and_eq_true, decide_eq_true_eq, decide_eq_true_eq] at hin
    have hpoint : 1 ≤ b.toNat - 0xF0 := by omega
    exact Or.inr ⟨_, rfl, le_rfl, le_rfl, Or.inr ⟨le_rfl, Or.inr ⟨Nat.le_succ 2, Or.inl hpoint⟩⟩⟩
  · exact Or.inl rfl

/-- A character breaks off before ASCII. -/
theorem decodeFrom_broken {b r : UInt8} (hb : 0x80 ≤ b.toNat) (hr : r.toNat < 0x80)
    (s : List UInt8) : decodeFrom none (b :: r :: s) = 0xFFFD :: decodeFrom none (r :: s) := by
  rcases leadByte_cases hb with hlead | ⟨p, hlead, hlower, -, -⟩
  · rw [decodeFrom, hlead]
    rfl
  · have hout : ¬ (decide (p.lower ≤ r.toNat) && decide (r.toNat ≤ p.upper)) = true := by
      rw [Bool.and_eq_true, decide_eq_true_eq]
      omega
    have hstep : decodeFrom (some p) (r :: s) =
        0xFFFD :: (leadByte r).1 ++ decodeFrom (leadByte r).2 s := by rw [decodeFrom, if_neg hout]
    rw [decodeFrom_lead hlead, hstep]
    rfl

theorem Begun.Wide.head {p : Begun} (hp : p.Wide) {s : List UInt8} {y : ℕ} {t : List ℕ}
    (h : decodeFrom (some p) s = y :: t) : 0x100 ≤ y := by
  induction s generalizing p with
  | nil =>
    have hy : 0xFFFD = y := (List.cons.inj h).1
    omega
  | cons b s ih =>
    rw [decodeFrom] at h
    split at h
    · rename_i hin
      rw [Bool.and_eq_true, decide_eq_true_eq, decide_eq_true_eq] at hin
      have hupper := hp.upper
      have hpoint := hp.point
      dsimp only at h
      split at h
      · have hy := (List.cons.inj h).1
        omega
      · refine ih ⟨le_rfl, Or.inl ?_⟩ h
        dsimp only
        omega
    · have hy := (List.cons.inj h).1
      omega

/-- A character between ASCII and `U+0100` is read from two bytes. -/
theorem two_of_decodeFrom {b : UInt8} (hb : 0x80 ≤ b.toNat) {s : List UInt8} {y : ℕ} {t : List ℕ}
    (h : decodeFrom none (b :: s) = y :: t) (hy : y < 0x100) :
    ∃ k s', s = k :: s' ∧ 0x80 ≤ k.toNat ∧ t = decodeFrom none s' := by
  rcases leadByte_cases hb with hlead | ⟨p, hlead, hlower, hupper, hshort | hwide⟩
  · rw [decodeFrom, hlead] at h
    have hreplaced : 0xFFFD = y := (List.cons.inj h).1
    omega
  · rw [decodeFrom_lead hlead] at h
    cases s with
    | nil =>
      have hreplaced : 0xFFFD = y := (List.cons.inj h).1
      omega
    | cons k s =>
      rw [decodeFrom] at h
      split at h
      · rename_i hin
        rw [Bool.and_eq_true, decide_eq_true_eq, decide_eq_true_eq] at hin
        exact ⟨k, s, rfl, by omega, (List.cons.inj h).2.symm⟩
      · have hreplaced := (List.cons.inj h).1
        omega
  · rw [decodeFrom_lead hlead] at h
    have hy' := hwide.head h
    omega

section Slices

variable {cs : List ℕ} {slices : List (List UInt8)}

theorem decodeFrom_whole (hcs : ∀ c ∈ cs, IsScalar c) : decodeFrom none (utf8 cs) = cs := by
  have hread := decodeFrom_utf8 hcs []
  rwa [List.append_nil, decodeFrom, List.append_nil] at hread

theorem utf8_eq_nil (h : utf8 cs = []) : cs = [] := by
  cases cs with
  | nil => rfl
  | cons c cs => exact absurd (List.append_eq_nil_iff.1 h).1 (scalarBytes_ne_nil c)

/-- A slice of `back`, the rest of a character, and of whole characters: it ends within `back`,
where a character does, or within a character. -/
theorem slice_cases {back s rest : List UInt8} (hback : ∀ b ∈ back, isContinuation b = true)
    (hcs : ∀ c ∈ cs, IsScalar c) (h : s ++ rest = back ++ utf8 cs) :
    (∃ later, back = s ++ later ∧ rest = later ++ utf8 cs ∧
      decodeFrom none s = List.replicate s.length 0xFFFD) ∨
    (∃ ds es, cs = ds ++ es ∧ s = back ++ utf8 ds ∧ rest = utf8 es ∧
      decodeFrom none s = List.replicate back.length 0xFFFD ++ ds) ∨
    ∃ ds c es b, cs = ds ++ c :: es ∧ b ≠ [] ∧ (∀ x ∈ b, isContinuation x = true) ∧
      rest = b ++ utf8 es ∧
      decodeFrom none s = List.replicate back.length 0xFFFD ++ (ds ++ [0xFFFD]) := by
  rw [List.append_eq_append_iff] at h
  rcases h with ⟨later, rfl, hrest⟩ | ⟨t, rfl, hrest⟩
  · have hread := decodeFrom_continuation (List.forall_mem_append.1 hback).1 []
    rw [List.append_nil, decodeFrom, List.append_nil] at hread
    exact Or.inl ⟨later, rfl, hrest, hread⟩
  · have hread := decodeFrom_continuation hback t
    rcases utf8_cut hrest with ⟨ds, es, rfl, rfl, hes⟩ |
      ⟨ds, c, es, f, b, rfl, hc, hf, hb, rfl, hes⟩
    · rw [decodeFrom_whole (List.forall_mem_append.1 hcs).1] at hread
      exact Or.inr (Or.inl ⟨ds, es, rfl, rfl, hes, hread⟩)
    · obtain ⟨hds, hces⟩ := List.forall_mem_append.1 hcs
      obtain ⟨hcut, hcontinued⟩ := decodeFrom_cut (List.forall_mem_cons.1 hces).1 hc hf hb
      rw [decodeFrom_utf8 hds, hcut] at hread
      exact Or.inr (Or.inr ⟨ds, c, es, b, rfl, hb, hcontinued, hes, hread⟩)

theorem slices_isScalar {back : List UInt8} (hback : ∀ b ∈ back, isContinuation b = true)
    (hcs : ∀ c ∈ cs, IsScalar c) (hslices : slices.flatten = back ++ utf8 cs) :
    ∀ c ∈ slices.flatMap (decodeFrom none), IsScalar c := by
  have hreplaced : ∀ n, ∀ c ∈ List.replicate n 0xFFFD, IsScalar c := by
    intro n c hc
    rw [List.eq_of_mem_replicate hc]
    exact Or.inr (by decide)
  induction slices generalizing back cs with
  | nil => exact List.forall_mem_nil _
  | cons s slices ih =>
    rw [List.flatMap_cons]
    rcases slice_cases hback hcs hslices with ⟨later, rfl, hrest, hread⟩ |
      ⟨ds, es, rfl, rfl, hrest, hread⟩ | ⟨ds, c, es, b, rfl, -, hcontinued, hrest, hread⟩
    · rw [hread]
      exact List.forall_mem_append.2
        ⟨hreplaced _, ih (List.forall_mem_append.1 hback).2 hcs hrest⟩
    · obtain ⟨hds, hes⟩ := List.forall_mem_append.1 hcs
      rw [hread]
      exact List.forall_mem_append.2
        ⟨List.forall_mem_append.2 ⟨hreplaced _, hds⟩, ih (List.forall_mem_nil _) hes hrest⟩
    · obtain ⟨hds, hces⟩ := List.forall_mem_append.1 hcs
      have hlast : ∀ c ∈ ds ++ [0xFFFD], IsScalar c :=
        List.forall_mem_append.2 ⟨hds, hreplaced 1⟩
      rw [hread]
      exact List.forall_mem_append.2 ⟨List.forall_mem_append.2 ⟨hreplaced _, hlast⟩,
        ih hcontinued (List.forall_mem_cons.1 hces).2 hrest⟩

/-- U+FFFD is read for every one in the slices and for the character that `back` breaks off, and
once more for each that is cut. -/
theorem count_replacements {back : List UInt8} (hback : ∀ b ∈ back, isContinuation b = true)
    (hcs : ∀ c ∈ cs, IsScalar c) (hne : ∀ s ∈ slices, s ≠ [])
    (hslices : slices.flatten = back ++ utf8 cs) :
    (cs.count 0xFFFD + if back = [] then 0 else 1) ≤
        (slices.flatMap (decodeFrom none)).count 0xFFFD ∧
      (back = [] → (slices.flatMap (decodeFrom none)).count 0xFFFD ≤ cs.count 0xFFFD →
        ∃ parts : List (List ℕ), slices = parts.map utf8 ∧ parts.flatten = cs) := by
  induction slices generalizing back cs with
  | nil =>
    obtain ⟨rfl, hnil⟩ := List.append_eq_nil_iff.1 hslices.symm
    obtain rfl := utf8_eq_nil hnil
    exact ⟨Nat.le_refl 0, fun _ _ => ⟨[], rfl, rfl⟩⟩
  | cons s slices ih =>
    obtain ⟨hs, hothers⟩ := List.forall_mem_cons.1 hne
    have hbroken : (if back = [] then 0 else 1) ≤ back.length := by
      cases back <;> simp
    rw [List.flatMap_cons, List.count_append]
    rcases slice_cases hback hcs hslices with ⟨later, rfl, hrest, hread⟩ |
      ⟨ds, es, rfl, rfl, hrest, hread⟩ | ⟨ds, c, es, b, rfl, hb, hcontinued, hrest, hread⟩
    · obtain ⟨hcount, -⟩ := ih (List.forall_mem_append.1 hback).2 hcs hothers hrest
      have hone : (if s ++ later = [] then 0 else 1) = 1 := if_neg (by simp [hs])
      have hpos := List.length_pos_iff.2 hs
      rw [hread, List.count_replicate_self, hone]
      exact ⟨by omega, fun hnil => absurd (List.append_eq_nil_iff.1 hnil).1 hs⟩
    · obtain ⟨hcount, hparts⟩ :=
        ih (List.forall_mem_nil _) (List.forall_mem_append.1 hcs).2 hothers hrest
      rw [if_pos rfl, Nat.add_zero] at hcount
      rw [hread, List.count_append, List.count_append, List.count_replicate_self]
      refine ⟨by omega, ?_⟩
      rintro rfl hle
      rw [List.length_nil] at hle
      obtain ⟨parts, rfl, rfl⟩ := hparts rfl (by omega)
      exact ⟨ds :: parts, rfl, rfl⟩
    · obtain ⟨-, hces⟩ := List.forall_mem_append.1 hcs
      obtain ⟨hcount, -⟩ := ih hcontinued (List.forall_mem_cons.1 hces).2 hothers hrest
      rw [if_neg hb] at hcount
      have hone : [c].count 0xFFFD ≤ 1 := List.count_le_length
      rw [hread, List.count_append, ← List.singleton_append, List.count_append, List.count_append,
        List.count_append, List.count_replicate_self, List.count_singleton_self]
      exact ⟨by omega, fun _ hle => by omega⟩

/-! ### Byte order marks -/

def mark : List UInt8 := [0xEF, 0xBB, 0xBF]

/-- The scalar values that a decoder reads of a slice. -/
def readSlice (s : List UInt8) : List ℕ := decodeFrom none (withoutMark s)

theorem decodeFrom_mark (s : List UInt8) :
    decodeFrom none (mark ++ s) = 0xFEFF :: decodeFrom none s := by
  have hmark : IsScalar 0xFEFF := Or.inr (by decide)
  exact decodeFrom_character hmark s

theorem withoutMark_of_not {s : List UInt8} (h : ¬ mark <+: s) : withoutMark s = s := by
  unfold withoutMark
  split
  · rename_i bs
    exact absurd ⟨bs, rfl⟩ h
  · rfl

theorem readSlice_cases (s : List UInt8) :
    (mark <+: s ∧ decodeFrom none s = 0xFEFF :: readSlice s) ∨
      ¬ mark <+: s ∧ readSlice s = decodeFrom none s := by
  by_cases h : mark <+: s
  · obtain ⟨t, rfl⟩ := h
    exact Or.inl ⟨⟨t, rfl⟩, decodeFrom_mark t⟩
  · exact Or.inr ⟨h, by rw [readSlice, withoutMark_of_not h]⟩

theorem count_readSlices (slices : List (List UInt8)) :
    (slices.flatMap readSlice).count 0xFFFD = (slices.flatMap (decodeFrom none)).count 0xFFFD := by
  rw [List.count_flatMap, List.count_flatMap]
  refine congrArg List.sum (List.map_congr_left fun s _ => ?_)
  rcases readSlice_cases s with ⟨-, hread⟩ | ⟨-, hread⟩
  · simp only [Function.comp_apply, hread]
    rfl
  · simp only [Function.comp_apply, hread]

theorem length_readSlice (hcs : ∀ c ∈ cs, IsScalar c) :
    (readSlice (utf8 cs)).length ≤ cs.length ∧
      (cs.length ≤ (readSlice (utf8 cs)).length → ¬ mark <+: utf8 cs) := by
  have hwhole := decodeFrom_whole hcs
  rcases readSlice_cases (utf8 cs) with ⟨hmark, hread⟩ | ⟨hmark, hread⟩
  · rw [hwhole] at hread
    have hlength := congrArg List.length hread
    rw [List.length_cons] at hlength
    exact ⟨by omega, fun hle => by omega⟩
  · rw [hread, hwhole]
    exact ⟨Nat.le_refl _, fun _ => hmark⟩

/-- Of whole characters, no mark is left out if none is missing. -/
theorem length_readSlices {parts : List (List ℕ)} (hparts : ∀ c ∈ parts.flatten, IsScalar c) :
    ((parts.map utf8).flatMap readSlice).length ≤ parts.flatten.length ∧
      (parts.flatten.length ≤ ((parts.map utf8).flatMap readSlice).length →
        ∀ p ∈ parts, ¬ mark <+: utf8 p) := by
  induction parts with
  | nil => exact ⟨Nat.le_refl 0, nofun⟩
  | cons p parts ih =>
    rw [List.flatten_cons, List.forall_mem_append] at hparts
    obtain ⟨hle, hnone⟩ := length_readSlice hparts.1
    obtain ⟨hrest, hothers⟩ := ih hparts.2
    rw [List.map_cons, List.flatMap_cons, List.flatten_cons, List.length_append, List.length_append]
    refine ⟨by omega, fun hlength => List.forall_mem_cons.2 ⟨hnone (by omega), hothers (by omega)⟩⟩

/-! ### Slices that lose nothing -/

/-- The slice begins with a character, and not with a byte order mark. -/
def BeginsCleanly (s : List UInt8) : Prop := s.head?.any isContinuation = false ∧ ¬ mark <+: s

theorem head_utf8 (hcs : ∀ c ∈ cs, IsScalar c) : (utf8 cs).head?.any isContinuation = false := by
  cases cs with
  | nil => rfl
  | cons c cs =>
    obtain ⟨b, bs, hreads⟩ := exists_reads (hcs c (List.mem_cons_self ..))
    have hutf8 : utf8 (c :: cs) = scalarBytes c ++ utf8 cs := List.flatMap_cons
    rw [hutf8, hreads.bytes]
    exact hreads.lead

theorem parts_of_heads (hcs : ∀ c ∈ cs, IsScalar c) (hne : ∀ s ∈ slices, s ≠ [])
    (hslices : slices.flatten = utf8 cs)
    (hheads : ∀ s ∈ slices, s.head?.any isContinuation = false) :
    ∃ parts : List (List ℕ), slices = parts.map utf8 ∧ parts.flatten = cs := by
  induction slices generalizing cs with
  | nil =>
    obtain rfl := utf8_eq_nil hslices.symm
    exact ⟨[], rfl, rfl⟩
  | cons s slices ih =>
    obtain ⟨-, hothers⟩ := List.forall_mem_cons.1 hne
    obtain ⟨-, hrest⟩ := List.forall_mem_cons.1 hheads
    rw [List.flatten_cons] at hslices
    rcases utf8_cut hslices.symm with ⟨ds, es, rfl, rfl, hes⟩ |
      ⟨ds, c, es, f, b, rfl, hc, hf, hb, rfl, hes⟩
    · obtain ⟨-, hes'⟩ := List.forall_mem_append.1 hcs
      obtain ⟨parts, rfl, rfl⟩ := ih hes' hothers hes hrest
      exact ⟨ds :: parts, rfl, rfl⟩
    · have hcontinued := (decodeFrom_cut (hcs c (by simp)) hc hf hb).2
      cases slices with
      | nil => exact absurd (List.append_eq_nil_iff.1 hes.symm).1 hb
      | cons t slices =>
        obtain ⟨x, b, rfl⟩ := List.exists_cons_of_ne_nil hb
        obtain ⟨y, t, rfl⟩ := List.exists_cons_of_ne_nil (hothers t (List.mem_cons_self ..))
        obtain ⟨rfl, -⟩ := List.cons.inj hes
        have hhead : isContinuation y = false := hrest (y :: t) (List.mem_cons_self ..)
        rw [hcontinued y (List.mem_cons_self ..)] at hhead
        cases hhead

theorem readSlices_iff (hcs : ∀ c ∈ cs, IsScalar c) (hne : ∀ s ∈ slices, s ≠ [])
    (hslices : slices.flatten = utf8 cs) :
    slices.flatMap readSlice = cs ↔ ∀ s ∈ slices, BeginsCleanly s := by
  have hflatten : slices.flatten = [] ++ utf8 cs := hslices
  obtain ⟨-, hparts⟩ := count_replacements (List.forall_mem_nil _) hcs hne hflatten
  constructor
  · intro hread
    have hcount : (slices.flatMap (decodeFrom none)).count 0xFFFD ≤ cs.count 0xFFFD := by
      rw [← count_readSlices, hread]
    obtain ⟨parts, rfl, rfl⟩ := hparts rfl hcount
    have hnone := (length_readSlices hcs).2 (by rw [hread])
    refine List.forall_mem_map.2 fun p hp => ⟨head_utf8 fun c hc => ?_, hnone p hp⟩
    exact hcs c (List.mem_flatten.2 ⟨p, hp, hc⟩)
  · intro hclean
    obtain ⟨parts, rfl, rfl⟩ := parts_of_heads hcs hne hslices fun s hs => (hclean s hs).1
    have hread : ∀ p ∈ parts, readSlice (utf8 p) = p := by
      intro p hp
      rw [readSlice, withoutMark_of_not (hclean _ (List.mem_map_of_mem hp)).2]
      exact decodeFrom_whole fun c hc => hcs c (List.mem_flatten.2 ⟨p, hp, hc⟩)
    rw [List.flatMap_map, List.flatMap_congr hread, List.flatMap_id']

end Slices

/-! ### Code units -/

def isPaired : Units → Bool
  | [] => true
  | [u] => !(isHighSurrogate u || isLowSurrogate u)
  | u :: v :: us =>
    if isHighSurrogate u && isLowSurrogate v then isPaired us
    else !(isHighSurrogate u || isLowSurrogate u) && isPaired (v :: us)

section Units

variable {u v : UInt16}

theorem isScalar_unit (u : UInt16) : IsScalar (unitScalar u) := by
  have hlt := u.toNat_lt
  unfold unitScalar IsScalar
  split
  · omega
  · rename_i h
    simp only [isHighSurrogate, isLowSurrogate, Bool.or_eq_true, Bool.and_eq_true,
      decide_eq_true_eq] at h
    omega

theorem pair_bounds (h : (isHighSurrogate u && isLowSurrogate v) = true) :
    0xD800 ≤ u.toNat ∧ u.toNat < 0xDC00 ∧ 0xDC00 ≤ v.toNat ∧ v.toNat < 0xE000 := by
  simp only [isHighSurrogate, isLowSurrogate, Bool.and_eq_true, decide_eq_true_eq] at h
  omega

theorem isScalar_pair (h : (isHighSurrogate u && isLowSurrogate v) = true) :
    IsScalar (pairScalar u v) := by
  have hbounds := pair_bounds h
  unfold pairScalar IsScalar
  omega

theorem scalarUnits_pair (h : (isHighSurrogate u && isLowSurrogate v) = true) :
    scalarUnits (pairScalar u v) = [u, v] := by
  have hbounds := pair_bounds h
  have hhigh : 0xD800 + (pairScalar u v - 0x10000) / 0x400 = u.toNat := by
    unfold pairScalar
    omega
  have hlow : 0xDC00 + (pairScalar u v - 0x10000) % 0x400 = v.toNat := by
    unfold pairScalar
    omega
  have hlarge : ¬ pairScalar u v < 0x10000 := by
    unfold pairScalar
    omega
  rw [scalarUnits, if_neg hlarge, hhigh, hlow, UInt16.ofNat_toNat, UInt16.ofNat_toNat]

theorem scalarUnits_unit (h : (isHighSurrogate u || isLowSurrogate u) = false) :
    scalarUnits (unitScalar u) = [u] := by
  have hlt : u.toNat < 0x10000 := u.toNat_lt
  rw [unitScalar, h, if_neg Bool.false_ne_true, scalarUnits, if_pos hlt, UInt16.ofNat_toNat]

theorem scalars_isScalar (s : Units) : ∀ c ∈ scalars s, IsScalar c := by
  fun_induction scalars s with
  | case1 => exact List.forall_mem_nil _
  | case2 u => simpa using isScalar_unit u
  | case3 u v us hpair ih => exact List.forall_mem_cons.2 ⟨isScalar_pair hpair, ih⟩
  | case4 u v us hpair ih => exact List.forall_mem_cons.2 ⟨isScalar_unit u, ih⟩

theorem units_of_paired {s : Units} (h : isPaired s = true) :
    (scalars s).flatMap scalarUnits = s := by
  fun_induction scalars s with
  | case1 => rfl
  | case2 u =>
    rw [List.flatMap_singleton]
    exact scalarUnits_unit (by simpa [isPaired] using h)
  | case3 u v us hpair ih =>
    rw [isPaired, if_pos hpair] at h
    rw [List.flatMap_cons, scalarUnits_pair hpair, ih h]
    rfl
  | case4 u v us hpair ih =>
    rw [isPaired, if_neg hpair, Bool.and_eq_true, Bool.not_eq_true'] at h
    rw [List.flatMap_cons, scalarUnits_unit h.1, ih h.2]
    rfl

theorem scalars_unit (h : (isHighSurrogate u || isLowSurrogate u) = false) (s : Units) :
    scalars (u :: s) = unitScalar u :: scalars s ∧ isPaired (u :: s) = isPaired s := by
  cases s with
  | nil => exact ⟨rfl, by simp [isPaired, h]⟩
  | cons v s =>
    have hhigh := (Bool.or_eq_false_iff.1 h).1
    rw [scalars, isPaired, h, hhigh, Bool.false_and, if_neg Bool.false_ne_true,
      if_neg Bool.false_ne_true]
    exact ⟨rfl, Bool.true_and _⟩

theorem pairScalar_eq {c : ℕ} (hc : 0x10000 ≤ c) (hu : u.toNat = 0xD800 + (c - 0x10000) / 0x400)
    (hv : v.toNat = 0xDC00 + (c - 0x10000) % 0x400) : pairScalar u v = c := by
  unfold pairScalar
  omega

theorem toNat_unit {n : ℕ} (h : n < 0x10000) : (UInt16.ofNat n).toNat = n := by
  rw [UInt16.toNat_ofNat']
  exact Nat.mod_eq_of_lt h

theorem scalars_of_units {cs : List ℕ} (hcs : ∀ c ∈ cs, IsScalar c) :
    scalars (cs.flatMap scalarUnits) = cs ∧ isPaired (cs.flatMap scalarUnits) = true := by
  induction cs with
  | nil => exact ⟨rfl, rfl⟩
  | cons c cs ih =>
    obtain ⟨hc, hrest⟩ := List.forall_mem_cons.1 hcs
    obtain ⟨hscalars, hpaired⟩ := ih hrest
    rw [List.flatMap_cons]
    by_cases hone : c < 0x10000
    · have hunit := toNat_unit hone
      have hsingle : (isHighSurrogate (UInt16.ofNat c) || isLowSurrogate (UInt16.ofNat c)) =
          false := by
        unfold IsScalar at hc
        simp only [isHighSurrogate, isLowSurrogate, hunit, Bool.or_eq_false_iff,
          Bool.and_eq_false_iff, decide_eq_false_iff_not]
        omega
      obtain ⟨hcons, hpairedCons⟩ := scalars_unit hsingle (cs.flatMap scalarUnits)
      rw [scalarUnits, if_pos hone, List.singleton_append, hcons, hpairedCons, hscalars, unitScalar,
        hsingle, if_neg Bool.false_ne_true, hunit]
      exact ⟨rfl, hpaired⟩
    · have hbounds : 0x10000 ≤ c ∧ c < 0x110000 := by
        unfold IsScalar at hc
        omega
      have hhigh := toNat_unit (n := 0xD800 + (c - 0x10000) / 0x400) (by omega)
      have hlow := toNat_unit (n := 0xDC00 + (c - 0x10000) % 0x400) (by omega)
      have hpair : (isHighSurrogate (UInt16.ofNat (0xD800 + (c - 0x10000) / 0x400)) &&
          isLowSurrogate (UInt16.ofNat (0xDC00 + (c - 0x10000) % 0x400))) = true := by
        simp only [isHighSurrogate, isLowSurrogate, hhigh, hlow, Bool.and_eq_true,
          decide_eq_true_eq]
        omega
      have hpoint : pairScalar (UInt16.ofNat (0xD800 + (c - 0x10000) / 0x400))
          (UInt16.ofNat (0xDC00 + (c - 0x10000) % 0x400)) = c :=
        pairScalar_eq hbounds.1 hhigh hlow
      rw [scalarUnits, if_neg hone, List.cons_append, List.singleton_append, scalars, if_pos hpair,
        isPaired, if_pos hpair, hpoint, hscalars]
      exact ⟨rfl, hpaired⟩

/-- Decoding the slices of a string one by one gives it back exactly if no surrogate stands alone
and every slice begins cleanly. -/
theorem decode_slices_iff (text : Units) {slices : List (List UInt8)} (hne : ∀ s ∈ slices, s ≠ [])
    (hslices : slices.flatten = encode text) :
    slices.flatMap decode = text ↔ isPaired text = true ∧ ∀ s ∈ slices, BeginsCleanly s := by
  have hscalars := scalars_isScalar text
  have hutf8 : slices.flatten = utf8 (scalars text) := hslices
  have hdecode : slices.flatMap decode = (slices.flatMap readSlice).flatMap scalarUnits := by
    rw [List.flatMap_assoc]
    rfl
  have hread : ∀ c ∈ slices.flatMap readSlice, IsScalar c := by
    have hflatten : slices.flatten = [] ++ utf8 (scalars text) := hslices
    have hall := slices_isScalar (List.forall_mem_nil _) hscalars hflatten
    intro c hc
    obtain ⟨s, hs, hcs⟩ := List.mem_flatMap.1 hc
    refine hall c (List.mem_flatMap.2 ⟨s, hs, ?_⟩)
    rcases readSlice_cases s with ⟨-, hmark⟩ | ⟨-, hsame⟩
    · rw [hmark]
      exact List.mem_cons_of_mem _ hcs
    · rwa [← hsame]
  rw [hdecode, ← readSlices_iff hscalars hne hutf8]
  constructor
  · intro htext
    obtain ⟨hback, hpaired⟩ := scalars_of_units hread
    rw [htext] at hback hpaired
    exact ⟨hpaired, hback.symm⟩
  · rintro ⟨hpaired, hback⟩
    rw [hback]
    exact units_of_paired hpaired

end Units

end Atradio.Lib
