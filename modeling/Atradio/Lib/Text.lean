import Mathlib.Data.List.DropRight
import Mathlib.Data.List.Infix
import Mathlib.Data.List.TakeWhile

/-! # Text

Strings as lists of characters: byte lengths and slices in UTF-8, trimming, lines, and lower case.
A string that is lower-cased is `Lowercase.apply` of one, where what becomes of the characters
that are not ASCII is a parameter; it is subject to the one law that of these only the Kelvin sign
and the dotted capital I have an ASCII letter in lower case. -/

namespace Atradio.Lib

/-- The letters of a word, one after another. -/
theorem forall_letters {P : Char → Prop} [DecidablePred P] {word : List Char}
    (h : (word.all fun c => P c) = true) : ∀ c ∈ word, P c := by
  intro c hc
  exact of_decide_eq_true (List.all_eq_true.1 h c hc)

/-! ### Bytes -/

def utf8Length : List Char → ℕ
  | [] => 0
  | c :: s => c.utf8Size + utf8Length s

/-- `s[n..]` on bytes, none where `n` is not on a boundary of characters, or behind the end. -/
def sliceFrom : List Char → ℕ → Option (List Char)
  | [], n => if n = 0 then some [] else none
  | c :: s, n =>
    if n = 0 then some (c :: s)
    else if n < c.utf8Size then none
    else sliceFrom s (n - c.utf8Size)

theorem utf8Length_append (x y : List Char) :
    utf8Length (x ++ y) = utf8Length x + utf8Length y := by
  induction x with
  | nil => rw [List.nil_append, utf8Length, Nat.zero_add]
  | cons c x ih => rw [List.cons_append, utf8Length, utf8Length, ih, Nat.add_assoc]

theorem sliceFrom_zero (s : List Char) : sliceFrom s 0 = some s := by
  cases s with
  | nil => rfl
  | cons c s => rw [sliceFrom, if_pos rfl]

theorem sliceFrom_append (x y : List Char) : sliceFrom (x ++ y) (utf8Length x) = some y := by
  induction x with
  | nil => exact sliceFrom_zero y
  | cons c x ih =>
    have hpos := c.utf8Size_pos
    rw [List.cons_append, sliceFrom, utf8Length, if_neg (by omega), if_neg (by omega),
      Nat.add_sub_cancel_left, ih]

theorem sliceFrom_eq_some {s y : List Char} {n : ℕ} (h : sliceFrom s n = some y) :
    ∃ x, s = x ++ y ∧ utf8Length x = n := by
  induction s generalizing n with
  | nil =>
    rw [sliceFrom] at h
    split at h
    · rename_i hn
      obtain rfl := Option.some.inj h
      exact ⟨[], rfl, hn.symm⟩
    · cases h
  | cons c s ih =>
    rw [sliceFrom] at h
    split at h
    · rename_i hn
      obtain rfl := Option.some.inj h
      exact ⟨[], rfl, hn.symm⟩
    · split at h
      · cases h
      · obtain ⟨x, rfl, hx⟩ := ih h
        refine ⟨c :: x, rfl, ?_⟩
        rw [utf8Length, hx]
        omega

/-- There is one place to cut a given rest off at. -/
theorem sliceFrom_iff (x y : List Char) (n : ℕ) :
    sliceFrom (x ++ y) n = some y ↔ n = utf8Length x := by
  constructor
  · intro h
    obtain ⟨x', heq, hn⟩ := sliceFrom_eq_some h
    rw [← hn, List.append_cancel_right heq]
  · rintro rfl
    exact sliceFrom_append x y

theorem utf8Length_ascii {x : List Char} (h : ∀ c ∈ x, c.toNat < 128) :
    utf8Length x = x.length := by
  induction x with
  | nil => rfl
  | cons c x ih =>
    have hc : c.toNat < 128 := h c (List.mem_cons_self ..)
    have hsize : c.utf8Size = 1 := by
      refine Char.utf8Size_eq_one_iff.2 ?_
      rw [UInt32.le_iff_toNat_le]
      exact Nat.le_of_lt_succ hc
    rw [utf8Length, hsize, ih fun d hd => h d (List.mem_cons_of_mem c hd), List.length_cons,
      Nat.add_comm]

/-! ### Trimming and lines -/

def trimOf (p : Char → Bool) (s : List Char) : List Char := (s.dropWhile p).rdropWhile p

/-- `split` at `\r?\n`. -/
def splitLines : List Char → List (List Char)
  | [] => [[]]
  | '\r' :: '\n' :: s => [] :: splitLines s
  | '\n' :: s => [] :: splitLines s
  | c :: s =>
    match splitLines s with
    | [] => [[c]]
    | l :: ls => (c :: l) :: ls

/-! ### Trimmed text -/

section Trimmed

variable {p : Char → Bool} {s : List Char}

theorem trimOf_congr {q : Char → Bool} (h : ∀ c ∈ s, p c = q c) : trimOf p s = trimOf q s := by
  have hdrop : ∀ {s : List Char}, (∀ c ∈ s, p c = q c) → s.dropWhile p = s.dropWhile q := by
    intro s hs
    induction s with
    | nil => rfl
    | cons c s ih =>
      rw [List.dropWhile_cons, List.dropWhile_cons, hs c (List.mem_cons_self ..),
        ih fun d hd => hs d (List.mem_cons_of_mem c hd)]
  rw [trimOf, trimOf, hdrop h, List.rdropWhile, List.rdropWhile, hdrop]
  intro c hc
  rw [List.mem_reverse] at hc
  exact h c ((List.dropWhile_sublist q).subset hc)

theorem trimOf_concat {p : Char → Bool} {c : Char} (hc : p c = true) (l : List Char) :
    trimOf p (l ++ [c]) = trimOf p l := by
  rw [trimOf, trimOf, List.dropWhile_append]
  split
  · rename_i hnil
    rw [List.isEmpty_iff.1 hnil]
    simp [hc]
  · exact List.rdropWhile_concat_pos p _ c hc

theorem trimOf_append {x y : List Char} (hx : ∀ c ∈ x, p c = true) (hy : ∀ c ∈ y, p c = true)
    (w : List Char) : trimOf p (x ++ (w ++ y)) = trimOf p w := by
  have hright : trimOf p (w ++ y) = trimOf p w := by
    induction y using List.reverseRecOn with
    | nil => rw [List.append_nil]
    | append_singleton y c ih =>
      rw [← List.append_assoc, trimOf_concat (hy c (by simp)),
        ih fun d hd => hy d (List.mem_append_left _ hd)]
  rw [← hright, trimOf, List.dropWhile_append_of_pos hx, trimOf]

theorem head_dropWhile {c : Char} (hc : c ∈ (s.dropWhile p).head?) : p c = false := by
  have hhead := List.head?_dropWhile_not p s
  rw [hc] at hhead
  simpa using hhead

theorem trimOf_eq_nil (h : ∀ c ∈ s, p c = true) : trimOf p s = [] :=
  (congrArg (trimOf p) (List.append_nil s).symm).trans
    (trimOf_append (x := s) (y := []) h (fun _ hc => absurd hc List.not_mem_nil) [])

/-- What comes behind a character that ends the run is not looked at. -/
theorem while_append (h : s.dropWhile p ≠ []) (u : List Char) :
    (s ++ u).takeWhile p = s.takeWhile p ∧ (s ++ u).dropWhile p = s.dropWhile p ++ u := by
  induction s with
  | nil => exact absurd rfl h
  | cons c s ih =>
    rw [List.cons_append, List.takeWhile_cons, List.takeWhile_cons, List.dropWhile_cons,
      List.dropWhile_cons]
    rw [List.dropWhile_cons] at h
    by_cases hc : p c = true
    · rw [if_pos hc] at h
      obtain ⟨htake, hdrop⟩ := ih h
      rw [if_pos hc, if_pos hc, if_pos hc, if_pos hc, htake, hdrop]
      exact ⟨rfl, rfl⟩
    · rw [if_neg hc, if_neg hc, if_neg hc, if_neg hc]
      exact ⟨rfl, rfl⟩

end Trimmed

/-! ### Lines of a text -/

section Lines

variable {l : List Char} {sep : Char}

theorem splitLines_cons {c : Char} (hc : c ≠ '\n') (h : c = '\r' → l.head? ≠ some '\n') :
    splitLines (c :: l) =
      match splitLines l with
      | [] => [[c]]
      | x :: ls => (c :: x) :: ls := by
  refine splitLines.eq_4 c l ?_ hc
  rintro s rfl rfl
  exact h rfl rfl

theorem splitLines_none (h : '\n' ∉ l) : splitLines l = [l] := by
  induction l with
  | nil => rfl
  | cons c l ih =>
    have hl : '\n' ∉ l := fun hmem => h (List.mem_cons_of_mem c hmem)
    have hc : c ≠ '\n' := fun heq => h (heq ▸ List.mem_cons_self ..)
    rw [splitLines_cons hc fun _ hhead => hl (List.mem_of_mem_head? hhead), ih hl]

theorem splitLines_newline (h : '\n' ∉ l) (r : List Char) :
    ∃ l', splitLines (l ++ '\n' :: r) = l' :: splitLines r ∧ (l = l' ∨ l = l' ++ ['\r']) := by
  induction l with
  | nil => exact ⟨[], rfl, Or.inl rfl⟩
  | cons c l ih =>
    have hl : '\n' ∉ l := fun hmem => h (List.mem_cons_of_mem c hmem)
    have hc : c ≠ '\n' := fun heq => h (heq ▸ List.mem_cons_self ..)
    by_cases hreturn : c = '\r' ∧ l = []
    · obtain ⟨rfl, rfl⟩ := hreturn
      exact ⟨[], rfl, Or.inr rfl⟩
    have hhead : c = '\r' → (l ++ '\n' :: r).head? ≠ some '\n' := by
      intro hcr hhead
      cases l with
      | nil => exact hreturn ⟨hcr, rfl⟩
      | cons d l => exact hl (List.mem_of_mem_head? hhead)
    obtain ⟨l', hsplit, hl'⟩ := ih hl
    refine ⟨c :: l', ?_, ?_⟩
    · rw [List.cons_append, splitLines_cons hc hhead, hsplit]
    · rcases hl' with rfl | rfl
      · exact Or.inl rfl
      · exact Or.inr rfl

/-- The last piece, and a piece before others. -/
theorem lines_induction (sep : Char) {P : List Char → Prop} (last : ∀ l, sep ∉ l → P l)
    (line : ∀ l r, sep ∉ l → P r → P (l ++ sep :: r)) (s : List Char) : P s := by
  induction hn : s.length using Nat.strong_induction_on generalizing s with
  | _ n ih =>
    by_cases hs : sep ∈ s
    · obtain ⟨l, r, rfl, hl⟩ := List.eq_append_cons_of_mem hs
      have hlen : r.length < n := by
        rw [← hn, List.length_append, List.length_cons]
        omega
      exact line l r hl (ih r.length hlen r rfl)
    · exact last s hs

theorem splitOn_last (h : sep ∉ l) : l.splitOn sep = [l] := by
  rw [List.splitOn_eq_splitOnP]
  exact List.splitOnP_eq_singleton fun c hc => by simpa using fun heq : c = sep => h (heq ▸ hc)

theorem splitOn_line (h : sep ∉ l) (r : List Char) :
    (l ++ sep :: r).splitOn sep = l :: r.splitOn sep := by
  rw [List.splitOn_eq_splitOnP, List.splitOnP_append_cons l r (by simp),
    ← List.splitOn_eq_splitOnP, splitOn_last h]
  rfl

/-- A return before a new line is taken off by the trimming too. -/
theorem splitLines_trimmed {p : Char → Bool} (hp : p '\r' = true) (s : List Char) :
    (splitLines s).map (trimOf p) = (s.splitOn '\n').map (trimOf p) := by
  induction s using lines_induction '\n' with
  | last l hl => rw [splitLines_none hl, splitOn_last hl]
  | line l r hl ih =>
    obtain ⟨l', hsplit, hl'⟩ := splitLines_newline hl r
    have hsame : trimOf p l' = trimOf p l := by
      rcases hl' with rfl | rfl
      · rfl
      · exact (trimOf_concat hp l').symm
    rw [hsplit, splitOn_line hl, List.map_cons, List.map_cons, ih, hsame]

/-- What stands between two separators is a piece. -/
theorem mem_splitOn {x y : List Char} (hl : sep ∉ l) (hx : ∀ c ∈ x.getLast?, c = sep)
    (hy : ∀ c ∈ y.head?, c = sep) : l ∈ (x ++ (l ++ y)).splitOn sep := by
  have hfirst : l ∈ (l ++ y).splitOn sep := by
    cases y with
    | nil => simp [splitOn_last hl]
    | cons c y =>
      obtain rfl := hy c rfl
      rw [splitOn_line hl]
      exact List.mem_cons_self ..
  rcases List.eq_nil_or_concat' x with rfl | ⟨x, c, rfl⟩
  · exact hfirst
  · obtain rfl : c = sep := hx c (by simp)
    rw [List.append_assoc, List.singleton_append, List.splitOn_eq_splitOnP,
      List.splitOnP_append_cons x _ (by simp)]
    exact List.mem_append_right _ hfirst

end Lines

/-! ### Lower case -/

/-- What a character that is not ASCII becomes, after and before the rest of the string. -/
structure Lowercase where
  beyond : List Char → Char → List Char → List Char
  ascii : ∀ before c after, 128 ≤ c.toNat →
    beyond before c after = ['k'] ∨ beyond before c after = ['i', Char.ofNat 0x307] ∨
    (beyond before c after ≠ [] ∧ ∀ d ∈ beyond before c after, 128 ≤ d.toNat)

def Lowercase.char (L : Lowercase) (before : List Char) (c : Char) (after : List Char) :
    List Char :=
  if c.toNat < 128 then [c.toLower] else L.beyond before c after

/-- The lower case of `s` where it stands between `before`, which is reversed, and `after`. -/
def Lowercase.apply (L : Lowercase) (before : List Char) : List Char → List Char → List Char
  | [], _ => []
  | c :: s, after => L.char before c (s ++ after) ++ L.apply (c :: before) s after

def Lowercase.lower (L : Lowercase) (s : List Char) : List Char := L.apply [] s []

theorem char_lt_cases {P : Char → Prop} (h : ∀ n : ℕ, n < 128 → P (Char.ofNat n)) {c : Char}
    (hc : c.toNat < 128) : P c := by
  have hn := h c.toNat hc
  rwa [Char.ofNat_toNat] at hn

theorem toLower_of_ge {c : Char} (h : 128 ≤ c.toNat) : c.toLower = c := by
  unfold Char.toLower
  split
  · rename_i hrange
    have hle : c.toNat ≤ 90 := hrange.2
    omega
  · rfl

theorem lt_of_toLower_lt {c : Char} (h : c.toLower.toNat < 128) : c.toNat < 128 := by
  by_contra hc
  rw [toLower_of_ge (Nat.not_lt.1 hc)] at h
  exact hc h

section Lowered

variable (L : Lowercase) {before s x y after word : List Char} {c d : Char}

theorem char_of_lt (h : c.toNat < 128) : L.char before c after = [c.toLower] := if_pos h

/-- An ASCII character comes from itself, up to case, or is a `k` or an `i`. -/
theorem mem_char (h : d ∈ L.char before c after) (hd : d.toNat < 128) (hk : d ≠ 'k')
    (hi : d ≠ 'i') :
    c.toNat < 128 ∧ c.toLower = d := by
  by_cases hc : c.toNat < 128
  · rw [char_of_lt L hc, List.mem_singleton] at h
    exact ⟨hc, h.symm⟩
  rw [Lowercase.char, if_neg hc] at h
  rcases L.ascii before c after (Nat.not_lt.1 hc) with heq | heq | ⟨_, hall⟩
  · rw [heq, List.mem_singleton] at h
    exact (hk h).elim
  · rw [heq, List.mem_cons, List.mem_singleton] at h
    rcases h with rfl | rfl
    · exact (hi rfl).elim
    · exact absurd hd (by decide)
  · exact absurd (hall d h) (Nat.not_le.2 hd)

theorem apply_append (before x y after : List Char) :
    L.apply before (x ++ y) after =
      L.apply before x (y ++ after) ++ L.apply (x.reverse ++ before) y after := by
  induction x generalizing before with
  | nil => rfl
  | cons c x ih =>
    rw [List.cons_append, Lowercase.apply, Lowercase.apply, ih, List.append_assoc,
      List.append_assoc, List.reverse_cons, List.append_assoc, List.singleton_append]

theorem apply_ascii (h : ∀ c ∈ s, c.toNat < 128) (before after : List Char) :
    L.apply before s after = s.map Char.toLower := by
  induction s generalizing before with
  | nil => rfl
  | cons c s ih =>
    rw [Lowercase.apply, char_of_lt L (h c (List.mem_cons_self ..)),
      ih fun d hd => h d (List.mem_cons_of_mem _ hd)]
    rfl

theorem mem_apply (h : d ∈ L.apply before s after) (hd : d.toNat < 128) (hk : d ≠ 'k')
    (hi : d ≠ 'i') : ∃ c ∈ s, c.toLower = d := by
  induction s generalizing before with
  | nil => cases h
  | cons c s ih =>
    rw [Lowercase.apply, List.mem_append] at h
    rcases h with h | h
    · exact ⟨c, List.mem_cons_self .., (mem_char L h hd hk hi).2⟩
    · obtain ⟨c', hc', heq⟩ := ih h
      exact ⟨c', List.mem_cons_of_mem _ hc', heq⟩

/-- A word that no Kelvin sign and no dotted capital I can help to spell. -/
structure Safe (word : List Char) : Prop where
  ascii : ∀ c ∈ word, c.toNat < 128
  noKelvin : 'k' ∉ word
  noDotted : word.getLast? ≠ some 'i'

theorem ascii_of_lowered (hword : ∀ c ∈ word, c.toNat < 128) (h : x.map Char.toLower = word) :
    ∀ c ∈ x, c.toNat < 128 := by
  intro c hc
  exact lt_of_toLower_lt (hword _ (h ▸ List.mem_map_of_mem hc))

theorem safe_tail {a : Char} (h : Safe (a :: word)) : Safe word where
  ascii c hc := h.ascii c (List.mem_cons_of_mem a hc)
  noKelvin hk := h.noKelvin (List.mem_cons_of_mem a hk)
  noDotted hlast := by
    refine h.noDotted ?_
    rw [List.getLast?_cons, hlast]
    rfl

theorem starts_of_prefix (hword : Safe word) (h : word <+: L.apply before s after) :
    ∃ x y, s = x ++ y ∧ x.map Char.toLower = word := by
  induction word generalizing before s with
  | nil => exact ⟨[], s, rfl, rfl⟩
  | cons a word ih =>
    cases s with
    | nil =>
      have hnil := List.prefix_nil.1 h
      cases hnil
    | cons c s =>
      rw [Lowercase.apply] at h
      have ha : a.toNat < 128 := hword.ascii a (List.mem_cons_self ..)
      by_cases hc : c.toNat < 128
      · rw [char_of_lt L hc, List.singleton_append, List.cons_prefix_cons] at h
        obtain ⟨x, y, rfl, hx⟩ := ih (safe_tail hword) h.2
        exact ⟨c :: x, y, rfl, by rw [List.map_cons, hx, h.1]⟩
      rw [Lowercase.char, if_neg hc] at h
      rcases L.ascii before c (s ++ after) (Nat.not_lt.1 hc) with heq | heq | ⟨hne, hall⟩
      · rw [heq, List.singleton_append, List.cons_prefix_cons] at h
        exact (hword.noKelvin (h.1 ▸ List.mem_cons_self ..)).elim
      · rw [heq, List.cons_append, List.cons_prefix_cons] at h
        cases word with
        | nil => exact (hword.noDotted (h.1 ▸ rfl)).elim
        | cons b word =>
          have hb := (List.cons_prefix_cons.1 h.2).1
          have hascii := hword.ascii b (List.mem_cons_of_mem a (List.mem_cons_self ..))
          rw [hb] at hascii
          exact absurd hascii (by decide)
      · obtain ⟨d, ds, hds⟩ := List.exists_cons_of_ne_nil hne
        have hd : 128 ≤ d.toNat := hall d (hds ▸ List.mem_cons_self ..)
        rw [hds, List.cons_append, List.cons_prefix_cons] at h
        rw [h.1] at ha
        omega

theorem eq_of_concat_suffix {α : Type} {x y z : List α} {a b : α}
    (h : x ++ [a] <:+ y ++ (z ++ [b])) : a = b ∧ x <:+ y ++ z := by
  obtain ⟨t, ht⟩ := h
  rw [← List.append_assoc, ← List.append_assoc] at ht
  obtain ⟨hinit, hlast⟩ := List.append_inj' ht rfl
  exact ⟨List.singleton_inj.1 hlast, t, hinit⟩

theorem ends_of_suffix (hword : ∀ c ∈ word, c.toNat < 128) (hk : 'k' ∉ word)
    (h : word <:+ L.apply before s after) : ∃ x y, s = x ++ y ∧ y.map Char.toLower = word := by
  induction s using List.reverseRecOn generalizing word after with
  | nil =>
    have hnil := List.suffix_nil.1 h
    exact ⟨[], [], rfl, hnil.symm⟩
  | append_singleton s c ih =>
    rcases List.eq_nil_or_concat' word with rfl | ⟨word, a, rfl⟩
    · exact ⟨s ++ [c], [], (List.append_nil _).symm, rfl⟩
    have ha : a.toNat < 128 := hword a (by simp)
    have hka : a ≠ 'k' := fun hak => hk (by simp [hak])
    rw [apply_append, Lowercase.apply, Lowercase.apply, List.append_nil, List.nil_append] at h
    by_cases hc : c.toNat < 128
    · rw [char_of_lt L hc, ← List.nil_append [c.toLower]] at h
      obtain ⟨hlast, hinit⟩ := eq_of_concat_suffix h
      rw [List.append_nil] at hinit
      obtain ⟨x, y, rfl, hy⟩ := ih (fun d hd => hword d (List.mem_append_left _ hd))
        (fun hk' => hk (List.mem_append_left _ hk')) hinit
      refine ⟨x, y ++ [c], List.append_assoc .., ?_⟩
      rw [List.map_append, hy, hlast]
      rfl
    rw [Lowercase.char, if_neg hc] at h
    rcases L.ascii (s.reverse ++ before) c after (Nat.not_lt.1 hc) with heq | heq | ⟨hne, hall⟩
    · rw [heq, ← List.nil_append ['k']] at h
      exact (hka (eq_of_concat_suffix h).1).elim
    · have hsplit : L.beyond (s.reverse ++ before) c after = ['i'] ++ [Char.ofNat 0x307] := heq
      rw [hsplit] at h
      rw [(eq_of_concat_suffix h).1] at ha
      exact absurd ha (by decide)
    · rcases List.eq_nil_or_concat' (L.beyond (s.reverse ++ before) c after) with
        hnil | ⟨ds, d, hds⟩
      · exact (hne hnil).elim
      have hd : 128 ≤ d.toNat := hall d (hds ▸ by simp)
      rw [hds] at h
      rw [(eq_of_concat_suffix h).1] at ha
      omega

end Lowered

end Atradio.Lib
