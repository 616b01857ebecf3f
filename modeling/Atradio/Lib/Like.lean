import Mathlib.Data.List.Infix

/-! # LIKE patterns

A pattern holds `_` for any character, `%` for any text, and a backslash before a character that
stands for itself. -/

namespace Atradio.Lib

inductive Token where
  | one (c : Char)
  | any
  | run

/-- A pattern that ends with its escape character is an error. -/
def likeTokens : List Char → Option (List Token)
  | [] => some []
  | '%' :: p => (likeTokens p).map (Token.run :: ·)
  | '_' :: p => (likeTokens p).map (Token.any :: ·)
  | ['\\'] => none
  | '\\' :: c :: p => (likeTokens p).map (Token.one c :: ·)
  | c :: p => (likeTokens p).map (Token.one c :: ·)

def tokensMatch : List Token → List Char → Bool
  | [], s => s.isEmpty
  | .one c :: p, s =>
    match s with
    | [] => false
    | d :: s => c = d && tokensMatch p s
  | .any :: p, s =>
    match s with
    | [] => false
    | _ :: s => tokensMatch p s
  | .run :: p, s => s.tails.any (tokensMatch p)

def like (s p : List Char) : Bool := (likeTokens p).any fun p => tokensMatch p s

/-! ### Literal patterns -/

def wildcards : List Char := ['%', '_', '\\']

theorem likeTokens_cons {c : Char} (hc : c ∉ wildcards) (p : List Char) :
    likeTokens (c :: p) = (likeTokens p).map (Token.one c :: ·) := by
  simp only [wildcards, List.mem_cons, List.not_mem_nil, or_false, not_or] at hc
  obtain ⟨hrun, hany, hescape⟩ := hc
  rw [likeTokens]
  all_goals simp_all

theorem likeTokens_append {q : List Char} (hq : ∀ c ∈ q, c ∉ wildcards) (p : List Char) :
    likeTokens (q ++ p) = (likeTokens p).map (q.map Token.one ++ ·) := by
  induction q with
  | nil => simp
  | cons c q ih =>
    rw [List.cons_append, likeTokens_cons (hq c (List.mem_cons_self ..)),
      ih fun d hd => hq d (List.mem_cons_of_mem c hd)]
    simp [Function.comp_def]

theorem tokensMatch_literal (q : List Char) (p : List Token) (s : List Char) :
    tokensMatch (q.map Token.one ++ p) s = true ↔ ∃ t, s = q ++ t ∧ tokensMatch p t = true := by
  induction q generalizing s with
  | nil => simp
  | cons c q ih =>
    cases s with
    | nil => simp [tokensMatch]
    | cons d s =>
      simp only [List.map_cons, List.cons_append, tokensMatch, Bool.and_eq_true,
        decide_eq_true_eq, List.cons.injEq, ih s]
      constructor
      · rintro ⟨rfl, t, rfl, ht⟩
        exact ⟨t, ⟨rfl, rfl⟩, ht⟩
      · rintro ⟨t, ⟨rfl, rfl⟩, ht⟩
        exact ⟨rfl, t, rfl, ht⟩

theorem tokensMatch_run (p : List Token) (s : List Char) :
    tokensMatch (.run :: p) s = true ↔ ∃ t, t <:+ s ∧ tokensMatch p t = true := by
  simp [tokensMatch]

theorem tokensMatch_rest (s : List Char) : tokensMatch [.run] s = true := by
  rw [tokensMatch_run]
  exact ⟨[], List.nil_suffix, rfl⟩

/-- A text without wildcards, between two `%`, is looked for as it is. -/
theorem like_literal {q : List Char} (hq : ∀ c ∈ q, c ∉ wildcards) (s : List Char) :
    like s ('%' :: (q ++ ['%'])) = true ↔ q <:+: s := by
  have htokens : likeTokens ('%' :: (q ++ ['%'])) =
      some (.run :: (q.map Token.one ++ [.run])) := by
    rw [likeTokens, likeTokens_append hq]
    simp [likeTokens]
  rw [like, htokens, Option.any_some, tokensMatch_run]
  constructor
  · rintro ⟨t, ⟨before, rfl⟩, ht⟩
    obtain ⟨after, rfl, -⟩ := (tokensMatch_literal q _ t).1 ht
    exact ⟨before, after, List.append_assoc ..⟩
  · rintro ⟨before, after, rfl⟩
    refine ⟨q ++ after, ⟨before, (List.append_assoc ..).symm⟩, ?_⟩
    exact (tokensMatch_literal q _ _).2 ⟨after, rfl, tokensMatch_rest after⟩

/-! ### Patterns with wildcards -/

theorem not_wildcard {c : Char} {q : List Char} (hrun : c = '%' → False)
    (hany : c = '_' → False) (hend : c = '\\' → q = [] → False)
    (hescape : ∀ d q', c = '\\' → q = d :: q' → False) : c ∉ wildcards := by
  simp only [wildcards, List.mem_cons, List.not_mem_nil, or_false, not_or]
  refine ⟨hrun, hany, ?_⟩
  rintro rfl
  cases q with
  | nil => exact hend rfl rfl
  | cons d q => exact hescape d q rfl rfl

/-- A text that `q`, between two `%`, finds: `q` without its wildcards. -/
def found (a : Char) : List Char → List Char
  | [] => []
  | '%' :: q => found a q
  | '_' :: q => a :: found a q
  | ['\\'] => ['%']
  | '\\' :: c :: q => c :: found a q
  | c :: q => c :: found a q

theorem found_cons {a c : Char} (hc : c ∉ wildcards) (q : List Char) :
    found a (c :: q) = c :: found a q := by
  simp only [wildcards, List.mem_cons, List.not_mem_nil, or_false, not_or] at hc
  obtain ⟨hrun, hany, hescape⟩ := hc
  rw [found]
  all_goals simp_all

theorem found_length (a : Char) (q : List Char) : (found a q).length ≤ q.length := by
  induction q using found.induct with
  | case1 => simp [found]
  | case2 q ih => simp only [found, List.length_cons]; omega
  | case3 q ih => simp only [found, List.length_cons]; omega
  | case4 => simp [found]
  | case5 c q ih => simp only [found, List.length_cons]; omega
  | case6 c q hrun hany hend hescape ih =>
    rw [found]
    all_goals simp_all

theorem tokensMatch_found (a : Char) (q : List Char) :
    ∃ p, likeTokens (q ++ ['%']) = some p ∧ tokensMatch p (found a q) = true := by
  induction q using found.induct with
  | case1 => exact ⟨[.run], rfl, tokensMatch_rest _⟩
  | case2 q ih =>
    obtain ⟨p, hp, hm⟩ := ih
    refine ⟨.run :: p, by simp [likeTokens, hp], ?_⟩
    exact (tokensMatch_run p _).2 ⟨_, List.suffix_rfl, hm⟩
  | case3 q ih =>
    obtain ⟨p, hp, hm⟩ := ih
    exact ⟨.any :: p, by simp [likeTokens, hp], hm⟩
  | case4 => exact ⟨[.one '%'], rfl, rfl⟩
  | case5 c q ih =>
    obtain ⟨p, hp, hm⟩ := ih
    exact ⟨.one c :: p, by simp [likeTokens, hp], by simp [found, tokensMatch, hm]⟩
  | case6 c q hrun hany hend hescape ih =>
    obtain ⟨p, hp, hm⟩ := ih
    have hc : c ∉ wildcards := not_wildcard hrun hany hend hescape
    refine ⟨.one c :: p, ?_, ?_⟩
    · rw [List.cons_append, likeTokens_cons hc, hp, Option.map_some]
    · rw [found_cons hc]
      simp [tokensMatch, hm]

theorem like_found (a : Char) (q : List Char) :
    like (found a q) ('%' :: (q ++ ['%'])) = true := by
  obtain ⟨p, hp, hm⟩ := tokensMatch_found a q
  rw [like, likeTokens, hp, Option.map_some, Option.any_some, tokensMatch_run]
  exact ⟨_, List.suffix_rfl, hm⟩

theorem literal_of_found {a : Char} (ha : a ≠ '_') {q : List Char} (h : found a q = q) :
    ∀ c ∈ q, c ∉ wildcards := by
  induction q using found.induct with
  | case1 => simp
  | case2 q ih =>
    have hlen := found_length a q
    have heq := congrArg List.length h
    simp only [found, List.length_cons] at heq
    omega
  | case3 q ih =>
    simp only [found, List.cons.injEq] at h
    exact absurd h.1 ha
  | case4 => simp [found] at h
  | case5 c q ih =>
    have hlen := found_length a q
    have heq := congrArg List.length h
    simp only [found, List.length_cons] at heq
    omega
  | case6 c q hrun hany hend hescape ih =>
    have hc : c ∉ wildcards := not_wildcard hrun hany hend hescape
    rw [found_cons hc, List.cons.injEq] at h
    simp only [List.mem_cons, forall_eq_or_imp]
    exact ⟨hc, ih h.2⟩

/-- `found` does not hold `q` itself, which is no shorter. -/
theorem literal_of_infix {a : Char} (ha : a ≠ '_') {q : List Char} (h : q <:+: found a q) :
    ∀ c ∈ q, c ∉ wildcards :=
  literal_of_found ha (h.eq_of_length_le (found_length a q)).symm

/-! ### Without regard to case -/

/-- How the locale of a database lower-cases a character. -/
structure Casing where
  lower : Char → Char
  wildcard : ∀ c ∈ wildcards, lower c = c
  ordinary : ∀ c, c ∉ wildcards → lower c ∉ wildcards

namespace Casing

variable (C : Casing)

def ilike (s p : List Char) : Bool := like (s.map C.lower) (p.map C.lower)

def Occurs (q s : List Char) : Prop := q.map C.lower <:+: s.map C.lower

instance (q s : List Char) : Decidable (C.Occurs q s) :=
  inferInstanceAs (Decidable (q.map C.lower <:+: s.map C.lower))

theorem lower_mem (c : Char) : C.lower c ∈ wildcards ↔ c ∈ wildcards := by
  constructor
  · intro h
    by_contra hc
    exact C.ordinary c hc h
  · intro h
    rw [C.wildcard c h]
    exact h

theorem map_between (q : List Char) :
    ('%' :: (q ++ ['%'])).map C.lower = '%' :: (q.map C.lower ++ ['%']) := by
  have h : C.lower '%' = '%' := C.wildcard '%' (by decide)
  simp [h]

theorem map_found (a : Char) (q : List Char) :
    (found a q).map C.lower = found (C.lower a) (q.map C.lower) := by
  have hrun : C.lower '%' = '%' := C.wildcard '%' (by decide)
  have hany : C.lower '_' = '_' := C.wildcard '_' (by decide)
  have hescape : C.lower '\\' = '\\' := C.wildcard '\\' (by decide)
  induction q using found.induct with
  | case1 => rfl
  | case2 q ih => simp [found, hrun, ih]
  | case3 q ih => simp [found, hany, ih]
  | case4 => simp [found, hrun, hescape]
  | case5 c q ih => simp [found, hescape, ih]
  | case6 c q h₁ h₂ h₃ h₄ ih =>
    have hc : c ∉ wildcards := not_wildcard h₁ h₂ h₃ h₄
    rw [found_cons hc, List.map_cons, List.map_cons, found_cons (C.ordinary c hc), ih]

theorem ilike_literal {q : List Char} (hq : ∀ c ∈ q, c ∉ wildcards) (s : List Char) :
    C.ilike s ('%' :: (q ++ ['%'])) = true ↔ C.Occurs q s := by
  rw [ilike, map_between]
  refine like_literal ?_ _
  intro c hc
  obtain ⟨d, hd, rfl⟩ := List.mem_map.1 hc
  exact C.ordinary d (hq d hd)

/-- A text with a wildcard finds something that does not hold it. -/
theorem ilike_literal_iff (q : List Char) :
    (∀ s, C.ilike s ('%' :: (q ++ ['%'])) = true ↔ C.Occurs q s) ↔ ∀ c ∈ q, c ∉ wildcards := by
  constructor
  · intro h
    have hfound : C.ilike (found 'x' q) ('%' :: (q ++ ['%'])) = true := by
      rw [ilike, map_between, map_found]
      exact like_found _ _
    have hoccurs := (h (found 'x' q)).1 hfound
    rw [Occurs, map_found] at hoccurs
    have hx : C.lower 'x' ≠ '_' := by
      intro hx
      exact C.ordinary 'x' (by decide) (hx ▸ by decide)
    intro c hc hw
    exact literal_of_infix hx hoccurs _ (List.mem_map_of_mem hc) ((C.lower_mem c).2 hw)
  · intro hq s
    exact C.ilike_literal hq s

end Casing

end Atradio.Lib
