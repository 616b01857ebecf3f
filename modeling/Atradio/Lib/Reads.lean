import Mathlib.Data.List.Infix

/-! # Readers that are fed in pieces

`cut` splits a list at the first occurrence of a separator. A reader is a function on states and
pieces of input, with an output; it is seamless where a piece may be cut in two without a
difference, and then only the concatenation of the pieces counts. -/

namespace Atradio.Lib

section Cut

variable {α : Type} [DecidableEq α]

/-- What is before the first `sep` and what is after it. -/
def cut (sep : List α) : List α → Option (List α × List α)
  | [] => if sep = [] then some ([], []) else none
  | a :: s =>
    if sep <+: a :: s then some ([], (a :: s).drop sep.length)
    else (cut sep s).map fun p => (a :: p.1, p.2)

variable {sep s x y : List α}

theorem cut_eq_some (h : cut sep s = some (x, y)) : s = x ++ sep ++ y := by
  induction s generalizing x with
  | nil =>
    rw [cut] at h
    split at h
    · rename_i hsep
      obtain ⟨rfl, rfl⟩ := Prod.mk.inj (Option.some.inj h)
      rw [hsep]
      rfl
    · cases h
  | cons a s ih =>
    rw [cut] at h
    split at h
    · rename_i hprefix
      obtain ⟨rfl, rfl⟩ := Prod.mk.inj (Option.some.inj h)
      exact (List.prefix_iff_eq_append.1 hprefix).symm
    · obtain ⟨p, hp, heq⟩ := Option.map_eq_some_iff.1 h
      obtain ⟨rfl, rfl⟩ := Prod.mk.inj heq
      rw [ih hp, List.cons_append, List.cons_append]

/-- More input behind the separator changes nothing before it. -/
theorem cut_append (h : cut sep s = some (x, y)) (t : List α) :
    cut sep (s ++ t) = some (x, y ++ t) := by
  induction s generalizing x with
  | nil =>
    rw [cut] at h
    split at h
    · rename_i hsep
      obtain ⟨rfl, rfl⟩ := Prod.mk.inj (Option.some.inj h)
      cases t with
      | nil => rw [List.nil_append, cut, if_pos hsep]
      | cons b t =>
        rw [List.nil_append, cut, hsep, if_pos (List.nil_prefix)]
        rfl
    · cases h
  | cons a s ih =>
    rw [cut] at h
    rw [List.cons_append, cut]
    split at h
    · rename_i hprefix
      obtain ⟨rfl, rfl⟩ := Prod.mk.inj (Option.some.inj h)
      have hlong : sep <+: a :: (s ++ t) := hprefix.trans (List.prefix_append (a :: s) t)
      rw [if_pos hlong, ← List.cons_append, List.drop_append_of_le_length hprefix.length_le]
    · rename_i hprefix
      obtain ⟨p, hp, heq⟩ := Option.map_eq_some_iff.1 h
      obtain ⟨rfl, rfl⟩ := Prod.mk.inj heq
      have hshort : ¬ sep <+: a :: (s ++ t) := by
        intro hlong
        -- the separator that `s` holds is long enough for a prefix to lie in `a :: s`
        have hlen : sep.length ≤ (a :: s).length := by
          rw [cut_eq_some hp]
          simp only [List.length_cons, List.length_append]
          omega
        refine hprefix (List.prefix_of_prefix_length_le hlong ?_ hlen)
        exact List.prefix_append (a :: s) t
      rw [if_neg hshort, ih hp, Option.map_some]

theorem cut_prefix_length {head p : List α} (hhead : cut sep head = some (x, []))
    (hp : cut sep p = none) {stream : List α} (hstream : p <+: head ++ stream) :
    p.length < head.length := by
  by_contra hlen
  have hle : head <+: p :=
    List.prefix_of_prefix_length_le (List.prefix_append head stream) hstream (by omega)
  obtain ⟨t, rfl⟩ := hle
  rw [cut_append hhead t] at hp
  cases hp

theorem cut_singleton_eq_some {a : α} :
    cut [a] s = some (x, y) ↔ s = x ++ a :: y ∧ a ∉ x := by
  induction s generalizing x with
  | nil => simp [cut]
  | cons b s ih =>
    rw [cut]
    by_cases hb : b = a
    · subst hb
      rw [if_pos (by simp)]
      constructor
      · intro h
        obtain ⟨rfl, rfl⟩ := Prod.mk.inj (Option.some.inj h)
        exact ⟨rfl, List.not_mem_nil⟩
      · rintro ⟨hs, hx⟩
        cases x with
        | nil =>
          rw [(List.cons.inj hs).2]
          rfl
        | cons c x =>
          rw [(List.cons.inj hs).1] at hx
          exact (hx (List.mem_cons_self ..)).elim
    · have hne : ¬ [a] <+: b :: s := by
        intro h
        exact hb (List.cons_prefix_cons.1 h).1.symm
      rw [if_neg hne, Option.map_eq_some_iff]
      constructor
      · rintro ⟨⟨x', y'⟩, hp, heq⟩
        obtain ⟨rfl, rfl⟩ := Prod.mk.inj heq
        obtain ⟨rfl, hx'⟩ := ih.1 hp
        refine ⟨rfl, fun hmem => ?_⟩
        rcases List.mem_cons.1 hmem with rfl | hmem
        · exact hb rfl
        · exact hx' hmem
      · rintro ⟨hs, hx⟩
        cases x with
        | nil => exact (hb (List.cons.inj hs).1).elim
        | cons c x =>
          obtain ⟨rfl, rfl⟩ := List.cons.inj hs
          exact ⟨(x, y), ih.2 ⟨rfl, fun hmem => hx (List.mem_cons_of_mem _ hmem)⟩, rfl⟩

end Cut

/-! ### Readers -/

section Readers

variable {σ α β : Type} (push : σ → List α → List β × σ)

/-- The output for the pieces one after the other, and the state behind them. -/
def readAll (s : σ) : List (List α) → List β × σ
  | [] => ([], s)
  | p :: ps => ((push s p).1 ++ (readAll (push s p).2 ps).1, (readAll (push s p).2 ps).2)

/-- In the states `I`, two pieces may as well come as one. -/
structure Seamless (I : σ → Prop) : Prop where
  keeps : ∀ s p, I s → I (push s p).2
  empty : ∀ s, I s → push s [] = ([], s)
  append : ∀ s p q, I s →
    push s (p ++ q) = ((push s p).1 ++ (push (push s p).2 q).1, (push (push s p).2 q).2)

variable {push} {I : σ → Prop}

theorem Seamless.readAll_flatten (h : Seamless push I) {s : σ} (hs : I s) (ps : List (List α)) :
    readAll push s ps = push s ps.flatten := by
  induction ps generalizing s with
  | nil => exact (h.empty s hs).symm
  | cons p ps ih =>
    rw [readAll, ih (h.keeps s p hs), List.flatten_cons, h.append s p ps.flatten hs]

end Readers

end Atradio.Lib
