import Mathlib.Data.List.Infix
import Mathlib.Data.List.TakeWhile

/-! # Regular expressions by backtracking

A pattern gives, for what is left of the subject, what may be left after it: the ways to match in
the order in which a backtracking engine tries them. The first way that the rest of the pattern
goes along with is the match. -/

namespace Atradio.Lib

inductive Regex (α : Type) where
  | empty
  /-- One letter. -/
  | set (p : α → Bool)
  | seq (r t : Regex α)
  | alt (r t : Regex α)
  /-- `(?!r)` -/
  | notAhead (r : Regex α)
  /-- `r*`, greedy. -/
  | star (r : Regex α)

variable {α : Type}

/-- The rounds of a greedy loop, no more than `n`. A round that reads nothing fails. -/
def rounds (next : List α → List (List α)) : ℕ → List α → List (List α)
  | 0, s => [s]
  | n + 1, s => ((next s).filter fun t => t.length < s.length).flatMap (rounds next n) ++ [s]

def Regex.rests : Regex α → List α → List (List α)
  | .empty, s => [s]
  | .set _, [] => []
  | .set p, a :: s => if p a then [s] else []
  | .seq r t, s => (r.rests s).flatMap t.rests
  | .alt r t, s => r.rests s ++ t.rests s
  | .notAhead r, s => if (r.rests s).isEmpty then [s] else []
  | .star r, s => rounds r.rests s.length s

def Regex.word [DecidableEq α] : List α → Regex α
  | [] => .empty
  | a :: w => .seq (.set (· = a)) (.word w)

/-- `before(group)after` -/
structure Grouped (α : Type) where
  before : Regex α
  group : Regex α
  after : Regex α

/-- What the group of a match at the start of `s` has read. -/
def Grouped.here (g : Grouped α) (s : List α) : Option (List α) :=
  (g.before.rests s).findSome? fun t =>
    (g.group.rests t).findSome? fun u =>
      (g.after.rests u).head?.map fun _ => t.take (t.length - u.length)

/-- The group of the first match in `s`. -/
def Grouped.exec (g : Grouped α) (s : List α) : Option (List α) := s.tails.findSome? g.here

/-! ### Loops -/

section Loops

variable {next : List α → List (List α)} {r : Regex α} {s : List α}

theorem rounds_succ {n : ℕ} (h : s.length ≤ n) : rounds next (n + 1) s = rounds next n s := by
  induction n generalizing s with
  | zero =>
    obtain rfl := List.length_eq_zero_iff.1 (Nat.le_zero.1 h)
    simp [rounds]
  | succ n ih =>
    rw [rounds, rounds]
    refine congrArg (· ++ [s]) (List.flatMap_congr fun t ht => ih ?_)
    have hshort : t.length < s.length := by simpa using (List.mem_filter.1 ht).2
    omega

theorem rounds_of_le {n : ℕ} (h : s.length ≤ n) : rounds next n s = rounds next s.length s := by
  induction n, h using Nat.le_induction with
  | base => rfl
  | succ n hn ih => rw [rounds_succ hn, ih]

/-- The loop without a bound on its rounds. -/
theorem rests_star (r : Regex α) (s : List α) : (Regex.star r).rests s =
    ((r.rests s).filter fun t => t.length < s.length).flatMap (Regex.star r).rests ++ [s] := by
  cases s with
  | nil => simp [Regex.rests, rounds]
  | cons a s =>
    rw [Regex.rests, List.length_cons, rounds]
    refine congrArg (· ++ [a :: s]) (List.flatMap_congr fun t ht => ?_)
    have hshort : t.length < s.length + 1 := by simpa using (List.mem_filter.1 ht).2
    rw [Regex.rests, rounds_of_le (Nat.le_of_lt_succ hshort)]

theorem rests_star_stop (h : r.rests s = []) : (Regex.star r).rests s = [s] := by
  rw [rests_star, h]
  rfl

theorem rests_star_step {a : α} (h : r.rests (a :: s) = [s]) :
    (Regex.star r).rests (a :: s) = (Regex.star r).rests s ++ [a :: s] := by
  rw [rests_star, h, List.filter_cons_of_pos (by simp), List.filter_nil, List.flatMap_singleton]

theorem length_le_of_rounds {n : ℕ} {t : List α} (h : t ∈ rounds next n s) :
    t.length ≤ s.length := by
  induction n generalizing s with
  | zero => rw [List.mem_singleton.1 h]
  | succ n ih =>
    rcases List.mem_append.1 h with h | h
    · obtain ⟨u, hu, ht⟩ := List.mem_flatMap.1 h
      have hshort : u.length < s.length := by simpa using (List.mem_filter.1 hu).2
      exact (ih ht).trans hshort.le
    · rw [List.mem_singleton.1 h]

end Loops

/-! ### Words and places -/

theorem rests_word [DecidableEq α] (w s : List α) :
    (Regex.word w).rests s = if w <+: s then [s.drop w.length] else [] := by
  induction w generalizing s with
  | nil => rw [if_pos (List.nil_prefix ..)]; rfl
  | cons a w ih =>
    cases s with
    | nil => rw [if_neg (by simp)]; rfl
    | cons b s =>
      rw [Regex.word, Regex.rests, Regex.rests]
      by_cases hb : b = a
      · rw [if_pos (decide_eq_true hb), List.flatMap_singleton, ih, hb]
        simp
      · rw [if_neg (by simpa using hb), if_neg fun h => hb (List.cons_prefix_cons.1 h).1.symm]
        rfl

theorem findSome_congr {β γ : Type} {l : List β} {f g : β → Option γ}
    (h : ∀ b ∈ l, f b = g b) : l.findSome? f = l.findSome? g := by
  induction l with
  | nil => rfl
  | cons b l ih =>
    rw [List.findSome?_cons, List.findSome?_cons, h b (List.mem_cons_self ..),
      ih fun c hc => h c (List.mem_cons_of_mem b hc)]

namespace Grouped

variable {g : Grouped α} {s : List α}

theorem exec_cons (g : Grouped α) (a : α) (s : List α) :
    g.exec (a :: s) = (g.here (a :: s)).or (g.exec s) := by
  rw [exec, List.tails_cons, List.findSome?_cons]
  cases g.here (a :: s) <;> rfl

theorem exec_of_here {t : List α} (h : g.here s = some t) : g.exec s = some t := by
  cases s with
  | nil => rw [exec, List.tails, List.findSome?_cons, h]
  | cons a s => rw [exec_cons, h, Option.some_or]

/-- A front in which no match begins is skipped. -/
theorem exec_append {x : List α} (h : ∀ y z, x = y ++ z → z ≠ [] → g.here (z ++ s) = none) :
    g.exec (x ++ s) = g.exec s := by
  induction x with
  | nil => rfl
  | cons a x ih =>
    have hnone : g.here (a :: (x ++ s)) = none := h [] (a :: x) rfl (List.cons_ne_nil a x)
    rw [List.cons_append, exec_cons, hnone, Option.none_or]
    exact ih fun y z hx => h (a :: y) z (congrArg (a :: ·) hx)

end Grouped

end Atradio.Lib
