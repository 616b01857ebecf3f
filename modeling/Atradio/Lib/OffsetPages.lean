import Mathlib.Data.List.Basic
import Mathlib.Data.List.Nodup

/-! # Pages behind an offset

A listing is asked for `size` rows behind an offset, and what comes back is filtered. The reader goes
by what is left: a short page is the last one, and the next offset is the number of rows it has. A
row that is filtered out therefore ends the reading with its page. -/

namespace Atradio.Lib

variable {R : Type} (keep : R → Bool) (size : ℕ)

def offsetPage (rows : List R) (offset : ℕ) : List R := ((rows.drop offset).take size).filter keep

/-- The offset of the page behind these, if there is one. -/
def nextOffset {V : Type} (pages : List (List V)) : Option ℕ :=
  match pages.getLast? with
  | none => some 0
  | some last => if last.length < size then none else some (pages.foldl (fun n p => n + p.length) 0)

/-- The first `n` pages of a listing, when the ones in front of the last are full. -/
def firstPages (rows : List R) (n : ℕ) : List (List R) :=
  (List.range n).map fun i => offsetPage keep size rows (size * i)

/-- The number of the first page that is not full. -/
def shortPage (rows : List R) : ℕ := rows.findIdx (fun r => !keep r) / size

variable {keep size}

theorem offsetPage_full {rows : List R} {i : ℕ} (hi : i < shortPage keep size rows) :
    offsetPage keep size rows (size * i) = (rows.drop (size * i)).take size ∧
      (offsetPage keep size rows (size * i)).length = size := by
  have hle : size * i + size ≤ rows.findIdx fun r => !keep r := by
    have hmul : size * (i + 1) ≤ size * shortPage keep size rows := Nat.mul_le_mul_left size hi
    have hdiv : size * shortPage keep size rows ≤ rows.findIdx fun r => !keep r :=
      Nat.mul_div_le _ size
    rw [Nat.mul_add_one] at hmul
    exact Nat.le_trans hmul hdiv
  have hlen : size * i + size ≤ rows.length := Nat.le_trans hle List.findIdx_le_length
  have hkeep : ∀ r ∈ (rows.drop (size * i)).take size, keep r = true := by
    intro r hr
    obtain ⟨j, hj, rfl⟩ := List.getElem_of_mem hr
    rw [List.length_take, List.length_drop] at hj
    rw [List.getElem_take, List.getElem_drop]
    have hnot := @List.not_of_lt_findIdx _ (fun r => !keep r) rows (size * i + j) (by omega)
    simpa using hnot
  have hall : offsetPage keep size rows (size * i) = (rows.drop (size * i)).take size :=
    List.filter_eq_self.2 hkeep
  refine ⟨hall, ?_⟩
  rw [hall, List.length_take, List.length_drop]
  omega

theorem offsetPage_short (hsize : 0 < size) (rows : List R) :
    (offsetPage keep size rows (size * shortPage keep size rows)).length < size := by
  have hdiv : size * shortPage keep size rows ≤ rows.findIdx fun r => !keep r :=
    Nat.mul_div_le _ size
  have hlt : (rows.findIdx fun r => !keep r) < size * shortPage keep size rows + size := by
    have hmod := Nat.mod_lt (rows.findIdx fun r => !keep r) hsize
    have hsum := Nat.div_add_mod (rows.findIdx fun r => !keep r) size
    unfold shortPage
    omega
  have htake : ((rows.drop (size * shortPage keep size rows)).take size).length ≤ size :=
    List.length_take_le _ _
  by_cases hfound : (rows.findIdx fun r => !keep r) < rows.length
  · have hbad : keep rows[rows.findIdx fun r => !keep r] = false := by
      simpa using List.findIdx_getElem (p := fun r => !keep r) (w := hfound)
    have hmem : rows[rows.findIdx fun r => !keep r] ∈
        (rows.drop (size * shortPage keep size rows)).take size := by
      rw [List.mem_take_iff_getElem]
      refine ⟨(rows.findIdx fun r => !keep r) - size * shortPage keep size rows, ?_, ?_⟩
      · rw [List.length_drop]
        omega
      · rw [List.getElem_drop]
        congr 1
        omega
    have hless : (offsetPage keep size rows (size * shortPage keep size rows)).length <
        ((rows.drop (size * shortPage keep size rows)).take size).length :=
      List.length_filter_lt_length_iff_exists.2 ⟨_, hmem, by rw [hbad]; exact Bool.false_ne_true⟩
    exact Nat.lt_of_lt_of_le hless htake
  · have hle : (offsetPage keep size rows (size * shortPage keep size rows)).length ≤
        ((rows.drop (size * shortPage keep size rows)).take size).length := List.length_filter_le _ _
    rw [List.length_take, List.length_drop] at hle
    omega

theorem firstPages_succ (rows : List R) (n : ℕ) :
    firstPages keep size rows (n + 1) =
      firstPages keep size rows n ++ [offsetPage keep size rows (size * n)] := by
  simp [firstPages, List.range_succ]

theorem flatten_firstPages (rows : List R) (n : ℕ) :
    (firstPages keep size rows n).flatten = (rows.take (size * n)).filter keep := by
  induction n with
  | zero => simp [firstPages]
  | succ n ih =>
    rw [firstPages_succ, List.flatten_append, ih, Nat.mul_add_one, List.take_add,
      List.filter_append]
    simp [offsetPage]

theorem sum_firstPages {rows : List R} {n : ℕ} (hn : n ≤ shortPage keep size rows) :
    (firstPages keep size rows n).foldl (fun n p => n + p.length) 0 = size * n := by
  induction n with
  | zero => rfl
  | succ n ih =>
    rw [firstPages_succ, List.foldl_append, ih (Nat.le_of_succ_le hn)]
    exact (congrArg (size * n + ·) (offsetPage_full hn).2).trans (Nat.mul_add_one size n).symm

/-- The reader asks for every page up to the first one that is not full, and for no other. -/
theorem nextOffset_firstPages (hsize : 0 < size) {rows : List R} {n : ℕ}
    (hn : n ≤ shortPage keep size rows + 1) :
    nextOffset size (firstPages keep size rows n) =
      if n ≤ shortPage keep size rows then some (size * n) else none := by
  cases n with
  | zero => simp [nextOffset, firstPages]
  | succ n =>
    rw [nextOffset, firstPages_succ, List.getLast?_concat]
    dsimp only
    rcases Nat.lt_or_ge n (shortPage keep size rows) with hlt | hge
    · have hfull := (offsetPage_full hlt).2
      rw [if_pos (Nat.succ_le_of_lt hlt), if_neg (by omega), ← firstPages_succ, sum_firstPages hlt]
    · have heq : n = shortPage keep size rows := by omega
      subst heq
      rw [if_pos (offsetPage_short hsize rows), if_neg (by omega)]

end Atradio.Lib
