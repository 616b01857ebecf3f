import Mathlib.Data.List.Sort
import Mathlib.Order.WithBot

/-! # Pages behind a cursor

A listing is asked page by page. A page holds the newest rows that are older than the
cursor; the next cursor is the time of its last row, as coarse as a cursor can tell it. -/

namespace Atradio.Lib

structure Page (V C : Type) where
  items : List V
  cursor : Option C

/-- What a client collects that follows the cursors; `ask n c` answers its request `n`. -/
inductive Collects {V C : Type} (ask : ℕ → Option C → Page V C) : ℕ → Option C → List V → Prop
  | last {n : ℕ} {c : Option C} (h : (ask n c).cursor = none) : Collects ask n c (ask n c).items
  | next {n : ℕ} {c : Option C} {c' : C} {got : List V} (h : (ask n c).cursor = some c')
      (rest : Collects ask (n + 1) (some c') got) : Collects ask n c ((ask n c).items ++ got)

section Paging

variable {R α : Type} [LinearOrder α]

/-- The order of a descending column: a row without a time comes first. -/
def nullsFirst : Option α → WithTop α
  | none => ⊤
  | some a => a

/-- A listing: its rows, and the time of a row by which they are paged. -/
structure Listing (R α : Type) where
  rows : List R
  time : R → Option α

def Listing.before (L : Listing R α) (c : Option α) (r : R) : Bool :=
  match c with
  | none => true
  | some a => decide (nullsFirst (L.time r) < a)

/-- The first rows of an answer and the cursor to the others; `coarse` is the time a cursor
keeps. -/
def Listing.page (L : Listing R α) (coarse : α → α) (limit : ℕ) (answer : List R) : Page R α :=
  let rows := answer.take (limit + 1)
  let page := rows.take limit
  { items := page
    cursor := if limit < rows.length then page.getLast?.bind fun r => (L.time r).map coarse
              else none }

def Listing.ask (L : Listing R α) (coarse : α → α) (sort : ℕ → List R → List R) (limit n : ℕ)
    (c : Option α) : Page R α :=
  L.page coarse limit (sort n (L.rows.filter (L.before c)))

def Newest (time : R → Option α) (rows : List R) : Prop :=
  rows.Pairwise fun r r' => nullsFirst (time r') ≤ nullsFirst (time r)

/-- What a database promises of a descending order; rows of one time come in any order. -/
structure Sorts (time : R → Option α) (sort : List R → List R) : Prop where
  perm : ∀ rows, (sort rows).Perm rows
  newest : ∀ rows, Newest time (sort rows)

/-! ### Page boundaries -/

/-- A cursor at the first time lets the second one through. -/
def Apart (coarse : α → α) (x y : Option α) : Prop := ∃ a, x = some a ∧ nullsFirst y < coarse a

/-- Times, newest first, that are told apart at every page boundary. -/
def Spread (coarse : α → α) (limit : ℕ) (times : List (Option α)) : Prop :=
  ∀ i, 0 < i → limit ∣ i → ∀ x y, times[i - 1]? = some x → times[i]? = some y → Apart coarse x y

section Spread

variable {coarse : α → α} {limit : ℕ} {times : List (Option α)}

theorem spread_short (h : times.length ≤ limit) : Spread coarse limit times := by
  intro i hi hdvd x y _ hy
  have hlt := (List.getElem?_eq_some_iff.1 hy).1
  have hle := Nat.le_of_dvd hi hdvd
  omega

theorem spread_long (hpos : 0 < limit) (h : limit < times.length) :
    Spread coarse limit times ↔
      Apart coarse times[limit - 1] times[limit] ∧ Spread coarse limit (times.drop limit) := by
  constructor
  · intro hs
    refine ⟨hs limit hpos (Nat.dvd_refl limit) _ _ (List.getElem?_eq_getElem (by omega))
      (List.getElem?_eq_getElem h), ?_⟩
    intro i hi hdvd x y hx hy
    rw [List.getElem?_drop] at hx hy
    have hpred : limit + (i - 1) = limit + i - 1 := by omega
    rw [hpred] at hx
    exact hs (limit + i) (by omega) (Nat.dvd_add (Nat.dvd_refl limit) hdvd) x y hx hy
  · rintro ⟨hfirst, hrest⟩ i hi hdvd x y hx hy
    obtain ⟨k, rfl⟩ := hdvd
    match k with
    | 0 => omega
    | 1 =>
      rw [Nat.mul_one] at hx hy
      rw [List.getElem?_eq_getElem (by omega)] at hx hy
      rw [← Option.some.inj hx, ← Option.some.inj hy]
      exact hfirst
    | k + 2 =>
      have hsplit : limit * (k + 2) = limit + limit * (k + 1) := by
        rw [Nat.mul_add_one, Nat.add_comm]
      have hk : 0 < limit * (k + 1) := Nat.mul_pos hpos (by omega)
      have hpred : limit * (k + 2) - 1 = limit + (limit * (k + 1) - 1) := by omega
      rw [hpred, ← List.getElem?_drop] at hx
      rw [hsplit, ← List.getElem?_drop] at hy
      exact hrest (limit * (k + 1)) hk ⟨k + 1, rfl⟩ x y hx hy

end Spread

/-! ### One page -/

section Page

variable {L : Listing R α} {coarse : α → α} {limit : ℕ} {rows : List R}

omit [LinearOrder α] in
theorem Listing.page_items : (L.page coarse limit rows).items = rows.take limit := by
  simp [page, List.take_take]

omit [LinearOrder α] in
theorem Listing.page_cursor (hpos : 0 < limit) :
    (L.page coarse limit rows).cursor =
      if h : limit < rows.length then (L.time rows[limit - 1]).map coarse else none := by
  by_cases h : limit < rows.length
  · have hlast : (rows.take limit).getLast? = some rows[limit - 1] := by
      rw [List.getLast?_eq_getElem?, List.length_take, List.getElem?_take,
        if_pos (by omega), Nat.min_eq_left (by omega), List.getElem?_eq_getElem (by omega)]
    simp [page, List.take_take, h, hlast]
  · simp [page, h]

omit [LinearOrder α] in
theorem Listing.page_cursor_some (hpos : 0 < limit) {c : α}
    (h : (L.page coarse limit rows).cursor = some c) :
    ∃ (hlt : limit < rows.length) (a : α), L.time rows[limit - 1] = some a ∧ c = coarse a := by
  rw [page_cursor hpos] at h
  split at h
  · rename_i hlt
    obtain ⟨a, ha, hc⟩ := Option.map_eq_some_iff.1 h
    exact ⟨hlt, a, ha, hc.symm⟩
  · cases h

theorem Listing.newest_le (hs : Newest L.time rows) {i j : ℕ} (hij : i ≤ j) (hj : j < rows.length) :
    nullsFirst (L.time rows[j]) ≤ nullsFirst (L.time rows[i]) := by
  rcases Nat.eq_or_lt_of_le hij with rfl | hlt
  · exact le_rfl
  · exact List.pairwise_iff_getElem.1 hs i j (by omega) hj hlt

theorem Listing.before_drop (hs : Newest L.time rows) (hlt : limit < rows.length) {a : α}
    (ha : L.time rows[limit - 1] = some a) (hcoarse : coarse a ≤ a) :
    rows.filter (L.before (some (coarse a))) =
      (rows.drop limit).filter (L.before (some (coarse a))) := by
  have htake : (rows.take limit).filter (L.before (some (coarse a))) = [] := by
    rw [List.filter_eq_nil_iff]
    intro r hr hbefore
    obtain ⟨j, hj, rfl⟩ := List.getElem_of_mem hr
    rw [List.length_take] at hj
    rw [List.getElem_take] at hbefore
    have hle := newest_le hs (show j ≤ limit - 1 by omega) (by omega)
    rw [ha] at hle
    have hlow : nullsFirst (L.time rows[j]) < coarse a := of_decide_eq_true hbefore
    exact absurd (lt_of_le_of_lt hle hlow) (not_lt.2 (WithTop.coe_le_coe.2 hcoarse))
  conv_lhs => rw [← List.take_append_drop limit rows]
  rw [List.filter_append, htake, List.nil_append]

theorem Listing.before_apart (hs : Newest L.time rows) (hlt : limit < rows.length) {a : α}
    (hapart : nullsFirst (L.time rows[limit]) < coarse a) :
    (rows.drop limit).filter (L.before (some (coarse a))) = rows.drop limit := by
  rw [List.filter_eq_self]
  intro r hr
  obtain ⟨j, hj, rfl⟩ := List.getElem_of_mem hr
  rw [List.length_drop] at hj
  rw [List.getElem_drop]
  exact decide_eq_true (lt_of_le_of_lt (newest_le hs (by omega) (by omega)) hapart)

/-- Where a boundary is not told apart, a row is lost. -/
theorem Listing.before_lost (hlt : limit < rows.length) {a : α}
    (hapart : ¬ nullsFirst (L.time rows[limit]) < coarse a) :
    ((rows.drop limit).filter (L.before (some (coarse a)))).length < (rows.drop limit).length := by
  refine List.length_filter_lt_length_iff_exists.2 ⟨rows[limit], ?_, ?_⟩
  · exact List.mem_of_getElem? (i := 0) 
      (by rw [List.getElem?_drop, Nat.add_zero, List.getElem?_eq_getElem hlt])
  · exact fun h => hapart (of_decide_eq_true h)

end Page

/-! ### Following the cursors -/

def Listing.times (L : Listing R α) (rows : List R) : List (Option α) :=
  (rows.map L.time).insertionSort fun x y => nullsFirst y ≤ nullsFirst x

section Follow

variable {L : Listing R α} {coarse : α → α} {sort : ℕ → List R → List R} {limit n : ℕ}
  {c : Option α}

omit [LinearOrder α] in
theorem nullsFirst_injective : Function.Injective (nullsFirst (α := α)) := by
  intro x y h
  cases x with
  | none =>
    cases y with
    | none => rfl
    | some b => exact absurd h.symm (WithTop.coe_ne_top)
  | some a =>
    cases y with
    | none => exact absurd h (WithTop.coe_ne_top)
    | some b => rw [WithTop.coe_inj.1 h]

/-- Every sorted arrangement of the same rows has the same times. -/
theorem Listing.times_eq {rows arranged : List R} (hp : arranged.Perm rows)
    (hs : Newest L.time arranged) : arranged.map L.time = L.times rows := by
  have : Std.Total fun x y : Option α => nullsFirst y ≤ nullsFirst x :=
    ⟨fun x y => le_total (nullsFirst y) (nullsFirst x)⟩
  have : IsTrans (Option α) fun x y => nullsFirst y ≤ nullsFirst x :=
    ⟨fun x y z hxy hyz => le_trans hyz hxy⟩
  have hmap : (arranged.map L.time).Pairwise fun x y => nullsFirst y ≤ nullsFirst x :=
    List.pairwise_map.2 hs
  exact List.Perm.eq_of_pairwise
    (fun x y _ _ hxy hyx => nullsFirst_injective (le_antisymm hyx hxy)) hmap
    (List.pairwise_insertionSort _ _)
    ((hp.map L.time).trans (List.perm_insertionSort _ _).symm)

theorem Listing.before_before {a : α} {rows : List R} (hsub : rows.Perm (L.rows.filter (L.before c)))
    {r : R} (hr : r ∈ rows) {b : α} (hb : L.time r = some b) (ha : a ≤ b) :
    (L.rows.filter (L.before (some a))).Perm (rows.filter (L.before (some a))) := by
  have hfilter := (hsub.filter (L.before (some a))).symm
  rw [List.filter_filter] at hfilter
  have hboth : L.rows.filter (fun r => L.before (some a) r && L.before c r) =
      L.rows.filter (L.before (some a)) := by
    refine List.filter_congr fun x _ => ?_
    cases hx : L.before (some a) x with
    | false => rfl
    | true =>
      cases c with
      | none => rfl
      | some c =>
        have hrc : nullsFirst (L.time r) < c :=
          of_decide_eq_true (List.mem_filter.1 (hsub.mem_iff.1 hr)).2
        have hxa : nullsFirst (L.time x) < a := of_decide_eq_true hx
        rw [hb] at hrc
        have hac : (a : WithTop α) < c := lt_of_le_of_lt (WithTop.coe_le_coe.2 ha) hrc
        exact decide_eq_true (lt_trans hxa hac)
  rw [hboth] at hfilter
  exact hfilter

def Listing.rest (L : Listing R α) (c : Option α) : List R := L.rows.filter (L.before c)

variable (hsort : ∀ n, Sorts L.time (sort n)) (hcoarse : ∀ a, coarse a ≤ a) (hpos : 0 < limit)

include hsort hcoarse hpos

theorem Listing.ask_next {c' : α} (h : (L.ask coarse sort limit n c).cursor = some c') :
    ∃ (hlt : limit < (sort n (L.rest c)).length) (a : α),
      L.time (sort n (L.rest c))[limit - 1] = some a ∧ c' = coarse a ∧
      (L.rest (some c')).Perm (((sort n (L.rest c)).drop limit).filter (L.before (some c'))) := by
  obtain ⟨hlt, a, ha, rfl⟩ := page_cursor_some hpos h
  refine ⟨hlt, a, ha, rfl, ?_⟩
  have hperm : (sort n (L.rest c)).Perm (L.rest c) := (hsort n).perm _
  have hrest := before_before hperm (List.getElem_mem _) ha (hcoarse a)
  have hdrop := before_drop ((hsort n).newest (L.rest c)) hlt ha (hcoarse a)
  rw [hdrop] at hrest
  exact hrest

theorem Listing.rest_shrinks {c' : α} (h : (L.ask coarse sort limit n c).cursor = some c') :
    (L.rest (some c')).length + limit ≤ (L.rest c).length := by
  obtain ⟨hlt, a, -, -, hperm⟩ := ask_next hsort hcoarse hpos h
  have hlen := ((hsort n).perm (L.rest c)).length_eq
  have hle := List.length_filter_le (L.before (some c')) ((sort n (L.rest c)).drop limit)
  rw [hperm.length_eq]
  rw [List.length_drop] at hle
  omega

theorem Listing.collects_ends (n : ℕ) (c : Option α) :
    ∃ got, Collects (L.ask coarse sort limit) n c got := by
  induction hk : (L.rest c).length using Nat.strongRecOn generalizing n c with
  | ind k ih =>
    cases hcursor : (L.ask coarse sort limit n c).cursor with
    | none => exact ⟨_, .last hcursor⟩
    | some c' =>
      have hshrinks := rest_shrinks hsort hcoarse hpos hcursor
      obtain ⟨got, hgot⟩ := ih (L.rest (some c')).length (by omega) (n + 1) (some c') rfl
      exact ⟨_, .next hcursor hgot⟩

omit hsort hcoarse hpos in
theorem Listing.ask_items :
    (L.ask coarse sort limit n c).items = (sort n (L.rest c)).take limit := page_items

theorem Listing.collects_length {got : List R} (h : Collects (L.ask coarse sort limit) n c got) :
    got.length ≤ (L.rest c).length := by
  induction h with
  | @last n c _ =>
    have hlen := ((hsort n).perm (L.rest c)).length_eq
    rw [ask_items, List.length_take]
    omega
  | @next n c c' got h _ ih =>
    have hshrinks := rest_shrinks hsort hcoarse hpos h
    rw [List.length_append, ask_items, List.length_take]
    omega

omit hcoarse in
theorem Listing.spread_rest (n : ℕ) (hlt : limit < (sort n (L.rest c)).length) :
    Spread coarse limit (L.times (L.rest c)) ↔
      Apart coarse (L.time (sort n (L.rest c))[limit - 1]) (L.time (sort n (L.rest c))[limit]) ∧
      Spread coarse limit (((sort n (L.rest c)).drop limit).map L.time) := by
  have htimes := times_eq ((hsort n).perm (L.rest c)) ((hsort n).newest _)
  rw [← htimes, spread_long hpos (by rw [List.length_map]; exact hlt), List.getElem_map,
    List.getElem_map, List.map_drop]

/-- Where the boundaries are told apart, the client collects every row once, newest first. -/
theorem Listing.collects_all {got : List R} (h : Collects (L.ask coarse sort limit) n c got)
    (hspread : Spread coarse limit (L.times (L.rest c))) : got.Perm (L.rest c) ∧ Newest L.time got := by
  induction h with
  | @last n c hnone =>
    have hperm := (hsort n).perm (L.rest c)
    by_cases hlt : limit < (sort n (L.rest c)).length
    · obtain ⟨⟨a, ha, -⟩, -⟩ := (spread_rest hsort hpos n hlt).1 hspread
      have hcursor : (L.ask coarse sort limit n c).cursor = some (coarse a) := by
        unfold Listing.ask
        rw [page_cursor hpos, dif_pos (by exact hlt)]
        exact congrArg (Option.map coarse) ha
      rw [hnone] at hcursor
      cases hcursor
    · rw [ask_items, List.take_of_length_le (by omega)]
      exact ⟨hperm, (hsort n).newest (L.rest c)⟩
  | @next n c c' got hcursor hrest ih =>
    obtain ⟨hlt, a, ha, rfl, hnext⟩ := ask_next hsort hcoarse hpos hcursor
    have hperm := (hsort n).perm (L.rest c)
    have hnewest := (hsort n).newest (L.rest c)
    have hsplit := List.take_append_drop limit (sort n (L.rest c))
    obtain ⟨⟨b, hb, hapart⟩, htail⟩ := (spread_rest hsort hpos n hlt).1 hspread
    rw [ha] at hb
    rw [← Option.some.inj hb] at hapart
    rw [before_apart hnewest hlt hapart] at hnext
    have hdrop : Newest L.time ((sort n (L.rest c)).drop limit) := hnewest.drop
    rw [times_eq hnext.symm hdrop] at htail
    obtain ⟨hgot, hsorted⟩ := ih htail
    have hold := hgot.trans hnext
    have hwhole := (hold.append_left ((sort n (L.rest c)).take limit)).trans
      (List.Perm.of_eq hsplit)
    rw [ask_items]
    refine ⟨hwhole.trans hperm, List.pairwise_append.2 ⟨hnewest.take, hsorted, ?_⟩⟩
    intro r hr r' hr'
    have hcross : Newest L.time ((sort n (L.rest c)).take limit ++
        (sort n (L.rest c)).drop limit) := by
      rw [hsplit]
      exact hnewest
    exact (List.pairwise_append.1 hcross).2.2 r hr r' (hold.mem_iff.1 hr')

/-- Where a boundary is not, the client misses a row. -/
theorem Listing.collects_short {got : List R} (h : Collects (L.ask coarse sort limit) n c got)
    (hspread : ¬ Spread coarse limit (L.times (L.rest c))) :
    got.length < (L.rest c).length := by
  induction h with
  | @last n c hnone =>
    have hperm := (hsort n).perm (L.rest c)
    by_cases hlt : limit < (sort n (L.rest c)).length
    · rw [ask_items, List.length_take, ← hperm.length_eq]
      omega
    · refine absurd (spread_short ?_) hspread
      rw [← times_eq hperm ((hsort n).newest _), List.length_map]
      omega
  | @next n c c' got hcursor hrest ih =>
    obtain ⟨hlt, a, ha, rfl, hnext⟩ := ask_next hsort hcoarse hpos hcursor
    have hlen := ((hsort n).perm (L.rest c)).length_eq
    have hnewest := (hsort n).newest (L.rest c)
    rw [ask_items, List.length_append, List.length_take, ← hlen]
    by_cases hapart : nullsFirst (L.time (sort n (L.rest c))[limit]) < coarse a
    · rw [before_apart hnewest hlt hapart] at hnext
      have hdrop : Newest L.time ((sort n (L.rest c)).drop limit) := hnewest.drop
      have htail : ¬ Spread coarse limit (L.times (L.rest (some (coarse a)))) := by
        intro htail
        rw [← times_eq hnext.symm hdrop] at htail
        exact hspread ((spread_rest hsort hpos n hlt).2 ⟨⟨a, ha, hapart⟩, htail⟩)
      have hgot := ih htail
      rw [hnext.length_eq, List.length_drop] at hgot
      omega
    · have hgot := collects_length hsort hcoarse hpos hrest
      have hlost := before_lost hlt hapart
      rw [hnext.length_eq] at hgot
      rw [List.length_drop] at hlost
      omega

end Follow

/-- Rows of one time in the order they are in. -/
def newestSort (time : R → Option α) (rows : List R) : List R :=
  rows.insertionSort fun r r' => nullsFirst (time r') ≤ nullsFirst (time r)

theorem sorts_newestSort (time : R → Option α) : Sorts time (newestSort time) := by
  have : Std.Total fun r r' : R => nullsFirst (time r') ≤ nullsFirst (time r) :=
    ⟨fun r r' => le_total (nullsFirst (time r')) (nullsFirst (time r))⟩
  have : IsTrans R fun r r' => nullsFirst (time r') ≤ nullsFirst (time r) :=
    ⟨fun r r' r'' h h' => le_trans h' h⟩
  exact ⟨fun rows => List.perm_insertionSort _ rows, fun rows => List.pairwise_insertionSort _ rows⟩

/-! ### What an endpoint shows -/

/-- Following the cursors of `ask` ends with each row's view once, from the newest row to the
oldest. -/
def Listing.Lossless {V C : Type} (L : Listing R α) (view : R → V)
    (ask : ℕ → Option C → Page V C) : Prop :=
  ∃ rows : List R, Collects ask 0 none (rows.map view) ∧ rows.Perm L.rows ∧ Newest L.time rows

/-- The answers of a listing, each row shown by `view`. -/
def Listing.shown {V : Type} (L : Listing R α) (view : R → V) (coarse : α → α)
    (sort : ℕ → List R → List R) (limit n : ℕ) (c : Option α) : Page V α :=
  { items := (L.ask coarse sort limit n c).items.map view
    cursor := (L.ask coarse sort limit n c).cursor }

section Shown

variable {V : Type} {L : Listing R α} {view : R → V} {coarse : α → α}
  {sort : ℕ → List R → List R} {limit n : ℕ} {c : Option α}

theorem Listing.collects_shown {got : List R} (h : Collects (L.ask coarse sort limit) n c got) :
    Collects (L.shown view coarse sort limit) n c (got.map view) := by
  induction h with
  | last hnone => exact .last hnone
  | next hcursor _ ih =>
    rw [List.map_append]
    exact .next hcursor ih

theorem Listing.shown_collects {items : List V}
    (h : Collects (L.shown view coarse sort limit) n c items) :
    ∃ got, Collects (L.ask coarse sort limit) n c got ∧ items = got.map view := by
  induction h with
  | last hnone => exact ⟨_, .last hnone, rfl⟩
  | next hcursor _ ih =>
    obtain ⟨got, hgot, rfl⟩ := ih
    exact ⟨_, .next hcursor hgot, (List.map_append ..).symm⟩

theorem Listing.lossless_iff (hsort : ∀ n, Sorts L.time (sort n)) (hcoarse : ∀ a, coarse a ≤ a)
    (hpos : 0 < limit) :
    L.Lossless view (L.shown view coarse sort limit) ↔ Spread coarse limit (L.times L.rows) := by
  have hrest : L.rest none = L.rows := by
    unfold Listing.rest
    rw [List.filter_eq_self]
    exact fun _ _ => rfl
  constructor
  · rintro ⟨rows, hrows, hperm, -⟩
    by_contra hspread
    obtain ⟨got, hgot, hitems⟩ := shown_collects hrows
    rw [← hrest] at hspread hperm
    have hshort := collects_short hsort hcoarse hpos hgot hspread
    have hlen := congrArg List.length hitems
    rw [List.length_map, List.length_map, hperm.length_eq] at hlen
    omega
  · intro hspread
    obtain ⟨got, hgot⟩ := collects_ends hsort hcoarse hpos 0 none
    rw [← hrest] at hspread
    obtain ⟨hperm, hnewest⟩ := collects_all hsort hcoarse hpos hgot hspread
    rw [hrest] at hperm
    exact ⟨got, collects_shown hgot, hperm, hnewest⟩

end Shown

end Paging

end Atradio.Lib
