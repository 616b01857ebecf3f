import Mathlib.Data.List.Induction
import Mathlib.Data.List.Basic
import Mathlib.Data.List.Nodup

/-! # Keyed tables

Rows in insertion order, at most one for each key. This is a database table with a
primary key, and the `Map` of JavaScript when every value is stored under a key of its
own: `put` on a present key replaces the row where it stands, `put` on a new key
appends, iteration is in row order. `JsMap` is the case of key and value pairs. -/

namespace Atradio.Lib

variable {K V : Type}

def putRow [DecidableEq K] (key : V → K) (v : V) : List V → List V
  | [] => [v]
  | u :: l => if key u = key v then v :: l else u :: putRow key v l

theorem putRow_keys [DecidableEq K] (key : V → K) (v : V) (l : List V) :
    (putRow key v l).map key =
      if key v ∈ l.map key then l.map key else l.map key ++ [key v] := by
  induction l with
  | nil => rfl
  | cons u l ih =>
    by_cases hu : key u = key v
    · simp [putRow, hu]
    · have hv : key v ≠ key u := fun h => hu h.symm
      simp only [putRow, hu, ite_false, List.map_cons, ih, List.mem_cons, hv, false_or]
      split <;> simp

theorem mem_putRow [DecidableEq K] (key : V → K) (v : V) (l : List V)
    (hl : (l.map key).Nodup) (u : V) :
    u ∈ putRow key v l ↔ u = v ∨ (u ∈ l ∧ key u ≠ key v) := by
  induction l with
  | nil => simp [putRow]
  | cons a l ih =>
    simp only [List.map_cons, List.nodup_cons] at hl
    by_cases ha : key a = key v
    · have hne : ∀ b ∈ l, key b ≠ key v := fun b hb h =>
        hl.1 (ha ▸ h ▸ List.mem_map_of_mem hb)
      simp only [putRow, ha, ite_true, List.mem_cons]
      constructor
      · rintro (h | h)
        · exact Or.inl h
        · exact Or.inr ⟨Or.inr h, hne u h⟩
      · rintro (h | ⟨h | h, h'⟩)
        · exact Or.inl h
        · exact (h' (h ▸ ha)).elim
        · exact Or.inr h
    · simp only [putRow, ha, ite_false, List.mem_cons, ih hl.2]
      constructor
      · rintro (h | h | h)
        · exact Or.inr ⟨Or.inl h, h ▸ ha⟩
        · exact Or.inl h
        · exact Or.inr ⟨Or.inr h.1, h.2⟩
      · rintro (h | ⟨h | h, h'⟩)
        · exact Or.inr (Or.inl h)
        · exact Or.inl h
        · exact Or.inr (Or.inr ⟨h, h'⟩)

/-- Rows of which no two have the same key. -/
structure Table (key : V → K) where
  rows : List V
  nodup : (rows.map key).Nodup

namespace Table

variable {key : V → K}

def empty : Table key := ⟨[], List.nodup_nil⟩

instance : Inhabited (Table key) := ⟨empty⟩

def size (t : Table key) : ℕ := t.rows.length

theorem eq_of_key {t : Table key} {u v : V} (hu : u ∈ t.rows) (hv : v ∈ t.rows)
    (h : key u = key v) : u = v := List.inj_on_of_nodup_map t.nodup hu hv h

theorem size_eq_zero (t : Table key) : t.size = 0 ↔ t = empty := by
  obtain ⟨l, hl⟩ := t
  simp [size, empty, List.length_eq_zero_iff]

@[simp] theorem rows_empty : (empty : Table key).rows = [] := rfl
@[simp] theorem size_empty : (empty : Table key).size = 0 := rfl

theorem ext {t t' : Table key} (h : t.rows = t'.rows) : t = t' := by
  cases t
  cases t'
  cases h
  rfl

def mapRows (f : V → V) (hf : ∀ v, key (f v) = key v) (t : Table key) : Table key :=
  ⟨t.rows.map f, by
    have h : (t.rows.map f).map key = t.rows.map key := by simp [Function.comp_def, hf]
    rw [h]
    exact t.nodup⟩

def filter (p : V → Bool) (t : Table key) : Table key :=
  ⟨t.rows.filter p, t.nodup.sublist (List.filter_sublist.map key)⟩

theorem mem_filter (t : Table key) (p : V → Bool) (u : V) :
    u ∈ (t.filter p).rows ↔ u ∈ t.rows ∧ p u := List.mem_filter

def drop (n : ℕ) (t : Table key) : Table key :=
  ⟨t.rows.drop n, t.nodup.sublist ((List.drop_sublist n t.rows).map key)⟩

variable [DecidableEq K]

def get (t : Table key) (k : K) : Option V := t.rows.find? fun v => key v = k

def put (t : Table key) (v : V) : Table key :=
  ⟨putRow key v t.rows, by
    rw [putRow_keys]
    split
    · exact t.nodup
    · rename_i h
      rw [List.nodup_append]
      refine ⟨t.nodup, by simp, ?_⟩
      intro a ha b hb hab
      rw [List.mem_singleton] at hb
      exact h (hb ▸ hab ▸ ha)⟩

def delete (t : Table key) (k : K) : Table key := t.filter fun v => key v ≠ k

theorem get_eq_some (t : Table key) (k : K) (v : V) :
    t.get k = some v ↔ v ∈ t.rows ∧ key v = k := by
  have main : ∀ l : List V, (l.map key).Nodup →
      ((l.find? fun u => key u = k) = some v ↔ v ∈ l ∧ key v = k) := by
    intro l hl
    induction l with
    | nil => simp
    | cons u l ih =>
      simp only [List.map_cons, List.nodup_cons] at hl
      by_cases hu : key u = k
      · rw [List.find?_cons_of_pos (by simpa using hu), Option.some.injEq]
        constructor
        · rintro rfl
          exact ⟨List.mem_cons_self .., hu⟩
        · rintro ⟨h, hv⟩
          rcases List.mem_cons.1 h with h | h
          · exact h.symm
          · exact (hl.1 (hu ▸ hv ▸ List.mem_map_of_mem h)).elim
      · have hne : key v = k → v ≠ u := fun h h' => hu (h' ▸ h)
        rw [List.find?_cons_of_neg (by simpa using hu), ih hl.2, List.mem_cons]
        constructor
        · rintro ⟨h, hv⟩
          exact ⟨Or.inr h, hv⟩
        · rintro ⟨h | h, hv⟩
          · exact (hne hv h).elim
          · exact ⟨h, hv⟩
  exact main t.rows t.nodup

theorem key_of_get {t : Table key} {k : K} {v : V} (h : t.get k = some v) : key v = k :=
  ((t.get_eq_some k v).1 h).2

theorem mem_rows (t : Table key) (v : V) : v ∈ t.rows ↔ t.get (key v) = some v := by
  rw [get_eq_some, and_iff_left rfl]

theorem get_eq_none (t : Table key) (k : K) : t.get k = none ↔ ∀ v ∈ t.rows, key v ≠ k := by
  simp only [get, List.find?_eq_none, decide_eq_true_eq, ne_eq]

theorem get_congr {t t' : Table key} {k : K}
    (h : ∀ v, key v = k → (v ∈ t.rows ↔ v ∈ t'.rows)) : t.get k = t'.get k := by
  apply Option.ext
  intro v
  rw [t.get_eq_some, t'.get_eq_some]
  exact and_congr_left (h v)

@[simp] theorem get_empty (k : K) : (empty : Table key).get k = none := rfl

theorem mem_put (t : Table key) (v u : V) :
    u ∈ (t.put v).rows ↔ u = v ∨ (u ∈ t.rows ∧ key u ≠ key v) :=
  mem_putRow key v t.rows t.nodup u

theorem mem_keys_put (t : Table key) (v : V) (k : K) :
    k ∈ (t.put v).rows.map key ↔ k ∈ t.rows.map key ∨ k = key v := by
  have hkeys : (t.put v).rows.map key = _ := putRow_keys key v t.rows
  rw [hkeys]
  split
  · rename_i hmem
    refine (or_iff_left_of_imp ?_).symm
    rintro rfl
    exact hmem
  · rw [List.mem_append, List.mem_singleton]

theorem mem_foldl_put {W : Type} (f : W → V) (l : List W) (t : Table key) {v : V}
    (h : v ∈ (l.foldl (fun m w => m.put (f w)) t).rows) : v ∈ t.rows ∨ ∃ w ∈ l, v = f w := by
  induction l generalizing t with
  | nil => exact Or.inl h
  | cons w l ih =>
    rcases ih (t.put (f w)) h with h' | ⟨w', hw', hv⟩
    · rcases (t.mem_put (f w) v).1 h' with h'' | h''
      · exact Or.inr ⟨w, List.mem_cons_self .., h''⟩
      · exact Or.inl h''.1
    · exact Or.inr ⟨w', List.mem_cons_of_mem _ hw', hv⟩

theorem rows_put_new (t : Table key) (v : V) (h : ∀ u ∈ t.rows, key u ≠ key v) :
    (t.put v).rows = t.rows ++ [v] := by
  have main : ∀ l : List V, (∀ u ∈ l, key u ≠ key v) → putRow key v l = l ++ [v] := by
    intro l hl
    induction l with
    | nil => rfl
    | cons u l ih =>
      rw [putRow, if_neg (hl u (List.mem_cons_self ..)),
        ih fun w hw => hl w (List.mem_cons_of_mem _ hw)]
      rfl
  exact main t.rows h

theorem mem_put_new (t : Table key) {v : V} (h : ∀ u ∈ t.rows, key u ≠ key v) {u : V} :
    u ∈ (t.put v).rows ↔ u = v ∨ u ∈ t.rows := by
  rw [rows_put_new t v h, List.mem_append, List.mem_singleton, or_comm]

theorem rows_put_split {t : Table key} {pre post : List V} {u v : V}
    (ht : t.rows = pre ++ u :: post) (hk : key u = key v) :
    (t.put v).rows = pre ++ v :: post := by
  have main : ∀ l : List V, (∀ w ∈ l, key w ≠ key v) →
      putRow key v (l ++ u :: post) = l ++ v :: post := by
    intro l hl
    induction l with
    | nil => rw [List.nil_append, List.nil_append, putRow, if_pos hk]
    | cons w l ih =>
      rw [List.cons_append, putRow, if_neg (hl w (List.mem_cons_self ..)),
        ih fun x hx => hl x (List.mem_cons_of_mem _ hx)]
      rfl
  have hnodup := t.nodup
  rw [ht, List.map_append, List.map_cons] at hnodup
  show putRow key v t.rows = _
  rw [ht]
  refine main pre fun w hw hwv => ?_
  exact (List.nodup_append.1 hnodup).2.2 (key w) (List.mem_map_of_mem hw) (key u)
    (List.mem_cons_self ..) (hwv.trans hk.symm)

theorem rows_delete_split {t : Table key} {pre post : List V} {u : V} {k : K}
    (ht : t.rows = pre ++ u :: post) (hk : key u = k) : (t.delete k).rows = pre ++ post := by
  have hnodup := t.nodup
  rw [ht, List.map_append, List.map_cons] at hnodup
  obtain ⟨_, hpost, hdisj⟩ := List.nodup_append.1 hnodup
  have hne : ∀ w, w ∈ pre ∨ w ∈ post → key w ≠ k := by
    intro w hw hwk
    rcases hw with hw | hw
    · exact hdisj (key w) (List.mem_map_of_mem hw) (key u) (List.mem_cons_self ..)
        (hwk.trans hk.symm)
    · exact (List.nodup_cons.1 hpost).1 (hk.trans hwk.symm ▸ List.mem_map_of_mem hw)
  show t.rows.filter _ = _
  rw [ht, List.filter_append, List.filter_cons_of_neg (by simp [hk]),
    List.filter_eq_self.2 fun w hw => by simp [hne w (Or.inl hw)],
    List.filter_eq_self.2 fun w hw => by simp [hne w (Or.inr hw)]]

theorem rows_foldl_put {W : Type} (f : W → V) (l : List W) (t : Table key)
    (hl : (l.map fun w => key (f w)).Nodup)
    (hnew : ∀ w ∈ l, ∀ u ∈ t.rows, key u ≠ key (f w)) :
    (l.foldl (fun m w => m.put (f w)) t).rows = t.rows ++ l.map f := by
  induction l generalizing t with
  | nil => simp
  | cons w l ih =>
    simp only [List.map_cons, List.nodup_cons, List.mem_map] at hl
    have hput := t.rows_put_new (f w) (hnew w (List.mem_cons_self ..))
    have htail : ∀ x ∈ l, ∀ u ∈ (t.put (f w)).rows, key u ≠ key (f x) := by
      intro x hx u hu hux
      rcases (t.mem_put (f w) u).1 hu with rfl | hu
      · exact hl.1 ⟨x, hx, hux.symm⟩
      · exact hnew x (List.mem_cons_of_mem _ hx) u hu.1 hux
    rw [List.foldl_cons, ih (t.put (f w)) hl.2 htail, hput]
    simp

theorem mem_delete (t : Table key) (k : K) (u : V) :
    u ∈ (t.delete k).rows ↔ u ∈ t.rows ∧ key u ≠ k := by
  simp [delete, mem_filter]

theorem get_put (t : Table key) (v : V) (k : K) :
    (t.put v).get k = if k = key v then some v else t.get k := by
  by_cases h : k = key v
  · rw [if_pos h, get_eq_some, mem_put]
    exact ⟨Or.inl rfl, h.symm⟩
  · rw [if_neg h]
    refine get_congr fun u hu => ?_
    rw [mem_put, hu]
    constructor
    · rintro (rfl | h')
      · exact (h hu.symm).elim
      · exact h'.1
    · exact fun h' => Or.inr ⟨h', h⟩

@[simp] theorem get_put_self (t : Table key) (v : V) : (t.put v).get (key v) = some v := by
  rw [get_put, if_pos rfl]

theorem get_put_ne (t : Table key) {v : V} {k : K} (h : k ≠ key v) :
    (t.put v).get k = t.get k := by
  rw [get_put, if_neg h]

/-- The rows put on top of a table hide what it has under their keys. -/
theorem get_foldl_put {W : Type} {key' : W → K} (f : W → V) (hf : ∀ w, key (f w) = key' w)
    (u : Table key') (t : Table key) (k : K) :
    (u.rows.foldl (fun m w => m.put (f w)) t).get k = ((u.get k).map f).or (t.get k) := by
  have main : ∀ (l : List W) (t : Table key), (l.map key').Nodup →
      (l.foldl (fun m w => m.put (f w)) t).get k =
        ((l.find? fun w => key' w = k).map f).or (t.get k) := by
    intro l
    induction l with
    | nil => exact fun t _ => rfl
    | cons w l ih =>
      intro t hl
      obtain ⟨hw, hl⟩ := List.nodup_cons.1 hl
      rw [List.foldl_cons, ih _ hl, get_put, hf]
      by_cases hk : key' w = k
      · have hnone : (l.find? fun w => key' w = k) = none := by
          rw [List.find?_eq_none]
          intro x hx hxk
          exact hw (hk.trans (of_decide_eq_true hxk).symm ▸ List.mem_map_of_mem hx)
        rw [hnone, if_pos hk.symm, List.find?_cons_of_pos (by simpa using hk)]
        rfl
      · rw [if_neg (Ne.symm hk), List.find?_cons_of_neg (by simpa using hk)]
  exact main u.rows t u.nodup

theorem get_filter (t : Table key) (p : V → Bool) (k : K) :
    (t.filter p).get k = (t.get k).filter p := by
  apply Option.ext
  intro v
  rw [get_eq_some, Option.filter_eq_some_iff, get_eq_some, mem_filter]
  exact and_right_comm

theorem get_delete (t : Table key) (k k' : K) :
    (t.delete k).get k' = if k' = k then none else t.get k' := by
  by_cases h : k' = k
  · rw [if_pos h, get_eq_none]
    intro v hv
    rw [mem_delete] at hv
    exact h ▸ hv.2
  · rw [if_neg h]
    refine get_congr fun u hu => ?_
    rw [mem_delete, hu]
    exact and_iff_left h

@[simp] theorem get_delete_self (t : Table key) (k : K) : (t.delete k).get k = none := by
  rw [get_delete, if_pos rfl]

theorem get_foldl_delete (ks : List K) (t : Table key) (k : K) :
    (ks.foldl delete t).get k = if k ∈ ks then none else t.get k := by
  induction ks generalizing t with
  | nil => simp
  | cons x ks ih =>
    rw [List.foldl_cons, ih, get_delete]
    by_cases hks : k ∈ ks
    · simp [hks]
    · by_cases hx : k = x
      · simp [hx]
      · simp [hks, hx]

/-- Rows that are put do not count where they have other keys. -/
theorem get_foldl_put_filter (p : V → Bool) (l : List V) {t t' : Table key} {k : K}
    (hp : ∀ v ∈ l, key v = k → p v = true) (h : t.get k = t'.get k) :
    ((l.filter p).foldl put t).get k = (l.foldl put t').get k := by
  induction l generalizing t t' with
  | nil => exact h
  | cons v l ih =>
    obtain ⟨hv, hl⟩ := List.forall_mem_cons.1 hp
    by_cases hpv : p v = true
    · rw [List.filter_cons_of_pos hpv, List.foldl_cons, List.foldl_cons]
      refine ih hl ?_
      rw [get_put, get_put, h]
    · have hne : k ≠ key v := fun hk => hpv (hv hk.symm)
      rw [List.filter_cons_of_neg hpv, List.foldl_cons]
      refine ih hl ?_
      rw [get_put_ne t' hne, h]

theorem exists_get_foldl_put (l : List V) {t : Table key} {k : K} (h : ∃ v, t.get k = some v) :
    ∃ v, (l.foldl put t).get k = some v := by
  induction l generalizing t with
  | nil => exact h
  | cons u l ih =>
    refine ih ?_
    rw [get_put]
    by_cases hk : k = key u
    · exact ⟨u, if_pos hk⟩
    · rw [if_neg hk]
      exact h

theorem get_mapRows (f : V → V) (hf : ∀ v, key (f v) = key v) (t : Table key) (k : K) :
    (t.mapRows f hf).get k = (t.get k).map f := by
  have main : ∀ l : List V,
      ((l.map f).find? fun v => key v = k) = (l.find? fun v => key v = k).map f := by
    intro l
    induction l with
    | nil => rfl
    | cons u l ih =>
      by_cases hu : key u = k
      · have hfu : key (f u) = k := (hf u).trans hu
        rw [List.map_cons, List.find?_cons_of_pos (by simpa using hfu),
          List.find?_cons_of_pos (by simpa using hu), Option.map_some]
      · have hfu : key (f u) ≠ k := fun h => hu ((hf u).symm.trans h)
        rw [List.map_cons, List.find?_cons_of_neg (by simpa using hfu),
          List.find?_cons_of_neg (by simpa using hu), ih]
  exact main t.rows

/-- `ON CONFLICT DO NOTHING` -/
def insertNew (t : Table key) (v : V) : Table key :=
  match t.get (key v) with
  | none => t.put v
  | some _ => t

theorem get_insertNew (t : Table key) (v : V) (k : K) :
    (t.insertNew v).get k = if k = key v then (t.get k).or (some v) else t.get k := by
  unfold insertNew
  by_cases hk : k = key v
  · subst hk
    rw [if_pos rfl]
    cases hv : t.get (key v) with
    | none => exact t.get_put_self v
    | some u => exact hv
  · rw [if_neg hk]
    cases t.get (key v) with
    | none => exact t.get_put_ne hk
    | some u => rfl

theorem rows_foldl_insertNew (l : List V) (t : Table key) (hl : (l.map key).Nodup) :
    (l.foldl insertNew t).rows = t.rows ++ l.filter fun v => (t.get (key v)).isNone := by
  induction l generalizing t with
  | nil => simp
  | cons v l ih =>
    obtain ⟨hv, hl⟩ := List.nodup_cons.1 hl
    have hsame : ∀ u ∈ l, (t.insertNew v).get (key u) = t.get (key u) := by
      intro u hu
      rw [get_insertNew, if_neg]
      intro hk
      exact hv (hk ▸ List.mem_map_of_mem hu)
    have hfilter : (l.filter fun u => ((t.insertNew v).get (key u)).isNone) =
        l.filter fun u => (t.get (key u)).isNone := by
      apply List.filter_congr
      intro u hu
      rw [hsame u hu]
    rw [List.foldl_cons, ih _ hl, hfilter, List.filter_cons]
    cases hget : t.get (key v) with
    | none =>
      have hnew := rows_put_new t v ((get_eq_none t (key v)).1 hget)
      simp [insertNew, hget, hnew]
    | some u => simp [insertNew, hget]

theorem get_foldl_insertNew (l : List V) (t : Table key) (k : K) :
    (l.foldl insertNew t).get k = (t.get k).or (l.find? fun v => key v = k) := by
  induction l generalizing t with
  | nil => simp
  | cons v l ih =>
    rw [List.foldl_cons, ih, get_insertNew, List.find?_cons]
    by_cases hk : key v = k
    · cases t.get k <;> simp [hk]
    · simp [hk, Ne.symm hk]

/-- The keys stand in the order in which they came first. -/
theorem keys_foldl_insertNew (l : List V) :
    (l.foldl insertNew (empty : Table key)).rows.map key = (l.map key).eraseDups := by
  induction l using List.reverseRecOn with
  | nil => rfl
  | append_singleton l v ih =>
    rw [List.foldl_append, List.map_append, List.eraseDups_append, ← ih, List.foldl_cons,
      List.foldl_nil]
    have hget := get_foldl_insertNew l (empty : Table key) (key v)
    rw [get_empty, Option.none_or] at hget
    cases hfind : l.find? fun u => key u = key v with
    | none =>
      have hnew := (get_eq_none _ (key v)).1 (hget.trans hfind)
      have hnot : key v ∉ l.map key := by
        simpa using List.find?_eq_none.1 hfind
      rw [insertNew, hget, hfind]
      dsimp only
      have hrest : [key v].removeAll (l.map key) = [key v] :=
        List.filter_eq_self.2 (by simpa using hnot)
      rw [rows_put_new _ v hnew, List.map_append, List.map_singleton, hrest]
      rfl
    | some u =>
      have hmem : key v ∈ l.map key := by
        have hkey : key u = key v := by simpa using List.find?_some hfind
        exact hkey ▸ List.mem_map_of_mem (List.mem_of_find?_eq_some hfind)
      have hrest : [key v].removeAll (l.map key) = [] :=
        List.filter_eq_nil_iff.2 (by simpa using hmem)
      rw [insertNew, hget, hfind, List.map_singleton, hrest]
      exact (List.append_nil _).symm

/-- `ON CONFLICT DO UPDATE`; `set` assigns to columns other than the key. -/
def upsert (t : Table key) (v : V) (set : V → V) : Table key :=
  match t.get (key v) with
  | none => t.put v
  | some u => t.put (set u)

theorem get_upsert (t : Table key) (v : V) {set : V → V} (hset : ∀ u, key (set u) = key u) (k : K) :
    (t.upsert v set).get k =
      if k = key v then some (((t.get k).map set).getD v) else t.get k := by
  unfold upsert
  cases hv : t.get (key v) with
  | none =>
    dsimp only
    rw [get_put]
    split
    · rename_i hk
      rw [hk, hv]
      rfl
    · rfl
  | some u =>
    have hu : key (set u) = key v := (hset u).trans (key_of_get hv)
    dsimp only
    rw [get_put, hu]
    split
    · rename_i hk
      rw [hk, hv]
      rfl
    · rfl

end Table

/-- A map in insertion order, as a table of entries. -/
abbrev JsMap (K V : Type) := Table (Prod.fst : K × V → K)

namespace JsMap

variable [DecidableEq K]

def find (m : JsMap K V) (k : K) : Option V := (m.get k).map Prod.snd

def set (m : JsMap K V) (k : K) (v : V) : JsMap K V := m.put (k, v)

@[simp] theorem find_empty (k : K) : JsMap.find (Table.empty : JsMap K V) k = none := rfl

theorem find_set (m : JsMap K V) (k k' : K) (v : V) :
    find (set m k v) k' = if k' = k then some v else find m k' := by
  simp only [find, set, Table.get_put]
  split <;> rfl

/-- A key that is there keeps its place; a new one goes to the end. -/
theorem set_cases (m : JsMap K V) (k : K) (v : V) :
    (∃ front old back, m.rows = front ++ (k, old) :: back ∧
        (set m k v).rows = front ++ (k, v) :: back) ∨
      (∀ e ∈ m.rows, e.1 ≠ k) ∧ (set m k v).rows = m.rows ++ [(k, v)] := by
  by_cases h : ∃ e ∈ m.rows, e.1 = k
  · obtain ⟨⟨_, old⟩, he, rfl⟩ := h
    obtain ⟨front, back, hrows⟩ := List.append_of_mem he
    exact Or.inl ⟨front, old, back, hrows, Table.rows_put_split hrows rfl⟩
  · have hnew : ∀ e ∈ m.rows, e.1 ≠ k := fun e he hk => h ⟨e, he, hk⟩
    exact Or.inr ⟨hnew, Table.rows_put_new m (k, v) hnew⟩

theorem find_eq_some (m : JsMap K V) (k : K) (v : V) :
    find m k = some v ↔ (k, v) ∈ m.rows := by
  unfold find
  rw [Option.map_eq_some_iff]
  constructor
  · rintro ⟨e, he, rfl⟩
    obtain ⟨hmem, rfl⟩ := (m.get_eq_some k e).1 he
    exact hmem
  · exact fun h => ⟨(k, v), (m.get_eq_some k _).2 ⟨h, rfl⟩, rfl⟩

theorem find_delete (m : JsMap K V) (k k' : K) :
    find (m.delete k) k' = if k' = k then none else find m k' := by
  simp only [find, Table.get_delete]
  split <;> rfl

def mapVals (f : V → V) (m : JsMap K V) : JsMap K V :=
  m.mapRows (fun e => (e.1, f e.2)) fun _ => rfl

theorem find_mapVals (f : V → V) (m : JsMap K V) (k : K) :
    find (mapVals f m) k = (find m k).map f := by
  simp only [find, mapVals, Table.get_mapRows, Option.map_map]
  rfl

end JsMap

end Atradio.Lib
