import Mathlib.Data.List.Basic
import Atradio.Lib.Run
import Atradio.Lib.Table
import Atradio.Lexicons.Mappers

/-! # The favorite button of the mobile app (`FavoriteButton.tsx`, `useFavorites.ts`)

A toggle cancels the refreshes of the cached list, edits the list, awaits the write, and then
cancels and edits again, or restores its one station. Refreshes read the repository and
replace the cached list. -/

namespace Atradio.App
open Atradio.Lib Atradio.Lexicons

/-- Where a toggle is; `existing` is the station as the list held it. -/
inductive Phase where
  | cancelling
  /-- The request is in flight; `written` when it has taken effect. -/
  | writing (previous : List Station) (existing : Option Station) (written : Bool)
  | reapplying (existing : Option Station)

structure Toggle where
  ticket : ℕ
  station : Station
  phase : Phase

/-- A refresh in flight, with the repository as it was when the refresh read it. -/
structure Refresh where
  ticket : ℕ
  snapshot : Option (List Station)

structure State where
  repo : List Station
  cache : List Station
  started : ℕ
  refreshes : Table Refresh.ticket
  pending : Table Toggle.ticket
  settled : List (Station × Bool)

inductive Event where
  | toggle (station : Station)
  /-- An awaited `cancelQueries` has returned. -/
  | cancelled (ticket : ℕ)
  | write (ticket : ℕ)
  | answered (ticket : ℕ) (ok : Bool)
  | refresh
  | read (ticket : ℕ)
  | refreshed (ticket : ℕ)
  | refreshFailed (ticket : ℕ)

def without (station : Station) (old : List Station) : List Station :=
  old.filter fun item => item.id ≠ station.id

/-- `apply` -/
def applyToggle (existing : Option Station) (station : Station) (old : List Station) :
    List Station :=
  if existing.isSome then without station old else station :: without station old

/-- Put this station back where it was. -/
def restore (previous : List Station) (existing : Option Station) (station : Station)
    (old : List Station) : List Station :=
  let rest := without station old
  match existing with
  | none => rest
  | some item =>
    rest.insertIdx (min (previous.findIdx fun x => x.id = station.id) rest.length) item

/-- What `favorite` and `unfavorite` of the agent do to the repository. -/
def writeRepo (existing : Option Station) (station : Station) (repo : List Station) :
    List Station :=
  if existing.isSome then without station repo else without station repo ++ [station]

/-- `[...new Map(stations.map((station) => [station.id, station])).values()]` -/
def loadFavorites (stations : List Station) : List Station :=
  (stations.foldl Table.put (Table.empty : Table Station.id)).rows

def enterPhase (s : State) (t : Toggle) (phase : Phase) : State :=
  { s with pending := s.pending.put { t with phase } }

def finish (s : State) (t : Toggle) (cache : List Station) (ok : Bool) : State :=
  { s with cache, pending := s.pending.delete t.ticket, settled := (t.station, ok) :: s.settled }

/-- `toggle` up to its first await. -/
def start (s : State) (station : Station) : State :=
  { s with
    started := s.started + 1
    refreshes := Table.empty
    pending := s.pending.put ⟨s.started, station, .cancelling⟩ }

def onCancelled (s : State) (t : Toggle) : State :=
  match t.phase with
  | .cancelling =>
    let previous := s.cache
    let existing := previous.find? fun item => item.id = t.station.id
    enterPhase { s with cache := applyToggle existing t.station s.cache } t
      (.writing previous existing false)
  | .writing _ _ _ => s
  | .reapplying existing => finish s t (applyToggle existing t.station s.cache) true

def onWrite (s : State) (t : Toggle) : State :=
  match t.phase with
  | .writing previous existing false =>
    enterPhase { s with repo := writeRepo existing t.station s.repo } t
      (.writing previous existing true)
  | _ => s

/-- A request succeeds after it has taken effect, or fails without effect. -/
def onAnswer (s : State) (t : Toggle) (ok : Bool) : State :=
  match t.phase, ok with
  | .writing _ existing true, true =>
    enterPhase { s with refreshes := Table.empty } t (.reapplying existing)
  | .writing previous existing false, false =>
    finish s t (restore previous existing t.station s.cache) false
  | _, _ => s

def onRefreshed (s : State) (r : Refresh) : State :=
  match r.snapshot with
  | some stations =>
    { s with cache := loadFavorites stations, refreshes := s.refreshes.delete r.ticket }
  | none => s

def step (s : State) : Event → State
  | .toggle station => start s station
  | .cancelled n => (s.pending.get n).elim s (onCancelled s)
  | .write n => (s.pending.get n).elim s (onWrite s)
  | .answered n ok => (s.pending.get n).elim s (onAnswer s · ok)
  | .refresh =>
    { s with started := s.started + 1, refreshes := s.refreshes.put ⟨s.started, none⟩ }
  | .read n => (s.refreshes.get n).elim s fun r =>
    { s with refreshes := s.refreshes.put { r with snapshot := some s.repo } }
  | .refreshed n => (s.refreshes.get n).elim s (onRefreshed s)
  | .refreshFailed n => { s with refreshes := s.refreshes.delete n }

def State.init (repo cache : List Station) : State :=
  { repo, cache, started := 0, refreshes := Table.empty, pending := Table.empty, settled := [] }

/-- The station has not been toggled before. -/
def Fresh (s : State) : Event → Prop
  | .toggle station => (∀ t ∈ s.pending.rows, t.station.id ≠ station.id) ∧
      ∀ r ∈ s.settled, r.1.id ≠ station.id
  | _ => True

instance (s : State) (e : Event) : Decidable (Fresh s e) :=
  match e with
  | .toggle _ => inferInstanceAs (Decidable (_ ∧ _))
  | .cancelled _ | .write _ | .answered _ _ | .refresh | .read _ | .refreshed _
  | .refreshFailed _ => inferInstanceAs (Decidable True)

/-! ### Station ids of the edited lists -/

theorem mem_without {station : Station} {l : List Station} {k : String} :
    k ∈ ids (without station l) ↔ k ∈ ids l ∧ k ≠ station.id := by
  simp only [mem_ids, without, List.mem_filter, decide_eq_true_eq]
  constructor
  · rintro ⟨x, ⟨hx, hne⟩, rfl⟩
    exact ⟨⟨x, hx, rfl⟩, hne⟩
  · rintro ⟨⟨x, hx, rfl⟩, hne⟩
    exact ⟨x, ⟨hx, hne⟩, rfl⟩

theorem nodup_without {station : Station} {l : List Station} (h : (ids l).Nodup) :
    (ids (without station l)).Nodup :=
  h.sublist (List.filter_sublist.map Station.id)

theorem mem_applyToggle {existing : Option Station} {station : Station} {l : List Station}
    {k : String} : k ∈ ids (applyToggle existing station l) ↔
      if k = station.id then existing.isSome = false else k ∈ ids l := by
  unfold applyToggle
  cases existing with
  | none =>
    have hcons : k ∈ ids (station :: without station l) ↔
        k = station.id ∨ k ∈ ids (without station l) := List.mem_cons
    rw [if_neg (by simp), hcons, mem_without]
    by_cases hk : k = station.id
    · simp [hk]
    · simp [hk]
  | some item =>
    by_cases hk : k = station.id
    · simp [hk, mem_without]
    · simp [hk, mem_without]

theorem nodup_applyToggle {existing : Option Station} {station : Station} {l : List Station}
    (h : (ids l).Nodup) : (ids (applyToggle existing station l)).Nodup := by
  unfold applyToggle
  cases existing with
  | none =>
    have hnew : station.id ∉ ids (without station l) := fun hmem => (mem_without.1 hmem).2 rfl
    exact List.nodup_cons.2 ⟨hnew, nodup_without h⟩
  | some item => exact nodup_without h

theorem mem_writeRepo {existing : Option Station} {station : Station} {l : List Station}
    {k : String} : k ∈ ids (writeRepo existing station l) ↔
      if k = station.id then existing.isSome = false else k ∈ ids l := by
  unfold writeRepo
  cases existing with
  | none =>
    have happend : k ∈ ids (without station l ++ [station]) ↔
        k ∈ ids (without station l) ∨ k = station.id := by
      unfold ids
      rw [List.map_append, List.mem_append]
      simp
    rw [if_neg (by simp), happend, mem_without]
    by_cases hk : k = station.id
    · simp [hk]
    · simp [hk]
  | some item =>
    by_cases hk : k = station.id
    · simp [hk, mem_without]
    · simp [hk, mem_without]

theorem perm_restore {previous : List Station} {existing : Option Station} {station : Station}
    {l : List Station} : (restore previous existing station l).Perm
      (existing.toList ++ without station l) := by
  unfold restore
  cases existing with
  | none => exact List.Perm.refl _
  | some item => exact List.perm_insertIdx item _ (Nat.min_le_right _ _)

theorem mem_restore {previous : List Station} {existing : Option Station} {station : Station}
    (hid : ∀ item, existing = some item → item.id = station.id) {l : List Station} {k : String} :
    k ∈ ids (restore previous existing station l) ↔
      if k = station.id then existing.isSome = true else k ∈ ids l := by
  have hperm : k ∈ ids (restore previous existing station l) ↔
      k ∈ ids (existing.toList ++ without station l) := (perm_restore.map Station.id).mem_iff
  cases existing with
  | none =>
    have hrest : k ∈ ids ((none : Option Station).toList ++ without station l) ↔
        k ∈ ids l ∧ k ≠ station.id := mem_without
    rw [hperm, hrest]
    by_cases hk : k = station.id
    · simp [hk]
    · simp [hk]
  | some item =>
    have hcons : k ∈ ids ((some item).toList ++ without station l) ↔
        k = item.id ∨ k ∈ ids (without station l) := List.mem_cons
    rw [hperm, hcons, hid item rfl, mem_without]
    by_cases hk : k = station.id
    · simp [hk]
    · simp [hk]

theorem nodup_restore {previous : List Station} {existing : Option Station} {station : Station}
    (hid : ∀ item, existing = some item → item.id = station.id) {l : List Station}
    (h : (ids l).Nodup) : (ids (restore previous existing station l)).Nodup := by
  have hperm : (ids (restore previous existing station l)).Perm
      (ids (existing.toList ++ without station l)) := perm_restore.map Station.id
  rw [hperm.nodup_iff]
  cases existing with
  | none => exact nodup_without h
  | some item =>
    have hnew : item.id ∉ ids (without station l) :=
      fun hmem => (mem_without.1 hmem).2 (hid item rfl)
    exact List.nodup_cons.2 ⟨hnew, nodup_without h⟩

theorem loadFavorites_nodup (stations : List Station) : (ids (loadFavorites stations)).Nodup :=
  (stations.foldl Table.put (Table.empty : Table Station.id)).nodup

theorem mem_loadFavorites {stations : List Station} {k : String} :
    k ∈ ids (loadFavorites stations) ↔ k ∈ ids stations := by
  have hfold : ∀ (l : List Station) (t : Table Station.id),
      k ∈ (l.foldl Table.put t).rows.map Station.id ↔ k ∈ t.rows.map Station.id ∨ k ∈ ids l := by
    intro l
    induction l with
    | nil => simp [ids]
    | cons x l ih =>
      intro t
      have hput : k ∈ (t.put x).rows.map Station.id ↔
          k ∈ t.rows.map Station.id ∨ k = x.id := Table.mem_keys_put t x k
      have hcons : k ∈ ids (x :: l) ↔ k = x.id ∨ k ∈ ids l := List.mem_cons
      rw [List.foldl_cons, ih, hput, hcons, or_assoc]
  refine (hfold stations Table.empty).trans (or_iff_right ?_)
  exact fun h => nomatch h

end Atradio.App
