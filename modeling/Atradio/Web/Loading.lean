import Atradio.Web.Favorites

/-! # Loading the favorites (`atoms/favorites.ts`)

A repository may hold several favorites of a station: one under the key that is derived from the
station id, and others under old random keys. -/

namespace Atradio.Web.Loading
open Atradio.Lib Atradio.Lexicons

structure StoredStation where
  station : Station
  rkey : String

def StoredStation.id (i : StoredStation) : String := i.station.id

abbrev ById := Table StoredStation.id

/-- `if (!prev) byId.set(i.station.id, i)` for every item. -/
def byId (items : List StoredStation) : ById := items.foldl Table.insertNew Table.empty

def setFavorites (items : List StoredStation) (atoms : Atoms) : Atoms :=
  let unique := (byId items).rows
  { atoms with
    favorites := unique.map (·.station)
    rkeys := unique.foldl (fun m i => m.put (i.id, i.rkey)) Table.empty }

/-- One entry for each station, in the order in which the ids came first; where a station has a
record under its derived key, that one. -/
structure KeepsCanonical (favoriteRkey : String → String) (items : List StoredStation)
    (atoms : Atoms) : Prop where
  order : ids atoms.favorites = (items.map StoredStation.id).eraseDups
  kept : ∀ station ∈ atoms.favorites, ∃ i ∈ items, i.station = station ∧
    atoms.rkeys.find station.id = some i.rkey
  canonical : ∀ i ∈ items, i.rkey = favoriteRkey i.id → ∃ k ∈ items, k.id = i.id ∧
    k.rkey = favoriteRkey i.id ∧ k.station ∈ atoms.favorites ∧ atoms.rkeys.find i.id = some k.rkey

def CanonicalFirst (favoriteRkey : String → String) (items : List StoredStation) : Prop :=
  ∀ i ∈ items, i.rkey = favoriteRkey i.id →
    ∀ first, items.find? (fun k => k.id = i.id) = some first → first.rkey = favoriteRkey i.id

section Loaded

variable (items : List StoredStation) (atoms : Atoms)

theorem get_byId (id : String) : (byId items).get id = items.find? fun i => i.id = id := by
  rw [byId, Table.get_foldl_insertNew, Table.get_empty, Option.none_or]

theorem ids_setFavorites :
    ids (setFavorites items atoms).favorites = (items.map StoredStation.id).eraseDups := by
  have hkeys : (byId items).rows.map StoredStation.id = (items.map StoredStation.id).eraseDups :=
    Table.keys_foldl_insertNew items
  rw [← hkeys, setFavorites, ids, List.map_map]
  rfl

theorem rkey_setFavorites (id : String) : (setFavorites items atoms).rkeys.find id =
    (items.find? fun i => i.id = id).map StoredStation.rkey := by
  have hput := Table.get_foldl_put (fun i : StoredStation => (i.id, i.rkey)) (fun _ => rfl)
    (byId items) (Table.empty : JsMap String String) id
  rw [Table.get_empty, Option.or_none, get_byId] at hput
  rw [setFavorites, JsMap.find, hput, Option.map_map]
  rfl

variable {items}

theorem mem_setFavorites {station : Station} : station ∈ (setFavorites items atoms).favorites ↔
    ∃ i, items.find? (fun k => k.id = i.id) = some i ∧ i.station = station := by
  have hmem : station ∈ (setFavorites items atoms).favorites ↔
      ∃ i ∈ (byId items).rows, i.station = station := List.mem_map
  rw [hmem]
  refine exists_congr fun i => and_congr_left fun _ => ?_
  rw [Table.mem_rows, get_byId]

theorem find_first {i : StoredStation} (hi : i ∈ items) :
    ∃ first, items.find? (fun k => k.id = i.id) = some first := by
  refine Option.isSome_iff_exists.1 ?_
  rw [List.find?_isSome]
  exact ⟨i, hi, decide_eq_true rfl⟩

theorem first_id {id : String} {first : StoredStation}
    (h : items.find? (fun k => k.id = id) = some first) : first.id = id := by
  simpa using List.find?_some h

end Loaded

/-- The first record of each station is the one that is kept. -/
theorem keepsCanonical_iff (favoriteRkey : String → String) (items : List StoredStation)
    (atoms : Atoms) : KeepsCanonical favoriteRkey items (setFavorites items atoms) ↔
      CanonicalFirst favoriteRkey items := by
  constructor
  · intro h i hi hrkey first hfirst
    obtain ⟨k, -, -, hk, -, hfind⟩ := h.canonical i hi hrkey
    rw [rkey_setFavorites, hfirst] at hfind
    exact (Option.some.inj hfind).trans hk
  · intro h
    refine ⟨ids_setFavorites items atoms, ?_, ?_⟩
    · intro station hstation
      obtain ⟨i, hfirst, rfl⟩ := (mem_setFavorites atoms).1 hstation
      refine ⟨i, List.mem_of_find?_eq_some hfirst, rfl, ?_⟩
      have hfind := rkey_setFavorites items atoms i.id
      rw [hfirst] at hfind
      exact hfind
    · intro i hi hrkey
      obtain ⟨first, hfirst⟩ := find_first hi
      have hid := first_id hfirst
      have hown : items.find? (fun k => k.id = first.id) = some first := by rw [hid, hfirst]
      refine ⟨first, List.mem_of_find?_eq_some hfirst, hid, h i hi hrkey first hfirst,
        (mem_setFavorites atoms).2 ⟨first, hown, rfl⟩, ?_⟩
      rw [rkey_setFavorites, hfirst]
      rfl

/-- A record under an old key comes before the one under the key that is derived from `a`. -/
def duplicates : List StoredStation :=
  [⟨stationOf "a", "3k2old"⟩, ⟨stationOf "a", "ca978112ca1bbdca"⟩]

def unloaded : Atoms := { agent := true, favorites := [], rkeys := Table.empty }

theorem legacy_kept : ¬ KeepsCanonical (fun _ => "ca978112ca1bbdca") duplicates
    (setFavorites duplicates unloaded) := by
  have hrkey : (setFavorites duplicates unloaded).rkeys.find "a" = some "3k2old" :=
    rkey_setFavorites duplicates unloaded "a"
  intro h
  obtain ⟨k, -, -, hk, -, hfind⟩ :=
    h.canonical ⟨stationOf "a", "ca978112ca1bbdca"⟩ (by simp [duplicates]) rfl
  have hsame : k.rkey = "3k2old" := Option.some.inj (hfind.symm.trans hrkey)
  rw [hk] at hsame
  revert hsame
  decide

end Atradio.Web.Loading
