import Atradio.Lib.Like
import Atradio.Xrpc.Lossless

/-! # The text filter of favorites and stations -/

namespace Atradio.Xrpc
open Atradio.Lib

/-- The database with the `ILIKE` of its locale. -/
def Postgres.collated (pg : Postgres) (C : Casing) : Postgres :=
  { pg with ilike := fun s p => C.ilike s.toList p.toList }

def Occurs (C : Casing) (q : String) (name : String) (genre : Option String) : Prop :=
  C.Occurs q.toList name.toList ∨ ∃ g ∈ genre, C.Occurs q.toList g.toList

section Search

variable (pg : Postgres) (C : Casing)

/-- Under `q` a listing keeps the rows that hold it literally. -/
structure LiteralSearch (q : String) : Prop where
  favorites : ∀ (db : Db) (params : ListParams),
    ∀ r ∈ (favoritesOf (pg.collated C) db { params with q := none }).rows,
      r ∈ (favoritesOf (pg.collated C) db { params with q := some q }).rows ↔
        Occurs C q r.station.name r.station.genre
  stations : ∀ (db : Db) (params : ListParams),
    ∀ r ∈ (stationsOf (pg.collated C) db { params with q := none }).rows,
      r ∈ (stationsOf (pg.collated C) db { params with q := some q }).rows ↔
        Occurs C q r.name r.genre

theorem contains_toList (q : String) : (contains q).toList = '%' :: (q.toList ++ ['%']) := by
  simp [contains]

theorem mem_favorites_q (db : Db) (params : ListParams) (q : String) {r : FavoriteRow}
    (hr : r ∈ (favoritesOf (pg.collated C) db { params with q := none }).rows) :
    r ∈ (favoritesOf (pg.collated C) db { params with q := some q }).rows ↔
      C.ilike r.station.name.toList ('%' :: (q.toList ++ ['%'])) = true ∨
        ∃ g ∈ r.station.genre, C.ilike g.toList ('%' :: (q.toList ++ ['%'])) = true := by
  simp only [favoritesOf, List.mem_filter, favoriteMatches, Option.all_none, Bool.and_true] at hr
  simp only [favoritesOf, List.mem_filter, favoriteMatches, hr, Option.all_some, true_and,
    Bool.true_and, Bool.or_eq_true, Option.any_eq_true, Option.mem_def, Postgres.collated,
    contains_toList]

theorem mem_stations_q (db : Db) (params : ListParams) (q : String) {r : StationRow}
    (hr : r ∈ (stationsOf (pg.collated C) db { params with q := none }).rows) :
    r ∈ (stationsOf (pg.collated C) db { params with q := some q }).rows ↔
      C.ilike r.name.toList ('%' :: (q.toList ++ ['%'])) = true ∨
        ∃ g ∈ r.genre, C.ilike g.toList ('%' :: (q.toList ++ ['%'])) = true := by
  by_cases hs : params.source.all (· = .custom) = true
  · simp only [stationsOf, hs, if_true, List.mem_filter, stationMatches, Option.all_none,
      Bool.and_true] at hr
    simp only [stationsOf, hs, if_true, List.mem_filter, stationMatches, hr, Option.all_some,
      true_and, Bool.true_and, Bool.or_eq_true, Option.any_eq_true, Option.mem_def,
      Postgres.collated, contains_toList]
  · simp [stationsOf, hs] at hr

def namedFavorite (did name : String) : FavoriteRow :=
  { uri := "at://did:plc:a/fm.atradio.favorite/1", did, station := { jazz with name }
    createdAt := none, indexedAt := 0 }

def favoritesDb (rows : List FavoriteRow) : Db :=
  { users := [], stations := [], favorites := rows, recentlyPlayed := [], comments := []
    notifications := [], notificationSeen := [] }

/-- The search finds a favorite by its name alone. -/
theorem LiteralSearch.name {q : String} (h : LiteralSearch pg C q) (s : List Char) :
    C.ilike s ('%' :: (q.toList ++ ['%'])) = true ↔ C.Occurs q.toList s := by
  have hr : namedFavorite "did:plc:a" (String.ofList s) ∈
      (favoritesOf (pg.collated C)
        (favoritesDb [namedFavorite "did:plc:a" (String.ofList s)])
        { anyParams with q := none }).rows := by
    simp [favoritesOf, favoritesDb, favoriteMatches, namedFavorite, anyParams]
  have hiff := (mem_favorites_q pg C _ anyParams q hr).symm.trans (h.favorites _ anyParams _ hr)
  simpa [Occurs, namedFavorite, jazz] using hiff

theorem literalSearch_iff (q : String) :
    LiteralSearch pg C q ↔ ∀ c ∈ q.toList, c ∉ wildcards := by
  rw [← C.ilike_literal_iff]
  constructor
  · exact fun h => h.name pg C
  · intro h
    constructor
    · intro db params r hr
      rw [mem_favorites_q pg C db params q hr]
      simp only [Occurs, h]
    · intro db params r hr
      rw [mem_stations_q pg C db params q hr]
      simp only [Occurs, h]

end Search

theorem wildcard_cases {c : Char} (hc : c ∈ wildcards) : c = '%' ∨ c = '_' ∨ c = '\\' := by
  simpa only [wildcards, List.mem_cons, List.not_mem_nil, or_false] using hc

theorem toLower_wildcard (c : Char) (hc : c ∈ wildcards) : c.toLower = c := by
  rcases wildcard_cases hc with rfl | rfl | rfl <;> rfl

/-- A letter in lower case is behind the wildcards in ASCII. -/
theorem toLower_ordinary (c : Char) (hc : c ∉ wildcards) : c.toLower ∉ wildcards := by
  unfold Char.toLower
  split
  · rename_i h
    have hlow : 65 ≤ c.val.toNat := UInt32.le_iff_toNat_le.1 h.1
    have hhigh : c.val.toNat ≤ 90 := UInt32.le_iff_toNat_le.1 h.2
    have hsum : (c.val + ('a'.val - 'A'.val)).toNat = c.val.toNat + 32 := by
      rw [UInt32.toNat_add, show ('a'.val - 'A'.val).toNat = 32 from rfl]
      omega
    intro hmem
    have hval : ∀ d ∈ wildcards, d.val.toNat ≤ 95 := by
      intro d hd
      rcases wildcard_cases hd with rfl | rfl | rfl <;> decide
    have hle := hval _ hmem
    rw [hsum] at hle
    omega
  · exact hc

/-- `toLower` of the ASCII letters. -/
def asciiCasing : Casing :=
  { lower := Char.toLower
    wildcard := toLower_wildcard
    ordinary := toLower_ordinary }

/-- `100%` is read as "100 and anything behind it". -/
theorem percent_finds_more : ¬ LiteralSearch stable asciiCasing "100%" := by
  intro h
  have hiff := h.name stable asciiCasing "Radio 100 FM".toList
  revert hiff
  decide +kernel

end Atradio.Xrpc
