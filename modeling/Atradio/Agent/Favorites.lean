import Atradio.Lib.Table
import Atradio.Lexicons.Snapshot

/-! # Favorites in a repository (`agent.ts`, `agent.rs`)

An agent puts the favorite of a station at a key derived from the station id, lists the
favorites of the repository page by page, and deletes the others of the station. -/

namespace Atradio.Agent
open Atradio.Lib Atradio.Jetstream Atradio.Lexicons

/-! ### Record URIs -/

/-- Characters no record key has: the separator, and those `.` does not match. -/
def separators : List Char := ['/', '\n', '\r', Char.ofNat 0x2028, Char.ofNat 0x2029]

structure RecordKey where
  text : String
  nonempty : text.toList ≠ []
  plain : ∀ c ∈ text.toList, c ∉ separators

structure Did where
  text : String
  nonempty : text.toList ≠ []
  noSlash : '/' ∉ text.toList

def uriOf (did : Did) (rkey : RecordKey) : String :=
  "at://" ++ did.text ++ "/" ++ NSID.favorite ++ "/" ++ rkey.text

/-- What stands before the first slash, which is there, and what stands behind it. -/
def cutSlash (s : List Char) : Option (List Char × List Char) :=
  match s.dropWhile (· ≠ '/') with
  | [] => none
  | _ :: rest => some (s.takeWhile (· ≠ '/'), rest)

/-- Parse an at-uri into its record key; `none` is the error it throws. -/
def rkeyFromUri (uri : String) : Option String :=
  match uri.toList with
  | 'a' :: 't' :: ':' :: '/' :: '/' :: rest => do
    let (did, rest) ← cutSlash rest
    let (collection, rkey) ← cutSlash rest
    if did ≠ [] ∧ collection ≠ [] ∧ rkey ≠ [] ∧ rkey.all (· ∉ separators.tail)
    then some (String.ofList rkey) else none
  | _ => none

/-- `uri.rsplit('/').next()` -/
def lastSegment (uri : String) : String :=
  String.ofList (uri.toList.reverse.takeWhile (· ≠ '/')).reverse

theorem cutSlash_append {a b : List Char} (h : '/' ∉ a) : cutSlash (a ++ '/' :: b) = some (a, b) := by
  have hall : ∀ c ∈ a, decide (c ≠ '/') = true := by
    intro c hc
    exact decide_eq_true (fun he => h (he ▸ hc))
  unfold cutSlash
  rw [List.dropWhile_append_of_pos hall, List.takeWhile_append_of_pos hall]
  simp

theorem uri_toList (did : Did) (rkey : RecordKey) : (uriOf did rkey).toList =
    'a' :: 't' :: ':' :: '/' :: '/' :: (did.text.toList ++ '/' ::
      (NSID.favorite.toList ++ '/' :: rkey.text.toList)) := by
  simp [uriOf, String.toList_append]

theorem rkeyFromUri_uriOf (did : Did) (rkey : RecordKey) :
    rkeyFromUri (uriOf did rkey) = some rkey.text := by
  have hplain : rkey.text.toList.all (· ∉ separators.tail) = true :=
    List.all_eq_true.2 fun c hc =>
      decide_eq_true fun h => rkey.plain c hc (List.mem_of_mem_tail h)
  have hcollection : '/' ∉ NSID.favorite.toList := by decide
  unfold rkeyFromUri
  rw [uri_toList]
  simp only [cutSlash_append did.noSlash, cutSlash_append hcollection, Option.bind_eq_bind,
    Option.bind_some]
  rw [if_pos ⟨did.nonempty, by decide, rkey.nonempty, hplain⟩, String.ofList_toList]

theorem lastSegment_uriOf (did : Did) (rkey : RecordKey) :
    lastSegment (uriOf did rkey) = rkey.text := by
  have hall : ∀ c ∈ rkey.text.toList.reverse, decide (c ≠ '/') = true := by
    intro c hc
    refine decide_eq_true ?_
    rintro rfl
    exact rkey.plain '/' (List.mem_reverse.1 hc) (by decide)
  have hsplit : (uriOf did rkey).toList.reverse = rkey.text.toList.reverse ++
      '/' :: ('a' :: 't' :: ':' :: '/' :: '/' :: (did.text.toList ++ '/' ::
        NSID.favorite.toList)).reverse := by
    rw [uri_toList]
    simp
  unfold lastSegment
  rw [hsplit, List.takeWhile_append_of_pos hall]
  simp

/-! ### The repository -/

structure Favorite where
  rkey : RecordKey
  value : Json

def Favorite.key (e : Favorite) : String := e.rkey.text

abbrev Favorites := Table Favorite.key

/-- `value.station.stationId` -/
def stationIdOf (value : Json) : Option String :=
  match (value.get "station").bind (·.get "stationId") with
  | some (.str id) => some id
  | _ => none

def isFor (id : String) (value : Json) : Bool := stationIdOf value = some id

structure ListedRecord where
  uri : String
  value : Json

/-- An answer of `listRecords`. -/
structure ListPage where
  records : List ListedRecord
  cursor : Option String

def listed (did : Did) (e : Favorite) : ListedRecord := ⟨uriOf did e.rkey, e.value⟩

/-- The answers to a client that asks again with each cursor until there is none: every record
of the repository once, in any order and on any pages. -/
structure Enumerates (did : Did) (pages : List ListPage) (repo : Favorites) : Prop where
  records : ∃ entries : List Favorite, entries.Perm repo.rows ∧
    pages.flatMap (·.records) = entries.map (listed did)
  cursors : ∀ p ∈ pages.dropLast, p.cursor.isSome
  ends : ∃ p, pages.getLast? = some p ∧ p.cursor = none

/-! ### The TypeScript agent -/

/-- `while (cursor)` -/
def tsGoes (p : ListPage) : Bool := p.cursor.any (· ≠ "")

def favoriteRkeysFor (stationId : String) : List ListPage → Option (List String)
  | [] => some []
  | p :: pages => do
    let rkeys ← (p.records.filter fun r => isFor stationId r.value).mapM (rkeyFromUri ·.uri)
    if tsGoes p then
      let others ← favoriteRkeysFor stationId pages
      return rkeys ++ others
    else return rkeys

/-- The states of the repository while `#pruneFavorites` deletes, the first before it does. -/
def pruneFavorites (stationId : String) (keep : Option String) (pages : List ListPage)
    (repo : Favorites) : Option (List Favorites) := do
  let rkeys ← favoriteRkeysFor stationId pages
  return (rkeys.filter fun rkey => some rkey ≠ keep).scanl Table.delete repo

section Agents

/- The record key derived from a station id, and the text a URL has once `UriValue` has read
it. -/
variable (favoriteRkey : String → RecordKey) (parseUri : String → Option String)

def tsPut (s : Station) (now : String) (repo : Favorites) : Favorites :=
  repo.put ⟨favoriteRkey s.id, buildFavoriteRecord s none now⟩

/-- The states from the put on; `pages` lists the repository after it. -/
def tsFavorite (s : Station) (now : String) (pages : List ListPage) (repo : Favorites) :
    Option (List Favorites) :=
  pruneFavorites s.id (some (favoriteRkey s.id).text) pages (tsPut favoriteRkey s now repo)

def tsUnfavorite (s : Station) (pages : List ListPage) (repo : Favorites) :
    Option (List Favorites) :=
  pruneFavorites s.id none pages repo

/-! ### The Rust agent -/

/-- `Some(c) if !page.records.is_empty()` -/
def rustGoes (p : ListPage) : Bool := p.cursor.isSome && !p.records.isEmpty

def listFavoriteRkeys (stationId : String) : List ListPage → List String
  | [] => []
  | p :: pages =>
    let rkeys := (p.records.filter fun r => isFor stationId r.value).map (lastSegment ·.uri)
    if rustGoes p then rkeys ++ listFavoriteRkeys stationId pages else rkeys

def rustPut (s : WireStation) (now : String) (repo : Favorites) : Favorites :=
  repo.put ⟨favoriteRkey s.stationId, rustFavorite parseUri s now⟩

def rustFavorites (s : WireStation) (now : String) (pages : List ListPage)
    (repo : Favorites) : List Favorites :=
  let canonical := (favoriteRkey s.stationId).text
  ((listFavoriteRkeys s.stationId pages).filter fun rkey => rkey ≠ canonical).scanl Table.delete
    (rustPut favoriteRkey parseUri s now repo)

def rustUnfavorite (s : WireStation) (pages : List ListPage) (repo : Favorites) :
    List Favorites :=
  (listFavoriteRkeys s.stationId pages).scanl Table.delete repo

end Agents

/-! ### What a loop over the pages sees -/

/-- The records on the pages a loop reads that goes on while `goes`. -/
def seen (goes : ListPage → Bool) : List ListPage → List ListedRecord
  | [] => []
  | p :: pages => p.records ++ if goes p then seen goes pages else []

/-- The records on the pages it does not come to. -/
def unseen (goes : ListPage → Bool) : List ListPage → List ListedRecord
  | [] => []
  | p :: pages => if goes p then unseen goes pages else pages.flatMap (·.records)

theorem seen_unseen (goes : ListPage → Bool) (pages : List ListPage) :
    seen goes pages ++ unseen goes pages = pages.flatMap (·.records) := by
  induction pages with
  | nil => rfl
  | cons p pages ih =>
    rw [seen, unseen, List.flatMap_cons]
    cases goes p with
    | true =>
      rw [if_pos rfl, if_pos rfl, List.append_assoc, ih]
    | false => simp

theorem listFavoriteRkeys_eq (stationId : String) (pages : List ListPage) :
    listFavoriteRkeys stationId pages =
      ((seen rustGoes pages).filter fun r => isFor stationId r.value).map (lastSegment ·.uri) := by
  induction pages with
  | nil => rfl
  | cons p pages ih =>
    rw [listFavoriteRkeys, seen]
    cases rustGoes p with
    | true => simp [ih]
    | false => simp

theorem listed_filter (did : Did) (stationId : String) (es : List Favorite) :
    (es.map (listed did)).filter (fun r => isFor stationId r.value) =
      (es.filter fun e => isFor stationId e.value).map (listed did) := List.filter_map

theorem listed_keys (did : Did) (stationId : String) (es : List Favorite) :
    ((es.map (listed did)).filter fun r => isFor stationId r.value).mapM (rkeyFromUri ·.uri) =
      some ((es.filter fun e => isFor stationId e.value).map Favorite.key) := by
  rw [listed_filter]
  induction es.filter fun e => isFor stationId e.value with
  | nil => rfl
  | cons e es ih =>
    have huri : rkeyFromUri (listed did e).uri = some e.key := rkeyFromUri_uriOf did e.rkey
    rw [List.map_cons, List.mapM_cons, huri, ih]
    rfl

theorem favoriteRkeysFor_eq (did : Did) (stationId : String) {pages : List ListPage}
    {entries : List Favorite} (h : seen tsGoes pages = entries.map (listed did)) :
    favoriteRkeysFor stationId pages =
      some ((entries.filter fun e => isFor stationId e.value).map Favorite.key) := by
  induction pages generalizing entries with
  | nil =>
    have hnil : entries = [] := List.map_eq_nil_iff.1 h.symm
    rw [hnil]
    rfl
  | cons p pages ih =>
    rw [seen] at h
    obtain ⟨first, others, rfl, hfirst, hothers⟩ := List.map_eq_append_iff.1 h.symm
    rw [favoriteRkeysFor, ← hfirst, listed_keys]
    cases hgoes : tsGoes p with
    | false =>
      rw [hgoes] at hothers
      have hnil : others = [] := List.map_eq_nil_iff.1 hothers
      rw [hnil]
      simp
    | true =>
      rw [hgoes, if_pos rfl] at hothers
      rw [Option.bind_eq_bind, Option.bind_some, if_pos rfl, ih hothers.symm]
      simp

theorem lastSegment_keys (did : Did) (stationId : String) (es : List Favorite) :
    ((es.map (listed did)).filter fun r => isFor stationId r.value).map (lastSegment ·.uri) =
      (es.filter fun e => isFor stationId e.value).map Favorite.key := by
  rw [listed_filter, List.map_map]
  exact List.map_congr_left fun e _ => lastSegment_uriOf did e.rkey

end Atradio.Agent
