import Atradio.Lexicons.Stations
import Atradio.Lib.OffsetPages
import Atradio.Lib.Run

/-! # The scroll through a genre (`hooks/useCategoryStations.ts`)

Pages of forty rows of radio-browser without the rows that have no stream, fetched as an infinite
query fetches them: the next page behind the others, or all pages again from the first one. -/

namespace Atradio.Web.Category
open Atradio.Lib Atradio.Lexicons

def CATEGORY_PAGE_SIZE : ℕ := 40

/-- `s.url_resolved || s.url` -/
def playable (s : RadioBrowserStation) : Bool := s.urlResolved ≠ "" || s.url ≠ ""

abbrev Pages := List (List Station)

/-- `browseRadioBrowserByTag`, where `listing` is what radio-browser has for the tag. -/
def browseRadioBrowserByTag (listing : List RadioBrowserStation) (offset limit : ℕ) :
    List Station :=
  (((listing.drop offset).take limit).filter playable).map RadioBrowserStation.toStation

/-- With no page, the initial one. -/
def getNextPageParam (pages : Pages) : Option ℕ := nextOffset CATEGORY_PAGE_SIZE pages

def hasNextPage (pages : Pages) : Bool := pages ≠ [] && (getNextPageParam pages).isSome

/-- Up to `n` pages behind these; `answers` has the listing at the time of each request, and none
where it failed. -/
def fetchPages (answers : ℕ → Option (List RadioBrowserStation)) : ℕ → Pages → Option Pages
  | 0, pages => some pages
  | n + 1, pages =>
    match getNextPageParam pages with
    | none => some pages
    | some offset =>
      (answers pages.length).bind fun listing =>
        fetchPages answers n
          (pages ++ [browseRadioBrowserByTag listing offset CATEGORY_PAGE_SIZE])

inductive Event where
  /-- The first page, or every page there is again. -/
  | fetch (answers : ℕ → Option (List RadioBrowserStation))
  | fetchNextPage (answers : ℕ → Option (List RadioBrowserStation))

def Event.answers : Event → ℕ → Option (List RadioBrowserStation)
  | .fetch answers | .fetchNextPage answers => answers

/-- A fetch that fails leaves the pages as they are. -/
def step (pages : Pages) : Event → Pages
  | .fetch answers => (fetchPages answers (max 1 pages.length) []).getD pages
  | .fetchNextPage answers => (fetchPages answers 1 pages).getD pages

/-- The pages in one list, each station where it comes first. -/
def select (pages : Pages) : List Station :=
  pages.flatten.foldl
    (fun stations s => if s.id ∈ stations.map Station.id then stations else stations ++ [s]) []

/-! ### The stations of the pages -/

/-- What `select` makes of the stations `l`. -/
structure Selected (l shown : List Station) : Prop where
  nodup : (shown.map Station.id).Nodup
  sublist : shown.Sublist l
  covers : ∀ s ∈ l, s.id ∈ shown.map Station.id

theorem Selected.snoc {l shown : List Station} (h : Selected l shown) (s : Station) :
    Selected (l ++ [s])
      (if s.id ∈ shown.map Station.id then shown else shown ++ [s]) := by
  by_cases hs : s.id ∈ shown.map Station.id
  · rw [if_pos hs]
    refine ⟨h.nodup, h.sublist.trans (List.sublist_append_left l [s]), fun t ht => ?_⟩
    rcases List.mem_append.1 ht with ht | ht
    · exact h.covers t ht
    · rwa [List.mem_singleton.1 ht]
  · rw [if_neg hs]
    refine ⟨?_, h.sublist.append (List.Sublist.refl [s]), fun t ht => ?_⟩
    · rw [List.map_append, List.nodup_append]
      refine ⟨h.nodup, List.nodup_singleton _, ?_⟩
      rintro i hi j hj rfl
      exact hs (List.mem_singleton.1 hj ▸ hi)
    · rw [List.map_append, List.mem_append]
      rcases List.mem_append.1 ht with ht | ht
      · exact Or.inl (h.covers t ht)
      · exact Or.inr (List.mem_singleton.1 ht ▸ List.mem_singleton_self _)

theorem selected_foldl (rest : List Station) {l shown : List Station} (h : Selected l shown) :
    Selected (l ++ rest) (rest.foldl
      (fun stations s => if s.id ∈ stations.map Station.id then stations else stations ++ [s])
      shown) := by
  induction rest generalizing l shown with
  | nil => rwa [List.append_nil]
  | cons s rest ih =>
    rw [List.foldl_cons, ← List.singleton_append, ← List.append_assoc]
    exact ih (h.snoc s)

theorem selected_nil : Selected [] [] :=
  ⟨List.nodup_nil, List.Sublist.refl [], List.forall_mem_nil _⟩

theorem select_selected (pages : Pages) : Selected pages.flatten (select pages) :=
  selected_foldl pages.flatten selected_nil

theorem Selected.mem_iff {l shown : List Station} (h : Selected l shown) (i : String) :
    i ∈ shown.map Station.id ↔ i ∈ l.map Station.id := by
  constructor
  · exact fun hi => (h.sublist.map Station.id).subset hi
  · intro hi
    obtain ⟨s, hs, rfl⟩ := List.mem_map.1 hi
    exact h.covers s hs

/-! ### A listing that stays -/

section Stable

variable (L : List RadioBrowserStation)

/-- The first `n` pages of a listing. -/
def pagesOf (n : ℕ) : Pages :=
  (firstPages playable CATEGORY_PAGE_SIZE L n).map fun page =>
    page.map RadioBrowserStation.toStation

/-- The number of rows up to the end of the first page that is not full. -/
def reached : ℕ := CATEGORY_PAGE_SIZE * (shortPage playable CATEGORY_PAGE_SIZE L + 1)

def Read (pages : Pages) : Prop :=
  ∃ n ≤ shortPage playable CATEGORY_PAGE_SIZE L + 1, pages = pagesOf L n

variable {L}

theorem nextPageParam_pagesOf {n : ℕ} (hn : n ≤ shortPage playable CATEGORY_PAGE_SIZE L + 1) :
    getNextPageParam (pagesOf L n) =
      if n ≤ shortPage playable CATEGORY_PAGE_SIZE L then some (CATEGORY_PAGE_SIZE * n)
      else none := by
  rw [← nextOffset_firstPages (by decide) hn, getNextPageParam, nextOffset, nextOffset, pagesOf,
    List.getLast?_map]
  cases (firstPages playable CATEGORY_PAGE_SIZE L n).getLast? with
  | none => rfl
  | some last => simp [List.foldl_map]

theorem pagesOf_succ (n : ℕ) : pagesOf L (n + 1) =
    pagesOf L n ++ [browseRadioBrowserByTag L (CATEGORY_PAGE_SIZE * n) CATEGORY_PAGE_SIZE] := by
  rw [pagesOf, firstPages_succ, List.map_append]
  rfl

theorem fetchPages_read {answers : ℕ → Option (List RadioBrowserStation)}
    (hL : ∀ i l, answers i = some l → l = L) (n : ℕ) {pages pages' : Pages} (h : Read L pages)
    (hfetch : fetchPages answers n pages = some pages') : Read L pages' := by
  induction n generalizing pages with
  | zero =>
    cases hfetch
    exact h
  | succ n ih =>
    obtain ⟨k, hk, rfl⟩ := h
    rw [fetchPages, nextPageParam_pagesOf hk] at hfetch
    by_cases hlt : k ≤ shortPage playable CATEGORY_PAGE_SIZE L
    · rw [if_pos hlt] at hfetch
      obtain ⟨l, hl, hrest⟩ := Option.bind_eq_some_iff.1 hfetch
      rw [hL _ l hl, ← pagesOf_succ] at hrest
      exact ih ⟨k + 1, Nat.succ_le_succ hlt, rfl⟩ hrest
    · rw [if_neg hlt] at hfetch
      cases hfetch
      exact ⟨k, hk, rfl⟩

theorem read_nil : Read L [] := ⟨0, Nat.zero_le _, rfl⟩

theorem read_step {pages : Pages} {e : Event} (hL : ∀ i l, e.answers i = some l → l = L)
    (h : Read L pages) : Read L (step pages e) := by
  cases e with
  | fetch answers =>
    rw [step]
    cases hfetch : fetchPages answers (max 1 pages.length) [] with
    | none => exact h
    | some pages' => exact fetchPages_read hL _ read_nil hfetch
  | fetchNextPage answers =>
    rw [step]
    cases hfetch : fetchPages answers 1 pages with
    | none => exact h
    | some pages' => exact fetchPages_read hL _ h hfetch

theorem flatten_pagesOf (n : ℕ) : (pagesOf L n).flatten =
    ((L.take (CATEGORY_PAGE_SIZE * n)).filter playable).map RadioBrowserStation.toStation := by
  rw [← flatten_firstPages, pagesOf, List.map_flatten]

/-- The end is reached with the page of the first row that has no stream, or with the last row. -/
theorem pages_of_end {pages : Pages} (h : Read L pages) (hpages : pages ≠ [])
    (hend : hasNextPage pages = false) :
    pages = pagesOf L (shortPage playable CATEGORY_PAGE_SIZE L + 1) := by
  obtain ⟨n, hn, rfl⟩ := h
  rw [hasNextPage, nextPageParam_pagesOf hn] at hend
  by_cases hle : n ≤ shortPage playable CATEGORY_PAGE_SIZE L
  · simp [hpages, hle] at hend
  · rw [Nat.le_antisymm hn (Nat.lt_of_not_le hle)]

end Stable

/-- What the page shows of a listing when it says that the end of the genre is reached. -/
structure Ended (L : List RadioBrowserStation) (shown : List Station) : Prop where
  reached : Selected
    (((L.take (reached L)).filter playable).map RadioBrowserStation.toStation) shown
  complete : (∀ r ∈ L, playable r = true → r.toStation.id ∈ shown.map Station.id) ↔
    ∀ r ∈ L.drop (Category.reached L), playable r = true →
      ∃ r' ∈ L.take (Category.reached L), playable r' = true ∧ r'.toStation.id = r.toStation.id

theorem Ended.of_selected {L : List RadioBrowserStation} {shown : List Station}
    (h : Selected (((L.take (Category.reached L)).filter playable).map
      RadioBrowserStation.toStation) shown) : Ended L shown := by
  have hshown : ∀ i, i ∈ shown.map Station.id ↔
      ∃ r' ∈ L.take (Category.reached L), playable r' = true ∧ r'.toStation.id = i := by
    intro i
    rw [h.mem_iff]
    simp [and_assoc]
  refine ⟨h, fun hall r hr hplay => (hshown _).1 (hall r (List.mem_of_mem_drop hr) hplay),
    fun hrest r hr hplay => (hshown _).2 ?_⟩
  rw [← List.take_append_drop (Category.reached L) L, List.mem_append] at hr
  rcases hr with hr | hr
  · exact ⟨r, hr, hplay, rfl⟩
  · exact hrest r hr hplay

def row (stationuuid url : String) : RadioBrowserStation where
  stationuuid
  name := "Radio"
  url
  urlResolved := ""
  homepage := ""
  favicon := ""
  tags := ""
  country := ""
  language := ""
  codec := ""
  bitrate := 0

/-- A row without a stream among the first forty, and one station behind them. -/
def cutListing : List RadioBrowserStation :=
  row "0" "" :: List.replicate 39 (row "1" "http://a") ++ [row "2" "http://b"]

end Atradio.Web.Category
