import Atradio.Agent.Favorites

/-! # One favorite for each station

Both agents leave one record of the station when their loop over the pages comes to all of
them. -/

namespace Atradio.Agent
open Atradio.Lib Atradio.Jetstream Atradio.Lexicons

/-! ### Deleting keys -/

theorem mem_foldl_delete (ks : List String) (t : Favorites) (e : Favorite) :
    e ∈ (ks.foldl Table.delete t).rows ↔ e ∈ t.rows ∧ e.key ∉ ks := by
  induction ks generalizing t with
  | nil => simp
  | cons k ks ih =>
    rw [List.foldl_cons, ih, Table.mem_delete, List.mem_cons, not_or]
    exact and_assoc

theorem mem_scanl_delete {ks : List String} {t st : Favorites} (h : st ∈ ks.scanl Table.delete t) :
    ∃ pre post, ks = pre ++ post ∧ st = pre.foldl Table.delete t := by
  induction ks generalizing t with
  | nil =>
    rw [List.scanl_nil, List.mem_singleton] at h
    exact ⟨[], [], rfl, h⟩
  | cons k ks ih =>
    rw [List.scanl_cons, List.mem_cons] at h
    rcases h with rfl | h
    · exact ⟨[], k :: ks, rfl, rfl⟩
    · obtain ⟨pre, post, rfl, rfl⟩ := ih h
      exact ⟨k :: pre, post, rfl, rfl⟩

theorem getLast_scanl_delete (ks : List String) (t : Favorites) :
    (ks.scanl Table.delete t).getLast? = some (ks.foldl Table.delete t) := by
  induction ks generalizing t with
  | nil => rfl
  | cons k ks ih =>
    rw [List.scanl_cons, List.getLast?_cons, ih]
    rfl

/-! ### What the agents promise -/

def OthersKept (id : String) (before after : Favorites) : Prop :=
  ∀ e : Favorite, isFor id e.value = false → (e ∈ after.rows ↔ e ∈ before.rows)

def OneLeft (id canonical : String) (after : Favorites) : Prop :=
  ∃ e : Favorite, e.key = canonical ∧ ∀ u, (u ∈ after.rows ∧ isFor id u.value = true) ↔ u = e

/-- `states` are those from the put of the favorite on. -/
structure FavoriteDone (id canonical : String) (before : Favorites) (states : List Favorites) :
    Prop where
  last : ∃ after, states.getLast? = some after ∧ OneLeft id canonical after ∧
    OthersKept id before after
  always : ∀ st ∈ states, ∃ e ∈ st.rows, isFor id e.value = true

structure UnfavoriteDone (id : String) (before : Favorites) (states : List Favorites) :
    Prop where
  last : ∃ after, states.getLast? = some after ∧ (∀ e ∈ after.rows, isFor id e.value = false) ∧
    OthersKept id before after

/-! ### Deleting what a loop has seen -/

def keysFor (id : String) (es : List Favorite) : List String :=
  (es.filter fun e => isFor id e.value).map Favorite.key

section Deleting

variable {id : String} {repo : Favorites} {first others : List Favorite}

theorem mem_keysFor {es : List Favorite} {k : String} :
    k ∈ keysFor id es ↔ ∃ e ∈ es, isFor id e.value = true ∧ e.key = k := by
  simp [keysFor, and_assoc]

variable (h : (first ++ others).Perm repo.rows)

include h

theorem eq_of_seen {e e' : Favorite} (he : e ∈ first) (he' : e' ∈ repo.rows)
    (hkey : e.key = e'.key) : e' = e := by
  have hmem : e ∈ repo.rows := h.mem_iff.1 (List.mem_append_left others he)
  exact Table.eq_of_key he' hmem hkey.symm

theorem unseen_not_key {e : Favorite} (he : e ∈ others) : e.key ∉ first.map Favorite.key := by
  intro hkey
  have hnodup : ((first ++ others).map Favorite.key).Nodup :=
    (h.map Favorite.key).nodup_iff.2 repo.nodup
  rw [List.map_append, List.nodup_append] at hnodup
  exact hnodup.2.2 e.key hkey e.key (List.mem_map_of_mem he) rfl

theorem others_kept {ks : List String} (hks : ks ⊆ keysFor id first) :
    OthersKept id repo (ks.foldl Table.delete repo) := by
  intro e he
  rw [mem_foldl_delete]
  refine ⟨And.left, fun hmem => ⟨hmem, fun hk => ?_⟩⟩
  obtain ⟨u, hu, hfor, hkey⟩ := mem_keysFor.1 (hks hk)
  rw [eq_of_seen h hu hmem hkey, hfor] at he
  cases he

theorem unfavorite_iff :
    UnfavoriteDone id repo ((keysFor id first).scanl Table.delete repo) ↔
      ∀ e ∈ others, isFor id e.value = false := by
  constructor
  · rintro ⟨after, hafter, hnone, -⟩ e he
    rw [getLast_scanl_delete] at hafter
    refine hnone e ?_
    rw [← Option.some.inj hafter, mem_foldl_delete]
    refine ⟨h.mem_iff.1 (List.mem_append_right first he), fun hk => ?_⟩
    obtain ⟨u, hu, -, hkey⟩ := mem_keysFor.1 hk
    exact unseen_not_key h he (hkey ▸ List.mem_map_of_mem hu)
  · intro hothers
    refine ⟨_, getLast_scanl_delete _ _, fun e he => ?_, others_kept h fun k hk => hk⟩
    rw [mem_foldl_delete] at he
    rcases List.mem_append.1 (h.mem_iff.2 he.1) with hfirst | hrest
    · cases hfor : isFor id e.value with
      | false => rfl
      | true => exact absurd (mem_keysFor.2 ⟨e, hfirst, hfor, rfl⟩) he.2
    · exact hothers e hrest

end Deleting

/-! ### Putting, then deleting -/

section Putting

variable {id : String} {repo : Favorites} {canonical : RecordKey} {value : Json}
  {first others : List Favorite}

theorem othersKept_put (hown : ∀ e ∈ repo.rows, e.key = canonical.text → isFor id e.value = true)
    (hvalue : isFor id value = true) : OthersKept id repo (repo.put ⟨canonical, value⟩) := by
  intro e he
  rw [Table.mem_put]
  constructor
  · rintro (rfl | ⟨hmem, -⟩)
    · rw [hvalue] at he
      cases he
    · exact hmem
  · intro hmem
    refine Or.inr ⟨hmem, fun hkey => ?_⟩
    rw [hown e hmem hkey] at he
    cases he

theorem eq_put {u : Favorite} (hu : u ∈ (repo.put ⟨canonical, value⟩).rows)
    (hkey : u.key = canonical.text) : u = ⟨canonical, value⟩ := by
  rcases (Table.mem_put _ _ _).1 hu with rfl | ⟨-, hne⟩
  · rfl
  · exact absurd hkey hne

theorem OthersKept.trans {before between after : Favorites} (h : OthersKept id before between)
    (h' : OthersKept id between after) : OthersKept id before after :=
  fun e he => (h' e he).trans (h e he)

variable (h : (first ++ others).Perm (repo.put ⟨canonical, value⟩).rows)
  (hown : ∀ e ∈ repo.rows, e.key = canonical.text → isFor id e.value = true)

include h hown

theorem favorite_iff :
    FavoriteDone id canonical.text repo
      (((keysFor id first).filter fun k => k ≠ canonical.text).scanl Table.delete
        (repo.put ⟨canonical, value⟩)) ↔
      isFor id value = true ∧
        ∀ e ∈ others, isFor id e.value = true → e.key = canonical.text := by
  have hput : (⟨canonical, value⟩ : Favorite) ∈ (repo.put ⟨canonical, value⟩).rows :=
    (Table.mem_put _ _ _).2 (Or.inl rfl)
  have hkept : ∀ ks : List String, canonical.text ∉ ks →
      (⟨canonical, value⟩ : Favorite) ∈
        (ks.foldl Table.delete (repo.put ⟨canonical, value⟩)).rows :=
    fun ks hks => (mem_foldl_delete _ _ _).2 ⟨hput, hks⟩
  have hcanonical : canonical.text ∉ (keysFor id first).filter fun k => k ≠ canonical.text := by
    simp
  constructor
  · rintro ⟨⟨after, hafter, ⟨e, hkey, hone⟩, -⟩, -⟩
    rw [getLast_scanl_delete] at hafter
    rw [← Option.some.inj hafter] at hone
    obtain ⟨hmem, hfor⟩ := (hone e).2 rfl
    have he := eq_put ((mem_foldl_delete _ _ _).1 hmem).1 hkey
    refine ⟨?_, fun u hu huFor => ?_⟩
    · rw [he] at hfor
      exact hfor
    · by_contra hne
      have hnew : u.key ∉ (keysFor id first).filter fun k => k ≠ canonical.text := by
        intro hk
        obtain ⟨w, hw, -, hkey'⟩ := mem_keysFor.1 (List.mem_of_mem_filter hk)
        exact unseen_not_key h hu (hkey' ▸ List.mem_map_of_mem hw)
      have hleft := (mem_foldl_delete _ _ _).2 ⟨h.mem_iff.1 (List.mem_append_right first hu), hnew⟩
      rw [(hone u).1 ⟨hleft, huFor⟩] at hne
      exact hne hkey
  · rintro ⟨hvalue, hothers⟩
    refine ⟨⟨_, getLast_scanl_delete _ _, ⟨⟨canonical, value⟩, rfl, fun u => ?_⟩, ?_⟩, ?_⟩
    · constructor
      · rintro ⟨hu, huFor⟩
        rw [mem_foldl_delete, List.mem_filter, not_and] at hu
        refine eq_put hu.1 ?_
        rcases List.mem_append.1 (h.mem_iff.2 hu.1) with hfirst | hrest
        · have hstay := hu.2 (mem_keysFor.2 ⟨u, hfirst, huFor, rfl⟩)
          by_contra hne
          exact hstay (decide_eq_true hne)
        · exact hothers u hrest huFor
      · rintro rfl
        exact ⟨hkept _ hcanonical, hvalue⟩
    · exact (othersKept_put hown hvalue).trans
        (others_kept h fun k hk => List.mem_of_mem_filter hk)
    · intro st hst
      obtain ⟨pre, post, hsplit, rfl⟩ := mem_scanl_delete hst
      refine ⟨_, hkept pre fun hk => hcanonical ?_, hvalue⟩
      rw [hsplit]
      exact List.mem_append_left post hk

end Putting

/-! ### The two agents -/

def NoneUnseen (goes : ListPage → Bool) (id : String) (pages : List ListPage) : Prop :=
  ∀ r ∈ unseen goes pages, isFor id r.value = false

/-- None but the canonical one. -/
def OnlyCanonicalUnseen (goes : ListPage → Bool) (id canonical : String)
    (pages : List ListPage) : Prop :=
  ∀ r ∈ unseen goes pages, isFor id r.value = true → lastSegment r.uri = canonical

theorem pages_split (goes : ListPage → Bool) {did : Did} {pages : List ListPage}
    {repo : Favorites} (h : Enumerates did pages repo) :
    ∃ first others : List Favorite, (first ++ others).Perm repo.rows ∧
      seen goes pages = first.map (listed did) ∧ unseen goes pages = others.map (listed did) := by
  obtain ⟨entries, hperm, hall⟩ := h.records
  rw [← seen_unseen goes] at hall
  obtain ⟨first, others, rfl, hfirst, hothers⟩ := List.map_eq_append_iff.1 hall.symm
  exact ⟨first, others, hperm, hfirst.symm, hothers.symm⟩

theorem noneUnseen_map {did : Did} {goes : ListPage → Bool} {id : String} {pages : List ListPage}
    {others : List Favorite} (h : unseen goes pages = others.map (listed did)) :
    NoneUnseen goes id pages ↔ ∀ e ∈ others, isFor id e.value = false := by
  unfold NoneUnseen
  rw [h, List.forall_mem_map]
  rfl

theorem onlyCanonicalUnseen_map {did : Did} {goes : ListPage → Bool} {id canonical : String}
    {pages : List ListPage} {others : List Favorite}
    (h : unseen goes pages = others.map (listed did)) :
    OnlyCanonicalUnseen goes id canonical pages ↔
      ∀ e ∈ others, isFor id e.value = true → e.key = canonical := by
  have huri : ∀ e : Favorite, lastSegment (listed did e).uri = e.key :=
    fun e => lastSegment_uriOf did e.rkey
  unfold OnlyCanonicalUnseen
  rw [h, List.forall_mem_map]
  simp only [huri]
  rfl

theorem listFavoriteRkeys_seen {did : Did} {id : String} {pages : List ListPage}
    {first : List Favorite} (h : seen rustGoes pages = first.map (listed did)) :
    listFavoriteRkeys id pages = keysFor id first := by
  rw [listFavoriteRkeys_eq, h, lastSegment_keys]
  rfl

/-- `clean` takes an empty station id out of the record. -/
theorem isFor_buildFavoriteRecord (s : Station) (now : String) :
    isFor s.id (buildFavoriteRecord s none now) = true ↔ s.id ≠ "" := by
  have hstation : (buildFavoriteRecord s none now).get "station" = some (stationToInfo s) := rfl
  have hid : (stationToInfo s).get "stationId" = kept (text (some s.id)) :=
    (lookup_clean (infoFields_nodup s) "stationId").trans rfl
  unfold isFor stationIdOf
  rw [hstation, Option.bind_some, hid, kept_text, nonEmpty_some]
  by_cases hne : s.id = ""
  · simp [hne]
  · simp [hne]

theorem isFor_rustFavorite (parseUri : String → Option String) (s : WireStation)
    (now : String) : isFor s.stationId (rustFavorite parseUri s now) = true := by
  have hstation : (rustFavorite parseUri s now).get "station" = some (genStation parseUri s) := rfl
  have hnodup : ((genFields parseUri s).map Prod.fst).Nodup := by simp [genFields]
  have hid : (genStation parseUri s).get "stationId" = some (.str s.stationId) :=
    (lookup_members id hnodup "stationId").trans rfl
  unfold isFor stationIdOf
  rw [hstation, Option.bind_some, hid]
  exact decide_eq_true rfl

section Agents

variable (favoriteRkey : String → RecordKey) (parseUri : String → Option String) {did : Did}
  (now : String) {pages : List ListPage} {repo : Favorites}

theorem tsFavorite_iff (s : Station)
    (hpages : Enumerates did pages (tsPut favoriteRkey s now repo))
    (hown : ∀ e ∈ repo.rows, e.key = (favoriteRkey s.id).text → isFor s.id e.value = true) :
    (∃ states, tsFavorite favoriteRkey s now pages repo = some states ∧
      FavoriteDone s.id (favoriteRkey s.id).text repo states) ↔
      s.id ≠ "" ∧ OnlyCanonicalUnseen tsGoes s.id (favoriteRkey s.id).text pages := by
  obtain ⟨first, others, hperm, hseen, hunseen⟩ := pages_split tsGoes hpages
  have hstates : tsFavorite favoriteRkey s now pages repo =
      some (((keysFor s.id first).filter fun k => k ≠ (favoriteRkey s.id).text).scanl
        Table.delete (tsPut favoriteRkey s now repo)) := by
    unfold tsFavorite pruneFavorites
    rw [favoriteRkeysFor_eq did s.id hseen]
    simp [keysFor]
  rw [onlyCanonicalUnseen_map hunseen, ← isFor_buildFavoriteRecord s now,
    ← favorite_iff hperm hown, hstates]
  exact ⟨fun ⟨_, hsome, hdone⟩ => Option.some.inj hsome ▸ hdone, fun hdone => ⟨_, rfl, hdone⟩⟩

theorem tsUnfavorite_iff (s : Station) (hpages : Enumerates did pages repo) :
    (∃ states, tsUnfavorite s pages repo = some states ∧ UnfavoriteDone s.id repo states) ↔
      NoneUnseen tsGoes s.id pages := by
  obtain ⟨first, others, hperm, hseen, hunseen⟩ := pages_split tsGoes hpages
  have hstates : tsUnfavorite s pages repo =
      some ((keysFor s.id first).scanl Table.delete repo) := by
    unfold tsUnfavorite pruneFavorites
    rw [favoriteRkeysFor_eq did s.id hseen]
    simp [keysFor]
  rw [noneUnseen_map hunseen, ← unfavorite_iff hperm, hstates]
  exact ⟨fun ⟨_, hsome, hdone⟩ => Option.some.inj hsome ▸ hdone, fun hdone => ⟨_, rfl, hdone⟩⟩

theorem rustFavorites_iff (s : WireStation)
    (hpages : Enumerates did pages (rustPut favoriteRkey parseUri s now repo))
    (hown : ∀ e ∈ repo.rows,
      e.key = (favoriteRkey s.stationId).text → isFor s.stationId e.value = true) :
    FavoriteDone s.stationId (favoriteRkey s.stationId).text repo
      (rustFavorites favoriteRkey parseUri s now pages repo) ↔
      OnlyCanonicalUnseen rustGoes s.stationId (favoriteRkey s.stationId).text pages := by
  obtain ⟨first, others, hperm, hseen, hunseen⟩ := pages_split rustGoes hpages
  have hiff := favorite_iff hperm hown
  unfold rustFavorites
  rw [onlyCanonicalUnseen_map hunseen, listFavoriteRkeys_seen hseen]
  exact hiff.trans (and_iff_right (isFor_rustFavorite parseUri s now))

theorem rustUnfavorite_iff (s : WireStation) (hpages : Enumerates did pages repo) :
    UnfavoriteDone s.stationId repo (rustUnfavorite s pages repo) ↔
      NoneUnseen rustGoes s.stationId pages := by
  obtain ⟨first, others, hperm, hseen, hunseen⟩ := pages_split rustGoes hpages
  unfold rustUnfavorite
  rw [noneUnseen_map hunseen, listFavoriteRkeys_seen hseen, unfavorite_iff hperm]

end Agents

/-! ### Both agents -/

/-- The answers of `listRecords` in four runs: after the put of either agent, and to either
`unfavorite`. -/
structure Listings where
  tsFavorite : List ListPage
  tsUnfavorite : List ListPage
  rustFavorite : List ListPage
  rustUnfavorite : List ListPage

section Both

variable (favoriteRkey : String → RecordKey) (parseUri : String → Option String) (did : Did)
  (v : StationValue) (now : String) (l : Listings) (repo : Favorites)

structure Listings.Enumerate : Prop where
  tsFavorite : Enumerates did l.tsFavorite (tsPut favoriteRkey v.toStation now repo)
  tsUnfavorite : Enumerates did l.tsUnfavorite repo
  rustFavorite : Enumerates did l.rustFavorite (rustPut favoriteRkey parseUri v.toWire now repo)
  rustUnfavorite : Enumerates did l.rustUnfavorite repo

/-- Both agents leave one favorite of the station, or none after `unfavorite`. -/
structure FavoritesUnique : Prop where
  tsFavorite : ∃ states, Agent.tsFavorite favoriteRkey v.toStation now l.tsFavorite repo =
    some states ∧ FavoriteDone v.stationId (favoriteRkey v.stationId).text repo states
  tsUnfavorite : ∃ states, Agent.tsUnfavorite v.toStation l.tsUnfavorite repo = some states ∧
    UnfavoriteDone v.stationId repo states
  rustFavorite : FavoriteDone v.stationId (favoriteRkey v.stationId).text repo
    (rustFavorites favoriteRkey parseUri v.toWire now l.rustFavorite repo)
  rustUnfavorite : UnfavoriteDone v.stationId repo
    (Agent.rustUnfavorite v.toWire l.rustUnfavorite repo)

/-- The station has an id, and no loop stops before a page with a record to delete. -/
structure FavoritesSeen : Prop where
  id : v.stationId ≠ ""
  tsFavorite : OnlyCanonicalUnseen tsGoes v.stationId (favoriteRkey v.stationId).text
    l.tsFavorite
  tsUnfavorite : NoneUnseen tsGoes v.stationId l.tsUnfavorite
  rustFavorite : OnlyCanonicalUnseen rustGoes v.stationId (favoriteRkey v.stationId).text
    l.rustFavorite
  rustUnfavorite : NoneUnseen rustGoes v.stationId l.rustUnfavorite

theorem favoritesUnique_iff (hlists : l.Enumerate favoriteRkey parseUri did v now repo)
    (hown : ∀ e ∈ repo.rows, e.key = (favoriteRkey v.stationId).text →
      isFor v.stationId e.value = true) :
    FavoritesUnique favoriteRkey parseUri v now l repo ↔ FavoritesSeen favoriteRkey v l := by
  have htsFavorite := tsFavorite_iff favoriteRkey now v.toStation hlists.tsFavorite hown
  have htsUnfavorite := tsUnfavorite_iff v.toStation hlists.tsUnfavorite
  have hrustFavorite :=
    rustFavorites_iff favoriteRkey parseUri now v.toWire hlists.rustFavorite hown
  have hrustUnfavorite := rustUnfavorite_iff v.toWire hlists.rustUnfavorite
  constructor
  · intro h
    obtain ⟨hid, hseen⟩ := htsFavorite.1 h.tsFavorite
    exact ⟨hid, hseen, htsUnfavorite.1 h.tsUnfavorite, hrustFavorite.1 h.rustFavorite,
      hrustUnfavorite.1 h.rustUnfavorite⟩
  · intro h
    exact ⟨htsFavorite.2 ⟨h.id, h.tsFavorite⟩, htsUnfavorite.2 h.tsUnfavorite,
      hrustFavorite.2 h.rustFavorite, hrustUnfavorite.2 h.rustUnfavorite⟩

end Both

/-! ### A listing that begins with an empty page -/

theorem enumerates_one (did : Did) (repo : Favorites) :
    Enumerates did [⟨repo.rows.map (listed did), none⟩] repo :=
  { records := ⟨repo.rows, List.Perm.refl _, by simp⟩
    cursors := by simp
    ends := ⟨_, rfl, rfl⟩ }

theorem Enumerates.after_empty {did : Did} {pages : List ListPage} {repo : Favorites}
    (h : Enumerates did pages repo) (cursor : String) :
    Enumerates did (⟨[], some cursor⟩ :: pages) repo := by
  obtain ⟨p, hlast, hnone⟩ := h.ends
  have hne : pages ≠ [] := by
    rintro rfl
    cases hlast
  refine ⟨h.records, ?_, p, ?_, hnone⟩
  · rw [List.dropLast_cons_of_ne_nil hne]
    intro q hq
    rcases List.mem_cons.1 hq with rfl | hq
    · rfl
    · exact h.cursors q hq
  · rw [List.getLast?_cons, hlast]
    rfl

def anyDid : Did := ⟨"did:plc:a", by decide, by decide⟩

/-- The key derived from `rb:1`. -/
def canonicalKey : RecordKey := ⟨"4698baf987577ea0", by decide, by simp [separators]⟩

def legacyKey : RecordKey := ⟨"3kabc", by decide, by simp [separators]⟩

def legacyFavorite : Favorite :=
  ⟨legacyKey, rustFavorite some taggedStation.toWire "2025-01-01T00:00:00.000Z"⟩

/-- A repository with a favorite under an old random key. -/
def legacyRepo : Favorites := Table.empty.put legacyFavorite

theorem legacyRepo_own : ∀ e ∈ legacyRepo.rows, e.key = canonicalKey.text →
    isFor taggedStation.stationId e.value = true := by
  intro e he hkey
  have hrow : e = legacyFavorite := List.mem_singleton.1 he
  rw [hrow] at hkey
  exact absurd hkey (by decide)

def now : String := "2026-01-01T00:00:00.000Z"

def wholePage (repo : Favorites) : List ListPage := [⟨repo.rows.map (listed anyDid), none⟩]

def oneEach : Listings :=
  { tsFavorite := wholePage (tsPut (fun _ => canonicalKey) taggedStation.toStation now legacyRepo)
    tsUnfavorite := wholePage legacyRepo
    rustFavorite :=
      wholePage (rustPut (fun _ => canonicalKey) some taggedStation.toWire now legacyRepo)
    rustUnfavorite := wholePage legacyRepo }

theorem oneEach_enumerates :
    oneEach.Enumerate (fun _ => canonicalKey) some anyDid taggedStation now legacyRepo :=
  ⟨enumerates_one _ _, enumerates_one _ _, enumerates_one _ _, enumerates_one _ _⟩

theorem legacy_reconciled :
    FavoritesUnique (fun _ => canonicalKey) some taggedStation now oneEach legacyRepo :=
  (favoritesUnique_iff (fun _ => canonicalKey) some anyDid taggedStation now oneEach legacyRepo
    oneEach_enumerates legacyRepo_own).2
    { id := by decide
      tsFavorite := fun r hr => nomatch hr
      tsUnfavorite := fun r hr => nomatch hr
      rustFavorite := fun r hr => nomatch hr
      rustUnfavorite := fun r hr => nomatch hr }

/-- The Rust agent is given an empty page with a cursor before the page of the records. -/
def emptyFirst : Listings :=
  { oneEach with rustFavorite := ⟨[], some "next"⟩ :: oneEach.rustFavorite }

/-- The Rust agent stops at the empty page, and the old record stays beside the new one. -/
theorem legacy_left :
    emptyFirst.Enumerate (fun _ => canonicalKey) some anyDid taggedStation now legacyRepo ∧
      ¬ FavoritesUnique (fun _ => canonicalKey) some taggedStation now emptyFirst legacyRepo := by
  have hrust := oneEach_enumerates.rustFavorite.after_empty "next"
  refine ⟨⟨oneEach_enumerates.tsFavorite, oneEach_enumerates.tsUnfavorite, hrust,
    oneEach_enumerates.rustUnfavorite⟩, fun h => ?_⟩
  have hseen := (rustFavorites_iff (fun _ => canonicalKey) some now taggedStation.toWire hrust
    legacyRepo_own).1 h.rustFavorite
  have hunseen : listed anyDid legacyFavorite ∈
      unseen rustGoes (⟨[], some "next"⟩ :: oneEach.rustFavorite) := List.mem_cons_self ..
  have hrecord := hseen (listed anyDid legacyFavorite) hunseen (isFor_rustFavorite some _ _)
  exact absurd hrecord (by decide)

end Atradio.Agent
