import Mathlib.Data.List.Perm.Subperm
import Atradio.Agent.Unique
import Atradio.Web.Favorites

/-! # Toggles that the agent rejects (`atoms/favorites.ts`, `agent.ts`)

A call of the agent puts a record, reads the list page by page, and deletes the records one by one.
It may reject at each of the requests; the toggle then puts back the list that it found. -/

namespace Atradio.Web.Rollback
open Atradio.Lib Atradio.Lexicons Atradio.Agent

/-- The request at which a call rejects. A write may have taken effect all the same. -/
inductive Failure where
  | put (applied : Bool)
  | page (n : ℕ)
  | delete (n : ℕ) (applied : Bool)

/-- How many pages `#favoriteRkeysFor` asks for. -/
def asked : List ListPage → ℕ
  | [] => 0
  | p :: pages => if tsGoes p then asked pages + 1 else 1

/-- The repository when `#pruneFavorites` rejects; none if it does not come to that request. -/
def pruneFails (stationId : String) (keep : Option String) (pages : List ListPage)
    (repo : Favorites) : Failure → Option Favorites
  | .put _ => none
  | .page n => if n < asked pages then some repo else none
  | .delete n applied => do
    let states ← pruneFavorites stationId keep pages repo
    let after ← states[n + 1]?
    if applied then some after else states[n]?

section Toggle

variable (favoriteRkey : String → RecordKey) (atoms : Atoms) (station : Station) (now : String)

def favoriteFails (pages : List ListPage) (repo : Favorites) : Failure → Option Favorites
  | .put applied => some (if applied then tsPut favoriteRkey station now repo else repo)
  | failure => pruneFails station.id (some (favoriteRkey station.id).text) pages
      (tsPut favoriteRkey station now repo) failure

def unfavoriteFails (pages : List ListPage) (repo : Favorites) : Failure → Option Favorites :=
  pruneFails station.id none pages repo

def shown : Bool := atoms.favorites.any fun s => s.id = station.id

def callFails (pages : List ListPage) (repo : Favorites) (failure : Failure) : Option Favorites :=
  if !atoms.agent then none
  else if shown atoms station then unfavoriteFails station pages repo failure
  else favoriteFails favoriteRkey station now pages repo failure

def listedRepo (repo : Favorites) : Favorites :=
  if shown atoms station then repo else tsPut favoriteRkey station now repo

/-- The atoms when the toggle has handled the rejection. -/
def rolledBack : Atoms :=
  (run (step fun id => (favoriteRkey id).text) (State.init atoms)
    [.toggle station, .answered 0 false]).atoms

def Agrees (after : Favorites) : Prop :=
  station.id ∈ ids (rolledBack favoriteRkey atoms station).favorites ↔
    ∃ e ∈ after.rows, isFor station.id e.value = true

/-! ### When they agree -/

def Failure.deletes : Failure → ℕ
  | .delete n applied => if applied then n + 1 else n
  | _ => 0

def records (repo : Favorites) : ℕ := (keysFor station.id repo.rows).length

/-- A station that is shown keeps a record; of one that is not, none has been put. The record of a
station with an empty id does not carry the id. -/
def Restores (repo : Favorites) (failure : Failure) : Prop :=
  if shown atoms station then failure.deletes < records station repo
  else match failure with
    | .put false => records station repo = 0
    | _ => station.id = "" ∧ records station (tsPut favoriteRkey station now repo) = failure.deletes

end Toggle

/-! ### What a failure leaves -/

section Left

variable {id : String} {repo : Favorites} {ks : List String}

theorem nodup_keysFor : (keysFor id repo.rows).Nodup :=
  (List.filter_sublist.map Favorite.key).nodup repo.nodup

/-- Records of the station are left if fewer keys have been deleted than there are. -/
theorem left_iff (hnodup : ks.Nodup) (hsub : ks ⊆ keysFor id repo.rows) :
    (∃ e ∈ (ks.foldl Table.delete repo).rows, isFor id e.value = true) ↔
      ks.length < (keysFor id repo.rows).length := by
  constructor
  · rintro ⟨e, he, hfor⟩
    obtain ⟨hmem, hout⟩ := (mem_foldl_delete ks repo e).1 he
    have hown : e.key ∈ keysFor id repo.rows := mem_keysFor.2 ⟨e, hmem, hfor, rfl⟩
    have hcons : (e.key :: ks).Nodup := List.nodup_cons.2 ⟨hout, hnodup⟩
    have hle := (List.subperm_of_subset hcons (List.cons_subset.2 ⟨hown, hsub⟩)).length_le
    rw [List.length_cons] at hle
    omega
  · intro hlt
    by_contra hnone
    have hall : keysFor id repo.rows ⊆ ks := by
      intro k hk
      obtain ⟨e, hmem, hfor, rfl⟩ := mem_keysFor.1 hk
      by_contra hout
      exact hnone ⟨e, (mem_foldl_delete ks repo e).2 ⟨hmem, hout⟩, hfor⟩
    have hle := (List.subperm_of_subset nodup_keysFor hall).length_le
    omega

/-- Keys of the station but the one that is kept, each once. -/
structure Deletable (id : String) (keep : Option String) (repo : Favorites) (ks : List String) :
    Prop where
  nodup : ks.Nodup
  own : ks ⊆ keysFor id repo.rows
  others : ∀ k ∈ ks, some k ≠ keep

theorem Deletable.length_le {keep : Option String} (h : Deletable id keep repo ks) :
    ks.length ≤ (keysFor id repo.rows).length :=
  (List.subperm_of_subset h.nodup h.own).length_le

theorem Deletable.length_lt {k : String} (h : Deletable id (some k) repo ks)
    (hk : k ∈ keysFor id repo.rows) : ks.length < (keysFor id repo.rows).length := by
  have hout : k ∉ ks := fun hmem => h.others k hmem rfl
  have hcons : (k :: ks).Nodup := List.nodup_cons.2 ⟨hout, h.nodup⟩
  have hle := (List.subperm_of_subset hcons (List.cons_subset.2 ⟨hk, h.own⟩)).length_le
  rw [List.length_cons] at hle
  omega

theorem Deletable.nil (keep : Option String) : Deletable id keep repo [] :=
  ⟨List.nodup_nil, List.nil_subset _, nofun⟩

theorem pruneFavorites_states (id : String) {did : Did} {pages : List ListPage}
    (h : Enumerates did pages repo) (keep : Option String) :
    ∃ ks : List String, Deletable id keep repo ks ∧
      pruneFavorites id keep pages repo = some (ks.scanl Table.delete repo) := by
  obtain ⟨first, others, hperm, hseen, -⟩ := pages_split tsGoes h
  have hfirst : keysFor id first ⊆ keysFor id repo.rows := by
    intro k hk
    obtain ⟨e, he, hfor, hkey⟩ := mem_keysFor.1 hk
    exact mem_keysFor.2 ⟨e, hperm.mem_iff.1 (List.mem_append_left others he), hfor, hkey⟩
  have hrepo : ((first ++ others).map Favorite.key).Nodup :=
    (hperm.map Favorite.key).nodup_iff.2 repo.nodup
  have hnodup : (keysFor id first).Nodup := by
    rw [List.map_append] at hrepo
    exact (List.filter_sublist.map Favorite.key).nodup (List.Nodup.of_append_left hrepo)
  refine ⟨(keysFor id first).filter fun rkey => some rkey ≠ keep, ⟨hnodup.filter _, ?_, ?_⟩, ?_⟩
  · exact fun k hk => hfirst (List.mem_of_mem_filter hk)
  · exact fun k hk => of_decide_eq_true (List.mem_filter.1 hk).2
  · rw [pruneFavorites, favoriteRkeysFor_eq did id hseen]
    rfl

/-- A rejection leaves the repository less the records whose deletes have taken effect. -/
theorem pruneFails_deletes {did : Did} {pages : List ListPage} (h : Enumerates did pages repo)
    {keep : Option String} {failure : Failure} {after : Favorites}
    (hfails : pruneFails id keep pages repo failure = some after) :
    ∃ ks, Deletable id keep repo ks ∧ ks.length = failure.deletes ∧
      after = ks.foldl Table.delete repo := by
  cases failure with
  | put applied => cases hfails
  | page n =>
    obtain ⟨-, hafter⟩ := Option.ite_none_right_eq_some.1 hfails
    exact ⟨[], .nil keep, rfl, (Option.some.inj hafter).symm⟩
  | delete n applied =>
    obtain ⟨ks, hks, hstates⟩ := pruneFavorites_states id h keep
    have htake : ∀ k, k ≤ ks.length →
        Deletable id keep repo (ks.take k) ∧ (ks.take k).length = k := by
      intro k hk
      refine ⟨⟨(List.take_sublist k ks).nodup hks.nodup, ?_, ?_⟩, List.length_take_of_le hk⟩
      · exact fun x hx => hks.own (List.mem_of_mem_take hx)
      · exact fun x hx => hks.others x (List.mem_of_mem_take hx)
    rw [pruneFails, hstates] at hfails
    simp only [Option.bind_eq_bind, Option.bind_some, List.getElem?_scanl] at hfails
    obtain ⟨later, hlater, hafter⟩ := Option.bind_eq_some_iff.1 hfails
    obtain ⟨hn, hlast⟩ := Option.ite_none_right_eq_some.1 hlater
    cases applied with
    | true =>
      obtain ⟨hdeletable, hlength⟩ := htake (n + 1) hn
      exact ⟨_, hdeletable, hlength, Option.some.inj (hafter.symm.trans hlast.symm)⟩
    | false =>
      have hn' : n ≤ ks.length := by omega
      rw [if_neg Bool.false_ne_true, if_pos hn'] at hafter
      obtain ⟨hdeletable, hlength⟩ := htake n hn'
      exact ⟨_, hdeletable, hlength, (Option.some.inj hafter).symm⟩

end Left

/-! ### What the toggle puts back -/

section Toggle

variable (favoriteRkey : String → RecordKey) {atoms : Atoms} {station : Station}

theorem rolledBack_favorites :
    (rolledBack favoriteRkey atoms station).favorites = atoms.favorites := by
  cases hagent : atoms.agent with
  | false => simp [rolledBack, step, start, State.init, hagent]
  | true =>
    by_cases hshown : ∃ s ∈ atoms.favorites, s.id = station.id
    · simp [rolledBack, step, start, State.init, hagent, hshown, enter, resume, finish]
    · simp [rolledBack, step, start, State.init, hagent, hshown, enter, resume, finish]

theorem agrees_iff (after : Favorites) : Agrees favoriteRkey atoms station after ↔
    (shown atoms station = true ↔ ∃ e ∈ after.rows, isFor station.id e.value = true) := by
  have hshown : shown atoms station = true ↔ station.id ∈ ids atoms.favorites := by
    simp [shown, ids]
  rw [Agrees, rolledBack_favorites, hshown]

theorem records_put (now : String) (repo : Favorites) (hid : station.id ≠ "") :
    (favoriteRkey station.id).text ∈
      keysFor station.id (tsPut favoriteRkey station now repo).rows :=
  mem_keysFor.2 ⟨⟨favoriteRkey station.id, buildFavoriteRecord station none now⟩,
    (Table.mem_put _ _ _).2 (Or.inl rfl), (isFor_buildFavoriteRecord station now).2 hid, rfl⟩

variable {did : Did} {now : String} {pages : List ListPage} {repo after : Favorites}
  {failure : Failure}

theorem favoriteFails_deletes
    (hpages : Enumerates did pages (tsPut favoriteRkey station now repo))
    (hput : failure ≠ .put false)
    (hfails : favoriteFails favoriteRkey station now pages repo failure = some after) :
    ∃ ks, Deletable station.id (some (favoriteRkey station.id).text)
        (tsPut favoriteRkey station now repo) ks ∧ ks.length = failure.deletes ∧
      after = ks.foldl Table.delete (tsPut favoriteRkey station now repo) := by
  cases failure with
  | put applied =>
    cases applied with
    | true => exact ⟨[], .nil _, rfl, (Option.some.inj hfails).symm⟩
    | false => exact absurd rfl hput
  | page n => exact pruneFails_deletes hpages hfails
  | delete n applied => exact pruneFails_deletes hpages hfails

/-- The record that has been put is left, if it carries the station's id. -/
theorem none_left_iff {ks : List String}
    (h : Deletable station.id (some (favoriteRkey station.id).text)
      (tsPut favoriteRkey station now repo) ks) :
    (¬ ∃ e ∈ (ks.foldl Table.delete (tsPut favoriteRkey station now repo)).rows,
      isFor station.id e.value = true) ↔
      station.id = "" ∧ records station (tsPut favoriteRkey station now repo) = ks.length := by
  have hle := h.length_le
  rw [left_iff h.nodup h.own, records]
  constructor
  · intro hlt
    refine ⟨?_, by omega⟩
    by_contra hid
    exact hlt (h.length_lt (records_put favoriteRkey now repo hid))
  · rintro ⟨-, hall⟩
    omega

end Toggle

/-- The rollback agrees with the repository, whatever the request that failed, exactly if a shown
station keeps a record, or nothing has been put for one that is not shown. -/
theorem rollback_iff (favoriteRkey : String → RecordKey) {did : Did} (atoms : Atoms)
    (station : Station) (now : String) {pages : List ListPage} {repo after : Favorites}
    {failure : Failure}
    (hpages : Enumerates did pages (listedRepo favoriteRkey atoms station now repo))
    (hfails : callFails favoriteRkey atoms station now pages repo failure = some after) :
    Agrees favoriteRkey atoms station after ↔ Restores favoriteRkey atoms station now repo failure := by
  obtain ⟨-, hcall⟩ := Option.ite_none_left_eq_some.1 hfails
  rw [agrees_iff]
  unfold Restores
  unfold listedRepo at hpages
  cases hshown : shown atoms station with
  | true =>
    rw [hshown, if_pos rfl] at hcall hpages
    obtain ⟨ks, hks, hlength, rfl⟩ := pruneFails_deletes hpages hcall
    rw [left_iff hks.nodup hks.own, if_pos rfl, hlength]
    exact iff_true_left rfl
  | false =>
    rw [hshown, if_neg Bool.false_ne_true] at hcall hpages
    rw [if_neg Bool.false_ne_true, iff_false_left Bool.false_ne_true]
    by_cases hput : failure = .put false
    · subst hput
      obtain rfl := Option.some.inj hcall
      have hleft := left_iff List.nodup_nil (List.nil_subset (keysFor station.id repo.rows))
      rw [List.foldl_nil, List.length_nil] at hleft
      rw [if_neg Bool.false_ne_true, hleft]
      exact Nat.pos_iff_ne_zero.not_left
    · obtain ⟨ks, hks, hlength, rfl⟩ := favoriteFails_deletes favoriteRkey hpages hput hcall
      rw [none_left_iff favoriteRkey hks, hlength]
      split
      · exact absurd rfl hput
      · rfl

def signedIn : Atoms := { agent := true, favorites := [], rkeys := Table.empty }

/-- The put is refused: nothing is shown and nothing is there. -/
theorem refused_agrees : Agrees (fun _ => canonicalKey) signedIn (stationOf "rb:1") Table.empty := by
  have hfails : callFails (fun _ => canonicalKey) signedIn (stationOf "rb:1") Agent.now
      (wholePage (tsPut (fun _ => canonicalKey) (stationOf "rb:1") Agent.now Table.empty)) Table.empty
      (.put false) = some Table.empty := rfl
  exact (rollback_iff (fun _ => canonicalKey) signedIn (stationOf "rb:1") Agent.now
    (enumerates_one _ _) hfails).2 rfl

/-- The put goes through and the listing behind it fails: the record is there and is not shown. -/
theorem written_not_shown : ∃ after, callFails (fun _ => canonicalKey) signedIn (stationOf "rb:1")
      Agent.now (wholePage (tsPut (fun _ => canonicalKey) (stationOf "rb:1") Agent.now Table.empty))
      Table.empty (.page 0) = some after ∧
    ¬ Agrees (fun _ => canonicalKey) signedIn (stationOf "rb:1") after := by
  refine ⟨tsPut (fun _ => canonicalKey) (stationOf "rb:1") Agent.now Table.empty, rfl, fun h => ?_⟩
  have hfor := (isFor_buildFavoriteRecord (stationOf "rb:1") Agent.now).2 (by decide)
  rw [Agrees, rolledBack_favorites] at h
  have hmem := h.2 ⟨_, (Table.mem_put _ _ _).2 (Or.inl rfl), hfor⟩
  cases hmem

end Atradio.Web.Rollback
