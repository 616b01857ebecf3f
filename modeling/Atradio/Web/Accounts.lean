import Atradio.Lib.Run
import Atradio.Web.Loading

/-! # Whose stations the web player shows

The favorites and the stations of the account (`UserDataSync.tsx`, `atoms/favorites.ts`,
`atoms/customStations.ts`) while the session comes and goes. The log is what the repository of an
account has listed, and what the account has added. -/

namespace Atradio.Web.Accounts
open Atradio.Lib Atradio.Lexicons Atradio.Web.Loading

/-- A session that is set anew is another object, and its client another client. -/
structure Session where
  sub : String
  object : ℕ
  deriving DecidableEq

/-- One run of the effect that loads the records. -/
structure Load where
  did : String
  cancelled : Bool
  settled : Bool
  deriving DecidableEq

/-- A removal that awaits the delete, with what it puts back. -/
structure Removal where
  current : List Station
  rkeys : JsMap String String

structure View where
  session : Option Session := none
  /-- `client` and `did` when the component rendered last. -/
  rendered : Option Session := none
  favorites : State := .init { agent := false, favorites := [], rkeys := Table.empty }
  customStations : List Station := []
  customRkeys : JsMap String String := Table.empty
  loads : List Load := []
  /-- Who adds a station; none when the record is written or refused. -/
  adding : List (Option String) := []
  removing : List (Option Removal) := []
  log : List (String × Station) := []

inductive Event where
  | setSession (session : Option Session)
  | render
  | loaded (i : ℕ) (records : Option (List StoredStation × List StoredStation))
  | toggleFavorite (station : Station)
  | toggled (ticket : ℕ) (ok : Bool)
  | addCustomStation
  | added (i : ℕ) (stored : Option StoredStation)
  | removeCustomStation (id : String)
  | removed (i : ℕ) (ok : Bool)

def View.setAtoms (v : View) (atoms : Atoms) : View := { v with favorites := { v.favorites with atoms } }

def View.shown (v : View) : List Station := v.favorites.atoms.favorites ++ v.customStations

def setCustomStations (items : List StoredStation) (v : View) : View :=
  { v with
    customStations := items.map (·.station)
    customRkeys := items.foldl (fun m i => m.put (i.id, i.rkey)) Table.empty }

def View.clear (v : View) : View :=
  { v.setAtoms { v.favorites.atoms with favorites := [], rkeys := Table.empty } with
    customStations := []
    customRkeys := Table.empty }

/-- The effect of `UserDataSync`, behind the cleanup of its last run. -/
def View.render (v : View) : View :=
  if v.rendered = v.session then v
  else
    let left := v.loads.map fun l => { l with cancelled := true }
    match v.session with
    | none => { v.clear with rendered := none, loads := left }
    | some s => { v with rendered := some s, loads := left ++ [⟨s.sub, false, false⟩] }

def View.loaded (v : View) (l : Load) : Option (List StoredStation × List StoredStation) → View
  | none => v
  | some (favorites, stations) =>
    let v := { v with log := v.log ++ (favorites ++ stations).map fun i => (l.did, i.station) }
    if l.cancelled then v
    else setCustomStations stations (v.setAtoms (setFavorites favorites v.favorites.atoms))

/-- `toggleFavoriteAtom`, as the account that is signed in. -/
def View.toggle (v : View) (station : Station) : View :=
  match v.session with
  | none => v
  | some s =>
    { v with
      favorites := start { v.favorites with atoms := { v.favorites.atoms with agent := true } } station
      log :=
        if v.favorites.atoms.favorites.any fun x => x.id = station.id then v.log
        else v.log ++ [(s.sub, station)] }

def View.added (v : View) (did : String) : Option StoredStation → View
  | none => v
  | some i =>
    { v with
      customStations := i.station :: v.customStations
      customRkeys := v.customRkeys.set i.id i.rkey
      log := v.log ++ [(did, i.station)] }

/-- `removeCustomStationAtom` up to its await. There is none without a session or a key. -/
def View.remove (v : View) (id : String) : View :=
  let awaits := v.session.isSome && (v.customRkeys.find id).any (· ≠ "")
  { v with
    customStations := v.customStations.filter fun x => x.id ≠ id
    customRkeys := v.customRkeys.delete id
    removing :=
      if awaits then v.removing ++ [some ⟨v.customStations, v.customRkeys⟩] else v.removing }

def step (favoriteRkey : String → String) (v : View) : Event → View
  | .setSession session => { v with session }
  | .render => v.render
  | .loaded i records =>
    match v.loads[i]? with
    | some ⟨did, cancelled, false⟩ =>
      { v with loads := v.loads.set i ⟨did, cancelled, true⟩ }.loaded ⟨did, cancelled, true⟩ records
    | _ => v
  | .toggleFavorite station => v.toggle station
  | .toggled ticket ok =>
    { v with favorites := Web.step favoriteRkey v.favorites (.answered ticket ok) }
  | .addCustomStation =>
    match v.session with
    | none => v
    | some s => { v with adding := v.adding ++ [some s.sub] }
  | .added i stored =>
    match v.adding[i]? with
    | some (some did) => { v with adding := v.adding.set i none }.added did stored
    | _ => v
  | .removeCustomStation id => v.remove id
  | .removed i ok =>
    match v.removing[i]? with
    | some (some r) =>
      let v := { v with removing := v.removing.set i none }
      if ok then v else { v with customStations := r.current, customRkeys := r.rkeys }
    | _ => v

/-! ### What is private -/

/-- The account rendered last has listed or added the station. -/
def View.Own (v : View) (x : Station) : Prop := ∃ s, v.rendered = some s ∧ (s.sub, x) ∈ v.log

/-- Nothing is shown but what the account has listed or added, and nothing without one. -/
def Private (v : View) : Prop := ∀ x ∈ v.shown, v.Own x

/-- Another account is rendered over the stations of the last, a list found under another account is
put back, or a station is added for another account than the one on show. -/
def Leaks (v : View) : Event → Prop
  | .render => ∃ s, v.session = some s ∧ v.rendered ≠ some s ∧ ∃ x ∈ v.shown, (s.sub, x) ∉ v.log
  | .toggleFavorite station => ∃ s, v.session = some s ∧
      station.id ∉ ids v.favorites.atoms.favorites ∧ v.rendered.map Session.sub ≠ some s.sub ∧
      ¬ v.Own station
  | .toggled ticket ok => ok = false ∧ ∃ t, v.favorites.pending.get ticket = some t ∧
      (∀ spread, t.stage ≠ .keying spread) ∧ ∃ x ∈ t.current, ¬ v.Own x
  | .added i (some stored) => ∃ did, v.adding[i]? = some (some did) ∧
      v.rendered.map Session.sub ≠ some did ∧ ¬ v.Own stored.station
  | .removed i false => ∃ r, v.removing[i]? = some (some r) ∧ ∃ x ∈ r.current, ¬ v.Own x
  | _ => False

/-- A load that has not been cancelled is for the account rendered last. -/
def Current (v : View) : Prop :=
  ∀ l ∈ v.loads, l.cancelled = false → v.rendered.map Session.sub = some l.did

section Steps

variable {v : View}

theorem View.Own.mono {v' : View} {x : Station} (h : v.Own x) (hrendered : v'.rendered = v.rendered)
    (hlog : v.log ⊆ v'.log) : v'.Own x := by
  obtain ⟨s, hs, hx⟩ := h
  exact ⟨s, hrendered.trans hs, hlog hx⟩

theorem Private.of_subset {v' : View} (h : Private v) (hshown : v'.shown ⊆ v.shown)
    (hrendered : v'.rendered = v.rendered) (hlog : v.log ⊆ v'.log) : Private v' :=
  fun x hx => (h x (hshown hx)).mono hrendered hlog

theorem View.own_iff {x : Station} :
    v.Own x ↔ ∃ did, v.rendered.map Session.sub = some did ∧ (did, x) ∈ v.log := by
  constructor
  · rintro ⟨s, hs, hx⟩
    exact ⟨s.sub, by rw [hs]; rfl, hx⟩
  · rintro ⟨did, hdid, hx⟩
    obtain ⟨s, hs, rfl⟩ := Option.map_eq_some_iff.1 hdid
    exact ⟨s, hs, hx⟩

/-- A station is logged for an account. -/
theorem own_logged {v' : View} {did : String} {x : Station} (hrendered : v'.rendered = v.rendered)
    (hlog : v'.log = v.log ++ [(did, x)]) :
    v'.Own x ↔ v.Own x ∨ v.rendered.map Session.sub = some did := by
  rw [View.own_iff, View.own_iff, hrendered, hlog]
  constructor
  · rintro ⟨did', hdid', hx⟩
    rcases List.mem_append.1 hx with hx | hx
    · exact Or.inl ⟨did', hdid', hx⟩
    · rw [List.mem_singleton, Prod.mk.injEq] at hx
      exact Or.inr (hx.1 ▸ hdid')
  · rintro (⟨did', hdid', hx⟩ | hdid)
    · exact ⟨did', hdid', List.mem_append_left _ hx⟩
    · exact ⟨did, hdid, List.mem_concat_self⟩

/-- One more station is shown. -/
theorem private_logged (h : Private v) (v' : View) (did : String) (x : Station)
    (hshown : ∀ y, y ∈ v'.shown ↔ y = x ∨ y ∈ v.shown) (hrendered : v'.rendered = v.rendered)
    (hlog : v'.log = v.log ++ [(did, x)]) :
    Private v' ↔ ¬ (v.rendered.map Session.sub ≠ some did ∧ ¬ v.Own x) := by
  have hgrows : v.log ⊆ v'.log := hlog ▸ List.subset_append_left _ _
  rw [not_and_or, not_not, not_not]
  constructor
  · intro hp
    exact ((own_logged hrendered hlog).1 (hp x ((hshown x).2 (Or.inl rfl)))).symm
  · intro hown y hy
    rcases (hshown y).1 hy with rfl | hy
    · exact (own_logged hrendered hlog).2 hown.symm
    · exact (h y hy).mono hrendered hgrows

/-- A list is put back. -/
theorem private_restored (v' : View) (put : List Station) {kept : List Station}
    (hkept : ∀ x ∈ kept, v.Own x) (hshown : ∀ y, y ∈ v'.shown ↔ y ∈ put ∨ y ∈ kept)
    (hrendered : v'.rendered = v.rendered) (hlog : v'.log = v.log) : Private v' ↔ ¬ ∃ x ∈ put, ¬ v.Own x := by
  have hown : ∀ x, v'.Own x ↔ v.Own x := fun x => by rw [View.Own, hrendered, hlog]; rfl
  push Not
  constructor
  · exact fun hp x hx => (hown x).1 (hp x ((hshown x).2 (Or.inl hx)))
  · intro hput x hx
    rcases (hshown x).1 hx with hx | hx
    · exact (hown x).2 (hput x hx)
    · exact (hown x).2 (hkept x hx)

theorem private_render (h : Private v) : Private v.render ↔ ¬ Leaks v .render := by
  unfold View.render Leaks
  split
  next hsame =>
    refine iff_of_true h ?_
    rintro ⟨s, hs, hne, -⟩
    exact hne (hsame.trans hs)
  next hchanged =>
    cases hsession : v.session with
    | none =>
      refine iff_of_true (fun x hx => ?_) ?_
      · cases hx
      · rintro ⟨s, hs, -⟩
        cases hs
    | some s =>
      rw [hsession] at hchanged
      have hown : ∀ x, (∃ s', some s = some s' ∧ (s'.sub, x) ∈ v.log) ↔ (s.sub, x) ∈ v.log :=
        fun x => ⟨by rintro ⟨s', ⟨⟩, hx⟩; exact hx, fun hx => ⟨s, rfl, hx⟩⟩
      constructor
      · rintro hp ⟨s', ⟨⟩, -, x, hx, hforeign⟩
        exact hforeign ((hown x).1 (hp x hx))
      · intro hnot x hx
        refine (hown x).2 ?_
        by_contra hforeign
        exact hnot ⟨s, rfl, hchanged, x, hx, hforeign⟩

theorem mem_setFavorites_log {items : List StoredStation} {atoms : Atoms} {x : Station}
    (h : x ∈ (setFavorites items atoms).favorites) : ∃ i ∈ items, i.station = x := by
  obtain ⟨i, hfirst, rfl⟩ := (mem_setFavorites atoms).1 h
  exact ⟨i, List.mem_of_find?_eq_some hfirst, rfl⟩

theorem private_loaded (h : Private v) {l : Load}
    (hl : l.cancelled = false → v.rendered.map Session.sub = some l.did)
    (records : Option (List StoredStation × List StoredStation)) : Private (v.loaded l records) := by
  cases records with
  | none => exact h
  | some r =>
    obtain ⟨favorites, stations⟩ := r
    simp only [View.loaded]
    split
    · exact h.of_subset (fun _ => id) rfl (List.subset_append_left _ _)
    next hlive =>
      have hdid := hl ((Bool.not_eq_true _).mp hlive)
      intro x hx
      refine View.own_iff.2 ⟨l.did, hdid, List.mem_append_right _ (List.mem_map.2 ?_)⟩
      have hlisted : ∃ i ∈ favorites ++ stations, i.station = x := by
        rcases List.mem_append.1 hx with hx | hx
        · obtain ⟨i, hi, hix⟩ := mem_setFavorites_log hx
          exact ⟨i, List.mem_append_left _ hi, hix⟩
        · obtain ⟨i, hi, hix⟩ := List.mem_map.1 hx
          exact ⟨i, List.mem_append_right _ hi, hix⟩
      obtain ⟨i, hi, rfl⟩ := hlisted
      exact ⟨i, hi, rfl⟩

theorem private_toggle (h : Private v) (station : Station) :
    Private (v.toggle station) ↔ ¬ Leaks v (.toggleFavorite station) := by
  unfold View.toggle Leaks
  cases hsession : v.session with
  | none => exact iff_of_true h (by rintro ⟨s, ⟨⟩, -⟩)
  | some s =>
    have hlist : (v.favorites.atoms.favorites.any fun x => x.id = station.id) = true ↔
        station.id ∈ ids v.favorites.atoms.favorites := by simp [ids]
    by_cases hshown : (v.favorites.atoms.favorites.any fun x => x.id = station.id) = true
    · refine iff_of_true (h.of_subset (fun x hx => ?_) rfl ?_) ?_
      · simp only [View.shown, start, if_true, if_pos hshown, enter] at hx ⊢
        rcases List.mem_append.1 hx with hx | hx
        · exact List.mem_append_left _ (List.mem_of_mem_filter hx)
        · exact List.mem_append_right _ hx
      · simp only [if_pos hshown]
        exact fun _ => id
      · rintro ⟨s', -, hout, -⟩
        exact hout (hlist.1 hshown)
    · have hout : station.id ∉ ids v.favorites.atoms.favorites := fun hin => hshown (hlist.2 hin)
      have hadd := private_logged h
        { v with
          favorites := start { v.favorites with atoms := { v.favorites.atoms with agent := true } } station
          log := if (v.favorites.atoms.favorites.any fun x => x.id = station.id) then v.log
            else v.log ++ [(s.sub, station)] } s.sub station
        (fun y => by
          rw [View.shown, View.shown, start, if_pos rfl]
          dsimp only
          rw [if_neg hshown]
          simp [enter])
        rfl (if_neg hshown)
      refine hadd.trans (not_congr ⟨fun hleak => ⟨s, rfl, hout, hleak⟩, ?_⟩)
      rintro ⟨s', ⟨⟩, -, hleak⟩
      exact hleak

theorem private_toggled (favoriteRkey : String → String) (h : Private v) (ticket : ℕ) (ok : Bool) :
    Private (step favoriteRkey v (.toggled ticket ok)) ↔ ¬ Leaks v (.toggled ticket ok) := by
  have hsame : ∀ f : State, f.atoms.favorites = v.favorites.atoms.favorites →
      Private { v with favorites := f } := by
    intro f hf
    refine h.of_subset (fun x hx => ?_) rfl fun _ => id
    rw [View.shown] at hx ⊢
    rw [← hf]
    exact hx
  have hcustom : ∀ x ∈ v.customStations, v.Own x := fun x hx => h x (List.mem_append_right _ hx)
  simp only [step, Web.step, Leaks]
  cases hget : v.favorites.pending.get ticket with
  | none => exact iff_of_true (hsame _ rfl) (by rintro ⟨-, t, ⟨⟩, -⟩)
  | some t =>
    have hput : ∀ f : State, f.atoms.favorites = t.current →
        (∀ spread, t.stage ≠ .keying spread) →
        (Private { v with favorites := f } ↔ ¬ (false = false ∧ ∃ t', some t = some t' ∧
          (∀ spread, t'.stage ≠ .keying spread) ∧ ∃ x ∈ t'.current, ¬ v.Own x)) := by
      intro f hf hstage
      have hrestored := private_restored { v with favorites := f } t.current hcustom
        (fun y => by rw [View.shown, List.mem_append, hf]) rfl rfl
      refine hrestored.trans (not_congr ⟨fun hx => ⟨rfl, t, rfl, hstage, hx⟩, ?_⟩)
      rintro ⟨-, t', ⟨⟩, -, hx⟩
      exact hx
    dsimp only [resume]
    cases hstage : t.stage with
    | removing rkeys =>
      cases ok with
      | true => exact iff_of_true (hsame _ rfl) (by rintro ⟨hok, -⟩; cases hok)
      | false => exact hput _ rfl fun spread heq => by rw [hstage] at heq; cases heq
    | adding =>
      cases ok with
      | true => exact iff_of_true (hsame _ rfl) (by rintro ⟨hok, -⟩; cases hok)
      | false => exact hput _ rfl fun spread heq => by rw [hstage] at heq; cases heq
    | keying spread =>
      refine iff_of_true (hsame _ rfl) ?_
      rintro ⟨-, t', ⟨⟩, hnot, -⟩
      exact hnot spread hstage

theorem private_added (favoriteRkey : String → String) (h : Private v) (i : ℕ)
    (stored : Option StoredStation) :
    Private (step favoriteRkey v (.added i stored)) ↔ ¬ Leaks v (.added i stored) := by
  have hnone : ∀ adding, Private { v with adding } := fun _ => h
  cases hadding : v.adding[i]? with
  | none =>
    simp only [step, hadding]
    refine iff_of_true h ?_
    cases stored with
    | none => exact id
    | some st =>
      rintro ⟨did, hdid, -⟩
      rw [hadding] at hdid
      cases hdid
  | some who =>
    cases who with
    | none =>
      simp only [step, hadding]
      refine iff_of_true h ?_
      cases stored with
      | none => exact id
      | some st =>
        rintro ⟨did, hdid, -⟩
        rw [hadding] at hdid
        cases hdid
    | some did =>
      simp only [step, hadding]
      cases stored with
      | none => exact iff_of_true (hnone _) id
      | some st =>
        have hadd := private_logged h ({ v with adding := v.adding.set i none }.added did (some st))
          did st.station (fun y => by simp [View.shown, View.added, or_left_comm]) rfl rfl
        refine hadd.trans (not_congr ⟨fun hleak => ⟨did, hadding, hleak⟩, ?_⟩)
        rintro ⟨did', hdid', hleak⟩
        rw [hadding] at hdid'
        cases hdid'
        exact hleak

theorem private_removed (favoriteRkey : String → String) (h : Private v) (i : ℕ) (ok : Bool) :
    Private (step favoriteRkey v (.removed i ok)) ↔ ¬ Leaks v (.removed i ok) := by
  have hfavorites : ∀ x ∈ v.favorites.atoms.favorites, v.Own x :=
    fun x hx => h x (List.mem_append_left _ hx)
  have hidle : (∀ r, v.removing[i]? ≠ some (some r)) → ¬ Leaks v (.removed i ok) := by
    intro hno
    cases ok with
    | true => exact id
    | false =>
      rintro ⟨r, hr, -⟩
      exact hno r hr
  cases hremoving : v.removing[i]? with
  | none =>
    simp only [step, hremoving]
    exact iff_of_true h (hidle (by simp [hremoving]))
  | some o =>
    cases o with
    | none =>
      simp only [step, hremoving]
      exact iff_of_true h (hidle (by simp [hremoving]))
    | some r =>
      simp only [step, hremoving]
      cases ok with
      | true => exact iff_of_true h id
      | false =>
        have hrestored := private_restored
          { v with
            removing := v.removing.set i none, customStations := r.current, customRkeys := r.rkeys }
          r.current hfavorites (fun y => by rw [View.shown, List.mem_append, or_comm]) rfl rfl
        refine hrestored.trans (not_congr ⟨fun hx => ⟨r, hremoving, hx⟩, ?_⟩)
        rintro ⟨r', hr', hx⟩
        rw [hremoving] at hr'
        cases hr'
        exact hx

theorem private_step (favoriteRkey : String → String) (h : Private v) (hc : Current v) (e : Event) :
    Private (step favoriteRkey v e) ↔ ¬ Leaks v e := by
  cases e with
  | setSession session => exact iff_of_true h id
  | render => exact private_render h
  | loaded i records =>
    refine iff_of_true ?_ id
    simp only [step]
    split
    next did cancelled hl =>
      exact private_loaded (v := { v with loads := v.loads.set i ⟨did, cancelled, true⟩ }) h
        (hc _ (List.mem_of_getElem? hl)) records
    · exact h
  | toggleFavorite station => exact private_toggle h station
  | toggled ticket ok => exact private_toggled favoriteRkey h ticket ok
  | addCustomStation =>
    refine iff_of_true ?_ id
    simp only [step]
    split
    · exact h
    · exact h
  | added i stored => exact private_added favoriteRkey h i stored
  | removeCustomStation id =>
    refine iff_of_true (h.of_subset (fun x hx => ?_) rfl (List.Subset.refl _)) not_false
    rcases List.mem_append.1 hx with hx | hx
    · exact List.mem_append_left _ hx
    · exact List.mem_append_right _ (List.mem_of_mem_filter hx)
  | removed i ok => exact private_removed favoriteRkey h i ok

theorem Current.of_eq (h : Current v) {v' : View} (hloads : v'.loads = v.loads)
    (hrendered : v'.rendered = v.rendered) : Current v' := by
  rw [Current, hloads, hrendered]
  exact h

theorem current_render (h : Current v) : Current v.render := by
  unfold View.render
  split
  · exact h
  · have hgone : ∀ l ∈ v.loads.map fun l => { l with cancelled := true }, l.cancelled = true := by
      intro l hl
      obtain ⟨l, -, rfl⟩ := List.mem_map.1 hl
      rfl
    cases v.session with
    | none =>
      intro l hl hlive
      rw [hgone l hl] at hlive
      cases hlive
    | some s =>
      intro l hl hlive
      rcases List.mem_append.1 hl with hl | hl
      · rw [hgone l hl] at hlive
        cases hlive
      · rw [List.mem_singleton.1 hl]
        rfl

theorem current_step (favoriteRkey : String → String) (h : Current v) (e : Event) :
    Current (step favoriteRkey v e) := by
  cases e with
  | setSession session => exact h.of_eq rfl rfl
  | render => exact current_render h
  | loaded i records =>
    simp only [step]
    split
    next did cancelled hl =>
      have hset : Current { v with loads := v.loads.set i ⟨did, cancelled, true⟩ } := by
        intro l hmem hlive
        rcases List.mem_or_eq_of_mem_set hmem with hmem | rfl
        · exact h l hmem hlive
        · exact h ⟨did, cancelled, false⟩ (List.mem_of_getElem? hl) hlive
      cases records with
      | none => exact hset
      | some r =>
        simp only [View.loaded]
        split
        · exact hset.of_eq rfl rfl
        · exact hset.of_eq rfl rfl
    · exact h
  | toggleFavorite station =>
    simp only [step, View.toggle]
    split
    · exact h
    · exact h.of_eq rfl rfl
  | toggled ticket ok => exact h.of_eq rfl rfl
  | addCustomStation =>
    simp only [step]
    split
    · exact h
    · exact h.of_eq rfl rfl
  | added i stored =>
    simp only [step]
    split
    · cases stored <;> exact h.of_eq rfl rfl
    · exact h
  | removeCustomStation id => exact h.of_eq rfl rfl
  | removed i ok =>
    simp only [step]
    split
    · split
      · exact h.of_eq rfl rfl
      · exact h.of_eq rfl rfl
    · exact h

end Steps

/-- At every moment nothing is shown but what the account on show has listed or added itself,
exactly if no step leaks. Loads never do, whenever they are answered. -/
theorem private_iff (favoriteRkey : String → String) (es : List Event) :
    (∀ fs gs, es = fs ++ gs → Private (run (step favoriteRkey) {} fs)) ↔
      AllSteps (step favoriteRkey) (fun v e => ¬ Leaks v e) {} es := by
  have hinit : Private {} := fun x hx => by cases hx
  have hcurrent : Current {} := fun l hl => by cases hl
  rw [forall_prefix_iff, and_iff_right hinit]
  exact allSteps_iff_of_step
    (fun v e (hv : Private v ∧ Current v) => private_step favoriteRkey hv.1 hv.2 e)
    (fun v e hv hnot =>
      ⟨(private_step favoriteRkey hv.1 hv.2 e).2 hnot, current_step favoriteRkey hv.2 e⟩)
    ⟨hinit, hcurrent⟩

end Atradio.Web.Accounts
