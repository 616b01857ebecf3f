import Atradio.Web.Favorites

/-! # Overlapping toggles

What every calm step of distinct toggles keeps, and what is left when all have settled. -/

namespace Atradio.Web
open Atradio.Lib Atradio.Lexicons

def Toggle.copied (t : Toggle) : Option (JsMap String String) :=
  match t.stage with
  | .removing rkeys => some rkeys
  | .adding => none
  | .keying spread => some spread

def Toggle.isRemoving (t : Toggle) : Prop := ∃ rkeys, t.stage = .removing rkeys

/-- Stations that may have a key: those of the initial list and those added since. -/
def Known (initial : List Station) (s : State) (k : String) : Prop :=
  k ∈ ids initial ∨ (∃ x, (x, true) ∈ s.settled ∧ x.id = k) ∨
    ∃ t ∈ s.pending.rows, (∃ spread, t.stage = .keying spread) ∧ t.station.id = k

structure Inv (initial : List Station) (s : State) : Prop where
  tickets : ∀ t ∈ s.pending.rows, t.ticket < s.started
  distinct : ∀ t ∈ s.pending.rows, ∀ t' ∈ s.pending.rows, t.station.id = t'.station.id → t = t'
  apart : ∀ t ∈ s.pending.rows, ∀ r ∈ s.settled, r.1.id ≠ t.station.id
  list : ∀ x, x ∈ s.atoms.favorites ↔ After initial s.Applied x
  own : ∀ t ∈ s.pending.rows, ∀ x : Station, x.id = t.station.id → (x ∈ t.current ↔ x ∈ initial)
  kind : ∀ t ∈ s.pending.rows, t.station.id ∈ ids initial ↔ t.isRemoving
  keys : ∀ k, HasKey s.atoms.rkeys k → k ∈ ids s.atoms.favorites
  snapshot : ∀ t ∈ s.pending.rows, ∀ rkeys, t.stage = .removing rkeys →
    ∀ k, HasKey rkeys k → k ∈ ids t.current
  known : ∀ k, HasKey s.atoms.rkeys k → Known initial s k
  copies : ∀ t ∈ s.pending.rows, ∀ m, t.copied = some m → ∀ k, HasKey m k → Known initial s k

theorem inv_init {atoms : Atoms} (hkeys : ∀ k, HasKey atoms.rkeys k → k ∈ ids atoms.favorites) :
    Inv atoms.favorites (State.init atoms) where
  tickets := fun t ht => nomatch ht
  distinct := fun t ht => nomatch ht
  apart := fun t ht => nomatch ht
  list := by
    intro x
    have hnone : ∀ y, ¬ (State.init atoms).Applied y := by
      rintro y (⟨t, ht, -⟩ | hy)
      · cases ht
      · cases hy
    constructor
    · exact fun hx => Or.inl ⟨hx, fun y hy => absurd hy (hnone y)⟩
    · rintro (⟨hx, -⟩ | ⟨hx, -⟩)
      · exact hx
      · exact absurd hx (hnone x)
  own := fun t ht => nomatch ht
  kind := fun t ht => nomatch ht
  keys := hkeys
  snapshot := fun t ht => nomatch ht
  known := fun k hk => Or.inl (hkeys k hk)
  copies := fun t ht => nomatch ht

section Steps

variable {initial : List Station} {s : State}

/-! ### Starting a toggle -/

theorem fresh_favorite (hI : Inv initial s) {station : Station} (hf : Fresh s (.toggle station))
    {x : Station} (hx : x.id = station.id) : x ∈ s.atoms.favorites ↔ x ∈ initial := by
  have hnone : ∀ y, s.Applied y → y.id ≠ x.id := by
    rintro y (⟨t, ht, rfl⟩ | hy)
    · exact fun he => hf.1 t ht (he.trans hx)
    · exact fun he => hf.2 _ hy (he.trans hx)
  rw [hI.list]
  constructor
  · rintro (⟨hmem, -⟩ | ⟨happlied, -⟩)
    · exact hmem
    · exact absurd rfl (hnone x happlied)
  · exact fun hmem => Or.inl ⟨hmem, hnone⟩

section Enter

variable {station : Station} {atoms : Atoms} {stage : Stage}

theorem mem_enter (hI : Inv initial s) {u : Toggle} :
    u ∈ (enter s station atoms stage).pending.rows ↔
      u = ⟨s.started, station, s.atoms.favorites, stage⟩ ∨ u ∈ s.pending.rows :=
  Table.mem_put_new _ fun v hv => Nat.ne_of_lt (hI.tickets v hv)

theorem enter_applied (hI : Inv initial s) (y : Station) :
    (enter s station atoms stage).Applied y ↔ s.Applied y ∨ y = station := by
  unfold State.Applied
  simp only [mem_enter hI]
  constructor
  · rintro (⟨u, rfl | hu, rfl⟩ | hy)
    · exact Or.inr rfl
    · exact Or.inl (Or.inl ⟨u, hu, rfl⟩)
    · exact Or.inl (Or.inr hy)
  · rintro ((⟨u, hu, rfl⟩ | hy) | rfl)
    · exact Or.inl ⟨u, Or.inr hu, rfl⟩
    · exact Or.inr hy
    · exact Or.inl ⟨_, Or.inl rfl, rfl⟩

theorem enter_known (hI : Inv initial s) {k : String} (hk : Known initial s k) :
    Known initial (enter s station atoms stage) k := by
  unfold Known
  simp only [mem_enter hI]
  rcases hk with hk | hk | ⟨u, hu, hstage, hid⟩
  · exact Or.inl hk
  · exact Or.inr (Or.inl hk)
  · exact Or.inr (Or.inr ⟨u, Or.inr hu, hstage, hid⟩)

/-- The parts of the invariant that do not depend on what the toggle does to the atoms. -/
theorem inv_enter (hI : Inv initial s) (hf : Fresh s (.toggle station))
    (hlist : ∀ x, x ∈ atoms.favorites ↔ After initial (enter s station atoms stage).Applied x)
    (hkind : station.id ∈ ids initial ↔ ∃ rkeys, stage = .removing rkeys)
    (hkeys : ∀ k, HasKey atoms.rkeys k → k ∈ ids atoms.favorites)
    (hrkeys : ∀ k, HasKey atoms.rkeys k → HasKey s.atoms.rkeys k)
    (hstage : stage = .removing s.atoms.rkeys ∨ stage = .adding) :
    Inv initial (enter s station atoms stage) where
  tickets := by
    intro u hu
    rcases (mem_enter hI).1 hu with rfl | hu
    · exact Nat.lt_succ_self s.started
    · exact Nat.lt_succ_of_lt (hI.tickets u hu)
  distinct := by
    intro u hu u' hu' he
    rcases (mem_enter hI).1 hu with rfl | hu
    · rcases (mem_enter hI).1 hu' with rfl | hu'
      · rfl
      · exact absurd he.symm (hf.1 u' hu')
    · rcases (mem_enter hI).1 hu' with rfl | hu'
      · exact absurd he (hf.1 u hu)
      · exact hI.distinct u hu u' hu' he
  apart := by
    intro u hu r hr
    rcases (mem_enter hI).1 hu with rfl | hu
    · exact hf.2 r hr
    · exact hI.apart u hu r hr
  list := hlist
  own := by
    intro u hu x hx
    rcases (mem_enter hI).1 hu with rfl | hu
    · exact fresh_favorite hI hf hx
    · exact hI.own u hu x hx
  kind := by
    intro u hu
    rcases (mem_enter hI).1 hu with rfl | hu
    · exact hkind
    · exact hI.kind u hu
  keys := hkeys
  snapshot := by
    intro u hu rkeys hr k hk
    rcases (mem_enter hI).1 hu with rfl | hu
    · rcases hstage with rfl | rfl
      · cases hr
        exact hI.keys k hk
      · cases hr
    · exact hI.snapshot u hu rkeys hr k hk
  known := fun k hk => enter_known hI (hI.known k (hrkeys k hk))
  copies := by
    intro u hu m hm k hk
    refine enter_known hI ?_
    rcases (mem_enter hI).1 hu with rfl | hu
    · rcases hstage with rfl | rfl
      · cases hm
        exact hI.known k hk
      · cases hm
    · exact hI.copies u hu m hm k hk

end Enter

theorem inv_start (hI : Inv initial s) {station : Station} (hf : Fresh s (.toggle station)) :
    Inv initial (start s station) := by
  unfold start
  cases s.atoms.agent with
  | false => exact hI
  | true =>
    rw [if_pos rfl]
    by_cases hexists : s.atoms.favorites.any fun x => x.id = station.id
    · rw [if_pos hexists]
      obtain ⟨x, hx, hid⟩ := List.any_eq_true.1 hexists
      have hinitial : station.id ∈ ids initial :=
        mem_ids.2 ⟨x, (fresh_favorite hI hf (of_decide_eq_true hid)).1 hx, of_decide_eq_true hid⟩
      refine inv_enter hI hf ?_ (iff_of_true hinitial ⟨_, rfl⟩) ?_ ?_ (Or.inl rfl)
      · intro y
        rw [List.mem_filter]
        by_cases hy : y.id = station.id
        · refine iff_of_false (fun hmem => of_decide_eq_true hmem.2 hy) ?_
          rintro (⟨-, hnone⟩ | ⟨-, hnew⟩)
          · exact hnone station ((enter_applied hI station).2 (Or.inr rfl)) hy.symm
          · exact hnew (hy ▸ hinitial)
        · rw [after_congr (enter_applied hI) hy, ← hI.list]
          exact and_iff_left (decide_eq_true hy)
      · intro k hk
        obtain ⟨hne, hold⟩ := hasKey_delete.1 hk
        obtain ⟨y, hy, hyk⟩ := mem_ids.1 (hI.keys k hold)
        exact mem_ids.2 ⟨y, List.mem_filter.2 ⟨hy, decide_eq_true (hyk ▸ hne)⟩, hyk⟩
      · exact fun k hk => (hasKey_delete.1 hk).2
    · rw [if_neg hexists]
      have hnew : station.id ∉ ids initial := by
        intro hmem
        obtain ⟨x, hx, hid⟩ := mem_ids.1 hmem
        exact hexists (List.any_eq_true.2
          ⟨x, (fresh_favorite hI hf hid).2 hx, decide_eq_true hid⟩)
      refine inv_enter hI hf ?_ (iff_of_false hnew fun ⟨_, hr⟩ => nomatch hr) ?_ ?_ (Or.inr rfl)
      · intro y
        rw [List.mem_cons]
        by_cases hy : y.id = station.id
        · constructor
          · rintro (rfl | hmem)
            · exact Or.inr ⟨(enter_applied hI y).2 (Or.inr rfl), hnew⟩
            · exact absurd (mem_ids.2 ⟨y, (fresh_favorite hI hf hy).1 hmem, hy⟩) hnew
          · rintro (⟨hmem, -⟩ | ⟨hmem, -⟩)
            · exact absurd (mem_ids.2 ⟨y, hmem, hy⟩) hnew
            · rcases (enter_applied hI y).1 hmem with (⟨t, ht, rfl⟩ | hsettled) | hown
              · exact absurd hy (hf.1 t ht)
              · exact absurd hy (hf.2 _ hsettled)
              · exact Or.inl hown
        · rw [after_congr (enter_applied hI) hy, ← hI.list]
          exact or_iff_right fun he => hy (congrArg Station.id he)
      · intro k hk
        obtain ⟨y, hy, hyk⟩ := mem_ids.1 (hI.keys k hk)
        exact mem_ids.2 ⟨y, List.mem_cons_of_mem _ hy, hyk⟩
      · exact fun k hk => hk

/-! ### Settling a toggle -/

section Finish

variable {t : Toggle} {atoms : Atoms} {ok : Bool}

theorem mem_finish {u : Toggle} :
    u ∈ (finish s t atoms ok).pending.rows ↔ u ∈ s.pending.rows ∧ u.ticket ≠ t.ticket :=
  Table.mem_delete _ _ _

theorem mem_settled {r : Station × Bool} :
    r ∈ (finish s t atoms ok).settled ↔ r = (t.station, ok) ∨ r ∈ s.settled := List.mem_cons

theorem applied_ok (ht : t ∈ s.pending.rows) (y : Station) :
    (finish s t atoms true).Applied y ↔ s.Applied y := by
  unfold State.Applied
  simp only [mem_finish, mem_settled]
  constructor
  · rintro (⟨u, ⟨hu, -⟩, rfl⟩ | hy | hy)
    · exact Or.inl ⟨u, hu, rfl⟩
    · exact Or.inl ⟨t, ht, (Prod.mk.inj hy).1.symm⟩
    · exact Or.inr hy
  · rintro (⟨u, hu, rfl⟩ | hy)
    · by_cases he : u.ticket = t.ticket
      · exact Or.inr (Or.inl (by rw [Table.eq_of_key hu ht he]))
      · exact Or.inl ⟨u, ⟨hu, he⟩, rfl⟩
    · exact Or.inr (Or.inr hy)

theorem applied_failed (ht : t ∈ s.pending.rows) (y : Station) :
    s.Applied y ↔ (finish s t atoms false).Applied y ∨ y = t.station := by
  unfold State.Applied
  simp only [mem_finish, mem_settled]
  constructor
  · rintro (⟨u, hu, rfl⟩ | hy)
    · by_cases he : u.ticket = t.ticket
      · exact Or.inr (by rw [Table.eq_of_key hu ht he])
      · exact Or.inl (Or.inl ⟨u, ⟨hu, he⟩, rfl⟩)
    · exact Or.inl (Or.inr (Or.inr hy))
  · rintro ((⟨u, ⟨hu, -⟩, rfl⟩ | hy | hy) | rfl)
    · exact Or.inl ⟨u, hu, rfl⟩
    · cases (Prod.mk.inj hy).2
    · exact Or.inr hy
    · exact Or.inl ⟨t, ht, rfl⟩

theorem not_applied_own (hI : Inv initial s) (ht : t ∈ s.pending.rows) {y : Station}
    (hy : (finish s t atoms false).Applied y) : y.id ≠ t.station.id := by
  rcases hy with ⟨u, hu, rfl⟩ | hy
  · obtain ⟨hu, hne⟩ := mem_finish.1 hu
    exact fun he => hne (congrArg Toggle.ticket (hI.distinct u hu t ht he))
  · rcases mem_settled.1 hy with he | hy
    · cases (Prod.mk.inj he).2
    · exact hI.apart t ht _ hy

theorem finish_known (hok : (∃ spread, t.stage = .keying spread) → ok = true)
    (ht : t ∈ s.pending.rows) {k : String} (hk : Known initial s k) :
    Known initial (finish s t atoms ok) k := by
  rcases hk with hk | ⟨x, hx, hid⟩ | ⟨u, hu, hstage, hid⟩
  · exact Or.inl hk
  · exact Or.inr (Or.inl ⟨x, mem_settled.2 (Or.inr hx), hid⟩)
  · by_cases he : u.ticket = t.ticket
    · rw [Table.eq_of_key hu ht he] at hstage hid
      refine Or.inr (Or.inl ⟨t.station, mem_settled.2 (Or.inl ?_), hid⟩)
      rw [hok hstage]
    · exact Or.inr (Or.inr ⟨u, mem_finish.2 ⟨hu, he⟩, hstage, hid⟩)

theorem inv_finish (hI : Inv initial s) (ht : t ∈ s.pending.rows)
    (hok : (∃ spread, t.stage = .keying spread) → ok = true)
    (hlist : ∀ x, x ∈ atoms.favorites ↔ After initial (finish s t atoms ok).Applied x)
    (hkeys : ∀ k, HasKey atoms.rkeys k → k ∈ ids atoms.favorites)
    (hknown : ∀ k, HasKey atoms.rkeys k → Known initial (finish s t atoms ok) k) :
    Inv initial (finish s t atoms ok) where
  tickets := fun u hu => hI.tickets u (mem_finish.1 hu).1
  distinct := fun u hu u' hu' => hI.distinct u (mem_finish.1 hu).1 u' (mem_finish.1 hu').1
  apart := by
    intro u hu r hr
    obtain ⟨hu, hne⟩ := mem_finish.1 hu
    rcases mem_settled.1 hr with rfl | hr
    · exact fun he => hne (congrArg Toggle.ticket (hI.distinct u hu t ht he.symm))
    · exact hI.apart u hu r hr
  list := hlist
  own := fun u hu => hI.own u (mem_finish.1 hu).1
  kind := fun u hu => hI.kind u (mem_finish.1 hu).1
  keys := hkeys
  snapshot := fun u hu => hI.snapshot u (mem_finish.1 hu).1
  known := hknown
  copies := fun u hu m hm k hk =>
    finish_known hok ht (hI.copies u (mem_finish.1 hu).1 m hm k hk)

end Finish

theorem inv_succeeded (hI : Inv initial s) {t : Toggle} (ht : t ∈ s.pending.rows) {atoms : Atoms}
    (hfavorites : atoms.favorites = s.atoms.favorites)
    (hkeys : ∀ k, HasKey atoms.rkeys k → k ∈ ids atoms.favorites)
    (hknown : ∀ k, HasKey atoms.rkeys k → k = t.station.id ∨ Known initial s k) :
    Inv initial (finish s t atoms true) := by
  refine inv_finish hI ht (fun _ => rfl) ?_ hkeys ?_
  · intro x
    have happlied : (finish s t atoms true).Applied = s.Applied := by
      funext y
      exact propext (applied_ok ht y)
    rw [hfavorites, happlied]
    exact hI.list x
  · intro k hk
    rcases hknown k hk with rfl | hold
    · exact Or.inr (Or.inl ⟨t.station, mem_settled.2 (Or.inl rfl), rfl⟩)
    · exact finish_known (fun _ => rfl) ht hold

/-- A toggle fails and puts its copy back, which differs at its own station only. -/
theorem inv_rolledBack (hI : Inv initial s) {t : Toggle} (ht : t ∈ s.pending.rows) {atoms : Atoms}
    (hstage : ∀ spread, t.stage ≠ .keying spread) (hfavorites : atoms.favorites = t.current)
    (hcalm : ∀ x : Station, x.id ≠ t.station.id → (x ∈ s.atoms.favorites ↔ x ∈ t.current))
    (hkeys : ∀ k, HasKey atoms.rkeys k → k ∈ ids t.current)
    (hknown : ∀ k, HasKey atoms.rkeys k → Known initial s k) :
    Inv initial (finish s t atoms false) := by
  have hok : (∃ spread, t.stage = .keying spread) → false = true :=
    fun ⟨spread, hs⟩ => absurd hs (hstage spread)
  refine inv_finish hI ht hok ?_ (hfavorites ▸ hkeys) (fun k hk => finish_known hok ht (hknown k hk))
  intro x
  rw [hfavorites]
  by_cases hx : x.id = t.station.id
  · rw [hI.own t ht x hx]
    constructor
    · intro hmem
      refine Or.inl ⟨hmem, fun y hy => ?_⟩
      rw [hx]
      exact not_applied_own hI ht hy
    · rintro (⟨hmem, -⟩ | ⟨happlied, -⟩)
      · exact hmem
      · exact absurd hx (not_applied_own hI ht happlied)
  · rw [← hcalm x hx, hI.list x]
    exact after_congr (applied_failed ht) hx

/-- The favorite is written; the keys are copied before the digest is awaited. -/
theorem inv_favorited (hI : Inv initial s) {t : Toggle} (ht : t ∈ s.pending.rows)
    (hstage : t.stage = .adding) :
    Inv initial { s with pending := s.pending.put { t with stage := .keying s.atoms.rkeys } } := by
  have hmem : ∀ u, u ∈ (s.pending.put { t with stage := .keying s.atoms.rkeys }).rows ↔
      u = { t with stage := .keying s.atoms.rkeys } ∨ u ∈ s.pending.rows ∧ u.ticket ≠ t.ticket :=
    fun u => Table.mem_put _ _ _
  have hknown : ∀ {k}, Known initial s k → Known initial
      { s with pending := s.pending.put { t with stage := .keying s.atoms.rkeys } } k := by
    rintro k (hk | hk | ⟨u, hu, ⟨spread, hs⟩, hid⟩)
    · exact Or.inl hk
    · exact Or.inr (Or.inl hk)
    · refine Or.inr (Or.inr ⟨u, (hmem u).2 (Or.inr ⟨hu, fun he => ?_⟩), ⟨spread, hs⟩, hid⟩)
      rw [Table.eq_of_key hu ht he, hstage] at hs
      cases hs
  have happlied : ∀ y, State.Applied
      { s with pending := s.pending.put { t with stage := .keying s.atoms.rkeys } } y ↔
        s.Applied y := by
    intro y
    refine or_congr_left ⟨?_, ?_⟩
    · rintro ⟨u, hu, rfl⟩
      rcases (hmem u).1 hu with rfl | ⟨hu, -⟩
      · exact ⟨t, ht, rfl⟩
      · exact ⟨u, hu, rfl⟩
    · rintro ⟨u, hu, rfl⟩
      by_cases he : u.ticket = t.ticket
      · exact ⟨_, (hmem _).2 (Or.inl rfl), by rw [Table.eq_of_key hu ht he]⟩
      · exact ⟨u, (hmem u).2 (Or.inr ⟨hu, he⟩), rfl⟩
  exact
    { tickets := by
        intro u hu
        rcases (hmem u).1 hu with rfl | ⟨hu, -⟩
        · exact hI.tickets t ht
        · exact hI.tickets u hu
      distinct := by
        intro u hu u' hu' he
        rcases (hmem u).1 hu with rfl | ⟨hu, hne⟩
        · rcases (hmem u').1 hu' with rfl | ⟨hu', hne'⟩
          · rfl
          · exact absurd (congrArg Toggle.ticket (hI.distinct t ht u' hu' he)).symm hne'
        · rcases (hmem u').1 hu' with rfl | ⟨hu', -⟩
          · exact absurd (congrArg Toggle.ticket (hI.distinct u hu t ht he)) hne
          · exact hI.distinct u hu u' hu' he
      apart := by
        intro u hu r hr
        rcases (hmem u).1 hu with rfl | ⟨hu, -⟩
        · exact hI.apart t ht r hr
        · exact hI.apart u hu r hr
      list := by
        intro x
        have hsame : State.Applied
            { s with pending := s.pending.put { t with stage := .keying s.atoms.rkeys } } =
              s.Applied := by
          funext y
          exact propext (happlied y)
        rw [hsame]
        exact hI.list x
      own := by
        intro u hu
        rcases (hmem u).1 hu with rfl | ⟨hu, -⟩
        · exact hI.own t ht
        · exact hI.own u hu
      kind := by
        intro u hu
        rcases (hmem u).1 hu with rfl | ⟨hu, -⟩
        · refine iff_of_false (fun hid => ?_) (fun ⟨_, hr⟩ => nomatch hr)
          obtain ⟨rkeys, hr⟩ := (hI.kind t ht).1 hid
          rw [hstage] at hr
          cases hr
        · exact hI.kind u hu
      keys := hI.keys
      snapshot := by
        intro u hu rkeys hr
        rcases (hmem u).1 hu with rfl | ⟨hu, -⟩
        · cases hr
        · exact hI.snapshot u hu rkeys hr
      known := fun k hk => hknown (hI.known k hk)
      copies := by
        intro u hu m hm k hk
        rcases (hmem u).1 hu with rfl | ⟨hu, -⟩
        · rw [← Option.some.inj hm] at hk
          exact hknown (hI.known k hk)
        · exact hknown (hI.copies u hu m hm k hk) }

/-! ### Every step -/

theorem not_known_adding (hI : Inv initial s) {t : Toggle} (ht : t ∈ s.pending.rows)
    (hstage : t.stage = .adding) : ¬ Known initial s t.station.id := by
  rintro (hk | ⟨x, hx, hid⟩ | ⟨u, hu, ⟨spread, hs⟩, hid⟩)
  · obtain ⟨rkeys, hr⟩ := (hI.kind t ht).1 hk
    rw [hstage] at hr
    cases hr
  · exact hI.apart t ht _ hx hid
  · rw [hI.distinct u hu t ht hid, hstage] at hs
    cases hs

theorem inv_resume (favoriteRkey : String → String) (hI : Inv initial s) {t : Toggle}
    (hget : s.pending.get t.ticket = some t) {ok : Bool}
    (hcalm : Calm s (.answered t.ticket ok)) : Inv initial (resume favoriteRkey s t ok) := by
  have ht : t ∈ s.pending.rows := (Table.mem_rows _ _).2 hget
  have hquiet := hcalm t hget
  unfold resume
  cases hstage : t.stage with
  | removing rkeys =>
    rw [hstage] at hquiet
    cases ok with
    | true => exact inv_succeeded hI ht rfl hI.keys fun k hk => Or.inr (hI.known k hk)
    | false =>
      refine inv_rolledBack hI ht ?_ rfl (hquiet rfl) (hI.snapshot t ht rkeys hstage) ?_
      · intro spread hs
        rw [hstage] at hs
        cases hs
      · exact hI.copies t ht rkeys (by simp [Toggle.copied, hstage])
  | adding =>
    rw [hstage] at hquiet
    cases ok with
    | true => exact inv_favorited hI ht hstage
    | false =>
      refine inv_rolledBack hI ht ?_ rfl (hquiet rfl) (fun k hk => ?_) hI.known
      · intro spread hs
        rw [hstage] at hs
        cases hs
      · obtain ⟨x, hx, rfl⟩ := mem_ids.1 (hI.keys k hk)
        have hne : x.id ≠ t.station.id := by
          intro he
          exact not_known_adding hI ht hstage (he ▸ hI.known x.id hk)
        exact mem_ids.2 ⟨x, (hquiet rfl x hne).1 hx, rfl⟩
  | keying spread =>
    rw [hstage] at hquiet
    have hcopies := hI.copies t ht spread (by simp [Toggle.copied, hstage])
    have hown : t.station ∈ s.atoms.favorites := by
      refine (hI.list t.station).2 (Or.inr ⟨Or.inl ⟨t, ht, rfl⟩, fun hid => ?_⟩)
      obtain ⟨rkeys, hr⟩ := (hI.kind t ht).1 hid
      rw [hstage] at hr
      cases hr
    refine inv_succeeded hI ht rfl (fun k hk => ?_) (fun k hk => ?_)
    · rcases hasKey_set.1 hk with rfl | hold
      · exact mem_ids.2 ⟨t.station, hown, rfl⟩
      · exact hquiet k hold
    · exact (hasKey_set.1 hk).imp_right (hcopies k)

theorem inv_step (favoriteRkey : String → String) (s : State) (e : Event) (hI : Inv initial s)
    (hg : Fresh s e ∧ Calm s e) : Inv initial (step favoriteRkey s e) := by
  cases e with
  | toggle station => exact inv_start hI hg.1
  | answered ticket ok =>
    cases hget : s.pending.get ticket with
    | none =>
      simp only [step, hget]
      exact hI
    | some t =>
      simp only [step, hget]
      have hticket : t.ticket = ticket := Table.key_of_get hget
      subst hticket
      exact inv_resume favoriteRkey hI hget hg.2

end Steps

/-! ### Runs -/

/-- The list holds the initial stations with the successful toggles applied, and only its
stations have keys. -/
structure Settled (initial : List Station) (s : State) : Prop where
  list : ∀ x, x ∈ s.atoms.favorites ↔ After initial (fun y => (y, true) ∈ s.settled) x
  keys : ∀ k, HasKey s.atoms.rkeys k → k ∈ ids s.atoms.favorites

theorem toggles_settle (favoriteRkey : String → String) (atoms : Atoms) (es : List Event)
    (hkeys : ∀ k, HasKey atoms.rkeys k → k ∈ ids atoms.favorites)
    (hdistinct : AllSteps (step favoriteRkey) Fresh (State.init atoms) es)
    (hcalm : AllSteps (step favoriteRkey) Calm (State.init atoms) es) :
    (run (step favoriteRkey) (State.init atoms) es).pending.rows = [] →
      Settled atoms.favorites (run (step favoriteRkey) (State.init atoms) es) := by
  have hboth : AllSteps (step favoriteRkey) (fun s e => Fresh s e ∧ Calm s e)
      (State.init atoms) es :=
    allSteps_and.2 ⟨hdistinct, hcalm⟩
  have hI := run_invariant (inv_step favoriteRkey) (inv_init hkeys) hboth
  intro hdone
  refine ⟨fun x => ?_, hI.keys⟩
  have happlied : (run (step favoriteRkey) (State.init atoms) es).Applied =
      fun y => (y, true) ∈ (run (step favoriteRkey) (State.init atoms) es).settled := by
    funext y
    refine propext (or_iff_right ?_)
    rintro ⟨t, ht, -⟩
    rw [hdone] at ht
    cases ht
  rw [← happlied]
  exact hI.list x

def noFavorites : Atoms := { agent := true, favorites := [], rkeys := Table.empty }

/-- One station fails to be added, then another is added. -/
def addedAfterFailure : List Event :=
  [.toggle (stationOf "rb:1"), .answered 0 false, .toggle (stationOf "rb:2"), .answered 1 true,
    .answered 1 true]

theorem addedAfterFailure_settles :
    Settled [] (run (step id) (State.init noFavorites) addedAfterFailure) := by
  refine toggles_settle id noFavorites addedAfterFailure (fun k hk => nomatch hk) ?_ ?_ rfl
  · exact ⟨by decide, by decide, by decide, by decide, by decide, trivial⟩
  · refine ⟨trivial, ?_, trivial, ?_, ?_, trivial⟩
    · intro t ht
      cases (show some _ = some t from ht)
      intro _ x hx
      refine iff_of_false (fun hmem => hx ?_) (fun hmem => nomatch hmem)
      rw [List.mem_singleton.1 hmem]
    · intro t ht
      cases (show some _ = some t from ht)
      exact fun hok => nomatch hok
    · intro t ht
      cases (show some _ = some t from ht)
      exact fun k hk => nomatch hk

/-- A station is added while the addition of an earlier one, which fails, is awaited. -/
def addedBeforeFailure : List Event :=
  [.toggle (stationOf "rb:1"), .toggle (stationOf "rb:2"), .answered 1 true, .answered 1 true,
    .answered 0 false]

/-- The rollback drops the station that was added. -/
theorem addition_lost :
    AllSteps (step id) Fresh (State.init noFavorites) addedBeforeFailure ∧
    (run (step id) (State.init noFavorites) addedBeforeFailure).pending.rows = [] ∧
    ¬ Settled [] (run (step id) (State.init noFavorites) addedBeforeFailure) := by
  refine ⟨⟨by decide, by decide, by decide, by decide, by decide, trivial⟩, rfl, fun h => ?_⟩
  have hadded := (h.list (stationOf "rb:2")).2
    (Or.inr ⟨List.mem_cons_of_mem _ (List.mem_cons_self ..), fun hmem => nomatch hmem⟩)
  cases hadded

end Atradio.Web
