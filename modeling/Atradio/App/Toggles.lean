import Atradio.App.Favorites

/-! # Toggles among refreshes

The cached list agrees with the repository at every station no toggle is at work on, and so do
the snapshots of the refreshes in flight at every station without a write in flight. -/

namespace Atradio.App
open Atradio.Lib Atradio.Lexicons

def Phase.written : Phase → Bool
  | .cancelling => false
  | .writing _ _ written => written
  | .reapplying _ => true

def Phase.answering : Phase → Bool
  | .writing _ _ written => written
  | _ => false

def Phase.existing : Phase → Option (Option Station)
  | .cancelling => none
  | .writing _ existing _ => some existing
  | .reapplying existing => some existing

def State.Written (s : State) (k : String) : Prop :=
  (∃ t ∈ s.pending.rows, t.phase.written = true ∧ t.station.id = k) ∨
    ∃ x, (x, true) ∈ s.settled ∧ x.id = k

/-- The stations of `initial`, but for those toggled. -/
def Toggled (initial : List String) (toggled : String → Prop) (k : String) : Prop :=
  (k ∈ initial ∧ ¬ toggled k) ∨ (toggled k ∧ k ∉ initial)

/-- Every pending toggle of the station is in a phase with `P`. -/
def At (P : Phase → Prop) (pending : Table Toggle.ticket) (k : String) : Prop :=
  ∀ t ∈ pending.rows, t.station.id = k → P t.phase

structure Inv (initial : List String) (s : State) : Prop where
  tickets : ∀ t ∈ s.pending.rows, t.ticket < s.started
  distinct : ∀ t ∈ s.pending.rows, ∀ t' ∈ s.pending.rows, t.station.id = t'.station.id → t = t'
  apart : ∀ t ∈ s.pending.rows, ∀ r ∈ s.settled, r.1.id ≠ t.station.id
  repo : ∀ k, k ∈ ids s.repo ↔ Toggled initial s.Written k
  existing : ∀ t ∈ s.pending.rows, ∀ e, t.phase.existing = some e →
    (e.isSome = true ↔ t.station.id ∈ initial) ∧ ∀ item, e = some item → item.id = t.station.id
  cache : ∀ k, At (fun p => p.existing = none) s.pending k → (k ∈ ids s.cache ↔ k ∈ ids s.repo)
  snapshots : ∀ r ∈ s.refreshes.rows, ∀ stations, r.snapshot = some stations →
    ∀ k, At (fun p => p.answering = false) s.pending k → (k ∈ ids stations ↔ k ∈ ids s.repo)
  nodup : (ids s.cache).Nodup

theorem inv_init {repo cache : List Station} (hids : ∀ k, k ∈ ids cache ↔ k ∈ ids repo)
    (hnodup : (ids cache).Nodup) : Inv (ids repo) (State.init repo cache) where
  tickets := fun t ht => nomatch ht
  distinct := fun t ht => nomatch ht
  apart := fun t ht => nomatch ht
  repo := by
    intro k
    have hnone : ¬ (State.init repo cache).Written k := by
      rintro (⟨t, ht, -⟩ | ⟨x, hx, -⟩)
      · cases ht
      · cases hx
    exact ⟨fun hk => Or.inl ⟨hk, hnone⟩, fun h => h.elim And.left fun h => absurd h.1 hnone⟩
  existing := fun t ht => nomatch ht
  cache := fun k _ => hids k
  snapshots := fun r hr => nomatch hr
  nodup := hnodup

section Steps

variable {initial : List String} {s : State} {t : Toggle}

/-! ### A toggle goes on -/

section Phase

variable {phase : Phase}

theorem mem_phase {u : Toggle} : u ∈ (s.pending.put { t with phase }).rows ↔
    u = { t with phase } ∨ u ∈ s.pending.rows ∧ u.ticket ≠ t.ticket := Table.mem_put _ _ _

theorem at_phase_own (hI : Inv initial s) (ht : t ∈ s.pending.rows) {P : Phase → Prop} :
    At P (s.pending.put { t with phase }) t.station.id ↔ P phase := by
  constructor
  · exact fun h => h { t with phase } (mem_phase.2 (Or.inl rfl)) rfl
  · intro hp u hu hid
    rcases mem_phase.1 hu with rfl | ⟨hu, hne⟩
    · exact hp
    · exact absurd (congrArg Toggle.ticket (hI.distinct u hu t ht hid)) hne

theorem at_phase_other (ht : t ∈ s.pending.rows) {P : Phase → Prop} {k : String}
    (hk : k ≠ t.station.id) : At P (s.pending.put { t with phase }) k ↔ At P s.pending k := by
  constructor
  · intro h u hu hid
    refine h u (mem_phase.2 (Or.inr ⟨hu, fun he => ?_⟩)) hid
    rw [Table.eq_of_key hu ht he] at hid
    exact hk hid.symm
  · intro h u hu hid
    rcases mem_phase.1 hu with rfl | ⟨hu, -⟩
    · exact absurd hid.symm hk
    · exact h u hu hid

theorem at_own (hI : Inv initial s) (ht : t ∈ s.pending.rows) {P : Phase → Prop} :
    At P s.pending t.station.id ↔ P t.phase := by
  constructor
  · exact fun h => h t ht rfl
  · intro hp u hu hid
    rw [hI.distinct u hu t ht hid]
    exact hp

theorem written_pending (hI : Inv initial s) (ht : t ∈ s.pending.rows) :
    s.Written t.station.id ↔ t.phase.written = true := by
  constructor
  · rintro (⟨u, hu, hw, hid⟩ | ⟨x, hx, hid⟩)
    · rw [hI.distinct u hu t ht hid] at hw
      exact hw
    · exact absurd hid (hI.apart t ht _ hx)
  · exact fun hw => Or.inl ⟨t, ht, hw, rfl⟩

theorem written_phase_other {s' : State} (hpending : s'.pending = s.pending.put { t with phase })
    (hsettled : s'.settled = s.settled) (ht : t ∈ s.pending.rows) {k : String}
    (hk : k ≠ t.station.id) : s'.Written k ↔ s.Written k := by
  unfold State.Written
  rw [hpending, hsettled]
  refine or_congr_left ⟨?_, ?_⟩
  · rintro ⟨u, hu, hw, hid⟩
    rcases mem_phase.1 hu with rfl | ⟨hu, -⟩
    · exact absurd hid.symm hk
    · exact ⟨u, hu, hw, hid⟩
  · rintro ⟨u, hu, hw, hid⟩
    refine ⟨u, mem_phase.2 (Or.inr ⟨hu, fun he => ?_⟩), hw, hid⟩
    rw [Table.eq_of_key hu ht he] at hid
    exact hk hid.symm

theorem written_phase_own {s' : State} (hpending : s'.pending = s.pending.put { t with phase })
    (hsettled : s'.settled = s.settled) (hI : Inv initial s) (ht : t ∈ s.pending.rows) :
    s'.Written t.station.id ↔ phase.written = true := by
  unfold State.Written
  rw [hpending, hsettled]
  constructor
  · rintro (⟨u, hu, hw, hid⟩ | ⟨x, hx, hid⟩)
    · rcases mem_phase.1 hu with rfl | ⟨hu, hne⟩
      · exact hw
      · exact absurd (congrArg Toggle.ticket (hI.distinct u hu t ht hid)) hne
    · exact absurd hid (hI.apart t ht _ hx)
  · exact fun hw => Or.inl ⟨_, mem_phase.2 (Or.inl rfl), hw, rfl⟩

/-- A toggle enters a phase. What the other stations see is unchanged, so only its own station
has to be accounted for. -/
theorem inv_phase (hI : Inv initial s) (ht : t ∈ s.pending.rows) {s' : State}
    (hpending : s'.pending = s.pending.put { t with phase }) (hsettled : s'.settled = s.settled)
    (hstarted : s'.started = s.started)
    (hrepo : ∀ k, k ≠ t.station.id → (k ∈ ids s'.repo ↔ k ∈ ids s.repo))
    (hcache : ∀ k, k ≠ t.station.id → (k ∈ ids s'.cache ↔ k ∈ ids s.cache))
    (hrefreshes : s'.refreshes = Table.empty ∨ s'.refreshes = s.refreshes ∧
      (phase.answering = false → t.phase.answering = false ∧
        (t.station.id ∈ ids s'.repo ↔ t.station.id ∈ ids s.repo)))
    (hown : t.station.id ∈ ids s'.repo ↔ (t.station.id ∈ initial ↔ phase.written = false))
    (hexisting : ∀ e, phase.existing = some e → (e.isSome = true ↔ t.station.id ∈ initial) ∧
      ∀ item, e = some item → item.id = t.station.id)
    (hexists : phase.existing ≠ none)
    (hnodup : (ids s'.cache).Nodup) : Inv initial s' where
  tickets := by
    intro u hu
    rw [hpending] at hu
    rw [hstarted]
    rcases mem_phase.1 hu with rfl | ⟨hu, -⟩
    · exact hI.tickets t ht
    · exact hI.tickets u hu
  distinct := by
    intro u hu u' hu' he
    rw [hpending] at hu hu'
    rcases mem_phase.1 hu with rfl | ⟨hu, hne⟩
    · rcases mem_phase.1 hu' with rfl | ⟨hu', hne'⟩
      · rfl
      · exact absurd (congrArg Toggle.ticket (hI.distinct t ht u' hu' he)).symm hne'
    · rcases mem_phase.1 hu' with rfl | ⟨hu', -⟩
      · exact absurd (congrArg Toggle.ticket (hI.distinct u hu t ht he)) hne
      · exact hI.distinct u hu u' hu' he
  apart := by
    intro u hu r hr
    rw [hpending] at hu
    rw [hsettled] at hr
    rcases mem_phase.1 hu with rfl | ⟨hu, -⟩
    · exact hI.apart t ht r hr
    · exact hI.apart u hu r hr
  repo := by
    intro k
    unfold Toggled
    by_cases hk : k = t.station.id
    · subst hk
      rw [hown, written_phase_own hpending hsettled hI ht]
      cases phase.written with
      | true => simp
      | false => simp
    · rw [hrepo k hk, hI.repo k, written_phase_other hpending hsettled ht hk]
      rfl
  existing := by
    intro u hu e he
    rw [hpending] at hu
    rcases mem_phase.1 hu with rfl | ⟨hu, -⟩
    · exact hexisting e he
    · exact hI.existing u hu e he
  cache := by
    intro k hat
    rw [hpending] at hat
    by_cases hk : k = t.station.id
    · subst hk
      exact absurd ((at_phase_own hI ht).1 hat) hexists
    · rw [hcache k hk, hrepo k hk]
      exact hI.cache k ((at_phase_other ht hk).1 hat)
  snapshots := by
    intro r hr stations hsnapshot k hat
    rw [hpending] at hat
    rcases hrefreshes with hnone | ⟨hsame, hanswering⟩
    · rw [hnone] at hr
      cases hr
    · rw [hsame] at hr
      by_cases hk : k = t.station.id
      · subst hk
        obtain ⟨hold, hunwritten⟩ := hanswering ((at_phase_own hI ht).1 hat)
        rw [hunwritten]
        exact hI.snapshots r hr stations hsnapshot _ ((at_own hI ht).2 hold)
      · rw [hrepo k hk]
        exact hI.snapshots r hr stations hsnapshot k ((at_phase_other ht hk).1 hat)
  nodup := hnodup

end Phase

def found (s : State) (t : Toggle) : Option Station :=
  s.cache.find? fun item => item.id = t.station.id

theorem inv_onCancelled_first (hI : Inv initial s) (ht : t ∈ s.pending.rows)
    (hphase : t.phase = .cancelling) : Inv initial (onCancelled s t) := by
  have hat : At (fun p => p.existing = none) s.pending t.station.id :=
    (at_own hI ht).2 (by rw [hphase]; rfl)
  have hwritten : ¬ s.Written t.station.id := by
    rw [written_pending hI ht, hphase]
    decide
  -- before its write, the list and the repository show the station as it was at the beginning
  have hrepo : t.station.id ∈ ids s.repo ↔ t.station.id ∈ initial := by
    rw [hI.repo]
    exact ⟨fun h => h.elim And.left fun h => absurd h.1 hwritten, fun h => Or.inl ⟨h, hwritten⟩⟩
  have hcache := (hI.cache _ hat).trans hrepo
  have hfound : (found s t).isSome = true ↔ t.station.id ∈ ids s.cache := by
    rw [found, List.find?_isSome, mem_ids]
    simp
  have hsame : ∀ item, found s t = some item → item.id = t.station.id := by
    intro item hitem
    have hid := List.find?_some hitem
    exact of_decide_eq_true hid
  have hstep : onCancelled s t = enterPhase
      { s with cache := applyToggle (found s t) t.station s.cache } t
      (.writing s.cache (found s t) false) := by
    unfold onCancelled
    rw [hphase]
    rfl
  rw [hstep]
  refine inv_phase hI ht rfl rfl rfl (fun _ _ => Iff.rfl) ?_ (Or.inr ⟨rfl, fun _ => ?_⟩) ?_ ?_ ?_ ?_
  · intro k hk
    have hmem : k ∈ ids (applyToggle (found s t) t.station s.cache) ↔ _ := mem_applyToggle
    rw [if_neg hk] at hmem
    exact hmem
  · exact ⟨by rw [hphase]; rfl, Iff.rfl⟩
  · refine hrepo.trans ?_
    simp [Phase.written]
  · intro e he
    rw [← Option.some.inj he]
    exact ⟨hfound.trans hcache, hsame⟩
  · exact fun h => nomatch h
  · exact nodup_applyToggle hI.nodup

theorem inv_onWrite (hI : Inv initial s) (ht : t ∈ s.pending.rows) :
    Inv initial (onWrite s t) := by
  unfold onWrite
  split
  · rename_i previous existing hphase
    have hexisting := hI.existing t ht existing (by rw [hphase]; rfl)
    refine inv_phase hI ht rfl rfl rfl ?_ (fun _ _ => Iff.rfl)
      (Or.inr ⟨rfl, fun h => nomatch h⟩) ?_ ?_ ?_ hI.nodup
    · intro k hk
      have hmem : k ∈ ids (writeRepo existing t.station s.repo) ↔ _ := mem_writeRepo
      rw [if_neg hk] at hmem
      exact hmem
    · have hmem : t.station.id ∈ ids (writeRepo existing t.station s.repo) ↔ _ := mem_writeRepo
      rw [if_pos rfl] at hmem
      refine hmem.trans ?_
      rw [← hexisting.1]
      cases existing with
      | none => simp [Phase.written]
      | some item => simp [Phase.written]
    · intro e he
      rw [← Option.some.inj he]
      exact hexisting
    · exact fun h => nomatch h
  · exact hI

/-- The answer to a write that has taken effect: the refreshes that may have read before it are
cancelled. -/
theorem inv_onAnswer_ok (hI : Inv initial s) (ht : t ∈ s.pending.rows)
    {previous : List Station} {existing : Option Station}
    (hphase : t.phase = .writing previous existing true) :
    Inv initial (enterPhase { s with refreshes := Table.empty } t (.reapplying existing)) := by
  have hwritten : s.Written t.station.id := by
    rw [written_pending hI ht, hphase]
    rfl
  have hexisting := hI.existing t ht existing (by rw [hphase]; rfl)
  refine inv_phase hI ht rfl rfl rfl (fun _ _ => Iff.rfl) (fun _ _ => Iff.rfl) (Or.inl rfl) ?_ ?_
    ?_ hI.nodup
  · refine (hI.repo _).trans ?_
    simp [Toggled, hwritten, Phase.written]
  · intro e he
    rw [← Option.some.inj he]
    exact hexisting
  · exact fun h => nomatch h

/-! ### A toggle settles -/

section Finish

variable {cache : List Station} {ok : Bool}

theorem mem_finish {u : Toggle} : u ∈ (finish s t cache ok).pending.rows ↔
    u ∈ s.pending.rows ∧ u.ticket ≠ t.ticket := Table.mem_delete _ _ _

theorem mem_settled {r : Station × Bool} :
    r ∈ (finish s t cache ok).settled ↔ r = (t.station, ok) ∨ r ∈ s.settled := List.mem_cons

theorem at_finish_other (ht : t ∈ s.pending.rows) {P : Phase → Prop} {k : String}
    (hk : k ≠ t.station.id) : At P (finish s t cache ok).pending k ↔ At P s.pending k := by
  constructor
  · intro h u hu hid
    refine h u (mem_finish.2 ⟨hu, fun he => ?_⟩) hid
    rw [Table.eq_of_key hu ht he] at hid
    exact hk hid.symm
  · exact fun h u hu hid => h u (mem_finish.1 hu).1 hid

theorem written_finish (ht : t ∈ s.pending.rows)
    (hok : ok = t.phase.written) (k : String) :
    (finish s t cache ok).Written k ↔ s.Written k := by
  unfold State.Written
  simp only [mem_finish, mem_settled]
  constructor
  · rintro (⟨u, ⟨hu, -⟩, hw, hid⟩ | ⟨x, he | hx, hid⟩)
    · exact Or.inl ⟨u, hu, hw, hid⟩
    · obtain ⟨rfl, hwritten⟩ := Prod.mk.inj he
      exact Or.inl ⟨t, ht, (hwritten.trans hok).symm, hid⟩
    · exact Or.inr ⟨x, hx, hid⟩
  · rintro (⟨u, hu, hw, hid⟩ | ⟨x, hx, hid⟩)
    · by_cases he : u.ticket = t.ticket
      · rw [Table.eq_of_key hu ht he] at hw hid
        exact Or.inr ⟨t.station, Or.inl (by rw [hok, hw]), hid⟩
      · exact Or.inl ⟨u, ⟨hu, he⟩, hw, hid⟩
    · exact Or.inr ⟨x, Or.inr hx, hid⟩

theorem inv_finish (hI : Inv initial s) (ht : t ∈ s.pending.rows) (hok : ok = t.phase.written)
    (hanswering : t.phase.answering = false)
    (hcache : ∀ k, k ≠ t.station.id → (k ∈ ids cache ↔ k ∈ ids s.cache))
    (hown : t.station.id ∈ ids cache ↔ t.station.id ∈ ids s.repo)
    (hnodup : (ids cache).Nodup) : Inv initial (finish s t cache ok) where
  tickets := fun u hu => hI.tickets u (mem_finish.1 hu).1
  distinct := fun u hu u' hu' => hI.distinct u (mem_finish.1 hu).1 u' (mem_finish.1 hu').1
  apart := by
    intro u hu r hr
    obtain ⟨hu, hne⟩ := mem_finish.1 hu
    rcases mem_settled.1 hr with rfl | hr
    · exact fun he => hne (congrArg Toggle.ticket (hI.distinct u hu t ht he.symm))
    · exact hI.apart u hu r hr
  repo := by
    intro k
    unfold Toggled
    rw [written_finish ht hok]
    exact hI.repo k
  existing := fun u hu => hI.existing u (mem_finish.1 hu).1
  cache := by
    intro k hat
    by_cases hk : k = t.station.id
    · subst hk
      exact hown
    · exact (hcache k hk).trans (hI.cache k ((at_finish_other ht hk).1 hat))
  snapshots := by
    intro r hr stations hsnapshot k hat
    by_cases hk : k = t.station.id
    · subst hk
      exact hI.snapshots r hr stations hsnapshot _ ((at_own hI ht).2 hanswering)
    · exact hI.snapshots r hr stations hsnapshot k ((at_finish_other ht hk).1 hat)
  nodup := hnodup

end Finish

theorem repo_own (hI : Inv initial s) (ht : t ∈ s.pending.rows) {existing : Option Station}
    (hexisting : t.phase.existing = some existing) :
    t.station.id ∈ ids s.repo ↔ (existing.isSome = true ↔ t.phase.written = false) := by
  rw [hI.repo, (hI.existing t ht existing hexisting).1]
  unfold Toggled
  rw [written_pending hI ht]
  cases t.phase.written with
  | true => simp
  | false => simp

theorem inv_onCancelled (hI : Inv initial s) (ht : t ∈ s.pending.rows) :
    Inv initial (onCancelled s t) := by
  cases hphase : t.phase with
  | cancelling => exact inv_onCancelled_first hI ht hphase
  | writing previous existing written =>
    have hstep : onCancelled s t = s := by
      unfold onCancelled
      rw [hphase]
    rw [hstep]
    exact hI
  | reapplying existing =>
    have hstep : onCancelled s t = finish s t (applyToggle existing t.station s.cache) true := by
      unfold onCancelled
      rw [hphase]
    rw [hstep]
    have hwritten : t.phase.written = true := by rw [hphase]; rfl
    have hexisting : t.phase.existing = some existing := by rw [hphase]; rfl
    refine inv_finish hI ht hwritten.symm (by rw [hphase]; rfl) ?_ ?_
      (nodup_applyToggle hI.nodup)
    · intro k hk
      have hmem : k ∈ ids (applyToggle existing t.station s.cache) ↔ _ := mem_applyToggle
      rw [if_neg hk] at hmem
      exact hmem
    · have hmem : t.station.id ∈ ids (applyToggle existing t.station s.cache) ↔ _ :=
        mem_applyToggle
      rw [if_pos rfl] at hmem
      rw [hmem, repo_own hI ht hexisting, hwritten]
      simp

theorem inv_onAnswer (hI : Inv initial s) (ht : t ∈ s.pending.rows) (ok : Bool) :
    Inv initial (onAnswer s t ok) := by
  unfold onAnswer
  split
  · rename_i previous existing hphase
    exact inv_onAnswer_ok hI ht hphase
  · rename_i previous existing hphase
    have hwritten : t.phase.written = false := by rw [hphase]; rfl
    have hexisting := hI.existing t ht existing (by rw [hphase]; rfl)
    refine inv_finish hI ht hwritten.symm (by rw [hphase]; rfl) ?_ ?_
      (nodup_restore hexisting.2 hI.nodup)
    · intro k hk
      have hmem : k ∈ ids (restore previous existing t.station s.cache) ↔ _ :=
        mem_restore hexisting.2
      rw [if_neg hk] at hmem
      exact hmem
    · have hmem : t.station.id ∈ ids (restore previous existing t.station s.cache) ↔ _ :=
        mem_restore hexisting.2
      rw [if_pos rfl] at hmem
      rw [hmem, repo_own hI ht (by rw [hphase]; rfl), hwritten]
      simp
  · exact hI

/-! ### A toggle starts -/

theorem mem_start (hI : Inv initial s) {station : Station} {u : Toggle} :
    u ∈ (start s station).pending.rows ↔
      u = ⟨s.started, station, .cancelling⟩ ∨ u ∈ s.pending.rows :=
  Table.mem_put_new _ fun v hv => Nat.ne_of_lt (hI.tickets v hv)

theorem inv_start (hI : Inv initial s) {station : Station} (hf : Fresh s (.toggle station)) :
    Inv initial (start s station) where
  tickets := by
    intro u hu
    rcases (mem_start hI).1 hu with rfl | hu
    · exact Nat.lt_succ_self s.started
    · exact Nat.lt_succ_of_lt (hI.tickets u hu)
  distinct := by
    intro u hu u' hu' he
    rcases (mem_start hI).1 hu with rfl | hu
    · rcases (mem_start hI).1 hu' with rfl | hu'
      · rfl
      · exact absurd he.symm (hf.1 u' hu')
    · rcases (mem_start hI).1 hu' with rfl | hu'
      · exact absurd he (hf.1 u hu)
      · exact hI.distinct u hu u' hu' he
  apart := by
    intro u hu r hr
    rcases (mem_start hI).1 hu with rfl | hu
    · exact hf.2 r hr
    · exact hI.apart u hu r hr
  repo := by
    intro k
    have hwritten : (start s station).Written k ↔ s.Written k := by
      unfold State.Written
      simp only [mem_start hI]
      refine or_congr_left ⟨?_, ?_⟩
      · rintro ⟨u, rfl | hu, hw, hid⟩
        · cases hw
        · exact ⟨u, hu, hw, hid⟩
      · exact fun ⟨u, hu, h⟩ => ⟨u, Or.inr hu, h⟩
    unfold Toggled
    rw [hwritten]
    exact hI.repo k
  existing := by
    intro u hu e he
    rcases (mem_start hI).1 hu with rfl | hu
    · cases he
    · exact hI.existing u hu e he
  cache := fun k hat => hI.cache k fun u hu => hat u ((mem_start hI).2 (Or.inr hu))
  snapshots := fun r hr => nomatch hr
  nodup := hI.nodup

/-! ### Refreshes -/

theorem inv_refreshes (hI : Inv initial s) {started : ℕ} {refreshes : Table Refresh.ticket}
    (hle : s.started ≤ started)
    (hsnapshots : ∀ r ∈ refreshes.rows, r ∈ s.refreshes.rows ∨ r.snapshot = none ∨
      r.snapshot = some s.repo) : Inv initial { s with started, refreshes } where
  tickets := fun u hu => Nat.lt_of_lt_of_le (hI.tickets u hu) hle
  distinct := hI.distinct
  apart := hI.apart
  repo := hI.repo
  existing := hI.existing
  cache := hI.cache
  snapshots := by
    intro r hr stations hsnapshot k hat
    rcases hsnapshots r hr with hold | hnone | hread
    · exact hI.snapshots r hold stations hsnapshot k hat
    · rw [hnone] at hsnapshot
      cases hsnapshot
    · rw [hread] at hsnapshot
      rw [← Option.some.inj hsnapshot]
  nodup := hI.nodup

theorem inv_onRefreshed (hI : Inv initial s) {r : Refresh} (hr : r ∈ s.refreshes.rows) :
    Inv initial (onRefreshed s r) := by
  unfold onRefreshed
  cases hsnapshot : r.snapshot with
  | none => exact hI
  | some stations =>
    exact
      { hI with
        cache := by
          intro k hat
          refine mem_loadFavorites.trans (hI.snapshots r hr stations hsnapshot k ?_)
          intro u hu hid
          have hexisting := hat u hu hid
          cases hphase : u.phase with
          | cancelling => rfl
          | writing previous existing written =>
            rw [hphase] at hexisting
            cases hexisting
          | reapplying existing => rfl
        snapshots := fun r' hr' => hI.snapshots r' (Table.mem_delete _ _ _ |>.1 hr').1
        nodup := loadFavorites_nodup stations }

theorem inv_step (s : State) (e : Event) (hI : Inv initial s) (hf : Fresh s e) :
    Inv initial (step s e) := by
  have hpending : ∀ (f : Toggle → State), (∀ t ∈ s.pending.rows, Inv initial (f t)) → ∀ n,
      Inv initial ((s.pending.get n).elim s f) := by
    intro f hstep n
    cases hget : s.pending.get n with
    | none => exact hI
    | some t => exact hstep t ((Table.get_eq_some _ _ _).1 hget).1
  have hrefreshes : ∀ (f : Refresh → State), (∀ r ∈ s.refreshes.rows, Inv initial (f r)) → ∀ n,
      Inv initial ((s.refreshes.get n).elim s f) := by
    intro f hstep n
    cases hget : s.refreshes.get n with
    | none => exact hI
    | some r => exact hstep r ((Table.get_eq_some _ _ _).1 hget).1
  cases e with
  | toggle station => exact inv_start hI hf
  | cancelled n => exact hpending _ (fun t ht => inv_onCancelled hI ht) n
  | write n => exact hpending _ (fun t ht => inv_onWrite hI ht) n
  | answered n ok => exact hpending _ (fun t ht => inv_onAnswer hI ht ok) n
  | refresh =>
    refine inv_refreshes hI (Nat.le_succ _) fun r hr => ?_
    rcases (Table.mem_put _ _ _).1 hr with rfl | ⟨hr, -⟩
    · exact Or.inr (Or.inl rfl)
    · exact Or.inl hr
  | read n =>
    refine hrefreshes _ (fun r _ => inv_refreshes hI le_rfl fun r' hr' => ?_) n
    rcases (Table.mem_put _ _ _).1 hr' with rfl | ⟨hr', -⟩
    · exact Or.inr (Or.inr rfl)
    · exact Or.inl hr'
  | refreshed n => exact hrefreshes _ (fun r hr => inv_onRefreshed hI hr) n
  | refreshFailed n =>
    exact inv_refreshes hI le_rfl fun r hr => Or.inl ((Table.mem_delete _ _ _).1 hr).1

end Steps

/-! ### Runs -/

/-- The cached list has the initial stations with the successful toggles applied, each once. -/
structure Agreed (initial : List String) (s : State) : Prop where
  stations : ∀ k, k ∈ ids s.cache ↔
    Toggled initial (fun k => ∃ x, (x, true) ∈ s.settled ∧ x.id = k) k
  once : (ids s.cache).Nodup

theorem favorites_settle (repo cache : List Station) (es : List Event)
    (hids : ∀ k, k ∈ ids cache ↔ k ∈ ids repo) (hnodup : (ids cache).Nodup)
    (hdistinct : AllSteps step Fresh (State.init repo cache) es) :
    (run step (State.init repo cache) es).pending.rows = [] →
      Agreed (ids cache) (run step (State.init repo cache) es) := by
  have hI := run_invariant inv_step (inv_init hids hnodup) hdistinct
  intro hdone
  have hnone : ∀ t, t ∉ (run step (State.init repo cache) es).pending.rows := by
    intro t ht
    rw [hdone] at ht
    cases ht
  have hwritten : ∀ k, (run step (State.init repo cache) es).Written k ↔
      ∃ x, (x, true) ∈ (run step (State.init repo cache) es).settled ∧ x.id = k :=
    fun k => or_iff_right fun ⟨t, ht, _⟩ => hnone t ht
  refine ⟨fun k => ?_, hI.nodup⟩
  rw [hI.cache k fun t ht => absurd ht (hnone t), hI.repo k]
  unfold Toggled
  rw [hwritten, hids]

/-- A refresh reads between the write of a toggle and its answer. -/
def refreshedMidWrite : List Event :=
  [.toggle (stationOf "rb:2"), .cancelled 0, .refresh, .write 0, .read 1, .refreshed 1,
    .answered 0 true, .cancelled 0]

theorem refreshedMidWrite_agrees :
    Agreed ["rb:1"]
      (run step (State.init [stationOf "rb:1"] [stationOf "rb:1"]) refreshedMidWrite) :=
  favorites_settle [stationOf "rb:1"] [stationOf "rb:1"] refreshedMidWrite (fun _ => Iff.rfl)
    (by decide) ⟨by decide, trivial, trivial, trivial, trivial, trivial, trivial, trivial, trivial⟩
    rfl

/-- A cached list that lacks a station of the repository: after a refresh it is not the initial
list, and without one it is not the repository's. -/
theorem stale_list :
    ¬ Agreed [] (run step (State.init [stationOf "rb:1"] []) [.refresh, .read 0, .refreshed 0]) ∧
    ¬ Agreed ["rb:1"] (run step (State.init [stationOf "rb:1"] []) []) := by
  constructor
  · intro h
    rcases (h.stations "rb:1").1 (List.mem_cons_self ..) with ⟨hmem, -⟩ | ⟨⟨x, hx, -⟩, -⟩
    · cases hmem
    · cases hx
  · intro h
    have hmem := (h.stations "rb:1").2 (Or.inl ⟨List.mem_cons_self .., fun ⟨x, hx, _⟩ => nomatch hx⟩)
    cases hmem

end Atradio.App
