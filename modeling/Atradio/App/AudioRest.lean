import Atradio.App.SaveGuard

/-! # Where local edits come to rest

The account stays signed in and its record has been restored. Of the effects only the save effect
acts, and its saver is on the way to a write until the settings are in the record. -/

namespace Atradio.App.AudioSync
open Atradio.Lib

variable {σ κ δ : Type}

/-- What happens on the device while the account stays; every write succeeds. -/
def Event.isLocal : Event σ δ → Bool
  | .drag _ | .complete | .edit _ | .render | .effects | .fire | .retryFire => true
  | .saved _ ok => ok
  | _ => false

structure Local (σ κ δ : Type) where
  state : State σ κ δ
  sliding : Bool

section Local

variable (key : σ → κ) (fromRepo : δ → σ → σ) [DecidableEq κ]

def Local.step (w : Local σ κ δ) (e : Event σ δ) : Local σ κ δ where
  state := AudioSync.step key fromRepo w.state e
  sliding := match e with
    | .drag _ => true
    | .complete | .edit _ => false
    | _ => w.sliding

/-- The effects of the render `n` have restored the account: the atom holds `r`. -/
structure State.Restored (s : State σ κ δ) (did : String) (n : Snapshot σ δ) (r : Held σ) :
    Prop where
  auth : s.auth = ⟨some did, true⟩
  seen : s.seen = some n
  view : n.view = ⟨some did, true⟩
  restored : s.restored = some did
  settings : s.settings = some r
  current : ∃ c, n.settings = some c ∧ (c = r ∨ c.id < r.id)
  object : r.id < s.objects
  revision : n.revision ≤ s.revision
  retry : n.retry ≤ s.retry
  rendered : s.rendered = none
  saver : s.saver = none
  writes : s.writes.rows = []

/-- What the record says when the write on its way has taken effect; no record stands for the
defaults. -/
def State.upcoming (default : κ) (s : State σ κ δ) (did : String) : κ :=
  ((s.writes.rows.head?.map fun c => key c.settings.value).or (s.records did)).getD default

def State.skips (s : State σ κ δ) (n : Snapshot σ δ) (r : Held σ) : Bool :=
  !sameSave s.seen n && (n.revision = s.baseline || some (key r.value) = s.lastSaved)

/-- Effects run. Where the save effect returns at once, the write on its way leaves the settings in
the record, or a slider is held. -/
def Local.Guarded (default : κ) (did : String) (w : Local σ κ δ) (e : Event σ δ) : Prop :=
  e.isLocal = true ∧
    ((match e with | .render | .effects => true | _ => false) = true →
      ∀ n ∈ w.state.rendered, ∀ r ∈ n.settings, w.state.skips key n r = true →
        w.state.upcoming key default did = key r.value ∨ w.sliding = true)

instance (default : κ) (did : String) (w : Local σ κ δ) (e : Event σ δ) :
    Decidable (w.Guarded key default did e) :=
  inferInstanceAs (Decidable (_ ∧ (_ → ∀ n ∈ w.state.rendered, ∀ r ∈ n.settings, _)))

/-- Every timer has fired, every write is answered, no slider is held, and the effects have run
with what the atoms hold. -/
structure Local.Quiescent (w : Local σ κ δ) : Prop where
  timer : w.state.timer = false
  retryTimer : w.state.retryTimer = false
  writes : w.state.writes.rows = []
  sliding : w.sliding = false
  current : ∀ n ∈ w.state.seen, n.settings.map Held.id = w.state.settings.map Held.id ∧
    n.revision = w.state.revision ∧ n.retry = w.state.retry

/-! ### The effects of a restored account -/

theorem flush_cases {s : State σ κ δ} {n : Snapshot σ δ} {did : String} {r : Held σ}
    (hn : s.rendered = some n) (hsame : sameView s.seen n = true)
    (hview : n.view = ⟨some did, true⟩) (hsettings : n.settings = some r)
    (hrestored : s.restored = some did) :
    ∃ cache saver timer retryTimer savers,
      runEffects key fromRepo s = { s with
        cache, saver, timer, retryTimer, savers, seen := some n, rendered := none } ∧
      (sameSave s.seen n = true ∧ saver = s.saver ∧ timer = s.timer ∧ retryTimer = s.retryTimer ∨
        s.skips key n r = true ∧ saver = none ∨
        (∃ id, saver = some ⟨id, did, r⟩) ∧ timer = true) := by
  have hprepare := prepare_eq n s
  rw [hsame, if_pos rfl, if_pos rfl, if_pos rfl] at hprepare
  have hkeep : restore key fromRepo n (prepare n s) = prepare n s := by
    rcases restore_cases n (prepare n s) key fromRepo with h | ⟨did', _, hdid, -, hne, -⟩
    · exact h
    · rw [hview] at hdid
      cases hdid
      rw [hprepare] at hne
      exact absurd hrestored hne
  rw [runEffects_eq key fromRepo hn, hkeep]
  unfold save
  rw [hview, hsettings, hprepare]
  dsimp only
  cases hsave : sameSave s.seen n with
  | true => exact ⟨_, _, _, _, _, rfl, Or.inl ⟨rfl, rfl, rfl, rfl⟩⟩
  | false =>
    simp only [hrestored]
    split
    · rename_i h
      exact absurd h Bool.false_ne_true
    · split
      · rename_i hskip
        refine ⟨_, _, _, _, _, rfl, Or.inr (Or.inl ⟨?_, rfl⟩)⟩
        simpa [State.skips, hsave] using hskip
      · exact ⟨_, _, _, _, _, rfl, Or.inr (Or.inr ⟨⟨_, rfl⟩, rfl⟩)⟩

/-- Effects that restore the account, before which nothing was saved for it. -/
theorem restored_of_effects {s : State σ κ δ} {n : Snapshot σ δ} {did : String} {c : Held σ}
    (hn : s.rendered = some n) (hauth : s.auth = ⟨some did, true⟩)
    (hview : n.view = ⟨some did, true⟩) (hc : n.settings = some c) (hobject : c.id < s.objects)
    (hrevision : n.revision ≤ s.revision) (hretry : n.retry ≤ s.retry) (hsaver : s.saver = none)
    (hwrites : s.writes.rows = []) (hbefore : s.restored ≠ some did)
    (hafter : (runEffects key fromRepo s).restored = some did) :
    ∃ r, (runEffects key fromRepo s).Restored did n r ∧
      (runEffects key fromRepo s).lastSaved = some (key r.value) := by
  have hprepare := prepare_eq n s
  have hnone : (prepare n s).saver = none := by
    rw [hprepare, hsaver]
    dsimp only
    split
    · rfl
    · rfl
  rw [runEffects_eq key fromRepo hn] at hafter ⊢
  rcases restore_cases n (prepare n s) key fromRepo with hkeep |
    ⟨did', current, hdid, hcurrent, -, -, -, r, objects, hr, hrestore⟩
  · -- without a restore the account stays as it was
    have hsave : (save key n (prepare n s)).restored = (prepare n s).restored := by
      rcases save_cases n (prepare n s) key with h | ⟨_, _, -, -, -, -, -, h⟩
      · rw [h]
      · rw [h]
    rw [hkeep] at hafter
    dsimp only at hafter
    rw [hsave, hprepare] at hafter
    dsimp only at hafter
    split at hafter
    · exact absurd hafter hbefore
    · cases hafter
  · have hsave : save key n (restore key fromRepo n (prepare n s)) =
        restore key fromRepo n (prepare n s) :=
      save_of_baseline key (by rw [hrestore])
    rw [hview] at hdid
    cases hdid
    obtain rfl : c = current := Option.some.inj (hc.symm.trans hcurrent)
    rw [hsave, hrestore]
    rw [hprepare] at hr hnone ⊢
    dsimp only at hr hnone ⊢
    refine ⟨r, ⟨hauth, rfl, hview, rfl, rfl, ⟨c, hc, ?_⟩, ?_, hrevision, hretry, rfl, hnone,
      hwrites⟩, rfl⟩
    · rcases hr with ⟨hid, -⟩ | ⟨rfl, -⟩
      · exact Or.inr (hid ▸ hobject)
      · exact Or.inl rfl
    · rcases hr with ⟨hid, rfl⟩ | ⟨rfl, rfl⟩
      · exact hid ▸ Nat.lt_succ_self _
      · exact hobject

end Local

section Rest

variable {key : σ → κ} {default : κ} {did : String}

/-- A render of the account with settings, not ahead of the atoms. -/
structure State.Fits (s : State σ κ δ) (did : String) (n : Snapshot σ δ) : Prop where
  view : n.view = ⟨some did, true⟩
  settings : n.settings.isSome = true
  revision : n.revision ≤ s.revision
  retry : n.retry ≤ s.retry

theorem State.Fits.keep {s s' : State σ κ δ} {n : Snapshot σ δ} (h : s.Fits did n)
    (hrevision : s.revision ≤ s'.revision) (hretry : s.retry ≤ s'.retry) : s'.Fits did n :=
  ⟨h.view, h.settings, Nat.le_trans h.revision hrevision, Nat.le_trans h.retry hretry⟩

/-- The object is in the atom or in one of the renders. -/
def State.Mentions (s : State σ κ δ) (r : Held σ) : Prop :=
  s.settings = some r ∨ ∃ n, (s.seen = some n ∨ s.rendered = some n) ∧ n.settings = some r

structure Rest (key : σ → κ) (default : κ) (did : String) (w : Local σ κ δ) : Prop where
  auth : w.state.auth = ⟨some did, true⟩
  restored : w.state.restored = some did
  atom : w.state.settings.isSome = true
  seen : ∃ m, w.state.seen = some m ∧ w.state.Fits did m
  rendered : ∀ n, w.state.rendered = some n → w.state.Fits did n
  objects : ∀ r, w.state.Mentions r → r.id < w.state.objects
  same : ∀ r r', w.state.Mentions r → w.state.Mentions r' → r.id = r'.id → r = r'
  owner : ∀ c, c ∈ w.state.writes.rows ∨ w.state.saver = some c → c.did = did
  single : w.state.writes.rows.length ≤ 1
  busy : w.state.writeBusy = false → w.state.writes.rows = []
  idle : w.state.saver = none → ∀ m r, w.state.seen = some m → m.settings = some r →
    w.state.upcoming key default did = key r.value ∨ w.sliding = true ∨
      m.revision < w.state.revision ∨ w.state.settings ≠ some r
  working : ∀ c, w.state.saver = some c → ∀ m r, w.state.seen = some m → m.settings = some r →
    key c.settings.value = key r.value ∧ (w.state.timer = true ∨ w.state.retryTimer = true ∨
      c ∈ w.state.writes.rows ∨ m.retry < w.state.retry)

theorem rest_of_restored {s : State σ κ δ} {n : Snapshot σ δ} {r : Held σ}
    (h : s.Restored did n r) (hrecord : s.upcoming key default did = key r.value) :
    Rest key default did ⟨s, false⟩ := by
  obtain ⟨c, hc, hcr⟩ := h.current
  have hmentions {r' : Held σ} (h' : s.Mentions r') : r' = r ∨ r' = c := by
    rcases h' with h' | ⟨m, hm | hm, h'⟩
    · rw [h.settings] at h'
      exact Or.inl (Option.some.inj h').symm
    · rw [h.seen] at hm
      cases hm
      rw [hc] at h'
      exact Or.inr (Option.some.inj h').symm
    · rw [h.rendered] at hm
      cases hm
  exact {
    auth := h.auth
    restored := h.restored
    atom := by
      dsimp only
      rw [h.settings]
      rfl
    seen := ⟨n, h.seen, h.view, by rw [hc]; rfl, h.revision, h.retry⟩
    rendered := by
      intro m hm
      rw [h.rendered] at hm
      cases hm
    objects := by
      intro r' h'
      have hobject := h.object
      rcases hmentions h' with rfl | rfl
      · exact hobject
      · rcases hcr with rfl | hlt
        · exact hobject
        · exact Nat.lt_trans hlt hobject
    same := by
      intro r' r'' h' h'' hid
      rcases hcr with rfl | hlt
      · rw [(hmentions h').elim id id, (hmentions h'').elim id id]
      · rcases hmentions h' with rfl | rfl
        · rcases hmentions h'' with rfl | rfl
          · rfl
          · exact absurd hid (Nat.ne_of_gt hlt)
        · rcases hmentions h'' with rfl | rfl
          · exact absurd hid (Nat.ne_of_lt hlt)
          · rfl
    owner := by
      rintro c (hc | hc)
      · rw [h.writes] at hc
        cases hc
      · rw [h.saver] at hc
        cases hc
    single := by
      dsimp only
      rw [h.writes]
      exact Nat.zero_le 1
    busy := fun _ => h.writes
    idle := by
      intro _ m r' _ _
      by_cases heq : r = r'
      · rw [← heq]
        exact Or.inl hrecord
      · refine Or.inr (Or.inr (Or.inr fun hr' => heq ?_))
        rw [h.settings] at hr'
        exact Option.some.inj hr'
    working := by
      intro c hc
      rw [h.saver] at hc
      cases hc }

variable {w : Local σ κ δ}

theorem Rest.setSettings (hI : Rest key default did w) (value : σ) :
    Rest key default did { w with state := w.state.setSettings value } := by
  have hmentions {r : Held σ} (h : (w.state.setSettings value).Mentions r) :
      r = ⟨w.state.objects, value⟩ ∨ w.state.Mentions r := by
    rcases h with h | h
    · exact Or.inl (Option.some.inj h).symm
    · exact Or.inr (Or.inr h)
  exact {
    auth := hI.auth
    restored := hI.restored
    atom := rfl
    seen := hI.seen.imp fun _ h => ⟨h.1, h.2.keep (Nat.le_refl _) (Nat.le_refl _)⟩
    rendered := fun n hn => (hI.rendered n hn).keep (Nat.le_refl _) (Nat.le_refl _)
    objects := by
      intro r hr
      rcases hmentions hr with rfl | hr
      · exact Nat.lt_succ_self _
      · exact Nat.lt_succ_of_lt (hI.objects r hr)
    same := by
      intro r r' hr hr' hid
      rcases hmentions hr with rfl | hr
      · rcases hmentions hr' with rfl | hr'
        · rfl
        · exact absurd hid (Nat.ne_of_gt (hI.objects r' hr'))
      · rcases hmentions hr' with rfl | hr'
        · exact absurd hid (Nat.ne_of_lt (hI.objects r hr))
        · exact hI.same r r' hr hr' hid
    owner := hI.owner
    single := hI.single
    busy := hI.busy
    idle := by
      intro _ m r hm hr
      refine Or.inr (Or.inr (Or.inr fun h => ?_))
      have hlt := hI.objects r (Or.inr ⟨m, Or.inl hm, hr⟩)
      rw [← Option.some.inj h] at hlt
      exact Nat.lt_irrefl _ hlt
    working := hI.working }

/-- A revision has not been seen, and without one the slider is still held. -/
theorem Rest.revise (hI : Rest key default did w) {revision : ℕ} {sliding : Bool}
    (hrevision : w.state.revision ≤ revision)
    (hedit : sliding = true ∨ w.state.revision < revision) :
    Rest key default did { state := { w.state with revision }, sliding } := by
  obtain ⟨m, hm, hmfits⟩ := hI.seen
  exact {
    auth := hI.auth
    restored := hI.restored
    atom := hI.atom
    seen := ⟨m, hm, hmfits.keep hrevision (Nat.le_refl _)⟩
    rendered := fun n hn => (hI.rendered n hn).keep hrevision (Nat.le_refl _)
    objects := hI.objects
    same := hI.same
    owner := hI.owner
    single := hI.single
    busy := hI.busy
    idle := by
      intro _ m' r hm' _
      obtain rfl : m = m' := Option.some.inj (hm.symm.trans hm')
      rcases hedit with h | h
      · exact Or.inr (Or.inl h)
      · exact Or.inr (Or.inr (Or.inl (Nat.lt_of_le_of_lt hmfits.revision h)))
    working := hI.working }

theorem Rest.render (hI : Rest key default did w) :
    Rest key default did
      { w with state := { w.state with rendered := some w.state.snapshot } } := by
  have hmentions {r : Held σ}
      (h : State.Mentions { w.state with rendered := some w.state.snapshot } r) :
      w.state.Mentions r := by
    rcases h with h | ⟨n, hn | hn, h⟩
    · exact Or.inl h
    · exact Or.inr ⟨n, Or.inl hn, h⟩
    · cases hn
      exact Or.inl h
  obtain ⟨m, hm, hmfits⟩ := hI.seen
  exact {
    auth := hI.auth
    restored := hI.restored
    atom := hI.atom
    seen := ⟨m, hm, hmfits.view, hmfits.settings, hmfits.revision, hmfits.retry⟩
    rendered := by
      intro n hn
      cases hn
      exact ⟨hI.auth, hI.atom, Nat.le_refl _, Nat.le_refl _⟩
    objects := fun r h => hI.objects r (hmentions h)
    same := fun r r' h h' => hI.same r r' (hmentions h) (hmentions h')
    owner := hI.owner
    single := hI.single
    busy := hI.busy
    idle := hI.idle
    working := hI.working }

theorem Rest.retry (hI : Rest key default did w) (timer retryTimer : Bool) :
    Rest key default did { w with
      state := { w.state with timer, retryTimer, retry := w.state.retry + 1 } } := by
  obtain ⟨m, hm, hmfits⟩ := hI.seen
  exact {
    auth := hI.auth
    restored := hI.restored
    atom := hI.atom
    seen := ⟨m, hm, hmfits.keep (Nat.le_refl _) (Nat.le_succ _)⟩
    rendered := fun n hn => (hI.rendered n hn).keep (Nat.le_refl _) (Nat.le_succ _)
    objects := hI.objects
    same := hI.same
    owner := hI.owner
    single := hI.single
    busy := hI.busy
    idle := hI.idle
    working := by
      intro c hc m' r hm' hr
      obtain rfl : m = m' := Option.some.inj (hm.symm.trans hm')
      exact ⟨(hI.working c hc m r hm hr).1,
        Or.inr (Or.inr (Or.inr (Nat.lt_succ_of_le hmfits.retry)))⟩ }

theorem Rest.write (hI : Rest key default did w) {c : Saver σ} (hc : w.state.saver = some c)
    (hbusy : w.state.writeBusy = false) :
    Rest key default did { w with
      state := { w.state with
        timer := false, writeBusy := true, writes := w.state.writes.put c } } := by
  have hrows : (w.state.writes.put c).rows = [c] := by
    rw [Table.rows_put_new, hI.busy hbusy, List.nil_append]
    intro u hu
    rw [hI.busy hbusy] at hu
    cases hu
  exact {
    auth := hI.auth
    restored := hI.restored
    atom := hI.atom
    seen := hI.seen.imp fun _ h => ⟨h.1, h.2.keep (Nat.le_refl _) (Nat.le_refl _)⟩
    rendered := fun n hn => (hI.rendered n hn).keep (Nat.le_refl _) (Nat.le_refl _)
    objects := hI.objects
    same := hI.same
    owner := by
      rintro c' (h | h)
      · rw [hrows, List.mem_singleton] at h
        exact h ▸ hI.owner c (Or.inr hc)
      · exact hI.owner c' (Or.inr h)
    single := by
      dsimp only
      rw [hrows]
      exact Nat.le_refl 1
    busy := fun h => nomatch h
    idle := by
      intro h
      rw [hc] at h
      cases h
    working := by
      intro c' hc' m r hm hr
      obtain rfl : c = c' := Option.some.inj (hc.symm.trans hc')
      refine ⟨(hI.working c hc m r hm hr).1, Or.inr (Or.inr (Or.inl ?_))⟩
      dsimp only
      rw [hrows]
      exact List.mem_singleton_self c }

theorem Rest.fire (hI : Rest key default did w) :
    Rest key default did { w with state := AudioSync.fire w.state } := by
  unfold AudioSync.fire
  split
  · exact hI
  · rename_i c hc
    split
    · split
      · exact hI.retry false w.state.retryTimer
      · rename_i hbusy
        exact hI.write hc (Bool.eq_false_iff.2 hbusy)
    · exact hI

theorem Rest.saved (hI : Rest key default did w) (id : ℕ) :
    Rest key default did { w with state := AudioSync.saved key w.state id true } := by
  unfold AudioSync.saved
  cases hget : w.state.writes.get id with
  | none => exact hI
  | some c =>
    obtain ⟨hmem, hid⟩ := (w.state.writes.get_eq_some id c).1 hget
    have hrows : w.state.writes.rows = [c] := by
      obtain ⟨c', hc'⟩ := List.length_eq_one_iff.1
        (Nat.le_antisymm hI.single (List.length_pos_of_mem hmem))
      rw [hc', List.mem_singleton] at hmem
      rw [hc', hmem]
    have hsplit : w.state.writes.rows = [] ++ c :: [] := hrows
    have hdelete : (w.state.writes.delete id).rows = [] := Table.rows_delete_split hsplit hid
    have hdid : c.did = did := hI.owner c (Or.inl hmem)
    have hupcoming (t : State σ κ δ) (hwrites : t.writes = w.state.writes.delete id)
        (hrecords : t.records did = some (key c.settings.value)) :
        t.upcoming key default did = w.state.upcoming key default did := by
      unfold State.upcoming
      rw [hwrites, hdelete, hrecords, hrows]
      rfl
    exact {
      auth := hI.auth
      restored := hI.restored
      atom := hI.atom
      seen := hI.seen.imp fun _ h => ⟨h.1, h.2.keep (Nat.le_refl _) (Nat.le_refl _)⟩
      rendered := fun n hn => (hI.rendered n hn).keep (Nat.le_refl _) (Nat.le_refl _)
      objects := hI.objects
      same := hI.same
      owner := by
        rintro c' (h | h)
        · dsimp only at h
          rw [hdelete] at h
          cases h
        · exact hI.owner c' (Or.inr h)
      single := by
        dsimp only
        rw [hdelete]
        exact Nat.zero_le 1
      busy := fun _ => hdelete
      idle := by
        intro hnone m r hm hr
        rw [hupcoming _ rfl (by simp [hdid])]
        exact hI.idle hnone m r hm hr
      working := by
        intro c' hc' m r hm hr
        obtain ⟨hkey, h⟩ := hI.working c' hc' m r hm hr
        refine ⟨hkey, ?_⟩
        rcases h with h | h | h | h
        · exact Or.inl h
        · exact Or.inr (Or.inl (by simp [h]))
        · -- its own write is answered, and its timer is set
          rw [hrows, List.mem_singleton] at h
          refine Or.inr (Or.inl ?_)
          have hlive : w.state.live c = true := by
            unfold State.live
            rw [show w.state.saver = some c' from hc', h]
            simp
          simp [hlive]
        · exact Or.inr (Or.inr (Or.inr h)) }

variable [DecidableEq κ]

/-- Effects change what the save effect decides, and the render that has been seen. -/
theorem Rest.flush {fromRepo : δ → σ → σ} (hI : Rest key default did w)
    (hg : ∀ n ∈ w.state.rendered, ∀ r ∈ n.settings, w.state.skips key n r = true →
      w.state.upcoming key default did = key r.value ∨ w.sliding = true) :
    Rest key default did { w with state := runEffects key fromRepo w.state } := by
  cases hn : w.state.rendered with
  | none =>
    unfold runEffects
    rw [hn]
    exact hI
  | some n =>
    obtain ⟨m, hm, hmfits⟩ := hI.seen
    have hnfits := hI.rendered n hn
    obtain ⟨r, hr⟩ := Option.isSome_iff_exists.1 hnfits.settings
    have hsame : sameView w.state.seen n = true := by
      rw [hm]
      simp [sameView, hmfits.view, hnfits.view]
    obtain ⟨cache, saver, timer, retryTimer, savers, hrun, hcases⟩ :=
      flush_cases key fromRepo hn hsame hnfits.view hr hI.restored
    -- the same dependencies: the settings are the object seen before
    have hold (h : sameSave w.state.seen n = true) :
        m.settings = some r ∧ m.revision = n.revision ∧ m.retry = n.retry := by
      rw [hm] at h
      simp only [sameSave, Option.any_some, Bool.and_eq_true, decide_eq_true_eq] at h
      obtain ⟨⟨⟨⟨-, hid⟩, hrevision⟩, -⟩, hretry⟩ := h
      obtain ⟨r', hr'⟩ := Option.isSome_iff_exists.1 hmfits.settings
      rw [hr, hr'] at hid
      have heq := hI.same r' r (Or.inr ⟨m, Or.inl hm, hr'⟩) (Or.inr ⟨n, Or.inr hn, hr⟩)
        (Option.some.inj hid)
      exact ⟨heq ▸ hr', hrevision, hretry⟩
    have hmentions {r' : Held σ} (h : State.Mentions { w.state with
        cache, saver, timer, retryTimer, savers, seen := some n, rendered := none } r') :
        w.state.Mentions r' := by
      rcases h with h | ⟨n', hn' | hn', h⟩
      · exact Or.inl h
      · cases hn'
        exact Or.inr ⟨n, Or.inr hn, h⟩
      · cases hn'
    rw [hrun]
    exact {
      auth := hI.auth
      restored := hI.restored
      atom := hI.atom
      seen := ⟨n, rfl, hnfits.view, hnfits.settings, hnfits.revision, hnfits.retry⟩
      rendered := by
        intro n' hn'
        cases hn'
      objects := fun r' h => hI.objects r' (hmentions h)
      same := fun r' r'' h h' => hI.same r' r'' (hmentions h) (hmentions h')
      owner := by
        rintro c (hc | hc)
        · exact hI.owner c (Or.inl hc)
        · rcases hcases with ⟨-, rfl, -⟩ | ⟨-, rfl⟩ | ⟨⟨id, rfl⟩, -⟩
          · exact hI.owner c (Or.inr hc)
          · cases hc
          · cases hc
            rfl
      single := hI.single
      busy := hI.busy
      idle := by
        intro hc n' r' hn' hr'
        cases hn'
        obtain rfl : r = r' := Option.some.inj (hr.symm.trans hr')
        rcases hcases with ⟨hsave, rfl, -⟩ | ⟨hskip, -⟩ | ⟨⟨id, rfl⟩, -⟩
        · obtain ⟨hmr, hrevision, -⟩ := hold hsave
          have hmidle := hI.idle hc m r hm hmr
          rw [hrevision] at hmidle
          exact hmidle
        · rcases hg n hn r hr hskip with h | h
          · exact Or.inl h
          · exact Or.inr (Or.inl h)
        · cases hc
      working := by
        intro c hc n' r' hn' hr'
        cases hn'
        obtain rfl : r = r' := Option.some.inj (hr.symm.trans hr')
        rcases hcases with ⟨hsave, rfl, rfl, rfl⟩ | ⟨-, rfl⟩ | ⟨⟨id, rfl⟩, rfl⟩
        · obtain ⟨hmr, -, hretry⟩ := hold hsave
          have hmworking := hI.working c hc m r hm hmr
          rw [hretry] at hmworking
          exact hmworking
        · cases hc
        · cases hc
          exact ⟨rfl, Or.inl rfl⟩ }

variable {fromRepo : δ → σ → σ}

theorem rest_step (hI : Rest key default did w) {e : Event σ δ} (hg : w.Guarded key default did e) :
    Rest key default did (w.step key fromRepo e) := by
  obtain ⟨hlocal, hskips⟩ := hg
  cases e with
  | drag value =>
    simp only [Local.step, AudioSync.step, hI.atom, if_true]
    exact (hI.setSettings value).revise (Nat.le_refl _) (Or.inl rfl)
  | complete =>
    simp only [Local.step, AudioSync.step, hI.atom, if_true]
    exact hI.revise (Nat.le_succ _) (Or.inr (Nat.lt_succ_self _))
  | edit value =>
    simp only [Local.step, AudioSync.step, hI.atom, if_true]
    exact (hI.setSettings value).revise (Nat.le_succ _) (Or.inr (Nat.lt_succ_self _))
  | render => exact (hI.flush (hskips rfl)).render
  | effects => exact hI.flush (hskips rfl)
  | fire => exact hI.fire
  | saved id ok =>
    obtain rfl : ok = true := hlocal
    exact hI.saved id
  | retryFire =>
    simp only [Local.step, AudioSync.step]
    split
    · exact hI.retry w.state.timer false
    · exact hI
  | auth view | loaded value | fetched view answer shared | refetch view | evict view =>
    cases hlocal

omit [DecidableEq κ] in
theorem Rest.agrees (hI : Rest key default did w) (hq : w.Quiescent) {r : Held σ}
    (hr : w.state.settings = some r) : (w.state.records did).getD default = key r.value := by
  obtain ⟨m, hm, hmfits⟩ := hI.seen
  obtain ⟨r', hr'⟩ := Option.isSome_iff_exists.1 hmfits.settings
  obtain ⟨hid, hrevision, hretry⟩ := hq.current m hm
  rw [hr, hr'] at hid
  obtain rfl := hI.same r' r (Or.inr ⟨m, Or.inl hm, hr'⟩) (Or.inl hr) (Option.some.inj hid)
  cases hc : w.state.saver with
  | none =>
    rcases hI.idle hc m r' hm hr' with h | h | h | h
    · unfold State.upcoming at h
      rw [hq.writes] at h
      exact h
    · rw [hq.sliding] at h
      cases h
    · exact absurd hrevision (Nat.ne_of_lt h)
    · exact absurd hr h
  | some c =>
    rcases (hI.working c hc m r' hm hr').2 with h | h | h | h
    · rw [hq.timer] at h
      cases h
    · rw [hq.retryTimer] at h
      cases h
    · rw [hq.writes] at h
      cases h
    · exact absurd hretry (Nat.ne_of_lt h)

/-- Settings and record agree whenever a guarded run comes to rest. -/
theorem agrees_of_guarded (fromRepo : δ → σ → σ) {s : State σ κ δ} {n : Snapshot σ δ} {r : Held σ}
    (hs : s.Restored did n r) (hrecord : s.upcoming key default did = key r.value)
    {es : List (Event σ δ)}
    (hg : AllSteps (Local.step key fromRepo) (Local.Guarded key default did) ⟨s, false⟩ es)
    (hq : (run (Local.step key fromRepo) ⟨s, false⟩ es).Quiescent) :
    (run (Local.step key fromRepo) ⟨s, false⟩ es).state.settings.map (fun r => key r.value) =
      some (((run (Local.step key fromRepo) ⟨s, false⟩ es).state.records did).getD default) := by
  have hI : Rest key default did (run (Local.step key fromRepo) ⟨s, false⟩ es) :=
    run_invariant (I := Rest key default did) (fun _ _ hI hg => rest_step hI hg)
      (rest_of_restored hs hrecord) hg
  obtain ⟨r', hr'⟩ := Option.isSome_iff_exists.1 hI.atom
  rw [hr', hI.agrees hq hr']
  rfl

end Rest

end Atradio.App.AudioSync
