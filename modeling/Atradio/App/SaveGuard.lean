import Atradio.App.AudioSync

/-! # Saves come after a read

Beside the state stands what has happened since the component sees the account: whether a read has
succeeded, and which objects are edits made after the restore. -/

namespace Atradio.App.AudioSync
open Atradio.Lib

variable {σ κ δ : Type}

/-! ### What effects do -/

section Effects

variable (n : Snapshot σ δ) (s : State σ κ δ)

/-- The effects before the restore touch the cache, the refs and the timers. -/
def prepare : State σ κ δ := reset n (cleanUp n (observe n s))

theorem observe_eq : observe n s = { s with cache := (observe n s).cache } := by
  unfold observe
  split
  · rfl
  · rfl

theorem cleanUp_eq : cleanUp n s = { s with
    saver := if sameSave s.seen n then s.saver else none
    timer := if sameSave s.seen n then s.timer else false
    retryTimer := if sameSave s.seen n then s.retryTimer else false } := by
  unfold cleanUp
  cases sameSave s.seen n with
  | false => rfl
  | true => rfl

theorem reset_eq : reset n s = { s with
    restored := if sameView s.seen n then s.restored else none
    baseline := if sameView s.seen n then s.baseline else n.revision
    lastSaved := if sameView s.seen n then s.lastSaved else none } := by
  unfold reset
  cases sameView s.seen n with
  | false => rfl
  | true => rfl

theorem prepare_eq : prepare n s = { s with
    cache := (observe n s).cache
    saver := if sameSave s.seen n then s.saver else none
    timer := if sameSave s.seen n then s.timer else false
    retryTimer := if sameSave s.seen n then s.retryTimer else false
    restored := if sameView s.seen n then s.restored else none
    baseline := if sameView s.seen n then s.baseline else n.revision
    lastSaved := if sameView s.seen n then s.lastSaved else none } := by
  unfold prepare
  rw [reset_eq, cleanUp_eq, observe_eq]

variable (key : σ → κ) (fromRepo : δ → σ → σ)

theorem restore_cases : restore key fromRepo n s = s ∨
    ∃ did current, n.view.did = some did ∧ n.settings = some current ∧ s.restored ≠ some did ∧
      n.remote.isSuccess = true ∧ n.remote.isFetching = false ∧
      ∃ r objects, (r.id = s.objects ∧ objects = s.objects + 1 ∨ r = current ∧ objects = s.objects) ∧
        restore key fromRepo n s = { s with
          settings := some r, objects, restored := some did, baseline := n.revision
          lastSaved := some (key r.value) } := by
  unfold restore
  split
  · exact Or.inl rfl
  · split
    · rename_i did current hdid hcurrent
      split
      · exact Or.inl rfl
      · rename_i hcond
        simp only [Bool.or_eq_true, decide_eq_true_eq, Bool.not_eq_true', not_or,
          Bool.not_eq_false, Bool.not_eq_true] at hcond
        obtain ⟨⟨hne, hsuccess⟩, hfetching⟩ := hcond
        refine Or.inr ⟨did, current, hdid, hcurrent, hne, hsuccess, hfetching, ?_⟩
        split
        · exact ⟨_, _, Or.inl ⟨rfl, rfl⟩, rfl⟩
        · exact ⟨current, s.objects, Or.inr ⟨rfl, rfl⟩, rfl⟩
    · exact Or.inl rfl

variable [DecidableEq κ]

theorem save_cases : save key n s = s ∨
    ∃ did r, n.view = ⟨some did, true⟩ ∧ n.settings = some r ∧ s.restored = some did ∧
      n.revision ≠ s.baseline ∧ s.lastSaved ≠ some (key r.value) ∧
      save key n s = { s with
        saver := some ⟨s.savers, did, r⟩, savers := s.savers + 1, timer := true } := by
  unfold save
  split
  · exact Or.inl rfl
  · split
    · rename_i did r hdid hsettings
      split
      · exact Or.inl rfl
      · rename_i hcond
        simp only [Bool.or_eq_true, decide_eq_true_eq, Bool.not_eq_true', not_or,
          Bool.not_eq_false, not_not] at hcond
        obtain ⟨⟨⟨hsync, hrestored⟩, hrevision⟩, hkey⟩ := hcond
        refine Or.inr ⟨did, r, ?_, hsettings, hrestored, hrevision, Ne.symm hkey, rfl⟩
        rw [← hdid, ← hsync]
    · exact Or.inl rfl

variable {n s} in
theorem save_of_baseline (h : s.baseline = n.revision) : save key n s = s := by
  rcases save_cases n s key with hskip | ⟨_, _, -, -, -, hne, -, -⟩
  · exact hskip
  · exact absurd h.symm hne

variable {n s} in
theorem runEffects_eq (hn : s.rendered = some n) : runEffects key fromRepo s =
    { save key n (restore key fromRepo n (prepare n s)) with
      seen := some n, rendered := none } := by
  unfold runEffects
  rw [hn]
  rfl

end Effects

/-! ### History -/

structure World (σ κ δ : Type) where
  state : State σ κ δ
  /-- A read of the record has succeeded since the component sees the account. -/
  read : Bool
  /-- Objects from this one on were made by edits after the last restore. -/
  restoredAt : ℕ

section World

variable (key : σ → κ) (fromRepo : δ → σ → σ) [DecidableEq κ]

def World.flush (w : World σ κ δ) : World σ κ δ :=
  let state := runEffects key fromRepo w.state
  match w.state.rendered with
  | none => { w with state }
  | some n =>
    let before := if sameView w.state.seen n then w.state.restored else none
    { state
      read := w.read && sameView w.state.seen n
      restoredAt := if state.restored = before then w.restoredAt else state.objects }

def World.step (w : World σ κ δ) (e : Event σ δ) : World σ κ δ :=
  match e with
  | .effects => w.flush key fromRepo
  | .render =>
    let w' := w.flush key fromRepo
    { w' with state := { w'.state with rendered := some w'.state.snapshot } }
  | .fetched view (some _) _ =>
    { w with
      state := AudioSync.step key fromRepo w.state e
      read := w.read ||
        (w.state.seen.any (fun n => n.view = view) && (w.state.cache view).fetching) }
  | _ => { w with state := AudioSync.step key fromRepo w.state e }

theorem step_state (w : World σ κ δ) (e : Event σ δ) :
    (w.step key fromRepo e).state = AudioSync.step key fromRepo w.state e := by
  have hflush : (w.flush key fromRepo).state = runEffects key fromRepo w.state := by
    unfold World.flush
    cases w.state.rendered with
    | none => rfl
    | some n => rfl
  cases e with
  | effects => exact hflush
  | render =>
    simp only [World.step, hflush]
    rfl
  | fetched view answer shared =>
    cases answer with
    | none => rfl
    | some value => rfl
  | _ => rfl

def World.init (auth : View) (records : String → Option κ) : World σ κ δ where
  state := .init auth records
  read := false
  restoredAt := 0

/-- The component sees the account signed in with the permission, has read its record and restored
it, and the settings are an edit made since. -/
structure World.Authorized (w : World σ κ δ) (c : Saver σ) : Prop where
  seen : ∃ n, w.state.seen = some n ∧ n.view = ⟨some c.did, true⟩
  read : w.read = true
  restored : w.state.restored = some c.did
  edited : w.restoredAt ≤ c.settings.id

/-- The object is in the atom or in the render whose effects are to run. -/
def State.Holds (s : State σ κ δ) (r : Held σ) : Prop :=
  s.settings = some r ∨ ∃ n, s.rendered = some n ∧ n.settings = some r

structure Inv (w : World σ κ δ) : Prop where
  reading : ∀ view, observed w.state.seen view = true → (w.state.cache view).status = .success →
    (w.state.cache view).fetching = false → w.read = true
  rendered : ∀ n, w.state.rendered = some n → n.remote.isSuccess = true →
    n.remote.isFetching = false → n.enabled = true →
      observed w.state.seen n.view = true ∧ w.read = true
  restored : ∀ did, w.state.restored = some did →
    w.read = true ∧ ∃ n, w.state.seen = some n ∧ n.view.did = some did
  bound : w.restoredAt ≤ w.state.objects
  atom : ∀ r, w.state.settings = some r → r.id < w.state.objects
  older : ∀ n r, w.state.rendered = some n → n.settings = some r →
    ∃ r', w.state.settings = some r' ∧ r.id ≤ r'.id
  unedited : ∀ r, w.state.restored.isSome = true → w.state.Holds r → r.id < w.restoredAt →
    w.state.lastSaved = some (key r.value)
  saver : ∀ c, w.state.saver = some c → w.Authorized c ∧ ∀ r, w.state.Holds r → w.restoredAt ≤ r.id
  busy : w.state.writeBusy = false → w.state.writes.rows = []
  single : w.state.writes.rows.length ≤ 1

end World

section Steps

variable {key : σ → κ} {w : World σ κ δ}

theorem inv_init (auth : View) (records : String → Option κ) :
    Inv key (World.init auth records : World σ κ δ) where
  reading := fun _ h => nomatch h
  rendered := fun _ h => nomatch h
  restored := fun _ h => nomatch h
  bound := Nat.le_refl 0
  atom := fun _ h => nomatch h
  older := fun _ _ h => nomatch h
  unedited := fun _ h => nomatch h
  saver := fun _ h => nomatch h
  busy := fun _ => rfl
  single := Nat.zero_le 1

/-- What plays no part. -/
theorem Inv.frame (hI : Inv key w) (auth : View) (revision retry baseline : ℕ)
    (timer retryTimer : Bool) (records : String → Option κ) (savers : ℕ) :
    Inv key { w with state := { w.state with
      auth, revision, retry, baseline, timer, retryTimer, records, savers } } :=
  ⟨hI.reading, hI.rendered, hI.restored, hI.bound, hI.atom, hI.older, hI.unedited,
    fun c hc => ⟨⟨(hI.saver c hc).1.seen, (hI.saver c hc).1.read, (hI.saver c hc).1.restored,
      (hI.saver c hc).1.edited⟩, (hI.saver c hc).2⟩, hI.busy, hI.single⟩

theorem Inv.setSettings (hI : Inv key w) (value : σ) :
    Inv key { w with state := w.state.setSettings value } where
  reading := hI.reading
  rendered := hI.rendered
  restored := hI.restored
  bound := Nat.le_succ_of_le hI.bound
  atom := by
    intro r hr
    cases hr
    exact Nat.lt_succ_self _
  older := by
    intro n r hn hr
    obtain ⟨r', hr', hle⟩ := hI.older n r hn hr
    exact ⟨_, rfl, Nat.le_trans hle (Nat.le_of_lt (hI.atom r' hr'))⟩
  unedited := by
    rintro r hrestored (hr | hr) hlt
    · cases hr
      exact absurd hlt (Nat.not_lt.2 hI.bound)
    · exact hI.unedited r hrestored (Or.inr hr) hlt
  saver := by
    intro c hc
    obtain ⟨hauth, hall⟩ := hI.saver c hc
    refine ⟨⟨hauth.seen, hauth.read, hauth.restored, hauth.edited⟩, ?_⟩
    rintro r (hr | hr)
    · cases hr
      exact hI.bound
    · exact hall r (Or.inr hr)
  busy := hI.busy
  single := hI.single

theorem Inv.setQuery (hI : Inv key w) (view : View) {q : Query δ} {objects : ℕ}
    (hobjects : w.state.objects ≤ objects)
    (hq : observed w.state.seen view = true → q.status = .success → q.fetching = false →
      w.read = true) :
    Inv key { w with state := { w.state.setQuery view q with objects } } where
  reading := by
    intro v hv hsuccess hfetching
    simp only [State.setQuery] at hsuccess hfetching
    split at hsuccess
    · rename_i h
      rw [if_pos h] at hfetching
      exact hq (h ▸ hv) hsuccess hfetching
    · rename_i h
      rw [if_neg h] at hfetching
      exact hI.reading v hv hsuccess hfetching
  rendered := hI.rendered
  restored := hI.restored
  bound := Nat.le_trans hI.bound hobjects
  atom := fun r hr => Nat.lt_of_lt_of_le (hI.atom r hr) hobjects
  older := hI.older
  unedited := hI.unedited
  saver := fun c hc => ⟨⟨(hI.saver c hc).1.seen, (hI.saver c hc).1.read,
    (hI.saver c hc).1.restored, (hI.saver c hc).1.edited⟩, (hI.saver c hc).2⟩
  busy := hI.busy
  single := hI.single

theorem Inv.sawRead (hI : Inv key w) : Inv key { w with read := true } where
  reading := fun _ _ _ _ => rfl
  rendered := fun n hn hs hf he => ⟨(hI.rendered n hn hs hf he).1, rfl⟩
  restored := fun did h => ⟨rfl, (hI.restored did h).2⟩
  bound := hI.bound
  atom := hI.atom
  older := hI.older
  unedited := hI.unedited
  saver := fun c hc => ⟨⟨(hI.saver c hc).1.seen, rfl, (hI.saver c hc).1.restored,
    (hI.saver c hc).1.edited⟩, (hI.saver c hc).2⟩
  busy := hI.busy
  single := hI.single

/-! ### Writes -/

theorem writes_eq_of_get (hI : Inv key w) {id : ℕ} {c : Saver σ}
    (hget : w.state.writes.get id = some c) : w.state.writes.rows = [c] := by
  have hmem := ((Table.get_eq_some _ _ _).1 hget).1
  obtain ⟨d, hd⟩ := List.length_eq_one_iff.1
    (Nat.le_antisymm hI.single (List.length_pos_of_mem hmem))
  rw [hd] at hmem ⊢
  rw [List.mem_singleton.1 hmem]

theorem Inv.fire (hI : Inv key w) : Inv key { w with state := AudioSync.fire w.state } := by
  unfold AudioSync.fire
  split
  · exact hI
  · rename_i c hc
    split
    · split
      · exact hI.frame _ _ _ _ _ _ _ _
      · rename_i hbusy
        have hempty := hI.busy (Bool.eq_false_iff.2 hbusy)
        have hput : (w.state.writes.put c).rows = [c] := by
          rw [Table.rows_put_new _ _ (by simp [hempty]), hempty]
          rfl
        exact {
          reading := hI.reading
          rendered := hI.rendered
          restored := hI.restored
          bound := hI.bound
          atom := hI.atom
          older := hI.older
          unedited := hI.unedited
          saver := fun c hc => ⟨⟨(hI.saver c hc).1.seen, (hI.saver c hc).1.read,
            (hI.saver c hc).1.restored, (hI.saver c hc).1.edited⟩, (hI.saver c hc).2⟩
          busy := fun h => nomatch h
          single := Nat.le_of_eq (congrArg List.length hput) }
    · exact hI

theorem Inv.saved (hI : Inv key w) (id : ℕ) (ok : Bool) :
    Inv key { w with state := AudioSync.saved key w.state id ok } := by
  unfold AudioSync.saved
  split
  · exact hI
  · rename_i c hget
    have hrows : w.state.writes.rows = [] ++ c :: [] := writes_eq_of_get hI hget
    have hdelete : (w.state.writes.delete id).rows = [] ++ [] :=
      Table.rows_delete_split hrows (Table.key_of_get hget)
    exact {
      reading := hI.reading
      rendered := hI.rendered
      restored := hI.restored
      bound := hI.bound
      atom := hI.atom
      older := hI.older
      unedited := by
        intro r hrestored hr hlt
        dsimp only
        split
        · -- the closure of a live save has edited settings only
          rename_i hlive
          rw [Bool.and_eq_true] at hlive
          cases hsaver : w.state.saver with
          | none => simp [State.live, hsaver] at hlive
          | some d =>
            exact absurd hlt (Nat.not_lt.2 ((hI.saver d hsaver).2 r hr))
        · exact hI.unedited r hrestored hr hlt
      saver := fun c hc => ⟨⟨(hI.saver c hc).1.seen, (hI.saver c hc).1.read,
        (hI.saver c hc).1.restored, (hI.saver c hc).1.edited⟩, (hI.saver c hc).2⟩
      busy := fun _ => hdelete
      single := by
        dsimp only
        rw [hdelete]
        exact Nat.zero_le 1 }

/-! ### Effects -/

section Flush

variable {n : Snapshot σ δ}

theorem sameView_iff {seen : Option (Snapshot σ δ)} :
    sameView seen n = true ↔ ∃ m, seen = some m ∧ m.view = n.view := by
  unfold sameView
  cases seen with
  | none => simp
  | some m => simp

theorem sameView_of_observed {seen : Option (Snapshot σ δ)} (h : observed seen n.view = true) :
    sameView seen n = true := by
  unfold observed at h
  cases seen with
  | none => cases h
  | some m =>
    rw [Option.any_some, Bool.and_eq_true, decide_eq_true_eq] at h
    exact sameView_iff.2 ⟨m, rfl, h.1⟩

theorem sameView_of_sameSave {seen : Option (Snapshot σ δ)} (h : sameSave seen n = true) :
    sameView seen n = true := by
  unfold sameSave at h
  cases seen with
  | none => cases h
  | some m =>
    simp only [Option.any_some, Bool.and_eq_true, decide_eq_true_eq] at h
    exact sameView_iff.2 ⟨m, rfl, h.1.1.1.1⟩

/-- A success without a fetch in the observed query was read for this account. -/
theorem reading_observe (hI : Inv key w) (view : View) (hobserved : observed (some n) view = true)
    (hsuccess : ((observe n w.state).cache view).status = .success)
    (hfetching : ((observe n w.state).cache view).fetching = false) :
    (w.read && sameView w.state.seen n) = true := by
  simp only [observed, Option.any_some, Bool.and_eq_true, decide_eq_true_eq] at hobserved
  obtain ⟨rfl, henabled⟩ := hobserved
  unfold observe at hsuccess hfetching
  rw [henabled, Bool.true_and] at hsuccess hfetching
  cases hseen : observed w.state.seen n.view with
  | false => simp [hseen, State.setQuery, Query.start] at hfetching
  | true =>
    simp only [hseen, Bool.not_true] at hsuccess hfetching
    rw [hI.reading n.view hseen hsuccess hfetching, sameView_of_observed hseen]
    rfl

/-- The effects without a restore: the saver is gone with its render, or authorized. -/
theorem Inv.kept (hI : Inv key w) {saver : Option (Saver σ)}
    (hsaver : ∀ c, saver = some c → n.view = ⟨some c.did, true⟩ ∧
      sameView w.state.seen n = true ∧ w.state.restored = some c.did ∧
        w.restoredAt ≤ c.settings.id ∧ ∀ r, w.state.settings = some r → w.restoredAt ≤ r.id) :
    Inv key { w with
      state := { w.state with
        cache := (observe n w.state).cache
        saver
        restored := if sameView w.state.seen n then w.state.restored else none
        lastSaved := if sameView w.state.seen n then w.state.lastSaved else none
        seen := some n, rendered := none }
      read := w.read && sameView w.state.seen n } := by
  have hrestored {did : String}
      (h : (if sameView w.state.seen n then w.state.restored else none) = some did) :
      sameView w.state.seen n = true ∧ w.state.restored = some did := by
    split at h
    · rename_i hsame
      exact ⟨hsame, h⟩
    · cases h
  exact {
    reading := reading_observe hI
    rendered := fun _ h => nomatch h
    restored := by
      intro did h
      obtain ⟨hsame, hdid⟩ := hrestored h
      obtain ⟨hread, m, hm, hmdid⟩ := hI.restored did hdid
      obtain ⟨m', hm', hview⟩ := sameView_iff.1 hsame
      rw [hm] at hm'
      cases hm'
      exact ⟨by rw [hread, hsame]; rfl, n, rfl, hview ▸ hmdid⟩
    bound := hI.bound
    atom := hI.atom
    older := fun _ _ h => nomatch h
    unedited := by
      rintro r hsome (hr | ⟨m, hm, -⟩) hlt
      · obtain ⟨did, hdid⟩ := Option.isSome_iff_exists.1 hsome
        obtain ⟨hsame, hdid'⟩ := hrestored hdid
        dsimp only
        rw [if_pos hsame]
        exact hI.unedited r (by rw [hdid']; rfl) (Or.inl hr) hlt
      · cases hm
    saver := by
      intro c hc
      obtain ⟨hview, hsame, hdid, hedited, hall⟩ := hsaver c hc
      refine ⟨⟨⟨n, rfl, hview⟩, ?_, ?_, hedited⟩, ?_⟩
      · dsimp only
        rw [(hI.restored _ hdid).1, hsame]
        rfl
      · dsimp only
        rw [if_pos hsame]
        exact hdid
      · rintro r (hr | ⟨m, hm, -⟩)
        · exact hall r hr
        · cases hm
    busy := hI.busy
    single := hI.single }

/-- The effects with a restore: no saver is left, and no edit is newer than the restore. -/
theorem Inv.restoring (hI : Inv key w) (hn : w.state.rendered = some n) {did : String}
    {current r : Held σ} {objects : ℕ} (hdid : n.view.did = some did)
    (hcurrent : n.settings = some current) (hread : w.read = true)
    (hsame : sameView w.state.seen n = true)
    (hr : r.id = w.state.objects ∧ objects = w.state.objects + 1 ∨
      r = current ∧ objects = w.state.objects) :
    Inv key { w with
      state := { w.state with
        cache := (observe n w.state).cache
        settings := some r, objects, restored := some did, lastSaved := some (key r.value)
        saver := none, seen := some n, rendered := none }
      read := w.read && sameView w.state.seen n
      restoredAt := objects } := by
  have hid : r.id < objects := by
    rcases hr with ⟨hr, ho⟩ | ⟨rfl, ho⟩
    · omega
    · obtain ⟨r', hr', hle⟩ := hI.older n r hn hcurrent
      have hlt := hI.atom r' hr'
      omega
  exact {
    reading := reading_observe hI
    rendered := fun _ h => nomatch h
    restored := by
      intro did' h
      cases h
      exact ⟨by rw [hread, hsame]; rfl, n, rfl, hdid⟩
    bound := Nat.le_refl _
    atom := by
      intro r' h
      cases h
      exact hid
    older := fun _ _ h => nomatch h
    unedited := by
      rintro r' - (h | ⟨m, hm, -⟩) -
      · cases h
        rfl
      · cases hm
    saver := fun _ h => nomatch h
    busy := hI.busy
    single := hI.single }

variable [DecidableEq κ] {fromRepo : δ → σ → σ}

theorem Inv.flush (hI : Inv key w) : Inv key (w.flush key fromRepo) := by
  cases hn : w.state.rendered with
  | none =>
    unfold World.flush runEffects
    rw [hn]
    exact hI
  | some n =>
    have hprepare := prepare_eq n w.state
    unfold World.flush
    rw [hn, runEffects_eq key fromRepo hn]
    dsimp only
    have hsaver (c : Saver σ) (hc : (prepare n w.state).saver = some c) :
        sameView w.state.seen n = true ∧ w.state.saver = some c := by
      rw [hprepare] at hc
      dsimp only at hc
      split at hc
      · rename_i hsame
        exact ⟨sameView_of_sameSave hsame, hc⟩
      · cases hc
    have hview (c : Saver σ) (hsame : sameView w.state.seen n = true)
        (hc : w.state.saver = some c) : n.view = ⟨some c.did, true⟩ := by
      obtain ⟨m, hm, hmview⟩ := (hI.saver c hc).1.seen
      obtain ⟨m', hm', hview⟩ := sameView_iff.1 hsame
      rw [hm] at hm'
      cases hm'
      exact hview ▸ hmview
    rcases restore_cases n (prepare n w.state) key fromRepo with hkeep |
      ⟨did, current, hdid, hcurrent, hne, hsuccess, hfetching, r, objects, hr, hrestore⟩
    · rw [hkeep]
      rcases save_cases n (prepare n w.state) key with hskip |
        ⟨did, r, hnview, hsettings, hrestored, -, hkey, hsave⟩
      · rw [hskip, hprepare]
        dsimp only
        rw [if_pos rfl]
        refine (hI.kept fun c hc => ?_).frame _ _ _ _ _ _ _ _
        obtain ⟨hsame, hc'⟩ := hsaver c (by rw [hprepare]; exact hc)
        obtain ⟨hauth, hall⟩ := hI.saver c hc'
        exact ⟨hview c hsame hc', hsame, hauth.restored, hauth.edited,
          fun r hr => hall r (Or.inl hr)⟩
      · have hsame : sameView w.state.seen n = true ∧ w.state.restored = some did := by
          rw [hprepare] at hrestored
          dsimp only at hrestored
          split at hrestored
          · rename_i hsame
            exact ⟨hsame, hrestored⟩
          · cases hrestored
        have hlast : w.state.lastSaved ≠ some (key r.value) := by
          rw [hprepare] at hkey
          dsimp only at hkey
          rw [if_pos hsame.1] at hkey
          exact hkey
        have hedited : w.restoredAt ≤ r.id := by
          by_contra hlt
          exact hlast (hI.unedited r (by rw [hsame.2]; rfl) (Or.inr ⟨n, hn, hsettings⟩)
            (Nat.lt_of_not_le hlt))
        rw [hsave, hprepare]
        dsimp only
        rw [if_pos rfl]
        refine (hI.kept fun c hc => ?_).frame _ _ _ _ _ _ _ _
        cases hc
        refine ⟨hnview, hsame.1, hsame.2, hedited, fun r' hr' => ?_⟩
        obtain ⟨r'', hr'', hle⟩ := hI.older n r hn hsettings
        rw [hr'] at hr''
        cases hr''
        exact Nat.le_trans hedited hle
    · have henabled : n.enabled = true := by simp [Snapshot.enabled, hdid, hcurrent]
      obtain ⟨hobserved, hread⟩ := hI.rendered n hn hsuccess hfetching henabled
      have hsame := sameView_of_observed hobserved
      have hbefore : w.state.restored ≠ some did := by
        rw [hprepare] at hne
        dsimp only at hne
        rw [if_pos hsame] at hne
        exact hne
      have hnone : (prepare n w.state).saver = none := by
        cases hc : (prepare n w.state).saver with
        | none => rfl
        | some c =>
          have hc' := (hsaver c hc).2
          have hdid' := congrArg View.did (hview c hsame hc')
          rw [hdid] at hdid'
          exact absurd ((hI.saver c hc').1.restored.trans hdid'.symm) hbefore
      have hsave : save key n (restore key fromRepo n (prepare n w.state)) =
          restore key fromRepo n (prepare n w.state) :=
        save_of_baseline key (by rw [hrestore])
      rw [hprepare] at hnone hr
      have hfired : some did ≠ if sameView w.state.seen n then w.state.restored else none := by
        rw [if_pos hsame]
        exact Ne.symm hbefore
      rw [hsave, hrestore, hprepare]
      dsimp only at hnone ⊢
      rw [hnone, if_neg hfired]
      exact (hI.restoring hn hdid hcurrent hread hsame hr).frame _ _ _ _ _ _ _ _

end Flush

theorem Inv.render (hI : Inv key w) :
    Inv key { w with state := { w.state with rendered := some w.state.snapshot } } where
  reading := hI.reading
  rendered := by
    rintro n hn hsuccess hfetching henabled
    cases hn
    have hstatus : (w.state.cache w.state.auth).status = .success := of_decide_eq_true hsuccess
    simp only [State.snapshot, Bool.or_eq_false_iff] at hfetching
    have henabled' : (w.state.auth.did.isSome && w.state.settings.isSome) = true := henabled
    rw [henabled', Bool.true_and, Bool.not_eq_false'] at hfetching
    exact ⟨hfetching.2, hI.reading _ hfetching.2 hstatus hfetching.1⟩
  restored := hI.restored
  bound := hI.bound
  atom := hI.atom
  older := by
    intro n r hn hr
    cases hn
    exact ⟨r, hr, Nat.le_refl _⟩
  unedited := by
    rintro r hrestored (hr | ⟨n, hn, hr⟩) hlt
    · exact hI.unedited r hrestored (Or.inl hr) hlt
    · cases hn
      exact hI.unedited r hrestored (Or.inl hr) hlt
  saver := by
    intro c hc
    obtain ⟨hauth, hall⟩ := hI.saver c hc
    refine ⟨⟨hauth.seen, hauth.read, hauth.restored, hauth.edited⟩, ?_⟩
    rintro r (hr | ⟨n, hn, hr⟩)
    · exact hall r (Or.inl hr)
    · cases hn
      exact hall r (Or.inl hr)
  busy := hI.busy
  single := hI.single

variable [DecidableEq κ] {fromRepo : δ → σ → σ}

theorem Inv.fetched (hI : Inv key w) (view : View) (answer : Option (Option δ)) (shared : Bool) :
    Inv key (w.step key fromRepo (.fetched view answer shared)) := by
  cases hfetching : (w.state.cache view).fetching with
  | false =>
    have hstate : AudioSync.fetched w.state view answer shared = w.state := by
      simp [AudioSync.fetched, hfetching]
    cases answer with
    | none =>
      simp only [World.step, AudioSync.step, hstate]
      exact hI
    | some value =>
      simp only [World.step, AudioSync.step, hstate, hfetching, Bool.and_false, Bool.or_false]
      exact hI
  | true =>
    cases answer with
    | none =>
      simp only [World.step, AudioSync.step, AudioSync.fetched, hfetching, if_true]
      exact hI.setQuery view (Nat.le_refl _) fun _ h => nomatch h
    | some value =>
      simp only [World.step, AudioSync.step, AudioSync.fetched, hfetching, if_true, Bool.and_true]
      cases hseen : w.state.seen.any fun n => n.view = view with
      | false =>
        rw [Bool.or_false]
        refine hI.setQuery view (Nat.le_succ _) fun hobserved => ?_
        unfold observed at hobserved
        cases hs : w.state.seen with
        | none => simp [hs] at hobserved
        | some m =>
          simp only [hs, Option.any_some, Bool.and_eq_true] at hobserved hseen
          rw [hobserved.1] at hseen
          cases hseen
      | true =>
        rw [Bool.or_true]
        exact hI.sawRead.setQuery view (Nat.le_succ _) fun _ _ _ => rfl

theorem inv_step (hI : Inv key w) (e : Event σ δ) : Inv key (w.step key fromRepo e) := by
  cases e with
  | auth view => exact hI.frame _ _ _ _ _ _ _ _
  | loaded value =>
    simp only [World.step, AudioSync.step]
    split
    · exact hI.setSettings value
    · exact hI
  | drag value =>
    simp only [World.step, AudioSync.step]
    split
    · exact hI.setSettings value
    · exact hI
  | complete =>
    simp only [World.step, AudioSync.step]
    split
    · exact hI.frame _ _ _ _ _ _ _ _
    · exact hI
  | edit value =>
    simp only [World.step, AudioSync.step]
    split
    · exact (hI.setSettings value).frame _ _ _ _ _ _ _ _
    · exact hI
  | render => exact hI.flush.render
  | effects => exact hI.flush
  | fetched view answer shared => exact hI.fetched view answer shared
  | refetch view =>
    simp only [World.step, AudioSync.step]
    split
    · exact hI.setQuery view (Nat.le_refl _) fun _ _ h => nomatch h
    · exact hI
  | evict view =>
    simp only [World.step, AudioSync.step]
    split
    · exact hI
    · exact hI.setQuery view (Nat.le_refl _) fun _ h => nomatch h
  | fire => exact hI.fire
  | saved id ok => exact hI.saved id ok
  | retryFire =>
    simp only [World.step, AudioSync.step]
    split
    · exact hI.frame _ _ _ _ _ _ _ _
    · exact hI

theorem runEffects_writes (s : State σ κ δ) : (runEffects key fromRepo s).writes = s.writes := by
  unfold runEffects
  split
  · rfl
  · rename_i n _
    have hprepare : (prepare n s).writes = s.writes := by rw [prepare_eq]
    have hrestore : (restore key fromRepo n (prepare n s)).writes = s.writes := by
      rcases restore_cases n (prepare n s) key fromRepo with h |
        ⟨_, _, -, -, -, -, -, _, _, -, h⟩
      · rw [h, hprepare]
      · rw [h]
        exact hprepare
    rcases save_cases n (restore key fromRepo n (prepare n s)) key with h |
      ⟨_, _, -, -, -, -, -, h⟩
    · exact (congrArg State.writes h).trans hrestore
    · exact (congrArg State.writes h).trans hrestore

theorem issued_authorized (hI : Inv key w) {e : Event σ δ} {c : Saver σ}
    (hc : c ∈ (w.step key fromRepo e).state.writes.rows) (hnew : c ∉ w.state.writes.rows) :
    w.Authorized c := by
  rw [step_state] at hc
  have hsame (s : State σ κ δ) (h : s.writes = w.state.writes) : c ∉ s.writes.rows := by
    rw [h]
    exact hnew
  cases e with
  | fire =>
    simp only [AudioSync.step, AudioSync.fire] at hc
    split at hc
    · exact absurd hc hnew
    · rename_i saver hsaver
      split at hc
      · split at hc
        · exact absurd hc hnew
        · rcases (Table.mem_put _ _ _).1 hc with rfl | ⟨hold, -⟩
          · exact (hI.saver c hsaver).1
          · exact absurd hold hnew
      · exact absurd hc hnew
  | saved id ok =>
    simp only [AudioSync.step, AudioSync.saved] at hc
    split at hc
    · exact absurd hc hnew
    · exact absurd ((Table.mem_delete _ _ _).1 hc).1 hnew
  | render => exact absurd hc (hsame _ (runEffects_writes _))
  | effects => exact absurd hc (hsame _ (runEffects_writes _))
  | fetched view answer shared =>
    refine absurd hc (hsame _ ?_)
    simp only [AudioSync.step, AudioSync.fetched]
    split
    · split
      · rfl
      · rfl
    · rfl
  | auth view => exact absurd hc hnew
  | loaded value | drag value | complete | edit value | refetch view | evict view | retryFire =>
    simp only [AudioSync.step] at hc
    split at hc
    · exact absurd hc hnew
    · exact absurd hc hnew

end Steps

/-- Signed in, read, restored and edited: the save goes out. -/
example : (run (World.step id fun data _ => data)
    (World.init ⟨some "did:plc:a", true⟩ fun _ => none : World ℕ ℕ ℕ)
    [.loaded 1, .render, .effects, .fetched ⟨some "did:plc:a", true⟩ (some (some 5)) false, .render,
      .effects, .render, .effects, .edit 6, .render, .effects, .fire]).state.writes.rows.map
        (fun c => (c.did, c.settings.value)) = [("did:plc:a", 6)] := by
  decide

end Atradio.App.AudioSync
