import Atradio.Lib.Run
import Atradio.Lib.Table
import Atradio.Lexicons.Mappers

/-! # Publishing what is played (`playback/history.ts`)

`PlayHistorySync` writes the station that plays, one write after the other. The writes in flight
and what was written since playback last stopped stand beside its fields. -/

namespace Atradio.App.PlayHistory
open Atradio.Lib Atradio.Lexicons

structure Did where
  text : String
  nonempty : text ≠ ""
  noBar : '|' ∉ text.toList

structure Target where
  did : Did
  station : Station

def Target.key (t : Target) : String := t.did.text ++ "|" ++ t.station.id

theorem bar_inj : ∀ {l m r q : List Char}, '|' ∉ l → '|' ∉ m → l ++ '|' :: r = m ++ '|' :: q →
    l = m ∧ r = q
  | [], [], _, _, _, _, h => ⟨rfl, (List.cons.inj h).2⟩
  | [], _ :: _, _, _, _, hm, h => absurd (List.mem_cons.2 (.inl (List.cons.inj h).1)) hm
  | _ :: _, [], _, _, hl, _, h => absurd (List.mem_cons.2 (.inl (List.cons.inj h).1.symm)) hl
  | a :: l, b :: m, _, _, hl, hm, h => by
    obtain ⟨rfl, htail⟩ := List.cons.inj h
    obtain ⟨rfl, rfl⟩ := bar_inj (fun hmem => hl (List.mem_cons_of_mem _ hmem))
      (fun hmem => hm (List.mem_cons_of_mem _ hmem)) htail
    exact ⟨rfl, rfl⟩

theorem key_inj {t u : Target} :
    t.key = u.key ↔ t.did.text = u.did.text ∧ t.station.id = u.station.id := by
  constructor
  · intro h
    have hlists : t.did.text.toList ++ '|' :: t.station.id.toList =
        u.did.text.toList ++ '|' :: u.station.id.toList := by
      have := congrArg String.toList h
      simpa [Target.key] using this
    obtain ⟨hdid, hid⟩ := bar_inj t.did.noBar u.did.noBar hlists
    exact ⟨String.toList_injective hdid, String.toList_injective hid⟩
  · rintro ⟨hdid, hid⟩
    rw [Target.key, Target.key, hdid, hid]

theorem key_ne_empty (t : Target) : t.key ≠ "" := by
  intro h
  have := congrArg String.toList h
  simp [Target.key] at this

structure PlayHistorySync where
  lastWritten : String
  busy : Bool
  retryAt : ℕ
  target : Option Target

/-- With the target of the write that it begins. -/
def flush (s : PlayHistorySync) (now : ℕ) : PlayHistorySync × Option Target :=
  match s.target with
  | none => (s, none)
  | some target =>
    if s.busy || target.key = s.lastWritten || now < s.retryAt then (s, none)
    else ({ s with busy := true }, some target)

/-- Nobody is signed in or playback has stopped. -/
def stops (did : Option Did) (state : String) : Bool := did.isNone || state = "stopped"

def update (s : PlayHistorySync) (did : Option Did) (state : String) (station : Option Station)
    (now : ℕ) : PlayHistorySync × Option Target :=
  if stops did state then ({ s with target := none, lastWritten := "", retryAt := 0 }, none)
  else match did, station with
    | some did, some station =>
      if state ≠ "playing" then ({ s with target := none }, none)
      else
        let target : Target := ⟨did, station⟩
        let retryAt := if s.target.map Target.key = some target.key then s.retryAt else 0
        flush { s with retryAt, target := some target } now
    | _, _ => ({ s with target := none }, none)

inductive Notice where
  | updated
  | failed

/-- The callback at the end of a write of `target`. -/
def notice (s : PlayHistorySync) (target : Target) (ok : Bool) : Option Notice :=
  if ok then
    if s.target.map (·.did.text) = some target.did.text then some .updated else none
  else if s.target.map Target.key = some target.key then some .failed
  else none

/-- After the write of `target`. -/
def settle (s : PlayHistorySync) (target : Target) (ok : Bool) (now : ℕ) :
    PlayHistorySync × Option Target :=
  let s' : PlayHistorySync :=
    if ok then { s with lastWritten := target.key, busy := false }
    else if s.target.map Target.key = some target.key then
      { s with retryAt := now + 15000, busy := false }
    else { s with busy := false }
  if s'.target.any fun t => t.key ≠ target.key then flush s' now else (s', none)

/-! ### Writes in flight -/

structure Flight where
  id : ℕ
  target : Target
  /-- Playback has stopped since it was issued. -/
  stale : Bool

structure World where
  sync : PlayHistorySync
  flights : Table Flight.id
  started : ℕ
  /-- What was issued since playback last stopped. -/
  issued : List Target
  notices : List Notice

inductive Event where
  | update (did : Option Did) (state : String) (station : Option Station) (now : ℕ)
  | settled (id : ℕ) (ok : Bool) (now : ℕ)

def World.stop (w : World) : World :=
  { w with
    flights := w.flights.mapRows (fun f => { f with stale := true }) fun _ => rfl
    issued := [] }

def World.stopIf (w : World) (b : Bool) : World := if b then w.stop else w

def World.goOn (w : World) : PlayHistorySync × Option Target → World
  | (sync, none) => { w with sync }
  | (sync, some target) =>
    { w with
      sync
      flights := w.flights.put ⟨w.started, target, false⟩
      started := w.started + 1
      issued := target :: w.issued }

def World.step (w : World) : Event → World
  | .update did state station now =>
    (w.stopIf (stops did state)).goOn (PlayHistory.update w.sync did state station now)
  | .settled id ok now =>
    match w.flights.get id with
    | none => w
    | some f =>
      { w with
        flights := w.flights.delete id
        notices := (notice w.sync f.target ok).toList ++ w.notices }.goOn
          (settle w.sync f.target ok now)

def World.init : World where
  sync := ⟨"", false, 0, none⟩
  flights := Table.empty
  started := 0
  issued := []
  notices := []

/-- At most one write is in flight, and a new one is of the current target. -/
def World.Serial (w : World) (e : Event) : Prop :=
  (w.step e).flights.size ≤ 1 ∧ ∀ f ∈ (w.step e).flights.rows, w.flights.get f.id = none →
    (w.step e).sync.target = some f.target

/-- With no write in flight and no retry pending, the station that an update reports was written
since playback last stopped. -/
def World.Rewritten (w : World) (e : Event) : Prop :=
  ∀ did station now, e = .update (some did) "playing" (some station) now →
    w.flights.size = 0 → w.sync.retryAt ≤ now →
      ∃ t ∈ (w.step e).issued, t.did.text = did.text ∧ t.station.id = station.id

/-- A write succeeds only if playback has not stopped since it was issued. -/
def World.Guarded (w : World) : Event → Prop
  | .settled id true _ => ∀ f ∈ w.flights.get id, f.stale = false
  | _ => True

instance (w : World) : (e : Event) → Decidable (w.Guarded e)
  | .settled _ true _ => inferInstanceAs (Decidable (∀ f ∈ _, _))
  | .settled _ false _ | .update .. => isTrue trivial

/-! ### What a call begins -/

/-- A call that may begin a write, from a state that is `busy` or not. -/
def Begins (busy : Bool) (o : PlayHistorySync × Option Target) : Prop :=
  o.2 = none ∧ o.1.busy = busy ∨
    ∃ t, o.2 = some t ∧ busy = false ∧ o.1.busy = true ∧ o.1.target = some t

theorem flush_begins (s : PlayHistorySync) (now : ℕ) : Begins s.busy (flush s now) := by
  unfold flush
  split
  · exact .inl ⟨rfl, rfl⟩
  · rename_i target htarget
    split
    · exact .inl ⟨rfl, rfl⟩
    · rename_i hfree
      simp only [Bool.or_eq_true, not_or] at hfree
      exact .inr ⟨target, rfl, Bool.eq_false_iff.2 hfree.1.1, rfl, htarget⟩

@[simp] theorem flush_lastWritten (s : PlayHistorySync) (now : ℕ) :
    (flush s now).1.lastWritten = s.lastWritten := by
  unfold flush
  split
  · rfl
  · split <;> rfl

section Calls

variable (s : PlayHistorySync) (did : Option Did) (state : String) (station : Option Station)
  (target : Target) (ok : Bool) (now : ℕ)

theorem update_begins : Begins s.busy (update s did state station now) := by
  unfold update
  split
  · exact .inl ⟨rfl, rfl⟩
  · split
    · split
      · exact .inl ⟨rfl, rfl⟩
      · exact flush_begins _ now
    · exact .inl ⟨rfl, rfl⟩

theorem update_lastWritten : (update s did state station now).1.lastWritten =
    if stops did state then "" else s.lastWritten := by
  unfold update
  split
  · rfl
  · split
    · split
      · rfl
      · exact flush_lastWritten _ now
    · rfl

theorem update_playing {did : Did} {station : Station} (hbusy : s.busy = false)
    (hretry : s.retryAt ≤ now) :
    s.lastWritten = Target.key ⟨did, station⟩ ∨
      (update s (some did) "playing" (some station) now).2 = some ⟨did, station⟩ := by
  by_cases hlast : s.lastWritten = Target.key ⟨did, station⟩
  · exact .inl hlast
  · have hretry' : (if s.target.map Target.key = some (Target.key ⟨did, station⟩)
        then s.retryAt else 0) ≤ now := by
      split
      · exact hretry
      · exact Nat.zero_le now
    refine .inr ?_
    have hstops : stops (some did) "playing" = false := rfl
    simp only [update, hstops, Bool.false_eq_true, if_false, ne_eq, not_true_eq_false, flush]
    rw [if_neg]
    simp only [hbusy, Bool.false_or, Bool.or_eq_true, decide_eq_true_eq, not_or, Nat.not_lt]
    exact ⟨fun h => hlast h.symm, hretry'⟩

theorem settle_begins : Begins false (settle s target ok now) := by
  have hfree : ∀ s' : PlayHistorySync, s'.busy = false →
      Begins false (if s'.target.any fun t => t.key ≠ target.key then flush s' now
        else (s', none)) := by
    intro s' hbusy
    split
    · exact hbusy ▸ flush_begins s' now
    · exact .inl ⟨rfl, hbusy⟩
  unfold settle
  apply hfree
  cases ok
  · rw [if_neg Bool.false_ne_true]
    split <;> rfl
  · rfl

theorem settle_lastWritten : (settle s target ok now).1.lastWritten =
    if ok then target.key else s.lastWritten := by
  have hkeep : ∀ s' : PlayHistorySync,
      (if s'.target.any fun t => t.key ≠ target.key then flush s' now
        else (s', none)).1.lastWritten = s'.lastWritten := by
    intro s'
    split
    · exact flush_lastWritten s' now
    · rfl
  unfold settle
  rw [hkeep]
  cases ok
  · rw [if_neg Bool.false_ne_true, if_neg Bool.false_ne_true]
    split <;> rfl
  · rfl

end Calls

/-! ### One write at a time -/

structure World.Inv (w : World) : Prop where
  fresh : ∀ f ∈ w.flights.rows, f.id < w.started
  single : w.sync.busy = false ∧ w.flights.rows = [] ∨
    w.sync.busy = true ∧ ∃ f, w.flights.rows = [f]

theorem World.inv_init : World.Inv .init where
  fresh := fun _ hf => nomatch hf
  single := .inl ⟨rfl, rfl⟩

section Writes

variable {w : World}

theorem World.Inv.size_le (hI : w.Inv) : w.flights.size ≤ 1 := by
  unfold Table.size
  rcases hI.single with ⟨-, h⟩ | ⟨-, f, h⟩
  · rw [h]
    exact Nat.zero_le 1
  · rw [h]
    exact Nat.le_refl 1

/-- A call leaves the flights alone, or starts the only one. -/
theorem World.goOn_spec {busy : Bool} {o : PlayHistorySync × Option Target}
    (hfresh : ∀ f ∈ w.flights.rows, f.id < w.started)
    (hsingle : busy = false ∧ w.flights.rows = [] ∨ busy = true ∧ ∃ f, w.flights.rows = [f])
    (ho : Begins busy o) :
    (w.goOn o).Inv ∧ ∀ f ∈ (w.goOn o).flights.rows,
      f ∈ w.flights.rows ∨ (w.goOn o).sync.target = some f.target := by
  obtain ⟨sync, begun⟩ := o
  rcases ho with ⟨hbegun, hbusy⟩ | ⟨t, hbegun, hfree, hbusy, htarget⟩
  · obtain rfl : begun = none := hbegun
    refine ⟨⟨hfresh, ?_⟩, fun f hf => .inl hf⟩
    change sync.busy = false ∧ _ ∨ sync.busy = true ∧ _
    rw [show sync.busy = busy from hbusy]
    exact hsingle
  · obtain rfl : begun = some t := hbegun
    have hempty : w.flights.rows = [] := by
      rcases hsingle with ⟨-, hempty⟩ | ⟨htrue, -⟩
      · exact hempty
      · rw [hfree] at htrue
        cases htrue
    have hrows : (w.goOn (sync, some t)).flights.rows = [⟨w.started, t, false⟩] := by
      refine (Table.rows_put_new w.flights ⟨w.started, t, false⟩ fun u hu => ?_).trans ?_
      · exact Nat.ne_of_lt (hfresh u hu)
      · rw [hempty, List.nil_append]
    refine ⟨⟨fun f hf => ?_, .inr ⟨hbusy, _, hrows⟩⟩, fun f hf => .inr ?_⟩
    · rw [hrows, List.mem_singleton] at hf
      rw [hf]
      exact Nat.lt_succ_self _
    · rw [hrows, List.mem_singleton] at hf
      rw [hf]
      exact htarget

theorem World.Inv.stopIf (hI : w.Inv) (b : Bool) : (w.stopIf b).Inv := by
  cases b
  · exact hI
  · refine ⟨fun f hf => ?_, ?_⟩
    · obtain ⟨g, hg, rfl⟩ := List.mem_map.1 hf
      exact hI.fresh g hg
    · rcases hI.single with ⟨hbusy, h⟩ | ⟨hbusy, f, h⟩
      · refine .inl ⟨hbusy, ?_⟩
        exact (congrArg (List.map _) h).trans List.map_nil
      · refine .inr ⟨hbusy, { f with stale := true }, ?_⟩
        exact (congrArg (List.map _) h).trans (List.map_cons ..)

theorem World.get_stopIf (w : World) (b : Bool) {id : ℕ} (h : w.flights.get id = none) :
    (w.stopIf b).flights.get id = none := by
  cases b
  · exact h
  · refine (Table.get_eq_none _ _).2 fun f hf => ?_
    obtain ⟨g, hg, rfl⟩ := List.mem_map.1 hf
    exact (Table.get_eq_none _ _).1 h g hg

theorem World.sync_stopIf (w : World) (b : Bool) : (w.stopIf b).sync = w.sync := by
  cases b <;> rfl

theorem World.Inv.update (hI : w.Inv) (did : Option Did) (state : String)
    (station : Option Station) (now : ℕ) :
    (w.step (.update did state station now)).Inv ∧ w.Serial (.update did state station now) := by
  have hstopped := hI.stopIf (stops did state)
  have hbegins : Begins (w.stopIf (stops did state)).sync.busy
      (PlayHistory.update w.sync did state station now) := by
    rw [World.sync_stopIf]
    exact update_begins w.sync did state station now
  obtain ⟨hI', hnew⟩ := World.goOn_spec hstopped.fresh hstopped.single hbegins
  refine ⟨hI', hI'.size_le, fun f hf hnone => (hnew f hf).resolve_left fun hold => ?_⟩
  exact (Table.get_eq_none _ _).1 (w.get_stopIf (stops did state) hnone) f hold rfl

theorem World.Inv.settled (hI : w.Inv) (id : ℕ) (ok : Bool) (now : ℕ) :
    (w.step (.settled id ok now)).Inv ∧ w.Serial (.settled id ok now) := by
  unfold World.Serial
  simp only [World.step]
  cases hget : w.flights.get id with
  | none =>
    refine ⟨hI, hI.size_le, fun f hf hnone => ?_⟩
    exact absurd rfl ((Table.get_eq_none _ _).1 hnone f hf)
  | some f =>
    obtain ⟨hmem, hid⟩ := (Table.get_eq_some _ _ _).1 hget
    have hempty : (w.flights.delete id).rows = [] := by
      rcases hI.single with ⟨-, hrows⟩ | ⟨-, g, hrows⟩
      · rw [hrows] at hmem
        cases hmem
      · refine List.eq_nil_iff_forall_not_mem.2 fun u hu => ?_
        obtain ⟨hu, hne⟩ := (Table.mem_delete _ _ _).1 hu
        rw [hrows, List.mem_singleton] at hmem hu
        rw [hu, ← hmem] at hne
        exact hne hid
    dsimp only
    obtain ⟨hI', hnew⟩ := World.goOn_spec (w := { w with
        flights := w.flights.delete id
        notices := (notice w.sync f.target ok).toList ++ w.notices })
      (fun g hg => hI.fresh g ((Table.mem_delete _ _ _).1 hg).1) (.inl ⟨rfl, hempty⟩)
      (settle_begins w.sync f.target ok now)
    refine ⟨hI', hI'.size_le, fun g hg _ => (hnew g hg).resolve_left fun hold => ?_⟩
    have hold' : g ∈ (w.flights.delete id).rows := hold
    rw [hempty] at hold'
    cases hold'

theorem World.inv_step (hI : w.Inv) (e : Event) : (w.step e).Inv ∧ w.Serial e := by
  cases e with
  | update did state station now => exact hI.update did state station now
  | settled id ok now => exact hI.settled id ok now

end Writes

/-! ### Written again after a stop -/

/-- What was written last, and what is in flight since the last stop, was issued since then. -/
structure World.Recent (w : World) : Prop where
  inv : w.Inv
  last : w.sync.lastWritten ≠ "" → ∃ t ∈ w.issued, t.key = w.sync.lastWritten
  flying : ∀ f ∈ w.flights.rows, f.stale = false → f.target ∈ w.issued

theorem World.recent_init : World.Recent .init where
  inv := World.inv_init
  last := fun h => absurd rfl h
  flying := fun _ hf => nomatch hf

section Recent

variable {w : World}

theorem World.issued_goOn (w : World) (o : PlayHistorySync × Option Target) :
    (w.goOn o).issued = o.2.toList ++ w.issued := by
  obtain ⟨sync, begun⟩ := o
  cases begun <;> rfl

theorem World.sync_goOn (w : World) (o : PlayHistorySync × Option Target) :
    (w.goOn o).sync = o.1 := by
  obtain ⟨sync, begun⟩ := o
  cases begun <;> rfl

theorem World.flying_goOn {o : PlayHistorySync × Option Target}
    (hflying : ∀ f ∈ w.flights.rows, f.stale = false → f.target ∈ w.issued) :
    ∀ f ∈ (w.goOn o).flights.rows, f.stale = false → f.target ∈ (w.goOn o).issued := by
  obtain ⟨sync, begun⟩ := o
  cases begun with
  | none => exact hflying
  | some t =>
    intro f hf hstale
    rcases (Table.mem_put _ _ _).1 hf with rfl | ⟨hf, -⟩
    · exact List.mem_cons_self ..
    · exact List.mem_cons_of_mem _ (hflying f hf hstale)

theorem World.Recent.update (hR : w.Recent) (did : Option Did) (state : String)
    (station : Option Station) (now : ℕ) : (w.step (.update did state station now)).Recent where
  inv := (hR.inv.update did state station now).1
  last := by
    simp only [World.step]
    rw [World.sync_goOn, World.issued_goOn, update_lastWritten]
    cases stops did state with
    | true => exact fun h => absurd rfl h
    | false =>
      intro h
      obtain ⟨t, ht, hkey⟩ := hR.last h
      exact ⟨t, List.mem_append_right _ ht, hkey⟩
  flying := by
    refine World.flying_goOn fun f hf hstale => ?_
    cases hstops : stops did state with
    | true =>
      rw [hstops] at hf
      obtain ⟨g, -, rfl⟩ := List.mem_map.1 hf
      cases hstale
    | false =>
      rw [hstops] at hf
      exact hR.flying f hf hstale

theorem World.Recent.settled (hR : w.Recent) {id : ℕ} {ok : Bool} {now : ℕ}
    (hg : w.Guarded (.settled id ok now)) : (w.step (.settled id ok now)).Recent where
  inv := (hR.inv.settled id ok now).1
  last := by
    simp only [World.step]
    cases hget : w.flights.get id with
    | none => exact hR.last
    | some f =>
      dsimp only
      rw [World.sync_goOn, World.issued_goOn, settle_lastWritten]
      cases ok with
      | false =>
        intro h
        obtain ⟨t, ht, hkey⟩ := hR.last h
        exact ⟨t, List.mem_append_right _ ht, hkey⟩
      | true =>
        -- the guard: the write that has ended is of the time after the last stop
        have hmem := ((Table.get_eq_some _ _ _).1 hget).1
        have hissued := hR.flying f hmem (hg f hget)
        exact fun _ => ⟨f.target, List.mem_append_right _ hissued, rfl⟩
  flying := by
    simp only [World.step]
    cases hget : w.flights.get id with
    | none => exact hR.flying
    | some f =>
      refine World.flying_goOn fun g hg hstale => ?_
      exact hR.flying g ((Table.mem_delete _ _ _).1 hg).1 hstale

theorem World.recent_step (hR : w.Recent) {e : Event} (hg : w.Guarded e) : (w.step e).Recent := by
  cases e with
  | update did state station now => exact hR.update did state station now
  | settled id ok now => exact hR.settled hg

theorem World.Recent.rewritten (hR : w.Recent) (e : Event) : w.Rewritten e := by
  rintro did station now rfl hnone hretry
  have hbusy : w.sync.busy = false := by
    rcases hR.inv.single with ⟨hbusy, -⟩ | ⟨-, f, hrows⟩
    · exact hbusy
    · rw [Table.size, hrows] at hnone
      cases hnone
  have hstops : stops (some did) "playing" = false := rfl
  simp only [World.step, hstops, World.issued_goOn]
  rcases update_playing w.sync now hbusy hretry with hlast | hbegun
  · obtain ⟨t, ht, hkey⟩ := hR.last (hlast ▸ key_ne_empty _)
    exact ⟨t, List.mem_append_right _ ht, key_inj.1 (hkey.trans hlast)⟩
  · rw [hbegun]
    exact ⟨⟨did, station⟩, List.mem_append_left _ (List.mem_singleton_self _), rfl, rfl⟩

end Recent

/-- Writes follow one another, each of the target of its time; if none succeeds after a stop that
came during its flight, what plays after a stop is written again. -/
theorem rewritten_of_guarded (es : List Event) :
    AllSteps World.step World.Serial .init es ∧
      (AllSteps World.step World.Guarded .init es → AllSteps World.step World.Rewritten .init es) :=
  ⟨allSteps_of_invariant (I := World.Inv) (fun _ e hI _ => (World.inv_step hI e).1)
      (fun _ e hI _ => (World.inv_step hI e).2) World.inv_init
      (allSteps_of_forall (G := fun _ => True) fun _ _ => trivial),
    fun hg => allSteps_of_invariant (I := World.Recent) (fun _ _ hR hg => World.recent_step hR hg)
      (fun _ e hR _ => hR.rewritten e) World.recent_init hg⟩

def alice : Did := ⟨"did:plc:a", by decide, by decide⟩

def plays (now : ℕ) : Event := .update (some alice) "playing" (some (stationOf "rb:1")) now

/-- Played, stopped and played again. -/
theorem rewritten_after_stop : AllSteps World.step World.Rewritten .init
    [plays 0, .settled 0 true 1, .update (some alice) "stopped" none 2, plays 3] :=
  (rewritten_of_guarded _).2 (by decide)

/-- Stopped while the write is in flight, the station is not written again. -/
theorem stopped_in_flight : ¬ AllSteps World.step World.Rewritten .init
    [plays 0, .update (some alice) "stopped" none 1, .settled 0 true 2, plays 3] := by
  intro h
  obtain ⟨t, ht, -⟩ := h.2.2.2.1 alice (stationOf "rb:1") 3 rfl rfl (by decide)
  cases ht

end Atradio.App.PlayHistory
