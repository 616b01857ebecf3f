import Atradio.Lib.Run
import Atradio.Lib.Table

/-! # One live stream a station (`hooks/useStationLive.ts`)

The effects of all components share one registry. An entry that was closed stays an object of its
own: its `EventSource` still holds the set of handlers it was opened with. -/

namespace Atradio.Web.StationLive
open Atradio.Lib

variable {E : Type}

/-- An `Entry` with the `EventSource` opened for it. Handlers are numbered: every effect of
`useStationLive` attaches a closure of its own. -/
structure Entry where
  stationId : String
  closed : Bool := false
  handlers : Table (id : ℕ → ℕ) := Table.empty

structure World (E : Type) where
  entries : List Entry := []
  registry : JsMap String ℕ := Table.empty
  /-- The station of each `attach` so far; its handler and its cleanup have its number. -/
  attached : List String := []
  /-- The cleanups that were called. -/
  cleaned : List ℕ := []
  delivered : List (ℕ × E) := []

inductive Event (E : Type) where
  /-- React runs the effect of the hook. -/
  | effect (stationId : Option String)
  /-- React calls the function an effect returned. -/
  | cleanup (handler : ℕ)
  /-- A frame arrives on an `EventSource`; `none` is a frame that is not JSON. -/
  | message (source : ℕ) (data : Option E)

def World.entry (w : World E) (i : ℕ) (f : Entry → Entry) : World E :=
  { w with entries := w.entries.modify i f }

/-- `subscribeLive` for a new entry. -/
def World.subscribe (w : World E) (stationId : String) : World E :=
  { w with entries := w.entries ++ [{ stationId }]
           registry := w.registry.set stationId w.entries.length }

def attach (w : World E) (stationId : String) (handler : ℕ) : World E :=
  let w := if (w.registry.find stationId).isNone then w.subscribe stationId else w
  match w.registry.find stationId with
  | none => w
  | some i => w.entry i fun en => { en with handlers := en.handlers.put handler }

/-- The function `attach` returns. It takes the entry that is registered now. -/
def cleanup (w : World E) (stationId : String) (handler : ℕ) : World E :=
  match w.registry.find stationId with
  | none => w
  | some i =>
    let w := w.entry i fun en => { en with handlers := en.handlers.delete handler }
    if w.entries[i]?.any fun en => en.handlers.size = 0 then
      { w.entry i fun en => { en with closed := true } with
        registry := w.registry.delete stationId }
    else w

/-- `useStationLive`: the effect makes a closure and attaches it. -/
def useStationLive (w : World E) (stationId : String) : World E :=
  { attach w stationId w.attached.length with attached := w.attached ++ [stationId] }

/-- The `onmessage` of `subscribeLive`. The handlers only set React state. -/
def onmessage (w : World E) (en : Entry) : Option E → World E
  | none => w
  | some e => { w with delivered := w.delivered ++ en.handlers.rows.map fun h => (h, e) }

def step (w : World E) : Event E → World E
  | .effect none => w
  | .effect (some stationId) => if stationId = "" then w else useStationLive w stationId
  | .cleanup k =>
    match w.attached[k]? with
    | none => w
    | some stationId => { cleanup w stationId k with cleaned := k :: w.cleaned }
  | .message i data =>
    match w.entries[i]? with
    | none => w
    | some en => if en.closed then w else onmessage w en data

/-- An `EventSource` of the station is open. -/
def World.Streams (w : World E) (stationId : String) (i : ℕ) : Prop :=
  ∃ en, w.entries[i]? = some en ∧ en.stationId = stationId ∧ en.closed = false

/-- The handler was attached to the station and has not been cleaned up. -/
def World.Attached (w : World E) (stationId : String) (k : ℕ) : Prop :=
  w.attached[k]? = some stationId ∧ k ∉ w.cleaned

/-- The registered entries are the open ones, and hold the attached handlers of their stations. -/
structure Shared (w : World E) : Prop where
  registered : ∀ s i, w.registry.find s = some i → w.Streams s i
  opened : ∀ s i, w.Streams s i → w.registry.find s = some i
  holds : ∀ (i : ℕ) (en : Entry), w.entries[i]? = some en → en.closed = false →
    ∀ k, k ∈ en.handlers.rows ↔ w.Attached en.stationId k
  needed : ∀ s i, w.Streams s i → ∃ k, w.Attached s k
  served : ∀ s k, w.Attached s k → ∃ i, w.Streams s i
  known : ∀ k ∈ w.cleaned, k < w.attached.length

theorem shared_init : Shared ({} : World E) where
  registered _ _ h := by simp at h
  opened _ _ h := by simp [World.Streams] at h
  holds _ _ h := by simp at h
  needed _ _ h := by simp [World.Streams] at h
  served _ _ h := by simp [World.Attached] at h
  known := List.forall_mem_nil _

theorem size_eq_zero (t : Table (id : ℕ → ℕ)) : t.size = 0 ↔ ∀ k, k ∉ t.rows := by
  rw [Table.size, List.length_eq_zero_iff, List.eq_nil_iff_forall_not_mem]

theorem getElem?_concat {α : Type} (l : List α) (a : α) (j : ℕ) :
    (l ++ [a])[j]? = if j = l.length then some a else l[j]? := by
  grind

theorem station_of_streams {w : World E} {s : String} {i : ℕ} {en : Entry}
    (hen : w.entries[i]? = some en) (h : w.Streams s i) : s = en.stationId := by
  obtain ⟨en', hen', rfl, -⟩ := h
  rw [Option.some.inj (hen.symm.trans hen')]

/-- Nothing but the entry of one station, its registration and its handlers changes. -/
structure Touches (w w' : World E) (s : String) (i : ℕ) (en : Entry) : Prop where
  station : en.stationId = s
  own : ∀ s', w.Streams s' i → s' = s
  sole : ∀ j, w.registry.find s = some j → j = i
  entries : ∀ j, w'.entries[j]? = if j = i then some en else w.entries[j]?
  found : ∀ s', w'.registry.find s' =
    if s' = s then (if en.closed then none else some i) else w.registry.find s'
  others : ∀ s', s' ≠ s → ∀ k, w'.Attached s' k ↔ w.Attached s' k

theorem Touches.streams {w w' : World E} {s : String} {i : ℕ} {en : Entry} (hw : Shared w)
    (h : Touches w w' s i en) (j : ℕ) : w'.Streams s j ↔ j = i ∧ en.closed = false := by
  rw [World.Streams, h.entries]
  by_cases hj : j = i
  · rw [if_pos hj, and_iff_right hj]
    constructor
    · rintro ⟨en', hen', -, hopen⟩
      rwa [Option.some.inj hen']
    · exact fun hopen => ⟨en, rfl, h.station, hopen⟩
  · rw [if_neg hj]
    exact iff_of_false (fun hs => hj (h.sole j (hw.opened s j hs))) fun hs => hj hs.1

theorem Touches.streams_other {w w' : World E} {s s' : String} {i : ℕ} {en : Entry}
    (h : Touches w w' s i en) (hs' : s' ≠ s) (j : ℕ) : w'.Streams s' j ↔ w.Streams s' j := by
  rw [World.Streams, h.entries, World.Streams]
  by_cases hj : j = i
  · subst hj
    refine iff_of_false ?_ fun hs => hs' (h.own s' hs)
    rintro ⟨en', hen', hst, -⟩
    rw [if_pos rfl, Option.some.injEq] at hen'
    exact hs' (hst.symm.trans (hen' ▸ h.station))
  · rw [if_neg hj]

theorem shared_of_touches {w w' : World E} {s : String} {i : ℕ} {en : Entry} (hw : Shared w)
    (h : Touches w w' s i en) (hrows : ∀ k, k ∈ en.handlers.rows ↔ w'.Attached s k)
    (hclosed : en.closed = false ↔ ∃ k, w'.Attached s k)
    (hknown : ∀ k ∈ w'.cleaned, k < w'.attached.length) : Shared w' := by
  have hself := h.streams hw
  refine ⟨?_, ?_, ?_, ?_, ?_, hknown⟩
  · intro s' j hj
    rw [h.found] at hj
    by_cases hs' : s' = s
    · rw [if_pos hs'] at hj
      subst hs'
      cases hopen : en.closed with
      | true => simp [hopen] at hj
      | false => simpa [hopen, hself, eq_comm] using hj
    · rw [if_neg hs'] at hj
      exact (h.streams_other hs' j).2 (hw.registered s' j hj)
  · intro s' j hj
    rw [h.found]
    by_cases hs' : s' = s
    · subst hs'
      obtain ⟨rfl, hopen⟩ := (hself j).1 hj
      simp [hopen]
    · rw [if_neg hs']
      exact hw.opened s' j ((h.streams_other hs' j).1 hj)
  · intro j en' hen' hopen k
    by_cases hs' : en'.stationId = s
    · obtain ⟨rfl, -⟩ := (hself j).1 ⟨en', hen', hs', hopen⟩
      rw [h.entries, if_pos rfl, Option.some.injEq] at hen'
      rw [← hen', hrows, h.station]
    · have hj : j ≠ i := by
        rintro rfl
        rw [h.entries, if_pos rfl, Option.some.injEq] at hen'
        exact hs' (hen' ▸ h.station)
      rw [h.entries, if_neg hj] at hen'
      rw [hw.holds j en' hen' hopen, h.others _ hs']
  · intro s' j hj
    by_cases hs' : s' = s
    · subst hs'
      exact hclosed.1 ((hself j).1 hj).2
    · obtain ⟨k, hk⟩ := hw.needed s' j ((h.streams_other hs' j).1 hj)
      exact ⟨k, (h.others s' hs' k).2 hk⟩
  · intro s' k hk
    by_cases hs' : s' = s
    · subst hs'
      exact ⟨i, (hself i).2 ⟨rfl, hclosed.2 ⟨k, hk⟩⟩⟩
    · obtain ⟨j, hj⟩ := hw.served s' k ((h.others s' hs' k).1 hk)
      exact ⟨j, (h.streams_other hs' j).2 hj⟩

section attach
variable {w : World E} {s : String}

theorem useStationLive_cleaned : (useStationLive w s).cleaned = w.cleaned := by
  simp only [useStationLive, attach, World.subscribe, World.entry]
  split <;> split <;> rfl

theorem useStationLive_attached (hw : Shared w) (s' : String) (k : ℕ) :
    (useStationLive w s).Attached s' k ↔
      w.Attached s' k ∨ (s' = s ∧ k = w.attached.length) := by
  rw [World.Attached, useStationLive_cleaned, World.Attached]
  show (w.attached ++ [s])[k]? = some s' ∧ _ ↔ _
  rw [getElem?_concat]
  by_cases hk : k = w.attached.length
  · subst hk
    have hnew : w.attached.length ∉ w.cleaned := fun h => Nat.lt_irrefl _ (hw.known _ h)
    simp [hnew, eq_comm]
  · simp [hk]

/-- The entry of the station has the new handler, whether it was there or is made. -/
theorem useStationLive_touches (hw : Shared w) (s : String) :
    ∃ i en, Touches w (useStationLive w s) s i en ∧ en.closed = false ∧
      ∀ k, k ∈ en.handlers.rows ↔ (useStationLive w s).Attached s k := by
  have hothers : ∀ s', s' ≠ s → ∀ k, (useStationLive w s).Attached s' k ↔ w.Attached s' k := by
    intro s' hs' k
    rw [useStationLive_attached hw, or_iff_left fun h => hs' h.1]
  cases h : w.registry.find s with
  | some i =>
    obtain ⟨en, hen, hs, hopen⟩ := hw.registered s i h
    refine ⟨i, { en with handlers := en.handlers.put w.attached.length },
      ⟨hs, fun s' hs' => (station_of_streams hen hs').trans hs,
        fun j hj => Option.some.inj (hj.symm.trans h), ?_, ?_, hothers⟩, hopen, ?_⟩
    · intro j
      simp only [useStationLive, attach, h, World.entry, Option.isNone_some, Bool.false_eq_true,
        if_false, List.getElem?_modify]
      by_cases hj : i = j
      · subst hj
        simp [hen]
      · simp [hj, Ne.symm hj]
    · intro s'
      simp only [useStationLive, attach, h, World.entry, Option.isNone_some, Bool.false_eq_true,
        if_false, hopen]
      split
      · rename_i hs'
        rw [hs', h]
      · rfl
    · intro k
      rw [useStationLive_attached hw, Table.mem_put, hw.holds i en hen hopen k, hs]
      by_cases hk : k = w.attached.length <;> simp [hk]
  | none =>
    have hnone : ∀ k, ¬ w.Attached s k := by
      intro k hk
      obtain ⟨i, hi⟩ := hw.served s k hk
      rw [hw.opened s i hi] at h
      cases h
    refine ⟨w.entries.length, ⟨s, false, Table.empty.put w.attached.length⟩,
      ⟨rfl, ?_, ?_, ?_, ?_, hothers⟩, rfl, ?_⟩
    · rintro s' ⟨en', hen', -⟩
      simp at hen'
    · simp [h]
    · intro j
      simp only [useStationLive, attach, h, World.subscribe, World.entry, JsMap.find_set,
        Option.isNone_none, if_true, List.getElem?_modify, getElem?_concat]
      by_cases hj : j = w.entries.length
      · simp [hj]
      · simp [hj, Ne.symm hj]
    · intro s'
      simp [useStationLive, attach, h, World.subscribe, World.entry, JsMap.find_set]
    · intro k
      rw [useStationLive_attached hw, Table.mem_put]
      simp [hnone k]

theorem shared_useStationLive (hw : Shared w) (s : String) : Shared (useStationLive w s) := by
  obtain ⟨i, en, htouch, hopen, hrows⟩ := useStationLive_touches hw s
  refine shared_of_touches hw htouch hrows (iff_of_true hopen ?_) ?_
  · exact ⟨_, (useStationLive_attached hw s _).2 (Or.inr ⟨rfl, rfl⟩)⟩
  · intro k hk
    rw [useStationLive_cleaned] at hk
    have hlt := hw.known k hk
    show k < (w.attached ++ [s]).length
    rw [List.length_append, List.length_singleton]
    omega

end attach

section cleanup
variable {w : World E} {s : String} {n : ℕ}

/-- A cleanup that React calls. -/
def cleaned (w : World E) (s : String) (n : ℕ) : World E :=
  { cleanup w s n with cleaned := n :: w.cleaned }

theorem cleanup_attached_eq : (cleanup w s n).attached = w.attached := by
  unfold cleanup
  split
  · rfl
  · dsimp only
    split <;> rfl

theorem cleaned_attached (s' : String) (k : ℕ) :
    (cleaned w s n).Attached s' k ↔ w.Attached s' k ∧ k ≠ n := by
  show (cleanup w s n).attached[k]? = some s' ∧ k ∉ n :: w.cleaned ↔ _
  rw [cleanup_attached_eq, World.Attached, List.mem_cons, not_or]
  tauto

theorem cleaned_others (hn : w.attached[n]? = some s) (s' : String) (hs' : s' ≠ s) (k : ℕ) :
    (cleaned w s n).Attached s' k ↔ w.Attached s' k := by
  rw [cleaned_attached, and_iff_left_of_imp]
  rintro ⟨hk, -⟩ rfl
  exact hs' (Option.some.inj (hk.symm.trans hn))

theorem cleanup_registered {i : ℕ} {en : Entry} (h : w.registry.find s = some i)
    (hen : w.entries[i]? = some en) :
    (∀ j, (cleanup w s n).entries[j]? =
      if j = i then some { en with closed := en.closed || (en.handlers.delete n).size = 0
                                   handlers := en.handlers.delete n }
      else w.entries[j]?) ∧
    (cleanup w s n).registry =
      if (en.handlers.delete n).size = 0 then w.registry.delete s else w.registry := by
  simp only [cleanup, h, World.entry, List.getElem?_modify, hen, if_true, Option.map_eq_map,
    Option.map_some, Option.any_some, decide_eq_true_eq]
  by_cases hsize : (en.handlers.delete n).size = 0
  · simp only [hsize, if_true, and_true, decide_true, Bool.or_true, List.getElem?_modify]
    intro j
    by_cases hj : j = i
    · subst hj
      simp [hen]
    · simp [hj, Ne.symm hj]
  · simp only [hsize, if_false, and_true, decide_false, Bool.or_false, List.getElem?_modify]
    intro j
    by_cases hj : j = i
    · subst hj
      simp [hen]
    · simp [hj, Ne.symm hj]

theorem cleaned_known (hw : Shared w) (hn : w.attached[n]? = some s) :
    ∀ k ∈ (cleaned w s n).cleaned, k < (cleaned w s n).attached.length := by
  intro k hk
  show k < (cleanup w s n).attached.length
  rw [cleanup_attached_eq]
  rcases List.mem_cons.1 hk with rfl | hk
  · exact (List.getElem?_eq_some_iff.1 hn).1
  · exact hw.known k hk

/-- A stale cleanup of a station that nobody watches. -/
theorem shared_stale (hw : Shared w) (hn : w.attached[n]? = some s) (h : w.registry.find s = none) :
    Shared (cleaned w s n) := by
  have hknown := cleaned_known hw hn
  have hsame : cleaned w s n = { w with cleaned := n :: w.cleaned } := by
    simp [cleaned, cleanup, h]
  have hatt : ∀ s' k, (cleaned w s n).Attached s' k ↔ w.Attached s' k := by
    intro s' k
    by_cases hs' : s' = s
    · rw [cleaned_attached, and_iff_left_of_imp]
      intro hk
      obtain ⟨i, hi⟩ := hw.served s' k hk
      rw [hs'] at hi
      rw [hw.opened s i hi] at h
      cases h
    · exact cleaned_others hn s' hs' k
  rw [hsame] at hatt hknown ⊢
  refine ⟨hw.registered, hw.opened, ?_, ?_, ?_, hknown⟩
  · intro i en hen hopen k
    rw [hatt]
    exact hw.holds i en hen hopen k
  · intro s' i hi
    obtain ⟨k, hk⟩ := hw.needed s' i hi
    exact ⟨k, (hatt s' k).2 hk⟩
  · exact fun s' k hk => hw.served s' k ((hatt s' k).1 hk)

theorem shared_cleaned (hw : Shared w) (hn : w.attached[n]? = some s) :
    Shared (cleaned w s n) := by
  cases h : w.registry.find s with
  | none => exact shared_stale hw hn h
  | some i =>
    obtain ⟨en, hen, hs, hopen⟩ := hw.registered s i h
    obtain ⟨hget, hreg⟩ := cleanup_registered (n := n) h hen
    have hrows : ∀ k, k ∈ (en.handlers.delete n).rows ↔ (cleaned w s n).Attached s k := by
      intro k
      rw [Table.mem_delete, hw.holds i en hen hopen, cleaned_attached, hs]
      rfl
    have hsize : (en.handlers.delete n).size ≠ 0 ↔ ∃ k, (cleaned w s n).Attached s k := by
      rw [ne_eq, size_eq_zero, not_forall_not]
      exact exists_congr hrows
    rw [hopen, Bool.false_or] at hget
    have htouch : Touches w (cleaned w s n) s i
        ⟨en.stationId, (en.handlers.delete n).size = 0, en.handlers.delete n⟩ := by
      refine ⟨hs, fun s' hs' => (station_of_streams hen hs').trans hs,
        fun j hj => Option.some.inj (hj.symm.trans h), hget, fun s' => ?_, cleaned_others hn⟩
      show (cleanup w s n).registry.find s' = _
      rw [hreg]
      by_cases hs' : s' = s <;> by_cases hz : (en.handlers.delete n).size = 0 <;>
        simp [hs', hz, JsMap.find_delete, h]
    exact shared_of_touches hw htouch hrows (by simpa using hsize) (cleaned_known hw hn)

end cleanup

theorem shared_step (w : World E) (e : Event E) (hw : Shared w) : Shared (step w e) := by
  cases e with
  | effect stationId =>
    cases stationId with
    | none => exact hw
    | some s =>
      rw [step]
      split
      · exact hw
      · exact shared_useStationLive hw s
  | cleanup k =>
    rw [step]
    split
    · exact hw
    · rename_i s hs
      exact shared_cleaned hw hs
  | message i data =>
    rw [step]
    split
    · exact hw
    · split
      · exact hw
      · cases data with
        | none => exact hw
        | some e => exact ⟨hw.registered, hw.opened, hw.holds, hw.needed, hw.served, hw.known⟩

theorem message_delivered {w : World E} (hw : Shared w) {s : String} {i : ℕ} (h : w.Streams s i)
    (e : E) : ∃ ks : List ℕ,
      (step w (.message i (some e))).delivered = w.delivered ++ ks.map (fun k => (k, e)) ∧
        ks.Nodup ∧ ∀ k, k ∈ ks ↔ w.Attached s k := by
  obtain ⟨en, hen, rfl, hopen⟩ := h
  refine ⟨en.handlers.rows, ?_, ?_, hw.holds i en hen hopen⟩
  · simp [step, hen, hopen, onmessage]
  · simpa using en.handlers.nodup

theorem message_dropped {w : World E} {i : ℕ} (h : ∀ s, ¬ w.Streams s i) (data : Option E) :
    step w (.message i data) = w := by
  rw [step]
  split
  · rfl
  · rename_i en hen
    rw [if_pos]
    by_contra hopen
    exact h _ ⟨en, hen, rfl, Bool.eq_false_iff.2 hopen⟩

theorem delivered_of_not_message (w : World E) (e : Event E)
    (he : ∀ i d, e ≠ .message i d) : (step w e).delivered = w.delivered := by
  cases e with
  | effect stationId =>
    cases stationId with
    | none => rfl
    | some s =>
      rw [step]
      split
      · rfl
      · simp only [useStationLive, attach, World.subscribe, World.entry]
        split <;> split <;> rfl
  | cleanup k =>
    rw [step]
    split
    · rfl
    · rename_i s _
      show (cleanup w s k).delivered = _
      unfold cleanup
      split
      · rfl
      · dsimp only
        split <;> rfl
  | message i d => exact (he i d rfl).elim

/-- In any order of effects, cleanups and frames, a station has one open stream exactly while a
handler is attached to it, and each frame goes once to each of its attached handlers. -/
theorem streams_follow_handlers (es : List (Event E)) :
    let w := run step {} es
    (∀ s, (∃ i, w.Streams s i) ↔ ∃ k, w.Attached s k) ∧
    (∀ s i j, w.Streams s i → w.Streams s j → i = j) ∧
    (∀ s i e, w.Streams s i → ∃ ks : List ℕ,
      (step w (.message i (some e))).delivered = w.delivered ++ ks.map (fun k => (k, e)) ∧
        ks.Nodup ∧ ∀ k, k ∈ ks ↔ w.Attached s k) ∧
    (∀ i d, (∀ s, ¬ w.Streams s i) → step w (.message i d) = w) ∧
    ∀ e, (∀ i d, e ≠ .message i d) → (step w e).delivered = w.delivered := by
  have hw : Shared (run step ({} : World E) es) := run_kept shared_step shared_init es
  refine ⟨fun s => ⟨?_, ?_⟩, ?_, ?_, ?_, ?_⟩
  · rintro ⟨i, hi⟩
    exact hw.needed s i hi
  · rintro ⟨k, hk⟩
    exact hw.served s k hk
  · intro s i j hi hj
    have h := hw.opened s i hi
    rw [hw.opened s j hj] at h
    exact (Option.some.inj h).symm
  · exact fun s i e hi => message_delivered hw hi e
  · exact fun i d h => message_dropped h d
  · exact fun e he => delivered_of_not_message _ e he

end Atradio.Web.StationLive
