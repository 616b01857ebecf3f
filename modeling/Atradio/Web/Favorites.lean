import Atradio.Lib.Run
import Atradio.Lib.Table
import Atradio.Lexicons.Mappers

/-! # Toggling favorites in the web player (`atoms/favorites.ts`)

A toggle edits the list at once, awaits the agent, and on a rejection puts back the list it
found. The toggles of several stations overlap. -/

namespace Atradio.Web
open Atradio.Lib Atradio.Lexicons

/-- The atoms; `agent` tells whether someone is signed in. -/
structure Atoms where
  agent : Bool
  favorites : List Station
  rkeys : JsMap String String

/-- What a toggle waits for, with the atoms it has copied. -/
inductive Stage where
  | removing (rkeys : JsMap String String)
  | adding
  | keying (spread : JsMap String String)

structure Toggle where
  ticket : ℕ
  station : Station
  current : List Station
  stage : Stage

structure State where
  atoms : Atoms
  started : ℕ
  pending : Table Toggle.ticket
  /-- Stations with the outcome of their `agent.favorite` or `agent.unfavorite`. -/
  settled : List (Station × Bool)

inductive Event where
  | toggle (station : Station)
  /-- The promise a toggle awaits is fulfilled or rejected; the key digest is always fulfilled. -/
  | answered (ticket : ℕ) (ok : Bool)

/-- The toggle has edited the atoms and awaits the agent. -/
def enter (s : State) (station : Station) (atoms : Atoms) (stage : Stage) : State :=
  { s with
    atoms, started := s.started + 1
    pending := s.pending.put ⟨s.started, station, s.atoms.favorites, stage⟩ }

/-- `toggleFavoriteAtom` up to its first await. -/
def start (s : State) (station : Station) : State :=
  if s.atoms.agent then
    let current := s.atoms.favorites
    let rkeys := s.atoms.rkeys
    if current.any fun x => x.id = station.id then
      enter s station
        { s.atoms with favorites := current.filter fun x => x.id ≠ station.id
                       rkeys := rkeys.delete station.id }
        (.removing rkeys)
    else enter s station { s.atoms with favorites := station :: current } .adding
  else s

def finish (s : State) (t : Toggle) (atoms : Atoms) (ok : Bool) : State :=
  { s with atoms, pending := s.pending.delete t.ticket, settled := (t.station, ok) :: s.settled }

/-- The rest of the toggle. The copy of the keys is taken before the digest is awaited. -/
def resume (favoriteRkey : String → String) (s : State) (t : Toggle) (ok : Bool) : State :=
  match t.stage with
  | .removing rkeys =>
    if ok then finish s t s.atoms true
    else finish s t { s.atoms with favorites := t.current, rkeys } false
  | .adding =>
    if ok then { s with pending := s.pending.put { t with stage := .keying s.atoms.rkeys } }
    else finish s t { s.atoms with favorites := t.current } false
  | .keying spread =>
    finish s t { s.atoms with rkeys := spread.set t.station.id (favoriteRkey t.station.id) } true

def step (favoriteRkey : String → String) (s : State) : Event → State
  | .toggle station => start s station
  | .answered ticket ok =>
    match s.pending.get ticket with
    | none => s
    | some t => resume favoriteRkey s t ok

def State.init (atoms : Atoms) : State :=
  { atoms, started := 0, pending := Table.empty, settled := [] }

/-! ### Runs of distinct stations -/

/-- The station has not been toggled before. -/
def Fresh (s : State) : Event → Prop
  | .toggle station => (∀ t ∈ s.pending.rows, t.station.id ≠ station.id) ∧
      ∀ r ∈ s.settled, r.1.id ≠ station.id
  | .answered _ _ => True

instance (s : State) : (e : Event) → Decidable (Fresh s e)
  | .toggle _ => inferInstanceAs (Decidable (_ ∧ _))
  | .answered _ _ => inferInstanceAs (Decidable True)

def HasKey (m : JsMap String String) (k : String) : Prop := (m.find k).isSome

/-- Before a rollback the list differs from the copy that is put back at the toggled station
only, and before keys are written every copied key is still that of a favorite. -/
def Calm (s : State) : Event → Prop
  | .toggle _ => True
  | .answered ticket ok => ∀ t, s.pending.get ticket = some t →
    match t.stage with
    | .removing _ | .adding => ok = false →
      ∀ x : Station, x.id ≠ t.station.id → (x ∈ s.atoms.favorites ↔ x ∈ t.current)
    | .keying spread => ∀ k, HasKey spread k → k ∈ ids s.atoms.favorites

/-! ### The list with toggles applied -/

/-- A toggle whose edit stands: pending, or settled with success. -/
def State.Applied (s : State) (x : Station) : Prop :=
  (∃ t ∈ s.pending.rows, t.station = x) ∨ (x, true) ∈ s.settled

/-- The list `initial` with the stations of `applied` toggled. -/
def After (initial : List Station) (applied : Station → Prop) (x : Station) : Prop :=
  (x ∈ initial ∧ ∀ y, applied y → y.id ≠ x.id) ∨ (applied x ∧ x.id ∉ ids initial)

theorem after_congr {initial : List Station} {applied applied' : Station → Prop} {own x : Station}
    (h : ∀ y, applied y ↔ applied' y ∨ y = own) (hx : x.id ≠ own.id) :
    After initial applied x ↔ After initial applied' x := by
  have hsame : applied x ↔ applied' x := by
    rw [h]
    exact or_iff_left (fun he => hx (congrArg Station.id he))
  have hnone : (∀ y, applied y → y.id ≠ x.id) ↔ ∀ y, applied' y → y.id ≠ x.id := by
    constructor
    · exact fun hall y hy => hall y ((h y).2 (Or.inl hy))
    · intro hall y hy
      rcases (h y).1 hy with hy | rfl
      · exact hall y hy
      · exact fun he => hx he.symm
  unfold After
  rw [hsame, hnone]

theorem hasKey_delete {m : JsMap String String} {k k' : String} :
    HasKey (m.delete k) k' ↔ k' ≠ k ∧ HasKey m k' := by
  unfold HasKey
  rw [JsMap.find_delete]
  by_cases h : k' = k
  · simp [h]
  · simp [h]

theorem hasKey_set {m : JsMap String String} {k k' v : String} :
    HasKey (m.set k v) k' ↔ k' = k ∨ HasKey m k' := by
  unfold HasKey
  rw [JsMap.find_set]
  by_cases h : k' = k
  · simp [h]
  · simp [h]

end Atradio.Web
