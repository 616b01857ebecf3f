import Atradio.Lib.Run

/-! # Writing the audio settings back on the web (`components/AudioSettingsSync.tsx`)

From the restore on: every change of the settings runs the effect, which compares them with the
last settings known to match the record, and debounces a write. -/

namespace Atradio.Web.AudioSync
open Atradio.Lib

variable {κ : Type}

/-- Settings are told apart by their JSON. -/
structure State (κ : Type) where
  settings : κ
  lastSynced : Option κ
  timer : Option κ
  /-- Writes on their way to the repository, in the order they were issued. -/
  sending : List κ
  /-- Writes that have taken effect and are to be answered. -/
  answering : List κ
  record : Option κ

inductive Event (κ : Type) where
  | change (settings : κ)
  | fire
  /-- A write on its way takes effect. -/
  | land (i : ℕ)
  | answered (i : ℕ)

variable [DecidableEq κ]

/-- The effect, after its cleanup has cleared the timer. -/
def writeBack (s : State κ) : State κ :=
  { s with timer := if some s.settings = s.lastSynced then none else some s.settings }

def step (s : State κ) : Event κ → State κ
  | .change settings => writeBack { s with settings }
  | .fire =>
    match s.timer with
    | none => s
    | some data => { s with timer := none, sending := s.sending ++ [data] }
  | .land i =>
    match s.sending[i]? with
    | none => s
    | some data =>
      { s with
        sending := s.sending.eraseIdx i, answering := s.answering ++ [data], record := some data }
  | .answered i =>
    match s.answering[i]? with
    | none => s
    | some data => { s with answering := s.answering.eraseIdx i, lastSynced := some data }

/-- After a read that has succeeded: the remote record wins, untouched defaults count as synced. -/
def State.init (default local' : κ) (record : Option κ) : State κ :=
  match record with
  | some data => writeBack {
      settings := data, lastSynced := some data, timer := none
      sending := [], answering := [], record := some data }
  | none => writeBack {
      settings := local', lastSynced := if local' = default then some local' else none
      timer := none, sending := [], answering := [], record := none }

def State.Quiescent (s : State κ) : Prop := s.timer = none ∧ s.sending = [] ∧ s.answering = []

instance (s : State κ) : Decidable s.Quiescent := inferInstanceAs (Decidable (_ ∧ _ ∧ _))

/-- What the record says when the writes on their way have taken effect in their order; no record
stands for the defaults. -/
def State.upcoming (default : κ) (s : State κ) : κ := (s.sending.getLast?.or s.record).getD default

/-- The effect returns at once only for settings that the writes on their way leave in the record,
and writes take effect in the order they were issued. -/
def Guarded (default : κ) (s : State κ) : Event κ → Prop
  | .change settings => some settings = s.lastSynced → s.upcoming default = settings
  | .land i => i = 0
  | _ => True

instance (default : κ) (s : State κ) : (e : Event κ) → Decidable (Guarded default s e)
  | .change _ => inferInstanceAs (Decidable (_ → _))
  | .land _ => inferInstanceAs (Decidable (_ = _))
  | .fire | .answered _ => isTrue trivial

/-- The pending timer holds the settings; without one they are on their way or in the record. -/
def Inv (default : κ) (s : State κ) : Prop :=
  match s.timer with
  | some data => data = s.settings
  | none => s.upcoming default = s.settings

theorem inv_writeBack {default : κ} {s : State κ}
    (h : some s.settings = s.lastSynced → s.upcoming default = s.settings) :
    Inv default (writeBack s) := by
  unfold Inv writeBack
  by_cases hsame : some s.settings = s.lastSynced
  · simp only [hsame, if_true]
    exact h hsame
  · simp only [hsame, if_false]

theorem inv_init (default local' : κ) (record : Option κ) :
    Inv default (State.init default local' record) := by
  cases record with
  | some data => exact inv_writeBack fun _ => rfl
  | none =>
    refine inv_writeBack fun h => ?_
    by_cases hdefault : local' = default
    · exact hdefault.symm
    · simp [hdefault] at h

omit [DecidableEq κ] in
theorem upcoming_land {default : κ} {s : State κ} {data : κ} {rest : List κ}
    (h : s.sending = data :: rest) (answering : List κ) :
    State.upcoming default { s with sending := rest, answering, record := some data } =
      s.upcoming default := by
  unfold State.upcoming
  rw [h]
  cases rest with
  | nil => rfl
  | cons next rest => simp [List.getLast?_cons]

theorem inv_step {default : κ} {s : State κ} (hI : Inv default s) {e : Event κ}
    (hg : Guarded default s e) : Inv default (step s e) := by
  cases e with
  | change settings => exact inv_writeBack hg
  | fire =>
    unfold step
    unfold Inv at hI
    cases htimer : s.timer with
    | none =>
      rw [htimer] at hI
      simpa [Inv, htimer] using hI
    | some data =>
      rw [htimer] at hI
      simpa [Inv, State.upcoming] using hI
  | land i =>
    have hi : i = 0 := hg
    subst hi
    unfold step
    cases hsending : s.sending with
    | nil => exact hI
    | cons data rest =>
      simp only [List.getElem?_cons_zero, List.eraseIdx_cons_zero]
      unfold Inv at hI ⊢
      rw [upcoming_land hsending]
      exact hI
  | answered i =>
    simp only [step]
    split
    · exact hI
    · exact hI

/-- Settings and record agree whenever a guarded run comes to rest. -/
theorem agrees_of_guarded (default local' : κ) (record : Option κ) (es : List (Event κ))
    (hg : AllSteps step (Guarded default) (State.init default local' record) es)
    (hq : (run step (State.init default local' record) es).Quiescent) :
    (run step (State.init default local' record) es).record.getD default =
      (run step (State.init default local' record) es).settings := by
  have hI := run_invariant (G := Guarded default) (fun _ _ hI hg => inv_step hI hg)
    (inv_init default local' record) hg
  obtain ⟨htimer, hsending, -⟩ := hq
  unfold Inv State.upcoming at hI
  rw [htimer, hsending] at hI
  exact hI

end Atradio.Web.AudioSync
