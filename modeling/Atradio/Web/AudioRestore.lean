import Atradio.Lib.Run

/-! # Reading and writing the audio settings across sign-ins (`components/AudioSettingsSync.tsx`)

Both effects of the component. The render that `setRestored` asks for comes long before a timer
that is set next to it fires, and is part of the same step. -/

namespace Atradio.Web.AudioRestore
open Atradio.Lib

variable {κ : Type}

/-- A session makes a client of its own. -/
structure Account where
  client : ℕ
  did : String
  deriving DecidableEq

inductive Fetched (κ : Type) where
  | record (settings : κ)
  | nothing
  | failed

/-- What the component has done: `signedIn` starts a sign-in or ends it, `fetched` is a read that
was not cancelled, `put` a write. -/
inductive Call (κ : Type) where
  | signedIn (account : Option Account)
  | fetched (account : Account) (result : Fetched κ)
  | put (account : Account) (settings : κ)

structure Read where
  account : Account
  cancelled : Bool

/-- Settings are told apart by their JSON; a timer holds what its effect closed over; `log` has the
last call first. -/
structure State (κ : Type) where
  account : Option Account
  settings : κ
  restored : Bool
  lastSynced : Option κ
  timer : Option (Account × κ)
  reads : List Read
  puts : List (Account × κ)
  log : List (Call κ)

/-- `render` is a render with the settings as they are then. -/
inductive Event (κ : Type) where
  | session (account : Option Account)
  | render (settings : κ)
  | read (i : ℕ) (result : Fetched κ)
  | fire
  | answered (i : ℕ) (ok : Bool)

variable [DecidableEq κ]

/-- The effect that writes back, after its cleanup has cleared the timer. -/
def writeBack (s : State κ) : State κ :=
  { s with
    timer := match s.account with
      | some account =>
        if s.restored = true ∧ some s.settings ≠ s.lastSynced then some (account, s.settings)
        else none
      | none => none }

/-- `setRestored` -/
def setRestored (s : State κ) (restored : Bool) : State κ :=
  if restored = s.restored then s else writeBack { s with restored }

/-- The effect that reads, up to its `setRestored`, after its cleanup has cancelled the last read. -/
def restore (s : State κ) : State κ :=
  { s with
    lastSynced := none
    reads := s.reads.map (fun r => { r with cancelled := true }) ++
      (s.account.map fun account => ⟨account, false⟩).toList
    log := .signedIn s.account :: s.log }

/-- The end of a read; a failure is looked at in one that was cancelled too. -/
def endRead (default : κ) (s : State κ) (r : Read) (result : Fetched κ) : State κ :=
  let log := .fetched r.account result :: s.log
  match result with
  | .record data =>
    if r.cancelled then s
    else setRestored (writeBack { s with lastSynced := some data, settings := data, log }) true
  | .nothing =>
    if r.cancelled then s
    else
      let synced := if s.settings = default then some s.settings else none
      setRestored { s with lastSynced := synced, log } true
  | .failed =>
    let s := { s with lastSynced := some s.settings }
    if r.cancelled then s else setRestored { s with log } true

def step (default : κ) (s : State κ) : Event κ → State κ
  | .session account =>
    if account = s.account then writeBack s
    else setRestored (writeBack (restore { s with account })) false
  | .render settings => writeBack { s with settings }
  | .read i result =>
    match s.reads[i]? with
    | none => s
    | some r => endRead default { s with reads := s.reads.eraseIdx i } r result
  | .fire =>
    match s.timer with
    | none => s
    | some (account, data) =>
      { s with
        timer := none, puts := s.puts ++ [(account, data)], log := .put account data :: s.log }
  | .answered i ok =>
    match s.puts[i]? with
    | none => s
    | some put =>
      let s := { s with puts := s.puts.eraseIdx i }
      if ok then { s with lastSynced := some put.2 } else s

/-- The first render, of an account or none. -/
def State.init (account : Option Account) (settings : κ) : State κ :=
  writeBack (restore {
    account, settings, restored := false, lastSynced := none, timer := none
    reads := [], puts := [], log := [] })

/-! ### Writes come after a read -/

/-- What the read of an account in the last sign-in ended with. -/
def readIn (account : Account) : List (Call κ) → Option (Fetched κ)
  | .fetched a result :: log => if a = account then some result else readIn account log
  | .put _ _ :: log => readIn account log
  | .signedIn _ :: _ | [] => none

/-- Every write came after the read of its account in the same sign-in. -/
def ReadFirst : List (Call κ) → Prop
  | .put account _ :: log => (∃ result, readIn account log = some result) ∧ ReadFirst log
  | .fetched _ _ :: log | .signedIn _ :: log => ReadFirst log
  | [] => True

structure Inv (s : State κ) : Prop where
  readFirst : ReadFirst s.log
  timer : ∀ x ∈ s.timer, s.restored = true ∧ s.account = some x.1
  restored : s.restored = true → ∀ a ∈ s.account, ∃ result, readIn a s.log = some result
  live : ∀ r ∈ s.reads, r.cancelled = false → s.account = some r.account

variable {s : State κ}

theorem Inv.writeBack (hlog : ReadFirst s.log)
    (hread : s.restored = true → ∀ a ∈ s.account, ∃ result, readIn a s.log = some result)
    (hlive : ∀ r ∈ s.reads, r.cancelled = false → s.account = some r.account) :
    Inv (writeBack s) := by
  refine ⟨hlog, fun x hx => ?_, hread, hlive⟩
  unfold AudioRestore.writeBack at hx ⊢
  cases haccount : s.account with
  | none =>
    simp only [haccount] at hx
    cases hx
  | some account =>
    simp only [haccount] at hx
    split at hx
    · rename_i hset
      cases hx
      exact ⟨hset.1, rfl⟩
    · cases hx

omit [DecidableEq κ] in
theorem readIn_fetched (a b : Account) (result : Fetched κ) {log : List (Call κ)}
    (h : b = a ∨ ∃ r, readIn a log = some r) : ∃ r, readIn a (.fetched b result :: log) = some r := by
  by_cases hb : b = a
  · exact ⟨result, if_pos hb⟩
  · obtain ⟨r, hr⟩ := h.resolve_left hb
    exact ⟨r, (if_neg hb).trans hr⟩

omit [DecidableEq κ] in
theorem Inv.fetched (h : Inv s) (a : Account) (result : Fetched κ) (lastSynced : Option κ) :
    Inv { s with lastSynced, log := .fetched a result :: s.log } :=
  ⟨h.readFirst, h.timer, fun hr b hb => readIn_fetched b a result (.inr (h.restored hr b hb)), h.live⟩

theorem Inv.setRestored (h : Inv s)
    (hread : ∀ a ∈ s.account, ∃ result, readIn a s.log = some result) :
    Inv (setRestored s true) := by
  unfold AudioRestore.setRestored
  split
  · exact h
  · exact Inv.writeBack h.readFirst (fun _ => hread) h.live

theorem Inv.endRead (default : κ) (h : Inv s) {r : Read}
    (hr : r.cancelled = false → s.account = some r.account) (result : Fetched κ) :
    Inv (endRead default s r result) := by
  have hread (hlive : ¬ r.cancelled = true) :
      ∀ a ∈ s.account, ∃ x, readIn a (.fetched r.account result :: s.log) = some x := by
    intro a ha
    have hsame : some r.account = some a := (hr (Bool.not_eq_true _ ▸ hlive)).symm.trans ha
    exact readIn_fetched a r.account result (.inl (Option.some.inj hsame))
  cases result with
  | record data =>
    simp only [AudioRestore.endRead]
    split
    · exact h
    · rename_i hlive
      have hrendered := Inv.writeBack
        (s := { s with
          lastSynced := some data, settings := data, log := .fetched r.account (.record data) :: s.log })
        h.readFirst (fun _ => hread hlive) h.live
      exact hrendered.setRestored (hread hlive)
  | nothing =>
    simp only [AudioRestore.endRead]
    split
    · exact h
    · exact (h.fetched r.account .nothing _).setRestored (hread ‹_›)
  | failed =>
    simp only [AudioRestore.endRead]
    split
    · exact ⟨h.readFirst, h.timer, h.restored, h.live⟩
    · exact (h.fetched r.account .failed _).setRestored (hread ‹_›)

/-- A sign-in begins with nothing restored and one read that counts. -/
theorem inv_restore (hlog : ReadFirst s.log) :
    Inv (setRestored (writeBack (restore s)) false) := by
  have hrestored : setRestored (writeBack (restore s)) false =
      writeBack { restore s with restored := false } := by
    unfold setRestored
    split
    · rename_i hsame
      have hfalse : (restore s).restored = false := hsame.symm
      rw [← hfalse]
    · rfl
  rw [hrestored]
  refine Inv.writeBack hlog (fun hr => (by cases hr)) fun r hr hlive => ?_
  rcases List.mem_append.1 hr with hr | hr
  · obtain ⟨_, _, rfl⟩ := List.mem_map.1 hr
    cases hlive
  · obtain ⟨account, haccount, rfl⟩ := Option.map_eq_some_iff.1 (Option.mem_toList.1 hr)
    exact haccount

theorem inv_step (default : κ) (h : Inv s) (e : Event κ) : Inv (step default s e) := by
  cases e with
  | session account =>
    simp only [step]
    split
    · exact Inv.writeBack h.readFirst h.restored h.live
    · exact inv_restore (s := { s with account }) h.readFirst
  | render settings => exact Inv.writeBack (s := { s with settings }) h.readFirst h.restored h.live
  | read i result =>
    simp only [step]
    split
    · exact h
    · rename_i r hr
      have hrest : Inv { s with reads := s.reads.eraseIdx i } :=
        ⟨h.readFirst, h.timer, h.restored, fun x hx => h.live x (List.mem_of_mem_eraseIdx hx)⟩
      exact hrest.endRead default (h.live r (List.mem_of_getElem? hr)) result
  | fire =>
    simp only [step]
    split
    · exact h
    · rename_i account data htimer
      obtain ⟨hrestored, haccount⟩ := h.timer _ htimer
      exact ⟨⟨h.restored hrestored account haccount, h.readFirst⟩, fun x hx => (by cases hx),
        h.restored, h.live⟩
  | answered i ok =>
    simp only [step]
    split
    · exact h
    · split
      · exact ⟨h.readFirst, h.timer, h.restored, h.live⟩
      · exact ⟨h.readFirst, h.timer, h.restored, h.live⟩

theorem inv_init (account : Option Account) (settings : κ) : Inv (State.init account settings) := by
  refine Inv.writeBack trivial (fun hr => (by cases hr)) fun r hr _ => ?_
  obtain ⟨a, ha, rfl⟩ := Option.map_eq_some_iff.1 (Option.mem_toList.1 hr)
  exact ha

/-- Whatever sessions come and go, no write precedes the read of its sign-in. -/
theorem readFirst_run (default : κ) (account : Option Account) (settings : κ)
    (es : List (Event κ)) : ReadFirst (run (step default) (State.init account settings) es).log :=
  (run_kept (I := Inv) (fun _ e h => inv_step default h e) (inv_init account settings) es).readFirst

end Atradio.Web.AudioRestore
