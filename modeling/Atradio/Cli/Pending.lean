import Atradio.Cli.Grpc
import Atradio.Lib.Run

/-! # What is pending (`grpc/client.rs`)

The UI thread edits the mirror, counts a command and queues it; `command_loop` takes the commands
one after the other and counts each down when its RPC has ended. The steps of the two interleave,
and the receiving end of the channel may be gone at any of them. -/

namespace Atradio.Cli
open Atradio.Audio Atradio.Connect Atradio.Lib

/-- Whether `command_loop` takes the command for a state edit. -/
def Cmd.counts : Cmd → Bool
  | .listStations _ => false
  | _ => true

/-- What `send` is called with. -/
abbrev StateEdit := { cmd : Cmd // cmd.counts = true }

/-- The control calls of the handle. -/
inductive ControlCall where
  | setConnectTarget (deviceId : Option String)
  | playPause
  | stop
  | toggleMute
  | setVolume (v : ℚ)
  | bumpVolume (delta : ℚ)
  | loadStation (station : StationLite)
  | adjustDspRow (row : ℕ) (dir : ℤ)
  | favorite (station : StationLite)
  | comment (station : StationLite) (text : String)

def GrpcRemote.call (r : GrpcRemote) : ControlCall → GrpcRemote
  | .setConnectTarget deviceId => r.setConnectTarget deviceId
  | .playPause => r.playPause
  | .stop => r.stop
  | .toggleMute => r.toggleMute
  | .setVolume v => r.setVolume v
  | .bumpVolume delta => r.bumpVolume delta
  | .loadStation station => r.loadStation station
  | .adjustDspRow row dir => r.adjustDspRow row dir
  | .favorite station => r.favorite station
  | .comment station text => r.comment station text

/-- The command of a call. -/
def ControlCall.edit (r : GrpcRemote) : ControlCall → StateEdit
  | .setConnectTarget deviceId => ⟨.setConnectTarget deviceId, rfl⟩
  | .playPause => ⟨.playPause, rfl⟩
  | .stop => ⟨.stop, rfl⟩
  | .toggleMute => ⟨.toggleMute, rfl⟩
  | .setVolume v => ⟨.setVolume (clampVolume v), rfl⟩
  | .bumpVolume delta => ⟨.setVolume (clampVolume (r.nextVolume delta)), rfl⟩
  | .loadStation station => ⟨.loadStation station, rfl⟩
  | .adjustDspRow row dir => ⟨.adjustDspRow row dir, rfl⟩
  | .favorite station => ⟨.favorite station, rfl⟩
  | .comment station text => ⟨.comment station text, rfl⟩

/-- A call with its command neither counted nor queued. -/
def ControlCall.shown (r : GrpcRemote) (call : ControlCall) : GrpcRemote :=
  { r with mirror := (r.call call).mirror }

theorem call_eq (r : GrpcRemote) (call : ControlCall) :
    r.call call = (call.shown r).send (call.edit r).1 := by
  cases call <;> rfl

/-- `fetch_sub(1)` on a `usize`. The commands counted are in memory, fewer than 2 ^ 64. -/
def GrpcRemote.countDown (r : GrpcRemote) : GrpcRemote :=
  { r with pending := if r.pending = 0 then 2 ^ 64 - 1 else r.pending - 1 }

theorem countDown_eq_answered {r : GrpcRemote} (h : r.pending ≠ 0) : r.countDown = r.answered := by
  rw [GrpcRemote.countDown, if_neg h]
  rfl

/-- Where a call of the UI thread stands. -/
inductive CallStage where
  | shown (edit : StateEdit)
  | counted (edit : StateEdit)
  /-- Counted, and the channel found closed. -/
  | refused

/-- The call is between the counting and the queueing. -/
def CallStage.between : CallStage → ℕ
  | .shown _ => 0
  | .counted _ | .refused => 1

/-- The handle with its two threads: where the call of the UI thread stands, the command that the
loop has taken, and those that were queued when the channel was closed. -/
structure Control where
  remote : GrpcRemote
  ui : Option CallStage
  taken : Option Cmd
  closed : Bool
  lost : List Cmd

inductive ControlEvent where
  | call (call : ControlCall)
  | count
  | queue
  | uncount
  /-- One of the three commands of `request_lists`. -/
  | list (source : StationSource)
  | recv
  /-- The RPC of the command taken ends, with the stations if it was a list. -/
  | answer (result : Except String (List StationLite))
  | watch (state : GrpcState)
  | close

def GrpcRemote.fetched (r : GrpcRemote) (source : StationSource) :
    Except String (List StationLite) → GrpcRemote
  | .ok stations =>
    match source with
    | .favorites => { r with lists := { r.lists with favorites := stations } }
    | .stations => { r with lists := { r.lists with stations } }
    | .recent => { r with lists := { r.lists with recent := stations } }
  | .error status => r.edit fun m => { m with connError := some ("list failed: " ++ status) }

def GrpcRemote.done (r : GrpcRemote) : Except String (List StationLite) → GrpcRemote
  | .ok _ => r.countDown
  | .error status =>
    r.countDown.edit fun m => { m with connError := some ("rpc failed: " ++ status) }

namespace Control

def init (mirror : Mirror) : Control where
  remote := ⟨mirror, ⟨[], [], []⟩, [], 0⟩
  ui := none
  taken := none
  closed := false
  lost := []

def step (c : Control) : ControlEvent → Control
  | .call call =>
    match c.ui with
    | none =>
      { c with remote := call.shown c.remote, ui := some (.shown (call.edit c.remote)) }
    | _ => c
  | .count =>
    match c.ui with
    | some (.shown edit) => { c with remote := c.remote.countUp, ui := some (.counted edit) }
    | _ => c
  | .queue =>
    match c.ui with
    | some (.counted edit) =>
      if c.closed then { c with ui := some .refused }
      else { c with remote := c.remote.enqueue edit.1, ui := none }
    | _ => c
  | .uncount =>
    match c.ui with
    | some .refused => { c with remote := c.remote.countDown, ui := none }
    | _ => c
  | .list source =>
    match c.ui with
    | none =>
      if c.closed then c else { c with remote := c.remote.enqueue (.listStations source) }
    | _ => c
  | .recv =>
    match c.closed, c.taken, c.remote.cmds with
    | false, none, cmd :: cmds =>
      { c with remote := { c.remote with cmds }, taken := some cmd }
    | _, _, _ => c
  | .answer result =>
    match c.taken with
    | some (.listStations source) =>
      { c with remote := c.remote.fetched source result, taken := none }
    | some _ => { c with remote := c.remote.done result, taken := none }
    | none => c
  | .watch state => { c with remote := c.remote.watched state }
  | .close =>
    { c with
      remote := { c.remote with cmds := [] }
      taken := none
      closed := true
      lost := c.lost ++ c.taken.toList ++ c.remote.cmds }

/-- The commands queued whose RPC has not ended. -/
def queued (c : Control) : List Cmd := c.lost ++ c.taken.toList ++ c.remote.cmds

/-- The state edits among them, and the one between the counting and the queueing. -/
def outstanding (c : Control) : ℕ := c.queued.countP Cmd.counts + c.ui.elim 0 CallStage.between

/-- The step calls `fetch_sub`. -/
def lowers (c : Control) : ControlEvent → Bool
  | .uncount => match c.ui with
    | some .refused => true
    | _ => false
  | .answer _ => c.taken.any Cmd.counts
  | _ => false

/-- The step queues, takes or ends the fetch of a list. -/
def fetches (c : Control) : ControlEvent → Bool
  | .list _ => true
  | .recv => c.remote.cmds.head?.any fun cmd => !cmd.counts
  | .answer _ => c.taken.any fun cmd => !cmd.counts
  | _ => false

/-! ### The counter -/

def Exact (c : Control) : Prop := c.remote.pending = c.outstanding

theorem exact_iff {c : Control} : c.Exact ↔ c.remote.pending =
    c.lost.countP Cmd.counts + c.taken.toList.countP Cmd.counts +
      c.remote.cmds.countP Cmd.counts + c.ui.elim 0 CallStage.between := by
  rw [Exact, outstanding, queued, List.countP_append, List.countP_append]

variable {c : Control}

theorem pending_pos (h : c.Exact) {e : ControlEvent} (he : c.lowers e = true) :
    c.remote.pending ≠ 0 := by
  rw [exact_iff] at h
  unfold lowers at he
  split at he
  · split at he
    · rename_i hui
      rw [hui, Option.elim_some, CallStage.between] at h
      omega
    · cases he
  · cases htaken : c.taken with
    | none =>
      rw [htaken] at he
      cases he
    | some cmd =>
      rw [htaken, Option.any_some] at he
      rw [htaken, Option.toList_some, List.countP_singleton, if_pos he] at h
      omega
  · cases he

theorem fetched_remote (r : GrpcRemote) (source : StationSource)
    (result : Except String (List StationLite)) :
    (r.fetched source result).pending = r.pending ∧ (r.fetched source result).cmds = r.cmds := by
  cases result with
  | ok stations => cases source <;> exact ⟨rfl, rfl⟩
  | error status => exact ⟨rfl, rfl⟩

theorem done_remote {r : GrpcRemote} (h : r.pending ≠ 0)
    (result : Except String (List StationLite)) :
    (r.done result).pending = r.pending - 1 ∧ (r.done result).cmds = r.cmds := by
  cases result <;> exact ⟨if_neg h, rfl⟩

theorem exact_answer (h : c.Exact) (result : Except String (List StationLite)) :
    (c.step (.answer result)).Exact := by
  have hlowers := pending_pos h (e := .answer result)
  simp only [step]
  rw [exact_iff] at h
  split
  · rename_i source htaken
    obtain ⟨hpending, hcmds⟩ := fetched_remote c.remote source result
    rw [exact_iff]
    simp only [hpending, hcmds, Option.toList_none, List.countP_nil]
    rw [htaken, Option.toList_some, List.countP_singleton, if_neg nofun] at h
    exact h
  · rename_i cmd hcmd htaken
    have hcounts : cmd.counts = true := by
      cases cmd with
      | listStations source => exact (hcmd source rfl).elim
      | _ => rfl
    have hne := hlowers (by simp only [lowers, htaken, Option.any_some, hcounts])
    obtain ⟨hpending, hcmds⟩ := done_remote hne result
    rw [htaken, Option.toList_some, List.countP_singleton, if_pos hcounts] at h
    rw [exact_iff]
    simp only [hpending, hcmds, Option.toList_none, List.countP_nil]
    omega
  · exact exact_iff.2 h

theorem exact_step (h : c.Exact) (e : ControlEvent) : (c.step e).Exact := by
  have hlowers := pending_pos h (e := e)
  rw [exact_iff] at h ⊢
  cases e with
  | call call =>
    simp only [step]
    split
    · rename_i hui
      rw [hui] at h
      exact h
    · exact h
  | count =>
    simp only [step]
    split
    · rename_i edit hui
      rw [hui] at h
      exact congrArg (· + 1) h
    · exact h
  | queue =>
    simp only [step]
    split
    · rename_i edit hui
      rw [hui] at h
      split
      · exact h
      · have hcount : (c.remote.cmds ++ [edit.1]).countP Cmd.counts =
            c.remote.cmds.countP Cmd.counts + 1 := by
          rw [List.countP_append, List.countP_singleton, if_pos edit.2]
        simp only [GrpcRemote.enqueue, hcount]
        exact h
    · exact h
  | uncount =>
    simp only [step]
    split
    · rename_i hui
      have hne := hlowers (by simp only [lowers, hui])
      have hpending : c.remote.countDown.pending = c.remote.pending - 1 := if_neg hne
      have hcmds : c.remote.countDown.cmds = c.remote.cmds := rfl
      rw [hui, Option.elim_some, CallStage.between] at h
      simp only [hpending, hcmds, Option.elim_none]
      omega
    · exact h
  | list source =>
    simp only [step]
    split
    · split
      · exact h
      · simp only [GrpcRemote.enqueue, List.countP_append]
        exact h
    · exact h
  | recv =>
    simp only [step]
    split
    · rename_i htaken hcmds
      rw [htaken, hcmds] at h
      simp only [Option.toList_none, List.countP_nil, List.countP_cons] at h
      simp only [Option.toList_some, List.countP_singleton]
      omega
    · exact h
  | answer result => exact exact_iff.1 (exact_answer (exact_iff.2 h) result)
  | watch state => exact h
  | close =>
    simp only [step, List.countP_append]
    exact h

theorem fetch_step (e : ControlEvent) (he : c.fetches e = true) :
    (c.step e).remote.pending = c.remote.pending := by
  cases e with
  | list source =>
    simp only [step]
    split
    · split <;> rfl
    · rfl
  | recv =>
    simp only [step]
    split <;> rfl
  | answer result =>
    simp only [step]
    split
    · exact (fetched_remote c.remote _ result).1
    · rename_i cmd hcmd htaken
      simp only [fetches, htaken, Option.any_some] at he
      cases cmd with
      | listStations source => exact (hcmd source rfl).elim
      | _ => cases he
    · rfl
  | _ => cases he

/-- However the UI thread and the loop interleave, `pending` is the number of state edits that are
outstanding; it is never counted down from zero, and the fetch of a list leaves it alone. -/
theorem pending_exact (mirror : Mirror) (es : List ControlEvent) :
    (run step (init mirror) es).remote.pending = (run step (init mirror) es).outstanding ∧
      AllSteps step (fun c e => (c.lowers e = true → c.remote.pending ≠ 0) ∧
        (c.fetches e = true → (c.step e).remote.pending = c.remote.pending)) (init mirror) es := by
  have hinit : (init mirror).Exact := rfl
  refine ⟨run_kept (I := Exact) (fun _ e h => exact_step h e) hinit es, ?_⟩
  refine allSteps_of_invariant (G := fun _ _ => True) (I := Exact) (fun _ e h _ => exact_step h e)
    (fun c e h _ => ⟨pending_pos h, fetch_step e⟩) hinit ?_
  exact allSteps_of_forall fun _ _ => trivial

end Control

end Atradio.Cli
