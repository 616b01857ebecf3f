import Mathlib.Tactic.Ring
import Atradio.Lib.Run
import Atradio.Cli.Grpc

/-! # The volume of a controlled instance

A controller, its RPC channel and the instance it drives. `bump_volume` is not one step: the watch
loop may run between its reading the mirror, writing it, counting the command and queueing it. -/

namespace Atradio.Cli
open Atradio.Audio Atradio.Connect Atradio.Lib

/-- The loop that owns a player: what a command makes of it, and what it reports. -/
structure Instance where
  σ : Type
  apply : σ → GrpcCmd → σ
  report : σ → GrpcState
  volume_set : ∀ s v, (report (apply s (.remote (.setVolume v)))).wire.volume = clampVolume v

/-- Where a call of `bump_volume` stands: the volume computed, shown in the mirror, counted. -/
inductive Bump where
  | computed (next : ℚ)
  | shown (v : ℚ)
  | counted (v : ℚ)

/-- The RPC that `command_loop` awaits. -/
inductive Rpc where
  | idle
  | sent (cmd : Cmd)
  | served

/-- A state taken from the instance, after `applied` of the commands. -/
structure Snapshot where
  state : GrpcState
  applied : ℕ

/-- `bumps` counts the calls, `shown` the edits of the mirror, `applied` the commands that have
reached the player. -/
structure Link (N : Instance) where
  remote : GrpcRemote
  bump : Option Bump
  rpc : Rpc
  queue : List GrpcCmd
  state : N.σ
  watch : Snapshot
  stream : List Snapshot
  bumps : ℕ
  shown : ℕ
  applied : ℕ

inductive LinkEvent where
  | read
  | edit
  | count
  | enqueue
  | call
  | serve
  | answer
  | apply
  | publish
  | snapshot
  | deliver

namespace Link

variable {N : Instance} (delta : ℚ)

def step (l : Link N) : LinkEvent → Link N
  | .read =>
    match l.bump with
    | none => { l with bump := some (.computed (l.remote.nextVolume delta)), bumps := l.bumps + 1 }
    | _ => l
  | .edit =>
    match l.bump with
    | some (.computed next) =>
      let v := clampVolume next
      { l with remote := l.remote.editVolume v, bump := some (.shown v), shown := l.shown + 1 }
    | _ => l
  | .count =>
    match l.bump with
    | some (.shown v) => { l with remote := l.remote.countUp, bump := some (.counted v) }
    | _ => l
  | .enqueue =>
    match l.bump with
    | some (.counted v) => { l with remote := l.remote.enqueue (.setVolume v), bump := none }
    | _ => l
  | .call =>
    match l.rpc, l.remote.cmds with
    | .idle, cmd :: cmds => { l with remote := { l.remote with cmds }, rpc := .sent cmd }
    | _, _ => l
  | .serve =>
    match l.rpc with
    | .sent cmd => { l with queue := l.queue ++ [cmd.forward], rpc := .served }
    | _ => l
  | .answer =>
    match l.rpc with
    | .served => { l with remote := l.remote.answered, rpc := .idle }
    | _ => l
  | .apply =>
    match l.queue with
    | cmd :: queue =>
      { l with queue, state := N.apply l.state cmd, applied := l.applied + 1 }
    | [] => l
  | .publish => { l with watch := ⟨N.report l.state, l.applied⟩ }
  | .snapshot => { l with stream := l.stream ++ [l.watch] }
  | .deliver =>
    match l.stream with
    | snap :: stream => { l with remote := l.remote.watched snap.state, stream }
    | [] => l

/-- `connect`: the mirror is what `GetState` answers. -/
def connect (s : N.σ) : Link N where
  remote :=
    { mirror := applyState Mirror.default (stateSent (N.report s)) true
      lists := ⟨[], [], []⟩
      cmds := []
      pending := 0 }
  bump := none
  rpc := .idle
  queue := []
  state := s
  watch := ⟨N.report s, 0⟩
  stream := []
  bumps := 0
  shown := 0
  applied := 0

def mirrored (l : Link N) : ℚ := l.remote.mirror.wire.volume

def volume (l : Link N) : ℚ := (N.report l.state).wire.volume

/-- The commands on their way to the player, the next one first. -/
def onWay (l : Link N) : List GrpcCmd :=
  l.queue ++ (match l.rpc with | .sent cmd => [cmd.forward] | _ => []) ++
    l.remote.cmds.map Cmd.forward ++
    (match l.bump with
    | some (.shown v) | some (.counted v) => [.remote (.setVolume (clampVolume v))]
    | _ => [])

/-- Every bump called for has reached the player. -/
def AllApplied (l : Link N) : Prop := l.applied = l.bumps

/-- The mirror shows every edit made to it, so it is back at no volume the instance had before one
of them; and bumps add up. -/
structure Kept (start : ℚ) (l : Link N) : Prop where
  mirror : l.mirrored = start + l.shown * delta
  total : l.AllApplied → l.volume = start + l.bumps * delta

/-- Volumes stay inside the range; and a snapshot that arrives while no command is pending was taken
after all that the mirror shows had been applied. -/
def Guarded (l : Link N) : LinkEvent → Prop
  | .read => 0 < l.mirrored + delta ∧ l.mirrored + delta < 1
  | .deliver => l.remote.pending = 0 → ∀ snap ∈ l.stream.head?, snap.applied = l.shown
  | _ => True

instance (l : Link N) : (e : LinkEvent) → Decidable (Guarded delta l e)
  | .read => inferInstanceAs (Decidable (_ ∧ _))
  | .deliver => inferInstanceAs (Decidable (_ → ∀ snap ∈ l.stream.head?, snap.applied = l.shown))
  | .edit | .count | .enqueue | .call | .serve | .answer | .apply | .publish | .snapshot =>
    isTrue trivial

variable {delta}

/-! ### The commands on their way -/

/-- The volume after `k` bumps. -/
def after (start delta : ℚ) (k : ℕ) : ℚ := start + k * delta

def asked (start delta : ℚ) (k : ℕ) : GrpcCmd := .remote (.setVolume (after start delta k))

/-- The commands ask for the volumes of the bumps behind the `a`-th up to the `b`-th. -/
def Requests (start delta : ℚ) : ℕ → List GrpcCmd → ℕ → Prop
  | a, [], b => a = b
  | a, cmd :: cmds, b => cmd = asked start delta (a + 1) ∧ Requests start delta (a + 1) cmds b

theorem Requests.concat {start : ℚ} {a b : ℕ} {cmds : List GrpcCmd}
    (h : Requests start delta a cmds b) :
    Requests start delta a (cmds ++ [asked start delta (b + 1)]) (b + 1) := by
  induction cmds generalizing a with
  | nil =>
    cases h
    exact ⟨rfl, rfl⟩
  | cons cmd cmds ih => exact ⟨h.1, ih h.2⟩

/-- What a call of `bump_volume` has computed or shown. -/
def Bump.Good (start delta : ℚ) (shown bumps : ℕ) : Option Bump → Prop
  | none => bumps = shown
  | some (.computed next) => next = after start delta (shown + 1) ∧ bumps = shown + 1
  | some (.shown v) | some (.counted v) => v = after start delta shown ∧ bumps = shown

structure Inv (start delta : ℚ) (l : Link N) : Prop where
  mirror : l.mirrored = after start delta l.shown
  bump : Bump.Good start delta l.shown l.bumps l.bump
  requests : Requests start delta l.applied l.onWay l.shown
  volume : l.volume = after start delta l.applied
  snapshots : ∀ snap ∈ l.watch :: l.stream, snap.state.wire.volume = after start delta snap.applied
  inside : ∀ k, 0 < k → k ≤ l.bumps → clampVolume (after start delta k) = after start delta k

theorem inv_connect (s : N.σ) : Inv (N.report s).wire.volume delta (connect s) := by
  have hzero : (N.report s).wire.volume = after (N.report s).wire.volume delta 0 := by
    simp [after]
  refine ⟨hzero, rfl, rfl, hzero, fun snap hsnap => ?_, fun k hk hle => ?_⟩
  · rw [connect, List.mem_singleton] at hsnap
    rw [hsnap]
    exact hzero
  · exact absurd hk (Nat.not_lt.2 hle)

theorem after_succ (start delta : ℚ) (k : ℕ) :
    after start delta (k + 1) = after start delta k + delta := by
  simp only [after, Nat.cast_add, Nat.cast_one]
  ring

section Steps

variable {start : ℚ} {l : Link N}

theorem inv_read (h : Inv start delta l) (hg : Guarded delta l .read) :
    Inv start delta (l.step delta .read) := by
  rw [step.eq_def]
  cases hbump : l.bump with
  | some b => exact h
  | none =>
    have hcount : l.bumps = l.shown := by
      have hb := h.bump
      rw [hbump] at hb
      exact hb
    have hnext : l.mirrored + delta = after start delta (l.shown + 1) := by
      rw [h.mirror, after_succ]
    have hclamp : clampVolume (after start delta (l.shown + 1)) = after start delta (l.shown + 1) :=
      clampVolume_inside ⟨hnext ▸ hg.1.le, hnext ▸ hg.2.le⟩
    refine ⟨h.mirror, ⟨?_, congrArg (· + 1) hcount⟩, ?_, h.volume, h.snapshots, fun k hk hle => ?_⟩
    · have hcomputed : l.remote.nextVolume delta = clampVolume (l.mirrored + delta) := rfl
      rw [hcomputed, hnext, hclamp]
    · have hreq := h.requests
      unfold onWay at hreq ⊢
      rw [hbump] at hreq
      exact hreq
    · rcases Nat.lt_or_ge l.bumps k with hlt | hge
      · obtain rfl : k = l.shown + 1 := by
          simp only at hle
          omega
        exact hclamp
      · exact h.inside k hk hge

theorem inv_edit (h : Inv start delta l) : Inv start delta (l.step delta .edit) := by
  rw [step.eq_def]
  cases hbump : l.bump with
  | none => exact h
  | some b =>
    cases b with
    | shown v => exact h
    | counted v => exact h
    | computed next =>
      obtain ⟨rfl, hcount⟩ : next = after start delta (l.shown + 1) ∧ l.bumps = l.shown + 1 := by
        have hb := h.bump
        rw [hbump] at hb
        exact hb
      have hclamp := h.inside (l.shown + 1) (Nat.succ_pos _) (Nat.le_of_eq hcount.symm)
      refine ⟨hclamp, ⟨hclamp, hcount⟩, ?_, h.volume, h.snapshots, h.inside⟩
      have hreq := h.requests.concat
      unfold onWay at hreq ⊢
      rw [hbump, List.append_nil] at hreq
      simp only [hclamp]
      exact hreq

theorem inv_count (h : Inv start delta l) : Inv start delta (l.step delta .count) := by
  rw [step.eq_def]
  cases hbump : l.bump with
  | none => exact h
  | some b =>
    cases b with
    | computed next => exact h
    | counted v => exact h
    | shown v =>
      have hb := h.bump
      have hreq := h.requests
      unfold onWay at hreq
      rw [hbump] at hb hreq
      exact ⟨h.mirror, hb, hreq, h.volume, h.snapshots, h.inside⟩

theorem inv_enqueue (h : Inv start delta l) : Inv start delta (l.step delta .enqueue) := by
  rw [step.eq_def]
  cases hbump : l.bump with
  | none => exact h
  | some b =>
    cases b with
    | computed next => exact h
    | shown v => exact h
    | counted v =>
      have hb := h.bump
      have hreq := h.requests
      unfold onWay at hreq
      rw [hbump] at hb hreq
      refine ⟨h.mirror, hb.2, ?_, h.volume, h.snapshots, h.inside⟩
      unfold onWay
      simp only [GrpcRemote.enqueue, List.map_append, List.map_singleton, List.append_nil,
        ← List.append_assoc]
      exact hreq

theorem inv_call (h : Inv start delta l) : Inv start delta (l.step delta .call) := by
  rw [step.eq_def]
  cases hrpc : l.rpc with
  | sent cmd => exact h
  | served => exact h
  | idle =>
    cases hcmds : l.remote.cmds with
    | nil => exact h
    | cons cmd cmds =>
      refine ⟨h.mirror, h.bump, ?_, h.volume, h.snapshots, h.inside⟩
      have hreq := h.requests
      unfold onWay at hreq ⊢
      rw [hrpc, hcmds, List.append_nil, List.map_cons] at hreq
      simp only [List.append_assoc, List.cons_append, List.nil_append] at hreq ⊢
      exact hreq

theorem inv_serve (h : Inv start delta l) : Inv start delta (l.step delta .serve) := by
  rw [step.eq_def]
  cases hrpc : l.rpc with
  | idle => exact h
  | served => exact h
  | sent cmd =>
    refine ⟨h.mirror, h.bump, ?_, h.volume, h.snapshots, h.inside⟩
    have hreq := h.requests
    unfold onWay at hreq ⊢
    rw [hrpc] at hreq
    rw [List.append_nil]
    exact hreq

theorem inv_answer (h : Inv start delta l) : Inv start delta (l.step delta .answer) := by
  rw [step.eq_def]
  cases hrpc : l.rpc with
  | idle => exact h
  | sent cmd => exact h
  | served =>
    refine ⟨h.mirror, h.bump, ?_, h.volume, h.snapshots, h.inside⟩
    have hreq := h.requests
    unfold onWay at hreq ⊢
    rw [hrpc] at hreq
    exact hreq

theorem applied_le {a b : ℕ} {cmds : List GrpcCmd} (h : Requests start delta a cmds b) : a ≤ b := by
  induction cmds generalizing a with
  | nil => exact Nat.le_of_eq h
  | cons cmd cmds ih => exact Nat.le_of_succ_le (ih h.2)

theorem shown_le (h : Inv start delta l) : l.shown ≤ l.bumps := by
  have hb := h.bump
  cases hbump : l.bump with
  | none =>
    rw [hbump] at hb
    exact Nat.le_of_eq hb.symm
  | some b =>
    rw [hbump] at hb
    cases b with
    | computed next => exact hb.2 ▸ Nat.le_succ _
    | shown v => exact Nat.le_of_eq hb.2.symm
    | counted v => exact Nat.le_of_eq hb.2.symm

theorem inv_apply (h : Inv start delta l) : Inv start delta (l.step delta .apply) := by
  rw [step.eq_def]
  cases hqueue : l.queue with
  | nil => exact h
  | cons cmd queue =>
    have hreq := h.requests
    unfold onWay at hreq
    rw [hqueue] at hreq
    obtain ⟨rfl, hrest⟩ := hreq
    have hclamp := h.inside (l.applied + 1) (Nat.succ_pos _)
      (Nat.le_trans (applied_le hrest) (shown_le h))
    exact ⟨h.mirror, h.bump, hrest, (N.volume_set ..).trans hclamp, h.snapshots, h.inside⟩

theorem inv_publish (h : Inv start delta l) : Inv start delta (l.step delta .publish) := by
  refine ⟨h.mirror, h.bump, h.requests, h.volume, fun snap hsnap => ?_, h.inside⟩
  rcases List.mem_cons.1 hsnap with rfl | hsnap
  · exact h.volume
  · exact h.snapshots snap (List.mem_cons_of_mem _ hsnap)

theorem inv_snapshot (h : Inv start delta l) : Inv start delta (l.step delta .snapshot) := by
  refine ⟨h.mirror, h.bump, h.requests, h.volume, fun snap hsnap => ?_, h.inside⟩
  refine h.snapshots snap ?_
  rcases List.mem_cons.1 hsnap with rfl | hsnap
  · exact List.mem_cons_self ..
  · rcases List.mem_append.1 hsnap with hsnap | hsnap
    · exact List.mem_cons_of_mem _ hsnap
    · rw [List.mem_singleton.1 hsnap]
      exact List.mem_cons_self ..

/-- A snapshot shows its volume where nothing is pending, and changes no volume elsewhere. -/
theorem watched_volume (r : GrpcRemote) (state : GrpcState) :
    (r.watched state).mirror.wire.volume =
      if r.pending = 0 then state.wire.volume else r.mirror.wire.volume := by
  unfold GrpcRemote.watched GrpcRemote.edit applyState
  by_cases hp : r.pending = 0 <;> simp [hp, stateSent]

theorem inv_deliver (h : Inv start delta l) (hg : Guarded delta l .deliver) :
    Inv start delta (l.step delta .deliver) := by
  rw [step.eq_def]
  cases hstream : l.stream with
  | nil => exact h
  | cons snap stream =>
    have hsnaps := h.snapshots
    rw [hstream] at hsnaps
    refine ⟨?_, h.bump, h.requests, h.volume, fun s hs => ?_, h.inside⟩
    · have hvolume := watched_volume l.remote snap.state
      refine hvolume.trans ?_
      split
      · rename_i hpending
        have hall := hg hpending snap (by rw [hstream]; rfl)
        rw [hsnaps snap (by simp), hall]
      · exact h.mirror
    · refine hsnaps s ?_
      rcases List.mem_cons.1 hs with rfl | hs
      · exact List.mem_cons_self ..
      · exact List.mem_cons_of_mem _ (List.mem_cons_of_mem _ hs)

theorem inv_step (h : Inv start delta l) (e : LinkEvent) (hg : Guarded delta l e) :
    Inv start delta (l.step delta e) := by
  cases e with
  | read => exact inv_read h hg
  | edit => exact inv_edit h
  | count => exact inv_count h
  | enqueue => exact inv_enqueue h
  | call => exact inv_call h
  | serve => exact inv_serve h
  | answer => exact inv_answer h
  | apply => exact inv_apply h
  | publish => exact inv_publish h
  | snapshot => exact inv_snapshot h
  | deliver => exact inv_deliver h hg

theorem kept_of_inv (h : Inv start delta l) : Kept delta start l :=
  ⟨h.mirror, fun hall => by rw [h.volume, hall]; rfl⟩

end Steps

theorem kept_of_guarded (s : N.σ) (es : List LinkEvent)
    (hg : AllSteps (step delta) (Guarded delta) (connect s) es) :
    Kept delta (N.report s).wire.volume (run (step delta) (connect s) es) :=
  kept_of_inv (run_invariant (G := Guarded delta) (fun _ e hI hG => inv_step hI e hG) (inv_connect s) hg)

/-- One call of `bump_volume`, and the way of its command into the queue of the instance. -/
def bumpAnswered : List LinkEvent := [.read, .edit, .count, .enqueue, .call, .serve, .answer]

end Link

/-- An instance at half its volume, as far as volumes go. -/
def sampleInstance : Instance where
  σ := WireState
  apply s cmd :=
    match cmd with
    | .remote (.setVolume v) => { s with volume := clampVolume v, muted := v ≤ 0 }
    | _ => s
  report s := ⟨s, AudioSettings.default, 0, [], none, false⟩
  volume_set _ _ := rfl

def sampleStart : sampleInstance.σ := { WireState.default with volume := 1 / 2 }

namespace Link

theorem two_bumps_kept : Kept (1 / 10) (1 / 2) (run (step (1 / 10))
    (connect (N := sampleInstance) sampleStart)
    (bumpAnswered ++ [.apply, .publish, .snapshot, .deliver] ++ bumpAnswered ++ [.apply])) :=
  kept_of_guarded sampleStart _ (by decide +kernel)

/-- The answer comes before the command is applied, and a state from before it comes after. -/
theorem stale_bump_lost : ¬ Kept (1 / 10) (1 / 2) (run (step (1 / 10))
    (connect (N := sampleInstance) sampleStart)
    (bumpAnswered ++ [.snapshot, .deliver] ++ bumpAnswered ++ [.apply, .apply])) :=
  fun h => absurd (h.total rfl) (by decide +kernel)

end Link

end Atradio.Cli
