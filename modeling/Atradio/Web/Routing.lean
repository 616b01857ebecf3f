import Atradio.Web.ConnectClient
import Atradio.Web.Player

/-! # Where the actions of a page go

A page is its player and the Connect client of its session; what the client tells its handlers
changes the atoms. -/

namespace Atradio.Web
open Atradio.Connect Atradio.Lexicons Atradio.Lib

structure Page where
  player : Player
  client : Option ConnectClient

/-- `client e` is what befalls the client of the session. -/
inductive PageEvent where
  | session (signedIn constructs : Bool)
  | client (e : ClientEvent)
  | transport (action : Transport)
  | selectDevice (deviceId : Option String)
  | setIsPlaying (playing : Bool)
  | handOff

/-- The handlers of `ConnectProvider` that change the player. -/
def Player.handle (p : Player) : Act → Player
  | .onDevices devices => { p with devices }
  | .onCommand _ cmd => p.applyCommand cmd
  | _ => p

/-- The commands that a client has sent, the latest first. -/
def ConnectClient.commands (c : ConnectClient) : List (String × Command) :=
  c.acts.filterMap fun
    | .frame _ (.command target cmd) => some (target, cmd)
    | _ => none

def ConnectClient.online (c : ConnectClient) : Bool :=
  c.ws.any fun id => c.ready id = .OPEN

namespace Page

def init (volume : ℚ) (muted : Bool) : Page := ⟨.new volume muted, none⟩

/-- `getConnectClient()?.command(target, cmd)` -/
def command (w : Page) (target : String) (cmd : Command) : Page :=
  { w with client := w.client.map fun c => c.send (.command target cmd) }

def apply (w : Page) (done : Player × Option (String × Command)) : Page :=
  match done.2 with
  | none => { w with player := done.1 }
  | some (target, cmd) => { w with player := done.1 }.command target cmd

def step (device : DeviceOptions) (w : Page) : PageEvent → Page
  | .session signedIn constructs =>
    -- the client before is stopped, and tells the player nothing any more
    if signedIn then { w with client := some (ConnectClient.new.start constructs) }
    else ⟨{ w.player with devices := [] }, none⟩
  | .client e =>
    match w.client with
    | none => w
    | some c =>
      let c' := c.step device e
      let told := (c'.acts.take (c'.acts.length - c.acts.length)).reverse
      ⟨told.foldl Player.handle w.player, some c'⟩
  | .transport action => w.apply (w.player.transport action)
  | .selectDevice deviceId => w.apply (w.player.selectDevice deviceId)
  | .setIsPlaying playing => { w with player := { w.player with isPlaying := playing } }
  | .handOff =>
    if w.player.isRemoteActive then { w with player := { w.player with isPlaying := false } } else w

def sent (w : Page) : List (String × Command) :=
  match w.client with
  | none => []
  | some c => c.commands

def online (w : Page) : Bool := w.client.any (·.online)

/-- An action is sent to the device that is controlled, if there is one, and else done here. -/
def Routed (device : DeviceOptions) (w : Page) (action : Transport) : Prop :=
  let w' := w.step device (.transport action)
  w'.sent = (w.player.remoteTarget.map fun d => (d.id, Player.remotely action)).toList ++ w.sent ∧
    w'.player = if w.player.isRemoteActive then w.player else w.player.locally action

/-- The action would not change anything here. -/
def Settled (w : Page) : Transport → Prop
  | .playStation station => w.player.currentStation = some station ∧ w.player.isPlaying = true ∧
    w.player.playbackStatus = .loading
  | .togglePlay => w.player.currentStation = none

/-- No device is chosen; or it is in the roster and the socket is open; or it is gone, but so is the
socket, and there is nothing to do here either. -/
def Aligned (w : Page) (action : Transport) : Prop :=
  chosen w.player.remoteTargetId = none ∨
    w.player.isRemoteActive = true ∧ w.online = true ∨
    w.player.isRemoteActive = false ∧ w.online = false ∧ w.Settled action

theorem commands_send (c : ConnectClient) (target : String) (cmd : Command) :
    (c.send (.command target cmd)).commands =
      if c.online then (target, cmd) :: c.commands else c.commands := by
  unfold ConnectClient.send ConnectClient.online
  cases c.ws with
  | none => rfl
  | some id =>
    by_cases hready : c.ready id = .OPEN
    · simp only [Option.any_some, hready, decide_true, if_true]
      rfl
    · simp only [Option.any_some, hready, decide_false, if_false]
      rfl

theorem sent_command (w : Page) (target : String) (cmd : Command) :
    (w.command target cmd).sent = if w.online then (target, cmd) :: w.sent else w.sent := by
  unfold command sent online
  cases w.client with
  | none => rfl
  | some c => exact commands_send c target cmd

theorem locally_eq_iff (w : Page) (action : Transport) :
    w.player = w.player.locally action ↔ w.Settled action := by
  obtain ⟨⟨station, isPlaying, status, _, _, _, _, _⟩, _⟩ := w
  cases action with
  | playStation station' =>
    unfold Settled Player.locally Player.load
    rw [Player.mk.injEq]
    exact ⟨fun h => ⟨h.1, h.2.1, h.2.2.1⟩, fun h => ⟨h.1, h.2.1, h.2.2, rfl, rfl, rfl, rfl, rfl⟩⟩
  | togglePlay =>
    unfold Settled Player.locally
    cases station with
    | none => exact ⟨fun _ => rfl, fun _ => rfl⟩
    | some station =>
      have hflip : isPlaying ≠ !isPlaying := by cases isPlaying <;> exact nofun
      constructor
      · exact fun h => (hflip (Player.mk.inj h).2.1).elim
      · exact nofun

theorem step_transport (device : DeviceOptions) (w : Page) (action : Transport) :
    w.step device (.transport action) = w.apply (w.player.transport action) := rfl

theorem remoteTarget_id {p : Player} {id : String} {d : DeviceInfo protocol}
    (hchosen : chosen p.remoteTargetId = some id) (hd : p.remoteTarget = some d) : d.id = id := by
  unfold Player.remoteTarget at hd
  rw [hchosen, Option.bind_some] at hd
  have hfound := List.find?_some hd
  rw [Bool.and_eq_true, decide_eq_true_eq] at hfound
  exact hfound.1

section Cases

variable {w : Page} {device : DeviceOptions} {action : Transport} {id : String}

theorem step_remote (device : DeviceOptions) (action : Transport)
    (h : chosen w.player.remoteTargetId = some id) :
    (w.step device (.transport action)).player = w.player ∧
      (w.step device (.transport action)).sent =
        if w.online then (id, Player.remotely action) :: w.sent else w.sent := by
  rw [step_transport, Player.transport_remote h]
  exact ⟨rfl, sent_command w id _⟩

theorem routed_free (h : chosen w.player.remoteTargetId = none) : w.Routed device action := by
  have hnone : w.player.remoteTarget = none := by
    unfold Player.remoteTarget
    rw [h]
    rfl
  unfold Routed
  rw [step_transport, Player.transport_local h, Player.isRemoteActive, hnone]
  exact ⟨rfl, rfl⟩

theorem routed_controlled {d : DeviceInfo protocol} (h : chosen w.player.remoteTargetId = some id)
    (hd : w.player.remoteTarget = some d) : w.Routed device action ↔ w.online = true := by
  obtain ⟨hplayer, hsent⟩ := step_remote device action h
  unfold Routed
  dsimp only
  rw [hplayer, hsent, Player.isRemoteActive, hd, ← remoteTarget_id h hd]
  cases w.online with
  | true => exact ⟨fun _ => rfl, fun _ => ⟨rfl, rfl⟩⟩
  | false => exact ⟨fun hrouted => (List.cons_ne_self _ _ hrouted.1.symm).elim, nofun⟩

theorem routed_gone (h : chosen w.player.remoteTargetId = some id)
    (hd : w.player.remoteTarget = none) :
    w.Routed device action ↔ w.online = false ∧ w.Settled action := by
  obtain ⟨hplayer, hsent⟩ := step_remote device action h
  unfold Routed
  dsimp only
  rw [hplayer, hsent, Player.isRemoteActive, hd]
  cases w.online with
  | true => exact ⟨fun hrouted => (List.cons_ne_self _ _ hrouted.1).elim, nofun⟩
  | false =>
    exact ⟨fun hrouted => ⟨rfl, (locally_eq_iff w action).1 hrouted.2⟩,
      fun hsettled => ⟨rfl, (locally_eq_iff w action).2 hsettled.2⟩⟩

/-- An action goes where the page says if and only if the choice and the roster agree. -/
theorem routed_iff_aligned (device : DeviceOptions) (w : Page) (action : Transport) :
    w.Routed device action ↔ w.Aligned action := by
  unfold Aligned
  cases hchosen : chosen w.player.remoteTargetId with
  | none => exact ⟨fun _ => Or.inl rfl, fun _ => routed_free hchosen⟩
  | some id =>
    cases hd : w.player.remoteTarget with
    | some d =>
      rw [routed_controlled hchosen hd, Player.isRemoteActive, hd]
      simp
    | none =>
      rw [routed_gone hchosen hd, Player.isRemoteActive, hd]
      simp

end Cases

/-- In every state that a page reaches. -/
theorem routed_iff (device : DeviceOptions) (volume : ℚ) (muted : Bool) (es : List PageEvent)
    (action : Transport) :
    (run (step device) (init volume muted) es).Routed device action ↔
      (run (step device) (init volume muted) es).Aligned action :=
  routed_iff_aligned device _ action

def listed (id : String) (self : Bool) : DeviceInfo protocol :=
  ⟨id, id, .web, self, ConnectClient.idle⟩

/-- The kitchen is selected on the laptop. -/
def controlling : List PageEvent :=
  [.session true true, .client (.opened 0), .client (.minted 0 (some "token") ConnectClient.idle),
    .client (.message 0 (some (.devices [listed "laptop" true, listed "kitchen" false]))),
    .selectDevice (some "kitchen")]

/-- The kitchen has left the roster. -/
def kitchenGone : List PageEvent :=
  controlling ++ [.client (.message 0 (some (.devices [listed "laptop" true])))]

/-- The socket of the laptop has closed. -/
def offline : List PageEvent := controlling ++ [.client (.closed 0)]

theorem not_routed {device : DeviceOptions} {w : Page} {action : Transport}
    (h : (w.step device (.transport action)).sent.length ≠
      w.player.remoteTarget.toList.length + w.sent.length) : ¬ w.Routed device action := by
  intro hrouted
  rw [hrouted.1, List.length_append] at h
  cases hactive : w.player.remoteTarget with
  | none =>
    rw [hactive] at h
    exact h rfl
  | some d =>
    rw [hactive] at h
    exact h rfl

/-- A click on play is sent to the kitchen that has gone; and nowhere when the socket has closed. -/
theorem play_lost :
    ¬ (run (step ConnectClient.browser) (init 1 false) kitchenGone).Routed ConnectClient.browser
        (.playStation (stationOf "rb:1")) ∧
      ¬ (run (step ConnectClient.browser) (init 1 false) offline).Routed ConnectClient.browser
        (.playStation (stationOf "rb:1")) :=
  ⟨not_routed (by decide), not_routed (by decide)⟩

end Page

end Atradio.Web
