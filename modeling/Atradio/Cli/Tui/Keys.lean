import Atradio.Cli.Tui.Jobs

/-! # The keys of the terminal UI (`handle_event` in `tui/mod.rs`) -/

namespace Atradio.Cli
open Atradio.Audio Atradio.Connect Atradio.Lib

inductive KeyCode where
  | char (c : Char)
  | esc
  | up
  | down
  | left
  | right
  | tab
  | backTab
  | enter
  | backspace
  | other
  deriving DecidableEq

structure KeyEvent where
  code : KeyCode
  control : Bool := false
  release : Bool := false

/-- The arms of `handle_event` without an overlay. -/
inductive Action where
  | quit
  | back
  | search
  | home
  | tab (idx : ℕ)
  | dsp
  | profile
  | help
  | notifications
  | comments
  | compose
  | playPause
  | mute
  | stop
  | devices
  | adjust (dir : ℤ)
  | favorite
  | addStation
  | signin
  | up
  | down
  | left
  | right
  | nextTab
  | enter
  | nothing

def charAction (c : Char) : Action :=
  if '1' ≤ c ∧ c ≤ '5' then .tab (c.toNat - '1'.toNat)
  else match c with
    | 'q' => .quit
    | '/' => .search
    | 'h' => .home
    | 'e' => .dsp
    | 'p' => .profile
    | '?' => .help
    | 'n' => .notifications
    | 'c' => .comments
    | 'a' => .compose
    | ' ' => .playPause
    | 'm' => .mute
    | 'x' => .stop
    | 'd' => .devices
    | '+' => .adjust 1
    | '=' => .adjust 1
    | '-' => .adjust (-1)
    | '_' => .adjust (-1)
    | 'f' => .favorite
    | 'A' => .addStation
    | 's' => .signin
    | 'k' => .up
    | 'j' => .down
    | _ => .nothing

def KeyCode.action : KeyCode → Action
  | .char c => charAction c
  | .esc => .back
  | .up => .up
  | .down => .down
  | .left => .left
  | .right => .right
  | .tab => .nextTab
  | .enter => .enter
  | _ => .nothing

namespace App

def setTab (a : App) (tab : HomeTab) : App := { a with homeTab := tab, selected := 0 }

def moveUp (a : App) : App :=
  match a.view with
  | .dsp => { a with dspRow := a.dspRow - 1 }
  | .home => { a with selected := a.selected - 1 }
  | .profile => { a with profileRecentSelected := a.profileRecentSelected - 1 }
  | _ => a

def moveDown (a : App) : App :=
  match a.view with
  | .dsp => if a.dspRow + 1 < rowCount then { a with dspRow := a.dspRow + 1 } else a
  | .home =>
    if 0 < a.activeList.length ∧ a.selected + 1 < a.activeList.length then
      { a with selected := a.selected + 1 }
    else a
  | .profile =>
    if 0 < a.profileRecent.length ∧ a.profileRecentSelected + 1 < a.profileRecent.length then
      { a with profileRecentSelected := a.profileRecentSelected + 1 }
    else a
  | _ => a

def commentTarget (a : App) : Option StationInfo :=
  (match a.view with
    | .comments => a.commentsStation
    | .profile => a.profileRecent[a.profileRecentSelected]?
    | _ => a.selectedStation).or a.current

def enteredStation (a : App) : Option StationInfo :=
  match a.view with
  | .home => a.selectedStation
  | .profile => a.profileRecent[a.profileRecentSelected]?
  | _ => none

def handleSigninKeys (a : App) : KeyCode → App
  | .esc => { a with overlay := .none }
  | .enter =>
    let input := trim a.signinInput
    if input = "" then a else { a with pendingOauth := some input }
  | .backspace => { a with signinInput := popChar a.signinInput }
  | .char c => { a with signinInput := a.signinInput.push c }
  | _ => a

end App

/-- An empty field of the form is an absent one. -/
def nonEmpty (s : String) : Option String := if trim s = "" then none else some (trim s)

namespace Tui

variable {E : Engine}

/-! ### Remotes -/

/-- None where `route_remote` returns false. -/
def routeRemote (t : Tui E) (cmd : RemoteCmd) : Option (Tui E) :=
  if t.app.remoteControl then
    (t.app.remoteTarget.filter fun _ => t.app.remoteActive).map fun target => t.command target cmd
  else none

def routeRemoteVolume (t : Tui E) (delta : ℚ) : Option (Tui E) :=
  t.app.remoteTargetDevice.bind fun dev =>
    t.routeRemote (.setVolume (clampVolume (dev.state.volume + delta)))

def adjustOrVolume (t : Tui E) (dir : ℤ) : Tui E :=
  if t.app.view = .dsp then
    match t.app.grpcRemote with
    | some r => t.drive (r.adjustDspRow t.app.dspRow dir)
    | none =>
      match adjust t.app.dsp t.app.dspRow dir with
      | some dsp => (t.edit fun a => { a with dsp }).callPlayer (.applyDsp dsp)
      | none => t
  else
    let delta : ℚ := dir / 20
    match t.app.grpcRemote with
    | some r => t.drive (r.bumpVolume delta)
    | none => (t.routeRemoteVolume delta).getD (t.callPlayer (.bumpVolume delta))

def playSelected (t : Tui E) : Tui E :=
  match t.app.enteredStation with
  | none => t
  | some s =>
    match t.app.grpcRemote with
    | some r => t.drive (r.loadStation (stationToLite s))
    | none =>
      if t.app.remoteActive then
        (t.routeRemote (.loadStation (stationToLite s))).getD (t.startPlaying s)
      else t.startPlaying s

/-- Taking control back: the device that was controlled is asked to stop. -/
def takeBack (t : Tui E) : Tui E :=
  match t.app.remoteTarget with
  | none => t
  | some prev =>
    let t := t.edit fun a => { a with remoteTarget := none }
    if t.app.remoteControl then t.command prev .stop else t

/-- The choice of a device; with a gRPC remote it is sent there. -/
def pickDevice (t : Tui E) : Tui E :=
  match t.app.grpcRemote with
  | some r =>
    if t.app.deviceSel = 0 then t.drive (r.setConnectTarget none)
    else match t.app.otherDevices[t.app.deviceSel - 1]? with
      | some dev => t.drive (r.setConnectTarget (some dev.id))
      | none => t
  | none =>
    if t.app.deviceSel = 0 then t.takeBack
    else match t.app.otherDevices[t.app.deviceSel - 1]? with
      | some dev => t.edit fun a => { a with remoteTarget := some dev.id }
      | none => t

def handleDevicesKeys (t : Tui E) : KeyCode → Tui E
  | .esc | .char 'd' | .char 'q' => t.edit fun a => { a with overlay := .none }
  | .up | .char 'k' => t.edit fun a => { a with deviceSel := a.deviceSel - 1 }
  | .down | .char 'j' => t.edit fun a =>
    if a.deviceSel + 1 < 1 + a.otherDevices.length then { a with deviceSel := a.deviceSel + 1 }
    else a
  | .enter => t.pickDevice.edit fun a => { a with overlay := .none }
  | _ => t

/-! ### Accounts -/

def toggleSignin (t : Tui E) : Tui E :=
  if t.app.loggedIn then
    ({ t with session := none } : Tui E).edit fun a =>
      { a with
        loggedIn := false, handle := none, displayName := none, did := none, method := none
        pds := none, favorites := [], notifications := [], unread := 0
        view := if a.view = .profile then .home else a.view }
  else t.edit fun a =>
    { a with signinInput := (a.envCreds.map Prod.fst).getD "", overlay := .signIn }

def favoriteSelected (t : Tui E) : Tui E :=
  match t.app.selectedStation.or t.app.current with
  | none => t
  | some s =>
    match t.app.grpcRemote with
    | some r => t.drive (r.favorite (stationToLite s))
    | none => if t.isLoggedIn then t.spawn [.favorite s] else t

def openNotifications (t : Tui E) : Tui E :=
  let t := t.edit fun a => { a with view := .notifications }
  match t.session with
  | none => t
  | some actor =>
    (t.spawn [.load .notifications actor, .updateSeen actor]).edit fun a => { a with unread := 0 }

def openComments (t : Tui E) : Tui E :=
  match t.app.commentTarget with
  | none => t
  | some s =>
    (t.edit fun a =>
      { a with
        view := .comments, comments := [], commentsSelected := 0
        commentsStation := some s }).spawn [.comments s.stationId]

def handleAddStationKeys (t : Tui E) : KeyCode → Tui E
  | .esc => t.edit fun a => { a with overlay := .none }
  | .tab | .down => t.edit fun a =>
    { a with addForm.focus := (a.addForm.focus + 1) % AddStationForm.FIELD_COUNT }
  | .backTab | .up => t.edit fun a =>
    { a with
      addForm.focus :=
        (a.addForm.focus + AddStationForm.FIELD_COUNT - 1) % AddStationForm.FIELD_COUNT }
  | .enter =>
    let f := t.app.addForm
    if f.isValid then
      let draft : StationDraft :=
        ⟨trim f.name, trim f.streamUrl, nonEmpty f.genre, nonEmpty f.homepage, nonEmpty f.logo⟩
      (t.edit fun a => { a with overlay := .none }).spawn [.createStation draft t.session]
    else t
  | .backspace => t.edit fun a => { a with addForm := a.addForm.editField popChar }
  | .char c => t.edit fun a => { a with addForm := a.addForm.editField (·.push c) }
  | _ => t

def postComment (t : Tui E) (s : StationInfo) (text : String) : Tui E :=
  match t.app.grpcRemote with
  | some r => t.drive (r.comment (stationToLite s) text)
  | none => if t.isLoggedIn then t.spawn [.comment s text] else t

def handleComposeKeys (t : Tui E) : KeyCode → Tui E
  | .esc => t.edit fun a => { a with overlay := .none, composeText := "" }
  | .enter =>
    let text := trim t.app.composeText
    let station := t.app.commentsStation.or t.app.current
    let t := t.edit fun a => { a with overlay := .none, composeText := "" }
    if text = "" then t
    else match station with
      | none => t
      | some s => t.postComment s text
  | .backspace => t.edit fun a => { a with composeText := popChar a.composeText }
  | .char c => t.edit fun a => { a with composeText := a.composeText.push c }
  | _ => t

/-! ### Search -/

variable (fuzzy : App.FuzzyMatch)

def handleSearchKeys (t : Tui E) : KeyCode → Tui E
  | .esc => t.edit fun a => { a with overlay := .none }
  | .enter =>
    match (t.app.rankedSearch fuzzy)[t.app.searchSelected]? with
    | some (_, s) => (t.edit fun a => { a with overlay := .none }).startPlaying s
    | none => t
  | .up => t.edit fun a => { a with searchSelected := a.searchSelected - 1 }
  | .down =>
    let len := (t.app.rankedSearch fuzzy).length
    if 0 < len ∧ t.app.searchSelected + 1 < len then
      t.edit fun a => { a with searchSelected := a.searchSelected + 1 }
    else t
  | .backspace => t.edit fun a =>
    { a with searchQuery := popChar a.searchQuery, searchDirty := true }
  | .char c => t.edit fun a => { a with searchQuery := a.searchQuery.push c, searchDirty := true }
  | _ => t

/-! ### All keys -/

def quit (t : Tui E) : Tui E := t.edit fun a => { a with shouldQuit := true }

def turn (t : Tui E) (dir : ℤ) (tab : HomeTab → HomeTab) : Tui E :=
  if t.app.view = .dsp then t.adjustOrVolume dir
  else if t.app.view = .home then t.edit fun a => a.setTab (tab a.homeTab)
  else t

def act (t : Tui E) : Action → Tui E
  | .quit => t.quit
  | .back => if t.app.view = .home then t.quit else t.edit fun a => { a with view := .home }
  | .search => t.edit fun a => { a with overlay := .search, searchSelected := 0 }
  | .home => t.edit fun a => { a with view := .home }
  | .tab idx => t.edit fun a => { a with view := .home }.setTab (HomeTab.ORDER.getD idx .popular)
  | .dsp => t.edit fun a => { a with view := .dsp }
  | .profile => t.edit fun a => { a with view := .profile }
  | .help => t.edit fun a => { a with view := .help }
  | .notifications => t.openNotifications
  | .comments => t.openComments
  | .compose =>
    match t.app.commentTarget with
    | none => t
    | some s => t.edit fun a =>
      { a with commentsStation := some s, overlay := .compose, composeText := "" }
  | .playPause =>
    match t.app.grpcRemote with
    | some r => t.drive r.playPause
    | none => (t.routeRemote .playPause).getD (t.callPlayer .toggle)
  | .mute =>
    match t.app.grpcRemote with
    | some r => t.drive r.toggleMute
    | none => (t.routeRemote .toggleMute).getD (t.callPlayer .toggleMute)
  | .stop =>
    match t.app.grpcRemote with
    | some r => t.drive r.stop
    | none => (t.routeRemote .stop).getD
      ((t.callPlayer .stop).edit fun a => { a with current := none })
  | .devices =>
    if t.app.grpcRemote.isSome ∨ t.app.loggedIn then
      t.edit fun a => { a with deviceSel := 0, overlay := .devices }
    else t
  | .adjust dir => t.adjustOrVolume dir
  | .favorite => t.favoriteSelected
  | .addStation =>
    if t.app.loggedIn then t.edit fun a => { a with addForm := {}, overlay := .addStation } else t
  | .signin => t.toggleSignin
  | .up => t.edit App.moveUp
  | .down => t.edit App.moveDown
  | .left => t.turn (-1) HomeTab.prev
  | .right => t.turn 1 HomeTab.next
  | .nextTab => if t.app.view = .home then t.edit fun a => a.setTab a.homeTab.next else t
  | .enter => t.playSelected
  | .nothing => t

def handleEvent (t : Tui E) (key : KeyEvent) : Tui E :=
  if key.release then t
  else if key.control ∧ key.code = .char 'c' then t.quit
  else match t.app.overlay with
    | .search => t.handleSearchKeys fuzzy key.code
    | .compose => t.handleComposeKeys key.code
    | .signIn => t.edit fun a => a.handleSigninKeys key.code
    | .addStation => t.handleAddStationKeys key.code
    | .devices => t.handleDevicesKeys key.code
    | .none => t.act key.code.action

end Tui

end Atradio.Cli
