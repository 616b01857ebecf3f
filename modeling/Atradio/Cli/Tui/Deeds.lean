import Atradio.Cli.Tui.Loop

/-! # What an event does to the playback of the terminal UI

The station that counts as current, the player, the streams being resolved and the log change by a
few deeds only; `Does` says which of them an event may lead to. Whether another instance is driven
never changes. -/

namespace Atradio.Cli
open Atradio.Audio Atradio.Connect Atradio.Lib

/-- What of the app playback is about: `drives` says that there is a gRPC remote, `linked` that
there is a handle for commands to the devices of the account. -/
structure Stage where
  current : Option StationInfo
  drives : Bool
  linked : Bool
  devices : List Device

def App.stage (a : App) : Stage := ⟨a.current, a.grpcRemote.isSome, a.remoteControl, a.remoteDevices⟩

structure Playback (E : Engine) extends Stage where
  player : Player E
  pending : List StationInfo
  calls : List Call

/-- `note` writes to the log only, `halt` is the stop that forgets the station, `settle` the end of
a job, after which `rest` is being resolved and a resolution may have been played. -/
inductive Deed (E : Engine) where
  | note (calls : List Call)
  | load (s : StationInfo)
  | halt
  | call (c : PlayerCall)
  | settle (rest : List StationInfo) (played : Option (StationInfo × String))
  | mirror (station : Option StationInfo) (devices : List Device)
  | roster (devices : List Device)
  | engine (transport : E.τ)

namespace Playback

variable {E : Engine}

def perform (p : Playback E) : Deed E → Playback E
  | .note calls => { p with calls := calls ++ p.calls }
  | .load s => { p with current := some s, pending := p.pending ++ [s], calls := .load s :: p.calls }
  | .halt =>
    { p with current := none, player := p.player.call .stop, calls := .player .stop :: p.calls }
  | .call c => { p with player := p.player.call c, calls := .player c :: p.calls }
  | .settle rest none => { p with pending := rest }
  | .settle rest (some (s, url)) =>
    { p with
      pending := rest, player := p.player.playUrl url, calls := .playUrl s url :: p.calls }
  | .mirror station devices => { p with current := station, devices }
  | .roster devices => { p with devices }
  | .engine transport => { p with player := { p.player with transport } }

theorem perform_kept (p : Playback E) (deed : Deed E) :
    (p.perform deed).drives = p.drives ∧ (p.perform deed).linked = p.linked := by
  cases deed with
  | settle rest played => cases played <;> exact ⟨rfl, rfl⟩
  | _ => exact ⟨rfl, rfl⟩

theorem foldl_kept (p : Playback E) (ds : List (Deed E)) :
    (ds.foldl perform p).drives = p.drives ∧ (ds.foldl perform p).linked = p.linked := by
  induction ds generalizing p with
  | nil => exact ⟨rfl, rfl⟩
  | cons deed ds ih =>
    have hfirst := p.perform_kept deed
    have hrest := ih (p.perform deed)
    exact ⟨hrest.1.trans hfirst.1, hrest.2.trans hfirst.2⟩

end Playback

/-- The actions that adjust the focused row of the equalizer panel. -/
def Action.adjusts : Action → Bool
  | .adjust _ | .left | .right => true
  | _ => false

def KeyCode.adjusts (code : KeyCode) : Bool := code.action.adjusts

def RemoteCmd.loads : RemoteCmd → Option StationInfo
  | .loadStation s => some (liteToStation s)
  | _ => none

namespace Tui

variable {E : Engine}

def playback (t : Tui E) : Playback E where
  toStage := t.app.stage
  player := t.player
  pending := t.pending
  calls := t.calls

theorem edit_playback (t : Tui E) {f : App → App} (h : (f t.app).stage = t.app.stage) :
    (t.edit f).playback = t.playback := by
  unfold playback edit pending
  rw [h]

theorem pending_spawn (t : Tui E) (jobs : List Job) :
    (t.spawn jobs).pending = t.pending ++ jobs.filterMap Job.resolving := List.filterMap_append

theorem spawn_playback (t : Tui E) {jobs : List Job} (h : jobs.filterMap Job.resolving = []) :
    (t.spawn jobs).playback = t.playback := by
  have hpending := t.pending_spawn jobs
  rw [h, List.append_nil] at hpending
  unfold playback
  rw [hpending]
  rfl

@[simp] theorem callPlayer_playback (t : Tui E) (c : PlayerCall) :
    (t.callPlayer c).playback = t.playback.perform (.call c) := rfl

theorem drive_playback (t : Tui E) (hdrives : t.app.grpcRemote.isSome = true) (r : GrpcRemote) :
    (t.drive r).playback = t.playback := by
  refine t.edit_playback ?_
  unfold App.stage
  rw [hdrives]
  rfl

theorem resolving_startJobs (t : Tui E) (s : StationInfo) :
    (t.startJobs s).filterMap Job.resolving = [s] := by
  unfold startJobs
  cases t.isLoggedIn <;> rfl

@[simp] theorem startPlaying_playback (t : Tui E) (s : StationInfo) :
    (t.startPlaying s).playback = t.playback.perform (.load s) := by
  have hpending := pending_spawn ((t.edit fun a => { a with current := some s }).log (.load s))
    (t.startJobs s)
  rw [resolving_startJobs] at hpending
  unfold playback startPlaying
  rw [hpending]
  rfl

/-! ### Keys -/

/-- A device of the account is controlled over Connect. -/
def controls (t : Tui E) : Bool := t.app.remoteControl && t.app.remoteActive

/-- The station that a key makes the terminal UI load here. -/
def keyLoads (fuzzy : App.FuzzyMatch) (t : Tui E) (key : KeyEvent) : Option StationInfo :=
  if key.release then none
  else match t.app.overlay with
    | .search =>
      if key.code = .enter then
        ((t.app.rankedSearch fuzzy)[t.app.searchSelected]?).map Prod.snd
      else none
    | .none =>
      match key.code.action with
      | .enter => if t.app.grpcRemote.isNone && !t.controls then t.app.enteredStation else none
      | _ => none
    | _ => none

def keyToggles (t : Tui E) (key : KeyEvent) : Bool :=
  match key.code.action with
  | .playPause => !key.release && t.app.overlay = .none && t.app.grpcRemote.isNone && !t.controls
  | _ => false

def May (fuzzy : App.FuzzyMatch) (t : Tui E) (key : KeyEvent) : Deed E → Prop
  | .note calls =>
    calls = [] ∨ t.app.grpcRemote = none ∧ ∃ target cmd, t.app.remoteTarget = some target ∧
      calls = [.command target cmd]
  | .load s => t.keyLoads fuzzy key = some s
  | .halt => t.app.grpcRemote = none ∧ t.controls = false
  | .call .toggle => t.keyToggles key = true
  | .call (.applyDsp _) =>
    t.app.grpcRemote = none ∧ t.app.overlay = .none ∧ t.app.view = .dsp ∧ key.code.adjusts = true
  | .call .toggleMute | .call (.bumpVolume _) => t.app.grpcRemote = none ∧ t.controls = false
  | _ => False

def Ends (fuzzy : App.FuzzyMatch) (t : Tui E) (key : KeyEvent) (u : Tui E) : Prop :=
  ∃ d, t.May fuzzy key d ∧ u.playback = t.playback.perform d

section Keys

variable {fuzzy : App.FuzzyMatch} {t u : Tui E} {key : KeyEvent}

theorem Ends.quiet (h : u.playback = t.playback) : t.Ends fuzzy key u := ⟨.note [], .inl rfl, h⟩

theorem ends_edit {f : App → App} (h : (f t.app).stage = t.app.stage) :
    t.Ends fuzzy key (t.edit f) := .quiet (t.edit_playback h)

theorem ends_drive {r : GrpcRemote} (hr : t.app.grpcRemote = some r) (r' : GrpcRemote) :
    t.Ends fuzzy key (t.drive r') := .quiet (t.drive_playback (hr ▸ rfl) r')

theorem routeRemote_cases (t : Tui E) (cmd : RemoteCmd) :
    t.controls = false ∧ t.routeRemote cmd = none ∨
      ∃ target, t.app.remoteTarget = some target ∧ t.routeRemote cmd = some (t.command target cmd) := by
  unfold routeRemote controls
  cases hactive : t.app.remoteActive with
  | false => exact .inl ⟨Bool.and_false _, by simp⟩
  | true =>
    cases t.app.remoteControl with
    | false => exact .inl ⟨rfl, rfl⟩
    | true =>
      cases htarget : t.app.remoteTarget with
      | none => simp [App.remoteActive, App.remoteTargetDevice, htarget] at hactive
      | some target => exact .inr ⟨target, rfl, rfl⟩

theorem ends_routed (hr : t.app.grpcRemote = none) {cmd : RemoteCmd}
    (hlocal : t.controls = false → t.Ends fuzzy key u) : t.Ends fuzzy key ((t.routeRemote cmd).getD u) := by
  rcases t.routeRemote_cases cmd with ⟨hfree, hroute⟩ | ⟨target, htarget, hroute⟩
  · rw [hroute]
    exact hlocal hfree
  · rw [hroute]
    exact ⟨.note [.command target cmd], .inr ⟨hr, target, cmd, htarget, rfl⟩, rfl⟩

theorem ends_mute (hr : t.app.grpcRemote = none) (hfree : t.controls = false) :
    t.Ends fuzzy key (t.callPlayer .toggleMute) := ⟨.call .toggleMute, ⟨hr, hfree⟩, rfl⟩

theorem ends_bump (hr : t.app.grpcRemote = none) (hfree : t.controls = false) (delta : ℚ) :
    t.Ends fuzzy key (t.callPlayer (.bumpVolume delta)) := ⟨.call (.bumpVolume delta), ⟨hr, hfree⟩, rfl⟩

theorem ends_adjust (ho : t.app.overlay = .none) (hadjusts : key.code.adjusts = true) (dir : ℤ) :
    t.Ends fuzzy key (t.adjustOrVolume dir) := by
  unfold adjustOrVolume
  by_cases hview : t.app.view = .dsp
  · rw [if_pos hview]
    cases hr : t.app.grpcRemote with
    | some r => exact ends_drive ‹_› _
    | none =>
      dsimp only
      split
      · rename_i dsp _
        exact ⟨.call (.applyDsp dsp), ⟨hr, ho, hview, hadjusts⟩, rfl⟩
      · exact .quiet rfl
  · rw [if_neg hview]
    cases hr : t.app.grpcRemote with
    | some r => exact ends_drive ‹_› _
    | none =>
      dsimp only
      unfold routeRemoteVolume
      cases hdev : t.app.remoteTargetDevice with
      | none =>
        refine ends_bump hr ?_ _
        rw [controls, App.remoteActive, hdev]
        exact Bool.and_false _
      | some dev => exact ends_routed hr fun hfree => ends_bump hr hfree _

theorem ends_playSelected (hrelease : key.release = false) (ho : t.app.overlay = .none)
    (haction : key.code.action = .enter) : t.Ends fuzzy key t.playSelected := by
  unfold playSelected
  cases hentered : t.app.enteredStation with
  | none => exact .quiet rfl
  | some s =>
    cases hr : t.app.grpcRemote with
    | some r => exact ends_drive ‹_› _
    | none =>
      have hload (hfree : t.controls = false) : t.Ends fuzzy key (t.startPlaying s) :=
        ⟨.load s, by simp [May, keyLoads, hrelease, ho, haction, hr, hfree, hentered],
          t.startPlaying_playback s⟩
      cases hactive : t.app.remoteActive with
      | true => exact ends_routed hr hload
      | false => exact hload (by rw [controls, hactive, Bool.and_false])

theorem ends_takeBack (hr : t.app.grpcRemote = none) : t.Ends fuzzy key t.takeBack := by
  unfold takeBack
  cases htarget : t.app.remoteTarget with
  | none => exact .quiet rfl
  | some prev =>
    dsimp only
    split
    · exact ⟨.note [.command prev .stop], .inr ⟨hr, prev, .stop, htarget, rfl⟩, rfl⟩
    · exact .quiet rfl

theorem ends_pickDevice : t.Ends fuzzy key t.pickDevice := by
  unfold pickDevice
  cases hr : t.app.grpcRemote with
  | some r =>
    dsimp only
    split
    · exact ends_drive ‹_› _
    · split
      · exact ends_drive ‹_› _
      · exact .quiet rfl
  | none =>
    dsimp only
    split
    · exact ends_takeBack hr
    · split
      · exact ends_edit rfl
      · exact .quiet rfl

theorem Ends.edit (h : t.Ends fuzzy key u) {f : App → App} (hf : (f u.app).stage = u.app.stage) :
    t.Ends fuzzy key (u.edit f) := by
  obtain ⟨d, hmay, hd⟩ := h
  exact ⟨d, hmay, (u.edit_playback hf).trans hd⟩

theorem ends_spawn {f : App → App} (hf : (f t.app).stage = t.app.stage) {jobs : List Job}
    (hjobs : jobs.filterMap Job.resolving = []) : t.Ends fuzzy key ((t.edit f).spawn jobs) :=
  .quiet (((t.edit f).spawn_playback hjobs).trans (t.edit_playback hf))

theorem moveUp_stage (a : App) : a.moveUp.stage = a.stage := by
  unfold App.moveUp
  split <;> rfl

theorem moveDown_stage (a : App) : a.moveDown.stage = a.stage := by
  unfold App.moveDown
  split
  · split <;> rfl
  · split <;> rfl
  · split <;> rfl
  · rfl

theorem ends_openNotifications : t.Ends fuzzy key t.openNotifications := by
  unfold openNotifications
  cases hs : t.session with
  | none =>
    simp only [Tui.edit, hs]
    exact ends_edit (f := fun a => { a with view := .notifications }) rfl
  | some actor =>
    simp only [Tui.edit, hs]
    exact (ends_spawn (f := fun a => { a with view := .notifications }) rfl rfl).edit
      (f := fun a => { a with unread := 0 }) rfl

theorem ends_openComments : t.Ends fuzzy key t.openComments := by
  unfold openComments
  cases t.app.commentTarget with
  | none => exact .quiet rfl
  | some s => exact ends_spawn rfl rfl

theorem ends_favoriteSelected : t.Ends fuzzy key t.favoriteSelected := by
  unfold favoriteSelected
  split
  · exact .quiet rfl
  · split
    · exact ends_drive ‹_› _
    · split
      · exact .quiet (t.spawn_playback rfl)
      · exact .quiet rfl

theorem ends_toggleSignin : t.Ends fuzzy key t.toggleSignin := by
  unfold toggleSignin
  split
  · exact .quiet rfl
  · exact ends_edit rfl

theorem ends_turn (ho : t.app.overlay = .none) (hadjusts : key.code.adjusts = true) (dir : ℤ)
    (tab : HomeTab → HomeTab) : t.Ends fuzzy key (t.turn dir tab) := by
  unfold turn
  split
  · exact ends_adjust ho hadjusts dir
  · split
    · exact ends_edit rfl
    · exact .quiet rfl

theorem ends_transport {f : GrpcRemote → GrpcRemote} {cmd : RemoteCmd}
    (hlocal : t.app.grpcRemote = none → t.controls = false → t.Ends fuzzy key u) :
    t.Ends fuzzy key (match t.app.grpcRemote with
      | some r => t.drive (f r)
      | none => (t.routeRemote cmd).getD u) := by
  cases hr : t.app.grpcRemote with
  | some r => exact ends_drive ‹_› _
  | none => exact ends_routed hr (hlocal hr)

theorem ends_act (hrelease : key.release = false) (ho : t.app.overlay = .none) {action : Action}
    (haction : key.code.action = action) : t.Ends fuzzy key (t.act action) := by
  have hadjusts : key.code.adjusts = action.adjusts := congrArg Action.adjusts haction
  cases action with
  | quit | search | home | tab | dsp | profile | help => exact ends_edit rfl
  | nothing => exact .quiet rfl
  | notifications => exact ends_openNotifications
  | comments => exact ends_openComments
  | favorite => exact ends_favoriteSelected
  | signin => exact ends_toggleSignin
  | up => exact ends_edit (moveUp_stage _)
  | down => exact ends_edit (moveDown_stage _)
  | adjust dir => exact ends_adjust ho hadjusts dir
  | left => exact ends_turn ho hadjusts _ _
  | right => exact ends_turn ho hadjusts _ _
  | enter => exact ends_playSelected hrelease ho haction
  | mute => exact ends_transport ends_mute
  | stop => exact ends_transport fun hr hfree => ⟨.halt, ⟨hr, hfree⟩, rfl⟩
  | playPause =>
    refine ends_transport fun hr hfree => ⟨.call .toggle, ?_, rfl⟩
    simp [May, keyToggles, haction, hrelease, ho, hr, hfree]
  | back =>
    simp only [act]
    split
    · exact ends_edit rfl
    · exact ends_edit rfl
  | compose =>
    simp only [act]
    split
    · exact .quiet rfl
    · exact ends_edit rfl
  | devices =>
    simp only [act]
    split
    · exact ends_edit rfl
    · exact .quiet rfl
  | addStation =>
    simp only [act]
    split
    · exact ends_edit rfl
    · exact .quiet rfl
  | nextTab =>
    simp only [act]
    split
    · exact ends_edit rfl
    · exact .quiet rfl

theorem ends_search (hrelease : key.release = false) (ho : t.app.overlay = .search) :
    t.Ends fuzzy key (t.handleSearchKeys fuzzy key.code) := by
  cases hcode : key.code with
  | enter =>
    simp only [handleSearchKeys]
    cases hresult : (t.app.rankedSearch fuzzy)[t.app.searchSelected]? with
    | none => exact .quiet rfl
    | some result =>
      refine ⟨.load result.2, ?_, startPlaying_playback _ result.2⟩
      simp [May, keyLoads, hrelease, ho, hcode, hresult]
  | down =>
    simp only [handleSearchKeys]
    split
    · exact ends_edit rfl
    · exact .quiet rfl
  | char | esc | up | backspace => exact ends_edit rfl
  | left | right | tab | backTab | other => exact .quiet rfl

theorem ends_compose : t.Ends fuzzy key (t.handleComposeKeys key.code) := by
  cases key.code with
  | enter =>
    simp only [handleComposeKeys]
    have hclosed : t.Ends fuzzy key (t.edit fun a => { a with overlay := .none, composeText := "" }) :=
      ends_edit rfl
    split
    · exact hclosed
    · split
      · exact hclosed
      · unfold postComment
        split
        · rename_i r hr
          exact .quiet ((drive_playback _ (hr ▸ rfl) _).trans (t.edit_playback rfl))
        · split
          · exact ends_spawn rfl rfl
          · exact hclosed
  | char | esc | backspace => exact ends_edit rfl
  | up | down | left | right | tab | backTab | other => exact .quiet rfl

theorem ends_addStation : t.Ends fuzzy key (t.handleAddStationKeys key.code) := by
  cases key.code with
  | enter =>
    simp only [handleAddStationKeys]
    split
    · exact ends_spawn rfl rfl
    · exact .quiet rfl
  | char | esc | up | down | tab | backTab | backspace => exact ends_edit rfl
  | left | right | other => exact .quiet rfl

theorem handleSigninKeys_stage (a : App) (code : KeyCode) :
    (a.handleSigninKeys code).stage = a.stage := by
  cases code with
  | enter =>
    unfold App.handleSigninKeys
    dsimp only
    split <;> rfl
  | _ => rfl

theorem ends_devices : t.Ends fuzzy key (t.handleDevicesKeys key.code) := by
  unfold handleDevicesKeys
  split
  · exact ends_edit rfl
  · exact ends_edit rfl
  · exact ends_edit rfl
  · exact ends_edit rfl
  · exact ends_edit rfl
  · refine ends_edit ?_
    split <;> rfl
  · refine ends_edit ?_
    split <;> rfl
  · exact ends_pickDevice.edit rfl
  · exact .quiet rfl

theorem ends_handleEvent (fuzzy : App.FuzzyMatch) (t : Tui E) (key : KeyEvent) :
    t.Ends fuzzy key (t.handleEvent fuzzy key) := by
  unfold handleEvent
  split
  · exact .quiet rfl
  · rename_i hrelease
    have hpressed : key.release = false := Bool.not_eq_true _ ▸ hrelease
    split
    · exact ends_edit rfl
    · split
      · exact ends_search hpressed ‹_›
      · exact ends_compose
      · exact ends_edit (handleSigninKeys_stage _ _)
      · exact ends_addStation
      · exact ends_devices
      · exact ends_act hpressed ‹_› rfl

end Keys

/-! ### All events -/

def played (t : Tui E) (s : StationInfo) : Answer → Option (StationInfo × String)
  | .resolved r =>
    if r.isHls = false ∧ t.app.current.map StationInfo.stationId = some s.stationId then
      some (s, r.url)
    else none
  | _ => none

/-- The command that an event brings from the desktop, from a device or over gRPC. -/
def outside (t : Tui E) : TuiEvent E → Option RemoteCmd
  | .mpris cmd => some cmd.remoteCmd
  | .peer cmd => if t.app.remoteControl then some cmd else none
  | .grpc (.remote cmd) => if t.app.grpcRemote.isSome then none else some cmd
  | _ => none

/-- The station that an event makes the terminal UI load. -/
def loads (fuzzy : App.FuzzyMatch) (t : Tui E) : TuiEvent E → Option StationInfo
  | .key key => t.keyLoads fuzzy key
  | e => (t.outside e).bind RemoteCmd.loads

/-- What an event may do to playback once the loop has rendered. -/
inductive Does (fuzzy : App.FuzzyMatch) (t : Tui E) (e : TuiEvent E) : Deed E → Prop
  | note {calls : List Call} (h : ∀ c ∈ calls, c.inert = true) : Does fuzzy t e (.note calls)
  | key {key : KeyEvent} {d : Deed E} (he : e = .key key) (h : t.May fuzzy key d) :
      Does fuzzy t e d
  | settle {i : ℕ} {answer : Answer} {s : StationInfo} {front back : List StationInfo}
      (he : e = .done i answer) (hjob : t.jobs[i]? = some (.resolve s))
      (hpending : t.pending = front ++ s :: back) :
      Does fuzzy t e (.settle (front ++ back) (t.played s answer))
  | call {cmd : RemoteCmd} {c : PlayerCall} (he : t.outside e = some cmd)
      (hc : cmd.playerCall = some c) : Does fuzzy t e (.call c)
  | load {s : StationLite} (he : t.outside e = some (.loadStation s)) :
      Does fuzzy t e (.load (liteToStation s))
  | dsp (dsp : AudioSettings) : Does fuzzy t e (.call (.applyDsp dsp))
  | roster (hlinked : t.app.remoteControl = true) (devices : List Device) :
      Does fuzzy t e (.roster devices)

def Leads (fuzzy : App.FuzzyMatch) (t : Tui E) (e : TuiEvent E) (u : Tui E) : Prop :=
  ∃ d, t.Does fuzzy e d ∧ u.playback = t.playback.perform d

section Events

variable {fuzzy : App.FuzzyMatch} {t u : Tui E} {e : TuiEvent E}

theorem loads_outside {s : StationLite} (he : t.outside e = some (.loadStation s)) :
    t.loads fuzzy e = some (liteToStation s) := by
  cases e with
  | key key => cases he
  | _ => exact congrArg (Option.bind · RemoteCmd.loads) he

theorem played_eq_some {s s' : StationInfo} {url : String} {answer : Answer}
    (h : t.played s answer = some (s', url)) :
    s' = s ∧ t.app.current.map StationInfo.stationId = some s.stationId := by
  unfold played at h
  split at h
  · split at h
    · rename_i hdirect
      cases h
      exact ⟨rfl, hdirect.2⟩
    · cases h
  · cases h

theorem Leads.quiet (h : u.playback = t.playback) : t.Leads fuzzy e u :=
  ⟨.note [], .note fun _ hc => absurd hc (List.not_mem_nil), h⟩

theorem leads_log {c : Call} (hc : c.inert = true) : t.Leads fuzzy e (t.log c) :=
  ⟨.note [c], .note fun _ h => List.mem_singleton.1 h ▸ hc, rfl⟩

theorem Leads.edit (h : t.Leads fuzzy e u) {f : App → App} (hf : (f u.app).stage = u.app.stage) :
    t.Leads fuzzy e (u.edit f) := by
  obtain ⟨d, hdoes, hd⟩ := h
  exact ⟨d, hdoes, (u.edit_playback hf).trans hd⟩

theorem resolving_next (job : Job) (answer : Answer) :
    (job.next answer).filterMap Job.resolving = [] := by
  unfold Job.next
  split
  · rename_i actor
    cases actor <;> rfl
  · rfl

theorem jobs_split {job : Job} {i : ℕ} (h : t.jobs[i]? = some job) :
    t.jobs = t.jobs.take i ++ job :: t.jobs.drop (i + 1) := by
  obtain ⟨hi, rfl⟩ := List.getElem?_eq_some_iff.1 h
  rw [List.getElem_cons_drop, List.take_append_drop]

theorem finished_pending (job : Job) (i : ℕ) (answer : Answer) :
    pending { t with jobs := t.jobs.eraseIdx i ++ job.next answer } =
      (t.jobs.take i).filterMap Job.resolving ++ (t.jobs.drop (i + 1)).filterMap Job.resolving := by
  unfold pending
  rw [List.filterMap_append, resolving_next, List.append_nil, List.eraseIdx_eq_take_drop_succ,
    List.filterMap_append]

theorem applyMsg_stage (a : App) (msg : Msg) : (a.applyMsg msg).stage = a.stage := by
  cases msg with
  | trending items =>
    unfold App.applyMsg App.clampSelection
    dsimp only
    split
    · rfl
    · split <;> rfl
  | profileRecent items =>
    unfold App.applyMsg App.clampProfile
    dsimp only
    split <;> rfl
  | searchResults query items =>
    simp only [App.applyMsg]
    split <;> rfl
  | _ => rfl

theorem leads_receive {job : Job} (hjob : job.resolving = none) (t : Tui E) (msg : Msg) :
    ∃ calls : List Call, (∀ c ∈ calls, c.inert = true) ∧
      (t.receive job msg).playback = t.playback.perform (.note calls) := by
  unfold receive
  split
  · rw [hjob]
    exact ⟨[], fun _ hc => absurd hc List.not_mem_nil, rfl⟩
  · have hsame := t.edit_playback (f := fun a => a.applyMsg msg) (applyMsg_stage t.app msg)
    dsimp only
    split
    · rename_i list actor _
      refine ⟨[.listed list actor], fun _ h => List.mem_singleton.1 h ▸ rfl, ?_⟩
      exact congrArg (Playback.perform · (.note [.listed list actor])) hsame
    · exact ⟨[], fun _ hc => absurd hc List.not_mem_nil, hsame⟩

theorem leads_finish (t : Tui E) (i : ℕ) (answer : Answer) :
    t.Leads fuzzy (.done i answer) (t.finish i answer) := by
  unfold finish
  cases hget : t.jobs[i]? with
  | none => exact .quiet rfl
  | some job =>
    have hold : t.pending = (t.jobs.take i).filterMap Job.resolving ++
        (job :: t.jobs.drop (i + 1)).filterMap Job.resolving := by
      rw [← List.filterMap_append, ← jobs_split hget]
      rfl
    have hnew := finished_pending (t := t) job i answer
    dsimp only
    cases hresolving : job.resolving with
    | none =>
      rw [List.filterMap_cons_none hresolving, ← hnew] at hold
      have hsame : playback { t with jobs := t.jobs.eraseIdx i ++ job.next answer } = t.playback := by
        unfold playback
        rw [← hold]
      cases job.message answer with
      | none => exact .quiet hsame
      | some msg =>
        obtain ⟨calls, hcalls, hnote⟩ := leads_receive hresolving
          { t with jobs := t.jobs.eraseIdx i ++ job.next answer } msg
        exact ⟨.note calls, .note hcalls, hsame ▸ hnote⟩
    | some s =>
      obtain rfl : job = .resolve s := by
        cases job with
        | resolve s' => exact congrArg Job.resolve (Option.some.inj hresolving)
        | _ => cases hresolving
      rw [List.filterMap_cons_some hresolving] at hold
      refine ⟨_, .settle rfl hget hold, ?_⟩
      have hrest : playback { t with jobs := t.jobs.eraseIdx i ++ Job.next (.resolve s) answer } =
          t.playback.perform (.settle ((t.jobs.take i).filterMap Job.resolving ++
            (t.jobs.drop (i + 1)).filterMap Job.resolving) none) := by
        unfold playback
        rw [hnew]
        rfl
      cases answer with
      | resolved r =>
        cases hhls : r.isHls with
        | true => simpa [Job.message, played, hhls] using hrest
        | false =>
          have hmessage : Job.message (.resolve s) (.resolved r) =
              some (.playResolved s.stationId r.url) := by simp [Job.message, hhls]
          rw [hmessage]
          by_cases hcurrent : t.app.current.map StationInfo.stationId = some s.stationId
          · have hplayed : t.played s (.resolved r) = some (s, r.url) := if_pos ⟨hhls, hcurrent⟩
            rw [hplayed]
            refine (congrArg playback (if_pos hcurrent)).trans ?_
            exact congrArg
              (fun p : Playback E =>
                { p with player := p.player.playUrl r.url, calls := .playUrl s r.url :: p.calls })
              hrest
          · have hplayed : t.played s (.resolved r) = none := if_neg fun h => hcurrent h.2
            rw [hplayed]
            exact (congrArg playback (if_neg hcurrent)).trans hrest
      | _ => exact hrest

theorem leads_takeBack : t.Leads fuzzy e t.takeBack := by
  unfold takeBack
  cases t.app.remoteTarget with
  | none => exact .quiet rfl
  | some prev =>
    dsimp only
    split
    · exact leads_log (t := t) (c := .command prev .stop) rfl
    · exact .quiet rfl

theorem leads_remoteCmd {cmd : RemoteCmd} (he : t.outside e = some cmd) :
    t.Leads fuzzy e (t.applyRemoteCmd cmd) := by
  cases cmd with
  | loadStation s => exact ⟨_, .load he, startPlaying_playback _ _⟩
  | play => exact ⟨_, .call he rfl, t.callPlayer_playback .play⟩
  | pause => exact ⟨_, .call he rfl, t.callPlayer_playback .pause⟩
  | playPause => exact ⟨_, .call he rfl, t.callPlayer_playback .toggle⟩
  | stop => exact ⟨_, .call he rfl, t.callPlayer_playback .stop⟩
  | setVolume v => exact ⟨_, .call he rfl, t.callPlayer_playback (.setVolume v)⟩
  | toggleMute => exact ⟨_, .call he rfl, t.callPlayer_playback .toggleMute⟩

theorem leads_grpcCmd {cmd : GrpcCmd} (hserves : t.app.grpcRemote.isSome = false) :
    t.Leads fuzzy (.grpc cmd) (t.applyGrpcCmd cmd) := by
  cases cmd with
  | remote cmd => exact leads_remoteCmd (by rw [outside, hserves]; rfl)
  | setAudio dsp => exact ⟨_, .dsp dsp, rfl⟩
  | listStations source limit => exact .quiet rfl
  | adjustDspRow row dir =>
    simp only [applyGrpcCmd]
    split
    · exact ⟨_, .dsp _, rfl⟩
    · exact .quiet rfl
  | favorite s =>
    simp only [applyGrpcCmd]
    split
    · exact .quiet (t.spawn_playback rfl)
    · exact .quiet rfl
  | comment s text =>
    simp only [applyGrpcCmd]
    split
    · exact .quiet (t.spawn_playback rfl)
    · exact .quiet rfl
  | setConnectTarget target =>
    cases target with
    | none => exact leads_takeBack
    | some id => exact .quiet rfl

theorem leads_remoteEvent (hlinked : t.app.remoteControl = true) (evt : RemoteEvent) :
    t.Leads fuzzy e (t.applyRemoteEvent evt) := by
  cases evt with
  | devices devices => exact ⟨_, .roster hlinked devices, rfl⟩
  | presence anyPlaying cleanup =>
    simp only [applyRemoteEvent]
    split
    · exact .quiet (t.spawn_playback rfl)
    · exact .quiet rfl
  | status | welcome | authExpired => exact .quiet rfl

theorem fireSearch_playback (t : Tui E) : t.fireSearch.playback = t.playback := by
  unfold fireSearch
  split
  · dsimp only
    split
    · rfl
    · exact spawn_playback _ rfl
  · rfl

theorem refreshLists_playback (t : Tui E) : t.refreshLists.playback = t.playback := by
  unfold refreshLists
  cases hr : t.app.grpcRemote with
  | none => rfl
  | some r =>
    dsimp only
    split
    · exact drive_playback { t with listRefresh := 0 } (hr ▸ rfl) _
    · rfl

theorem exit_playback (t : Tui E) :
    ∃ calls : List Call, (∀ c ∈ calls, c.inert = true) ∧
      t.exit.playback = t.playback.perform (.note calls) := by
  unfold exit
  cases t.app.grpcRemote with
  | some r => exact ⟨[], fun _ hc => absurd hc List.not_mem_nil, rfl⟩
  | none =>
    unfold pushAudio
    cases t.session with
    | none =>
      refine ⟨[.saveSettings t.app.dsp t.player.volume], ?_, rfl⟩
      simp [Call.inert]
    | some account =>
      refine ⟨[.putAudio account t.app.dsp, .saveSettings t.app.dsp t.player.volume], ?_, rfl⟩
      simp [Call.inert]

theorem leads_exit (t : Tui E) : t.Leads fuzzy e t.exit := by
  obtain ⟨calls, hcalls, hnote⟩ := t.exit_playback
  exact ⟨_, .note hcalls, hnote⟩

theorem leads_handle (fuzzy : App.FuzzyMatch) (t : Tui E) (e : TuiEvent E) :
    t.Leads fuzzy e (t.handle fuzzy e) := by
  cases e with
  | key key =>
    obtain ⟨d, hmay, hd⟩ := ends_handleEvent fuzzy t key
    exact ⟨d, .key rfl hmay, hd⟩
  | done i answer => exact leads_finish t i answer
  | mpris cmd =>
    have he : t.outside (.mpris cmd) = some cmd.remoteCmd := rfl
    refine ⟨.call cmd.playerCall, .call he ?_, rfl⟩
    cases cmd <;> rfl
  | peer cmd =>
    simp only [handle]
    split
    · exact leads_remoteCmd (if_pos ‹_›)
    · exact .quiet rfl
  | grpc cmd =>
    simp only [handle]
    split
    · exact .quiet rfl
    · rename_i hserves
      exact leads_grpcCmd (Bool.not_eq_true _ ▸ hserves)
  | hub evt =>
    simp only [handle]
    split
    · exact leads_remoteEvent ‹_› evt
    · exact .quiet rfl
  | tick => exact .quiet (t.fireSearch.refreshLists_playback.trans t.fireSearch_playback)
  | terminalFailed => exact t.leads_exit
  | oauth | mirror | engine => exact .quiet rfl

end Events

/-! ### Steps -/

def renderDeed (t : Tui E) : Deed E :=
  match t.app.grpcRemote with
  | some r => .mirror (r.mirror.wire.station.map liteToStation) r.mirror.connectDevices
  | none => .note [.broadcast {
      wire := t.wire
      audio := t.app.dsp
      version := t.grpcVersion + 1
      connectDevices := t.app.remoteDevices
      connectTarget := t.app.remoteTarget
      connectOnline := t.app.connectOnline }]

theorem mirrored_stage (a : App) (r : GrpcRemote) :
    (a.mirrored r).stage = ⟨r.mirror.wire.station.map liteToStation, a.grpcRemote.isSome,
      a.remoteControl, r.mirror.connectDevices⟩ := by
  unfold App.mirrored App.clampProfile App.clampSelection
  dsimp only
  split_ifs <;> rfl

theorem render_playback (t : Tui E) : t.render.playback = t.playback.perform t.renderDeed := by
  unfold render renderDeed
  cases t.app.grpcRemote with
  | none => rfl
  | some r =>
    unfold playback edit
    rw [mirrored_stage]
    rfl

inductive Steps (fuzzy : App.FuzzyMatch) (t : Tui E) (e : TuiEvent E) : List (Deed E) → Prop
  | idle {calls : List Call} (h : ∀ c ∈ calls, c.inert = true) : Steps fuzzy t e [.note calls]
  | engine {transport : E.τ} (h : E.state transport = .playing → t.player.isPlaying = true) :
      Steps fuzzy t e [.engine transport]
  | turn {d : Deed E} (h : t.render.Does fuzzy e d) : Steps fuzzy t e [t.renderDeed, d]

theorem awaitOauth_playback (t : Tui E) (e : TuiEvent E) :
    ∃ calls : List Call, (∀ c ∈ calls, c.inert = true) ∧
      (t.awaitOauth e).playback = t.playback.perform (.note calls) := by
  have hnone : ∃ calls : List Call, (∀ c ∈ calls, c.inert = true) ∧
      t.playback = t.playback.perform (.note calls) :=
    ⟨[], fun _ hc => absurd hc List.not_mem_nil, rfl⟩
  cases e with
  | oauth result restored =>
    simp only [awaitOauth, endOauth]
    cases restored with
    | false => exact exit_playback _
    | true =>
      cases result with
      | none => exact hnone
      | some p =>
        obtain ⟨calls, hcalls, hnote⟩ := hnone
        refine ⟨calls, hcalls, ?_⟩
        exact (spawn_playback _ rfl).trans hnote
  | terminalFailed => exact exit_playback _
  | _ => exact hnone

theorem step_playback (fuzzy : App.FuzzyMatch) (t : Tui E) (e : TuiEvent E) :
    ∃ ds, t.Steps fuzzy e ds ∧ (t.step fuzzy e).playback = ds.foldl Playback.perform t.playback := by
  have hidle : ∃ ds, t.Steps fuzzy e ds ∧ t.playback = ds.foldl Playback.perform t.playback :=
    ⟨_, .idle fun _ hc => absurd hc List.not_mem_nil, rfl⟩
  have hstepped := stepped fuzzy t e
  generalize t.step fuzzy e = u at hstepped ⊢
  cases hstepped with
  | stays => exact hidle
  | mirrors r hdrives =>
    rw [t.drive_playback hdrives]
    exact hidle
  | moves transport =>
    unfold engineMoves
    split
    · exact hidle
    · rename_i hstarts
      refine ⟨_, .engine fun hplaying => ?_, rfl⟩
      exact decide_eq_true (not_not.1 fun h => hstarts ⟨hplaying, h⟩)
  | awaits =>
    obtain ⟨calls, hcalls, hnote⟩ := t.awaitOauth_playback e
    exact ⟨_, .idle hcalls, hnote⟩
  | turns =>
    have hleads : t.render.Leads fuzzy e (t.loopTurn fuzzy e) := by
      unfold loopTurn
      dsimp only
      split
      · exact leads_exit _
      · exact leads_handle fuzzy _ e
    obtain ⟨d, hdoes, hd⟩ := hleads
    refine ⟨_, .turn hdoes, hd.trans ?_⟩
    rw [render_playback]
    rfl

theorem step_kept (fuzzy : App.FuzzyMatch) (t : Tui E) (e : TuiEvent E) :
    (t.step fuzzy e).playback.drives = t.playback.drives ∧
      (t.step fuzzy e).playback.linked = t.playback.linked := by
  obtain ⟨ds, -, hplayback⟩ := step_playback fuzzy t e
  rw [hplayback]
  exact t.playback.foldl_kept ds

end Tui

end Atradio.Cli
