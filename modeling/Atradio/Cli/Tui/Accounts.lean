import Atradio.Lib.Run
import Atradio.Cli.Tui.Driving

/-! # Whose lists the terminal UI shows -/

namespace Atradio.Cli
open Atradio.Audio Atradio.Connect Atradio.Lib

deriving instance DecidableEq for AccountList

def App.holds (a : App) : AccountList → Bool
  | .favorites => !a.favorites.isEmpty
  | .stations => !a.stations.isEmpty
  | .profileRecent => !a.profileRecent.isEmpty
  | .notifications => !a.notifications.isEmpty

def Call.syncs : Call → Bool
  | .fetched _ _ | .saveSettings _ _ | .putAudio _ _ => true
  | .load _ | .playUrl _ _ | .player _ | .command _ _ | .broadcast _ | .listed _ _ => false

/-- The account that the last response for a list was asked for. -/
def lastListed (list : AccountList) : List Call → Option Profile
  | [] => none
  | .listed l actor :: calls => if l = list then some actor else lastListed list calls
  | _ :: calls => lastListed list calls

def Msg.list : Msg → Option AccountList
  | .favorites _ => some .favorites
  | .stations _ => some .stations
  | .profileRecent _ => some .profileRecent
  | .notifications _ _ => some .notifications
  | _ => none

def Msg.nonEmpty : Msg → Bool
  | .favorites items | .stations items | .profileRecent items => !items.isEmpty
  | .notifications items _ => !items.isEmpty
  | _ => false

theorem clampSelection_holds (a : App) (list : AccountList) :
    a.clampSelection.holds list = a.holds list := by
  unfold App.clampSelection
  dsimp only
  split_ifs <;> rfl

theorem clampProfile_holds (a : App) (list : AccountList) :
    a.clampProfile.holds list = a.holds list := by
  unfold App.clampProfile
  split_ifs <;> rfl

theorem applyMsg_holds (a : App) (msg : Msg) (list : AccountList) :
    (a.applyMsg msg).holds list =
      if msg.list = some list then msg.nonEmpty else a.holds list := by
  cases msg with
  | trending items => exact clampSelection_holds _ list
  | profileRecent items =>
    refine (clampProfile_holds _ list).trans ?_
    cases list <;> rfl
  | searchResults query items =>
    have hsame : (a.applyMsg (.searchResults query items)).holds list = a.holds list := by
      simp only [App.applyMsg]
      split <;> rfl
    exact hsame
  | favorites | stations | notifications => cases list <;> rfl
  | popular | recentGlobal | comments | signedIn | playResolved => rfl

theorem message_list {job : Job} {answer : Answer} {msg : Msg} (h : job.message answer = some msg) :
    msg.list = job.account.map Prod.fst := by
  cases job with
  | load list actor => cases list <;> cases answer <;> cases h <;> rfl
  | createStation draft actor =>
    cases actor <;> cases answer <;> cases h
    rfl
  | resolve s =>
    cases answer with
    | resolved r =>
      unfold Job.message at h
      dsimp only at h
      split at h <;> cases h
      rfl
    | _ => cases h
  | _ => cases answer <;> cases h <;> rfl

theorem message_rest {job : Job} {answer : Answer} {msg : Msg} (h : job.message answer = some msg)
    (a : App) :
    (a.applyMsg msg).loggedIn = a.loggedIn ∧ (a.applyMsg msg).overlay = a.overlay ∧
      (a.applyMsg msg).pendingOauth = a.pendingOauth := by
  cases msg with
  | signedIn p =>
    unfold Job.message at h
    split at h
    case h_10 => split at h <;> cases h
    all_goals cases h
  | trending items =>
    simp only [App.applyMsg, App.clampSelection]
    split_ifs <;> exact ⟨rfl, rfl, rfl⟩
  | profileRecent items =>
    simp only [App.applyMsg, App.clampProfile]
    split_ifs <;> exact ⟨rfl, rfl, rfl⟩
  | searchResults query items =>
    simp only [App.applyMsg]
    split <;> exact ⟨rfl, rfl, rfl⟩
  | popular | favorites | stations | recentGlobal | comments | notifications | playResolved =>
    exact ⟨rfl, rfl, rfl⟩

namespace Tui

variable {E : Engine} {fuzzy : App.FuzzyMatch} {t u : Tui E}

/-- What is shown of a list comes from a response for the account that is signed in. -/
def OwnedBy (t : Tui E) (list : AccountList) : Prop :=
  ∃ p ∈ t.session, ∃ q ∈ lastListed list t.calls, q.did = p.did

/-- No list shows anything of another account, or of any while nobody is signed in. -/
def Private (t : Tui E) : Prop := ∀ list, t.app.holds list = true → t.OwnedBy list

/-! ### What events keep -/

/-- What was done about the audio settings that are kept. -/
def synced (t : Tui E) : List Call := t.calls.filter Call.syncs

/-- What is asked of accounts, in one record. -/
structure Standing where
  holds : AccountList → Bool
  loggedIn : Bool
  session : Option Profile
  ended : Bool
  listed : AccountList → Option Profile
  synced : List Call

def standing (t : Tui E) : Standing :=
  ⟨t.app.holds, t.app.loggedIn, t.session, t.ended, fun list => lastListed list t.calls, t.synced⟩

structure Keeps (t u : Tui E) : Prop where
  standing : u.standing = t.standing
  prompt : u.app.overlay = .signIn → t.app.overlay = .signIn
  oauth : u.app.pendingOauth.isSome = true →
    t.app.pendingOauth.isSome = true ∨ t.app.overlay = .signIn

theorem Keeps.refl (t : Tui E) : t.Keeps t := ⟨rfl, id, .inl⟩

theorem Keeps.trans {v : Tui E} (h : t.Keeps u) (h' : u.Keeps v) : t.Keeps v where
  standing := h'.standing.trans h.standing
  prompt ho := h.prompt (h'.prompt ho)
  oauth ho := (h'.oauth ho).elim h.oauth fun hp => .inr (h.prompt hp)

theorem keeps_spawn (t : Tui E) (jobs : List Job) : t.Keeps (t.spawn jobs) :=
  ⟨rfl, id, .inl⟩

theorem keeps_drive (t : Tui E) (r : GrpcRemote) : t.Keeps (t.drive r) :=
  ⟨rfl, id, .inl⟩

theorem keeps_player (t : Tui E) (c : PlayerCall) : t.Keeps (t.callPlayer c) :=
  ⟨rfl, id, .inl⟩

theorem keeps_command (t : Tui E) (target : String) (cmd : RemoteCmd) :
    t.Keeps (t.command target cmd) :=
  ⟨rfl, id, .inl⟩

theorem keeps_startPlaying (t : Tui E) (s : StationInfo) : t.Keeps (t.startPlaying s) :=
  ⟨rfl, id, .inl⟩

section Keys

theorem keeps_moveUp (t : Tui E) : t.Keeps (t.edit App.moveUp) := by
  unfold edit App.moveUp
  split <;> exact ⟨rfl, id, .inl⟩

theorem keeps_moveDown (t : Tui E) : t.Keeps (t.edit App.moveDown) := by
  unfold edit App.moveDown
  split
  · split <;> exact ⟨rfl, id, .inl⟩
  · split <;> exact ⟨rfl, id, .inl⟩
  · split <;> exact ⟨rfl, id, .inl⟩
  · exact ⟨rfl, id, .inl⟩

theorem keeps_routed {t u : Tui E} (cmd : RemoteCmd) (h : t.Keeps u) :
    t.Keeps ((t.routeRemote cmd).getD u) := by
  rcases t.routeRemote_cases cmd with ⟨-, hroute⟩ | ⟨target, -, hroute⟩
  · rw [hroute]
    exact h
  · rw [hroute]
    exact t.keeps_command target cmd

theorem keeps_adjust (t : Tui E) (dir : ℤ) : t.Keeps (t.adjustOrVolume dir) := by
  unfold adjustOrVolume
  split
  · split
    · exact t.keeps_drive _
    · split
      · exact ⟨rfl, id, .inl⟩
      · exact .refl t
  · dsimp only
    split
    · exact t.keeps_drive _
    · unfold routeRemoteVolume
      cases t.app.remoteTargetDevice with
      | none => exact t.keeps_player _
      | some dev => exact keeps_routed _ (t.keeps_player _)

theorem keeps_playSelected (t : Tui E) : t.Keeps t.playSelected := by
  unfold playSelected
  split
  · exact .refl t
  · split
    · exact t.keeps_drive _
    · split
      · exact keeps_routed _ (t.keeps_startPlaying _)
      · exact t.keeps_startPlaying _

theorem keeps_takeBack (t : Tui E) : t.Keeps t.takeBack := by
  unfold takeBack
  split
  · exact .refl t
  · dsimp only
    split
    · exact ⟨rfl, id, .inl⟩
    · exact ⟨rfl, id, .inl⟩

theorem keeps_pickDevice (t : Tui E) : t.Keeps t.pickDevice := by
  unfold pickDevice
  split
  · split
    · exact t.keeps_drive _
    · split
      · exact t.keeps_drive _
      · exact .refl t
  · split
    · exact t.keeps_takeBack
    · split
      · exact ⟨rfl, id, .inl⟩
      · exact .refl t

theorem keeps_openNotifications (t : Tui E) : t.Keeps t.openNotifications := by
  unfold openNotifications
  dsimp only
  split
  · exact ⟨rfl, id, .inl⟩
  · exact ⟨rfl, id, .inl⟩

theorem keeps_openComments (t : Tui E) : t.Keeps t.openComments := by
  unfold openComments
  split
  · exact .refl t
  · exact ⟨rfl, id, .inl⟩

theorem keeps_favoriteSelected (t : Tui E) : t.Keeps t.favoriteSelected := by
  unfold favoriteSelected
  split
  · exact .refl t
  · split
    · exact t.keeps_drive _
    · split
      · exact t.keeps_spawn _
      · exact .refl t

theorem keeps_turn (t : Tui E) (dir : ℤ) (tab : HomeTab → HomeTab) : t.Keeps (t.turn dir tab) := by
  unfold turn
  split
  · exact t.keeps_adjust dir
  · split
    · exact ⟨rfl, id, .inl⟩
    · exact .refl t

theorem keeps_transport (t : Tui E) {f : GrpcRemote → GrpcRemote} {cmd : RemoteCmd} {u : Tui E}
    (h : t.Keeps u) :
    t.Keeps (match t.app.grpcRemote with
      | some r => t.drive (f r)
      | none => (t.routeRemote cmd).getD u) := by
  split
  · exact t.keeps_drive _
  · exact keeps_routed _ h

theorem keeps_act (t : Tui E) {action : Action} (hsignin : action ≠ .signin) :
    t.Keeps (t.act action) := by
  cases action with
  | signin => exact absurd rfl hsignin
  | quit | home | tab | dsp | profile | help => exact ⟨rfl, id, .inl⟩
  | search => exact ⟨rfl, fun h => (by cases h), .inl⟩
  | nothing => exact .refl t
  | notifications => exact t.keeps_openNotifications
  | comments => exact t.keeps_openComments
  | favorite => exact t.keeps_favoriteSelected
  | up => exact t.keeps_moveUp
  | down => exact t.keeps_moveDown
  | adjust dir => exact t.keeps_adjust dir
  | left => exact t.keeps_turn _ _
  | right => exact t.keeps_turn _ _
  | enter => exact t.keeps_playSelected
  | mute => exact t.keeps_transport (t.keeps_player _)
  | playPause => exact t.keeps_transport (t.keeps_player _)
  | stop =>
    exact t.keeps_transport ⟨rfl, id, .inl⟩
  | back =>
    simp only [act]
    split
    · exact ⟨rfl, id, .inl⟩
    · exact ⟨rfl, id, .inl⟩
  | compose =>
    simp only [act]
    split
    · exact .refl t
    · exact ⟨rfl, fun h => (by cases h), .inl⟩
  | devices =>
    simp only [act]
    split
    · exact ⟨rfl, fun h => (by cases h), .inl⟩
    · exact .refl t
  | addStation =>
    simp only [act]
    split
    · exact ⟨rfl, fun h => (by cases h), .inl⟩
    · exact .refl t
  | nextTab =>
    simp only [act]
    split
    · exact ⟨rfl, id, .inl⟩
    · exact .refl t

theorem keeps_search (t : Tui E) (code : KeyCode) : t.Keeps (t.handleSearchKeys fuzzy code) := by
  cases code with
  | esc => exact ⟨rfl, fun h => (by cases h), .inl⟩
  | enter =>
    simp only [handleSearchKeys]
    split
    · exact ⟨rfl, fun h => (by cases h), .inl⟩
    · exact .refl t
  | down =>
    simp only [handleSearchKeys]
    split
    · exact ⟨rfl, id, .inl⟩
    · exact .refl t
  | char | up | backspace => exact ⟨rfl, id, .inl⟩
  | left | right | tab | backTab | other => exact .refl t

theorem keeps_compose (t : Tui E) (code : KeyCode) : t.Keeps (t.handleComposeKeys code) := by
  cases code with
  | esc => exact ⟨rfl, fun h => (by cases h), .inl⟩
  | enter =>
    have hclosed : t.Keeps (t.edit fun a => { a with overlay := .none, composeText := "" }) :=
      ⟨rfl, fun h => (by cases h), .inl⟩
    simp only [handleComposeKeys]
    split
    · exact hclosed
    · split
      · exact hclosed
      · unfold postComment
        split
        · exact hclosed.trans (keeps_drive _ _)
        · split
          · exact hclosed.trans (keeps_spawn _ _)
          · exact hclosed
  | char | backspace => exact ⟨rfl, id, .inl⟩
  | up | down | left | right | tab | backTab | other => exact .refl t

theorem keeps_addStation (t : Tui E) (code : KeyCode) : t.Keeps (t.handleAddStationKeys code) := by
  cases code with
  | esc => exact ⟨rfl, fun h => (by cases h), .inl⟩
  | enter =>
    simp only [handleAddStationKeys]
    split
    · exact ⟨rfl, fun h => (by cases h), .inl⟩
    · exact .refl t
  | char | up | down | tab | backTab | backspace => exact ⟨rfl, id, .inl⟩
  | left | right | other => exact .refl t

theorem keeps_devices (t : Tui E) (code : KeyCode) : t.Keeps (t.handleDevicesKeys code) := by
  unfold handleDevicesKeys
  split
  · exact ⟨rfl, fun h => (by cases h), .inl⟩
  · exact ⟨rfl, fun h => (by cases h), .inl⟩
  · exact ⟨rfl, fun h => (by cases h), .inl⟩
  · exact ⟨rfl, id, .inl⟩
  · exact ⟨rfl, id, .inl⟩
  · unfold edit
    dsimp only
    split <;> exact ⟨rfl, id, .inl⟩
  · unfold edit
    dsimp only
    split <;> exact ⟨rfl, id, .inl⟩
  · exact t.keeps_pickDevice.trans ⟨rfl, fun h => (by cases h), .inl⟩
  · exact .refl t

theorem keeps_signinKeys (t : Tui E) (ho : t.app.overlay = .signIn) (code : KeyCode) :
    t.Keeps (t.edit fun a => a.handleSigninKeys code) := by
  cases code with
  | esc => exact ⟨rfl, fun h => (by cases h), .inl⟩
  | enter =>
    simp only [edit, App.handleSigninKeys]
    split
    · exact ⟨rfl, id, .inl⟩
    · exact ⟨rfl, fun _ => ho, fun _ => .inr ho⟩
  | char | backspace => exact ⟨rfl, id, .inl⟩
  | up | down | left | right | tab | backTab | other => exact ⟨rfl, id, .inl⟩

/-- A key that signs in or out. -/
def togglesSignin (t : Tui E) (key : KeyEvent) : Bool :=
  match key.code.action with
  | .signin => !key.release && t.app.overlay = .none
  | _ => false

theorem keeps_handleEvent (fuzzy : App.FuzzyMatch) (t : Tui E) (key : KeyEvent) :
    t.Keeps (t.handleEvent fuzzy key) ∨
      t.togglesSignin key = true ∧ t.handleEvent fuzzy key = t.toggleSignin := by
  unfold handleEvent
  split
  · exact .inl (.refl t)
  · split
    · exact .inl ⟨rfl, id, .inl⟩
    · split
      · exact .inl (t.keeps_search _)
      · exact .inl (t.keeps_compose _)
      · exact .inl (t.keeps_signinKeys ‹_› _)
      · exact .inl (t.keeps_addStation _)
      · exact .inl (t.keeps_devices _)
      · rename_i hrelease _ _ ho
        cases haction : key.code.action with
        | signin =>
          refine .inr ⟨?_, rfl⟩
          simp [togglesSignin, haction, ho, hrelease]
        | _ => exact .inl (t.keeps_act fun h => by cases h)

end Keys

theorem keeps_render (hr : t.app.grpcRemote = none) : t.Keeps t.render := by
  unfold render
  rw [hr]
  exact ⟨rfl, id, .inl⟩

theorem keeps_remoteCmd (t : Tui E) (cmd : RemoteCmd) : t.Keeps (t.applyRemoteCmd cmd) := by
  cases cmd with
  | loadStation s => exact ⟨rfl, id, .inl⟩
  | play | pause | playPause | stop | setVolume | toggleMute => exact t.keeps_player _

theorem keeps_grpcCmd (t : Tui E) (cmd : GrpcCmd) : t.Keeps (t.applyGrpcCmd cmd) := by
  cases cmd with
  | remote cmd => exact t.keeps_remoteCmd cmd
  | setAudio dsp => exact ⟨rfl, id, .inl⟩
  | listStations source limit => exact .refl t
  | adjustDspRow row dir =>
    simp only [applyGrpcCmd]
    split
    · exact ⟨rfl, id, .inl⟩
    · exact .refl t
  | favorite s =>
    simp only [applyGrpcCmd]
    split
    · exact t.keeps_spawn _
    · exact .refl t
  | comment s text =>
    simp only [applyGrpcCmd]
    split
    · exact t.keeps_spawn _
    · exact .refl t
  | setConnectTarget target =>
    cases target with
    | none => exact t.keeps_takeBack
    | some id => exact ⟨rfl, fun h => h, .inl⟩

theorem keeps_remoteEvent (t : Tui E) (evt : RemoteEvent) : t.Keeps (t.applyRemoteEvent evt) := by
  cases evt with
  | presence anyPlaying cleanup =>
    simp only [applyRemoteEvent]
    split
    · exact t.keeps_spawn _
    · exact .refl t
  | status | devices | welcome | authExpired => exact ⟨rfl, id, .inl⟩

theorem keeps_tick (t : Tui E) : t.Keeps t.tick := by
  have hsearch : t.Keeps t.fireSearch := by
    unfold fireSearch
    split
    · dsimp only
      split
      · exact ⟨rfl, id, .inl⟩
      · exact ⟨rfl, id, .inl⟩
    · exact .refl t
  have hlists (u : Tui E) : u.Keeps u.refreshLists := by
    unfold refreshLists
    split
    · exact .refl u
    · split
      · exact ⟨rfl, id, .inl⟩
      · exact ⟨rfl, id, .inl⟩
  exact hsearch.trans (hlists _)

/-! ### The guard -/

/-- The account of a response that shows something. -/
def response (t : Tui E) : TuiEvent E → Option Profile
  | .done i answer =>
    t.jobs[i]?.bind fun job => (job.message answer).bind fun msg =>
      if msg.nonEmpty then job.account.map Prod.snd else none
  | _ => none

def signsOut (t : Tui E) : TuiEvent E → Bool
  | .key key => t.togglesSignin key && t.app.loggedIn
  | _ => false

/-- Whoever signs out leaves no stations and no history behind, and a response that shows something
comes while its account is signed in. -/
def AccountGuard (t : Tui E) (e : TuiEvent E) : Prop :=
  (t.signsOut e = true → t.app.stations = [] ∧ t.app.profileRecent = []) ∧
  ∀ actor ∈ t.response e, t.session.map Profile.did = some actor.did

/-- The lists of a driving instance are those of the driven one. -/
def AccountGuarded (t : Tui E) (e : TuiEvent E) : Prop :=
  t.app.grpcRemote.isSome = false ∧ t.render.AccountGuard e

instance (t : Tui E) (e : TuiEvent E) : Decidable (t.AccountGuarded e) :=
  inferInstanceAs (Decidable (_ ∧ ((t.render.signsOut e = true →
    t.render.app.stations = [] ∧ t.render.app.profileRecent = []) ∧
    ∀ actor ∈ t.render.response e, t.render.session.map Profile.did = some actor.did)))

/-! ### Runs -/

structure Inv (t : Tui E) : Prop where
  own : t.Private
  loggedIn : t.ended = false → t.app.loggedIn = t.session.isSome
  prompt : t.app.overlay = .signIn → t.session = none
  oauth : t.app.pendingOauth.isSome = true → t.session = none

theorem Inv.keeps (h : t.Inv) (hk : t.Keeps u) : u.Inv := by
  have hs := hk.standing
  have hholds : u.app.holds = t.app.holds := congrArg Standing.holds hs
  have hsession : u.session = t.session := congrArg Standing.session hs
  have hlisted (list : AccountList) : lastListed list u.calls = lastListed list t.calls :=
    congrFun (congrArg Standing.listed hs) list
  refine ⟨fun list hlist => ?_, fun hended => ?_, fun ho => ?_, fun ho => ?_⟩
  · obtain ⟨p, hp, q, hq, hdid⟩ := h.own list (hholds ▸ hlist)
    exact ⟨p, hsession.trans hp, q, (hlisted list).trans hq, hdid⟩
  · have hlogged := h.loggedIn ((congrArg Standing.ended hs).symm.trans hended)
    exact (congrArg Standing.loggedIn hs).trans (hlogged.trans (hsession ▸ rfl))
  · exact hsession.trans (h.prompt (hk.prompt ho))
  · exact hsession.trans ((hk.oauth ho).elim h.oauth h.prompt)

theorem Inv.received (h : t.Inv) {job : Job} {answer : Answer} {msg : Msg}
    (hmsg : job.message answer = some msg)
    (hown : msg.nonEmpty = true → ∀ x ∈ job.account, t.session.map Profile.did = some x.2.did) :
    (t.receive job msg).Inv := by
  obtain ⟨hlogged, hoverlay, hoauth⟩ := message_rest hmsg t.app
  have hlist := message_list hmsg
  unfold Tui.receive
  split
  · split
    · split
      · exact h.keeps ⟨rfl, id, .inl⟩
      · exact h
    · exact h
  · dsimp only
    cases haccount : job.account with
    | none =>
      rw [haccount] at hlist
      refine ⟨fun list hholds => ?_, fun hended => hlogged.trans (h.loggedIn hended),
        fun ho => h.prompt (hoverlay.symm.trans ho), fun ho => h.oauth (hoauth ▸ ho)⟩
      have hsame := (applyMsg_holds t.app msg list).symm.trans hholds
      rw [hlist] at hsame
      exact h.own list hsame
    | some x =>
      obtain ⟨l, actor⟩ := x
      rw [haccount] at hlist hown
      refine ⟨fun list hholds => ?_, fun hended => hlogged.trans (h.loggedIn hended),
        fun ho => h.prompt (hoverlay.symm.trans ho), fun ho => h.oauth (hoauth ▸ ho)⟩
      have hsame := (applyMsg_holds t.app msg list).symm.trans hholds
      rw [hlist] at hsame
      by_cases hl : l = list
      · subst hl
        have hdid := hown ((if_pos rfl).symm.trans hsame) (l, actor) rfl
        obtain ⟨p, hp, hpdid⟩ := Option.map_eq_some_iff.1 hdid
        exact ⟨p, hp, actor, if_pos rfl, hpdid.symm⟩
      · have hne : some l ≠ some list := fun heq => hl (Option.some.inj heq)
        obtain ⟨p, hp, q, hq, hdid⟩ := h.own list ((if_neg hne).symm.trans hsame)
        exact ⟨p, hp, q, (if_neg hl).trans hq, hdid⟩

theorem Inv.finished (h : t.Inv) {i : ℕ} {answer : Answer}
    (hown : ∀ actor ∈ t.response (.done i answer), t.session.map Profile.did = some actor.did) :
    (t.finish i answer).Inv := by
  unfold finish
  cases hjob : t.jobs[i]? with
  | none => exact h
  | some job =>
    dsimp only
    have hrest : Inv { t with jobs := t.jobs.eraseIdx i ++ job.next answer } :=
      h.keeps ⟨rfl, id, .inl⟩
    cases hmsg : job.message answer with
    | none => exact hrest
    | some msg =>
      refine hrest.received hmsg fun hshows x hx => hown x.2 ?_
      unfold response
      dsimp only
      rw [hjob, Option.bind_some, hmsg, Option.bind_some, if_pos hshows, show job.account = some x from hx]
      rfl

theorem Inv.signin (h : t.Inv) (hended : t.ended = false)
    (hleft : t.app.loggedIn = true → t.app.stations = [] ∧ t.app.profileRecent = []) :
    t.toggleSignin.Inv := by
  unfold toggleSignin
  split
  · rename_i hin
    obtain ⟨hstations, hrecent⟩ := hleft hin
    refine ⟨fun list hholds => ?_, fun _ => rfl, fun _ => rfl, fun _ => rfl⟩
    cases list with
    | favorites | notifications => cases hholds
    | stations =>
      have hsome : (!t.app.stations.isEmpty) = true := hholds
      rw [hstations] at hsome
      cases hsome
    | profileRecent =>
      have hsome : (!t.app.profileRecent.isEmpty) = true := hholds
      rw [hrecent] at hsome
      cases hsome
  · rename_i hout
    have hnone : t.session = none := by
      have hlogged : t.app.loggedIn = false := Bool.not_eq_true _ ▸ hout
      exact Option.not_isSome_iff_eq_none.1 fun hsome => by
        cases ((h.loggedIn hended).symm.trans hlogged).symm.trans hsome
    exact ⟨fun list hholds => h.own list hholds, h.loggedIn, fun _ => hnone, h.oauth⟩

theorem Inv.empty (h : t.Inv) (hnone : t.session = none) (list : AccountList) :
    t.app.holds list = false := by
  by_contra hholds
  obtain ⟨p, hp, -⟩ := h.own list (Bool.not_eq_false _ ▸ hholds)
  cases hnone.symm.trans hp

theorem exit_app (t : Tui E) : t.exit.app = t.app := by
  unfold Tui.exit pushAudio
  split
  · rfl
  · dsimp only
    split <;> rfl

theorem exit_ended (t : Tui E) : t.exit.ended = true := by
  unfold Tui.exit
  split <;> rfl

theorem exit_session (t : Tui E) : t.exit.session = t.session := by
  unfold Tui.exit pushAudio
  split
  · rfl
  · dsimp only
    split <;> rfl

theorem exit_listed (t : Tui E) (list : AccountList) :
    lastListed list t.exit.calls = lastListed list t.calls := by
  unfold Tui.exit pushAudio
  split
  · rfl
  · dsimp only
    split <;> rfl

theorem Inv.exit (h : t.Inv) : t.exit.Inv := by
  refine ⟨fun list hholds => ?_, fun hended => ?_, fun ho => ?_, fun ho => ?_⟩
  · obtain ⟨p, hp, q, hq, hdid⟩ := h.own list (t.exit_app ▸ hholds)
    exact ⟨p, t.exit_session.trans hp, q, (t.exit_listed list).trans hq, hdid⟩
  · cases t.exit_ended.symm.trans hended
  · exact t.exit_session.trans (h.prompt (t.exit_app ▸ ho))
  · exact t.exit_session.trans (h.oauth (t.exit_app ▸ ho))

theorem inv_left (hempty : ∀ list, t.app.holds list = false) (hoverlay : t.app.overlay = .none)
    (hoauth : t.app.pendingOauth = none) : t.exit.Inv := by
  refine ⟨fun list hholds => ?_, fun hended => ?_, fun ho => ?_, fun ho => ?_⟩
  · cases (hempty list).symm.trans (t.exit_app ▸ hholds)
  · cases t.exit_ended.symm.trans hended
  · cases hoverlay.symm.trans (t.exit_app ▸ ho)
  · rw [t.exit_app, hoauth] at ho
    cases ho

theorem Inv.oauthEnds (h : t.Inv) (hnone : t.session = none) (result : Option Profile)
    (restored : Bool) : (t.endOauth result restored).Inv := by
  have hempty := h.empty hnone
  unfold endOauth
  cases restored with
  | false => exact inv_left hempty rfl rfl
  | true =>
    cases result with
    | none => exact h.keeps ⟨rfl, fun ho => (by cases ho), fun ho => (by cases ho)⟩
    | some p =>
      refine ⟨fun list hholds => ?_, fun _ => rfl, fun ho => (by cases ho), fun ho => (by cases ho)⟩
      cases (hempty list).symm.trans hholds

theorem inv_awaitOauth (h : t.Inv) (hnone : t.session = none) (e : TuiEvent E) : (t.awaitOauth e).Inv := by
  cases e with
  | oauth result restored => exact h.oauthEnds hnone result restored
  | terminalFailed =>
    have hclosed : t.closePrompt.Inv :=
      h.keeps ⟨rfl, fun ho => (by cases ho), fun ho => (by cases ho)⟩
    exact hclosed.exit
  | key | done | mpris | peer | grpc | hub | tick | mirror | engine => exact h

theorem inv_handle (h : t.Inv) (hended : t.ended = false) {e : TuiEvent E}
    (hleft : t.signsOut e = true → t.app.stations = [] ∧ t.app.profileRecent = [])
    (hown : ∀ actor ∈ t.response e, t.session.map Profile.did = some actor.did) :
    (t.handle fuzzy e).Inv := by
  cases e with
  | key key =>
    rcases keeps_handleEvent fuzzy t key with hk | ⟨htoggles, hsignin⟩
    · exact h.keeps hk
    · refine (congrArg Inv hsignin).mpr (h.signin hended fun hin => hleft ?_)
      rw [signsOut, htoggles, hin]
      rfl
  | done i answer => exact h.finished hown
  | mpris cmd => exact h.keeps (t.keeps_player _)
  | peer cmd =>
    simp only [handle]
    split
    · exact h.keeps (t.keeps_remoteCmd cmd)
    · exact h
  | grpc cmd =>
    simp only [handle]
    split
    · exact h
    · exact h.keeps (t.keeps_grpcCmd cmd)
  | hub evt =>
    simp only [handle]
    split
    · exact h.keeps (t.keeps_remoteEvent evt)
    · exact h
  | tick => exact h.keeps t.keeps_tick
  | terminalFailed => exact h.exit
  | oauth | mirror | engine => exact h

theorem inv_step (h : t.Inv) {e : TuiEvent E} (hg : t.AccountGuarded e) :
    (t.step fuzzy e).Inv := by
  have hr : t.app.grpcRemote = none := Option.not_isSome_iff_eq_none.1 (by simp [hg.1])
  have hstepped := stepped fuzzy t e
  generalize t.step fuzzy e = u at hstepped ⊢
  cases hstepped with
  | stays => exact h
  | mirrors r hdrives => exact absurd (hdrives.symm.trans hg.1) Bool.noConfusion
  | moves transport =>
    unfold engineMoves
    split
    · exact h
    · exact h.keeps ⟨rfl, id, .inl⟩
  | awaits hrunning hoauth => exact inv_awaitOauth h (h.oauth hoauth) e
  | turns hrunning =>
    have hk := keeps_render hr
    unfold loopTurn
    dsimp only
    split
    · exact (h.keeps hk).exit
    · exact inv_handle (h.keeps hk) ((congrArg Standing.ended hk.standing).trans hrunning) hg.2.1
        hg.2.2

theorem inv_start (s : Startup) : (start s : Tui E).Inv := by
  unfold start
  cases s.profile with
  | none =>
    exact ⟨fun list hholds => (by cases list <;> cases hholds), fun _ => rfl,
      fun ho => (by cases ho), fun ho => (by cases ho)⟩
  | some account =>
    unfold pullAudio
    cases s.fetched with
    | record | nothing | failed =>
      exact ⟨fun list hholds => (by cases list <;> cases hholds), fun _ => rfl,
        fun ho => (by cases ho), fun ho => (by cases ho)⟩

/-- Where every step of a run is guarded, every list shown is the one of the account. -/
theorem private_of_guarded (fuzzy : App.FuzzyMatch) (s : Startup) (es : List (TuiEvent E))
    (hg : AllSteps (step fuzzy) AccountGuarded (start s) es) :
    (run (step fuzzy) (start s) es).Private :=
  (run_invariant (I := Inv) (fun _ _ h hg => inv_step h hg) (inv_start s) hg).own

/-- The account is signed in at the start, one of its lists arrives, and it signs out. -/
def listThenOut (list : ℕ) : List (TuiEvent sampleEngine) :=
  [.done list (.stations [sampleStation]), .key { code := .char 's' }]

def sampleSignedIn : Startup := { sampleStartup with profile := some sampleAccount }

theorem favorites_cleared :
    (run (step fun _ _ => none) (start sampleSignedIn) (listThenOut 3)).Private :=
  private_of_guarded _ sampleSignedIn _ (by decide +kernel)

/-- The stations of the account stay. -/
theorem stations_left :
    ¬ (run (step fun _ _ => none) (start sampleSignedIn) (listThenOut 4)).Private := by
  intro h
  obtain ⟨p, hp, -⟩ := h .stations (by decide +kernel)
  have hout : (run (step fun _ _ => none) (start sampleSignedIn)
      (listThenOut 4)).session.isSome = false := by decide +kernel
  rw [show _ = some p from hp] at hout
  cases hout

end Tui

end Atradio.Cli
