import Atradio.Cli.Tui.Accounts

/-! # Whose comments the terminal UI shows

A response for comments does not say which station it is for. -/

namespace Atradio.Cli
open Atradio.Audio Atradio.Connect Atradio.Lib

/-- What the comments view shows. -/
structure Reading where
  view : View
  comments : List CommentView
  station : Option StationInfo

def App.reading (a : App) : Reading := ⟨a.view, a.comments, a.commentsStation⟩

/-- What is shown as comments is what was shown, of the same station, or nothing. -/
def Reading.Keeps (r r' : Reading) : Prop :=
  r'.view = .comments → r'.comments = [] ∨
    (r.view = .comments ∧ r'.comments = r.comments ∧ ∀ s ∈ r.station, r'.station = some s)

theorem Reading.Keeps.refl (r : Reading) : r.Keeps r := fun h => .inr ⟨h, rfl, fun _ hs => hs⟩

theorem Reading.Keeps.away {r r' : Reading} (h : r'.view ≠ .comments) : r.Keeps r' :=
  fun h' => (h h').elim

theorem clampSelection_reading (a : App) : a.clampSelection.reading = a.reading := by
  unfold App.clampSelection
  dsimp only
  split_ifs <;> rfl

theorem clampProfile_reading (a : App) : a.clampProfile.reading = a.reading := by
  unfold App.clampProfile
  split_ifs <;> rfl

theorem mirrored_reading (a : App) (r : GrpcRemote) : (a.mirrored r).reading = a.reading := by
  unfold App.mirrored
  rw [clampProfile_reading, clampSelection_reading]
  rfl

theorem applyMsg_reading (a : App) {msg : Msg} (h : ∀ items, msg ≠ .comments items) :
    (a.applyMsg msg).reading = a.reading := by
  cases msg with
  | comments items => exact absurd rfl (h items)
  | trending items => exact clampSelection_reading _
  | profileRecent items => exact clampProfile_reading _
  | searchResults query items =>
    simp only [App.applyMsg]
    split <;> rfl
  | popular | favorites | stations | recentGlobal | notifications | signedIn | playResolved => rfl

namespace Tui

variable {E : Engine} {fuzzy : App.FuzzyMatch}

/-! ### What leaves the comments view alone -/

theorem routed_reading (t : Tui E) (cmd : RemoteCmd) {u : Tui E}
    (h : u.app.reading = t.app.reading) :
    ((t.routeRemote cmd).getD u).app.reading = t.app.reading := by
  rcases t.routeRemote_cases cmd with ⟨-, hroute⟩ | ⟨target, -, hroute⟩
  · rw [hroute]
    exact h
  · rw [hroute]
    rfl

theorem adjustOrVolume_reading (t : Tui E) (dir : ℤ) :
    (t.adjustOrVolume dir).app.reading = t.app.reading := by
  unfold adjustOrVolume
  split
  · split
    · rfl
    · split <;> rfl
  · dsimp only
    split
    · rfl
    · unfold routeRemoteVolume
      cases t.app.remoteTargetDevice with
      | none => rfl
      | some dev => exact t.routed_reading _ rfl

theorem playSelected_reading (t : Tui E) : t.playSelected.app.reading = t.app.reading := by
  unfold playSelected
  split
  · rfl
  · split
    · rfl
    · split
      · exact t.routed_reading _ rfl
      · rfl

theorem takeBack_reading (t : Tui E) : t.takeBack.app.reading = t.app.reading := by
  unfold takeBack
  split
  · rfl
  · dsimp only
    split <;> rfl

theorem pickDevice_reading (t : Tui E) : t.pickDevice.app.reading = t.app.reading := by
  unfold pickDevice
  split
  · split
    · rfl
    · split <;> rfl
  · split
    · exact t.takeBack_reading
    · split <;> rfl

theorem favoriteSelected_reading (t : Tui E) : t.favoriteSelected.app.reading = t.app.reading := by
  unfold favoriteSelected
  split
  · rfl
  · split
    · rfl
    · split <;> rfl

theorem moveUp_reading (a : App) : a.moveUp.reading = a.reading := by
  unfold App.moveUp
  split <;> rfl

theorem moveDown_reading (a : App) : a.moveDown.reading = a.reading := by
  unfold App.moveDown
  split
  · split <;> rfl
  · split <;> rfl
  · split <;> rfl
  · rfl

theorem turn_reading (t : Tui E) (dir : ℤ) (tab : HomeTab → HomeTab) :
    (t.turn dir tab).app.reading = t.app.reading := by
  unfold turn
  split
  · exact t.adjustOrVolume_reading dir
  · split <;> rfl

theorem transport_reading (t : Tui E) {f : GrpcRemote → GrpcRemote} {cmd : RemoteCmd} {u : Tui E}
    (h : u.app.reading = t.app.reading) :
    (match t.app.grpcRemote with
      | some r => t.drive (f r)
      | none => (t.routeRemote cmd).getD u).app.reading = t.app.reading := by
  split
  · rfl
  · exact t.routed_reading cmd h

theorem postComment_reading (t : Tui E) (s : StationInfo) (text : String) :
    (t.postComment s text).app.reading = t.app.reading := by
  unfold postComment
  split
  · rfl
  · split <;> rfl

theorem exit_reading (t : Tui E) : t.exit.app.reading = t.app.reading := by rw [exit_app]

theorem search_reading (t : Tui E) (code : KeyCode) :
    (t.handleSearchKeys fuzzy code).app.reading = t.app.reading := by
  cases code with
  | enter =>
    simp only [handleSearchKeys]
    split <;> rfl
  | down =>
    simp only [handleSearchKeys]
    split <;> rfl
  | _ => rfl

theorem compose_reading (t : Tui E) (code : KeyCode) :
    (t.handleComposeKeys code).app.reading = t.app.reading := by
  cases code with
  | enter =>
    simp only [handleComposeKeys]
    split
    · rfl
    · split
      · rfl
      · rw [postComment_reading]
        rfl
  | _ => rfl

theorem addStation_reading (t : Tui E) (code : KeyCode) :
    (t.handleAddStationKeys code).app.reading = t.app.reading := by
  cases code with
  | enter =>
    simp only [handleAddStationKeys]
    split <;> rfl
  | _ => rfl

theorem devices_reading (t : Tui E) (code : KeyCode) :
    (t.handleDevicesKeys code).app.reading = t.app.reading := by
  unfold handleDevicesKeys
  split
  · rfl
  · rfl
  · rfl
  · rfl
  · rfl
  · unfold edit
    dsimp only
    split <;> rfl
  · unfold edit
    dsimp only
    split <;> rfl
  · exact t.pickDevice_reading
  · rfl

theorem signinKeys_reading (a : App) (code : KeyCode) :
    (a.handleSigninKeys code).reading = a.reading := by
  cases code with
  | enter =>
    simp only [App.handleSigninKeys]
    split <;> rfl
  | _ => rfl

theorem remoteCmd_reading (t : Tui E) (cmd : RemoteCmd) :
    (t.applyRemoteCmd cmd).app.reading = t.app.reading := by
  cases cmd <;> rfl

theorem grpcCmd_reading (t : Tui E) (cmd : GrpcCmd) :
    (t.applyGrpcCmd cmd).app.reading = t.app.reading := by
  cases cmd with
  | remote cmd => exact t.remoteCmd_reading cmd
  | setAudio | listStations => rfl
  | adjustDspRow | favorite | comment =>
    simp only [applyGrpcCmd]
    split <;> rfl
  | setConnectTarget target =>
    cases target with
    | none => exact t.takeBack_reading
    | some id => rfl

theorem remoteEvent_reading (t : Tui E) (evt : RemoteEvent) :
    (t.applyRemoteEvent evt).app.reading = t.app.reading := by
  cases evt with
  | presence anyPlaying cleanup =>
    simp only [applyRemoteEvent]
    split <;> rfl
  | _ => rfl

theorem tick_reading (t : Tui E) : t.tick.app.reading = t.app.reading := by
  have hsearch : t.fireSearch.app.reading = t.app.reading := by
    unfold fireSearch
    split
    · dsimp only
      split <;> rfl
    · rfl
  have hlists (u : Tui E) : u.refreshLists.app.reading = u.app.reading := by
    unfold refreshLists
    split
    · rfl
    · split <;> rfl
  exact (hlists _).trans hsearch

theorem render_reading (t : Tui E) : t.render.app.reading = t.app.reading := by
  unfold render
  split
  · exact mirrored_reading _ _
  · rfl

theorem awaitOauth_reading (t : Tui E) (e : TuiEvent E) :
    (t.awaitOauth e).app.reading = t.app.reading := by
  cases e with
  | oauth result restored =>
    simp only [awaitOauth, endOauth]
    split
    · split <;> rfl
    · exact exit_reading _
  | terminalFailed => exact exit_reading _
  | _ => rfl

/-! ### The keys -/

theorem keeps_of_eq {t u : Tui E} (h : u.app.reading = t.app.reading) :
    t.app.reading.Keeps u.app.reading := h ▸ .refl _

theorem compose_target (t : Tui E) {s : StationInfo} (h : t.app.commentTarget = some s)
    (hview : t.app.view = .comments) :
    ∀ s' ∈ t.app.commentsStation, some s = some s' := by
  intro s' hs'
  rw [App.commentTarget, hview] at h
  rw [Option.mem_def] at hs'
  simp only [hs'] at h
  exact h.symm

theorem act_keeps (t : Tui E) (action : Action) :
    t.app.reading.Keeps (t.act action).app.reading := by
  cases action with
  | quit | search | nothing => exact .refl _
  | home | tab | dsp | profile | help => exact .away fun hview => by cases hview
  | back =>
    simp only [act]
    split
    · exact .refl _
    · exact .away fun hview => by cases hview
  | notifications =>
    simp only [act, openNotifications]
    split <;> exact .away fun hview => by cases hview
  | comments =>
    simp only [act, openComments]
    split
    · exact .refl _
    · exact fun _ => .inl rfl
  | compose =>
    -- in the comments view the composer is for the station that is open
    simp only [act]
    split
    · exact .refl _
    · rename_i s hs
      exact fun hview => .inr ⟨hview, rfl, t.compose_target hs hview⟩
  | signin =>
    simp only [act, toggleSignin]
    split
    · intro hview
      refine .inr ⟨?_, rfl, fun _ hs => hs⟩
      by_contra hne
      have hview' : (if t.app.view = .profile then View.home else t.app.view) = .comments := hview
      split at hview'
      · cases hview'
      · exact hne hview'
    · exact .refl _
  | devices =>
    simp only [act]
    split <;> exact .refl _
  | addStation =>
    simp only [act]
    split <;> exact .refl _
  | nextTab =>
    simp only [act]
    split <;> exact .refl _
  | up => exact keeps_of_eq (moveUp_reading t.app)
  | down => exact keeps_of_eq (moveDown_reading t.app)
  | left => exact keeps_of_eq (t.turn_reading _ _)
  | right => exact keeps_of_eq (t.turn_reading _ _)
  | adjust dir => exact keeps_of_eq (t.adjustOrVolume_reading dir)
  | favorite => exact keeps_of_eq t.favoriteSelected_reading
  | enter => exact keeps_of_eq t.playSelected_reading
  | playPause => exact keeps_of_eq (t.transport_reading rfl)
  | mute => exact keeps_of_eq (t.transport_reading rfl)
  | stop => exact keeps_of_eq (t.transport_reading rfl)

theorem handleEvent_keeps (t : Tui E) (key : KeyEvent) :
    t.app.reading.Keeps (t.handleEvent fuzzy key).app.reading := by
  unfold handleEvent
  split
  · exact .refl _
  · split
    · exact .refl _
    · split
      · exact keeps_of_eq (t.search_reading _)
      · exact keeps_of_eq (t.compose_reading _)
      · exact keeps_of_eq (signinKeys_reading t.app _)
      · exact keeps_of_eq (t.addStation_reading _)
      · exact keeps_of_eq (t.devices_reading _)
      · exact t.act_keeps _

/-! ### Responses -/

/-- The loop takes messages of its jobs. -/
def listens (t : Tui E) : Bool := !t.ended && t.app.pendingOauth.isNone && !t.app.shouldQuit

/-- The station whose comments the event brings, where the loop takes it. -/
def heard (t : Tui E) : TuiEvent E → Option String
  | .done i (.comments _) =>
    match t.listens, t.jobs[i]? with
    | true, some (.comments stationId) => some stationId
    | _, _ => none
  | _ => none

theorem message_comments {job : Job} {answer : Answer} {items : List CommentView}
    (h : job.message answer = some (.comments items)) :
    (∃ stationId, job = .comments stationId) ∧ answer = .comments items := by
  cases job with
  | comments stationId => cases answer <;> cases h; exact ⟨⟨_, rfl⟩, rfl⟩
  | load list actor => cases list <;> cases answer <;> cases h
  | createStation draft actor => cases actor <;> cases answer <;> cases h
  | resolve s =>
    cases answer with
    | resolved r =>
      unfold Job.message at h
      dsimp only at h
      split at h <;> cases h
    | _ => cases h
  | _ => cases answer <;> cases h

theorem finish_comments {t : Tui E} {i : ℕ} {stationId : String}
    (h : t.jobs[i]? = some (.comments stationId)) (items : List CommentView) :
    (t.finish i (.comments items)).app.reading = { t.app.reading with comments := items } := by
  simp only [finish, h]
  rfl

theorem finish_reading {t : Tui E} {i : ℕ} {answer : Answer}
    (h : ∀ stationId items, t.jobs[i]? = some (.comments stationId) → answer ≠ .comments items) :
    (t.finish i answer).app.reading = t.app.reading := by
  unfold finish
  split
  · rfl
  · rename_i job hjob
    dsimp only
    split
    · rfl
    · rename_i msg hmsg
      have hother : ∀ items, msg ≠ .comments items := by
        rintro items rfl
        obtain ⟨⟨stationId, rfl⟩, hanswer⟩ := message_comments hmsg
        exact h stationId items hjob hanswer
      unfold receive
      split
      · split
        · split <;> rfl
        · rfl
      · dsimp only
        split
        · exact applyMsg_reading _ hother
        · exact applyMsg_reading _ hother

theorem render_jobs (t : Tui E) : t.render.jobs = t.jobs := by
  unfold render
  split <;> rfl

theorem render_shouldQuit (t : Tui E) : t.render.app.shouldQuit = t.app.shouldQuit := by
  unfold render
  split
  · simp only [edit, App.mirrored, App.clampProfile, App.clampSelection]
    split_ifs <;> rfl
  · rfl

theorem step_listening {t : Tui E} (h : t.listens = true) (i : ℕ) (answer : Answer) :
    t.step fuzzy (.done i answer) = t.render.finish i answer := by
  simp only [listens, Bool.and_eq_true, Bool.not_eq_true', Option.isNone_iff_eq_none] at h
  obtain ⟨⟨hended, hoauth⟩, hquit⟩ := h
  simp [step, hended, hoauth, loopTurn, render_shouldQuit, hquit, handle]

theorem loopTurn_quit {t : Tui E} (h : t.app.shouldQuit = true) (e : TuiEvent E) :
    (t.loopTurn fuzzy e).app.reading = t.app.reading := by
  simp only [loopTurn, render_shouldQuit, h, if_true]
  rw [exit_reading, render_reading]

theorem step_deaf {t : Tui E} (h : t.listens = false) (i : ℕ) (answer : Answer) :
    (t.step fuzzy (.done i answer)).app.reading = t.app.reading := by
  simp only [step]
  split
  · rfl
  · rename_i hended
    split
    · rfl
    · rename_i hoauth
      refine loopTurn_quit ?_ _
      simpa [listens, hended, hoauth] using h

theorem step_heard {t : Tui E} {i : ℕ} {items : List CommentView} {stationId : String}
    (h : t.heard (.done i (.comments items)) = some stationId) :
    (t.step fuzzy (.done i (.comments items))).app.reading =
      { t.app.reading with comments := items } := by
  simp only [heard] at h
  split at h
  · rename_i hlistens hjob
    cases h
    rw [← t.render_jobs] at hjob
    rw [step_listening hlistens, finish_comments hjob, render_reading]
  · cases h

theorem handle_keeps {t : Tui E} {e : TuiEvent E} (he : ∀ i answer, e ≠ .done i answer) :
    t.app.reading.Keeps (t.handle fuzzy e).app.reading := by
  cases e with
  | key key => exact t.handleEvent_keeps key
  | done i answer => exact absurd rfl (he i answer)
  | peer cmd =>
    simp only [handle]
    split
    · exact keeps_of_eq (t.remoteCmd_reading cmd)
    · exact .refl _
  | grpc cmd =>
    simp only [handle]
    split
    · exact .refl _
    · exact keeps_of_eq (t.grpcCmd_reading cmd)
  | hub evt =>
    simp only [handle]
    split
    · exact keeps_of_eq (t.remoteEvent_reading evt)
    · exact .refl _
  | tick => exact keeps_of_eq t.tick_reading
  | terminalFailed => exact keeps_of_eq t.exit_reading
  | mpris | oauth | mirror | engine => exact .refl _

theorem step_unheard {t : Tui E} {e : TuiEvent E} (h : t.heard e = none) :
    t.app.reading.Keeps (t.step fuzzy e).app.reading := by
  by_cases hdone : ∃ i answer, e = .done i answer
  · obtain ⟨i, answer, rfl⟩ := hdone
    cases hlistens : t.listens with
    | false => exact keeps_of_eq (step_deaf hlistens i answer)
    | true =>
      rw [step_listening hlistens]
      refine keeps_of_eq ((finish_reading ?_).trans t.render_reading)
      rintro stationId items hjob rfl
      rw [render_jobs] at hjob
      simp [heard, hlistens, hjob] at h
  · have he : ∀ i answer, e ≠ .done i answer := fun i answer heq => hdone ⟨i, answer, heq⟩
    have hstepped := stepped fuzzy t e
    generalize t.step fuzzy e = u at hstepped ⊢
    cases hstepped with
    | stays => exact .refl _
    | mirrors r hdrives => exact .refl _
    | moves transport =>
      unfold engineMoves
      split <;> exact .refl _
    | awaits hrunning hoauth => exact keeps_of_eq (t.awaitOauth_reading e)
    | turns hrunning =>
      unfold loopTurn
      dsimp only
      rw [← t.render_reading]
      split
      · exact keeps_of_eq (exit_reading _)
      · exact handle_keeps he

end Tui

/-- The terminal UI, with the station whose response was taken last for the comments. -/
structure Reader (E : Engine) where
  tui : Tui E
  source : Option String

namespace Reader

variable {E : Engine}

def step (fuzzy : App.FuzzyMatch) (r : Reader E) (e : TuiEvent E) : Reader E :=
  ⟨r.tui.step fuzzy e, (r.tui.heard e).or r.source⟩

def start (s : Tui.Startup) : Reader E := ⟨Tui.start s, none⟩

/-- Comments that are shown came for the station that is open. -/
def Belongs (r : Reader E) : Prop :=
  r.tui.app.view = .comments → r.tui.app.comments = [] ∨
    ∃ s ∈ r.tui.app.commentsStation, r.source = some s.stationId

/-- Comments that arrive while the view is shown are for the station that is open. -/
def InTime (r : Reader E) : TuiEvent E → Prop
  | .done i (.comments items) =>
    ∀ stationId ∈ r.tui.heard (.done i (.comments items)), r.tui.app.view = .comments →
      items ≠ [] → ∃ s ∈ r.tui.app.commentsStation, s.stationId = stationId
  | _ => True

variable {fuzzy : App.FuzzyMatch} {r : Reader E}

theorem belongs_unheard (h : r.Belongs) {e : TuiEvent E} (he : r.tui.heard e = none) :
    (r.step fuzzy e).Belongs := by
  intro hview
  rcases Tui.step_unheard he hview with hnone | ⟨hview', hcomments, hstation⟩
  · exact .inl hnone
  · rcases h hview' with hnone | ⟨s, hs, hsource⟩
    · exact .inl (hcomments.trans hnone)
    · refine .inr ⟨s, hstation s hs, ?_⟩
      show (r.tui.heard e).or r.source = _
      rw [he, hsource]
      rfl

theorem belongs_heard {i : ℕ} {items : List CommentView} {stationId : String}
    (he : r.tui.heard (.done i (.comments items)) = some stationId) :
    (r.step fuzzy (.done i (.comments items))).Belongs ↔ r.InTime (.done i (.comments items)) := by
  have hreading : (r.step fuzzy (.done i (.comments items))).tui.app.reading =
      { r.tui.app.reading with comments := items } := Tui.step_heard he
  have hview : (r.step fuzzy (.done i (.comments items))).tui.app.view = r.tui.app.view :=
    congrArg Reading.view hreading
  have hcomments : (r.step fuzzy (.done i (.comments items))).tui.app.comments = items :=
    congrArg Reading.comments hreading
  have hstation : (r.step fuzzy (.done i (.comments items))).tui.app.commentsStation =
      r.tui.app.commentsStation := congrArg Reading.station hreading
  have hsource : (r.step fuzzy (.done i (.comments items))).source = some stationId := by
    show (r.tui.heard _).or r.source = _
    rw [he]
    rfl
  rw [Belongs, hview, hcomments, hstation, hsource, InTime, he]
  simp only [Option.mem_def, Option.some.injEq, forall_eq', or_iff_not_imp_left, eq_comm]

theorem belongs_step_iff (h : r.Belongs) (e : TuiEvent E) :
    (r.step fuzzy e).Belongs ↔ r.InTime e := by
  cases he : r.tui.heard e with
  | none =>
    refine iff_of_true (belongs_unheard h he) ?_
    unfold InTime
    split
    · rw [he]
      exact fun _ hmem => by cases hmem
    · trivial
  | some stationId =>
    unfold Tui.heard at he
    split at he
    · exact belongs_heard he
    · cases he

theorem view_start (s : Tui.Startup) : (Tui.start s : Tui E).app.view = .home := by
  unfold Tui.start
  cases s.profile with
  | none => rfl
  | some account =>
    unfold Tui.pullAudio
    cases s.fetched <;> rfl

theorem belongs_start (s : Tui.Startup) : (start s : Reader E).Belongs := by
  intro hview
  cases (view_start s).symm.trans hview

/-- The comments shown belong to the open station at every moment of a run exactly where each
response that arrives under the view does. -/
theorem belongs_iff_inTime (fuzzy : App.FuzzyMatch) (s : Tui.Startup) (es : List (TuiEvent E)) :
    (∀ fs gs, es = fs ++ gs → (run (step fuzzy) (start s) fs).Belongs) ↔
      AllSteps (step fuzzy) InTime (start s) es := by
  rw [forall_prefix_iff, and_iff_right (belongs_start s)]
  exact allSteps_iff_of_step (I := Belongs) (fun r e h => belongs_step_iff h e)
    (fun r e h hin => (belongs_step_iff h e).2 hin) (belongs_start s)

/-- The comments of one station are asked for, then those of another; the answers cross. -/
def crossedAnswers : List (TuiEvent sampleEngine) :=
  [.done 1 (.stations [Tui.sampleStation, { Tui.sampleStation with stationId := "s2" }]),
    .key { code := .char 'c' }, .key { code := .esc }, .key { code := .down },
    .key { code := .char 'c' }, .done 3 (.comments []), .done 2 (.comments [⟨"at://one"⟩])]

theorem crossed_shown :
    ¬ (run (step fun _ _ => none) (start Tui.sampleStartup) crossedAnswers).Belongs := by
  intro h
  have hsome : (run (step fun _ _ => none) (start Tui.sampleStartup)
      crossedAnswers).tui.app.comments.isEmpty = false := by decide +kernel
  have hstation : (run (step fun _ _ => none) (start Tui.sampleStartup)
      crossedAnswers).tui.app.commentsStation.map StationInfo.stationId = some "s2" := by
    decide +kernel
  have hsource : (run (step fun _ _ => none) (start Tui.sampleStartup)
      crossedAnswers).source = some "s1" := by decide +kernel
  rcases h (by decide +kernel) with hnone | ⟨s, hs, hs'⟩
  · rw [hnone] at hsome
    cases hsome
  · rw [hs] at hstation
    exact absurd ((hsource.symm.trans hs').trans hstation) (by decide)

end Reader

end Atradio.Cli
