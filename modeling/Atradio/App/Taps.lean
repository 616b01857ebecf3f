import Atradio.App.RadioFocus

/-! # From a tap to the engine (`App.tsx`, `native.ts`, `resolve.ts`, `AtradioEngineModule.kt`)

A tap asks for a permission, resolves the station and calls the native module; the module turns
calls into intents, and the service takes these one by one. Calls and intents keep their order; all
else happens at any time. -/

namespace Atradio.App.Radio
open Atradio.Lib

/-- What `resolveStation` does with the URL of a station before it awaits anything. -/
inductive Route where
  | invalid
  | direct (href : String)
  | tuneIn

/-- Where a call of `play` is. -/
inductive Phase where
  | permission
  | resolving
  | settled
  deriving DecidableEq

structure Tap where
  station : Station
  phase : Phase
  aborted : Bool

/-- A call of the native module, and the intent it becomes. -/
inductive Intent where
  | playStation (station : Station)
  | play
  | pause
  | stop

def Intent.plays : Intent → Bool
  | .playStation _ | .play => true
  | .pause | .stop => false

/-- `asked` is whether the last command of the listener, wherever it was given, was to play. The last
tap is the one of `playRequest`. -/
structure Phone where
  service : RadioService
  running : Bool := false
  engine : Option String := none
  taps : List Tap := []
  calls : List Intent := []
  intents : List Intent := []
  asked : Bool := false

/-- `asksPermission` is Android 13 or later; `route` reads a URL. -/
structure Device where
  asksPermission : Bool
  route : Station → Route

/-- `outside` is all that reaches the service without the app: the notification, the media session,
the audio focus, its worker. -/
inductive PhoneEvent where
  | tap (station : Station)
  | permission (i : ℕ) (ok : Bool)
  | resolved (i : ℕ) (streamUrl : Option String)
  | control (action : Intent)
  | signOut
  | module
  | intent (granted : Bool) (now : ℕ)
  | outside (turn : Turn)
  | destroyed

/-- Aborts the request before. -/
def abortLast : List Tap → List Tap
  | [] => []
  | [t] => [{ t with aborted := true }]
  | t :: u :: taps => t :: abortLast (u :: taps)

def Phone.setPhase (w : Phone) (i : ℕ) (t : Tap) (phase : Phase) : Phone :=
  { w with taps := w.taps.set i { t with phase } }

/-- `radio.play` behind `resolveStation`: the module is called unless the request was aborted. -/
def Phone.playResolved (w : Phone) (i : ℕ) (t : Tap) (streamUrl : String) : Phone :=
  let w := w.setPhase i t .settled
  if t.aborted then w
  else { w with calls := w.calls ++ [.playStation { t.station with streamUrl }] }

/-- `radio.play`, up to its first await. -/
def Phone.radioPlay (d : Device) (w : Phone) (i : ℕ) (t : Tap) : Phone :=
  match d.route t.station with
  | .invalid => w.setPhase i t .settled
  | .direct href => w.playResolved i t href
  | .tuneIn => w.setPhase i t .resolving

def Phone.play (d : Device) (w : Phone) (station : Station) : Phone :=
  let t : Tap := ⟨station, .permission, false⟩
  let w := { w with taps := abortLast w.taps ++ [t], asked := true }
  if d.asksPermission then w else w.radioPlay d (w.taps.length - 1) t

/-- Whether an event is a command of the listener, and whether to play. -/
def Event.commands : Event → Option Bool
  | .play | .onPlay => some true
  | .pause | .stop => some false
  | _ => none

/-- Stations come from the app only. An intent of the notification starts the service. -/
def Event.reaches (running : Bool) : Event → Bool
  | .playStation _ => false
  | .play | .pause | .stop => true
  | _ => running

def Intent.event : Intent → Event
  | .playStation station => .playStation (some station)
  | .play => .play
  | .pause => .pause
  | .stop => .stop

/-- What a command makes the engine do. -/
def Sent.sound (sent : Sent) : Option (Option String) :=
  match sent.command with
  | .openPaths path => some (some path)
  | .stop => some none
  | .status => none

def Phone.takes (w : Phone) (turn : Turn) : Phone :=
  { w with
    service := w.service.step turn
    engine := match turn.event with
      | .worker _ => (w.service.queue.head?.bind Sent.sound).getD w.engine
      | _ => w.engine }

def Phone.step (d : Device) (w : Phone) : PhoneEvent → Phone
  | .tap station => w.play d station
  | .permission i ok =>
    match w.taps[i]? with
    | some ⟨station, .permission, aborted⟩ =>
      if ok then w.radioPlay d i ⟨station, .permission, aborted⟩
      else w.setPhase i ⟨station, .permission, aborted⟩ .settled
    | _ => w
  | .resolved i streamUrl =>
    match w.taps[i]? with
    | some ⟨station, .resolving, aborted⟩ =>
      match streamUrl with
      | some url => w.playResolved i ⟨station, .resolving, aborted⟩ url
      | none => w.setPhase i ⟨station, .resolving, aborted⟩ .settled
    | _ => w
  | .control action =>
    match action with
    | .playStation _ => w
    | .play => { w with calls := w.calls ++ [.play], asked := true }
    | action => { w with taps := abortLast w.taps, calls := w.calls ++ [action], asked := false }
  | .signOut => { w with calls := w.calls ++ [.stop], asked := false }
  | .module =>
    match w.calls with
    | [] => w
    | call :: calls =>
      if w.running || call.plays then { w with calls, intents := w.intents ++ [call] }
      else { w with calls }
  | .intent granted now =>
    match w.intents with
    | [] => w
    | i :: intents => { w with intents, running := true }.takes ⟨granted, now, i.event⟩
  | .outside turn =>
    if turn.event.reaches w.running then
      { w.takes turn with running := true, asked := turn.event.commands.getD w.asked }
    else w
  | .destroyed =>
    { w with service := .init w.service.saved none, running := false, engine := none }

/-! ### Silence -/

/-- What the engine will have been told when the worker is done. -/
def Phone.told (w : Phone) : Option String :=
  (w.service.queue.filterMap Sent.sound).getLast?.getD w.engine

/-- Nothing plays, and no gain of the focus will change that. -/
structure Phone.Rest (w : Phone) : Prop where
  playing : w.service.playing = false
  resumes : w.service.resumeOnFocus = false ∨ w.service.station = none
  told : w.told = none

/-- The last call or intent on its way is to pause, or nothing plays. -/
def Phone.Ends (w : Phone) : Option Intent → Prop
  | some i => i.plays = false
  | none => w.Rest

/-- Behind all that is on its way nothing will play, if that is what was asked for last. -/
def Phone.Still (w : Phone) : Prop := w.asked = false → w.Ends (w.intents ++ w.calls).getLast?

/-- A station is resolved behind the command to pause; a command from outside meets a call that is
still on its way; the module drops a command that overtakes the start of the service. -/
def Phone.Stirs (d : Device) (w : Phone) : PhoneEvent → Prop
  | .permission i ok => ok = true ∧ w.asked = false ∧ ∃ t href, w.taps[i]? = some t ∧
      t.phase = .permission ∧ t.aborted = false ∧ d.route t.station = .direct href
  | .resolved i streamUrl => streamUrl.isSome = true ∧ w.asked = false ∧ ∃ t,
      w.taps[i]? = some t ∧ t.phase = .resolving ∧ t.aborted = false
  | .outside turn => turn.event.commands = some false ∧
      ∃ i, (w.intents ++ w.calls).getLast? = some i ∧ i.plays = true
  | .module => w.asked = false ∧ w.running = false ∧ ∃ call, w.calls = [call] ∧
      call.plays = false ∧ ∃ i, w.intents.getLast? = some i ∧ i.plays = true
  | _ => False

section Steps

variable {d : Device} {w : Phone}

theorem Phone.Rest.of_eq {w' : Phone} (h : w.Rest) (hservice : w'.service = w.service)
    (hengine : w'.engine = w.engine) : w'.Rest := by
  refine ⟨by rw [hservice]; exact h.playing, by rw [hservice]; exact h.resumes, ?_⟩
  rw [Phone.told, hservice, hengine]
  exact h.told

theorem told_sent (w : Phone) {s : RadioService} {sent : Sent} {path : Option String}
    (hsound : sent.sound = some path) (hqueue : s.queue = w.service.queue ++ [sent]) :
    ({ w with service := s } : Phone).told = path := by
  simp [Phone.told, hqueue, hsound]

theorem pause_rest (w : Phone) (s : RadioService) (hqueue : s.queue = w.service.queue)
    (hresumes : s.resumeOnFocus = false ∨ s.station = none) :
    ({ w with service := pause s } : Phone).Rest :=
  ⟨rfl, hresumes, @told_sent w _ ⟨.stop, s.opens⟩ none rfl
    (congrArg (· ++ [(⟨.stop, s.opens⟩ : Sent)]) hqueue)⟩

theorem shutdown_rest (w : Phone) (s : RadioService) (hqueue : s.queue = w.service.queue) :
    ({ w with service := shutdown s } : Phone).Rest :=
  ⟨rfl, Or.inr rfl, @told_sent w _ ⟨.stop, s.opens⟩ none rfl
    (congrArg (· ++ [(⟨.stop, s.opens⟩ : Sent)]) hqueue)⟩

theorem command_rest (w : Phone) {turn : Turn} (h : turn.event.commands = some false) :
    (w.takes turn).Rest := by
  obtain ⟨granted, now, event⟩ := turn
  cases event with
  | pause => exact pause_rest w { w.service with resumeOnFocus := false } rfl (Or.inl rfl)
  | stop => exact shutdown_rest w w.service rfl
  | _ => cases h

/-- The worker takes a command. -/
theorem told_worker {sent : Sent} {queue : List Sent} (hqueue : w.service.queue = sent :: queue)
    (posts : List Posted) :
    ({ w with
      service := { w.service with queue, posts }
      engine := sent.sound.getD w.engine } : Phone).told = w.told := by
  simp only [Phone.told, hqueue, List.filterMap_cons]
  cases hsound : sent.sound with
  | none => rfl
  | some path =>
    dsimp only [Option.getD_some]
    rw [List.getLast?_cons]
    rfl

theorem polled_rest (h : w.Rest) (status : Option Status) (now : ℕ) (posts : List Posted) :
    ({ w with service := polled { w.service with posts } status now } : Phone).Rest := by
  have hpolled : polled { w.service with posts } status now = publish { w.service with posts } := by
    unfold polled
    cases status with
    | none => rfl
    | some status => dsimp only; rw [if_neg (by rw [h.playing]; exact Bool.false_ne_true)]
  rw [hpolled]
  exact ⟨h.playing, h.resumes, h.told⟩

/-- What is not a command to play keeps the rest. -/
theorem rest_takes (h : w.Rest) {turn : Turn} (hcommands : turn.event.commands ≠ some true)
    (hstation : ∀ next, turn.event ≠ .playStation next) : (w.takes turn).Rest := by
  obtain ⟨granted, now, event⟩ := turn
  cases event with
  | playStation next => exact (hstation next rfl).elim
  | play | onPlay => exact (hcommands rfl).elim
  | pause | stop => exact command_rest w rfl
  | noisy => exact pause_rest w { w.service with resumeOnFocus := false } rfl (Or.inl rfl)
  | focus change =>
    cases change with
    | gain =>
      simp only [Phone.takes, RadioService.step, onAudioFocusChange]
      split
      next hresume =>
        have hnone : w.service.station = none :=
          h.resumes.resolve_left (by simp [hresume])
        simp only [startLive, hnone]
        exact shutdown_rest w { w.service with resumeOnFocus := false, station := none } rfl
      · exact h.of_eq rfl rfl
    | lossTransient | lossTransientCanDuck =>
      exact pause_rest w { w.service with resumeOnFocus := w.service.playing } rfl (Or.inl h.playing)
    | loss => exact pause_rest w { w.service with resumeOnFocus := false } rfl (Or.inl rfl)
  | worker outcome =>
    simp only [Phone.takes, RadioService.step]
    split
    next hqueue =>
      rw [hqueue]
      exact h.of_eq rfl rfl
    next sent queue hqueue =>
      rw [hqueue]
      refine ⟨h.playing, h.resumes, ?_⟩
      have htold := told_worker hqueue (w.service.posts ++ sent.post outcome)
      rw [h.told] at htold
      exact htold
  | posted =>
    simp only [Phone.takes, RadioService.step]
    split
    · exact h.of_eq rfl rfl
    · exact ⟨rfl, h.resumes, h.told⟩
    · exact polled_rest h _ _ _
  | poll =>
    refine ⟨h.playing, h.resumes, ?_⟩
    have htold := h.told
    simp only [Phone.told] at htold ⊢
    simpa [Phone.takes, RadioService.step, send, Sent.sound, List.filterMap_append] using htold

end Steps

end Atradio.App.Radio
