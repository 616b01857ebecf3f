import Atradio.Lib.Run
import Atradio.Lib.Utf8

/-! # Playback on Android (`RadioService.kt`)

Intents, session callbacks, focus changes and what the worker thread posts run on the main thread,
one after the other. The worker takes its commands in order; what the engine answers is open. -/

namespace Atradio.App.Radio
open Atradio.Lib

/-- A station as JSON. The text is not looked into, apart from the URL. -/
structure Station where
  streamUrl : String
  json : String
deriving DecidableEq

inductive PlayerState where
  | error
  | buffering
  | playing
  | paused
  | stopped
deriving DecidableEq

structure Snapshot where
  state : PlayerState
  station : Option Station
  title : String
  error : Option String

inductive Command where
  | openPaths (path : String)
  | stop
  | status

/-- A command for the worker, and how many streams were opened up to it. -/
structure Sent where
  command : Command
  number : ℕ

structure Status where
  state : String
  title : String

/-- What the worker posts. The failure does not say of which command. -/
inductive Posted where
  | failure (sent : Sent) (message : String)
  | status (status : Option Status)

/-- What the engine makes of a command: an exception, or an answer with its `ok` and the other
fields, which are empty where they are missing. -/
inductive Outcome where
  | thrown (message : Option String)
  | answered (ok : Bool) (error state title : String)

inductive Focus where
  | gain
  | lossTransient
  | lossTransientCanDuck
  | loss

inductive Event where
  /-- `none` where the extra is no JSON object. -/
  | playStation (next : Option Station)
  /-- `play`, `next` or `previous` -/
  | play
  /-- `onPlay`, `onSkipToNext` or `onSkipToPrevious` -/
  | onPlay
  /-- The intent or `onPause`. -/
  | pause
  /-- The intent or `onStop`. -/
  | stop
  | noisy
  | focus (change : Focus)
  /-- The worker is done with its next command. -/
  | worker (outcome : Outcome)
  /-- What the worker has posted first is run. -/
  | posted
  | poll

/-- `granted` is what a request for the audio focus is answered. -/
structure Turn where
  granted : Bool
  now : ℕ
  event : Event

structure RadioService where
  station : Option Station
  playing : Bool
  buffering : Bool
  resumeOnFocus : Bool
  startedAt : ℕ
  error : Option String
  nowTitle : String
  /-- `wake.isHeld` -/
  held : Bool
  /-- The station in the shared preferences. -/
  saved : Option Station
  snapshot : Snapshot
  queue : List Sent
  posts : List Posted
  /-- How many streams the engine was sent, and the station of the last one. -/
  opens : ℕ
  opened : Option Station

/-- After `onCreate`, with the error of an engine that could not be loaded. -/
def RadioService.init (saved : Option Station) (error : Option String) : RadioService where
  station := none
  playing := false
  buffering := false
  resumeOnFocus := false
  startedAt := 0
  error := error
  nowTitle := ""
  held := false
  saved := saved
  snapshot := ⟨.stopped, none, "", none⟩
  queue := []
  posts := []
  opens := 0
  opened := none

/-! ### Streams -/

/-- What `$` may stand before. -/
def ends (rest : String) : Bool :=
  rest ∈ ["", "\n", "\r\n", "\r", "\u0085", "\u2028", "\u2029"]

def isPlaylist (url : String) : Bool :=
  url.toList.tails.any fun tail =>
    (tail.take 5).map Char.toLower = ".m3u8".toList &&
      ((tail.drop 5).head? = some '?' || ends (String.ofList (tail.drop 5)))

def hexDigit (n : ℕ) : Char := (Nat.digitChar n).toUpper

/-- `URLEncoder.encode` -/
def encode (s : String) : String :=
  String.ofList <| s.toList.flatMap fun c =>
    if c.isAlphanum || c ∈ "-_.*".toList then [c]
    else if c = ' ' then ['+']
    else (scalarBytes c.toNat).flatMap fun b =>
      ['%', hexDigit (b.toNat / 16), hexDigit (b.toNat % 16)]

def stream (original : String) : String :=
  if isPlaylist original then original
  else "https://media.atradio.fm/api/stream?url=" ++ encode original

def isStreamUrl (url : String) : Bool :=
  "https://".toList.isPrefixOf url.toList || "http://".toList.isPrefixOf url.toList

/-! ### The handlers -/

section Handlers

variable (s : RadioService)

def RadioService.state : PlayerState :=
  if s.error.isSome then .error
  else if s.buffering then .buffering
  else if s.playing then .playing
  else if s.station.isSome then .paused
  else .stopped

def publish : RadioService :=
  { s with snapshot := ⟨s.state, s.station, s.nowTitle, s.error⟩ }

def send (command : Command) : RadioService :=
  { s with queue := s.queue ++ [⟨command, s.opens⟩] }

def pause : RadioService :=
  publish { send { s with playing := false, buffering := false } .stop with held := false }

def shutdown : RadioService := publish { pause s with station := none, error := none }

def startLive (granted : Bool) (now : ℕ) : RadioService :=
  match s.station with
  | none => shutdown s
  | some current =>
    if granted then
      publish (send
        { s with
          error := none
          nowTitle := ""
          playing := true
          buffering := true
          startedAt := now
          held := true
          opens := s.opens + 1
          opened := some current }
        (.openPaths (stream current.streamUrl)))
    else publish { s with error := some "Another app is using audio. Try again." }

def playStation (next : Option Station) (granted : Bool) (now : ℕ) : RadioService :=
  match next.filter fun station => isStreamUrl station.streamUrl with
  | some next => startLive { s with station := some next, saved := some next } granted now
  | none => publish { s with error := some "Invalid station URL" }

def onAudioFocusChange (change : Focus) (granted : Bool) (now : ℕ) : RadioService :=
  match change with
  | .gain => if s.resumeOnFocus then startLive { s with resumeOnFocus := false } granted now else s
  | .lossTransient | .lossTransientCanDuck => pause { s with resumeOnFocus := s.playing }
  | .loss => pause { s with resumeOnFocus := false }

/-- The runnable that a failed command posts. -/
def failed (message : String) : RadioService :=
  publish { s with error := some message, playing := false, buffering := false }

/-- The runnable that a poll posts. -/
def polled (status : Option Status) (now : ℕ) : RadioService :=
  publish (match status with
    | some status =>
      if s.playing then
        let s' := { s with buffering := status.state ≠ "playing", nowTitle := status.title }
        if s'.buffering && 35000 < now - s'.startedAt then
          pause { s' with
            error := some "Station did not respond. Try another station or reconnect." }
        else s'
      else s
    | none => s)

def Sent.post (sent : Sent) (outcome : Outcome) : List Posted :=
  match sent.command, outcome with
  | .status, .thrown _ => [.status none]
  | .status, .answered _ _ state title => [.status (some ⟨state, title⟩)]
  | _, .thrown message => [.failure sent (message.getD "Playback failed")]
  | _, .answered ok error _ _ => if ok then [] else [.failure sent error]

def RadioService.step (turn : Turn) : RadioService :=
  match turn.event with
  | .playStation next => playStation s next turn.granted turn.now
  | .play => startLive { s with station := s.station.or s.saved } turn.granted turn.now
  | .onPlay => startLive s turn.granted turn.now
  | .pause | .noisy => pause { s with resumeOnFocus := false }
  | .stop => shutdown s
  | .focus change => onAudioFocusChange s change turn.granted turn.now
  | .worker outcome =>
    match s.queue with
    | [] => s
    | sent :: queue => { s with queue, posts := s.posts ++ sent.post outcome }
  | .posted =>
    match s.posts with
    | [] => s
    | .failure _ message :: posts => failed { s with posts } message
    | .status status :: posts => polled { s with posts } status turn.now
  | .poll => send s .status

end Handlers

/-! ### What is published -/

section Published

variable {s : RadioService}

/-- What plays is the station the engine was sent last, or an error is shown. -/
def RadioService.Live (s : RadioService) : Prop :=
  s.error = none → s.playing = true ∨ s.buffering = true →
    ∃ station, s.station = some station ∧ s.opened = some station

def RadioService.Shows (s : RadioService) : Prop :=
  s.snapshot.state = .playing ∨ s.snapshot.state = .buffering →
    ∃ station, s.snapshot.station = some station ∧ s.opened = some station

theorem state_live (h : s.state = .playing ∨ s.state = .buffering) :
    s.error = none ∧ (s.playing = true ∨ s.buffering = true) := by
  revert h
  unfold RadioService.state
  cases herror : s.error with
  | some error => exact nofun
  | none =>
    cases s.buffering with
    | true => exact fun _ => ⟨rfl, .inr rfl⟩
    | false =>
      cases s.playing with
      | true => exact fun _ => ⟨rfl, .inl rfl⟩
      | false => cases s.station <;> exact nofun

theorem publish_shows (h : s.Live) : (publish s).Live ∧ (publish s).Shows := by
  refine ⟨h, fun hstate => ?_⟩
  obtain ⟨herror, hplays⟩ := state_live hstate
  exact h herror hplays

theorem live_of_quiet (hplaying : s.playing = false) (hbuffering : s.buffering = false) :
    s.Live := by
  rintro - (h | h)
  · cases hplaying.symm.trans h
  · cases hbuffering.symm.trans h

theorem live_of_error (h : s.error.isSome = true) : s.Live := by
  intro hnone
  rw [hnone] at h
  cases h

theorem pause_shows (s : RadioService) : (pause s).Live ∧ (pause s).Shows :=
  publish_shows (live_of_quiet rfl rfl)

theorem shutdown_shows (s : RadioService) : (shutdown s).Live ∧ (shutdown s).Shows :=
  publish_shows (live_of_quiet rfl rfl)

theorem startLive_shows (s : RadioService) (granted : Bool) (now : ℕ) :
    (startLive s granted now).Live ∧ (startLive s granted now).Shows := by
  unfold startLive
  split
  · exact shutdown_shows s
  · rename_i current hstation
    split
    · exact publish_shows fun _ _ => ⟨current, hstation, rfl⟩
    · exact publish_shows (live_of_error rfl)

theorem polled_shows (h : s.Live) (status : Option Status) (now : ℕ) :
    (polled s status now).Live ∧ (polled s status now).Shows := by
  refine publish_shows ?_
  split
  · split
    · rename_i hplaying
      dsimp only
      split
      · exact (pause_shows _).1
      · exact fun herror _ => h herror (.inl hplaying)
    · exact h
  · exact h

theorem shows_step (h : s.Live ∧ s.Shows) (turn : Turn) :
    (s.step turn).Live ∧ (s.step turn).Shows := by
  unfold RadioService.step
  split
  · unfold playStation
    split
    · exact startLive_shows _ _ _
    · exact publish_shows (live_of_error rfl)
  · exact startLive_shows _ _ _
  · exact startLive_shows _ _ _
  · exact pause_shows _
  · exact pause_shows _
  · exact shutdown_shows _
  · unfold onAudioFocusChange
    split
    · split
      · exact startLive_shows _ _ _
      · exact h
    · exact pause_shows _
    · exact pause_shows _
    · exact pause_shows _
  · split <;> exact h
  · split
    · exact h
    · exact publish_shows (live_of_error rfl)
    · refine polled_shows ?_ _ _
      exact h.1
  · exact h

end Published

/-! ### The wake lock -/

def RadioService.Locks (s : RadioService) : Prop := s.held = s.playing

instance (s : RadioService) : Decidable s.Locks := inferInstanceAs (Decidable (_ = _))

def RadioService.Consistent (s : RadioService) : Prop := s.Locks ∧ s.Shows

def Sent.isOpen (sent : Sent) : Bool :=
  match sent.command with
  | .openPaths _ => true
  | _ => false

/-- The failure of an open that another one has followed neither stops the station nor, if it is
the one opened later, marks it as failed. -/
def RadioService.Spared (s : RadioService) (turn : Turn) : Prop :=
  match turn.event, s.posts with
  | .posted, .failure sent _ :: _ => sent.isOpen = true → sent.number < s.opens →
    (s.playing = true → (s.step turn).playing = true) ∧
      (s.station = s.opened → (s.step turn).error = s.error)
  | _, _ => True

/-- A failure is posted back when nothing plays, and that of an earlier open is no news. -/
def RadioService.Harmless (s : RadioService) (turn : Turn) : Prop :=
  match turn.event, s.posts with
  | .posted, .failure sent message :: _ => s.playing = false ∧
    (sent.isOpen = true → sent.number < s.opens → s.station = s.opened → s.error = some message)
  | _, _ => True

section WakeLock

variable {s : RadioService}

theorem startLive_locks (h : s.Locks) (granted : Bool) (now : ℕ) :
    (startLive s granted now).Locks := by
  unfold startLive
  split
  · rfl
  · split
    · rfl
    · exact h

theorem polled_locks (h : s.Locks) (status : Option Status) (now : ℕ) :
    (polled s status now).Locks := by
  unfold polled
  split
  · split
    · dsimp only
      split
      · rfl
      · exact h
    · exact h
  · exact h

theorem locks_step (h : s.Locks) {turn : Turn}
    (hfailure : ∀ sent message posts, turn.event = .posted →
      s.posts = .failure sent message :: posts → s.playing = false) : (s.step turn).Locks := by
  have hstart {s' : RadioService} (h' : s'.held = s'.playing) :
      (startLive s' turn.granted turn.now).Locks := startLive_locks h' _ _
  unfold RadioService.step
  split
  · unfold playStation
    split
    · exact hstart (by exact h)
    · exact h
  · exact hstart (by exact h)
  · exact hstart h
  · rfl
  · rfl
  · rfl
  · unfold onAudioFocusChange
    split
    · split
      · exact hstart (by exact h)
      · exact h
    · rfl
    · rfl
    · rfl
  · split <;> exact h
  · rename_i hevent
    split
    · exact h
    · rename_i sent message posts hposts
      exact Eq.trans h (hfailure sent message posts hevent hposts)
    · exact polled_locks (by exact h) _ _
  · exact h

/-- Where the lock is held exactly while something plays, a step keeps it so, and does no harm to
what was opened later, exactly if it is harmless. -/
theorem harmless_iff (h : s.Locks) (turn : Turn) :
    (s.step turn).Locks ∧ s.Spared turn ↔ s.Harmless turn := by
  obtain ⟨granted, now, event⟩ := turn
  have hother (hevent : event ≠ .posted) : (s.step ⟨granted, now, event⟩).Locks :=
    locks_step h fun _ _ _ heq => absurd heq hevent
  cases event with
  | posted =>
    simp only [RadioService.Spared, RadioService.Harmless]
    cases hposts : s.posts with
    | nil =>
      refine iff_of_true ⟨locks_step h fun _ _ _ _ heq => ?_, trivial⟩ trivial
      cases hposts.symm.trans heq
    | cons post posts =>
      cases post with
      | status status =>
        refine iff_of_true ⟨locks_step h fun _ _ _ _ heq => ?_, trivial⟩ trivial
        cases hposts.symm.trans heq
      | failure sent message =>
        have hstep : s.step ⟨granted, now, .posted⟩ = failed { s with posts } message := by
          simp only [RadioService.step, hposts]
        rw [hstep]
        constructor
        · rintro ⟨hlocks, hspared⟩
          have hplaying : s.playing = false := Eq.trans h.symm hlocks
          exact ⟨hplaying, fun hopen hlater hstation => ((hspared hopen hlater).2 hstation).symm⟩
        · rintro ⟨hplaying, herror⟩
          refine ⟨Eq.trans h hplaying, fun hopen hlater => ⟨fun hplays => ?_, fun hstation => ?_⟩⟩
          · cases hplaying.symm.trans hplays
          · exact (herror hopen hlater hstation).symm
  | _ => exact iff_of_true ⟨hother nofun, trivial⟩ trivial

end WakeLock

/-- Along a run the wake lock is held exactly while something plays, and late failures spare what
was opened after them, exactly where every failure is harmless. What is shown as playing is always
what the engine was sent last. -/
theorem consistent_iff_harmless (saved : Option Station) (error : Option String)
    (turns : List Turn) :
    ((∀ fs gs, turns = fs ++ gs →
          (run RadioService.step (RadioService.init saved error) fs).Consistent) ∧
        AllSteps RadioService.step RadioService.Spared (RadioService.init saved error) turns) ↔
      AllSteps RadioService.step RadioService.Harmless (RadioService.init saved error) turns := by
  have hinit : (RadioService.init saved error).Locks ∧ (RadioService.init saved error).Live ∧
      (RadioService.init saved error).Shows :=
    ⟨rfl, live_of_quiet rfl rfl, nofun⟩
  have hstep : ∀ (s : RadioService) turn, s.Locks ∧ s.Live ∧ s.Shows →
      ((s.step turn).Consistent ∧ s.Spared turn ↔ s.Harmless turn) := by
    rintro s turn ⟨hlocks, hshows⟩
    rw [RadioService.Consistent, and_iff_left (shows_step hshows turn).2]
    exact harmless_iff hlocks turn
  have hconsistent : (RadioService.init saved error).Consistent := ⟨hinit.1, hinit.2.2⟩
  rw [forall_prefix_iff, and_iff_right hconsistent, ← allSteps_and]
  refine allSteps_iff_of_step hstep (fun s turn h hharmless => ?_) hinit
  exact ⟨((hstep s turn h).2 hharmless).1.1, shows_step h.2 turn⟩

def jazz : Station := ⟨"https://a.test/jazz", "jazz"⟩

def rock : Station := ⟨"https://a.test/rock", "rock"⟩

/-- The first open fails at once, or after another station was opened. -/
def failedOpen (later : List Event) : List Turn :=
  let events : List Event :=
    .playStation (some jazz) :: later ++ [.worker (.thrown (some "timeout")), .posted]
  events.map fun event => ⟨true, 0, event⟩

theorem failed_open_keeps_lock :
    ¬ (run RadioService.step (RadioService.init none none) (failedOpen [])).Consistent ∧
      ¬ AllSteps RadioService.step RadioService.Spared (RadioService.init none none)
        (failedOpen [.playStation (some rock)]) := by
  constructor
  · rintro ⟨hlocks, -⟩
    revert hlocks
    decide
  · intro h
    have hplaying := (h.2.2.2.1 rfl (by decide)).1 (by decide)
    revert hplaying
    decide

end Atradio.App.Radio
