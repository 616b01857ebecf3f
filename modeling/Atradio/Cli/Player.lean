import Atradio.Audio.Settings
import Atradio.Cli.Remote

/-! # The player and the headless daemon (`player/mod.rs`, `cli.rs`)

The playback engine is a parameter: what its transport is after each call, and that it goes as the
calls say. -/

namespace Atradio.Cli
open Atradio.Audio Atradio.Connect

inductive PlayState where
  | stopped
  | playing
  | paused
  deriving DecidableEq

/-- The transport of the engine. `started` is what `set_queue` of one stream and `play` lead to,
whatever was before; `line` is the title it reads from a stream. -/
structure Engine where
  τ : Type
  initial : τ
  started : τ
  play : τ → τ
  pause : τ → τ
  toggle : τ → τ
  stop : τ → τ
  state : τ → PlayState
  line : τ → Option String → Option String
  state_initial : state initial = .stopped
  state_started : state started = .playing
  state_stop : ∀ t, state (stop t) = .stopped
  state_pause : ∀ t, state (pause t) ≠ .playing
  play_playing : ∀ t, state t = .playing → play t = t

/-- The engine with its volume and what `play_url` was handed last, and the wrapper around it. -/
structure Player (E : Engine) where
  transport : E.τ
  url : Option String
  volume : ℚ
  lastVolume : ℚ
  dsp : AudioSettings

/-- The calls of the player besides `play_url`. -/
inductive PlayerCall where
  | toggle
  | play
  | pause
  | stop
  | setVolume (vol : ℚ)
  | toggleMute
  | bumpVolume (delta : ℚ)
  | applyDsp (settings : AudioSettings)

namespace Player

variable {E : Engine}

def new : Player E where
  transport := E.initial
  url := none
  volume := 4 / 5
  lastVolume := 4 / 5
  dsp := AudioSettings.default

def state (p : Player E) : PlayState := E.state p.transport

def isPlaying (p : Player E) : Bool := p.state = .playing

def playUrl (p : Player E) (url : String) : Player E :=
  { p with transport := E.started, url := some url }

def isMuted (p : Player E) : Bool := p.volume ≤ 0

def setVolume (p : Player E) (vol : ℚ) : Player E :=
  let v := clampVolume vol
  { p with volume := v, lastVolume := if 0 < v then v else p.lastVolume }

def toggleMute (p : Player E) : Player E :=
  if p.isMuted then { p with volume := if 0 < p.lastVolume then p.lastVolume else 4 / 5 }
  else { p with lastVolume := p.volume, volume := 0 }

def call (p : Player E) : PlayerCall → Player E
  | .toggle => { p with transport := E.toggle p.transport }
  | .play => { p with transport := E.play p.transport }
  | .pause => { p with transport := E.pause p.transport }
  | .stop => { p with transport := E.stop p.transport }
  | .setVolume vol => p.setVolume vol
  | .toggleMute => p.toggleMute
  | .bumpVolume delta => p.setVolume (p.volume + delta)
  | .applyDsp settings => { p with dsp := settings }

/-- The state that is reported, with the station that its owner holds for current. -/
def wire (p : Player E) (station : Option StationLite) : WireState where
  playing := p.isPlaying
  station := station
  title := E.line p.transport p.url
  volume := p.volume
  muted := p.isMuted

end Player

/-- An engine that plays what it was handed until it is paused or stopped. -/
def sampleEngine : Engine where
  τ := PlayState
  initial := .stopped
  started := .playing
  play t := if t = .paused then .playing else t
  pause t := if t = .playing then .paused else t
  toggle t := if t = .playing then .paused else if t = .paused then .playing else t
  stop _ := .stopped
  state := id
  line _ _ := none
  state_initial := rfl
  state_started := rfl
  state_stop _ := rfl
  state_pause t := by cases t <;> decide
  play_playing _ h := if_neg fun hpaused => by cases hpaused.symm.trans h

/-- What `resolve_stream` ends with. -/
structure Resolved where
  url : String
  isHls : Bool

end Atradio.Cli
