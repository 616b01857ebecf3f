import Atradio.Lib.Run
import Atradio.Cli.Daemon
import Atradio.Cli.Tui.Deeds

/-! # The station that is reported and the one that is heard

The terminal UI and the daemon report the engine's state next to the station that counts as
current. -/

namespace Atradio.Cli
open Atradio.Audio Atradio.Connect Atradio.Lib

/-- The station whose stream the player was handed last, none after a stop. -/
def heard : List Call → Option StationInfo
  | [] => none
  | .playUrl s _ :: _ => some s
  | .player .stop :: _ => none
  | _ :: calls => heard calls

def heardLite (calls : List Call) : Option StationLite := (heard calls).map stationToLite

/-- Every state that was reported as playing a station names the one that was heard then. -/
def Named : List Call → Prop
  | [] => True
  | .broadcast state :: calls =>
    (state.wire.playing = true → ∀ s ∈ state.wire.station, heardLite calls = some s) ∧ Named calls
  | _ :: calls => Named calls

instance decidableNamed : (calls : List Call) → Decidable (Named calls)
  | [] => isTrue trivial
  | c :: calls =>
    have := decidableNamed calls
    match c with
    | .broadcast state => inferInstanceAs (Decidable ((state.wire.playing = true →
        ∀ s ∈ state.wire.station, heardLite calls = some s) ∧ Named calls))
    | .load _ | .playUrl _ _ | .player _ | .command _ _ | .listed _ _ | .fetched _ _
    | .saveSettings _ _ | .putAudio _ _ => inferInstanceAs (Decidable (Named calls))

theorem heard_inert {c : Call} (hc : c.inert = true) (calls : List Call) :
    heard (c :: calls) = heard calls := by
  cases c with
  | load | playUrl | player | broadcast => cases hc
  | command | listed | fetched | saveSettings | putAudio => rfl

theorem named_inert {c : Call} (hc : c.inert = true) {calls : List Call} (h : Named calls) :
    Named (c :: calls) := by
  cases c with
  | load | playUrl | player | broadcast => cases hc
  | command | listed | fetched | saveSettings | putAudio => exact h

theorem heard_player {c : PlayerCall} (hc : c ≠ .stop) (calls : List Call) :
    heard (.player c :: calls) = heard calls := by
  cases c with
  | stop => exact absurd rfl hc
  | _ => rfl

namespace Player

variable {E : Engine}

theorem stop_silent (p : Player E) : (p.call .stop).isPlaying = false :=
  decide_eq_false fun h => by cases (E.state_stop p.transport).symm.trans h

theorem call_isPlaying (p : Player E) {c : PlayerCall}
    (hc : c = .toggleMute ∨ (∃ delta, c = .bumpVolume delta) ∨ ∃ dsp, c = .applyDsp dsp) :
    (p.call c).isPlaying = p.isPlaying := by
  rcases hc with rfl | ⟨delta, rfl⟩ | ⟨dsp, rfl⟩
  · unfold call toggleMute
    dsimp only
    split <;> rfl
  · rfl
  · rfl

end Player

/-! ### The terminal UI -/

namespace Playback

variable {E : Engine} {p : Playback E}

/-- The station that counts as current is the one that was heard last. -/
def Aired (p : Playback E) : Prop := ∀ s ∈ p.current, heardLite p.calls = some (stationToLite s)

instance : Decidable p.Aired :=
  inferInstanceAs (Decidable (∀ s ∈ p.current, heardLite p.calls = some (stationToLite s)))

structure OnAir (p : Playback E) : Prop where
  named : Named p.calls
  aired : p.drives = false → p.player.isPlaying = true → p.Aired

theorem OnAir.note (h : p.OnAir) {calls : List Call} (hc : ∀ c ∈ calls, c.inert = true) :
    (p.perform (.note calls)).OnAir := by
  induction calls with
  | nil => exact h
  | cons c calls ih =>
    have hrest := ih fun c' hc' => hc c' (List.mem_cons_of_mem _ hc')
    have hinert := hc c (List.mem_cons_self ..)
    refine ⟨named_inert hinert hrest.named, fun hdrives hplaying s hs => ?_⟩
    have hheard := heard_inert hinert (calls ++ p.calls)
    exact (congrArg (Option.map stationToLite) hheard).trans (hrest.aired hdrives hplaying s hs)

theorem OnAir.broadcast (h : p.OnAir) (hdrives : p.drives = false) {state : GrpcState}
    (hwire : state.wire = p.player.wire (p.current.map stationToLite)) :
    (p.perform (.note [.broadcast state])).OnAir := by
  refine ⟨⟨fun hplaying s hs => ?_, h.named⟩, h.aired⟩
  rw [hwire] at hplaying hs
  obtain ⟨x, hx, rfl⟩ := Option.mem_map.1 hs
  exact h.aired hdrives hplaying x hx

theorem OnAir.load (h : p.OnAir) {s : StationInfo}
    (hheard : p.drives = false → p.player.isPlaying = true →
      heardLite p.calls = some (stationToLite s)) :
    (p.perform (.load s)).OnAir := by
  refine ⟨h.named, fun hdrives hplaying x hx => ?_⟩
  cases hx
  exact hheard hdrives hplaying

theorem OnAir.halt (h : p.OnAir) : (p.perform .halt).OnAir :=
  ⟨h.named, fun _ _ _ hx => by cases hx⟩

theorem OnAir.call (h : p.OnAir) {c : PlayerCall}
    (hresumes : p.drives = false → (p.player.call c).isPlaying = true →
      p.player.isPlaying = false → p.Aired) :
    (p.perform (.call c)).OnAir := by
  refine ⟨h.named, fun hdrives hplaying => ?_⟩
  have hstop : c ≠ .stop := by
    rintro rfl
    exact Bool.false_ne_true ((Player.stop_silent p.player).symm.trans hplaying)
  have haired : p.Aired := by
    cases hbefore : p.player.isPlaying with
    | true => exact h.aired hdrives hbefore
    | false => exact hresumes hdrives hplaying hbefore
  intro s hs
  exact (congrArg (Option.map stationToLite) (heard_player hstop p.calls)).trans (haired s hs)

theorem OnAir.engine (h : p.OnAir) {transport : E.τ}
    (hmoves : E.state transport = .playing → p.player.isPlaying = true) :
    (p.perform (.engine transport)).OnAir :=
  ⟨h.named, fun hdrives hplaying => h.aired hdrives (hmoves (of_decide_eq_true hplaying))⟩

theorem OnAir.mirror (h : p.OnAir) (hdrives : p.drives = true) (station : Option StationInfo)
    (devices : List Device) : (p.perform (.mirror station devices)).OnAir :=
  ⟨h.named, fun hfree => absurd (hdrives.symm.trans hfree) Bool.noConfusion⟩

theorem OnAir.settle (h : p.OnAir) {rest : List StationInfo}
    {played : Option (StationInfo × String)}
    (harrives : p.drives = false → ∀ x ∈ played,
      p.current.map stationToLite = some (stationToLite x.1)) :
    (p.perform (.settle rest played)).OnAir := by
  cases played with
  | none => exact ⟨h.named, h.aired⟩
  | some x =>
    refine ⟨h.named, fun hdrives _ s hs => ?_⟩
    have harrived := harrives hdrives x rfl
    rw [show p.current = some s from hs] at harrived
    exact harrived.symm

end Playback

namespace Tui

variable {E : Engine} {fuzzy : App.FuzzyMatch} {t : Tui E} {e : TuiEvent E}

def transportCall (t : Tui E) : TuiEvent E → Option PlayerCall
  | .key key => if t.keyToggles key then some .toggle else none
  | e => (t.outside e).bind RemoteCmd.playerCall

def arrives (t : Tui E) : TuiEvent E → Option (StationInfo × String)
  | .done i answer => (t.jobs[i]?.bind Job.resolving).bind fun s => t.played s answer
  | _ => none

/-- A station is loaded while nothing plays or it is heard already, the engine is started again
only with the current station, and what a resolution plays is the current station. -/
def AirGuard (fuzzy : App.FuzzyMatch) (t : Tui E) (e : TuiEvent E) : Prop :=
  (∀ s ∈ t.loads fuzzy e, t.player.isPlaying = true →
    heardLite t.calls = some (stationToLite s)) ∧
  (∀ c ∈ t.transportCall e, (t.player.call c).isPlaying = true → t.player.isPlaying = false →
    t.playback.Aired) ∧
  ∀ x ∈ t.arrives e, t.app.current.map stationToLite = some (stationToLite x.1)

/-- An instance that drives another one reports nothing. -/
def AirGuarded (fuzzy : App.FuzzyMatch) (t : Tui E) (e : TuiEvent E) : Prop :=
  t.app.grpcRemote.isSome = false → t.render.AirGuard fuzzy e

instance : Decidable (t.AirGuard fuzzy e) :=
  inferInstanceAs (Decidable ((∀ s ∈ t.loads fuzzy e, t.player.isPlaying = true →
    heardLite t.calls = some (stationToLite s)) ∧
    (∀ c ∈ t.transportCall e, (t.player.call c).isPlaying = true → t.player.isPlaying = false →
      t.playback.Aired) ∧
    ∀ x ∈ t.arrives e, t.app.current.map stationToLite = some (stationToLite x.1)))

instance : Decidable (t.AirGuarded fuzzy e) := inferInstanceAs (Decidable (_ → _))

theorem transportCall_outside {cmd : RemoteCmd} {c : PlayerCall} (he : t.outside e = some cmd)
    (hc : cmd.playerCall = some c) : t.transportCall e = some c := by
  cases e with
  | key key => cases he
  | _ => exact (congrArg (Option.bind · RemoteCmd.playerCall) he).trans hc

theorem onAir_key (h : t.playback.OnAir) {key : KeyEvent} {d : Deed E}
    (hg : t.playback.drives = false → t.AirGuard fuzzy (.key key)) (hmay : t.May fuzzy key d) :
    (t.playback.perform d).OnAir := by
  cases d with
  | note calls =>
    refine h.note fun c hc => ?_
    rcases hmay with rfl | ⟨-, target, cmd, -, rfl⟩
    · cases hc
    · rw [List.mem_singleton.1 hc]
      rfl
  | load s => exact h.load fun hdrives => (hg hdrives).1 s hmay
  | halt => exact h.halt
  | call c =>
    refine h.call fun hdrives hplaying hsilent => ?_
    have hmoves (hc : c = .toggleMute ∨ (∃ delta, c = .bumpVolume delta) ∨
        ∃ dsp, c = .applyDsp dsp) : t.playback.Aired := by
      rw [Player.call_isPlaying _ hc, hsilent] at hplaying
      exact absurd hplaying Bool.false_ne_true
    cases c with
    | toggle => exact (hg hdrives).2.1 .toggle (if_pos hmay) hplaying hsilent
    | toggleMute => exact hmoves (.inl rfl)
    | bumpVolume delta => exact hmoves (.inr (.inl ⟨delta, rfl⟩))
    | applyDsp dsp => exact hmoves (.inr (.inr ⟨dsp, rfl⟩))
    | play | pause | stop | setVolume => exact hmay.elim
  | settle | mirror | roster | engine => exact hmay.elim

theorem onAir_does (h : t.playback.OnAir) {d : Deed E}
    (hg : t.playback.drives = false → t.AirGuard fuzzy e) (hdoes : t.Does fuzzy e d) :
    (t.playback.perform d).OnAir := by
  cases hdoes with
  | note hc => exact h.note hc
  | key he hmay =>
    subst he
    exact onAir_key h hg hmay
  | load he => exact h.load fun hdrives => (hg hdrives).1 _ (loads_outside he)
  | call he hc =>
    exact h.call fun hdrives => (hg hdrives).2.1 _ (transportCall_outside he hc)
  | dsp dsp =>
    refine h.call fun _ hplaying hsilent => ?_
    rw [Player.call_isPlaying _ (.inr (.inr ⟨dsp, rfl⟩)), hsilent] at hplaying
    exact absurd hplaying Bool.false_ne_true
  | roster hlinked devices => exact ⟨h.named, h.aired⟩
  | @settle i answer s front back he hjob hpending =>
    subst he
    have harrives : t.arrives (.done i answer) = t.played s answer :=
      congrArg (fun job => (job.bind Job.resolving).bind fun s => t.played s answer) hjob
    exact h.settle fun hdrives x hx => (hg hdrives).2.2 x (harrives.trans hx)

theorem onAir_render (h : t.playback.OnAir) : t.render.playback.OnAir := by
  rw [render_playback]
  unfold renderDeed
  cases hr : t.app.grpcRemote with
  | none => exact h.broadcast (congrArg Option.isSome hr) rfl
  | some r => exact h.mirror (congrArg Option.isSome hr) _ _

theorem onAir_step (h : t.playback.OnAir) (hg : t.AirGuarded fuzzy e) :
    (t.step fuzzy e).playback.OnAir := by
  obtain ⟨ds, hsteps, hplayback⟩ := step_playback fuzzy t e
  rw [hplayback]
  cases hsteps with
  | idle hc => exact h.note hc
  | engine hmoves => exact h.engine hmoves
  | turn hdoes =>
    have hdrives : t.render.playback.drives = t.playback.drives := by
      rw [render_playback]
      unfold renderDeed
      split <;> rfl
    have hturn := onAir_does (onAir_render h) (fun hfree => hg (hdrives.symm.trans hfree)) hdoes
    rw [render_playback] at hturn
    exact hturn

theorem start_silent (s : Startup) : (start s : Tui E).player.isPlaying = false := by
  have hopened : (opened s : Tui E).player.isPlaying = false :=
    decide_eq_false fun h => by cases E.state_initial.symm.trans h
  unfold start
  cases s.profile with
  | none => exact hopened
  | some account =>
    unfold pullAudio
    cases s.fetched with
    | record audio => exact hopened
    | nothing => exact hopened
    | failed => exact hopened

theorem onAir_start (s : Startup) : (start s : Tui E).playback.OnAir := by
  refine ⟨?_, fun _ hplaying => absurd ((start_silent s).symm.trans hplaying) Bool.false_ne_true⟩
  unfold start
  cases s.profile with
  | none => trivial
  | some account =>
    unfold pullAudio
    cases s.fetched with
    | record audio => trivial
    | nothing => trivial
    | failed => trivial

end Tui

/-! ### The daemon -/

namespace Daemon

variable {E : Engine} {d : Daemon E}

structure OnAir (d : Daemon E) : Prop where
  named : Named d.calls
  aired : ∀ s ∈ d.current, heardLite d.calls = some s

theorem OnAir.call (h : d.OnAir) {c : PlayerCall} (hc : c ≠ .stop) : (d.callPlayer c).OnAir :=
  ⟨h.named, fun s hs => (congrArg (Option.map stationToLite) (heard_player hc d.calls)).trans
    (h.aired s hs)⟩

theorem OnAir.remoteCmd (h : d.OnAir) (resolved : Resolved) (cmd : RemoteCmd) :
    (d.handleRemoteCmd resolved cmd).OnAir := by
  cases cmd with
  | play | pause | playPause | setVolume | toggleMute =>
    refine h.call ?_
    rintro ⟨⟩
  | stop => exact ⟨h.named, fun _ hs => by cases hs⟩
  | loadStation s =>
    simp only [handleRemoteCmd]
    split
    · exact ⟨h.named, h.aired⟩
    · exact ⟨h.named, fun x hx => hx⟩

theorem OnAir.step (h : d.OnAir) (e : DaemonEvent E) : (d.step e).OnAir := by
  cases e with
  | peer cmd resolved => exact h.remoteCmd resolved cmd
  | hub evt =>
    cases evt with
    | status | devices | welcome | presence | authExpired => exact ⟨h.named, h.aired⟩
  | tick => exact ⟨⟨fun _ => h.aired, h.named⟩, h.aired⟩
  | engine transport =>
    simp only [Daemon.step, engineMoves]
    split
    · exact h
    · exact ⟨h.named, h.aired⟩
  | grpc cmd resolved =>
    have hdsp (dsp : AudioSettings) : (callPlayer { d with dsp } (.applyDsp dsp)).OnAir := by
      have hd : OnAir { d with dsp } := ⟨h.named, h.aired⟩
      refine hd.call ?_
      rintro ⟨⟩
    cases cmd with
    | remote cmd => exact h.remoteCmd resolved cmd
    | setAudio dsp => exact hdsp dsp
    | adjustDspRow row dir =>
      simp only [Daemon.step, applyGrpcCmd]
      split
      · exact hdsp _
      · exact h
    | setConnectTarget target =>
      cases target with
      | none =>
        simp only [Daemon.step, applyGrpcCmd]
        split
        · exact ⟨h.named, h.aired⟩
        · exact h
      | some id => exact ⟨h.named, h.aired⟩
    | favorite | listStations | comment => exact h

end Daemon

/-- The terminal UI names the station that is heard where every step of the run is guarded, and the
daemon always. -/
theorem heard_named {E : Engine} (fuzzy : App.FuzzyMatch) :
    (∀ (s : Tui.Startup) (es : List (TuiEvent E)),
      AllSteps (Tui.step fuzzy) (Tui.AirGuarded fuzzy) (Tui.start s) es →
        Named (run (Tui.step fuzzy) (Tui.start s) es).calls) ∧
    ∀ (volume : ℚ) (audio : AudioSettings) (es : List (DaemonEvent E)),
      Named (run Daemon.step (Daemon.start volume audio) es).calls := by
  refine ⟨fun s es hg => ?_, fun volume audio es => ?_⟩
  · exact (run_invariant (I := fun t : Tui E => t.playback.OnAir)
      (fun _ _ h hg => Tui.onAir_step h hg) (Tui.onAir_start s) hg).named
  · have hstart : (Daemon.start volume audio : Daemon E).OnAir :=
      ⟨trivial, fun _ hs => by cases hs⟩
    exact (run_kept (fun _ e h => h.step e) hstart es).named

namespace Tui

/-- Two popular stations arrive, and the first of them is loaded and heard. -/
def firstHeard : List (TuiEvent sampleEngine) :=
  [.done 1 (.stations [sampleStation, { sampleStation with stationId := "s2", name := "Two" }]),
    .key { code := .enter }, .done 2 (.resolved ⟨"http://one/stream", false⟩), .tick]

theorem first_named : Named
    (run (step fun _ _ => none) (start sampleStartup) firstHeard).calls := by
  obtain ⟨hnamed, _⟩ := heard_named (E := sampleEngine) fun _ _ => none
  exact hnamed sampleStartup firstHeard (by decide +kernel)

/-- The second one is named from its load on, while the first is heard. -/
theorem second_misnamed : ¬ Named (run (step fun _ _ => none) (start sampleStartup)
    (firstHeard ++ [.key { code := .down }, .key { code := .enter }, .tick])).calls := by
  decide +kernel

end Tui

end Atradio.Cli
