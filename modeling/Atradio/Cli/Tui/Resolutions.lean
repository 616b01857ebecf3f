import Atradio.Lib.Run
import Atradio.Cli.Tui.Deeds

/-! # Late resolutions in the terminal UI

A resolution may arrive after other loads and after a stop. What is asked of it is read off the
log. -/

namespace Atradio.Cli
open Atradio.Audio Atradio.Connect Atradio.Lib

/-- The station of the last load, none where a stop came after it. -/
def lastCommand : List Call → Option StationInfo
  | [] => none
  | .load s :: _ => some s
  | .player .stop :: _ => none
  | _ :: calls => lastCommand calls

def SameStream (s s' : StationInfo) : Prop := s.stationId = s'.stationId ∧ s.streamUrl = s'.streamUrl

instance (s s' : StationInfo) : Decidable (SameStream s s') := inferInstanceAs (Decidable (_ ∧ _))

def Commanded (calls : List Call) (s : StationInfo) : Prop :=
  ∃ s' ∈ lastCommand calls, SameStream s s'

instance (calls : List Call) (s : StationInfo) : Decidable (Commanded calls s) :=
  inferInstanceAs (Decidable (∃ s' ∈ lastCommand calls, SameStream s s'))

/-- Every resolution that was played was for the station of the last command. -/
def Timely : List Call → Prop
  | [] => True
  | .playUrl s _ :: calls => Commanded calls s ∧ Timely calls
  | _ :: calls => Timely calls

instance decidableTimely : (calls : List Call) → Decidable (Timely calls)
  | [] => isTrue trivial
  | c :: calls =>
    have := decidableTimely calls
    match c with
    | .playUrl s _ => inferInstanceAs (Decidable (Commanded calls s ∧ Timely calls))
    | .load _ | .player _ | .command _ _ | .broadcast _ | .listed _ _ | .fetched _ _
    | .saveSettings _ _ | .putAudio _ _ => inferInstanceAs (Decidable (Timely calls))

theorem lastCommand_inert {c : Call} (hc : c.inert = true) (calls : List Call) :
    lastCommand (c :: calls) = lastCommand calls := by
  cases c with
  | load | playUrl | player | broadcast => cases hc
  | command | listed | fetched | saveSettings | putAudio => rfl

theorem timely_inert {c : Call} (hc : c.inert = true) {calls : List Call} (h : Timely calls) :
    Timely (c :: calls) := by
  cases c with
  | load | playUrl | player | broadcast => cases hc
  | command | listed | fetched | saveSettings | putAudio => exact h

theorem lastCommand_player {c : PlayerCall} (hc : c ≠ .stop) (calls : List Call) :
    lastCommand (.player c :: calls) = lastCommand calls := by
  cases c with
  | stop => exact absurd rfl hc
  | _ => rfl

namespace Playback

variable {E : Engine}

structure OnTime (p : Playback E) : Prop where
  timely : Timely p.calls
  awaited : ∀ s ∈ p.pending, p.current.map StationInfo.stationId = some s.stationId →
    Commanded p.calls s

variable {p : Playback E}

theorem OnTime.note (h : p.OnTime) {calls : List Call} (hc : ∀ c ∈ calls, c.inert = true) :
    (p.perform (.note calls)).OnTime := by
  induction calls with
  | nil => exact h
  | cons c calls ih =>
    have hrest := ih fun c' hc' => hc c' (List.mem_cons_of_mem _ hc')
    have hinert := hc c (List.mem_cons_self ..)
    refine ⟨timely_inert hinert hrest.timely, fun s hs hcurrent => ?_⟩
    have hlast := lastCommand_inert hinert (calls ++ p.calls)
    obtain ⟨s', hs', hsame⟩ := hrest.awaited s hs hcurrent
    exact ⟨s', hlast.symm ▸ hs', hsame⟩

theorem OnTime.broadcast (h : p.OnTime) (state : GrpcState) :
    (p.perform (.note [.broadcast state])).OnTime := ⟨h.timely, h.awaited⟩

theorem OnTime.load (h : p.OnTime) {s : StationInfo}
    (hurl : ∀ x ∈ p.pending, x.stationId = s.stationId → x.streamUrl = s.streamUrl) :
    (p.perform (.load s)).OnTime := by
  refine ⟨h.timely, fun x hx hcurrent => ⟨s, rfl, ?_⟩⟩
  have hid : x.stationId = s.stationId := (Option.some.inj hcurrent).symm
  rcases List.mem_append.1 hx with hx | hx
  · exact ⟨hid, hurl x hx hid⟩
  · rw [List.mem_singleton.1 hx]
    exact ⟨rfl, rfl⟩

theorem OnTime.halt (h : p.OnTime) : (p.perform .halt).OnTime :=
  ⟨h.timely, fun _ _ hcurrent => by cases hcurrent⟩

theorem OnTime.call (h : p.OnTime) {c : PlayerCall}
    (hstop : c = .stop → ∀ x ∈ p.pending, p.current.map StationInfo.stationId ≠ some x.stationId) :
    (p.perform (.call c)).OnTime := by
  refine ⟨h.timely, fun x hx hcurrent => ?_⟩
  by_cases hc : c = .stop
  · exact absurd hcurrent (hstop hc x hx)
  · obtain ⟨s', hs', hsame⟩ := h.awaited x hx hcurrent
    exact ⟨s', (lastCommand_player hc p.calls).symm ▸ hs', hsame⟩

theorem OnTime.mirror (h : p.OnTime) {station : Option StationInfo} (devices : List Device)
    (hmirrored : ∀ x ∈ p.pending, station.map StationInfo.stationId = some x.stationId →
      Commanded p.calls x) :
    (p.perform (.mirror station devices)).OnTime := ⟨h.timely, hmirrored⟩

theorem OnTime.engine (h : p.OnTime) (transport : E.τ) : (p.perform (.engine transport)).OnTime :=
  ⟨h.timely, h.awaited⟩

end Playback

namespace Tui

variable {E : Engine} {fuzzy : App.FuzzyMatch} {t : Tui E} {e : TuiEvent E}

theorem onTime_settle (h : t.playback.OnTime) {s : StationInfo} {front back : List StationInfo}
    (hpending : t.pending = front ++ s :: back) (answer : Answer) :
    (t.playback.perform (.settle (front ++ back) (t.played s answer))).OnTime := by
  have hsub (x : StationInfo) (hx : x ∈ front ++ back) : x ∈ t.pending := by
    rw [hpending]
    rcases List.mem_append.1 hx with hx | hx
    · exact List.mem_append_left _ hx
    · exact List.mem_append_right _ (List.mem_cons_of_mem _ hx)
  cases hplayed : t.played s answer with
  | none => exact ⟨h.timely, fun x hx => h.awaited x (hsub x hx)⟩
  | some result =>
    obtain ⟨s', url⟩ := result
    obtain ⟨rfl, hcurrent⟩ := played_eq_some hplayed
    have hs : s' ∈ t.pending := by
      rw [hpending]
      exact List.mem_append_right _ (List.mem_cons_self ..)
    exact ⟨⟨h.awaited s' hs hcurrent, h.timely⟩, fun x hx => h.awaited x (hsub x hx)⟩

/-! ### The guard -/

/-- A station shown for a controlled instance is not one being resolved here, unless the last
command was to load it. -/
def RenderGuard (t : Tui E) : Prop :=
  ∀ r ∈ t.app.grpcRemote, ∀ m ∈ r.mirror.wire.station, ∀ x ∈ t.pending,
    x.stationId = m.id → Commanded t.calls x

/-- Nothing else under the identifier of a station to load is being resolved. -/
def LoadGuard (fuzzy : App.FuzzyMatch) (t : Tui E) (e : TuiEvent E) : Prop :=
  ∀ s ∈ t.loads fuzzy e, ∀ x ∈ t.pending, x.stationId = s.stationId → x.streamUrl = s.streamUrl

/-- A stop from elsewhere comes when the current station is not being resolved. -/
def StopGuard (t : Tui E) (e : TuiEvent E) : Prop :=
  t.outside e = some .stop →
    ∀ x ∈ t.pending, t.app.current.map StationInfo.stationId ≠ some x.stationId

def Guarded (fuzzy : App.FuzzyMatch) (t : Tui E) (e : TuiEvent E) : Prop :=
  t.RenderGuard ∧ t.render.LoadGuard fuzzy e ∧ t.render.StopGuard e

instance : Decidable t.RenderGuard :=
  inferInstanceAs (Decidable (∀ r ∈ t.app.grpcRemote, ∀ m ∈ r.mirror.wire.station,
    ∀ x ∈ t.pending, x.stationId = m.id → Commanded t.calls x))

instance : Decidable (t.LoadGuard fuzzy e) :=
  inferInstanceAs (Decidable (∀ s ∈ t.loads fuzzy e, ∀ x ∈ t.pending,
    x.stationId = s.stationId → x.streamUrl = s.streamUrl))

instance : Decidable (t.StopGuard e) := inferInstanceAs (Decidable (_ → _))

instance : Decidable (t.Guarded fuzzy e) := inferInstanceAs (Decidable (_ ∧ _ ∧ _))

/-! ### Runs -/

theorem onTime_render (h : t.playback.OnTime) (hg : t.RenderGuard) : t.render.playback.OnTime := by
  rw [render_playback]
  unfold renderDeed
  cases hr : t.app.grpcRemote with
  | none => exact h.broadcast _
  | some r =>
    refine h.mirror _ fun x hx hstation => ?_
    cases hm : r.mirror.wire.station with
    | none =>
      rw [hm] at hstation
      cases hstation
    | some m =>
      rw [hm] at hstation
      exact hg r hr m hm x hx (Option.some.inj hstation).symm

theorem onTime_key (h : t.playback.OnTime) {key : KeyEvent} {d : Deed E}
    (hload : t.LoadGuard fuzzy (.key key)) (hmay : t.May fuzzy key d) :
    (t.playback.perform d).OnTime := by
  cases d with
  | note calls =>
    refine h.note fun c hc => ?_
    rcases hmay with rfl | ⟨-, target, cmd, -, rfl⟩
    · cases hc
    · rw [List.mem_singleton.1 hc]
      rfl
  | load s => exact h.load (hload s hmay)
  | halt => exact h.halt
  | call c =>
    refine h.call ?_
    rintro rfl
    exact hmay.elim
  | settle | mirror | roster | engine => exact hmay.elim

theorem stop_of_playerCall {cmd : RemoteCmd} (h : cmd.playerCall = some .stop) : cmd = .stop := by
  cases cmd <;> first | rfl | cases h

theorem onTime_does (h : t.playback.OnTime) {d : Deed E} (hload : t.LoadGuard fuzzy e)
    (hstop : t.StopGuard e) (hdoes : t.Does fuzzy e d) : (t.playback.perform d).OnTime := by
  cases hdoes with
  | note hc => exact h.note hc
  | key he hmay =>
    subst he
    exact onTime_key h hload hmay
  | settle he hjob hpending => exact onTime_settle h hpending _
  | dsp dsp =>
    refine h.call ?_
    rintro ⟨⟩
  | roster hlinked devices => exact ⟨h.timely, h.awaited⟩
  | load he => exact h.load (hload _ (loads_outside he))
  | call he hc =>
    refine h.call ?_
    rintro rfl
    exact hstop (stop_of_playerCall hc ▸ he)

theorem onTime_step (h : t.playback.OnTime) (hg : t.Guarded fuzzy e) :
    (t.step fuzzy e).playback.OnTime := by
  obtain ⟨ds, hsteps, hplayback⟩ := step_playback fuzzy t e
  rw [hplayback]
  cases hsteps with
  | idle hc => exact h.note hc
  | engine hmoves => exact h.engine _
  | turn hdoes =>
    have hrendered := onTime_render h hg.1
    have hturn := onTime_does hrendered hg.2.1 hg.2.2 hdoes
    rw [render_playback] at hturn
    exact hturn

theorem onTime_start (s : Startup) : (start s : Tui E).playback.OnTime := by
  unfold start
  cases s.profile with
  | none => exact ⟨trivial, fun _ _ hcurrent => by cases hcurrent⟩
  | some account =>
    unfold pullAudio
    cases s.fetched with
    | record audio => exact ⟨trivial, fun _ _ hcurrent => by cases hcurrent⟩
    | nothing => exact ⟨trivial, fun _ _ hcurrent => by cases hcurrent⟩
    | failed => exact ⟨trivial, fun _ _ hcurrent => by cases hcurrent⟩

/-- Where every step of a run is guarded, no resolution is played out of time. -/
theorem timely_of_guarded (fuzzy : App.FuzzyMatch) (s : Startup) (es : List (TuiEvent E))
    (hg : AllSteps (step fuzzy) (Guarded fuzzy) (start s) es) :
    Timely (run (step fuzzy) (start s) es).calls :=
  (run_invariant (I := fun t : Tui E => t.playback.OnTime) (fun _ _ h hg => onTime_step h hg)
    (onTime_start s) hg).timely

/-- The popular stations arrive, and the first of them is loaded. -/
def sampleLoad : List (TuiEvent sampleEngine) :=
  [.done 1 (.stations [sampleStation]), .key { code := .enter }]

def sampleResolved : TuiEvent sampleEngine := .done 2 (.resolved ⟨"http://one/stream", false⟩)

theorem load_timely : Timely
    (run (step fun _ _ => none) (start sampleStartup) (sampleLoad ++ [sampleResolved])).calls :=
  timely_of_guarded _ sampleStartup _ (by decide +kernel)

/-- The desktop stops the player while the stream is being resolved. -/
theorem stopped_plays : ¬ Timely (run (step fun _ _ => none) (start sampleStartup)
    (sampleLoad ++ [.mpris .stop, sampleResolved])).calls := by
  decide +kernel

end Tui

end Atradio.Cli
