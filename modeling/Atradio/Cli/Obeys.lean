import Atradio.Lib.Run
import Atradio.Cli.Daemon
import Atradio.Cli.Tui.Deeds

/-! # Remote commands in the terminal UI, in the daemon and in the mirror of a controller

The terminal UI resolves streams in the background, the daemon before it goes on; the mirror shows
a command before it is sent. -/

namespace Atradio.Cli
open Atradio.Audio Atradio.Connect Atradio.Lib

/-- What the streams of stations resolve to, by address and source. -/
abbrev Resolution := String → String → Resolved

def Resolution.of (resolve : Resolution) (s : StationInfo) : Resolved := resolve s.streamUrl s.source

def Answer.resolution : Answer → Option Resolved
  | .resolved r => some r
  | _ => none

def Daemon.obey {E : Engine} (resolve : Resolution) (d : Daemon E) (cmd : RemoteCmd) : Daemon E :=
  match cmd with
  | .loadStation s => d.handleRemoteCmd (resolve.of (liteToStation s)) cmd
  | _ => d.handleRemoteCmd ⟨"", false⟩ cmd

/-- The controller sends a command, where its client has one for it. -/
def GrpcRemote.issue (r : GrpcRemote) : RemoteCmd → GrpcRemote
  | .playPause => r.playPause
  | .stop => r.stop
  | .toggleMute => r.toggleMute
  | .setVolume v => r.setVolume v
  | .loadStation s => r.loadStation s
  | .play | .pause => r

/-- The two report the same but for the title. -/
structure SameReport (w w' : WireState) : Prop where
  station : w.station = w'.station
  playing : w.playing = w'.playing
  volume : w.volume = w'.volume
  muted : w.muted = w'.muted

namespace Playback

variable {E : Engine}

/-- A stream that can be played is being resolved for the current station. -/
def Awaits (resolve : Resolution) (p : Playback E) : Prop :=
  ∃ s ∈ p.pending, p.current.map StationInfo.stationId = some s.stationId ∧
    (resolve.of s).isHls = false

/-- The two agree once what is awaited has been resolved. -/
structure Meets (resolve : Resolution) (p : Playback E) (d : Daemon E) : Prop where
  station : p.current.map stationToLite = d.current
  volume : p.player.volume = d.player.volume
  lastVolume : p.player.lastVolume = d.player.lastVolume
  awaited : p.Awaits resolve → d.player.transport = E.started
  transport : ¬ p.Awaits resolve → p.player.transport = d.player.transport

variable {resolve : Resolution} {p : Playback E} {d : Daemon E}

theorem Meets.report (h : p.Meets resolve d) (hdone : p.pending = []) :
    SameReport (p.player.wire (p.current.map stationToLite)) d.wire := by
  have hquiet : ¬ p.Awaits resolve := by
    rintro ⟨s, hs, -⟩
    rw [hdone] at hs
    cases hs
  refine ⟨h.station, ?_, h.volume, ?_⟩
  · exact congrArg (fun transport => decide (E.state transport = .playing)) (h.transport hquiet)
  · exact congrArg (fun v : ℚ => decide (v ≤ 0)) h.volume

theorem Meets.sound (h : p.Meets resolve d) {c : PlayerCall}
    (hc : (∃ v, c = .setVolume v) ∨ c = .toggleMute) :
    (p.perform (.call c)).Meets resolve (d.callPlayer c) := by
  have htransport (q : Player E) : (q.call c).transport = q.transport := by
    rcases hc with ⟨v, rfl⟩ | rfl
    · rfl
    · unfold Player.call Player.toggleMute
      dsimp only
      split <;> rfl
  have hvolumes : (p.player.call c).volume = (d.player.call c).volume ∧
      (p.player.call c).lastVolume = (d.player.call c).lastVolume := by
    rcases hc with ⟨v, rfl⟩ | rfl
    · simp only [Player.call, Player.setVolume, h.lastVolume, and_self]
    · have hmuted : p.player.isMuted = d.player.isMuted :=
        congrArg (fun v : ℚ => decide (v ≤ 0)) h.volume
      simp only [Player.call, Player.toggleMute, hmuted, h.volume, h.lastVolume]
      split <;> exact ⟨rfl, rfl⟩
  refine ⟨h.station, hvolumes.1, hvolumes.2, fun ha => ?_, fun ha => ?_⟩
  · exact (htransport _).trans (h.awaited ha)
  · exact (htransport _).trans ((h.transport ha).trans (htransport _).symm)

/-- Calls that move the transport, while nothing is awaited. -/
theorem Meets.moves (h : p.Meets resolve d) (hquiet : ¬ p.Awaits resolve) {c : PlayerCall}
    (hc : c = .toggle ∨ c = .pause) :
    (p.perform (.call c)).Meets resolve (d.callPlayer c) := by
  have htransport := h.transport hquiet
  refine ⟨h.station, ?_, ?_, fun ha => absurd ha hquiet, fun _ => ?_⟩
  · rcases hc with rfl | rfl <;> exact h.volume
  · rcases hc with rfl | rfl <;> exact h.lastVolume
  · rcases hc with rfl | rfl
    · exact congrArg E.toggle htransport
    · exact congrArg E.pause htransport

/-- What plays already is not moved by a call to play. -/
theorem Meets.play (h : p.Meets resolve d) :
    (p.perform (.call .play)).Meets resolve (d.callPlayer .play) := by
  refine ⟨h.station, h.volume, h.lastVolume, fun ha => ?_, fun ha => ?_⟩
  · have hstarted : E.play E.started = E.started := E.play_playing _ E.state_started
    exact (congrArg E.play (h.awaited ha)).trans hstarted
  · exact congrArg E.play (h.transport ha)

theorem Meets.stop (h : p.Meets resolve d) (hnone : p.current = none) :
    (p.perform (.call .stop)).Meets resolve { d.callPlayer .stop with current := none } := by
  have hquiet : ¬ p.Awaits resolve := by
    rintro ⟨s, -, hcurrent, -⟩
    rw [hnone] at hcurrent
    cases hcurrent
  refine ⟨congrArg (Option.map stationToLite) hnone, h.volume, h.lastVolume,
    fun ha => absurd ha hquiet, fun _ => ?_⟩
  exact congrArg E.stop (h.transport hquiet)

theorem Meets.loadDirect (h : p.Meets resolve d) (s : StationLite)
    (hdirect : (resolve.of (liteToStation s)).isHls = false) :
    (p.perform (.load (liteToStation s))).Meets resolve (d.obey resolve (.loadStation s)) := by
  have hobey : d.obey resolve (.loadStation s) =
      { d with
        player := d.player.playUrl (resolve.of (liteToStation s)).url
        calls := .playUrl (liteToStation s) (resolve.of (liteToStation s)).url ::
          .load (liteToStation s) :: d.calls
        current := some s } := by
    simp [Daemon.obey, Daemon.handleRemoteCmd, hdirect]
  rw [hobey]
  refine ⟨rfl, h.volume, h.lastVolume, fun _ => rfl, fun hquiet => absurd ?_ hquiet⟩
  exact ⟨liteToStation s, List.mem_append_right _ (List.mem_singleton_self _), rfl, hdirect⟩

theorem Meets.loadHls (h : p.Meets resolve d) (s : StationLite)
    (hhls : (resolve.of (liteToStation s)).isHls = true)
    (hcurrent : p.current.map stationToLite = some s) :
    (p.perform (.load (liteToStation s))).Meets resolve (d.obey resolve (.loadStation s)) := by
  have hobey : d.obey resolve (.loadStation s) = d.log (.load (liteToStation s)) := by
    simp [Daemon.obey, Daemon.handleRemoteCmd, hhls]
  have hid : p.current.map StationInfo.stationId = some s.id := by
    obtain ⟨x, hx, rfl⟩ := Option.map_eq_some_iff.1 hcurrent
    rw [hx]
    rfl
  have hawaits : (p.perform (.load (liteToStation s))).Awaits resolve ↔ p.Awaits resolve := by
    constructor
    · rintro ⟨x, hx, hxid, hdirect⟩
      rcases List.mem_append.1 hx with hx | hx
      · exact ⟨x, hx, hid.trans hxid, hdirect⟩
      · rw [List.mem_singleton.1 hx, hhls] at hdirect
        cases hdirect
    · rintro ⟨x, hx, hxid, hdirect⟩
      exact ⟨x, List.mem_append_left _ hx, hid.symm.trans hxid, hdirect⟩
  rw [hobey]
  exact ⟨hcurrent.symm.trans h.station, h.volume, h.lastVolume,
    fun ha => h.awaited (hawaits.1 ha), fun ha => h.transport fun ha' => ha (hawaits.2 ha')⟩

/-- The transport starts where the resolution of an awaited stream ends. -/
theorem Meets.settle (h : p.Meets resolve d) {s : StationInfo} {front back : List StationInfo}
    (hpending : p.pending = front ++ s :: back) {played : Option (StationInfo × String)}
    (hplayed : played.isSome = true ↔
      (resolve.of s).isHls = false ∧ p.current.map StationInfo.stationId = some s.stationId) :
    (p.perform (.settle (front ++ back) played)).Meets resolve d := by
  have hmem (x : StationInfo) : x ∈ p.pending ↔ x = s ∨ x ∈ front ++ back := by
    rw [hpending, List.mem_append, List.mem_cons, List.mem_append]
    exact or_left_comm
  cases played with
  | none =>
    have hquiet : ¬ ((resolve.of s).isHls = false ∧
        p.current.map StationInfo.stationId = some s.stationId) := fun hs => by
      cases hplayed.2 hs
    have hawaits : (p.perform (.settle (front ++ back) none)).Awaits resolve ↔ p.Awaits resolve := by
      constructor
      · rintro ⟨x, hx, hcurrent, hdirect⟩
        exact ⟨x, (hmem x).2 (.inr hx), hcurrent, hdirect⟩
      · rintro ⟨x, hx, hcurrent, hdirect⟩
        rcases (hmem x).1 hx with rfl | hx
        · exact absurd ⟨hdirect, hcurrent⟩ hquiet
        · exact ⟨x, hx, hcurrent, hdirect⟩
    exact ⟨h.station, h.volume, h.lastVolume, fun ha => h.awaited (hawaits.1 ha),
      fun ha => h.transport fun ha' => ha (hawaits.2 ha')⟩
  | some x =>
    obtain ⟨hdirect, hcurrent⟩ := hplayed.1 rfl
    have hstarted := h.awaited ⟨s, (hmem s).2 (.inl rfl), hcurrent, hdirect⟩
    exact ⟨h.station, h.volume, h.lastVolume, fun _ => hstarted, fun _ => hstarted.symm⟩

/-- What a command asks of the terminal UI: a stop comes where no station is current, a pause or a
toggle where none is awaited, and a load of what the player cannot play is of the current station. -/
def ObeyGuard (resolve : Resolution) (p : Playback E) : RemoteCmd → Prop
  | .stop => p.current = none
  | .pause | .playPause => ¬ p.Awaits resolve
  | .loadStation s =>
    (resolve.of (liteToStation s)).isHls = true → p.current.map stationToLite = some s
  | .play | .setVolume _ | .toggleMute => True

end Playback

namespace Tui

variable {E : Engine} {fuzzy : App.FuzzyMatch} {resolve : Resolution} {t : Tui E} {d : Daemon E}
  {e : TuiEvent E}

/-- The loop takes events, and no other instance is driven. -/
structure Runs (t : Tui E) : Prop where
  ended : t.ended = false
  pendingOauth : t.app.pendingOauth = none
  shouldQuit : t.app.shouldQuit = false
  serves : t.app.grpcRemote = none

/-- Commands, ends of jobs and ticks; streams resolve as `resolve` says. -/
def Orders (resolve : Resolution) (t : Tui E) : TuiEvent E → Prop
  | .peer _ | .grpc (.remote _) | .tick => True
  | .done i answer =>
    ∀ s ∈ t.jobs[i]?.bind Job.resolving, answer.resolution = some (resolve.of s)
  | _ => False

theorem Runs.edit (h : t.Runs) {f : App → App} (hoauth : (f t.app).pendingOauth = none)
    (hquit : (f t.app).shouldQuit = false) (hserves : (f t.app).grpcRemote = none) :
    (t.edit f).Runs := ⟨h.ended, hoauth, hquit, hserves⟩

theorem Runs.spawn (h : t.Runs) (jobs : List Job) : (t.spawn jobs).Runs :=
  ⟨h.ended, h.pendingOauth, h.shouldQuit, h.serves⟩

theorem Runs.callPlayer (h : t.Runs) (c : PlayerCall) : (t.callPlayer c).Runs :=
  ⟨h.ended, h.pendingOauth, h.shouldQuit, h.serves⟩

theorem Runs.render (h : t.Runs) : t.render.Runs := by
  unfold Tui.render
  rw [h.serves]
  exact ⟨h.ended, h.pendingOauth, h.shouldQuit, h.serves⟩

theorem Runs.applyRemoteCmd (h : t.Runs) (cmd : RemoteCmd) : (t.applyRemoteCmd cmd).Runs := by
  cases cmd with
  | loadStation s => exact ⟨h.ended, h.pendingOauth, h.shouldQuit, h.serves⟩
  | _ => exact h.callPlayer _

theorem applyMsg_kept (a : App) (msg : Msg) :
    (a.applyMsg msg).pendingOauth = a.pendingOauth ∧ (a.applyMsg msg).shouldQuit = a.shouldQuit ∧
      (a.applyMsg msg).grpcRemote = a.grpcRemote := by
  cases msg with
  | trending items =>
    unfold App.applyMsg App.clampSelection
    dsimp only
    split_ifs <;> exact ⟨rfl, rfl, rfl⟩
  | profileRecent items =>
    unfold App.applyMsg App.clampProfile
    dsimp only
    split <;> exact ⟨rfl, rfl, rfl⟩
  | searchResults query items =>
    simp only [App.applyMsg]
    split <;> exact ⟨rfl, rfl, rfl⟩
  | _ => exact ⟨rfl, rfl, rfl⟩

theorem Runs.receive (h : t.Runs) (job : Job) (msg : Msg) : (t.receive job msg).Runs := by
  unfold Tui.receive
  split
  · split
    · split
      · exact ⟨h.ended, h.pendingOauth, h.shouldQuit, h.serves⟩
      · exact h
    · exact h
  · obtain ⟨hoauth, hquit, hserves⟩ := applyMsg_kept t.app msg
    have hedit := h.edit (f := fun a => a.applyMsg msg) (hoauth.trans h.pendingOauth)
      (hquit.trans h.shouldQuit) (hserves.trans h.serves)
    dsimp only
    split
    · exact ⟨hedit.ended, hedit.pendingOauth, hedit.shouldQuit, hedit.serves⟩
    · exact hedit

theorem Runs.finish (h : t.Runs) (i : ℕ) (answer : Answer) : (t.finish i answer).Runs := by
  unfold Tui.finish
  split
  · exact h
  · rename_i job hjob
    have hrest : Runs { t with jobs := t.jobs.eraseIdx i ++ job.next answer } :=
      ⟨h.ended, h.pendingOauth, h.shouldQuit, h.serves⟩
    dsimp only
    split
    · exact hrest
    · exact hrest.receive job _

theorem Runs.tick (h : t.Runs) : t.tick.Runs := by
  have hfired : t.fireSearch.Runs := by
    unfold fireSearch
    split
    · have hclean : (t.edit fun a => { a with searchDirty := false }).Runs :=
        h.edit h.pendingOauth h.shouldQuit h.serves
      dsimp only
      split
      · exact hclean
      · exact hclean.spawn _
    · exact h
  unfold Tui.tick refreshLists
  rw [hfired.serves]
  exact hfired

/-- A turn of a loop that runs. -/
theorem Runs.step_eq (h : t.Runs) (ho : t.Orders resolve e) :
    t.step fuzzy e = t.render.handle fuzzy e := by
  have hturn : t.loopTurn fuzzy e = t.render.handle fuzzy e := by
    unfold loopTurn
    dsimp only
    rw [h.render.shouldQuit]
    rfl
  cases e with
  | peer | done | tick | grpc =>
    unfold step
    rw [h.ended, h.pendingOauth]
    exact hturn
  | key | mpris | hub | oauth | terminalFailed | mirror | engine => exact ho.elim

theorem Runs.step (h : t.Runs) (ho : t.Orders resolve e) : (t.step fuzzy e).Runs := by
  rw [h.step_eq ho]
  cases e with
  | peer cmd =>
    simp only [handle]
    split
    · exact h.render.applyRemoteCmd cmd
    · exact h.render
  | done i answer => exact h.render.finish i answer
  | tick => exact h.render.tick
  | grpc cmd =>
    simp only [handle]
    split
    · exact h.render
    · cases cmd with
      | remote cmd => exact h.render.applyRemoteCmd cmd
      | _ => exact ho.elim
  | key | mpris | hub | oauth | terminalFailed | mirror | engine => exact ho.elim

/-! ### One command -/

theorem Runs.render_playback (h : t.Runs) :
    ∃ state, t.render.playback = t.playback.perform (.note [.broadcast state]) := by
  rw [Tui.render_playback, renderDeed, h.serves]
  exact ⟨_, rfl⟩

theorem outside_eq {u : Tui E} (hdrives : u.playback.drives = t.playback.drives)
    (hlinked : u.playback.linked = t.playback.linked) : u.outside = t.outside := by
  have hdrives' : u.app.grpcRemote.isSome = t.app.grpcRemote.isSome := hdrives
  have hlinked' : u.app.remoteControl = t.app.remoteControl := hlinked
  funext e
  unfold outside
  rw [hdrives', hlinked']

theorem Runs.outside_render (h : t.Runs) : t.render.outside = t.outside := by
  obtain ⟨state, hrender⟩ := h.render_playback
  exact outside_eq ((congrArg (fun p : Playback E => p.drives) hrender).trans rfl)
    ((congrArg (fun p : Playback E => p.linked) hrender).trans rfl)

theorem meets_applyRemoteCmd (h : t.playback.Meets resolve d) {cmd : RemoteCmd}
    (hg : t.playback.ObeyGuard resolve cmd) :
    (t.applyRemoteCmd cmd).playback.Meets resolve (d.obey resolve cmd) := by
  cases cmd with
  | play => exact h.play
  | pause => exact h.moves hg (.inr rfl)
  | playPause => exact h.moves hg (.inl rfl)
  | stop => exact h.stop hg
  | setVolume v => exact h.sound (.inl ⟨v, rfl⟩)
  | toggleMute => exact h.sound (.inr rfl)
  | loadStation s =>
    have hload : (t.applyRemoteCmd (.loadStation s)).playback =
        t.playback.perform (.load (liteToStation s)) := startPlaying_playback _ _
    rw [hload]
    cases hhls : (resolve.of (liteToStation s)).isHls with
    | false => exact h.loadDirect s hhls
    | true => exact h.loadHls s hhls (hg hhls)

/-- What the end of a job leaves of the agreement. -/
theorem meets_finish (h : t.playback.Meets resolve d) {i : ℕ} {answer : Answer}
    (ho : t.Orders resolve (.done i answer)) :
    (t.finish i answer).playback.Meets resolve d := by
  have hleads : t.Leads (fun _ _ => none) (.done i answer) (t.finish i answer) :=
    leads_finish t i answer
  obtain ⟨deed, hdoes, hplayback⟩ := hleads
  rw [hplayback]
  cases hdoes with
  | note | roster => exact ⟨h.station, h.volume, h.lastVolume, h.awaited, h.transport⟩
  | dsp dsp => exact ⟨h.station, h.volume, h.lastVolume, h.awaited, h.transport⟩
  | key he | call he | load he => cases he
  | @settle j answer' s front back he hjob hpending =>
    cases he
    refine h.settle hpending ?_
    have hanswer : answer.resolution = some (resolve.of s) := ho s (by rw [hjob]; rfl)
    cases answer with
    | resolved r =>
      obtain rfl := Option.some.inj hanswer
      unfold played
      dsimp only
      split
      · exact iff_of_true rfl ‹_›
      · exact iff_of_false Bool.false_ne_true ‹_›
    | _ => cases hanswer

def ObeyGuarded (resolve : Resolution) (t : Tui E) (e : TuiEvent E) : Prop :=
  t.Orders resolve e ∧ ∀ cmd ∈ t.outside e, t.playback.ObeyGuard resolve cmd

/-- A command that the terminal UI takes is one that the daemon is given. -/
theorem meets_step (fuzzy : App.FuzzyMatch) (hrun : t.Runs) (h : t.playback.Meets resolve d)
    (hg : t.ObeyGuarded resolve e) :
    (t.step fuzzy e).playback.Meets resolve ((t.outside e).elim d (d.obey resolve)) := by
  obtain ⟨state, hrender⟩ := hrun.render_playback
  have hrendered : t.render.playback.Meets resolve d := by
    rw [hrender]
    exact ⟨h.station, h.volume, h.lastVolume, h.awaited, h.transport⟩
  have hguard (cmd : RemoteCmd) (he : t.outside e = some cmd) :
      t.render.playback.ObeyGuard resolve cmd := by
    have hcmd := hg.2 cmd he
    rw [hrender]
    cases cmd <;> exact hcmd
  have houtside := congrFun hrun.outside_render e
  rw [hrun.step_eq hg.1]
  cases e with
  | peer cmd =>
    simp only [handle]
    split
    · have he : t.outside (.peer cmd) = some cmd := houtside.symm.trans (if_pos ‹_›)
      rw [he]
      exact meets_applyRemoteCmd hrendered (hguard cmd he)
    · have he : t.outside (.peer cmd) = none := houtside.symm.trans (if_neg ‹_›)
      rw [he]
      exact hrendered
  | grpc cmd =>
    cases cmd with
    | remote cmd =>
      simp only [handle]
      split
      · have he : t.outside (.grpc (.remote cmd)) = none := houtside.symm.trans (if_pos ‹_›)
        rw [he]
        exact hrendered
      · have he : t.outside (.grpc (.remote cmd)) = some cmd := houtside.symm.trans (if_neg ‹_›)
        rw [he]
        exact meets_applyRemoteCmd hrendered (hguard cmd he)
    | _ => exact hg.1.elim
  | tick =>
    have htick := t.render.fireSearch.refreshLists_playback.trans t.render.fireSearch_playback
    exact htick ▸ hrendered
  | done i answer =>
    refine meets_finish hrendered ?_
    have hjobs : t.render.jobs = t.jobs := by
      unfold render
      rw [hrun.serves]
      rfl
    unfold Orders
    rw [hjobs]
    exact hg.1
  | key | mpris | hub | oauth | terminalFailed | mirror | engine => exact hg.1.elim

theorem outside_step (fuzzy : App.FuzzyMatch) (t : Tui E) (e : TuiEvent E) :
    (t.step fuzzy e).outside = t.outside := by
  obtain ⟨hdrives, hlinked⟩ := step_kept fuzzy t e
  exact outside_eq hdrives hlinked

/-- The commands of a run are those that its events bring. -/
theorem meets_run (fuzzy : App.FuzzyMatch) {es : List (TuiEvent E)} (hrun : t.Runs)
    (h : t.playback.Meets resolve d) (hg : AllSteps (step fuzzy) (ObeyGuarded resolve) t es) :
    (run (step fuzzy) t es).playback.Meets resolve
      (run (Daemon.obey resolve) d (es.filterMap t.outside)) := by
  induction es generalizing t d with
  | nil => exact h
  | cons e es ih =>
    have hstep := meets_step fuzzy hrun h hg.1
    have hrest := ih (hrun.step hg.1.1) hstep hg.2
    rw [outside_step] at hrest
    rw [List.filterMap_cons]
    cases he : t.outside e with
    | none =>
      rw [he] at hrest
      exact hrest
    | some cmd =>
      rw [he] at hrest
      exact hrest

end Tui

/-! ### The mirror -/

section Mirror

variable {E : Engine} {resolve : Resolution} {d : Daemon E} {r : GrpcRemote}

/-- What the mirror shows of a command is what the player makes of it: a toggle changes whether it
plays, a volume leaves silence and sound apart as they are, and a station arrives whole and has a
stream that can be played. The mute button is never shown rightly, and there are no calls to play
and to pause. -/
def MirrorGuard (resolve : Resolution) (d : Daemon E) : RemoteCmd → Prop
  | .playPause => (d.player.call .toggle).isPlaying = !d.player.isPlaying
  | .setVolume v => decide (clampVolume v ≤ 0) = d.player.isMuted
  | .loadStation s => (resolve.of (liteToStation s)).isHls = false ∧ stationSent s = s
  | .stop => True
  | .toggleMute | .play | .pause => False

theorem sameReport_issue (h : SameReport r.mirror.wire d.wire) {cmd : RemoteCmd}
    (hg : MirrorGuard resolve d cmd) :
    SameReport (r.issue cmd).mirror.wire (d.obey resolve cmd).wire := by
  cases cmd with
  | playPause =>
    refine ⟨h.station, ?_, h.volume, h.muted⟩
    exact (congrArg Bool.not h.playing).trans hg.symm
  | stop =>
    have hsilent : (d.player.call .stop).isPlaying = false :=
      decide_eq_false fun hplaying => by cases (E.state_stop d.player.transport).symm.trans hplaying
    exact ⟨rfl, hsilent.symm, h.volume, h.muted⟩
  | setVolume v => exact ⟨h.station, h.playing, rfl, h.muted.trans hg.symm⟩
  | loadStation s =>
    have hstarted : decide (E.state E.started = .playing) = true := decide_eq_true E.state_started
    unfold Daemon.obey Daemon.handleRemoteCmd
    dsimp only
    rw [if_neg (by rw [hg.1]; exact Bool.false_ne_true)]
    exact ⟨rfl, hstarted.symm, h.volume, h.muted⟩
  | toggleMute | play | pause => exact hg.elim

theorem sameReport_run {cmds : List RemoteCmd} (h : SameReport r.mirror.wire d.wire)
    (hg : AllSteps (Daemon.obey resolve) (MirrorGuard resolve) d cmds) :
    SameReport (cmds.foldl GrpcRemote.issue r).mirror.wire
      (run (Daemon.obey resolve) d cmds).wire := by
  induction cmds generalizing r d with
  | nil => exact h
  | cons cmd cmds ih => exact ih (sameReport_issue h hg.1) hg.2

end Mirror

/-- Where every command is one that the two take alike, they report the same once nothing is being
resolved, and so does the mirror where it shows each of the commands rightly. -/
theorem alike_of_guarded {E : Engine} (fuzzy : App.FuzzyMatch) (resolve : Resolution) {t : Tui E}
    {d : Daemon E} {r : GrpcRemote} {es : List (TuiEvent E)} (hrun : t.Runs)
    (hstation : t.app.current.map stationToLite = d.current) (hplayer : t.player = d.player)
    (hpending : t.pending = []) (hmirror : SameReport r.mirror.wire d.wire)
    (hg : AllSteps (Tui.step fuzzy) (Tui.ObeyGuarded resolve) t es) :
    let cmds := es.filterMap t.outside
    (run (Tui.step fuzzy) t es).pending = [] →
      SameReport (run (Tui.step fuzzy) t es).wire (run (Daemon.obey resolve) d cmds).wire ∧
      (AllSteps (Daemon.obey resolve) (MirrorGuard resolve) d cmds →
        SameReport (cmds.foldl GrpcRemote.issue r).mirror.wire
          (run (Daemon.obey resolve) d cmds).wire) := by
  intro cmds hdone
  have hquiet : ¬ t.playback.Awaits resolve := by
    rintro ⟨s, hs, -⟩
    have hmem : s ∈ t.pending := hs
    rw [hpending] at hmem
    cases hmem
  have hmeets : t.playback.Meets resolve d :=
    ⟨hstation, congrArg Player.volume hplayer, congrArg Player.lastVolume hplayer,
      fun ha => absurd ha hquiet, fun _ => congrArg Player.transport hplayer⟩
  exact ⟨(Tui.meets_run fuzzy hrun hmeets hg).report hdone, sameReport_run hmirror⟩

section Samples

variable {E : Engine} {resolve : Resolution}

deriving instance DecidableEq for Resolved

instance (p : Playback E) : Decidable (p.Awaits resolve) :=
  inferInstanceAs (Decidable (∃ s ∈ p.pending,
    p.current.map StationInfo.stationId = some s.stationId ∧ (resolve.of s).isHls = false))

instance decidableObeyGuard (p : Playback E) :
    (cmd : RemoteCmd) → Decidable (p.ObeyGuard resolve cmd)
  | .stop => inferInstanceAs (Decidable (p.current = none))
  | .pause | .playPause => inferInstanceAs (Decidable (¬ p.Awaits resolve))
  | .loadStation s => inferInstanceAs (Decidable ((resolve.of (liteToStation s)).isHls = true →
      p.current.map stationToLite = some s))
  | .play | .setVolume _ | .toggleMute => isTrue trivial

instance decidableOrders (t : Tui E) : (e : TuiEvent E) → Decidable (t.Orders resolve e)
  | .peer _ | .grpc (.remote _) | .tick => isTrue trivial
  | .done i answer => inferInstanceAs (Decidable (∀ s ∈ t.jobs[i]?.bind Job.resolving,
      answer.resolution = some (resolve.of s)))
  | .key _ | .mpris _ | .hub _ | .oauth _ _ | .terminalFailed | .mirror _ | .engine _
  | .grpc (.setAudio _) | .grpc (.adjustDspRow _ _) | .grpc (.favorite _)
  | .grpc (.listStations _ _) | .grpc (.comment _ _) | .grpc (.setConnectTarget _) =>
    isFalse fun h => h

instance (t : Tui E) (e : TuiEvent E) : Decidable (t.ObeyGuarded resolve e) :=
  inferInstanceAs (Decidable (_ ∧ ∀ cmd ∈ t.outside e, _))

instance decidableMirrorGuard (d : Daemon E) :
    (cmd : RemoteCmd) → Decidable (MirrorGuard resolve d cmd)
  | .playPause => inferInstanceAs (Decidable (_ = _))
  | .setVolume _ => inferInstanceAs (Decidable (_ = _))
  | .loadStation _ => inferInstanceAs (Decidable (_ ∧ _))
  | .stop => isTrue trivial
  | .toggleMute | .play | .pause => isFalse fun h => h

end Samples

/-- Every address is the one of a stream that can be played. -/
def sampleResolution : Resolution := fun url _ => ⟨url, false⟩

def sampleLite : StationLite := stationToLite Tui.sampleStation

def sampleDaemon : Daemon sampleEngine := .start (4 / 5) AudioSettings.default

def sampleMirror : GrpcRemote :=
  ⟨{ Mirror.default with wire := sampleDaemon.wire }, ⟨[], [], []⟩, [], 0⟩

/-- The volume is halved, a station is loaded and heard, and it is paused. -/
def sampleOrders : List (TuiEvent sampleEngine) :=
  [.grpc (.remote (.setVolume (2 / 5))), .grpc (.remote (.loadStation sampleLite)),
    .done 3 (.resolved ⟨sampleLite.url, false⟩), .grpc (.remote .playPause)]

/-- What is compared after a run of the samples. -/
def sampleAlike (es : List (TuiEvent sampleEngine)) : Prop :=
  let t : Tui sampleEngine := Tui.start Tui.sampleStartup
  let cmds := es.filterMap t.outside
  let d := run (Daemon.obey sampleResolution) sampleDaemon cmds
  SameReport (run (Tui.step fun _ _ => none) t es).wire d.wire ∧
    SameReport (cmds.foldl GrpcRemote.issue sampleMirror).mirror.wire d.wire

theorem paused_alike : sampleAlike sampleOrders :=
  (alike_of_guarded _ sampleResolution ⟨rfl, rfl, rfl, rfl⟩ rfl rfl rfl ⟨rfl, rfl, rfl, rfl⟩
    (by decide +kernel) (by decide +kernel)).imp_right fun h => h (by decide +kernel)

/-- A stop leaves the station in the terminal UI, where the daemon and the mirror forget it. -/
theorem stop_differs :
    (run (Tui.step fun _ _ => none) (Tui.start Tui.sampleStartup)
      (sampleOrders ++ [.grpc (.remote .stop)])).pending = [] ∧
    ¬ sampleAlike (sampleOrders ++ [.grpc (.remote .stop)]) := by
  refine ⟨by decide +kernel, fun h => ?_⟩
  have hstation := h.1.station
  revert hstation
  decide +kernel

end Atradio.Cli
