import Atradio.Lib.Run
import Atradio.Cli.Tui.Deeds

/-! # A terminal UI that drives another instance or device -/

namespace Atradio.Cli
open Atradio.Audio Atradio.Connect Atradio.Lib

/-- `start_playing` or a call of the player. -/
def Call.isLocal : Call → Bool
  | .load _ | .playUrl _ _ | .player _ => true
  | .command _ _ | .broadcast _ | .listed _ _ | .fetched _ _ | .saveSettings _ _
  | .putAudio _ _ => false

namespace Playback

variable {E : Engine} {p : Playback E}

/-- Without a handle for commands no devices are known. -/
def Wired (p : Playback E) : Prop := p.drives = false → p.linked = false → p.devices = []

theorem Wired.perform (h : p.Wired) {d : Deed E}
    (hmirror : ∀ station devices, d = .mirror station devices → p.drives = true)
    (hroster : ∀ devices, d = .roster devices → p.linked = true) : (p.perform d).Wired := by
  cases d with
  | mirror station devices =>
    exact fun hdrives => absurd ((hmirror station devices rfl).symm.trans hdrives) Bool.noConfusion
  | roster devices =>
    exact fun _ hlinked => absurd ((hroster devices rfl).symm.trans hlinked) Bool.noConfusion
  | settle rest played => cases played <;> exact h
  | note | load | halt | call | engine => exact h

end Playback

namespace Tui

variable {E : Engine} {fuzzy : App.FuzzyMatch} {t u : Tui E}

/-- An instance is driven over gRPC, or a device that is present is controlled. -/
def driving (t : Tui E) : Bool := t.app.grpcRemote.isSome || t.app.remoteActive

def added (t u : Tui E) : List Call := u.calls.take (u.calls.length - t.calls.length)

/-- A command to the device that is controlled over Connect. -/
def sends (t : Tui E) : Call → Bool
  | .command target _ => t.app.grpcRemote.isNone && t.app.remoteTarget = some target
  | _ => false

/-- A key adjusts a row of the equalizer panel under a Connect device; Connect has no command for
it. -/
def adjustsHere (t : Tui E) (key : KeyEvent) : Bool :=
  t.app.grpcRemote.isNone && t.app.overlay = .none && t.app.view = .dsp && key.code.adjusts

theorem added_eq {calls : List Call} (h : u.calls = calls ++ t.calls) : t.added u = calls := by
  unfold added
  rw [h, List.length_append, Nat.add_sub_cancel, List.take_left]

theorem wired_does {e : TuiEvent E} {d : Deed E} (h : t.playback.Wired) (hdoes : t.Does fuzzy e d) :
    (t.playback.perform d).Wired := by
  refine h.perform ?_ ?_
  · rintro station devices rfl
    cases hdoes with
    | key he hmay => exact hmay.elim
  · rintro devices rfl
    cases hdoes with
    | key he hmay => exact hmay.elim
    | roster hlinked => exact hlinked

theorem wired_render (h : t.playback.Wired) : t.render.playback.Wired := by
  rw [render_playback]
  refine h.perform ?_ ?_
  · intro station devices hd
    unfold renderDeed at hd
    split at hd
    · exact congrArg Option.isSome ‹_›
    · cases hd
  · intro devices hd
    unfold renderDeed at hd
    split at hd <;> cases hd

theorem wired_step {e : TuiEvent E} (h : t.playback.Wired) :
    (t.step fuzzy e).playback.Wired := by
  obtain ⟨ds, hsteps, hplayback⟩ := step_playback fuzzy t e
  rw [hplayback]
  cases hsteps with
  | idle hc => exact h
  | engine hmoves => exact h
  | turn hdoes =>
    have hturn := wired_does (wired_render h) hdoes
    rw [render_playback] at hturn
    exact hturn

theorem wired_start (s : Startup) : (start s : Tui E).playback.Wired := by
  intro _ _
  unfold start
  cases s.profile with
  | none => rfl
  | some account =>
    unfold pullAudio
    cases s.fetched <;> rfl

theorem drives_or_controls (h : t.playback.Wired) (hdriving : t.driving = true)
    (hr : t.app.grpcRemote = none) : t.controls = true := by
  have hactive : t.app.remoteActive = true := by
    unfold driving at hdriving
    rw [hr] at hdriving
    exact hdriving
  unfold controls
  rw [hactive, Bool.and_true]
  cases hlinked : t.app.remoteControl with
  | true => rfl
  | false =>
    have hdevices : t.app.remoteDevices = [] := h (congrArg Option.isSome hr) hlinked
    unfold App.remoteActive App.remoteTargetDevice at hactive
    rw [hdevices] at hactive
    cases htarget : t.app.remoteTarget with
    | none => rw [htarget] at hactive; exact hactive
    | some target => rw [htarget] at hactive; exact hactive

section Keys

variable {key : KeyEvent}

theorem keyLoads_driving (hcontrols : t.app.grpcRemote = none → t.controls = true)
    {s : StationInfo} (h : t.keyLoads fuzzy key = some s) :
    t.app.overlay = .search ∧ key.code = .enter := by
  unfold keyLoads at h
  split at h
  · cases h
  · split at h
    · rename_i ho
      split at h
      · exact ⟨ho, ‹_›⟩
      · cases h
    · split at h
      · split at h
        · rename_i hhere
          obtain ⟨hr, hfree⟩ := Bool.and_eq_true_iff.1 hhere
          rw [hcontrols (Option.isNone_iff_eq_none.1 hr)] at hfree
          cases hfree
        · cases h
      · cases h
    · cases h

theorem keyToggles_driving (hcontrols : t.app.grpcRemote = none → t.controls = true) :
    t.keyToggles key = false := by
  unfold keyToggles
  split
  · cases hr : t.app.grpcRemote with
    | none => rw [hcontrols hr, Bool.not_true, Bool.and_false]
    | some r => rw [Option.isNone_some, Bool.and_false, Bool.false_and]
  · rfl

theorem driving_deed (hcontrols : t.app.grpcRemote = none → t.controls = true)
    (hsearch : ¬ (t.app.overlay = .search ∧ key.code = .enter)) {d : Deed E}
    (hmay : t.May fuzzy key d) :
    ∃ calls : List Call, (t.playback.perform d).calls = calls ++ t.calls ∧
      ∀ c ∈ calls, t.sends c = true ∨
        t.adjustsHere key = true ∧ ∃ dsp, c = .player (.applyDsp dsp) := by
  have hbusy {P : Prop} (h : t.app.grpcRemote = none ∧ t.controls = false) : P :=
    absurd ((hcontrols h.1).symm.trans h.2) Bool.noConfusion
  cases d with
  | note calls =>
    refine ⟨calls, rfl, fun c hc => .inl ?_⟩
    rcases hmay with rfl | ⟨hr, target, cmd, htarget, rfl⟩
    · cases hc
    · rw [List.mem_singleton.1 hc, sends, hr, htarget]
      simp
  | load s => exact absurd (keyLoads_driving hcontrols hmay) hsearch
  | halt => exact hbusy hmay
  | call c =>
    cases c with
    | toggle => exact absurd ((keyToggles_driving hcontrols).symm.trans hmay) Bool.noConfusion
    | toggleMute => exact hbusy hmay
    | bumpVolume delta => exact hbusy hmay
    | applyDsp dsp =>
      obtain ⟨hr, ho, hview, hadjusts⟩ := hmay
      refine ⟨[.player (.applyDsp dsp)], rfl, fun c hc => .inr ⟨?_, dsp, List.mem_singleton.1 hc⟩⟩
      simp [adjustsHere, hr, ho, hview, hadjusts]
    | play | pause | stop | setVolume => exact hmay.elim
  | settle | mirror | roster | engine => exact hmay.elim

end Keys

/-- A reachable instance that drives another one or a device does nothing itself on a key, but for
the equalizer under a Connect device; enter on a result of the search is left out. -/
theorem driving_routes (fuzzy : App.FuzzyMatch) (s : Startup) (es : List (TuiEvent E))
    (key : KeyEvent) :
    let t := (run (step fuzzy) (start s) es).render
    t.driving = true → ¬ (t.app.overlay = .search ∧ key.code = .enter) →
      ∀ c ∈ t.added (t.handleEvent fuzzy key), t.sends c = true ∨
        t.adjustsHere key = true ∧ ∃ dsp, c = .player (.applyDsp dsp) := by
  intro t hdriving hsearch
  have hwired : (run (step fuzzy) (start s) es).playback.Wired :=
    run_kept (I := fun t : Tui E => t.playback.Wired) (fun _ _ h => wired_step h) (wired_start s) es
  obtain ⟨d, hmay, hd⟩ := ends_handleEvent fuzzy t key
  obtain ⟨calls, hcalls, hall⟩ :=
    driving_deed (fun hr => drives_or_controls (wired_render hwired) hdriving hr) hsearch hmay
  have hadded : t.added (t.handleEvent fuzzy key) = calls :=
    added_eq ((congrArg Playback.calls hd).trans hcalls)
  rw [hadded]
  exact hall

/-- An account with another device, which is selected. -/
def sampleDevices : List Device :=
  [⟨"tui", "Terminal", "cli", true, WireState.default⟩,
    ⟨"web", "Browser", "web", false, WireState.default⟩]

def sampleAccount : Profile := ⟨"did:plc:a", "a.example", none, none, "oauth"⟩

def deviceSelected : List (TuiEvent sampleEngine) :=
  [.hub (.devices sampleDevices), .key { code := .char 'd' }, .key { code := .down },
    .key { code := .enter }]

theorem space_routed :
    let t := (run (step fun _ _ => none)
      (start { sampleStartup with profile := some sampleAccount }) deviceSelected).render
    t.sends (.command "web" .playPause) = true ∧
      ∀ c ∈ t.added (t.handleEvent (fun _ _ => none) { code := .char ' ' }), t.sends c = true ∨
        t.adjustsHere { code := .char ' ' } = true ∧ ∃ dsp, c = .player (.applyDsp dsp) :=
  ⟨by decide +kernel, driving_routes _ _ _ _ (by decide +kernel) (by decide +kernel)⟩

/-- The equalizer of the controlling instance is adjusted, and nothing is sent. -/
theorem equalizer_local :
    let t := (run (step fun _ _ => none)
      (start { sampleStartup with profile := some sampleAccount })
      (deviceSelected ++ [.key { code := .char 'e' }])).render
    t.driving = true ∧
      ∃ c ∈ t.added (t.handleEvent (fun _ _ => none) { code := .char '+' }), c.isLocal = true := by
  decide +kernel

end Tui

end Atradio.Cli
