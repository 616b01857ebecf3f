import Atradio.Web.Backends

/-! # What the player of the browser plays while it is paused

`isPlaying` reaches the backends when the component renders. A load, and the fallback of an engine
that fails, start a backend without asking for it. -/

namespace Atradio.Web
open Atradio.Lexicons Atradio.Lib

namespace PlayerView

def audible (p : PlayerView) : Bool := (p.sounds .rockbox).isSome || (p.sounds .native).isSome

/-- The steps that start a backend, whatever `isPlaying` is by then. -/
def starts (env : Env) (p : PlayerView) : PlayerEvent → Bool
  | .resolved age body =>
    match p.live age with
    | some ⟨station, _, .resolving⟩ =>
      (resolveStream station body).isHls && env.canPlayHls && p.audio.allowed
    | _ => false
  | .imported age supported =>
    match p.live age with
    | some ⟨_, _, .importing _⟩ => supported.isSome && (p.audio.allowed || !p.audio.paused)
    | _ => false
  | .booted age ok =>
    match p.live age with
    | some ⟨_, _, .booting _⟩ => ok || p.audio.allowed
    | _ => false
  | .engineError =>
    p.engineRef = some .rockbox && p.currentUrlRef.isSome && p.fallbackUrlRef ≠ p.currentUrlRef &&
      p.audio.allowed
  | _ => false

/-- A backend is started only while the page is to play, and no station is taken away from one that
is to be paused. -/
def Obeys (env : Env) (p : PlayerView) : PlayerEvent → Prop
  | .render _ =>
    p.atoms.currentStation = none → p.audible = true → p.atoms.isPlaying = true
  | e => p.starts env e = true → p.rendered.isPlaying = true

/-- Nothing sounds on a page that was rendered as paused. -/
def Heeds (p : PlayerView) : Prop := p.audible = true → p.rendered.isPlaying = true

section Heeds

variable {env : Env} {p : PlayerView}

/-- The element is silent now, and the engine sounds if it did. -/
theorem audible_of_rockbox {q : PlayerView} (haudio : q.audio.sounds = none)
    (hrockbox : q.rockbox.sounds = p.rockbox.sounds) (hq : q.audible = true) :
    p.audible = true := by
  change (q.rockbox.sounds.isSome || q.audio.sounds.isSome) = true at hq
  rw [haudio, hrockbox] at hq
  change (p.rockbox.sounds.isSome || _) = true
  rw [(Bool.or_false _).symm.trans hq, Bool.true_or]

theorem not_audible {q : PlayerView} (hrockbox : q.rockbox.sounding = false)
    (haudio : q.audio.sounds = none) : q.audible = false := by
  change ((if q.rockbox.sounding then q.rockbox.queue else none).isSome ||
    q.audio.sounds.isSome) = false
  rw [hrockbox, haudio]
  rfl

theorem audible_of_audio {q : PlayerView} {url : String} (hurl : q.audio.src = some url)
    (hpaused : q.audio.paused = false) : q.audible = true := by
  change (q.rockbox.sounds.isSome || (if q.audio.paused then none else q.audio.src).isSome) = true
  rw [hurl, hpaused]
  exact Bool.or_true _

/-- The element loads a URL, and plays it where it is allowed to. -/
theorem handed_paused (a : AudioElement) (url : String) :
    (((a.setSrc url).load).play).paused = !a.allowed := by
  change (((a.paused || a.src.isSome) || (some url).isSome) && !a.allowed) = _
  rw [Option.isSome_some, Bool.or_true, Bool.true_and]

theorem handed_sounds (a : AudioElement) (url : String) :
    (((a.setSrc url).load).play).sounds = if a.allowed then some url else none := by
  rw [AudioElement.sounds, handed_paused]
  cases a.allowed <;> rfl

theorem paused_sounds {a : AudioElement} (h : a.paused = true) : a.sounds = none := by
  rw [AudioElement.sounds, if_pos h]

theorem fallback_audible (h : p.Sound env) (url : String) (fallbackUrlRef : Option String) :
    (fallbackToNative env { p with fallbackUrlRef } url).audible = p.audio.allowed := by
  cases hallowed : p.audio.allowed with
  | true =>
    refine audible_of_audio (rfl : _ = some url) ?_
    exact (handed_paused _ _).trans (by rw [hallowed]; rfl)
  | false =>
    refine not_audible (stop_silent h.ready) ?_
    exact (handed_sounds _ _).trans (by rw [hallowed]; rfl)

/-- What a step does to what is heard. -/
def Hears (p q : PlayerView) (starts : Bool) : Prop :=
  (starts = true → q.audible = true) ∧ (starts = false → q.audible = true → p.audible = true)

theorem hears_same {q : PlayerView} (h : q.audible = p.audible) : p.Hears q false :=
  ⟨fun hfalse => absurd hfalse Bool.false_ne_true, fun _ hq => h.symm.trans hq⟩

theorem hears_started {q : PlayerView} {starts : Bool} (h : q.audible = starts) : p.Hears q starts :=
  ⟨h.trans, fun hfalse hq => absurd (hfalse.symm.trans (h.symm.trans hq)) Bool.false_ne_true⟩

theorem Sound.hears_resolved (h : p.Sound env) (age : ℕ) (body : Option String) :
    p.Hears (p.resolved env age body) (p.starts env (.resolved age body)) := by
  simp only [PlayerView.resolved, starts]
  cases hlive : p.live age with
  | none => exact hears_same rfl
  | some l =>
    obtain ⟨station, cancelled, phase⟩ := l
    cases phase with
    | resolving =>
      dsimp only
      cases hhls : (resolveStream station body).isHls with
      | false => exact hears_same rfl
      | true =>
        cases hplay : env.canPlayHls with
        | false => exact hears_same rfl
        | true =>
          obtain ⟨rfl, -, hl⟩ := h.live_eq_some hlive
          have hwaits := h.waiting _ (by rw [hl]; rfl) rfl
          refine hears_started ?_
          cases hallowed : p.audio.allowed with
          | true =>
            refine audible_of_audio (rfl : _ = some (playUrlOf env (resolveStream station body))) ?_
            exact (handed_paused _ _).trans (by rw [hallowed]; rfl)
          | false =>
            refine not_audible (h.engine hwaits.1) ?_
            exact (handed_sounds _ _).trans (by rw [hallowed]; rfl)
    | _ => exact hears_same rfl

theorem Sound.hears_imported (h : p.Sound env) (age : ℕ) (supported : Option Bool) :
    p.Hears (p.imported age supported) (p.starts env (.imported age supported)) := by
  simp only [PlayerView.imported, starts]
  cases hlive : p.live age with
  | none => exact hears_same rfl
  | some l =>
    obtain ⟨station, cancelled, phase⟩ := l
    cases phase with
    | importing url =>
      cases supported with
      | none => exact hears_same rfl
      | some supported =>
        obtain ⟨rfl, -, hl⟩ := h.live_eq_some hlive
        have hwaits := h.waiting _ (by rw [hl]; rfl) rfl
        have hpaused : ((p.audio.setSrc url).play).paused =
            !(p.audio.allowed || !p.audio.paused) := by
          change ((p.audio.paused || p.audio.src.isSome) && !p.audio.allowed) = _
          rw [hwaits.2]
          cases p.audio.paused <;> cases p.audio.allowed <;> rfl
        refine hears_started ?_
        change _ = (p.audio.allowed || !p.audio.paused)
        cases hstarts : p.audio.allowed || !p.audio.paused with
        | true =>
          refine audible_of_audio (rfl : _ = some url) ?_
          exact hpaused.trans (by rw [hstarts]; rfl)
        | false =>
          refine not_audible (h.engine hwaits.1) ?_
          exact paused_sounds (hpaused.trans (by rw [hstarts]; rfl))
    | _ => exact hears_same rfl

theorem Sound.hears_booted (h : p.Sound env) (age : ℕ) (ok : Bool) :
    p.Hears (p.booted env age ok) (p.starts env (.booted age ok)) := by
  simp only [PlayerView.booted, starts]
  cases hlive : p.live age with
  | none => exact hears_same rfl
  | some l =>
    obtain ⟨station, cancelled, phase⟩ := l
    cases phase with
    | booting url =>
      cases ok with
      | true => exact ⟨fun _ => rfl, fun hfalse => absurd hfalse.symm Bool.false_ne_true⟩
      | false => exact hears_started (fallback_audible h url _)
    | _ => exact hears_same rfl

theorem Sound.hears_error (h : p.Sound env) :
    p.Hears (p.onError env) (p.starts env .engineError) := by
  simp only [PlayerView.onError, starts]
  split
  next hengine =>
    rw [decide_eq_false hengine]
    exact hears_same rfl
  next hengine =>
    rw [decide_eq_true (not_not.1 hengine)]
    split
    next url hurl =>
      split
      next hfallback =>
        have hstarts : (true && p.currentUrlRef.isSome && decide (p.fallbackUrlRef ≠ p.currentUrlRef)
            && p.audio.allowed) = p.audio.allowed := by
          rw [hurl, decide_eq_true hfallback]
          rfl
        rw [hstarts]
        exact hears_started (fallback_audible h url (some url))
      next hfallback =>
        have hstarts : (true && p.currentUrlRef.isSome && decide (p.fallbackUrlRef ≠ p.currentUrlRef)
            && p.audio.allowed) = false := by
          rw [hurl, decide_eq_false hfallback]
          rfl
        rw [hstarts]
        exact hears_same rfl
    next hurl =>
      have hstarts : (true && p.currentUrlRef.isSome && decide (p.fallbackUrlRef ≠ p.currentUrlRef)
          && p.audio.allowed) = false := by
        rw [hurl]
        rfl
      rw [hstarts]
      exact hears_same rfl

theorem Sound.hears (h : p.Sound env) {e : PlayerEvent} (he : ∀ same, e ≠ .render same) :
    p.Hears (p.step env e) (p.starts env e) := by
  cases e with
  | render same => exact absurd rfl (he same)
  | resolved age body => exact h.hears_resolved age body
  | imported age supported => exact h.hears_imported age supported
  | booted age ok => exact h.hears_booted age ok
  | engineError => exact h.hears_error
  | handleStop =>
    have hsilent : (p.handleStop env).audible = false :=
      not_audible (stop_silent h.ready) (paused_sounds rfl)
    exact hears_started hsilent
  | audioEnded =>
    refine ⟨fun hfalse => absurd hfalse Bool.false_ne_true, fun _ hq => ?_⟩
    have hpaused : (p.step env .audioEnded).audio.sounds = none := paused_sounds rfl
    exact audible_of_rockbox hpaused rfl hq
  | enginePlaying | hlsError | audioError =>
    simp only [PlayerView.step]
    split <;> exact hears_same rfl
  | _ => exact hears_same rfl

/-- The play/pause effect silences the backend that is active, and with it the page. -/
theorem Sound.playEffect_silent (h : p.Sound env) (hstation : p.atoms.currentStation.isNone = false)
    (hpaused : p.atoms.isPlaying = false) : p.playEffect.audible = false := by
  unfold PlayerView.playEffect
  rw [hstation, hpaused, if_neg Bool.false_ne_true]
  by_cases hengine : p.engineRef = some .rockbox
  · have haudio : p.audio.sounds = none := by
      rw [AudioElement.sounds, h.element hengine, ite_self]
    rw [if_pos hengine]
    cases hready : p.rockbox.ready with
    | true => exact not_audible rfl haudio
    | false =>
      refine not_audible ?_ haudio
      cases hsounding : p.rockbox.sounding with
      | false => exact hsounding
      | true => exact absurd (hready.symm.trans (h.ready hsounding)) Bool.false_ne_true
  · rw [if_neg hengine]
    exact not_audible (h.engine hengine) (paused_sounds rfl)

/-- A render without a station leaves the backends alone. -/
theorem render_stopped (hstation : p.atoms.currentStation = none) (same : Bool) :
    (p.render env same).audible = p.audible := by
  have hreload : p.reload env = p.cancel := by
    unfold PlayerView.reload
    rw [hstation]
  have heffect : ∀ q : PlayerView, q.atoms.currentStation = none → q.playEffect = q := by
    intro q hq
    unfold PlayerView.playEffect
    rw [hq]
    rfl
  simp only [PlayerView.render]
  rw [hreload]
  have hmoved : (if p.moved then p.cancel else p).atoms.currentStation = none := by
    split <;> exact hstation
  rw [heffect _ hmoved, ite_self]
  cases p.moved <;> cases p.handsOff <;> rfl

theorem Sound.render_paused (h : p.Sound env) (hheeds : p.Heeds) {station : Station}
    (hstation : p.atoms.currentStation = some station) (hpaused : p.atoms.isPlaying = false)
    (same : Bool) : (p.render env same).audible = false := by
  have hloaded : Sound env (if p.moved then p.reload env else p) := by
    split
    · exact h.reload
    · exact h
  have hsame : (if p.moved then p.reload env else p).atoms.currentStation = some station ∧
      (if p.moved then p.reload env else p).atoms.isPlaying = false := by
    split
    · unfold PlayerView.reload
      rw [hstation]
      exact ⟨hstation, hpaused⟩
    · exact ⟨hstation, hpaused⟩
  have haudible : (if p.replays same then (if p.moved then p.reload env else p).playEffect
      else if p.moved then p.reload env else p).audible = false := by
    cases hreplays : p.replays same with
    | true => exact hloaded.playEffect_silent (by rw [hsame.1]; rfl) hsame.2
    | false =>
      have hparts : p.moved = false ∧ p.deps.isPlaying = p.rendered.isPlaying := by
        simp only [PlayerView.replays, Bool.or_eq_false_iff, decide_eq_false_iff_not, not_not] at hreplays
        exact ⟨hreplays.1.1, hreplays.2⟩
      rw [hparts.1]
      cases hq : p.audible with
      | false => exact hq
      | true =>
        have hplaying : p.atoms.isPlaying = true := hparts.2.trans (hheeds hq)
        exact absurd (hpaused.symm.trans hplaying) Bool.false_ne_true
  refine Eq.trans ?_ haudible
  unfold PlayerView.render
  cases p.handsOff <;> rfl

theorem Inv.heeds_iff (h : p.Inv env) (hheeds : p.Heeds) (e : PlayerEvent) :
    (p.step env e).Heeds ↔ p.Obeys env e := by
  by_cases he : ∃ same, e = .render same
  · obtain ⟨same, rfl⟩ := he
    cases hstation : p.atoms.currentStation with
    | none =>
      have haudible := @render_stopped env p hstation same
      constructor
      · exact fun hq _ hp => hq (haudible.trans hp)
      · exact fun hobeys hq => hobeys hstation (haudible.symm.trans hq)
    | some station =>
      refine iff_of_true ?_ ?_
      · intro hq
        cases hpaused : p.atoms.isPlaying with
        | true => exact hpaused
        | false =>
          have hsilent := h.sound.render_paused hheeds hstation hpaused same
          exact absurd (hsilent.symm.trans hq) Bool.false_ne_true
      · intro hnone
        cases hstation.symm.trans hnone
  · have he : ∀ same, e ≠ .render same := fun same heq => he ⟨same, heq⟩
    obtain ⟨hstarts, hquiet⟩ := h.sound.hears he
    have hrendered := (@step_tags env p e he).2
    have hobeys : p.Obeys env e ↔ (p.starts env e = true → p.rendered.isPlaying = true) := by
      cases e with
      | render same => exact absurd rfl (he same)
      | _ => exact Iff.rfl
    rw [hobeys, Heeds, hrendered]
    constructor
    · exact fun hq hs => hq (hstarts hs)
    · intro hs hq
      cases hstart : p.starts env e with
      | true => exact hs hstart
      | false => exact hheeds (hquiet hstart hq)

end Heeds

end PlayerView

end Atradio.Web
