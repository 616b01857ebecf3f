import Atradio.App.RadioService

/-! # Interruptions (`RadioService.kt`)

What a gain of the audio focus should do is told by the interruption that it ends, which stands
beside the flag of the code. The focus is granted whenever it is asked for. -/

namespace Atradio.App.Radio
open Atradio.Lib

structure World where
  service : RadioService
  /-- Of the interruption since the first loss after the last gain or start: whether something
  played then, and neither a command nor the noisy event nor a permanent loss has ended it. -/
  interruption : Option Bool

def World.step (w : World) (input : Event × ℕ) : World :=
  let service := w.service.step ⟨true, input.2, input.1⟩
  { service
    interruption := match input.1 with
      | .focus .gain => none
      | .focus .lossTransient | .focus .lossTransientCanDuck =>
        some (w.interruption.getD w.service.playing)
      | .focus .loss => some false
      | .pause | .stop | .noisy => w.interruption.map fun _ => false
      | .playStation _ | .play | .onPlay =>
        if w.service.opens < service.opens then none else w.interruption
      | .worker _ | .posted | .poll => w.interruption }

def World.init (saved : Option Station) (error : Option String) : World :=
  ⟨.init saved error, none⟩

/-- A gain would start the stream again exactly if the interruption is to be resumed from. -/
def World.Resumes (w : World) : Prop :=
  ∀ now, w.service.opens < (w.service.step ⟨true, now, .focus .gain⟩).opens ↔
    w.interruption = some true

/-- The station a command starts, if it starts one. -/
def RadioService.target (s : RadioService) : Event → Option Station
  | .playStation next => next.filter fun station => isStreamUrl station.streamUrl
  | .play => s.station.or s.saved
  | .onPlay => s.station
  | _ => none

/-- The flag is down, or there is no station, when the focus is lost for a while; and it is down
when a command starts a station. -/
def World.Clear (w : World) (input : Event × ℕ) : Prop :=
  match input.1 with
  | .focus .lossTransient | .focus .lossTransientCanDuck =>
    w.service.resumeOnFocus = true → w.service.station = none
  | event => (w.service.target event).isSome = true → w.service.resumeOnFocus = false

section Focus

variable {s : RadioService} {w : World}

/-- What is left of a service that is started with the focus granted. -/
structure Started (s s' : RadioService) : Prop where
  station : s'.station = s.station
  resumeOnFocus : s'.resumeOnFocus = s.resumeOnFocus
  playing : s'.playing = s.station.isSome
  opens : s.opens < s'.opens ↔ s.station.isSome = true

theorem startLive_started (s : RadioService) (now : ℕ) : Started s (startLive s true now) := by
  unfold startLive
  split
  · rename_i hstation
    have hnone : s.station.isSome = false := Option.isSome_eq_false_iff.2 (hstation ▸ rfl)
    refine ⟨hstation.symm, rfl, hnone.symm, iff_of_false (Nat.lt_irrefl _) fun h => ?_⟩
    cases hnone.symm.trans h
  · rename_i current hstation
    have hsome : s.station.isSome = true := Option.isSome_iff_exists.2 ⟨current, hstation⟩
    rw [if_pos rfl]
    exact ⟨rfl, rfl, hsome.symm, iff_of_true (Nat.lt_succ_self _) hsome⟩

theorem gain_opens (s : RadioService) (now : ℕ) :
    s.opens < (s.step ⟨true, now, .focus .gain⟩).opens ↔
      s.resumeOnFocus = true ∧ s.station.isSome = true := by
  simp only [RadioService.step, onAudioFocusChange]
  split
  · rename_i hresume
    rw [and_iff_right hresume]
    exact (startLive_started { s with resumeOnFocus := false } now).opens
  · rename_i hresume
    exact iff_of_false (Nat.lt_irrefl _) fun h => hresume h.1

/-- The flag says what the interruption does. -/
def World.Marked (w : World) : Prop :=
  w.service.resumeOnFocus = true ∧ w.service.station.isSome = true ↔ w.interruption = some true

theorem resumes_iff : w.Resumes ↔ w.Marked := by
  unfold World.Resumes World.Marked
  simp only [gain_opens, forall_const]

structure World.Inv (w : World) : Prop where
  playing : w.service.playing = true → w.service.station.isSome = true
  silent : w.interruption.isSome = true → w.service.playing = false
  station : w.interruption = some true → w.service.station.isSome = true

/-- What the worker posts leaves the station and the flag alone, and starts nothing. -/
structure Kept (s s' : RadioService) : Prop where
  station : s'.station = s.station
  resumeOnFocus : s'.resumeOnFocus = s.resumeOnFocus
  playing : s'.playing = true → s.playing = true

theorem polled_kept (s : RadioService) (status : Option Status) (now : ℕ) :
    Kept s (polled s status now) := by
  unfold polled
  split
  · split
    · dsimp only
      split
      · exact ⟨rfl, rfl, nofun⟩
      · exact ⟨rfl, rfl, id⟩
    · exact ⟨rfl, rfl, id⟩
  · exact ⟨rfl, rfl, id⟩

theorem posted_kept (s : RadioService) (granted : Bool) (now : ℕ) :
    Kept s (s.step ⟨granted, now, .posted⟩) := by
  simp only [RadioService.step]
  split
  · exact ⟨rfl, rfl, id⟩
  · exact ⟨rfl, rfl, fun hplaying => by cases hplaying⟩
  · rename_i status posts _
    have h := polled_kept { s with posts } status now
    exact ⟨h.station, h.resumeOnFocus, h.playing⟩

theorem worker_kept (s : RadioService) (granted : Bool) (now : ℕ) (outcome : Outcome) :
    Kept s (s.step ⟨granted, now, .worker outcome⟩) := by
  simp only [RadioService.step]
  split
  · exact ⟨rfl, rfl, id⟩
  · exact ⟨rfl, rfl, id⟩

/-! ### A step -/

/-- What a command to play does. -/
structure Commanded (s s' : RadioService) (target : Option Station) : Prop where
  resumeOnFocus : s'.resumeOnFocus = s.resumeOnFocus
  started : target.isSome = true → s.opens < s'.opens ∧ s'.station.isSome = true
  idle : target.isSome = false → ¬ s.opens < s'.opens ∧ Kept s s'

theorem startLive_commanded (s : RadioService) (station saved : Option Station) (now : ℕ)
    (hidle : station.isSome = false → s.station = none) :
    Commanded s (startLive { s with station, saved } true now) station := by
  have h := startLive_started { s with station, saved } now
  refine ⟨h.resumeOnFocus, fun hsome => ⟨h.opens.2 hsome, ?_⟩, fun hnone => ⟨fun hlt => ?_, ?_⟩⟩
  · rw [h.station]
    exact hsome
  · cases hnone.symm.trans (h.opens.1 hlt)
  · refine ⟨?_, h.resumeOnFocus, fun hplaying => ?_⟩
    · rw [h.station, hidle hnone]
      exact Option.isSome_eq_false_iff.1 hnone |> Option.isNone_iff_eq_none.1
    · cases (h.playing.trans hnone).symm.trans hplaying

theorem step_commanded (s : RadioService) (now : ℕ) {event : Event}
    (h : (∃ next, event = .playStation next) ∨ event = .play ∨ event = .onPlay) :
    Commanded s (s.step ⟨true, now, event⟩) (s.target event) := by
  rcases h with ⟨next, rfl⟩ | rfl | rfl
  · simp only [RadioService.step, playStation, RadioService.target]
    split
    · rename_i station hnext
      rw [hnext]
      exact startLive_commanded s (some station) (some station) now (fun h => by cases h)
    · rename_i hnext
      rw [hnext]
      exact ⟨rfl, fun h => (by cases h), fun _ => ⟨Nat.lt_irrefl _, rfl, rfl, id⟩⟩
  · refine startLive_commanded s (s.station.or s.saved) s.saved now fun h => ?_
    have hnone := Option.isNone_iff_eq_none.1 (Option.isSome_eq_false_iff.1 h)
    exact (Option.or_eq_none_iff.1 hnone).1
  · refine startLive_commanded s s.station s.saved now fun h => ?_
    exact Option.isNone_iff_eq_none.1 (Option.isSome_eq_false_iff.1 h)

theorem World.Inv.kept (h : w.Inv) {s' : RadioService} (hs : Kept w.service s') :
    World.Inv ⟨s', w.interruption⟩ where
  playing := fun hplaying => by
    rw [hs.station]
    exact h.playing (hs.playing hplaying)
  silent := fun hsome => Bool.eq_false_iff.2 fun hplaying =>
    Bool.eq_false_iff.1 (h.silent hsome) (hs.playing hplaying)
  station := fun htrue => by
    rw [hs.station]
    exact h.station htrue

theorem marked_kept {s' : RadioService} (hs : Kept w.service s') :
    World.Marked ⟨s', w.interruption⟩ ↔ w.Marked := by
  unfold World.Marked
  rw [hs.station, hs.resumeOnFocus]

/-- A loss for a while, as the interruption has it and as the flag does. -/
theorem lost_step (h : w.Inv) {w' : World}
    (hw : w' = ⟨pause { w.service with resumeOnFocus := w.service.playing },
      some (w.interruption.getD w.service.playing)⟩) :
    w'.Inv ∧ (w.Marked → (w'.Marked ↔
      (w.service.resumeOnFocus = true → w.service.station = none))) := by
  subst hw
  cases hinterruption : w.interruption with
  | none =>
    refine ⟨⟨nofun, fun _ => rfl, fun htrue => h.playing (Option.some.inj htrue)⟩, ?_⟩
    intro hmarked
    refine iff_of_true ?_ fun hresume => ?_
    · exact ⟨fun hplaying => congrArg some hplaying.1,
        fun htrue => ⟨Option.some.inj htrue, h.playing (Option.some.inj htrue)⟩⟩
    · refine Option.not_isSome_iff_eq_none.1 fun hstation => ?_
      cases hinterruption.symm.trans (hmarked.1 ⟨hresume, hstation⟩)
  | some resumes =>
    have hplaying := h.silent (hinterruption ▸ rfl)
    refine ⟨⟨nofun, fun _ => rfl, fun htrue => h.station (hinterruption.trans htrue)⟩,
      fun hmarked => ?_⟩
    constructor
    · intro hmarked' hresume
      refine Option.not_isSome_iff_eq_none.1 fun hstation => ?_
      have htrue := hinterruption.symm.trans (hmarked.1 ⟨hresume, hstation⟩)
      cases hplaying.symm.trans (hmarked'.2 htrue).1
    · intro hclear
      refine iff_of_false (fun hboth => ?_) fun htrue => ?_
      · cases hplaying.symm.trans hboth.1
      · obtain ⟨hresume, hstation⟩ := hmarked.2 (hinterruption.trans htrue)
        rw [hclear hresume] at hstation
        cases hstation

/-- A command to play begins anew, with the flag as it is. -/
theorem commanded_step (h : w.Inv) {s' : RadioService} {target : Option Station}
    (hs : Commanded w.service s' target) {w' : World}
    (hw : w' = ⟨s', if w.service.opens < s'.opens then none else w.interruption⟩) :
    w'.Inv ∧ (w.Marked → (w'.Marked ↔
      (target.isSome = true → w.service.resumeOnFocus = false))) := by
  subst hw
  cases htarget : target.isSome with
  | true =>
    obtain ⟨hopens, hstation⟩ := hs.started htarget
    rw [if_pos hopens]
    refine ⟨⟨fun _ => hstation, nofun, nofun⟩, fun _ => ⟨fun hmarked _ => ?_, fun hclear => ?_⟩⟩
    · rw [← hs.resumeOnFocus]
      exact Bool.eq_false_iff.2 fun hresume => nomatch hmarked.1 ⟨hresume, hstation⟩
    · refine iff_of_false (fun hboth => ?_) nofun
      cases (hs.resumeOnFocus.trans (hclear rfl)).symm.trans hboth.1
  | false =>
    obtain ⟨hopens, hkept⟩ := hs.idle htarget
    rw [if_neg hopens]
    exact ⟨h.kept hkept, fun hmarked => iff_of_true ((marked_kept hkept).2 hmarked) nofun⟩

theorem map_false_ne (interruption : Option Bool) :
    interruption.map (fun _ => false) ≠ some true := by
  cases interruption <;> nofun

/-- What ends playback and the intent to resume it. -/
theorem ended_step {w' : World} (hplaying : w'.service.playing = false)
    (hinterruption : w'.interruption ≠ some true)
    (hresume : w'.service.resumeOnFocus = false ∨ w'.service.station = none) :
    w'.Inv ∧ w'.Marked := by
  refine ⟨⟨fun h => ?_, fun _ => hplaying, fun h => absurd h hinterruption⟩,
    iff_of_false (fun h => ?_) hinterruption⟩
  · cases hplaying.symm.trans h
  · rcases hresume with hresume | hstation
    · cases hresume.symm.trans h.1
    · rw [hstation] at h
      cases h.2

theorem gained_step (h : w.Inv) (now : ℕ) :
    (w.step (.focus .gain, now)).Inv ∧ (w.step (.focus .gain, now)).Marked := by
  have hidle {s' : RadioService} (hplaying : s'.playing = true → s'.station.isSome = true)
      (hresume : s'.resumeOnFocus = false) : World.Inv ⟨s', none⟩ ∧ World.Marked ⟨s', none⟩ := by
    refine ⟨⟨hplaying, nofun, nofun⟩, iff_of_false (fun hboth => ?_) nofun⟩
    cases hresume.symm.trans hboth.1
  simp only [World.step, RadioService.step, onAudioFocusChange]
  split
  · have hs := startLive_started { w.service with resumeOnFocus := false } now
    refine hidle (fun hplaying => ?_) hs.resumeOnFocus
    rw [hs.station, ← hs.playing]
    exact hplaying
  · rename_i hresume
    exact hidle h.playing (Bool.eq_false_iff.2 hresume)

theorem world_step (h : w.Inv) (input : Event × ℕ) :
    (w.step input).Inv ∧ (w.Marked → ((w.step input).Marked ↔ w.Clear input)) := by
  obtain ⟨event, now⟩ := input
  have hended {w' : World} {p : Prop} (hp : p) (h : w'.Inv ∧ w'.Marked) :
      w'.Inv ∧ (w.Marked → (w'.Marked ↔ p)) := ⟨h.1, fun _ => iff_of_true h.2 hp⟩
  have hkept {s' : RadioService} (hs : Kept w.service s') {p : Prop} (hp : p) :
      World.Inv ⟨s', w.interruption⟩ ∧ (w.Marked → (World.Marked ⟨s', w.interruption⟩ ↔ p)) :=
    ⟨h.kept hs, fun hmarked => iff_of_true ((marked_kept hs).2 hmarked) hp⟩
  -- of the other events none starts a station
  have hidle {resume : Bool} : (none : Option Station).isSome = true → resume = false := nofun
  cases event with
  | playStation next => exact commanded_step h (step_commanded w.service now (.inl ⟨next, rfl⟩)) rfl
  | play => exact commanded_step h (step_commanded w.service now (.inr (.inl rfl))) rfl
  | onPlay => exact commanded_step h (step_commanded w.service now (.inr (.inr rfl))) rfl
  | pause | noisy => exact hended hidle (ended_step rfl (map_false_ne _) (.inl rfl))
  | stop => exact hended hidle (ended_step rfl (map_false_ne _) (.inr rfl))
  | focus change =>
    cases change with
    | gain => exact hended hidle (gained_step h now)
    | lossTransient | lossTransientCanDuck => exact lost_step h rfl
    | loss =>
      have hfalse : some false ≠ some true := nofun
      exact hended hidle (ended_step rfl hfalse (.inl rfl))
  | worker outcome => exact hkept (worker_kept w.service true now outcome) hidle
  | posted => exact hkept (posted_kept w.service true now) hidle
  | poll =>
    have hpoll : Kept w.service (send w.service .status) := ⟨rfl, rfl, id⟩
    exact hkept hpoll hidle

end Focus

/-- A gain of the focus does what the interruption asks for, in every state of a run, exactly where
the focus is never lost again before it is back, and no command starts a station meanwhile. -/
theorem resumes_iff_clear (saved : Option Station) (error : Option String)
    (inputs : List (Event × ℕ)) :
    (∀ fs gs, inputs = fs ++ gs → (run World.step (World.init saved error) fs).Resumes) ↔
      AllSteps World.step World.Clear (World.init saved error) inputs := by
  have hinit : (World.init saved error).Inv ∧ (World.init saved error).Marked :=
    ⟨⟨nofun, nofun, nofun⟩, iff_of_false nofun nofun⟩
  have hstep : ∀ (w : World) input, w.Inv ∧ w.Marked →
      ((w.step input).Resumes ↔ w.Clear input) := by
    rintro w input ⟨hinv, hmarked⟩
    rw [resumes_iff]
    exact (world_step hinv input).2 hmarked
  rw [forall_prefix_iff, and_iff_right (resumes_iff.2 hinit.2)]
  refine allSteps_iff_of_step hstep (fun w input h hclear => ?_) hinit
  exact ⟨(world_step h.1 input).1, ((world_step h.1 input).2 h.2).2 hclear⟩

def lostTwice : List (Event × ℕ) :=
  [(.playStation (some jazz), 0), (.focus .lossTransient, 1), (.focus .lossTransientCanDuck, 2)]

def playedMeanwhile : List (Event × ℕ) :=
  [(.playStation (some jazz), 0), (.focus .lossTransient, 1), (.onPlay, 2)]

/-- After the second loss a gain does not start the stream, and one after a command to play opens
it once more. -/
theorem lost_twice_stays :
    ¬ (run World.step (World.init none none) lostTwice).Resumes ∧
      ¬ (run World.step (World.init none none) playedMeanwhile).Resumes := by
  constructor
  · intro h
    have hopens := (h 3).2 (by decide)
    revert hopens
    decide
  · intro h
    have hinterruption := (h 3).1 (by decide)
    revert hinterruption
    decide

end Atradio.App.Radio
