import Mathlib.Data.List.Basic

/-! # Runs of a deterministic machine

A machine is a step function on states and inputs. A run is the fold of the step
function over a list of inputs, and `AllSteps P` says that every step taken by a run
satisfies `P`, a predicate on the state before the step and the input. A property of
runs is reduced to one step by `run_kept`, `run_invariant`, `allSteps_of_invariant`,
`allSteps_iff_of_invariant` and `run_iff_of_step`. -/

namespace Atradio.Lib

variable {σ ε : Type}

def run (step : σ → ε → σ) (s : σ) (es : List ε) : σ := es.foldl step s

@[simp] theorem run_nil (step : σ → ε → σ) (s : σ) : run step s [] = s := rfl

@[simp] theorem run_cons (step : σ → ε → σ) (s : σ) (e : ε) (es : List ε) :
    run step s (e :: es) = run step (step s e) es := rfl

theorem run_append (step : σ → ε → σ) (s : σ) (es fs : List ε) :
    run step s (es ++ fs) = run step (run step s es) fs := List.foldl_append

/-- Every step of the run from `s` satisfies `P`. -/
def AllSteps (step : σ → ε → σ) (P : σ → ε → Prop) : σ → List ε → Prop
  | _, [] => True
  | s, e :: es => P s e ∧ AllSteps step P (step s e) es

instance decidableAllSteps {step : σ → ε → σ} {P : σ → ε → Prop} [∀ s e, Decidable (P s e)] :
    (s : σ) → (es : List ε) → Decidable (AllSteps step P s es)
  | _, [] => isTrue trivial
  | s, e :: es =>
    have := @decidableAllSteps step P _ (step s e) es
    inferInstanceAs (Decidable (P s e ∧ AllSteps step P (step s e) es))

theorem allSteps_append (step : σ → ε → σ) (P : σ → ε → Prop) (s : σ) (es fs : List ε) :
    AllSteps step P s (es ++ fs) ↔
      AllSteps step P s es ∧ AllSteps step P (run step s es) fs := by
  induction es generalizing s with
  | nil => simp [AllSteps]
  | cons e es ih => simp [AllSteps, ih, and_assoc]

/-- What every admissible step preserves holds at the end of an admissible run. -/
theorem run_invariant {step : σ → ε → σ} {G : σ → ε → Prop} {I : σ → Prop}
    (hstep : ∀ s e, I s → G s e → I (step s e)) {s : σ} {es : List ε}
    (hs : I s) (hg : AllSteps step G s es) : I (run step s es) := by
  induction es generalizing s with
  | nil => exact hs
  | cons e es ih => exact ih (hstep s e hs hg.1) hg.2

/-- What every step preserves holds at the end of every run. -/
theorem run_kept {step : σ → ε → σ} {I : σ → Prop} (hstep : ∀ s e, I s → I (step s e)) {s : σ}
    (hs : I s) (es : List ε) : I (run step s es) := by
  induction es generalizing s with
  | nil => exact hs
  | cons e es ih => exact ih (hstep s e hs)

/-- A property that follows in one step from the invariant holds of every step. -/
theorem allSteps_of_invariant {step : σ → ε → σ} {G P : σ → ε → Prop} {I : σ → Prop}
    (hstep : ∀ s e, I s → G s e → I (step s e)) (hP : ∀ s e, I s → G s e → P s e)
    {s : σ} {es : List ε} (hs : I s) (hg : AllSteps step G s es) : AllSteps step P s es := by
  induction es generalizing s with
  | nil => trivial
  | cons e es ih => exact ⟨hP s e hs hg.1, ih (hstep s e hs hg.1) hg.2⟩

/-- Two step properties that agree wherever the invariant holds agree on runs. -/
theorem allSteps_iff_of_invariant {step : σ → ε → σ} {G P Q : σ → ε → Prop} {I : σ → Prop}
    (hstep : ∀ s e, I s → G s e → I (step s e)) (hPQ : ∀ s e, I s → G s e → (P s e ↔ Q s e))
    {s : σ} {es : List ε} (hs : I s) (hg : AllSteps step G s es) :
    AllSteps step P s es ↔ AllSteps step Q s es := by
  induction es generalizing s with
  | nil => exact Iff.rfl
  | cons e es ih => exact and_congr (hPQ s e hs hg.1) (ih (hstep s e hs hg.1) hg.2)

/-- The same where the invariant is kept by the steps of `Q`. -/
theorem allSteps_iff_of_step {step : σ → ε → σ} {P Q : σ → ε → Prop} {I : σ → Prop}
    (hPQ : ∀ s e, I s → (P s e ↔ Q s e)) (hstep : ∀ s e, I s → Q s e → I (step s e))
    {s : σ} {es : List ε} (hs : I s) : AllSteps step P s es ↔ AllSteps step Q s es := by
  induction es generalizing s with
  | nil => exact Iff.rfl
  | cons e es ih =>
    constructor
    · rintro ⟨hP, hrest⟩
      have hQ := (hPQ s e hs).1 hP
      exact ⟨hQ, (ih (hstep s e hs hQ)).1 hrest⟩
    · rintro ⟨hQ, hrest⟩
      exact ⟨(hPQ s e hs).2 hQ, (ih (hstep s e hs hQ)).2 hrest⟩

/-- The same for runs whose steps all satisfy `G`. -/
theorem allSteps_iff_of_guard {step : σ → ε → σ} {G P Q : σ → ε → Prop} {I : σ → Prop}
    (hPQ : ∀ s e, I s → G s e → (P s e ↔ Q s e))
    (hstep : ∀ s e, I s → G s e → Q s e → I (step s e)) {s : σ} {es : List ε} (hs : I s)
    (hg : AllSteps step G s es) : AllSteps step P s es ↔ AllSteps step Q s es := by
  induction es generalizing s with
  | nil => exact Iff.rfl
  | cons e es ih =>
    have hhead := hPQ s e hs hg.1
    constructor
    · rintro ⟨hP, hrest⟩
      exact ⟨hhead.1 hP, (ih (hstep s e hs hg.1 (hhead.1 hP)) hg.2).1 hrest⟩
    · rintro ⟨hQ, hrest⟩
      exact ⟨hhead.2 hQ, (ih (hstep s e hs hg.1 hQ) hg.2).2 hrest⟩

/-- A property that a step keeps exactly where `Q` does holds after a run exactly where it held
before and every step is as `Q` says. -/
theorem run_iff_of_step {step : σ → ε → σ} {G Q : σ → ε → Prop} {I P : σ → Prop}
    (hstep : ∀ s e, I s → G s e → I (step s e))
    (hPQ : ∀ s e, I s → G s e → (P (step s e) ↔ P s ∧ Q s e)) {s : σ} {es : List ε} (hs : I s)
    (hg : AllSteps step G s es) : P (run step s es) ↔ P s ∧ AllSteps step Q s es := by
  induction es generalizing s with
  | nil => exact (and_iff_left trivial).symm
  | cons e es ih =>
    rw [run_cons, ih (hstep s e hs hg.1) hg.2, hPQ s e hs hg.1, and_assoc]
    rfl

/-- What holds of every state of a run holds at its start and behind every step. -/
theorem forall_prefix_iff {step : σ → ε → σ} {Q : σ → Prop} {s : σ} {es : List ε} :
    (∀ fs gs, es = fs ++ gs → Q (run step s fs)) ↔
      Q s ∧ AllSteps step (fun s e => Q (step s e)) s es := by
  induction es generalizing s with
  | nil =>
    refine ⟨fun h => ⟨h [] [] rfl, trivial⟩, fun h fs gs heq => ?_⟩
    rw [(List.append_eq_nil_iff.1 heq.symm).1]
    exact h.1
  | cons e es ih =>
    constructor
    · intro h
      refine ⟨h [] _ rfl, ih.1 ?_⟩
      rintro fs gs rfl
      exact h (e :: fs) gs rfl
    · rintro ⟨hs, hsteps⟩ fs gs heq
      cases fs with
      | nil => exact hs
      | cons f fs =>
        obtain ⟨rfl, hes⟩ := List.cons.inj heq
        exact ih.2 hsteps fs gs hes

theorem allSteps_and {step : σ → ε → σ} {P Q : σ → ε → Prop} {s : σ} {es : List ε} :
    AllSteps step (fun s e => P s e ∧ Q s e) s es ↔
      AllSteps step P s es ∧ AllSteps step Q s es := by
  induction es generalizing s with
  | nil => exact (and_iff_left trivial).symm
  | cons e es ih => exact (and_congr_right' ih).trans and_and_and_comm

/-- The last moment at which `Q` holds of a run that ends without it, and the step it ends with. -/
theorem run_last {step : σ → ε → σ} {Q : σ → Prop} {s : σ} {es : List ε}
    (hq : ∃ fs gs, es = fs ++ gs ∧ Q (run step s fs)) (hend : ¬ Q (run step s es)) :
    ∃ fs e gs, es = fs ++ e :: gs ∧ Q (run step s fs) ∧
      ∀ gs₁ gs₂, gs = gs₁ ++ gs₂ → ¬ Q (run step s (fs ++ e :: gs₁)) := by
  induction es generalizing s with
  | nil =>
    obtain ⟨fs, gs, hfs, hq⟩ := hq
    rw [(List.append_eq_nil_iff.1 hfs.symm).1] at hq
    exact (hend hq).elim
  | cons e es ih =>
    by_cases hlater : ∃ fs gs, es = fs ++ gs ∧ Q (run step (step s e) fs)
    · obtain ⟨fs, e', gs, rfl, hfs, hgs⟩ := ih hlater hend
      exact ⟨e :: fs, e', gs, rfl, hfs, hgs⟩
    · have hnever : ∀ gs₁ gs₂, es = gs₁ ++ gs₂ → ¬ Q (run step (step s e) gs₁) :=
        fun gs₁ gs₂ hes hq' => hlater ⟨gs₁, gs₂, hes, hq'⟩
      obtain ⟨fs, gs, hes, hq⟩ := hq
      cases fs with
      | nil => exact ⟨[], e, es, rfl, hq, hnever⟩
      | cons f fs =>
        obtain ⟨he, htail⟩ := List.cons.inj hes
        subst he
        exact (hnever fs gs htail hq).elim

/-- A condition on the inputs alone. -/
theorem allSteps_of_forall {step : σ → ε → σ} {G : ε → Prop} {s : σ} {es : List ε}
    (h : ∀ e ∈ es, G e) : AllSteps step (fun _ e => G e) s es := by
  induction es generalizing s with
  | nil => trivial
  | cons e es ih =>
    exact ⟨h e (List.mem_cons_self ..), ih fun e' he' => h e' (List.mem_cons_of_mem _ he')⟩

end Atradio.Lib
