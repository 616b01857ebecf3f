import Mathlib.Data.List.Basic

/-! # Unwinding

Noninterference of a machine for an observer who sees some of the inputs and, of each step,
what `obs` gives. It follows from a relation on states that visible steps keep, with
equal observations, and that invisible steps do not leave, with none (`Unwinds`). -/

namespace Atradio.Lib

variable {σ ε O : Type}

/-- What the observer sees of a run. -/
def trace (step : σ → ε → σ) (obs : σ → ε → List O) : σ → List ε → List O
  | _, [] => []
  | s, e :: es => obs s e ++ trace step obs (step s e) es

/-- Every observation of a run satisfies what every observation of a step does. -/
theorem forall_mem_trace {step : σ → ε → σ} {obs : σ → ε → List O} {Inv : σ → Prop}
    {G : ε → Prop} {Q : O → Prop} (hstep : ∀ s e, Inv s → G e → Inv (step s e))
    (hobs : ∀ s e, Inv s → G e → ∀ o ∈ obs s e, Q o) {s : σ} {es : List ε} (hs : Inv s)
    (hes : ∀ e ∈ es, G e) : ∀ o ∈ trace step obs s es, Q o := by
  induction es generalizing s with
  | nil =>
    intro o ho
    cases ho
  | cons e es ih =>
    have he := hes e (List.mem_cons_self ..)
    intro o ho
    rcases List.mem_append.1 ho with ho | ho
    · exact hobs s e hs he o ho
    · exact ih (hstep s e hs he) (fun e' he' => hes e' (List.mem_cons_of_mem _ he')) o ho

/-- The relation `R` unwinds the machine on states in `Inv` and inputs in `G`. -/
structure Unwinds (step : σ → ε → σ) (obs : σ → ε → List O) (seen : ε → Prop)
    (Inv : σ → Prop) (G : ε → Prop) (R : σ → σ → Prop) : Prop where
  inv : ∀ s e, Inv s → G e → Inv (step s e)
  visible : ∀ s t e, Inv s → Inv t → R s t → G e → seen e →
    R (step s e) (step t e) ∧ obs s e = obs t e
  invisible : ∀ s t e, Inv s → R s t → G e → ¬ seen e → R (step s e) t ∧ obs s e = []

/-- The inputs that are not visible make no difference. -/
theorem Unwinds.purge {step : σ → ε → σ} {obs : σ → ε → List O} {seen : ε → Prop}
    [DecidablePred seen] {Inv : σ → Prop} {G : ε → Prop} {R : σ → σ → Prop}
    (hu : Unwinds step obs seen Inv G R) {s t : σ} {es : List ε} (hs : Inv s) (ht : Inv t)
    (hr : R s t) (hes : ∀ e ∈ es, G e) :
    trace step obs s es = trace step obs t (es.filter fun e => seen e) := by
  induction es generalizing s t with
  | nil => rfl
  | cons e es ih =>
    have he := hes e (List.mem_cons_self ..)
    have htail : ∀ e' ∈ es, G e' := fun e' he' => hes e' (List.mem_cons_of_mem _ he')
    by_cases hv : seen e
    · obtain ⟨hr', ho⟩ := hu.visible s t e hs ht hr he hv
      rw [List.filter_cons_of_pos (by simpa using hv), trace, trace, ho,
        ih (hu.inv s e hs he) (hu.inv t e ht he) hr' htail]
    · obtain ⟨hr', ho⟩ := hu.invisible s t e hs hr he hv
      rw [List.filter_cons_of_neg (by simpa using hv), trace, ho, List.nil_append,
        ih (hu.inv s e hs he) ht hr' htail]

/-- Runs with the same visible inputs look the same. -/
theorem Unwinds.noninterference {step : σ → ε → σ} {obs : σ → ε → List O} {seen : ε → Prop}
    [DecidablePred seen] {Inv : σ → Prop} {G : ε → Prop} {R : σ → σ → Prop}
    (hu : Unwinds step obs seen Inv G R) {s : σ} {es fs : List ε} (hs : Inv s)
    (hr : R s s) (hes : ∀ e ∈ es, G e) (hfs : ∀ e ∈ fs, G e)
    (hsame : es.filter (fun e => seen e) = fs.filter fun e => seen e) :
    trace step obs s es = trace step obs s fs := by
  rw [hu.purge hs hs hr hes, hu.purge hs hs hr hfs, hsame]

end Atradio.Lib
