import Atradio.Lib.Run
import Atradio.Lib.Unwinding
import Mathlib.Data.List.Induction

/-! # Histories

What a run has taken in and what it has put out. `Since p q` says of a history that an input as
`p` came and that only inputs as `q` came after it. What a machine puts out is put out once if
every output was free before the step and is never free again (`Spends`). -/

namespace Atradio.Lib

variable {σ ε O : Type}

/-- What holds of the inputs so far and the state they lead to, where one more input keeps it. -/
theorem run_history {step : σ → ε → σ} {I : List ε → σ → Prop} {s : σ} (hs : I [] s)
    (hstep : ∀ es e, I es (run step s es) → I (es ++ [e]) (step (run step s es) e)) (es : List ε) :
    I es (run step s es) := by
  induction es using List.reverseRecOn with
  | nil => exact hs
  | append_singleton es e ih =>
    rw [run_append]
    exact hstep es e ih

/-! ### Since -/

/-- `p` may look at the history before the input. -/
def Since (p : List ε → ε → Prop) (q : ε → Prop) (es : List ε) : Prop :=
  ∃ ks e ls, es = ks ++ e :: ls ∧ p ks e ∧ ∀ l ∈ ls, q l

section Since

variable {p : List ε → ε → Prop} {q : ε → Prop} {es : List ε} {e : ε}

theorem not_since_nil : ¬ Since p q [] := by
  rintro ⟨ks, k, ls, heq, -⟩
  cases ks with
  | nil => cases heq
  | cons => cases heq

theorem since_snoc : Since p q (es ++ [e]) ↔ p es e ∨ q e ∧ Since p q es := by
  constructor
  · rintro ⟨ks, k, ls, heq, hk, hls⟩
    cases ls using List.reverseRecOn with
    | nil =>
      obtain ⟨rfl, hlast⟩ := List.append_inj' heq rfl
      rw [List.singleton_inj] at hlast
      exact .inl (hlast ▸ hk)
    | append_singleton ls l =>
      rw [← List.cons_append, ← List.append_assoc] at heq
      obtain ⟨rfl, hlast⟩ := List.append_inj' heq rfl
      rw [List.singleton_inj] at hlast
      exact .inr ⟨hls e (List.mem_append_right _ (by simp [hlast])),
        ⟨ks, k, ls, rfl, hk, fun x hx => hls x (List.mem_append_left _ hx)⟩⟩
  · rintro (h | ⟨he, ks, k, ls, rfl, hk, hls⟩)
    · exact ⟨es, e, [], rfl, h, fun _ hl => nomatch hl⟩
    · refine ⟨ks, k, ls ++ [e], List.append_assoc .., hk, fun l hl => ?_⟩
      rcases List.mem_append.1 hl with hl | hl
      · exact hls l hl
      · exact List.mem_singleton.1 hl ▸ he

end Since

/-! ### Once -/

/-- A step from `s` to `s'` that puts out `out`. -/
structure Spends (Free : σ → O → Prop) (s s' : σ) (out : List O) : Prop where
  nodup : out.Nodup
  free : ∀ o ∈ out, Free s o
  spent : ∀ o ∈ out, ¬ Free s' o
  shrinks : ∀ o, Free s' o → Free s o

/-- A step that puts nothing out. -/
theorem Spends.of_nil {Free : σ → O → Prop} {s s' : σ} (h : ∀ o, Free s' o → Free s o) :
    Spends Free s s' [] :=
  ⟨List.nodup_nil, (fun _ ho => nomatch ho), (fun _ ho => nomatch ho), h⟩

/-- What is put out is free at the start and put out once. -/
theorem trace_spends {step : σ → ε → σ} {out : σ → ε → List O} {Free : σ → O → Prop}
    {I : σ → Prop} (hstep : ∀ s e, I s → I (step s e))
    (hspends : ∀ s e, I s → Spends Free s (step s e) (out s e)) {s : σ} (hs : I s)
    (es : List ε) :
    (trace step out s es).Nodup ∧ ∀ o ∈ trace step out s es, Free s o := by
  induction es generalizing s with
  | nil => exact ⟨List.nodup_nil, fun _ ho => nomatch ho⟩
  | cons e es ih =>
    obtain ⟨hnodup, hfree⟩ := ih (hstep s e hs)
    have hspent := hspends s e hs
    constructor
    · refine List.nodup_append.2 ⟨hspent.nodup, hnodup, fun o ho u hu heq => ?_⟩
      subst heq
      exact hspent.spent o ho (hfree o hu)
    · intro o ho
      rcases List.mem_append.1 ho with ho | ho
      · exact hspent.free o ho
      · exact hspent.shrinks o (hfree o ho)

end Atradio.Lib
