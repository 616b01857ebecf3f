import Mathlib.Data.List.Basic

/-! # Replicas fed over a channel

A source is a partial map that changes one key at a time; each change is put on a FIFO
channel, and a replica applies what it takes off. Source and replica differ by what is
still on the channel (`InSync`). A replica may also lose a key on its own, as long as the
channel holds a change of that key. -/

namespace Atradio.Lib

variable {K V : Type}

inductive Change (K V : Type) where
  | set (key : K) (value : V)
  | clear (key : K)

namespace Change

def key : Change K V → K
  | set k _ => k
  | clear k => k

def value : Change K V → Option V
  | set _ v => some v
  | clear _ => none

variable [DecidableEq K]

def apply (m : K → Option V) (c : Change K V) : K → Option V :=
  fun k => if k = c.key then c.value else m k

def applyAll (m : K → Option V) (cs : List (Change K V)) : K → Option V := cs.foldl apply m

theorem applyAll_append (m : K → Option V) (cs ds : List (Change K V)) :
    applyAll m (cs ++ ds) = applyAll (applyAll m cs) ds := List.foldl_append

theorem applyAll_congr {m m' : K → Option V} {k : K} (h : m k = m' k) (cs : List (Change K V)) :
    applyAll m cs k = applyAll m' cs k := by
  induction cs generalizing m m' with
  | nil => exact h
  | cons c cs ih =>
    refine ih ?_
    unfold apply
    rw [h]

theorem applyAll_touched (m m' : K → Option V) {k : K} {cs : List (Change K V)}
    (h : ∃ c ∈ cs, c.key = k) : applyAll m cs k = applyAll m' cs k := by
  induction cs generalizing m m' with
  | nil =>
    obtain ⟨c, hc, _⟩ := h
    cases hc
  | cons c cs ih =>
    by_cases hk : c.key = k
    · refine applyAll_congr ?_ cs
      unfold apply
      rw [if_pos hk.symm, if_pos hk.symm]
    · refine ih (apply m c) (apply m' c) ?_
      obtain ⟨d, hd, hdk⟩ := h
      rcases List.mem_cons.1 hd with rfl | hd
      · exact (hk hdk).elim
      · exact ⟨d, hd, hdk⟩

theorem applyAll_idle {m : K → Option V} {cs : List (Change K V)}
    (h : ∀ c ∈ cs, m c.key = c.value) : applyAll m cs = m := by
  induction cs with
  | nil => rfl
  | cons c cs ih =>
    have hc : apply m c = m := by
      funext k
      unfold apply
      split
      · rename_i hk
        rw [hk, h c (List.mem_cons_self ..)]
      · rfl
    show applyAll (apply m c) cs = m
    rw [hc]
    exact ih fun d hd => h d (List.mem_cons_of_mem _ hd)

/-- A value is the old one or was set on the way. -/
theorem applyAll_value {m : K → Option V} {cs : List (Change K V)} {k : K} {v : V}
    (h : applyAll m cs k = some v) : m k = some v ∨ .set k v ∈ cs := by
  induction cs generalizing m with
  | nil => exact Or.inl h
  | cons c cs ih =>
    rcases ih h with hc | hc
    · unfold apply at hc
      split at hc
      · rename_i hk
        cases c with
        | set k' v' =>
          obtain rfl := Option.some.inj hc
          rw [hk]
          exact Or.inr (List.mem_cons_self ..)
        | clear k' => cases hc
      · exact Or.inl hc
    · exact Or.inr (List.mem_cons_of_mem _ hc)

end Change

variable [DecidableEq K]

/-- The replica will agree with the source once it has applied what is pending. -/
def InSync (replica : K → Option V) (pending : List (Change K V)) (source : K → Option V) : Prop :=
  Change.applyAll replica pending = source

theorem InSync.delivered {replica source : K → Option V} (h : InSync replica [] source) :
    replica = source := h

theorem InSync.publish {replica source : K → Option V} {pending : List (Change K V)}
    (h : InSync replica pending source) (cs : List (Change K V)) :
    InSync replica (pending ++ cs) (Change.applyAll source cs) := by
  unfold InSync at h ⊢
  rw [Change.applyAll_append, h]

theorem InSync.deliver {replica source : K → Option V} {c : Change K V}
    {pending : List (Change K V)} (h : InSync replica (c :: pending) source) :
    InSync (c.apply replica) pending source := h

theorem InSync.forget {replica replica' source : K → Option V} {pending : List (Change K V)}
    (h : InSync replica pending source)
    (hlost : ∀ k, replica' k = replica k ∨ ∃ c ∈ pending, c.key = k) :
    InSync replica' pending source := by
  unfold InSync at h ⊢
  rw [← h]
  funext k
  rcases hlost k with hk | hk
  · exact Change.applyAll_congr hk pending
  · exact Change.applyAll_touched replica' replica hk

end Atradio.Lib
