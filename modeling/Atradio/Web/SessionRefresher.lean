import Atradio.Lib.Run
import Mathlib.Logic.Function.Basic

/-! # Keeping a session fresh (`SessionRefresher.tsx`, `refreshSession`)

Times are in milliseconds, those of a token in seconds. Whoever else sets the session, at start, at
sign-in or at sign-out, is `setSession`; what the authorization server answers is open. -/

namespace Atradio.Web.Refresher
open Atradio.Lib

structure Session where
  sub : String
  expiresAt : Option ℕ
  deriving DecidableEq

def REFRESH_BEFORE_MS : ℕ := 30000
def MIN_DELAY_MS : ℕ := 15000
def MAX_DELAY_MS : ℕ := 25 * 60000
def RETRY_DELAY_MS : ℕ := 60000

def clamp (n : ℕ) : ℕ := min (max n MIN_DELAY_MS) MAX_DELAY_MS

/-- A time that is past is clamped like 0. -/
def delayFor (now : ℕ) : Option ℕ → ℕ
  | some expiresAt =>
    if expiresAt = 0 then MAX_DELAY_MS else clamp (expiresAt * 1000 - now - REFRESH_BEFORE_MS)
  | none => MAX_DELAY_MS

/-- Where `tick` is: behind a timer, awaiting `refreshSession`, or not to be called again. -/
inductive Phase where
  | timer (since due : ℕ)
  | refreshing (since : ℕ)
  | ended
  deriving DecidableEq

/-- One run of the effect. -/
structure Effect where
  did : String
  cancelled : Bool
  phase : Phase
  deriving DecidableEq

def Effect.cleanup (e : Effect) : Effect :=
  { e with
    cancelled := true
    phase := match e.phase with
      | .timer _ _ => .ended
      | phase => phase }

inductive Outcome where
  | fresh (session : Session)
  | dead
  | failed

/-- `rendered` is `session?.info.sub` when the component rendered last, `stored` when the token in
the store of an account expires. -/
structure Tab where
  now : ℕ := 0
  session : Option Session := none
  rendered : Option String := none
  effects : List Effect := []
  stored : String → Option ℕ := fun _ => none

inductive Event where
  | setSession (session : Option Session)
  | render
  | fires (i : ℕ)
  | refreshed (i : ℕ) (outcome : Outcome)
  /-- A request or a sign-in puts a token into the store. -/
  | store (did : String) (expiresAt : ℕ)
  | wait (ms : ℕ)

def Tab.setPhase (t : Tab) (i : ℕ) (e : Effect) (phase : Phase) : Tab :=
  { t with effects := t.effects.set i { e with phase } }

/-- The effect runs when the account has changed, behind the cleanup of its last run. -/
def Tab.render (t : Tab) : Tab :=
  if t.rendered = t.session.map Session.sub then t
  else
    let left := t.effects.map Effect.cleanup
    { t with
      rendered := t.session.map Session.sub
      effects := match t.session with
        | some s => left ++ [⟨s.sub, false, .timer t.now (t.now + delayFor t.now s.expiresAt)⟩]
        | none => left }

/-- What `getSession` leaves in the store. -/
def Tab.answer (t : Tab) (did : String) : Outcome → Tab
  | .fresh s => { t with stored := Function.update t.stored did s.expiresAt }
  | .dead => { t with stored := Function.update t.stored did none }
  | .failed => t

/-- `tick` behind `refreshSession`. -/
def Tab.tock (t : Tab) (i : ℕ) (e : Effect) : Outcome → Tab
  | .fresh s => t.setPhase i e (.timer t.now (t.now + delayFor t.now s.expiresAt))
  | .dead => { t.setPhase i e .ended with session := none }
  | .failed => t.setPhase i e (.timer t.now (t.now + RETRY_DELAY_MS))

def step (t : Tab) : Event → Tab
  | .setSession s => { t with session := s }
  | .render => t.render
  | .fires i =>
    match t.effects[i]? with
    | some ⟨did, cancelled, .timer since due⟩ =>
      if t.now < due then t
      else t.setPhase i ⟨did, cancelled, .timer since due⟩
        (if cancelled then .ended else .refreshing t.now)
    | _ => t
  | .refreshed i outcome =>
    match t.effects[i]? with
    | some ⟨did, cancelled, .refreshing since⟩ =>
      if cancelled then (t.answer did outcome).setPhase i ⟨did, cancelled, .refreshing since⟩ .ended
      else (t.answer did outcome).tock i ⟨did, cancelled, .refreshing since⟩ outcome
    | _ => t
  | .store did expiresAt => { t with stored := Function.update t.stored did (some expiresAt) }
  | .wait ms => { t with now := t.now + ms }

/-! ### One run of the effect at a time -/

/-- What `tick` has to wait for is set apart by the bounds of the delay. -/
def Phase.Paced : Phase → Prop
  | .timer since due => since + MIN_DELAY_MS ≤ due ∧ due ≤ since + MAX_DELAY_MS
  | _ => True

def Phase.isTimer : Phase → Bool
  | .timer _ _ => true
  | _ => false

/-- Only the last run may be live, for the account rendered last; there is one if there is an
account. -/
structure Single (t : Tab) : Prop where
  last : ∀ i e, t.effects[i]? = some e → e.cancelled = false →
    i + 1 = t.effects.length ∧ t.rendered = some e.did
  cleared : ∀ e ∈ t.effects, e.cancelled = true → e.phase.isTimer = false
  paced : ∀ e ∈ t.effects, e.phase.Paced
  live : ∀ did, t.rendered = some did →
    ∃ e, t.effects.getLast? = some e ∧ e.cancelled = false ∧ e.did = did

theorem delayFor_paced (now : ℕ) (expiresAt : Option ℕ) :
    (Phase.timer now (now + delayFor now expiresAt)).Paced := by
  have hclamp : ∀ n, MIN_DELAY_MS ≤ clamp n ∧ clamp n ≤ MAX_DELAY_MS := by
    intro n
    simp only [clamp, MIN_DELAY_MS, MAX_DELAY_MS]
    omega
  have hmax : MIN_DELAY_MS ≤ MAX_DELAY_MS := by decide
  have hdelay : MIN_DELAY_MS ≤ delayFor now expiresAt ∧ delayFor now expiresAt ≤ MAX_DELAY_MS := by
    unfold delayFor
    split
    · split
      · exact ⟨hmax, Nat.le_refl _⟩
      · exact hclamp _
    · exact ⟨hmax, Nat.le_refl _⟩
  exact ⟨Nat.add_le_add_left hdelay.1 now, Nat.add_le_add_left hdelay.2 now⟩

theorem retry_paced (now : ℕ) : (Phase.timer now (now + RETRY_DELAY_MS)).Paced :=
  ⟨Nat.add_le_add_left (by decide) now, Nat.add_le_add_left (by decide) now⟩

section Steps

variable {t : Tab}

theorem Single.of_eq {t' : Tab} (h : Single t) (heffects : t'.effects = t.effects)
    (hrendered : t'.rendered = t.rendered) : Single t' := by
  refine ⟨?_, ?_, ?_, ?_⟩
  · rw [heffects, hrendered]
    exact h.last
  · rw [heffects]
    exact h.cleared
  · rw [heffects]
    exact h.paced
  · rw [heffects, hrendered]
    exact h.live

theorem getElem?_setPhase {i j : ℕ} {e x : Effect} {phase : Phase}
    (h : (t.setPhase i e phase).effects[j]? = some x) :
    x = { e with phase } ∧ j = i ∨ t.effects[j]? = some x := by
  rw [Tab.setPhase, List.getElem?_set] at h
  split at h
  next hij =>
    split at h
    · exact Or.inl ⟨(Option.some.inj h).symm, hij.symm⟩
    · cases h
  · exact Or.inr h

theorem mem_setPhase {i : ℕ} {e x : Effect} {phase : Phase}
    (h : x ∈ (t.setPhase i e phase).effects) : x = { e with phase } ∨ x ∈ t.effects :=
  (List.mem_or_eq_of_mem_set h).symm

theorem Single.setPhase (h : Single t) {i : ℕ} {e : Effect} (he : t.effects[i]? = some e)
    {phase : Phase} (hpaced : phase.Paced) (htimer : e.cancelled = true → phase.isTimer = false) :
    Single (t.setPhase i e phase) := by
  refine ⟨fun j x hx hlive => ?_, fun x hx hcancelled => ?_, fun x hx => ?_, fun did hdid => ?_⟩
  · rw [Tab.setPhase, List.length_set]
    rcases getElem?_setPhase hx with ⟨rfl, rfl⟩ | hx
    · exact h.last j e he hlive
    · exact h.last j x hx hlive
  · rcases mem_setPhase hx with rfl | hx
    · exact htimer hcancelled
    · exact h.cleared x hx hcancelled
  · rcases mem_setPhase hx with rfl | hx
    · exact hpaced
    · exact h.paced x hx
  · obtain ⟨x, hlast, hlive, hsame⟩ := h.live did hdid
    rw [List.getLast?_eq_getElem?] at hlast ⊢
    by_cases hi : i = t.effects.length - 1
    · subst hi
      rw [he] at hlast
      obtain rfl := Option.some.inj hlast
      refine ⟨{ e with phase }, ?_, hlive, hsame⟩
      have hlt := (List.getElem?_eq_some_iff.1 he).1
      simp [Tab.setPhase, hlt]
    · refine ⟨x, ?_, hlive, hsame⟩
      rw [Tab.setPhase, List.length_set, List.getElem?_set_ne hi]
      exact hlast

theorem cleanup_phase (e : Effect) : e.cleanup.phase.isTimer = false := by
  unfold Effect.cleanup
  cases e.phase <;> rfl

theorem cleanup_paced (e : Effect) : e.cleanup.phase.Paced := by
  unfold Effect.cleanup
  cases e.phase <;> trivial

theorem Single.render (h : Single t) : Single t.render := by
  unfold Tab.render
  split
  · exact h
  · have hgone : ∀ e ∈ t.effects.map Effect.cleanup, e.cancelled = true ∧
        e.phase.isTimer = false ∧ e.phase.Paced := by
      intro e he
      obtain ⟨e, -, rfl⟩ := List.mem_map.1 he
      exact ⟨rfl, cleanup_phase e, cleanup_paced e⟩
    cases hsession : t.session with
    | none =>
      refine ⟨fun i e he hlive => ?_, fun e he _ => (hgone e he).2.1, fun e he => (hgone e he).2.2,
        fun did hdid => by cases hdid⟩
      have hcancelled := (hgone e (List.mem_of_getElem? he)).1
      rw [hlive] at hcancelled
      cases hcancelled
    | some s =>
      refine ⟨fun i e he hlive => ?_, fun e he hcancelled => ?_, fun e he => ?_, ?_⟩
      · dsimp only at he ⊢
        rw [List.length_append, List.length_singleton]
        rw [List.getElem?_append] at he
        split at he
        · have hcancelled := (hgone e (List.mem_of_getElem? he)).1
          rw [hlive] at hcancelled
          cases hcancelled
        next hlen =>
          have hlt := (List.getElem?_eq_some_iff.1 he).1
          rw [List.length_singleton] at hlt
          have hidx : i - (t.effects.map Effect.cleanup).length = 0 := by omega
          rw [hidx] at he
          obtain rfl := Option.some.inj he
          exact ⟨by omega, rfl⟩
      · rcases List.mem_append.1 he with he | he
        · exact (hgone e he).2.1
        · rw [List.mem_singleton.1 he] at hcancelled
          cases hcancelled
      · rcases List.mem_append.1 he with he | he
        · exact (hgone e he).2.2
        · rw [List.mem_singleton.1 he]
          exact delayFor_paced _ _
      · intro did hdid
        obtain rfl := Option.some.inj hdid
        exact ⟨_, List.getLast?_concat, rfl, rfl⟩

theorem Single.step (h : Single t) (e : Event) : Single (step t e) := by
  cases e with
  | setSession s => exact h.of_eq rfl rfl
  | render => exact h.render
  | fires i =>
    simp only [Refresher.step]
    split
    next did cancelled since due he =>
      split
      · exact h
      · refine h.setPhase he ?_ ?_
        · split <;> trivial
        · rintro rfl
          rfl
    · exact h
  | refreshed i outcome =>
    simp only [Refresher.step]
    split
    next did cancelled since he =>
      have hanswer : Single (t.answer did outcome) := by
        cases outcome <;> exact h.of_eq rfl rfl
      have hat : (t.answer did outcome).effects[i]? = some ⟨did, cancelled, .refreshing since⟩ := by
        cases outcome <;> exact he
      have hended : Phase.ended.Paced := trivial
      cases cancelled with
      | true => exact hanswer.setPhase hat hended fun _ => rfl
      | false =>
        rw [if_neg Bool.false_ne_true]
        cases outcome with
        | fresh s => exact hanswer.setPhase hat (delayFor_paced _ _) fun hc => by cases hc
        | dead => exact (hanswer.setPhase hat hended fun _ => rfl).of_eq rfl rfl
        | failed => exact hanswer.setPhase hat (retry_paced _) fun hc => by cases hc
    · exact h
  | store did expiresAt => exact h.of_eq rfl rfl
  | wait ms => exact h.of_eq rfl rfl

theorem single_init : Single {} where
  last := fun _ _ he _ => (Option.some_ne_none _ he.symm).elim
  cleared := fun _ he _ => (List.not_mem_nil he).elim
  paced := fun _ he => (List.not_mem_nil he).elim
  live := fun _ hdid => (Option.some_ne_none _ hdid.symm).elim

end Steps

/-! ### Is the session of the tab looked after? -/

/-- There is a timer or a refresh for the account that was rendered, as long as it is signed in. -/
def Kept (t : Tab) : Prop :=
  ∀ s, t.session = some s → t.rendered = some s.sub →
    ∃ e ∈ t.effects, e.did = s.sub ∧ e.cancelled = false ∧ e.phase ≠ .ended

/-- The account comes back before the tab has been rendered without it, after its refresh token was
found dead. -/
def Relapses (t : Tab) : Event → Prop
  | .setSession (some s) =>
    t.rendered = some s.sub ∧ ∀ e ∈ t.effects, e.cancelled = false → e.phase = .ended
  | _ => False

section Kept

variable {t : Tab}

theorem Kept.setPhase (h : Kept t) {i : ℕ} {e : Effect} (he : t.effects[i]? = some e)
    {phase : Phase} (hphase : e.cancelled = false → phase ≠ .ended) :
    Kept (t.setPhase i e phase) := by
  intro s hs hrendered
  obtain ⟨x, hx, hdid, hlive, hrunning⟩ := h s hs hrendered
  obtain ⟨j, hj, rfl⟩ := List.getElem_of_mem hx
  by_cases hij : i = j
  · subst hij
    rw [List.getElem?_eq_getElem hj, Option.some.injEq] at he
    subst he
    exact ⟨_, List.mem_set hj _, hdid, hlive, hphase hlive⟩
  · refine ⟨_, List.mem_of_getElem? (i := j) ?_, hdid, hlive, hrunning⟩
    rw [Tab.setPhase, List.getElem?_set_ne hij, List.getElem?_eq_getElem hj]

theorem Kept.render (h : Kept t) : Kept t.render := by
  unfold Tab.render
  split
  · exact h
  · intro s hs _
    dsimp only at hs ⊢
    rw [hs]
    exact ⟨_, List.mem_concat_self, rfl, rfl, Phase.noConfusion⟩

theorem kept_setSession (h : Single t) (s : Option Session) :
    Kept (step t (.setSession s)) ↔ ¬ Relapses t (.setSession s) := by
  cases s with
  | none => exact iff_of_true (fun s hs => by cases hs) id
  | some s =>
    constructor
    · rintro hkept ⟨hrendered, hended⟩
      obtain ⟨e, he, -, hlive, hrunning⟩ := hkept s rfl hrendered
      exact hrunning (hended e he hlive)
    · intro hnot s' hs hrendered
      obtain rfl := Option.some.inj hs
      by_contra hnone
      refine hnot ⟨hrendered, fun e he hlive => ?_⟩
      by_contra hrunning
      obtain ⟨i, hi⟩ := List.getElem?_of_mem he
      have hdid := Option.some.inj (hrendered.symm.trans (h.last i e hi hlive).2)
      exact hnone ⟨e, he, hdid.symm, hlive, hrunning⟩

theorem kept_step (h : Single t) (hk : Kept t) (e : Event) :
    Kept (step t e) ↔ ¬ Relapses t e := by
  cases e with
  | setSession s => exact kept_setSession h s
  | render => exact iff_of_true hk.render id
  | fires i =>
    refine iff_of_true ?_ id
    simp only [Refresher.step]
    split
    next did cancelled since due he =>
      split
      · exact hk
      · refine hk.setPhase he fun hlive => ?_
        obtain rfl : cancelled = false := hlive
        exact Phase.noConfusion
    · exact hk
  | refreshed i outcome =>
    refine iff_of_true ?_ id
    simp only [Refresher.step]
    split
    next did cancelled since he =>
      have hanswer : Kept (t.answer did outcome) := by cases outcome <;> exact hk
      have hat : (t.answer did outcome).effects[i]? = some ⟨did, cancelled, .refreshing since⟩ := by
        cases outcome <;> exact he
      cases cancelled with
      | true => exact hanswer.setPhase hat fun hlive => by cases hlive
      | false =>
        rw [if_neg Bool.false_ne_true]
        cases outcome with
        | fresh s => exact hanswer.setPhase hat fun _ => Phase.noConfusion
        | dead => exact fun s hs => by cases hs
        | failed => exact hanswer.setPhase hat fun _ => Phase.noConfusion
    · exact hk
  | store did expiresAt => exact iff_of_true hk id
  | wait ms => exact iff_of_true hk id

end Kept

/-- Who changes the session: others, or a refresh that found the refresh token of the account
rendered last dead. -/
def Drops (t : Tab) (e : Event) : Prop :=
  (step t e).session = t.session ∨ (∃ s, e = .setSession s) ∨
    ∃ i x, e = .refreshed i .dead ∧ t.effects[i]? = some x ∧ x.cancelled = false ∧
      t.rendered = some x.did ∧ (step t e).session = none

theorem drops {t : Tab} (h : Single t) (e : Event) : Drops t e := by
  cases e with
  | setSession s => exact Or.inr (Or.inl ⟨s, rfl⟩)
  | render =>
    refine Or.inl ?_
    simp only [step, Tab.render]
    split <;> rfl
  | fires i =>
    refine Or.inl ?_
    simp only [step]
    split
    · split <;> rfl
    · rfl
  | refreshed i outcome =>
    unfold Drops
    simp only [step]
    split
    next did cancelled since he =>
      cases cancelled with
      | true => exact Or.inl (by cases outcome <;> rfl)
      | false =>
        cases outcome with
        | fresh s => exact Or.inl rfl
        | dead => exact Or.inr (Or.inr ⟨i, _, rfl, he, rfl, (h.last i _ he rfl).2, rfl⟩)
        | failed => exact Or.inl rfl
    · exact Or.inl rfl
  | store did expiresAt => exact Or.inl rfl
  | wait ms => exact Or.inl rfl

/-- At any time of any run one timer or refresh at most is live, for the account rendered last, with
delays between the bounds, and the session goes only with the refresh token of that account. There
is one as long as the account is signed in, exactly if an account whose refresh token was found dead
does not come back before the tab has been rendered without it. -/
theorem refresher_exact (es : List Event) :
    (∀ fs gs, es = fs ++ gs → Single (run step {} fs)) ∧ AllSteps step Drops {} es ∧
      ((∀ fs gs, es = fs ++ gs → Kept (run step {} fs)) ↔
        AllSteps step (fun t e => ¬ Relapses t e) {} es) := by
  have hsingle : ∀ fs, Single (run step {} fs) := run_kept (fun _ e h => h.step e) single_init
  refine ⟨fun fs _ _ => hsingle fs, ?_, ?_⟩
  · exact allSteps_of_invariant (fun _ e h _ => h.step e) (fun _ e h _ => drops h e) single_init
      (allSteps_of_forall fun _ _ => trivial)
  · have hinit : Kept {} := fun s hs => by cases hs
    rw [forall_prefix_iff, and_iff_right hinit]
    exact allSteps_iff_of_step (fun t e (ht : Single t ∧ Kept t) => kept_step ht.1 ht.2 e)
      (fun t e ht hnot => ⟨ht.1.step e, (kept_step ht.1 ht.2 e).2 hnot⟩) ⟨single_init, hinit⟩

end Atradio.Web.Refresher
