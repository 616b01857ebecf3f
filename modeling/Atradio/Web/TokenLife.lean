import Atradio.Web.SessionRefresher

/-! # Tokens of an open tab

What `SessionRefresher` is there for: where timers are a little late at most and every refresh is
answered in time, the token of the account that is signed in does not run out. -/

namespace Atradio.Web.Refresher
open Atradio.Lib

variable (δ ρ : ℕ)

/-- Timers are at most `δ` late and a refresh takes `ρ` at most. `getSession` leaves a token that had
a minute left when it was called; no token is put back, and a session starts with 45 s left. The tab
is rendered at once. -/
def Healthy (t : Tab) : Event → Prop
  | .setSession s => ∀ s', s = some s' → ∃ expiresAt live, s'.expiresAt = some expiresAt ∧
      t.now + 45000 ≤ expiresAt * 1000 ∧ t.stored s'.sub = some live ∧ expiresAt ≤ live
  | .refreshed i outcome => ∀ did cancelled since,
      t.effects[i]? = some ⟨did, cancelled, .refreshing since⟩ →
        ∃ s expiresAt, outcome = .fresh s ∧ s.expiresAt = some expiresAt ∧
          since + 60000 ≤ expiresAt * 1000 ∧ ∀ live, t.stored did = some live → live ≤ expiresAt
  | .store did expiresAt => ∀ live, t.stored did = some live → live ≤ expiresAt
  | .wait ms => t.rendered = t.session.map Session.sub ∧
      ∀ e ∈ t.effects, e.cancelled = false → match e.phase with
        | .timer _ due => t.now + ms ≤ due + δ
        | .refreshing since => t.now + ms ≤ since + ρ
        | .ended => True
  | _ => True

/-- The token outlives the timer and the refresh. -/
def Lasts (t : Tab) (e : Effect) : Prop :=
  ∃ live, t.stored e.did = some live ∧ match e.phase with
    | .timer _ due => due + 30000 ≤ live * 1000 ∧ t.now ≤ due + δ
    | .refreshing since => since + 30000 ≤ live * 1000 + δ ∧ t.now ≤ since + ρ
    | .ended => False

structure Lasting (t : Tab) : Prop where
  single : Single t
  chain : ∀ e ∈ t.effects, e.cancelled = false → Lasts δ ρ t e
  signedIn : ∀ s, t.session = some s → t.rendered ≠ some s.sub →
    ∃ expiresAt live, s.expiresAt = some expiresAt ∧ t.now + 45000 ≤ expiresAt * 1000 ∧
      t.stored s.sub = some live ∧ expiresAt ≤ live

variable {δ ρ} {t : Tab}

/-- The timer of a token with 45 s left goes off 30 s before its end. -/
theorem delayFor_before {now expiresAt : ℕ} (h : now + 45000 ≤ expiresAt * 1000) :
    now + delayFor now (some expiresAt) + 30000 ≤ expiresAt * 1000 := by
  have hne : expiresAt ≠ 0 := by omega
  simp only [delayFor, if_neg hne, clamp, REFRESH_BEFORE_MS, MIN_DELAY_MS, MAX_DELAY_MS]
  omega

theorem Lasts.mono {t' : Tab} {e : Effect} (h : Lasts δ ρ t e) (hnow : t'.now = t.now)
    (hstored : ∀ live, t.stored e.did = some live →
      ∃ live', t'.stored e.did = some live' ∧ live ≤ live') : Lasts δ ρ t' e := by
  obtain ⟨live, hlive, hphase⟩ := h
  obtain ⟨live', hlive', hle⟩ := hstored live hlive
  have hms : live * 1000 ≤ live' * 1000 := Nat.mul_le_mul_right 1000 hle
  refine ⟨live', hlive', ?_⟩
  rw [hnow]
  split at hphase
  · exact ⟨Nat.le_trans hphase.1 hms, hphase.2⟩
  · exact ⟨Nat.le_trans hphase.1 (Nat.add_le_add_right hms δ), hphase.2⟩
  · exact hphase

/-- Tokens that are put into a store outlive the ones there. -/
theorem stored_update {did did' : String} {expiresAt live : ℕ}
    (hle : ∀ live, t.stored did = some live → live ≤ expiresAt) (h : t.stored did' = some live) :
    ∃ live', Function.update t.stored did (some expiresAt) did' = some live' ∧ live ≤ live' := by
  by_cases hdid : did' = did
  · subst hdid
    exact ⟨expiresAt, Function.update_self .., hle live h⟩
  · exact ⟨live, by rw [Function.update_of_ne hdid, h], Nat.le_refl _⟩

theorem Lasting.store (h : Lasting δ ρ t) {did : String} {expiresAt : ℕ}
    (hle : ∀ live, t.stored did = some live → live ≤ expiresAt) :
    Lasting δ ρ { t with stored := Function.update t.stored did (some expiresAt) } := by
  refine ⟨h.single.of_eq rfl rfl, fun e he hlive => ?_, fun s hs hrendered => ?_⟩
  · exact (h.chain e he hlive).mono rfl fun live hl => stored_update hle hl
  · obtain ⟨own, live, hown, hnow, hl, hle'⟩ := h.signedIn s hs hrendered
    obtain ⟨live', hlive', hle''⟩ := stored_update hle hl
    exact ⟨own, live', hown, hnow, hlive', Nat.le_trans hle' hle''⟩

theorem Lasting.setPhase (h : Lasting δ ρ t) {i : ℕ} {e : Effect} (he : t.effects[i]? = some e)
    {phase : Phase} (hpaced : phase.Paced) (htimer : e.cancelled = true → phase.isTimer = false)
    (hlasts : e.cancelled = false → Lasts δ ρ t { e with phase }) :
    Lasting δ ρ (t.setPhase i e phase) := by
  refine ⟨h.single.setPhase he hpaced htimer, fun x hx hlive => ?_, h.signedIn⟩
  rcases mem_setPhase hx with rfl | hx
  · exact hlasts hlive
  · exact h.chain x hx hlive

theorem Lasting.render (h : Lasting δ ρ t) : Lasting δ ρ t.render := by
  have hsingle := h.single.render
  unfold Tab.render at hsingle ⊢
  split
  · exact h
  next hchanged =>
    rw [if_neg hchanged] at hsingle
    refine ⟨hsingle, fun e he hlive => ?_, fun s hs hrendered => ?_⟩
    · have hgone : ∀ x ∈ t.effects.map Effect.cleanup, x.cancelled = true := by
        intro x hx
        obtain ⟨x, -, rfl⟩ := List.mem_map.1 hx
        rfl
      cases hsession : t.session with
      | none =>
        rw [hsession] at he
        rw [hgone e he] at hlive
        cases hlive
      | some s =>
        rw [hsession] at he
        rcases List.mem_append.1 he with he | he
        · rw [hgone e he] at hlive
          cases hlive
        · obtain rfl := List.mem_singleton.1 he
          have hother : t.rendered ≠ some s.sub := fun heq => hchanged (by rw [hsession]; exact heq)
          obtain ⟨expiresAt, live, hexp, hnow, hstored, hle⟩ := h.signedIn s hsession hother
          have hbefore := delayFor_before hnow
          have hms : expiresAt * 1000 ≤ live * 1000 := Nat.mul_le_mul_right 1000 hle
          refine ⟨live, hstored, ?_⟩
          rw [hexp]
          exact ⟨Nat.le_trans hbefore hms, Nat.le_trans (Nat.le_add_right ..) (Nat.le_add_right ..)⟩
    · dsimp only at hs hrendered
      rw [hs] at hrendered
      exact absurd rfl hrendered

theorem Lasting.step (hρ : ρ ≤ 15000) (h : Lasting δ ρ t) (e : Event)
    (he : Healthy δ ρ t e) : Lasting δ ρ (step t e) := by
  cases e with
  | setSession s => exact ⟨h.single.of_eq rfl rfl, h.chain, fun s' hs _ => he s' hs⟩
  | render => exact h.render
  | fires i =>
    simp only [Refresher.step]
    split
    next did cancelled since due hat =>
      split
      · exact h
      next hdue =>
        cases cancelled with
        | true => exact h.setPhase hat trivial (fun _ => rfl) fun hlive => by cases hlive
        | false =>
          refine h.setPhase hat trivial (fun _ => rfl) fun _ => ?_
          obtain ⟨live, hstored, hlong, hsoon⟩ := h.chain _ (List.mem_of_getElem? hat) rfl
          exact ⟨live, hstored, by omega, Nat.le_add_right ..⟩
    · exact h
  | refreshed i outcome =>
    simp only [Refresher.step]
    split
    next did cancelled since hat =>
      obtain ⟨s, expiresAt, rfl, hexp, hminute, hle⟩ := he did cancelled since hat
      have hstore : Lasting δ ρ (t.answer did (.fresh s)) := by
        simp only [Tab.answer, hexp]
        exact h.store hle
      cases cancelled with
      | true =>
        rw [if_pos rfl]
        exact hstore.setPhase hat trivial (fun _ => rfl) fun hlive => by cases hlive
      | false =>
        rw [if_neg Bool.false_ne_true]
        refine hstore.setPhase hat (delayFor_paced _ _) (fun hc => by cases hc) fun _ => ?_
        obtain ⟨live, hstored, hlong, hsoon⟩ := h.chain _ (List.mem_of_getElem? hat) rfl
        refine ⟨expiresAt, ?_, ?_⟩
        · simp only [Tab.answer, hexp, Function.update_self]
        · rw [hexp]
          have hbefore : t.now + delayFor t.now (some expiresAt) + 30000 ≤ expiresAt * 1000 :=
            delayFor_before (by omega)
          exact ⟨hbefore, Nat.le_trans (Nat.le_add_right ..) (Nat.le_add_right ..)⟩
    · exact h
  | store did expiresAt => exact h.store he
  | wait ms =>
    obtain ⟨hrendered, hwait⟩ := he
    refine ⟨h.single.of_eq rfl rfl, fun x hx hlive => ?_, fun s hs hother => ?_⟩
    · obtain ⟨live, hstored, hphase⟩ := h.chain x hx hlive
      have hin := hwait x hx hlive
      refine ⟨live, hstored, ?_⟩
      cases hp : x.phase with
      | timer since due =>
        rw [hp] at hphase hin
        exact ⟨hphase.1, hin⟩
      | refreshing since =>
        rw [hp] at hphase hin
        exact ⟨hphase.1, hin⟩
      | ended =>
        rw [hp] at hphase
        exact hphase
    · have hsession : t.session = some s := hs
      rw [hsession] at hrendered
      exact (hother hrendered).elim

/-- The token of the account that is signed in has not run out, at any time of a healthy run. -/
theorem token_lasts (δ ρ : ℕ) (hρ : ρ ≤ 15000) (hlate : δ + ρ < 30000) (es : List Event)
    (hes : AllSteps step (Healthy δ ρ) {} es) (s : Session)
    (hs : (run step {} es).session = some s) :
    ∃ live, (run step {} es).stored s.sub = some live ∧ (run step {} es).now < live * 1000 := by
  have hinit : Lasting δ ρ {} :=
    ⟨single_init, fun _ he => (List.not_mem_nil he).elim,
      fun _ hs => (Option.some_ne_none _ hs.symm).elim⟩
  have hlasting : Lasting δ ρ (run step {} es) :=
    run_invariant (fun t e ht he => ht.step hρ e he) hinit hes
  by_cases hrendered : (run step {} es).rendered = some s.sub
  · obtain ⟨e, hlast, hlive, hdid⟩ := hlasting.single.live s.sub hrendered
    obtain ⟨live, hstored, hphase⟩ := hlasting.chain e (List.mem_of_getLast? hlast) hlive
    rw [hdid] at hstored
    refine ⟨live, hstored, ?_⟩
    split at hphase
    · omega
    · omega
    · exact hphase.elim
  · obtain ⟨expiresAt, live, -, hnow, hstored, hle⟩ := hlasting.signedIn s hs hrendered
    exact ⟨live, hstored, by omega⟩

/-- A token of 100 s is replaced behind 71 s, and the new one looked at again 25 minutes later. -/
def replaced : List Event :=
  [.store "a" 100, .setSession (some ⟨"a", some 100⟩), .render, .wait 70005, .fires 0, .wait 1000,
    .refreshed 0 (.fresh ⟨"a", some 3600⟩), .wait 1500000, .fires 0]

theorem token_lasts_replaced :
    (run step {} replaced).effects = [⟨"a", false, .refreshing 1571005⟩] ∧
      ∃ live, (run step {} replaced).stored "a" = some live ∧
        (run step {} replaced).now < live * 1000 := by
  refine ⟨rfl, token_lasts 10 2000 (by decide) (by decide) replaced ?_ ⟨"a", some 100⟩ rfl⟩
  refine ⟨?_, ?_, trivial, ⟨rfl, ?_⟩, trivial, ⟨rfl, ?_⟩, ?_, ⟨rfl, ?_⟩, trivial, trivial⟩
  · intro live hlive
    cases hlive
  · rintro s ⟨⟩
    exact ⟨100, 100, rfl, by decide, rfl, Nat.le_refl _⟩
  · intro e he _
    obtain rfl := List.mem_singleton.1 he
    decide
  · intro e he _
    obtain rfl := List.mem_singleton.1 he
    exact (by decide : 71005 ≤ 72005)
  · rintro did cancelled since ⟨⟩
    refine ⟨⟨"a", some 3600⟩, 3600, rfl, rfl, by decide, fun live hlive => ?_⟩
    obtain rfl : 100 = live := Option.some.inj hlive
    decide
  · intro e he _
    obtain rfl := List.mem_singleton.1 he
    decide

end Atradio.Web.Refresher
