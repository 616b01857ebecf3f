import Atradio.App.Taps

/-! # Silence behind a command to pause

What the listener asked for last and what is on its way to the service and the engine. -/

namespace Atradio.App.Radio
open Atradio.Lib

section Steps

variable {d : Device} {w : Phone}

/-- A service that has not been started is at rest. -/
def Phone.Idle (w : Phone) : Prop := w.running = false → w.Rest

theorem Phone.Still.of_eq {w' : Phone} (h : w.Still) (hasked : w'.asked = w.asked)
    (hservice : w'.service = w.service) (hengine : w'.engine = w.engine)
    (hway : w'.intents ++ w'.calls = w.intents ++ w.calls) : w'.Still := by
  intro hno
  have hstill := h (hasked.symm.trans hno)
  rw [hway]
  cases hlast : (w.intents ++ w.calls).getLast? with
  | none =>
    rw [hlast] at hstill
    exact hstill.of_eq hservice hengine
  | some i =>
    rw [hlast] at hstill
    exact hstill

theorem still_asked (h : w.asked = true) : w.Still := fun hno => by
  rw [h] at hno
  cases hno

/-- One more call is on its way. -/
theorem still_call (w : Phone) (i : Intent) :
    ({ w with calls := w.calls ++ [i] } : Phone).Still ↔ (w.asked = false → i.plays = false) := by
  have hlast : (w.intents ++ (w.calls ++ [i])).getLast? = some i := by
    rw [← List.append_assoc, List.getLast?_concat]
  simp only [Phone.Still, hlast, Phone.Ends]

theorem still_playResolved (h : w.Still) (i : ℕ) (t : Tap) (url : String) :
    (w.playResolved i t url).Still ↔ ¬ (w.asked = false ∧ t.aborted = false) := by
  simp only [Phone.playResolved]
  cases haborted : t.aborted with
  | true =>
    refine iff_of_true (h.of_eq rfl rfl rfl rfl) ?_
    rintro ⟨-, hno⟩
    cases hno
  | false =>
    rw [if_neg Bool.false_ne_true]
    refine (still_call (w.setPhase i t .settled) _).trans ?_
    exact ⟨fun himp hboth => Bool.noConfusion (himp hboth.1), fun hnot hno => (hnot ⟨hno, rfl⟩).elim⟩

theorem still_radioPlay (h : w.Still) (i : ℕ) (t : Tap) : (w.radioPlay d i t).Still ↔
    ¬ (w.asked = false ∧ t.aborted = false ∧ ∃ href, d.route t.station = .direct href) := by
  simp only [Phone.radioPlay]
  cases hroute : d.route t.station with
  | invalid => exact iff_of_true (h.of_eq rfl rfl rfl rfl) (by rintro ⟨-, -, href, ⟨⟩⟩)
  | tuneIn => exact iff_of_true (h.of_eq rfl rfl rfl rfl) (by rintro ⟨-, -, href, ⟨⟩⟩)
  | direct href =>
    refine (still_playResolved h i t href).trans (not_congr ⟨?_, ?_⟩)
    · rintro ⟨hasked, haborted⟩
      exact ⟨hasked, haborted, href, rfl⟩
    · rintro ⟨hasked, haborted, -⟩
      exact ⟨hasked, haborted⟩

theorem still_permission (h : w.Still) (i : ℕ) (ok : Bool) :
    (w.step d (.permission i ok)).Still ↔ ¬ w.Stirs d (.permission i ok) := by
  simp only [Phone.step, Phone.Stirs]
  split
  next station aborted ht =>
    cases ok with
    | false => exact iff_of_true (h.of_eq rfl rfl rfl rfl) fun hs => Bool.noConfusion hs.1
    | true =>
      rw [if_pos rfl]
      refine (still_radioPlay h i _).trans (not_congr ⟨?_, ?_⟩)
      · rintro ⟨hasked, haborted, href, hroute⟩
        exact ⟨rfl, hasked, _, href, ht, rfl, haborted, hroute⟩
      · rintro ⟨-, hasked, t, href, ht', -, haborted, hroute⟩
        obtain rfl := Option.some.inj (ht.symm.trans ht')
        exact ⟨hasked, haborted, href, hroute⟩
  next hno =>
    refine iff_of_true h ?_
    rintro ⟨-, -, ⟨station, phase, aborted⟩, href, ht, hphase, -⟩
    dsimp only at hphase
    subst hphase
    exact hno station aborted ht

theorem still_resolved (h : w.Still) (i : ℕ) (url : Option String) :
    (w.step d (.resolved i url)).Still ↔ ¬ w.Stirs d (.resolved i url) := by
  simp only [Phone.step, Phone.Stirs]
  split
  next station aborted ht =>
    cases url with
    | none => exact iff_of_true (h.of_eq rfl rfl rfl rfl) fun hs => Bool.noConfusion hs.1
    | some url =>
      refine (still_playResolved h i _ url).trans (not_congr ⟨?_, ?_⟩)
      · rintro ⟨hasked, haborted⟩
        exact ⟨rfl, hasked, _, ht, rfl, haborted⟩
      · rintro ⟨-, hasked, t, ht', -, haborted⟩
        obtain rfl := Option.some.inj (ht.symm.trans ht')
        exact ⟨hasked, haborted⟩
  next hno =>
    refine iff_of_true h ?_
    rintro ⟨-, -, ⟨station, phase, aborted⟩, ht, hphase, -⟩
    dsimp only at hphase
    subst hphase
    exact hno station aborted ht

theorem still_module (h : w.Still) (hidle : w.Idle) :
    (w.step d .module).Still ↔ ¬ w.Stirs d .module := by
  simp only [Phone.step, Phone.Stirs]
  cases hcalls : w.calls with
  | nil => exact iff_of_true h (by rintro ⟨-, -, call, ⟨⟩, -⟩)
  | cons call calls =>
    dsimp only
    split
    next hpasses =>
      refine iff_of_true (h.of_eq rfl rfl rfl (by rw [hcalls]; simp)) ?_
      rintro ⟨-, hrunning, call', hcall, hpause, -⟩
      obtain ⟨rfl, -⟩ := List.cons.inj hcall
      rw [hrunning, hpause] at hpasses
      cases hpasses
    next hdropped =>
      obtain ⟨hrunning, hpause⟩ : w.running = false ∧ call.plays = false := by
        simpa using hdropped
      by_cases hasked : w.asked = true
      · refine iff_of_true (still_asked hasked) fun hs => ?_
        rw [hasked] at hs
        exact Bool.noConfusion hs.1
      · have hno : w.asked = false := (Bool.not_eq_true _).mp hasked
        cases calls with
        | cons c cs =>
          refine iff_of_true (fun _ => ?_) (by rintro ⟨-, -, call', hcall, -⟩; cases hcall)
          have hstill := h hno
          rw [hcalls] at hstill
          have hlast : (w.intents ++ (call :: c :: cs)).getLast? = (w.intents ++ (c :: cs)).getLast? := by
            simp [List.getLast?_append, List.getLast?_cons]
          rw [hlast] at hstill
          dsimp only
          cases hend : (w.intents ++ (c :: cs)).getLast? with
          | none => simp at hend
          | some i =>
            rw [hend] at hstill
            exact hstill
        | nil =>
          simp only [Phone.Still, List.append_nil]
          cases hlast : w.intents.getLast? with
          | none =>
            refine iff_of_true (fun _ => (hidle hrunning).of_eq rfl rfl) ?_
            rintro ⟨-, -, call', -, -, i, ⟨⟩, -⟩
          | some i =>
            constructor
            · rintro hpauses ⟨-, -, call', -, -, i', ⟨⟩, hplays⟩
              rw [hpauses hno] at hplays
              cases hplays
            · intro hnot _
              by_contra hplays
              exact hnot ⟨hno, hrunning, call, rfl, hpause, i, rfl, by simpa [Phone.Ends] using hplays⟩

theorem still_intent (h : w.Still) (granted : Bool) (now : ℕ) :
    (w.step d (.intent granted now)).Still := by
  simp only [Phone.step]
  cases hintents : w.intents with
  | nil => exact h
  | cons i intents =>
    intro hno
    have hstill := h hno
    rw [hintents] at hstill
    dsimp only [Phone.takes]
    cases hrest : intents ++ w.calls with
    | nil =>
      rw [List.cons_append, hrest] at hstill
      have hevent : i.event.commands = some false := by
        cases i with
        | pause | stop => rfl
        | playStation | play => cases hstill
      exact @command_rest { w with intents, running := true } ⟨granted, now, i.event⟩ hevent
    | cons j rest =>
      rw [List.cons_append, hrest, List.getLast?_cons_cons] at hstill
      cases hend : (j :: rest).getLast? with
      | none => simp at hend
      | some i' =>
        rw [hend] at hstill
        exact hstill

theorem still_outside (h : w.Still) (turn : Turn) :
    (w.step d (.outside turn)).Still ↔ ¬ w.Stirs d (.outside turn) := by
  simp only [Phone.step, Phone.Stirs]
  split
  next hreaches =>
    cases hcommands : turn.event.commands with
    | none =>
      refine iff_of_true (fun hno => ?_) fun hs => by cases hs.1
      have hstill := h hno
      dsimp only [Phone.takes]
      cases hlast : (w.intents ++ w.calls).getLast? with
      | some i =>
        rw [hlast] at hstill
        exact hstill
      | none =>
        rw [hlast] at hstill
        refine (rest_takes hstill (by simp [hcommands]) fun next hnext => ?_).of_eq rfl rfl
        rw [hnext] at hreaches
        cases hreaches
    | some plays =>
      cases plays with
      | true => exact iff_of_true (still_asked rfl) fun hs => by cases hs.1
      | false =>
        constructor
        · rintro hstill ⟨-, i, hlast, hplays⟩
          have hpause := hstill rfl
          dsimp only [Phone.takes] at hpause
          rw [hlast] at hpause
          cases hplays.symm.trans hpause
        · intro hnot _
          dsimp only [Phone.takes]
          cases hlast : (w.intents ++ w.calls).getLast? with
          | some i =>
            by_contra hplays
            exact hnot ⟨rfl, i, hlast, by simpa [Phone.Ends] using hplays⟩
          | none => exact (command_rest w hcommands).of_eq rfl rfl
  next hlost =>
    refine iff_of_true h ?_
    rintro ⟨hcommands, -⟩
    cases hevent : turn.event with
    | pause | stop => exact hlost (by rw [hevent]; rfl)
    | _ =>
      rw [hevent] at hcommands
      cases hcommands

theorem still_step (h : w.Still) (hidle : w.Idle) (e : PhoneEvent) :
    (w.step d e).Still ↔ ¬ w.Stirs d e := by
  cases e with
  | tap station =>
    refine iff_of_true (still_asked ?_) id
    simp only [Phone.step, Phone.play, Phone.radioPlay, Phone.playResolved]
    split
    · rfl
    · split <;> rfl
  | permission i ok => exact still_permission h i ok
  | resolved i url => exact still_resolved h i url
  | control action =>
    refine iff_of_true ?_ id
    cases action with
    | playStation station => exact h
    | play => exact still_asked rfl
    | pause => exact (still_call { w with taps := abortLast w.taps, asked := false } .pause).2 fun _ => rfl
    | stop => exact (still_call { w with taps := abortLast w.taps, asked := false } .stop).2 fun _ => rfl
  | signOut => exact iff_of_true ((still_call { w with asked := false } .stop).2 fun _ => rfl) id
  | module => exact still_module h hidle
  | intent granted now => exact iff_of_true (still_intent h granted now) id
  | outside turn => exact still_outside h turn
  | destroyed =>
    refine iff_of_true (fun hno => ?_) id
    have hstill := h hno
    dsimp only [Phone.step]
    cases hlast : (w.intents ++ w.calls).getLast? with
    | some i =>
      rw [hlast] at hstill
      exact hstill
    | none => exact ⟨rfl, Or.inl rfl, rfl⟩

theorem idle_step (h : w.Idle) (e : PhoneEvent) : (w.step d e).Idle := by
  have hkept : ∀ w' : Phone, w'.running = w.running → w'.service = w.service →
      w'.engine = w.engine → w'.Idle := by
    intro w' hrunning hservice hengine hno
    exact (h (hrunning.symm.trans hno)).of_eq hservice hengine
  have hresolved : ∀ i t url, (w.playResolved i t url).Idle := by
    intro i t url
    simp only [Phone.playResolved]
    split <;> exact hkept _ rfl rfl rfl
  cases e with
  | tap station =>
    simp only [Phone.step, Phone.play, Phone.radioPlay, Phone.playResolved]
    split
    · exact hkept _ rfl rfl rfl
    · split <;> exact hkept _ rfl rfl rfl
  | permission i ok =>
    simp only [Phone.step]
    split
    · split
      · simp only [Phone.radioPlay]
        split
        · exact hkept _ rfl rfl rfl
        · exact hresolved _ _ _
        · exact hkept _ rfl rfl rfl
      · exact hkept _ rfl rfl rfl
    · exact h
  | resolved i url =>
    simp only [Phone.step]
    split
    · split
      · exact hresolved _ _ _
      · exact hkept _ rfl rfl rfl
    · exact h
  | control action => cases action <;> exact hkept _ rfl rfl rfl
  | signOut => exact hkept _ rfl rfl rfl
  | module =>
    simp only [Phone.step]
    split
    · exact h
    · split <;> exact hkept _ rfl rfl rfl
  | intent granted now =>
    simp only [Phone.step]
    split
    · exact h
    · exact fun hno => by cases hno
  | outside turn =>
    simp only [Phone.step]
    split
    · exact fun hno => by cases hno
    · exact h
  | destroyed => exact fun _ => ⟨rfl, Or.inl rfl, rfl⟩

/-! ### The commands of the app -/

/-- Only the last tap has not been aborted, and not even that one behind a command to pause. -/
structure Phone.Aborted (w : Phone) : Prop where
  last : ∀ i t, w.taps[i]? = some t → t.aborted = false → i + 1 = w.taps.length
  all : w.asked = false → ∀ t ∈ w.taps, t.aborted = true

theorem abortLast_aborted (taps : List Tap)
    (h : ∀ i t, taps[i]? = some t → t.aborted = false → i + 1 = taps.length) :
    ∀ t ∈ abortLast taps, t.aborted = true := by
  induction taps using abortLast.induct with
  | case1 => exact fun t ht => (List.not_mem_nil ht).elim
  | case2 t =>
    intro t' ht'
    rw [List.mem_singleton.1 ht']
  | case3 t u taps ih =>
    intro t' ht'
    rcases List.mem_cons.1 ht' with rfl | ht'
    · by_contra hlive
      have hfirst := h 0 t' rfl (by simpa using hlive)
      simp at hfirst
    · refine ih (fun i x hx hlive => ?_) t' ht'
      exact Nat.succ.inj (h (i + 1) x hx hlive)

theorem Phone.Aborted.of_set (h : w.Aborted) {w' : Phone} {i : ℕ} {t : Tap} {phase : Phase}
    (ht : w.taps[i]? = some t) (htaps : w'.taps = w.taps.set i { t with phase })
    (hasked : w'.asked = w.asked) : w'.Aborted := by
  refine ⟨fun j x hx hlive => ?_, fun hno x hx => ?_⟩
  · rw [htaps, List.length_set]
    rw [htaps, List.getElem?_set] at hx
    split at hx
    next hij =>
      split at hx
      · obtain rfl := Option.some.inj hx
        exact hij ▸ h.last i t ht hlive
      · cases hx
    · exact h.last j x hx hlive
  · rw [htaps] at hx
    rcases List.mem_or_eq_of_mem_set hx with hx | rfl
    · exact h.all (hasked.symm.trans hno) x hx
    · exact h.all (hasked.symm.trans hno) t (List.mem_of_getElem? ht)

theorem Phone.Aborted.of_eq (h : w.Aborted) {w' : Phone} (htaps : w'.taps = w.taps)
    (hasked : w'.asked = false → w.asked = false) : w'.Aborted := by
  refine ⟨?_, fun hno => ?_⟩
  · rw [htaps]
    exact h.last
  · rw [htaps]
    exact h.all (hasked hno)

theorem Phone.Aborted.playResolved (h : w.Aborted) {i : ℕ} {t : Tap} (ht : w.taps[i]? = some t)
    (url : String) : (w.playResolved i t url).Aborted := by
  simp only [Phone.playResolved]
  split
  · exact h.of_set ht rfl rfl
  · exact h.of_set ht rfl rfl

theorem Phone.Aborted.radioPlay (h : w.Aborted) {i : ℕ} {t : Tap} (ht : w.taps[i]? = some t) :
    (w.radioPlay d i t).Aborted := by
  simp only [Phone.radioPlay]
  split
  · exact h.of_set ht rfl rfl
  · exact h.playResolved ht _
  · exact h.of_set ht rfl rfl

theorem Phone.Aborted.play (h : w.Aborted) (station : Station) : (w.play d station).Aborted := by
  have hgone := abortLast_aborted w.taps h.last
  have hnew : ({ w with
      taps := abortLast w.taps ++ [⟨station, .permission, false⟩], asked := true } : Phone).Aborted := by
    refine ⟨fun i t ht hlive => ?_, fun hno => by cases hno⟩
    dsimp only at ht ⊢
    rw [List.length_append, List.length_singleton]
    rw [List.getElem?_append] at ht
    split at ht
    · rw [hgone t (List.mem_of_getElem? ht)] at hlive
      cases hlive
    next hlen =>
      have hlt := (List.getElem?_eq_some_iff.1 ht).1
      rw [List.length_singleton] at hlt
      omega
  simp only [Phone.play]
  split
  · exact hnew
  · refine hnew.radioPlay ?_
    simp

/-- No command comes from outside the app, and nobody signs out. -/
def PhoneEvent.own : PhoneEvent → Bool
  | .signOut => false
  | .outside turn => turn.event.commands = none
  | _ => true

theorem aborted_step (h : w.Aborted) {e : PhoneEvent} (he : e.own = true) :
    (w.step d e).Aborted := by
  cases e with
  | tap station => exact h.play station
  | permission i ok =>
    simp only [Phone.step]
    split
    next ht =>
      split
      · exact h.radioPlay ht
      · exact h.of_set ht rfl rfl
    · exact h
  | resolved i url =>
    simp only [Phone.step]
    split
    next ht =>
      split
      · exact h.playResolved ht _
      · exact h.of_set ht rfl rfl
    · exact h
  | control action =>
    have hgone := abortLast_aborted w.taps h.last
    have hall : ∀ calls, ({ w with
        taps := abortLast w.taps, calls, asked := false } : Phone).Aborted := by
      intro calls
      refine ⟨fun i t ht hlive => ?_, fun _ => hgone⟩
      rw [hgone t (List.mem_of_getElem? ht)] at hlive
      cases hlive
    cases action with
    | playStation station => exact h
    | play => exact h.of_eq rfl fun hno => by cases hno
    | pause => exact hall _
    | stop => exact hall _
  | signOut => cases he
  | module =>
    simp only [Phone.step]
    split
    · exact h
    · split <;> exact h.of_eq rfl id
  | intent granted now =>
    simp only [Phone.step]
    split
    · exact h
    · exact h.of_eq rfl id
  | outside turn =>
    have hnone : turn.event.commands = none := of_decide_eq_true he
    simp only [Phone.step, hnone]
    split
    · exact h.of_eq rfl id
    · exact h
  | destroyed => exact h.of_eq rfl id

/-- The app's own commands leave one way to stir, the call that the module drops. -/
theorem own_stirs (h : w.Aborted) {e : PhoneEvent} (he : e.own = true) (hs : w.Stirs d e) :
    e = .module := by
  cases e with
  | permission i ok =>
    obtain ⟨-, hno, t, href, ht, -, hlive, -⟩ := hs
    rw [h.all hno t (List.mem_of_getElem? ht)] at hlive
    cases hlive
  | resolved i url =>
    obtain ⟨-, hno, t, ht, -, hlive⟩ := hs
    rw [h.all hno t (List.mem_of_getElem? ht)] at hlive
    cases hlive
  | outside turn =>
    have hnone : turn.event.commands = none := of_decide_eq_true he
    cases hnone.symm.trans hs.1
  | module => rfl
  | tap | control | signOut | intent | destroyed => exact hs.elim

end Steps

def Phone.init (saved : Option Station) : Phone := { service := .init saved none }

/-- Once the listener's last command is to pause or stop, all that is on its way ends in silence, at
every moment of a run, exactly if no step stirs. Where the commands come from the app itself this is
one step only, of the module. -/
theorem silence_iff (d : Device) (saved : Option Station) (es : List PhoneEvent) :
    ((∀ fs gs, es = fs ++ gs → (run (Phone.step d) (Phone.init saved) fs).Still) ↔
      AllSteps (Phone.step d) (fun w e => ¬ w.Stirs d e) (Phone.init saved) es) ∧
    ((∀ e ∈ es, e.own = true) → AllSteps (Phone.step d)
      (fun w e => w.Stirs d e → e = .module) (Phone.init saved) es) := by
  have hrest : (Phone.init saved).Rest := ⟨rfl, Or.inl rfl, rfl⟩
  have hstill : (Phone.init saved).Still := fun _ => hrest
  have hidle : (Phone.init saved).Idle := fun _ => hrest
  have haborted : (Phone.init saved).Aborted :=
    ⟨fun _ _ ht _ => (Option.some_ne_none _ ht.symm).elim, fun _ _ ht => (List.not_mem_nil ht).elim⟩
  constructor
  · rw [forall_prefix_iff, and_iff_right hstill]
    exact allSteps_iff_of_step (fun w e (hw : w.Still ∧ w.Idle) => still_step hw.1 hw.2 e)
      (fun w e hw hnot => ⟨(still_step hw.1 hw.2 e).2 hnot, idle_step hw.2 e⟩) ⟨hstill, hidle⟩
  · intro hown
    exact allSteps_of_invariant (fun w e hw he => aborted_step hw he)
      (fun w e hw he => own_stirs hw he) haborted (allSteps_of_forall hown)

end Atradio.App.Radio
