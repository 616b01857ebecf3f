import Atradio.Live.Delivery

/-! # Across processes

With Redis the channel decides the order. What a stream has been given and what is still on its way
to its process are together what was on its way at the request and what the channel has carried
since. The channel carries what a process publishes in the order of its calls. -/

namespace Atradio.Live
open Atradio.Lib Atradio.Lib.EventStream

variable {E P : Type} (cfg : Config E P)

/-- What a payload is for the streams of a station. -/
def forStation (s : String) (payload : P) : Option (List Char) :=
  ((cfg.decode payload).filter fun m => m.1 = s).map fun m => cfg.stringify (.event m.2)

def sentBy (q : ℕ) (carried : List (Option ℕ × P)) : List P :=
  carried.filterMap fun m => if m.1 = some q then some m.2 else none

/-- The arguments of the calls of `publishLive` in a process. -/
def calls (q : ℕ) (es : List (Event E P)) : List (String × E) :=
  es.filterMap fun
    | .publishLive p s e => if p = q then some (s, e) else none
    | _ => none

def eventsFor (s : String) (ms : List (String × E)) : List E :=
  ms.filterMap fun m => if m.1 = s then some m.2 else none

def breaks (p : ℕ) : Event E P → Bool
  | .lost q => q = p
  | _ => false

def givesUp (q : ℕ) : Event E P → Bool
  | .failed p => p = q
  | _ => false

/-- The names that no emitter uses itself. -/
def Ordinary (s : String) : Prop := s ≠ "newListener" ∧ s ≠ "removeListener"

instance (s : String) : Decidable (Ordinary s) := inferInstanceAs (Decidable (_ ∧ _))

def given (s : String) (hs : List (Happening E)) : List (List Char) :=
  (hs.filterMap (hears s)).map cfg.stringify

theorem given_append (s : String) (hs hs' : List (Happening E)) :
    given cfg s (hs ++ hs') = given cfg s hs ++ given cfg s hs' := by simp [given]

/-- From `w` to `w'` the channel carries `add`, and the process `p` takes what its streams of the
station `s` are given. -/
structure Carries (p : ℕ) (s : String) (w w' : World P) (add : List (Option ℕ × P))
    (xs : List (List Char)) : Prop where
  subscribed : w'.subscribed p = true
  channel : w'.channel = w.channel ++ add
  inbox : (w.inbox p ++ add.map Prod.snd).filterMap (forStation cfg s) =
    xs ++ (w'.inbox p).filterMap (forStation cfg s)

variable {cfg}

theorem Carries.trans {p : ℕ} {s : String} {w w' w'' : World P} {add add' : List (Option ℕ × P)}
    {xs xs' : List (List Char)} (h : Carries cfg p s w w' add xs)
    (h' : Carries cfg p s w' w'' add' xs') : Carries cfg p s w w'' (add ++ add') (xs ++ xs') := by
  refine ⟨h'.subscribed, by rw [h'.channel, h.channel, List.append_assoc], ?_⟩
  have hin := h.inbox
  have hin' := h'.inbox
  rw [List.filterMap_append] at hin hin' ⊢
  rw [List.map_append, List.filterMap_append, ← List.append_assoc, hin, List.append_assoc, hin',
    List.append_assoc]

theorem carries_of_eq {p : ℕ} {s : String} {w w' : World P} (hsub : w.subscribed p = true)
    (hs : w'.subscribed = w.subscribed) (hc : w'.channel = w.channel) (hi : w'.inbox p = w.inbox p) :
    Carries cfg p s w w' [] [] :=
  ⟨by rw [hs, hsub], by rw [hc, List.append_nil], by simp [hi]⟩

theorem given_ordinary {s : String} (hs : Ordinary s) (w : World P) (p : ℕ) (e : Event E P)
    (he : ∀ q, e ≠ .message q) (hredis : cfg.redis = true) : given cfg s (happens cfg w p e) = [] := by
  cases e with
  | get q s' =>
    simp only [happens]
    split <;> simp [given, hears, hs.1]
  | close c =>
    simp only [happens]
    split
    · split <;> simp [given, hears, hs.2]
    · rfl
  | publishLive q s' x =>
    simp only [happens]
    rw [if_neg (fun h => by rw [hredis] at h; cases h.1)]
    rfl
  | message q => exact (he q rfl).elim
  | _ => rfl

theorem carry_carries (cfg : Config E P) (s : String) {p : ℕ} {w : World P} (hsub : w.subscribed p = true)
    (origin : Option ℕ) (payload : P) :
    Carries cfg p s w (w.carry origin payload) [(origin, payload)] [] :=
  ⟨hsub, rfl, by simp [World.carry, hsub]⟩

theorem message_carries {p : ℕ} {s : String} {w : World P} (hsub : w.subscribed p = true)
    (q : ℕ) :
    Carries cfg p s w (step cfg w (.message q)) [] (given cfg s (happens cfg w p (.message q))) := by
  simp only [step, happens]
  cases hin : w.inbox q with
  | nil => exact carries_of_eq hsub rfl rfl rfl
  | cons payload rest =>
    dsimp only
    rw [List.head?_cons, Option.bind_some, onMessage_eq]
    have htaken : Carries cfg p s w { w with inbox := Function.update w.inbox q rest } []
        (if q = p then (forStation cfg s payload).toList else []) := by
      refine ⟨hsub, (List.append_nil _).symm, ?_⟩
      by_cases hq : q = p
      · subst hq
        rw [if_pos rfl]
        cases hf : forStation cfg s payload <;> simp [hin, hf]
      · have hkept : Function.update w.inbox q rest p = w.inbox p :=
          Function.update_of_ne (Ne.symm hq) rest w.inbox
        simp [hq, hkept]
    have hgiven : given cfg s (taken p q (cfg.decode payload)) =
        if q = p then (forStation cfg s payload).toList else [] := by
      rw [forStation]
      cases cfg.decode payload with
      | none => simp [given, taken]
      | some m =>
        by_cases hq : q = p <;> by_cases hst : m.1 = s <;>
          simp [given, taken, hears, hq, hst, Option.filter]
    rw [hgiven]
    cases cfg.decode payload with
    | none => exact htaken
    | some m =>
      obtain ⟨-, -, -, hchannel, hinbox, hsubs⟩ := call_kept cfg
        { w with inbox := Function.update w.inbox q rest } q m.1 (.event m.2)
      have hcall := htaken.trans (carries_of_eq hsub hsubs hchannel (congrFun hinbox p))
      rwa [List.append_nil, List.append_nil] at hcall

/-- Requests, pings and closed streams have nothing to do with Redis. -/
theorem stream_kept (w : World P) {e : Event E P}
    (he : (∃ q s, e = .get q s) ∨ (∃ c, e = .close c) ∨ ∃ c, e = .heartbeat c) :
    (step cfg w e).outbox = w.outbox ∧ (step cfg w e).channel = w.channel ∧
      (step cfg w e).inbox = w.inbox ∧ (step cfg w e).subscribed = w.subscribed := by
  rcases he with ⟨q, s, rfl⟩ | ⟨c, rfl⟩ | ⟨c, rfl⟩
  · simp only [step, getLive]
    split
    · exact ⟨rfl, rfl, rfl, rfl⟩
    · exact (call_kept cfg (w.connected q s) q "newListener" (.name s)).2.2
  · simp only [step, onClose]
    split
    · exact ⟨rfl, rfl, rfl, rfl⟩
    next k hk =>
      split
      · exact ⟨rfl, rfl, rfl, rfl⟩
      · exact (call_kept cfg _ k.process "removeListener" (.name k.stationId)).2.2
  · simp only [step, heartbeat]
    split
    · exact ⟨rfl, rfl, rfl, rfl⟩
    · split <;> exact ⟨rfl, rfl, rfl, rfl⟩

/-- The channel gets what leaves an outbox, and an outbox what is published. -/
theorem step_carries (hredis : cfg.redis = true) {p : ℕ} {s : String} (hs : Ordinary s)
    {w : World P} (hsub : w.subscribed p = true) {e : Event E P} (he : breaks p e = false) :
    ∃ add, Carries cfg p s w (step cfg w e) add (given cfg s (happens cfg w p e)) ∧
      ∀ q, givesUp q e = false → sentBy q add ++ (step cfg w e).outbox q =
        w.outbox q ++ (calls q [e]).map cfg.encode := by
  have hstream : (∃ q s, e = .get q s) ∨ (∃ c, e = .close c) ∨ (∃ c, e = .heartbeat c) →
      (∀ q, e ≠ .message q) → (∀ q, calls q [e] = []) →
      ∃ add, Carries cfg p s w (step cfg w e) add (given cfg s (happens cfg w p e)) ∧
        ∀ q, givesUp q e = false → sentBy q add ++ (step cfg w e).outbox q =
          w.outbox q ++ (calls q [e]).map cfg.encode := by
    intro hst hne hcalls
    obtain ⟨ho, hc, hi, hsubs⟩ := stream_kept w hst
    rw [given_ordinary hs w p e hne hredis]
    refine ⟨[], carries_of_eq hsub hsubs hc (congrFun hi p), fun q _ => ?_⟩
    rw [ho, hcalls, List.map_nil, List.append_nil]
    rfl
  cases e with
  | get q s' => exact hstream (Or.inl ⟨q, s', rfl⟩) (by simp) (fun _ => rfl)
  | close c => exact hstream (Or.inr (Or.inl ⟨c, rfl⟩)) (by simp) (fun _ => rfl)
  | heartbeat c => exact hstream (Or.inr (Or.inr ⟨c, rfl⟩)) (by simp) (fun _ => rfl)
  | publishLive q s' x =>
    rw [given_ordinary hs w p _ (by simp) hredis]
    simp only [step, publishLive, if_pos hredis]
    refine ⟨[], carries_of_eq hsub rfl rfl rfl, fun q' _ => ?_⟩
    by_cases hq : q' = q
    · subst hq
      simp [sentBy, calls]
    · simp [sentBy, calls, Function.update_of_ne hq, Ne.symm hq]
  | accepted q =>
    simp only [step]
    cases hout : w.outbox q with
    | nil => exact ⟨[], carries_of_eq hsub rfl rfl rfl, fun q' _ => by simp [sentBy, calls]⟩
    | cons payload rest =>
      have htaken : Carries cfg p s w { w with outbox := Function.update w.outbox q rest } [] [] :=
        carries_of_eq hsub rfl rfl rfl
      have hcarry := carry_carries cfg s htaken.subscribed (some q) payload
      refine ⟨[(some q, payload)], htaken.trans hcarry, fun q' _ => ?_⟩
      by_cases hq : q' = q
      · subst hq
        simp [sentBy, calls, World.carry, hout]
      · simp [sentBy, calls, World.carry, Function.update_of_ne hq, Ne.symm hq]
  | failed q =>
    refine ⟨[], carries_of_eq hsub rfl rfl rfl, fun q' hq' => ?_⟩
    have hq : q' ≠ q := by
      rintro rfl
      simp [givesUp] at hq'
    simp [step, sentBy, calls, Function.update_of_ne hq]
  | foreign payload =>
    exact ⟨[(none, payload)], carry_carries cfg s hsub none payload, fun q _ => by
      simp [step, World.carry, sentBy, calls]⟩
  | message q =>
    refine ⟨[], message_carries hsub q, fun q' _ => ?_⟩
    simp only [step]
    cases w.inbox q with
    | nil => simp [sentBy, calls]
    | cons payload rest =>
      simp only [onMessage_eq]
      cases cfg.decode payload with
      | none => simp [sentBy, calls]
      | some m =>
        have hout := (call_kept cfg { w with inbox := Function.update w.inbox q rest } q m.1
          (.event m.2)).2.2.1
        simp [sentBy, calls, hout]
  | ready q =>
    refine ⟨[], ⟨?_, (List.append_nil _).symm, by simp [step, given, happens]⟩, fun q' _ => by
      simp [step, sentBy, calls]⟩
    simp only [step, Function.update_apply]
    split
    · rfl
    · exact hsub
  | lost q =>
    have hq : p ≠ q := by
      rintro rfl
      simp [breaks] at he
    refine ⟨[], ⟨?_, (List.append_nil _).symm, ?_⟩, fun q' _ => by simp [step, sentBy, calls]⟩
    · simpa [step, Function.update_of_ne hq] using hsub
    · simp [step, given, happens, Function.update_of_ne hq]

theorem run_carries (hredis : cfg.redis = true) {p : ℕ} {s : String} (hs : Ordinary s)
    (es : List (Event E P)) (hes : ∀ e ∈ es, breaks p e = false) {w : World P}
    (hsub : w.subscribed p = true) :
    ∃ add, Carries cfg p s w (run (step cfg) w es) add (given cfg s (happenings cfg p w es)) ∧
      ∀ q, (∀ e ∈ es, givesUp q e = false) → sentBy q add ++ (run (step cfg) w es).outbox q =
        w.outbox q ++ (calls q es).map cfg.encode := by
  induction es generalizing w with
  | nil => exact ⟨[], carries_of_eq hsub rfl rfl rfl, fun q _ => by simp [sentBy, calls]⟩
  | cons e es ih =>
    obtain ⟨he, hrest⟩ := List.forall_mem_cons.1 hes
    obtain ⟨add, hadd, hsent⟩ := step_carries hredis hs hsub he
    obtain ⟨add', hadd', hsent'⟩ := ih hrest hadd.subscribed
    refine ⟨add ++ add', ?_, fun q hq => ?_⟩
    · rw [happenings, given_append]
      exact hadd.trans hadd'
    · obtain ⟨hqe, hqrest⟩ := List.forall_mem_cons.1 hq
      have hcalls : calls q ([e] ++ es) = calls q [e] ++ calls q es := List.filterMap_append
      rw [List.singleton_append] at hcalls
      have hsplit : sentBy q (add ++ add') = sentBy q add ++ sentBy q add' := by simp [sentBy]
      rw [hsplit, run_cons, List.append_assoc, hsent' q hqrest, ← List.append_assoc, hsent q hqe,
        hcalls, List.map_append, List.append_assoc]

theorem forStation_encode (hjson : ∀ m, cfg.decode (cfg.encode m) = some m) (s : String)
    (ms : List (String × E)) : (ms.map cfg.encode).filterMap (forStation cfg s) =
      (eventsFor s ms).map fun e => cfg.stringify (.event e) := by
  induction ms with
  | nil => rfl
  | cons m ms ih =>
    by_cases hm : m.1 = s <;> simp [forStation, eventsFor, hjson, hm, Option.filter] at ih ⊢ <;>
      exact ih

end Atradio.Live
