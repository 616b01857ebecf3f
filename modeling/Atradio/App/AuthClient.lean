import Atradio.Lib.History
import Atradio.Lib.Table

/-! # The bridge to the auth runtime (`auth/client.ts`)

Owners are the symbols of the components that show the runtime, and an inject function stands for
the runtime it hands scripts to. -/

namespace Atradio.App.AuthClient
open Atradio.Lib

variable {O I : Type}

/-- An entry of `waiting`, without the functions that settle its promise. -/
structure Request (O : Type) where
  id : ℕ
  script : String
  owner : Option O
  sent : Bool

structure Client (O I : Type) where
  nextId : ℕ
  activeOwner : Option O
  send : Option I
  waiting : Table (Request.id (O := O))
  /-- The requests whose timer is running. -/
  timers : List ℕ

inductive Answer where
  | resolve (result : String)
  | reject (error : String)

inductive Effect (I : Type) where
  | inject (runtime : I) (id : ℕ) (script : String)
  | settle (id : ℕ) (answer : Answer)

/-- What `JSON.parse` makes of a message. An `id` that is no key of the map is left out. -/
structure Message where
  id : Option ℕ
  error : Option String
  result : String

inductive Event (O I : Type) where
  | request (command argument : String)
  | prepare (owner : O)
  | attach (owner : O) (inject : I)
  | detach (owner : O) (message : Option String)
  /-- `none` where the data has no properties. -/
  | message (message : Option Message)
  | timeout (id : ℕ)

def escaped (c : Char) : String :=
  match c.toNat with
  | 8 => "\\b"
  | 9 => "\\t"
  | 10 => "\\n"
  | 12 => "\\f"
  | 13 => "\\r"
  | 34 => "\\\""
  | 92 => "\\\\"
  | n => if n < 32 then "\\u00" ++ String.ofList [(n / 16).digitChar, (n % 16).digitChar]
    else String.ofList [c]

def stringify (text : String) : String :=
  "\"" ++ String.join (text.toList.map escaped) ++ "\""

def script (id : ℕ) (command argument : String) : String :=
  "window.atradioAuth(" ++ toString id ++ "," ++ stringify command ++ "," ++
    stringify argument ++ ");true;"

def Client.init : Client O I where
  nextId := 0
  activeOwner := none
  send := none
  waiting := Table.empty
  timers := []

section Calls

variable (s : Client O I)

def detachAuthRuntime [DecidableEq O] (owner : O) (message : Option String) :
    Client O I × List (Effect I) :=
  if s.activeOwner = some owner then
    let rejected := s.waiting.rows.filter fun request => request.owner = some owner
    ({ s with
        send := none
        activeOwner := none
        waiting := s.waiting.filter fun request => request.owner ≠ some owner
        timers := s.timers.filter fun id => rejected.all fun request => request.id ≠ id },
      rejected.map fun request => .settle request.id
        (.reject (message.getD "Sign-in screen restarted. Please retry.")))
  else (s, [])

def prepareAuthRuntime [DecidableEq O] (owner : O) : Client O I × List (Effect I) :=
  if s.activeOwner = some owner then (s, [])
  else
    match s.activeOwner with
    | some active =>
      let (detached, effects) := detachAuthRuntime s active none
      ({ detached with activeOwner := some owner }, effects)
    | none => ({ s with activeOwner := some owner }, [])

def Request.adopt (owner : O) (request : Request O) : Request O :=
  if request.sent then request else { request with owner := some owner, sent := true }

theorem adopt_id (owner : O) (request : Request O) : (request.adopt owner).id = request.id := by
  unfold Request.adopt
  split <;> rfl

def attachAuthRuntime [DecidableEq O] (owner : O) (inject : I) :
    Client O I × List (Effect I) :=
  if s.activeOwner = some owner then
    ({ s with send := some inject, waiting := s.waiting.mapRows (.adopt owner) (adopt_id owner) },
      (s.waiting.rows.filter fun request => !request.sent).map fun request =>
        .inject inject request.id request.script)
  else (s, [])

/-- A promise is settled, its entry deleted and its timer at an end. -/
def settle (id : ℕ) (answer : Answer) : Client O I × List (Effect I) :=
  ({ s with
      waiting := s.waiting.delete id
      timers := s.timers.filter fun other => other ≠ id },
    [.settle id answer])

def receiveAuthMessage (message : Option Message) : Client O I × List (Effect I) :=
  match message with
  | none => (s, [])
  | some message =>
    match message.id.bind s.waiting.get with
    | none => (s, [])
    | some request =>
      settle s request.id (match message.error with
        | some error => if error = "" then .resolve message.result else .reject error
        | none => .resolve message.result)

def request (command argument : String) : Client O I × List (Effect I) :=
  let id := s.nextId + 1
  let text := script id command argument
  ({ s with
      nextId := id
      waiting := s.waiting.put ⟨id, text, s.activeOwner, s.send.isSome⟩
      timers := id :: s.timers },
    s.send.toList.map fun send => .inject send id text)

def timeout (id : ℕ) : Client O I × List (Effect I) :=
  if id ∈ s.timers then settle s id (.reject "Sign-in did not respond. Please retry.")
  else (s, [])

def handle [DecidableEq O] : Event O I → Client O I × List (Effect I)
  | .request command argument => request s command argument
  | .prepare owner => prepareAuthRuntime s owner
  | .attach owner inject => attachAuthRuntime s owner inject
  | .detach owner message => detachAuthRuntime s owner message
  | .message message => receiveAuthMessage s message
  | .timeout id => timeout s id

end Calls

/-! ### What a call keeps -/

section Steps

variable {s : Client O I}

def step [DecidableEq O] (s : Client O I) (e : Event O I) : Client O I := (handle s e).1

def effects [DecidableEq O] (s : Client O I) (e : Event O I) : List (Effect I) := (handle s e).2

def Effect.injected : Effect I → Option ℕ
  | .inject _ id _ => some id
  | .settle _ _ => none

def Effect.settled : Effect I → Option ℕ
  | .inject _ _ _ => none
  | .settle id _ => some id

def injections [DecidableEq O] (s : Client O I) (e : Event O I) : List ℕ :=
  (effects s e).filterMap Effect.injected

def settlements [DecidableEq O] (s : Client O I) (e : Event O I) : List ℕ :=
  (effects s e).filterMap Effect.settled

structure Inv (s : Client O I) : Prop where
  ids : ∀ r ∈ s.waiting.rows, r.id ≤ s.nextId
  timers : ∀ id ∈ s.timers, ∃ r ∈ s.waiting.rows, r.id = id
  owners : ∀ r ∈ s.waiting.rows, ∀ owner, r.owner = some owner → s.activeOwner = some owner
  sent : ∀ r ∈ s.waiting.rows, r.sent = true → r.owner ≠ none
  attached : s.send ≠ none → s.activeOwner ≠ none

theorem Inv.settle (h : Inv s) (id : ℕ) (answer : Answer) : Inv (settle s id answer).1 := by
  have hmem {r : Request O} (hr : r ∈ (s.waiting.delete id).rows) : r ∈ s.waiting.rows :=
    ((Table.mem_delete _ _ _).1 hr).1
  refine ⟨fun r hr => h.ids r (hmem hr), fun other hother => ?_, fun r hr => h.owners r (hmem hr),
    fun r hr => h.sent r (hmem hr), h.attached⟩
  obtain ⟨hother, hne⟩ := List.mem_filter.1 hother
  obtain ⟨r, hr, rfl⟩ := h.timers other hother
  exact ⟨r, (Table.mem_delete _ _ _).2 ⟨hr, of_decide_eq_true hne⟩, rfl⟩

theorem mem_request (h : Inv s) {text : String} {r : Request O} :
    r ∈ (s.waiting.put ⟨s.nextId + 1, text, s.activeOwner, s.send.isSome⟩).rows ↔
      r = ⟨s.nextId + 1, text, s.activeOwner, s.send.isSome⟩ ∨ r ∈ s.waiting.rows :=
  Table.mem_put_new s.waiting fun u hu => Nat.ne_of_lt (Nat.lt_succ_of_le (h.ids u hu))

theorem Inv.request (h : Inv s) (command argument : String) :
    Inv (request s command argument).1 where
  ids := by
    intro r hr
    rcases (mem_request h).1 hr with rfl | hr
    · exact Nat.le_refl _
    · exact Nat.le_succ_of_le (h.ids r hr)
  timers := by
    intro id hid
    rcases List.mem_cons.1 hid with rfl | hid
    · exact ⟨_, (mem_request h).2 (.inl rfl), rfl⟩
    · obtain ⟨r, hr, rfl⟩ := h.timers id hid
      exact ⟨r, (mem_request h).2 (.inr hr), rfl⟩
  owners := by
    intro r hr owner howner
    rcases (mem_request h).1 hr with rfl | hr
    · exact howner
    · exact h.owners r hr owner howner
  sent := by
    intro r hr hsent
    rcases (mem_request h).1 hr with rfl | hr
    · exact h.attached (Option.isSome_iff_ne_none.1 hsent)
    · exact h.sent r hr hsent
  attached := h.attached

variable [DecidableEq O]

theorem Inv.detach (h : Inv s) (owner : O) (message : Option String) :
    Inv (detachAuthRuntime s owner message).1 := by
  unfold detachAuthRuntime
  split
  · rename_i hactive
    have hmem {r : Request O} (hr : r ∈ s.waiting.rows.filter fun r => r.owner ≠ some owner) :
        r ∈ s.waiting.rows ∧ r.owner ≠ some owner := by
      simpa using hr
    refine ⟨fun r hr => h.ids r (hmem hr).1, fun id hid => ?_, fun r hr other hother => ?_,
      fun r hr => h.sent r (hmem hr).1, fun hsend => absurd rfl hsend⟩
    · obtain ⟨hid, hall⟩ := List.mem_filter.1 hid
      obtain ⟨r, hr, rfl⟩ := h.timers id hid
      refine ⟨r, List.mem_filter.2 ⟨hr, ?_⟩, rfl⟩
      refine decide_eq_true fun howner => ?_
      simpa using List.all_eq_true.1 hall r (List.mem_filter.2 ⟨hr, decide_eq_true howner⟩)
    · have heq := h.owners r (hmem hr).1 other hother
      rw [hactive] at heq
      exact absurd (hother.trans heq.symm) (hmem hr).2
  · exact h

theorem detach_active {owner : O} {message : Option String} (h : s.activeOwner = some owner) :
    (detachAuthRuntime s owner message).1.activeOwner = none ∧
      (detachAuthRuntime s owner message).1.send = none := by
  unfold detachAuthRuntime
  rw [if_pos h]
  exact ⟨rfl, rfl⟩

theorem Inv.prepare (h : Inv s) (owner : O) : Inv (prepareAuthRuntime s owner).1 := by
  -- nobody owns a waiting request while no owner is active
  have hprepare {s : Client O I} (h : Inv s) (hactive : s.activeOwner = none) :
      Inv { s with activeOwner := some owner } := by
    refine ⟨h.ids, h.timers, fun r hr other hother => ?_, h.sent, fun _ => nofun⟩
    cases hactive.symm.trans (h.owners r hr other hother)
  unfold prepareAuthRuntime
  split
  · exact h
  · split
    · rename_i active hactive
      exact hprepare (h.detach active none) (detach_active hactive).1
    · exact hprepare h ‹_›

theorem Inv.attach (h : Inv s) (owner : O) (inject : I) :
    Inv (attachAuthRuntime s owner inject).1 := by
  unfold attachAuthRuntime
  split
  · rename_i hactive
    have hmem {r : Request O} (hr : r ∈ s.waiting.rows.map (.adopt owner)) :
        ∃ u ∈ s.waiting.rows, r = u.adopt owner := by
      obtain ⟨u, hu, rfl⟩ := List.mem_map.1 hr
      exact ⟨u, hu, rfl⟩
    refine ⟨fun r hr => ?_, fun id hid => ?_, fun r hr other hother => ?_, fun r hr hsent => ?_,
      fun _ => ?_⟩
    · obtain ⟨u, hu, rfl⟩ := hmem hr
      rw [adopt_id]
      exact h.ids u hu
    · obtain ⟨u, hu, rfl⟩ := h.timers id hid
      exact ⟨u.adopt owner, List.mem_map_of_mem hu, adopt_id owner u⟩
    · obtain ⟨u, hu, rfl⟩ := hmem hr
      unfold Request.adopt at hother
      split at hother
      · exact h.owners u hu other hother
      · rw [← Option.some.inj hother]
        exact hactive
    · obtain ⟨u, hu, rfl⟩ := hmem hr
      unfold Request.adopt
      split
      · exact h.sent u hu ‹_›
      · exact Option.some_ne_none _
    · rw [hactive]
      exact Option.some_ne_none _
  · exact h

theorem inv_step (h : Inv s) (e : Event O I) : Inv (step s e) := by
  cases e with
  | request command argument => exact h.request command argument
  | prepare owner => exact h.prepare owner
  | attach owner inject => exact h.attach owner inject
  | detach owner message => exact h.detach owner message
  | message message =>
    simp only [step, handle, receiveAuthMessage]
    split
    · exact h
    · split
      · exact h
      · exact h.settle _ _
  | timeout id =>
    simp only [step, handle, timeout]
    split
    · exact h.settle id _
    · exact h

end Steps

/-! ### What a call puts out -/

section Once

variable {s : Client O I}

/-- A request that has not been made or not been sent. -/
def Client.Unsent (s : Client O I) (id : ℕ) : Prop :=
  s.nextId < id ∨ ∃ r ∈ s.waiting.rows, r.id = id ∧ r.sent = false

/-- A request that has not been made or not been answered. -/
def Client.Open (s : Client O I) (id : ℕ) : Prop :=
  s.nextId < id ∨ ∃ r ∈ s.waiting.rows, r.id = id

/-- A call that makes no request sends some that were not sent, and takes some out of `waiting`. -/
structure Called (s : Client O I) (result : Client O I × List (Effect I))
    (sent out : List (Request O)) : Prop where
  injections : result.2.filterMap Effect.injected = sent.map Request.id
  settlements : result.2.filterMap Effect.settled = out.map Request.id
  nextId : result.1.nextId = s.nextId
  injected : sent.Sublist (s.waiting.rows.filter fun r => !r.sent)
  settled : out.Sublist s.waiting.rows
  rows : ∀ u ∈ result.1.waiting.rows, ∃ v ∈ s.waiting.rows, v.id = u.id ∧ v ∉ out ∧
    (u = v ∧ v ∉ sent ∨ u.sent = true ∧ u.owner = s.activeOwner)

theorem Called.same (s : Client O I) : Called s (s, []) [] [] where
  injections := rfl
  settlements := rfl
  nextId := rfl
  injected := List.nil_sublist _
  settled := List.nil_sublist _
  rows := fun u hu => ⟨u, hu, rfl, List.not_mem_nil, .inl ⟨rfl, List.not_mem_nil⟩⟩

theorem Called.spends_sent (hI : Inv s) {result : Client O I × List (Effect I)}
    {sent out : List (Request O)} (h : Called s result sent out) :
    Spends Client.Unsent s result.1 (result.2.filterMap Effect.injected) := by
  have hrow : ∀ r ∈ sent, r ∈ s.waiting.rows ∧ r.sent = false := by
    intro r hr
    simpa using h.injected.subset hr
  rw [h.injections]
  refine ⟨?_, fun id hid => ?_, fun id hid => ?_, fun id hid => ?_⟩
  · exact s.waiting.nodup.sublist ((h.injected.trans List.filter_sublist).map _)
  · obtain ⟨r, hr, rfl⟩ := List.mem_map.1 hid
    exact .inr ⟨r, (hrow r hr).1, rfl, (hrow r hr).2⟩
  · obtain ⟨r, hr, rfl⟩ := List.mem_map.1 hid
    rintro (hlt | ⟨u, hu, hid, hsent⟩)
    · exact absurd (hI.ids r (hrow r hr).1) (Nat.not_le.2 (h.nextId ▸ hlt))
    · obtain ⟨v, hv, hvid, -, ⟨rfl, hout⟩ | ⟨hu, -⟩⟩ := h.rows u hu
      · exact hout (s.waiting.eq_of_key hv (hrow r hr).1 hid ▸ hr)
      · cases hsent.symm.trans hu
  · rcases hid with hlt | ⟨u, hu, rfl, hsent⟩
    · exact .inl (h.nextId ▸ hlt)
    · obtain ⟨v, hv, hvid, -, ⟨rfl, -⟩ | ⟨hu, -⟩⟩ := h.rows u hu
      · exact .inr ⟨u, hv, rfl, hsent⟩
      · cases hsent.symm.trans hu

theorem Called.spends_settled (hI : Inv s) {result : Client O I × List (Effect I)}
    {sent out : List (Request O)} (h : Called s result sent out) :
    Spends Client.Open s result.1 (result.2.filterMap Effect.settled) := by
  rw [h.settlements]
  refine ⟨s.waiting.nodup.sublist (h.settled.map _), fun id hid => ?_, fun id hid => ?_,
    fun id hid => ?_⟩
  · obtain ⟨r, hr, rfl⟩ := List.mem_map.1 hid
    exact .inr ⟨r, h.settled.subset hr, rfl⟩
  · obtain ⟨r, hr, rfl⟩ := List.mem_map.1 hid
    rintro (hlt | ⟨u, hu, hid⟩)
    · exact absurd (hI.ids r (h.settled.subset hr)) (Nat.not_le.2 (h.nextId ▸ hlt))
    · obtain ⟨v, hv, hvid, hout, -⟩ := h.rows u hu
      have heq := s.waiting.eq_of_key hv (h.settled.subset hr) (hvid.trans hid)
      exact hout (heq ▸ hr)
  · rcases hid with hlt | ⟨u, hu, rfl⟩
    · exact .inl (h.nextId ▸ hlt)
    · obtain ⟨v, hv, hvid, -⟩ := h.rows u hu
      exact .inr ⟨v, hv, hvid⟩

/-- A call that rejects or resolves some of the requests and drops them. -/
theorem called_settling {s' : Client O I} {rs : List (Request O)} (answer : Request O → Answer)
    (hrs : rs.Sublist s.waiting.rows)
    (hrows : ∀ u ∈ s'.waiting.rows, u ∈ s.waiting.rows ∧ u ∉ rs) (hid : s'.nextId = s.nextId) :
    Called s (s', rs.map fun r => .settle r.id (answer r)) [] rs where
  injections := by
    rw [List.filterMap_map]
    exact List.filterMap_eq_nil_iff.2 fun _ _ => rfl
  settlements := by
    rw [List.filterMap_map, ← List.filterMap_eq_map]
    rfl
  nextId := hid
  injected := List.nil_sublist _
  settled := hrs
  rows := fun u hu =>
    ⟨u, (hrows u hu).1, rfl, (hrows u hu).2, .inl ⟨rfl, List.not_mem_nil⟩⟩

theorem settle_called {r : Request O} (hr : r ∈ s.waiting.rows) (answer : Answer) :
    Called s (settle s r.id answer) [] [r] := by
  have hrows : ∀ u ∈ (settle s r.id answer).1.waiting.rows, u ∈ s.waiting.rows ∧ u ∉ [r] := by
    intro u hu
    obtain ⟨hu, hne⟩ := (Table.mem_delete _ _ _).1 hu
    exact ⟨hu, fun h => hne (List.mem_singleton.1 h ▸ rfl)⟩
  exact called_settling (fun _ => answer) (List.singleton_sublist.2 hr) hrows rfl

/-- The request that is made may have been free before. -/
theorem mem_request_free (hI : Inv s) {text : String} {r : Request O}
    (hr : r ∈ (s.waiting.put ⟨s.nextId + 1, text, s.activeOwner, s.send.isSome⟩).rows) :
    s.nextId < r.id ∨ r ∈ s.waiting.rows := by
  rcases (mem_request hI).1 hr with rfl | hr
  · exact .inl (Nat.lt_succ_self _)
  · exact .inr hr

theorem request_shrinks (hI : Inv s) (command argument : String) (id : ℕ) :
    ((request s command argument).1.Unsent id → s.Unsent id) ∧
      ((request s command argument).1.Open id → s.Open id) := by
  constructor
  · rintro (hlt | ⟨u, hu, rfl, hsent⟩)
    · exact .inl (Nat.lt_of_succ_lt hlt)
    · exact (mem_request_free hI hu).imp_right fun hu => ⟨u, hu, rfl, hsent⟩
  · rintro (hlt | ⟨u, hu, rfl⟩)
    · exact .inl (Nat.lt_of_succ_lt hlt)
    · exact (mem_request_free hI hu).imp_right fun hu => ⟨u, hu, rfl⟩

theorem request_spends (hI : Inv s) (command argument : String) :
    Spends Client.Unsent s (request s command argument).1
        ((request s command argument).2.filterMap Effect.injected) ∧
      Spends Client.Open s (request s command argument).1
        ((request s command argument).2.filterMap Effect.settled) := by
  have hshrinks := request_shrinks hI command argument
  cases hsend : s.send with
  | none =>
    have hout : (request s command argument).2 = [] := by
      simp only [request, hsend, Option.toList_none, List.map_nil]
    rw [hout]
    exact ⟨.of_nil fun id => (hshrinks id).1, .of_nil fun id => (hshrinks id).2⟩
  | some send =>
    have hout : (request s command argument).2 =
        [.inject send (s.nextId + 1) (script (s.nextId + 1) command argument)] := by
      simp only [request, hsend, Option.toList_some, List.map_cons, List.map_nil]
    rw [hout]
    refine ⟨⟨List.nodup_singleton _, fun id hid => ?_, fun id hid => ?_,
      fun id => (hshrinks id).1⟩, .of_nil fun id => (hshrinks id).2⟩
    · exact List.mem_singleton.1 hid ▸ .inl (Nat.lt_succ_self _)
    · obtain rfl := List.mem_singleton.1 hid
      rintro (hlt | ⟨u, hu, hid, hsent⟩)
      · exact Nat.lt_irrefl _ hlt
      · rcases (mem_request hI).1 hu with rfl | hu
        · simp [hsend] at hsent
        · exact absurd (hI.ids u hu) (Nat.not_le.2 (hid ▸ Nat.lt_succ_self _))

theorem receive_called (s : Client O I) (message : Option Message) :
    ∃ out, Called s (receiveAuthMessage s message) [] out := by
  unfold receiveAuthMessage
  split
  · exact ⟨[], .same s⟩
  · split
    · exact ⟨[], .same s⟩
    · rename_i request hget
      obtain ⟨id, -, hget⟩ := Option.bind_eq_some_iff.1 hget
      have hmem := ((Table.get_eq_some _ _ _).1 hget).1
      exact ⟨[request], settle_called hmem _⟩

theorem timeout_called (hI : Inv s) (id : ℕ) : ∃ out, Called s (timeout s id) [] out := by
  unfold timeout
  split
  · rename_i hid
    obtain ⟨r, hr, rfl⟩ := hI.timers id hid
    exact ⟨[r], settle_called hr _⟩
  · exact ⟨[], .same s⟩

variable [DecidableEq O]

theorem detach_called (s : Client O I) (owner : O) (message : Option String) :
    ∃ out, Called s (detachAuthRuntime s owner message) [] out := by
  unfold detachAuthRuntime
  split
  · refine ⟨_, called_settling (fun _ => _) List.filter_sublist (fun u hu => ?_) rfl⟩
    obtain ⟨hu, hne⟩ := List.mem_filter.1 hu
    exact ⟨hu, fun hmem => of_decide_eq_true hne (of_decide_eq_true (List.mem_filter.1 hmem).2)⟩
  · exact ⟨[], .same s⟩

theorem prepare_called (s : Client O I) (owner : O) :
    ∃ out, Called s (prepareAuthRuntime s owner) [] out := by
  unfold prepareAuthRuntime
  split
  · exact ⟨[], .same s⟩
  · split
    · rename_i active _
      obtain ⟨out, h⟩ := detach_called s active none
      exact ⟨out, h.injections, h.settlements, h.nextId, h.injected, h.settled, h.rows⟩
    · have h := Called.same s
      exact ⟨[], h.injections, h.settlements, h.nextId, h.injected, h.settled, h.rows⟩

theorem attach_called (s : Client O I) (owner : O) (inject : I) :
    ∃ sent, Called s (attachAuthRuntime s owner inject) sent [] := by
  unfold attachAuthRuntime
  split
  · rename_i hactive
    refine ⟨s.waiting.rows.filter fun r => !r.sent, ?_, ?_, rfl, List.Sublist.refl _,
      List.nil_sublist _, fun u hu => ?_⟩
    · rw [List.filterMap_map, ← List.filterMap_eq_map]
      rfl
    · rw [List.filterMap_map]
      exact List.filterMap_eq_nil_iff.2 fun _ _ => rfl
    · obtain ⟨v, hv, rfl⟩ := List.mem_map.1 hu
      refine ⟨v, hv, (adopt_id owner v).symm, List.not_mem_nil, ?_⟩
      unfold Request.adopt
      split
      · rename_i hsent
        exact .inl ⟨rfl, fun hmem => by simp [hsent] at hmem⟩
      · exact .inr ⟨rfl, hactive.symm⟩
  · exact ⟨[], .same s⟩

theorem step_spends (hI : Inv s) (e : Event O I) :
    Spends Client.Unsent s (step s e) (injections s e) ∧
      Spends Client.Open s (step s e) (settlements s e) := by
  have hcalled {sent out : List (Request O)} (h : Called s (handle s e) sent out) :
      Spends Client.Unsent s (step s e) (injections s e) ∧
        Spends Client.Open s (step s e) (settlements s e) :=
    ⟨h.spends_sent hI, h.spends_settled hI⟩
  cases e with
  | request command argument => exact request_spends hI command argument
  | prepare owner =>
    obtain ⟨out, h⟩ := prepare_called s owner
    exact hcalled h
  | attach owner inject =>
    obtain ⟨sent, h⟩ := attach_called s owner inject
    exact hcalled h
  | detach owner message =>
    obtain ⟨out, h⟩ := detach_called s owner message
    exact hcalled h
  | message message =>
    obtain ⟨out, h⟩ := receive_called s message
    exact hcalled h
  | timeout id =>
    obtain ⟨out, h⟩ := timeout_called hI id
    exact hcalled h

end Once

/-! ### Whose requests they are -/

section Owners

variable {s : Client O I} {es : List (Event O I)} {owner : O}

def Event.releases (owner : O) : Event O I → Prop
  | .prepare other => other ≠ owner
  | .detach other _ => other = owner
  | _ => False

/-- Since the owner was prepared it was not detached, and no other owner was prepared. -/
def Prepared (owner : O) : List (Event O I) → Prop :=
  Since (fun _ e => e = .prepare owner) fun e => ¬ e.releases owner

/-- The runtime is the last one that the prepared owner was attached with. -/
def AttachedBy (owner : O) (runtime : I) : List (Event O I) → Prop :=
  Since (fun ks e => Prepared owner ks ∧ e = .attach owner runtime)
    fun e => ¬ e.releases owner ∧ ∀ other, e ≠ .attach owner other

theorem not_prepared_detach (owner : O) (message : Option String) (es : List (Event O I)) :
    ¬ Prepared owner (es ++ [.detach owner message]) := by
  intro h
  rcases since_snoc.1 h with h | ⟨hreleases, -⟩
  · cases h
  · exact hreleases rfl

variable [DecidableEq O]

/-- The request was made or sent while the owner was prepared. -/
def Owned (owner : O) (id : ℕ) : List (Event O I) → Prop :=
  Since (fun ks e => Prepared owner ks ∧
      ((∃ command argument, e = .request command argument) ∧
          id = (run step Client.init ks).nextId + 1 ∨
        id ∈ injections (run step Client.init ks) e))
    fun _ => True

theorem detach_activeOwner (other : O) (message : Option String) :
    (detachAuthRuntime s other message).1.activeOwner = some owner ↔
      other ≠ owner ∧ s.activeOwner = some owner := by
  unfold detachAuthRuntime
  split
  · rename_i hactive
    refine iff_of_false nofun fun ⟨hne, h⟩ => hne ?_
    exact Option.some.inj (hactive.symm.trans h)
  · rename_i hactive
    refine (and_iff_right_of_imp fun h hne => ?_).symm
    exact hactive (hne.symm ▸ h)

theorem prepare_activeOwner (s : Client O I) (owner : O) :
    (prepareAuthRuntime s owner).1.activeOwner = some owner := by
  unfold prepareAuthRuntime
  split
  · assumption
  · split <;> rfl

theorem step_activeOwner (s : Client O I) (e : Event O I) (owner : O) :
    (step s e).activeOwner = some owner ↔
      e = .prepare owner ∨ ¬ e.releases owner ∧ s.activeOwner = some owner := by
  have hkept (h : (step s e).activeOwner = s.activeOwner) (hprepare : e ≠ .prepare owner)
      (hreleases : ¬ e.releases owner) : (step s e).activeOwner = some owner ↔
        e = .prepare owner ∨ ¬ e.releases owner ∧ s.activeOwner = some owner := by
    rw [h, or_iff_right hprepare, and_iff_right hreleases]
  cases e with
  | prepare other =>
    have hactive : (step s (.prepare other)).activeOwner = some other := prepare_activeOwner s other
    rw [hactive, Option.some.injEq, Event.prepare.injEq]
    exact ⟨.inl, fun h => h.elim id fun h => Decidable.not_not.1 h.1⟩
  | detach other message =>
    rw [or_iff_right (by simp)]
    exact detach_activeOwner other message
  | attach other inject =>
    refine hkept ?_ (by simp) not_false
    simp only [step, handle, attachAuthRuntime]
    split <;> rfl
  | request command argument => exact hkept rfl (by simp) not_false
  | message message =>
    refine hkept ?_ (by simp) not_false
    simp only [step, handle, receiveAuthMessage]
    split
    · rfl
    · split <;> rfl
  | timeout id =>
    refine hkept ?_ (by simp) not_false
    simp only [step, handle, timeout]
    split <;> rfl

/-- What the history of a client says of its state. -/
structure Past (es : List (Event O I)) (s : Client O I) : Prop where
  inv : Inv s
  active : ∀ owner, s.activeOwner = some owner ↔ Prepared owner es
  send : ∀ owner runtime, s.activeOwner = some owner → s.send = some runtime →
    AttachedBy owner runtime es
  made : ∀ owner id, Owned owner id es → id ≤ s.nextId
  owned : ∀ r ∈ s.waiting.rows, ∀ owner, Owned owner r.id es → r.owner = some owner

theorem past_init : Past ([] : List (Event O I)) Client.init where
  inv := {
    ids := List.forall_mem_nil _
    timers := List.forall_mem_nil _
    owners := List.forall_mem_nil _
    sent := List.forall_mem_nil _
    attached := fun h => absurd rfl h }
  active := fun _ => iff_of_false nofun not_since_nil
  send := fun _ _ h => nomatch h
  made := fun _ _ h => absurd h not_since_nil
  owned := List.forall_mem_nil _

theorem send_cases (h : Inv s) (e : Event O I) {runtime : I}
    (hsend : (step s e).send = some runtime) :
    (∃ owner, s.activeOwner = some owner ∧ e = .attach owner runtime) ∨
      s.send = some runtime ∧ (step s e).activeOwner = s.activeOwner ∧
        ∀ owner other, s.activeOwner = some owner → e ≠ .attach owner other := by
  cases e with
  | prepare other =>
    revert hsend
    simp only [step, handle, prepareAuthRuntime]
    split
    · exact fun hsend => .inr ⟨hsend, rfl, by simp⟩
    · split
      · rename_i active hactive
        intro hsend
        cases (detach_active hactive).2.symm.trans hsend
      · rename_i hactive
        intro hsend
        exact absurd hactive (h.attached (Option.ne_none_iff_exists'.2 ⟨runtime, hsend⟩))
  | attach other inject =>
    revert hsend
    simp only [step, handle, attachAuthRuntime]
    split
    · rename_i hactive
      intro hsend
      cases hsend
      exact .inl ⟨other, hactive, rfl⟩
    · rename_i hactive
      refine fun hsend => .inr ⟨hsend, rfl, fun owner _ howner heq => hactive ?_⟩
      cases heq
      exact howner
  | detach other message =>
    revert hsend
    simp only [step, handle, detachAuthRuntime]
    split
    · exact fun hsend => by cases hsend
    · exact fun hsend => .inr ⟨hsend, rfl, by simp⟩
  | request command argument => exact .inr ⟨hsend, rfl, by simp⟩
  | message message =>
    revert hsend
    simp only [step, handle, receiveAuthMessage]
    split
    · exact fun hsend => .inr ⟨hsend, rfl, by simp⟩
    · split <;> exact fun hsend => .inr ⟨hsend, rfl, by simp⟩
  | timeout id =>
    revert hsend
    simp only [step, handle, timeout]
    split <;> exact fun hsend => .inr ⟨hsend, rfl, by simp⟩

/-- Who is sent scripts was attached, and not left since. -/
theorem send_step (h : Past es s) (e : Event O I) {runtime : I}
    (hactive : (step s e).activeOwner = some owner) (hsend : (step s e).send = some runtime) :
    AttachedBy owner runtime (es ++ [e]) := by
  have hreleases : ¬ e.releases owner := by
    rcases (step_activeOwner s e owner).1 hactive with rfl | ⟨hreleases, -⟩
    · exact fun hne => hne rfl
    · exact hreleases
  rcases send_cases h.inv e hsend with ⟨other, hother, rfl⟩ | ⟨hsend, hsame, hattach⟩
  · obtain ⟨-, howner⟩ := ((step_activeOwner s _ owner).1 hactive).resolve_left nofun
    obtain rfl := Option.some.inj (howner.symm.trans hother)
    exact since_snoc.2 (.inl ⟨(h.active owner).1 howner, rfl⟩)
  · have howner := hsame.symm.trans hactive
    exact since_snoc.2 (.inr ⟨⟨hreleases, fun other => hattach owner other howner⟩,
      h.send owner runtime howner hsend⟩)

/-- Where a waiting request comes from. -/
theorem rows_step (h : Inv s) (e : Event O I) {r : Request O}
    (hr : r ∈ (step s e).waiting.rows) :
    r ∈ s.waiting.rows ∧ r.id ∉ injections s e ∨
      r.owner = s.activeOwner ∧ (r.id = s.nextId + 1 ∨ ∃ u ∈ s.waiting.rows, u.id = r.id) := by
  have hcalled {sent out : List (Request O)} (hc : Called s (handle s e) sent out) :
      r ∈ s.waiting.rows ∧ r.id ∉ injections s e ∨
        r.owner = s.activeOwner ∧ (r.id = s.nextId + 1 ∨ ∃ u ∈ s.waiting.rows, u.id = r.id) := by
    obtain ⟨v, hv, hid, -, ⟨rfl, hsent⟩ | ⟨-, howner⟩⟩ := hc.rows r hr
    · refine .inl ⟨hv, fun hmem => ?_⟩
      have hmem : r.id ∈ sent.map Request.id := hc.injections ▸ hmem
      obtain ⟨u, hu, hid⟩ := List.mem_map.1 hmem
      have hu' := (List.mem_filter.1 (hc.injected.subset hu)).1
      exact hsent (s.waiting.eq_of_key hu' hv hid ▸ hu)
    · exact .inr ⟨howner, .inr ⟨v, hv, hid⟩⟩
  cases e with
  | request command argument =>
    rcases (mem_request h).1 hr with rfl | hr
    · exact .inr ⟨rfl, .inl rfl⟩
    · refine .inl ⟨hr, fun hmem => ?_⟩
      obtain ⟨effect, heffect, hid⟩ := List.mem_filterMap.1 hmem
      obtain ⟨send, -, rfl⟩ := List.mem_map.1 heffect
      have hid : s.nextId + 1 = r.id := Option.some.inj hid
      exact Nat.not_succ_le_self _ (hid ▸ h.ids r hr)
  | prepare other => exact (prepare_called s other).elim fun _ => hcalled
  | attach other inject => exact (attach_called s other inject).elim fun _ => hcalled
  | detach other message => exact (detach_called s other message).elim fun _ => hcalled
  | message message => exact (receive_called s message).elim fun _ => hcalled
  | timeout id => exact (timeout_called h id).elim fun _ => hcalled

theorem nextId_step (h : Inv s) (e : Event O I) :
    s.nextId ≤ (step s e).nextId ∧
      ((∃ command argument, e = .request command argument) →
        (step s e).nextId = s.nextId + 1) := by
  have hcalled {sent out : List (Request O)} (hc : Called s (handle s e) sent out) :
      s.nextId ≤ (step s e).nextId := Nat.le_of_eq hc.nextId.symm
  cases e with
  | request command argument => exact ⟨Nat.le_succ _, fun _ => rfl⟩
  | prepare other => exact ⟨(prepare_called s other).elim fun _ => hcalled, nofun⟩
  | attach other inject => exact ⟨(attach_called s other inject).elim fun _ => hcalled, nofun⟩
  | detach other message => exact ⟨(detach_called s other message).elim fun _ => hcalled, nofun⟩
  | message message => exact ⟨(receive_called s message).elim fun _ => hcalled, nofun⟩
  | timeout id => exact ⟨(timeout_called h id).elim fun _ => hcalled, nofun⟩

theorem past_step (h : Past es (run step Client.init es)) (e : Event O I) :
    Past (es ++ [e]) (step (run step Client.init es) e) where
  inv := inv_step h.inv e
  active := by
    intro owner
    rw [step_activeOwner, Prepared, since_snoc, h.active owner]
    rfl
  send := fun _ _ => send_step h e
  made := by
    intro owner id howned
    obtain ⟨hle, hmade⟩ := nextId_step h.inv e
    rcases since_snoc.1 howned with ⟨-, ⟨hrequest, rfl⟩ | hinjected⟩ | ⟨-, howned⟩
    · exact Nat.le_of_eq (hmade hrequest).symm
    · have hspent := (step_spends h.inv e).1.spent id hinjected
      exact Nat.not_lt.1 fun hlt => hspent (.inl hlt)
    · exact Nat.le_trans (h.made owner id howned) hle
  owned := by
    intro r hr owner howned
    rcases rows_step h.inv e hr with ⟨hr, hinjected⟩ | ⟨howner, hid⟩
    · rcases since_snoc.1 howned with ⟨-, ⟨-, hid⟩ | hmem⟩ | ⟨-, howned⟩
      · exact absurd (h.inv.ids r hr) (hid ▸ Nat.not_succ_le_self _)
      · exact absurd hmem hinjected
      · exact h.owned r hr owner howned
    · rw [howner]
      rcases since_snoc.1 howned with ⟨hprepared, -⟩ | ⟨-, howned⟩
      · exact (h.active owner).2 hprepared
      · rcases hid with hid | ⟨u, hu, hid⟩
        · exact absurd (h.made owner r.id howned) (hid ▸ Nat.not_succ_le_self _)
        · exact h.inv.owners u hu owner (h.owned u hu owner (hid ▸ howned))

theorem past_run (es : List (Event O I)) : Past es (run step Client.init es) :=
  run_history past_init (fun _ e h => past_step h e) es

/-- Scripts go to the runtime that is sent to when the call has ended. -/
theorem send_of_inject (h : Inv s) {e : Event O I} {runtime : I} {id : ℕ} {text : String}
    (hinject : .inject runtime id text ∈ effects s e) : (step s e).send = some runtime := by
  have hcalled {out : List (Request O)} (hc : Called s (handle s e) [] out) :
      (step s e).send = some runtime := by
    have hmem : id ∈ (handle s e).2.filterMap Effect.injected :=
      List.mem_filterMap.2 ⟨_, hinject, rfl⟩
    rw [hc.injections] at hmem
    cases hmem
  cases e with
  | request command argument =>
    obtain ⟨send, hsend, heq⟩ := List.mem_map.1 hinject
    cases heq
    exact Option.mem_toList.1 hsend
  | attach other inject =>
    revert hinject
    simp only [effects, step, handle, attachAuthRuntime]
    split
    · intro hinject
      obtain ⟨r, -, heq⟩ := List.mem_map.1 hinject
      cases heq
      rfl
    · exact fun hinject => (List.not_mem_nil hinject).elim
  | prepare other => exact (prepare_called s other).elim fun _ => hcalled
  | detach other message => exact (detach_called s other message).elim fun _ => hcalled
  | message message => exact (receive_called s message).elim fun _ => hcalled
  | timeout id => exact (timeout_called h id).elim fun _ => hcalled

theorem id_of_settle {message : Option Message} {id : ℕ} {answer : Answer}
    (h : .settle id answer ∈ effects s (.message message)) : ∃ m ∈ message, m.id = some id := by
  revert h
  simp only [effects, handle, receiveAuthMessage]
  split
  · exact fun h => (List.not_mem_nil h).elim
  · rename_i m
    split
    · exact fun h => (List.not_mem_nil h).elim
    · rename_i request hget
      intro h
      cases List.mem_singleton.1 h
      obtain ⟨key, hkey, hget⟩ := Option.bind_eq_some_iff.1 hget
      exact ⟨m, rfl, hkey.trans (congrArg some (Table.key_of_get hget).symm)⟩

/-- Whatever the order of the calls, a request is sent at most once, and to an attached runtime; it
is settled at most once, and by a message with its id only; and it does not wait any longer than its
owner is prepared. -/
theorem requests_once (es : List (Event O I)) :
    (trace step injections Client.init es).Nodup ∧
      (trace step settlements Client.init es).Nodup ∧
      (∀ fs e gs, es = fs ++ e :: gs →
        (∀ runtime id text, .inject runtime id text ∈ effects (run step Client.init fs) e →
          ∃ owner, AttachedBy owner runtime (fs ++ [e])) ∧
        (∀ message, e = .message message → ∀ id answer,
          .settle id answer ∈ effects (run step Client.init fs) e →
            ∃ m ∈ message, m.id = some id) ∧
        ∀ owner message, e = .detach owner message → ¬ Prepared owner (fs ++ [e])) ∧
      ∀ owner, ¬ Prepared owner es →
        ∀ r ∈ (run step Client.init es).waiting.rows, ¬ Owned owner r.id es := by
  have hinit := (past_init (O := O) (I := I)).inv
  have hsent : (trace step injections Client.init es).Nodup ∧
      ∀ id ∈ trace step injections Client.init es, Client.init.Unsent id :=
    trace_spends (I := Inv) (fun _ e h => inv_step h e) (fun _ e h => (step_spends h e).1) hinit es
  have hsettled : (trace step settlements Client.init es).Nodup ∧
      ∀ id ∈ trace step settlements Client.init es, Client.init.Open id :=
    trace_spends (I := Inv) (fun _ e h => inv_step h e) (fun _ e h => (step_spends h e).2) hinit es
  refine ⟨hsent.1, hsettled.1, fun fs e _ _ => ⟨fun runtime id text hinject => ?_, ?_, ?_⟩,
    fun owner hprepared r hr howned => ?_⟩
  · have hpast := past_run fs
    have hsend := send_of_inject hpast.inv hinject
    have hactive := (inv_step hpast.inv e).attached (hsend ▸ nofun)
    obtain ⟨owner, howner⟩ := Option.ne_none_iff_exists'.1 hactive
    exact ⟨owner, send_step hpast e howner hsend⟩
  · rintro message rfl id answer hsettle
    exact id_of_settle hsettle
  · rintro owner message rfl
    exact not_prepared_detach owner message fs
  · have hpast := past_run es
    have hactive := hpast.inv.owners r hr owner (hpast.owned r hr owner howned)
    exact hprepared ((hpast.active owner).1 hactive)

end Owners

end Atradio.App.AuthClient
