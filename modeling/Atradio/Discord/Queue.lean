import Atradio.Lib.Run

/-! # The queue of the Discord mirror (`discord/firehose.ts`)

Embeds are queued and posted in batches on a timer. A tick does not wait for the posts of the
earlier ticks, and a batch that is rate limited goes back to the front of the queue. -/

namespace Atradio.Discord
open Atradio.Lib

def EMBEDS_PER_MESSAGE : ℕ := 10

def MAX_QUEUE : ℕ := 5000

/-- The variables of the module, the batches whose posts await their responses in the order of
their ticks, and the embeds that were taken into the queue and those that Discord accepted. -/
structure Firehose (E : Type) where
  queue : List E := []
  timer : Bool := false
  dropped : ℕ := 0
  flights : List (List E) := []
  enqueued : List E := []
  accepted : List E := []

/-- A status that is neither a success nor 429, or no response, loses the batch. -/
inductive Response where
  | ok
  | rateLimited
  | failed
  deriving DecidableEq

inductive Event (E : Type) where
  | enqueue (embed : E)
  | tick
  | respond (flight : ℕ) (response : Response)

namespace Firehose

variable {E : Type}

def enqueueFirehoseEmbed (url : String) (embed : E) (f : Firehose E) : Firehose E :=
  if url = "" then f
  else if MAX_QUEUE ≤ f.queue.length then { f with dropped := f.dropped + 1 }
  else
    { f with queue := f.queue ++ [embed], enqueued := f.enqueued ++ [embed], timer := true }

/-- `flush` up to its await. -/
def flush (f : Firehose E) : Firehose E :=
  if f.queue.length = 0 then f
  else
    { f with queue := f.queue.drop EMBEDS_PER_MESSAGE
             flights := f.flights ++ [f.queue.take EMBEDS_PER_MESSAGE] }

/-- `flush` from the response to its post. -/
def settle (response : Response) (embeds : List E) (f : Firehose E) : Firehose E :=
  match response with
  | .ok => { f with accepted := f.accepted ++ embeds }
  | .rateLimited => { f with queue := embeds ++ f.queue }
  | .failed => f

def respond (flight : ℕ) (response : Response) (f : Firehose E) : Firehose E :=
  match f.flights[flight]? with
  | some embeds => settle response embeds { f with flights := f.flights.eraseIdx flight }
  | none => f

def step (url : String) (f : Firehose E) : Event E → Firehose E
  | .enqueue embed => f.enqueueFirehoseEmbed url embed
  | .tick => if f.timer then f.flush else f
  | .respond flight response => f.respond flight response

/-! ### No embed is lost or doubled -/

/-- Responses are successes or 429. -/
def Answered (_ : Firehose E) : Event E → Prop
  | .respond _ response => response ≠ .failed
  | _ => True

instance (f : Firehose E) : DecidablePred f.Answered
  | .enqueue _ => isTrue trivial
  | .tick => isTrue trivial
  | .respond _ response => inferInstanceAs (Decidable (response ≠ .failed))

def Kept (f : Firehose E) : Prop :=
  (f.accepted ++ (f.flights.flatten ++ f.queue)).Perm f.enqueued

theorem flatten_eraseIdx_perm {batches : List (List E)} {i : ℕ} {embeds : List E}
    (h : batches[i]? = some embeds) :
    (embeds ++ (batches.eraseIdx i).flatten).Perm batches.flatten := by
  induction batches generalizing i with
  | nil => cases h
  | cons batch batches ih =>
    cases i with
    | zero =>
      obtain rfl := Option.some.inj h
      exact List.Perm.refl _
    | succ i =>
      rw [List.eraseIdx_cons_succ, List.flatten_cons, List.flatten_cons]
      refine List.perm_append_comm_assoc embeds batch _ |>.trans ?_
      exact (ih h).append_left batch

theorem step_kept {url : String} {f : Firehose E} {e : Event E} (h : Kept f)
    (he : f.Answered e) : Kept (f.step url e) := by
  unfold Kept at h
  cases e with
  | enqueue embed =>
    show Kept (f.enqueueFirehoseEmbed url embed)
    unfold enqueueFirehoseEmbed
    split
    · exact h
    split
    · exact h
    · unfold Kept
      dsimp only
      rw [← List.append_assoc, ← List.append_assoc]
      rw [← List.append_assoc] at h
      exact h.append_right [embed]
  | tick =>
    show Kept (if f.timer then f.flush else f)
    unfold flush
    split
    · split
      · exact h
      · unfold Kept
        dsimp only
        rw [List.flatten_append, List.flatten_singleton, List.append_assoc,
          List.take_append_drop]
        exact h
    · exact h
  | respond flight response =>
    show Kept (f.respond flight response)
    unfold respond
    cases hf : f.flights[flight]? with
    | none => exact h
    | some embeds =>
      have hflat := flatten_eraseIdx_perm hf
      cases response with
      | ok =>
        refine List.Perm.trans ?_ h
        show ((f.accepted ++ embeds) ++ ((f.flights.eraseIdx flight).flatten ++ f.queue)).Perm _
        rw [List.append_assoc, ← List.append_assoc embeds]
        exact (hflat.append_right f.queue).append_left f.accepted
      | rateLimited =>
        refine List.Perm.trans ?_ h
        show (f.accepted ++ ((f.flights.eraseIdx flight).flatten ++ (embeds ++ f.queue))).Perm _
        refine List.Perm.append_left f.accepted ?_
        rw [← List.append_assoc]
        exact (List.perm_append_comm.trans hflat).append_right f.queue
      | failed => exact (he rfl).elim

/-! ### Order -/

/-- The oldest post is the one that succeeds, the newest one that is rate limited, and then
its batch fits into the queue. -/
def InTurn (f : Firehose E) : Event E → Prop
  | .respond flight .ok => ∀ embeds ∈ f.flights[flight]?, flight = 0
  | .respond flight .rateLimited => ∀ embeds ∈ f.flights[flight]?,
      flight + 1 = f.flights.length ∧ embeds.length + f.queue.length ≤ MAX_QUEUE
  | _ => True

instance (f : Firehose E) : DecidablePred f.InTurn
  | .enqueue _ => isTrue trivial
  | .tick => isTrue trivial
  | .respond flight .ok => inferInstanceAs (Decidable (∀ embeds ∈ f.flights[flight]?, flight = 0))
  | .respond flight .rateLimited => inferInstanceAs (Decidable (∀ embeds ∈ f.flights[flight]?,
      flight + 1 = f.flights.length ∧ embeds.length + f.queue.length ≤ MAX_QUEUE))
  | .respond _ .failed => isTrue trivial

/-- What is accepted, in flight and queued is what was enqueued, in that order. -/
structure Queued (f : Firehose E) : Prop where
  order : f.accepted ++ (f.flights.flatten ++ f.queue) = f.enqueued
  room : f.queue.length ≤ MAX_QUEUE

theorem flatten_eraseIdx_last {batches : List (List E)} {i : ℕ} {embeds : List E}
    (h : batches[i]? = some embeds) (hi : i + 1 = batches.length) :
    (batches.eraseIdx i).flatten ++ embeds = batches.flatten := by
  obtain ⟨hlt, rfl⟩ := List.getElem?_eq_some_iff.1 h
  have hsplit : batches = batches.take i ++ [batches[i]] := by
    rw [← List.take_succ_eq_append_getElem hlt, hi, List.take_length]
  have herase : batches.eraseIdx i = batches.take i := by
    rw [List.eraseIdx_eq_take_drop_succ, List.drop_eq_nil_of_le (by omega), List.append_nil]
  rw [herase]
  conv_rhs => rw [hsplit]
  rw [List.flatten_append, List.flatten_singleton]

theorem step_queued {url : String} {f : Firehose E} {e : Event E} (h : Queued f)
    (he : f.Answered e) (hturn : f.InTurn e) : Queued (f.step url e) := by
  obtain ⟨horder, hroom⟩ := h
  cases e with
  | enqueue embed =>
    show Queued (f.enqueueFirehoseEmbed url embed)
    unfold enqueueFirehoseEmbed
    split
    · exact ⟨horder, hroom⟩
    split
    · exact ⟨horder, hroom⟩
    · rename_i hfull
      refine ⟨?_, ?_⟩
      · dsimp only
        rw [← horder]
        simp
      · dsimp only
        rw [List.length_append, List.length_singleton]
        omega
  | tick =>
    show Queued (if f.timer then f.flush else f)
    unfold flush
    split
    · split
      · exact ⟨horder, hroom⟩
      · refine ⟨?_, ?_⟩
        · dsimp only
          rw [List.flatten_append, List.flatten_singleton, List.append_assoc,
            List.take_append_drop]
          exact horder
        · dsimp only
          rw [List.length_drop]
          omega
    · exact ⟨horder, hroom⟩
  | respond flight response =>
    show Queued (f.respond flight response)
    unfold respond
    cases hf : f.flights[flight]? with
    | none => exact ⟨horder, hroom⟩
    | some embeds =>
      cases response with
      | ok =>
        obtain rfl := hturn embeds hf
        refine ⟨?_, hroom⟩
        show (f.accepted ++ embeds) ++ ((f.flights.eraseIdx 0).flatten ++ f.queue) = f.enqueued
        cases hfl : f.flights with
        | nil =>
          rw [hfl] at hf
          cases hf
        | cons batch batches =>
          rw [hfl] at hf horder
          obtain rfl := Option.some.inj hf
          rw [← horder]
          simp
      | rateLimited =>
        obtain ⟨hlast, hfits⟩ := hturn embeds hf
        refine ⟨?_, ?_⟩
        · show f.accepted ++ ((f.flights.eraseIdx flight).flatten ++ (embeds ++ f.queue)) = f.enqueued
          rw [← horder, ← flatten_eraseIdx_last hf hlast, List.append_assoc]
        · show (embeds ++ f.queue).length ≤ MAX_QUEUE
          rw [List.length_append]
          exact hfits
      | failed => exact (he rfl).elim

/-! ### Runs -/

/-- Every embed taken is accepted or pending exactly once, they are accepted in the order in
which they came, and the queue is within its cap. -/
structure Delivered (f : Firehose E) : Prop where
  once : Kept f
  order : f.accepted <+: f.enqueued
  room : f.queue.length ≤ MAX_QUEUE

theorem Queued.delivered {f : Firehose E} (h : Queued f) : Delivered f := by
  refine ⟨?_, ⟨_, h.order⟩, h.room⟩
  unfold Kept
  rw [h.order]

theorem queued_init : Queued ({} : Firehose E) := ⟨rfl, Nat.zero_le _⟩

/-- While posts are answered in turn, the embeds are delivered in their order. -/
theorem delivers_in_order {url : String} {es : List (Event E)}
    (hanswered : AllSteps (step url) Answered {} es) (hturn : AllSteps (step url) InTurn {} es) :
    Delivered (run (step url) {} es) := by
  have hrun : Queued (run (step url) {} es) :=
    run_invariant (fun f e hf he => step_queued hf he.1 he.2) queued_init
      (allSteps_and.2 ⟨hanswered, hturn⟩)
  exact hrun.delivered

theorem overtaken_post :
    ¬ ∀ (url : String) (es : List (Event ℕ)), AllSteps (step url) Answered {} es →
      Delivered (run (step url) {} es) := by
  intro h
  have hrun := h "url" [.enqueue 1, .tick, .enqueue 2, .tick, .respond 1 .ok, .respond 0 .ok]
    (by decide)
  exact absurd hrun.order (by decide)

theorem retried_post :
    Delivered (run (step "url") {} [.enqueue 1, .tick, .enqueue 2, .tick, .respond 1 .rateLimited,
      .respond 0 .ok, .tick, .respond 0 .ok]) :=
  delivers_in_order (by decide) (by decide)

end Firehose

end Atradio.Discord
