import Atradio.Proxy.Pump

/-! # What the pump reports and forwards

An invariant of the process for any order of messages and timeouts. -/

namespace Atradio.Proxy.Pump
open Atradio.Lib

/-! ### The protocol -/

def Message.isData (conn ref : ℕ) : Message → Bool
  | .gunData c r _ _ => c = conn && r = ref
  | _ => false

def Message.isLast : Message → Bool
  | .gunData _ _ fin _ => fin
  | _ => false

def Message.isGo : Message → Bool
  | .go _ => true
  | _ => false

def Message.chunk : Message → Option PumpMsg
  | .gunData _ _ _ data => some (.gunChunk data)
  | _ => none

def chunks (ms : List Message) : List PumpMsg := ms.filterMap Message.chunk

def Phase.IsOver : Phase → Prop
  | .ended | .crashed => True
  | _ => False

/-- The message that ends what a subject receives, if there is one. -/
def IsEnd (last : List PumpMsg) : Prop := last = [] ∨ last = [.gunEof] ∨ last = [.gunFailed]

/-- The head of this stream's response is what the opener has got. -/
def Reported (replies : List Reply) (taken : List Message) (conn ref : ℕ) : Prop :=
  ∃ status headers fin, replies = [.headers status headers fin] ∧
    .gunResponse conn ref fin status headers ∈ taken

structure Protocol (uris : UriString) (reqHeaders : Headers) (s : State) : Prop where
  atMostOnce : s.replies.length ≤ 1
  replied : s.phase.IsOver → s.replies.length = 1
  -- the chunks of the stream, also those that came before `go`, are taken in their order
  inOrder : s.replies = [] ∨ s.replies = [.failed] ∨
    ∃ conn ref, Reported s.replies s.taken conn ref ∧
      chunks (s.arrived.filter (Message.isData conn ref)) =
        chunks s.taken ++ chunks (s.mailbox.filter (Message.isData conn ref))
  unreported : s.replies = [] ∨ s.replies = [.failed] → s.sent = []
  subject : ∀ x ∈ s.sent, s.taken.find? Message.isGo = some (.go x.1)
  body : ∃ last, IsEnd last ∧ s.sent.map Prod.snd = chunks s.taken ++ last ∧
    (last = [.gunEof] ↔ ∃ m ∈ s.taken, m.isLast = true) ∧ (last ≠ [] → s.phase = .ended)
  stopped : .stop ∈ s.taken → s.phase = .ended
  silent : s.phase.IsOver → ∀ inputs, (run (step uris reqHeaders) s inputs).replies = s.replies ∧
    (run (step uris reqHeaders) s inputs).sent = s.sent

/-- The location of a redirect that the pump is about to follow is one that `uri_string`
resolves. -/
def Resolves (uris : UriString) (s : State) : Input → Prop
  | .receives => ∀ url hops conn ref, s.phase = .awaitResponse url hops conn ref →
    ∀ c r fin status headers mailbox,
      receive s.phase.wants s.mailbox = some (.gunResponse c r fin status headers, mailbox) →
        300 ≤ status → status < 400 → ∀ loc, location headers = some loc →
          (resolve uris url loc).isSome = true
  | _ => True

/-! ### An invariant -/

def Message.isEarly : Message → Bool
  | .gunResponse _ _ _ _ _ | .gunError _ _ | .gunDown _ => true
  | _ => false

def AllEarly (taken : List Message) : Prop := ∀ m ∈ taken, m.isEarly = true

/-- What a process that has reported a stream has forwarded of it. -/
structure Forwards (replies : List Reply) (sent : List (ℕ × PumpMsg)) (taken : List Message)
    (conn ref : ℕ) (last : List PumpMsg) : Prop where
  reported : Reported replies taken conn ref
  own : ∀ m ∈ taken, m.chunk.isSome = true → m.isData conn ref = true
  body : sent.map Prod.snd = chunks taken ++ last
  subject : ∀ x ∈ sent, taken.find? Message.isGo = some (.go x.1)
  eof : last = [.gunEof] ↔ ∃ m ∈ taken, m.isLast = true

structure Fresh (replies : List Reply) (sent : List (ℕ × PumpMsg)) (taken : List Message) :
    Prop where
  replies : replies = []
  sent : sent = []
  early : AllEarly taken

def PhaseInv (replies : List Reply) (sent : List (ℕ × PumpMsg)) (taken : List Message) :
    Phase → Prop
  | .waitGo conn ref => Forwards replies sent taken conn ref [] ∧ sent = [] ∧ AllEarly taken
  | .streamBody subject conn ref => Forwards replies sent taken conn ref [] ∧ .stop ∉ taken ∧
    taken.find? Message.isGo = some (.go subject)
  | .ended => (replies = [.failed] ∧ sent = [] ∧ AllEarly taken) ∨
    ∃ conn ref last, IsEnd last ∧ Forwards replies sent taken conn ref last
  | _ => Fresh replies sent taken

def Fits (s : State) : Prop := PhaseInv s.replies s.sent s.taken s.phase

structure Inv (s : State) : Prop where
  kept : ∀ conn ref, s.arrived.filter (Message.isData conn ref) =
    s.taken.filter (Message.isData conn ref) ++ s.mailbox.filter (Message.isData conn ref)
  fits : Fits s

section Early

variable {taken : List Message} (h : AllEarly taken)

include h

theorem AllEarly.chunks : chunks taken = [] := by
  refine List.filterMap_eq_nil_iff.2 fun m hm => ?_
  have hearly := h m hm
  cases m <;> simp_all [Message.isEarly, Message.chunk]

theorem AllEarly.noLast : ¬ ∃ m ∈ taken, m.isLast = true := by
  rintro ⟨m, hm, hlast⟩
  have hearly := h m hm
  cases m <;> simp_all [Message.isEarly, Message.isLast]

theorem AllEarly.noGo : taken.find? Message.isGo = none := by
  refine List.find?_eq_none.2 fun m hm => ?_
  have hearly := h m hm
  cases m <;> simp_all [Message.isEarly, Message.isGo]

theorem AllEarly.noStop : .stop ∉ taken := by
  intro hm
  cases h _ hm

theorem AllEarly.snoc {m : Message} (hm : m.isEarly = true) : AllEarly (taken ++ [m]) := by
  intro x hx
  rcases List.mem_append.1 hx with hx | hx
  · exact h x hx
  · rwa [List.mem_singleton.1 hx]

end Early

/-! ### Clauses -/

section Clauses

variable {uris : UriString} {s : State}

structure Kept (s s' : State) : Prop where
  arrived : s'.arrived = s.arrived
  taken : s'.taken = s.taken
  mailbox : s'.mailbox = s.mailbox

theorem pumpOpen_kept (uris : UriString) (s : State) (url : String) (hops : ℕ) :
    Kept s (pumpOpen uris s url hops) := by
  unfold pumpOpen
  split <;> exact ⟨rfl, rfl, rfl⟩

theorem deliver_kept (s : State) (conn ref status : ℕ) (headers : Headers) (fin : Bool) :
    Kept s (deliver s conn ref status headers fin) := by
  cases fin <;> exact ⟨rfl, rfl, rfl⟩

theorem handle_kept (uris : UriString) (s : State) (m : Message) : Kept s (handle uris s m) := by
  unfold handle
  split
  · unfold awaitResponse
    split
    · split
      · dsimp only
        split
        · obtain ⟨harrived, htaken, hmailbox⟩ := pumpOpen_kept uris (call s (.close _)) _ _
          exact ⟨harrived, htaken, hmailbox⟩
        · exact ⟨rfl, rfl, rfl⟩
      · exact deliver_kept ..
    · exact ⟨rfl, rfl, rfl⟩
    · exact ⟨rfl, rfl, rfl⟩
  · unfold waitGo
    split <;> exact ⟨rfl, rfl, rfl⟩
  · unfold streamBody
    split <;> exact ⟨rfl, rfl, rfl⟩
  · exact ⟨rfl, rfl, rfl⟩

theorem after_kept (s : State) : Kept s (after s) := by
  unfold after
  split <;> exact ⟨rfl, rfl, rfl⟩

theorem fits_failed (h : Fresh s.replies s.sent s.taken) : Fits (failed s) := by
  refine Or.inl ⟨?_, h.sent, h.early⟩
  rw [failed, finish, reply, h.replies]
  rfl

theorem fits_pumpOpen (h : Fresh s.replies s.sent s.taken) (url : String) (hops : ℕ) :
    Fits (pumpOpen uris s url hops) := by
  unfold pumpOpen
  split
  · exact fits_failed h
  · exact fits_failed h
  · exact h

theorem fits_deliver {conn ref status : ℕ} {headers : Headers} {fin : Bool}
    (h : Fresh s.replies s.sent s.taken)
    (hm : .gunResponse conn ref fin status headers ∈ s.taken) :
    Fits (deliver s conn ref status headers fin) := by
  have hforwards : Forwards (s.replies ++ [.headers status headers fin]) s.sent s.taken conn ref
      [] := by
    refine ⟨⟨status, headers, fin, ?_, hm⟩, ?_, ?_, ?_, ?_⟩
    · rw [h.replies]
      rfl
    · intro m hm hchunk
      have hearly := h.early m hm
      cases m <;> simp_all [Message.isEarly, Message.chunk]
    · rw [h.sent, h.early.chunks]
      rfl
    · simp [h.sent]
    · simpa using fun m hm hlast => h.early.noLast ⟨m, hm, hlast⟩
  cases fin with
  | true => exact Or.inr ⟨conn, ref, [], Or.inl rfl, hforwards⟩
  | false => exact ⟨hforwards, h.sent, h.early⟩

theorem chunks_append (l r : List Message) : chunks (l ++ r) = chunks l ++ chunks r :=
  List.filterMap_append

/-- The messages `ms` are taken, and `new` is sent for them. -/
theorem Forwards.append {replies : List Reply} {sent : List (ℕ × PumpMsg)} {taken : List Message}
    {conn ref subject : ℕ} {new last : List PumpMsg} {ms : List Message}
    (h : Forwards replies sent taken conn ref [])
    (hgo : new ≠ [] → taken.find? Message.isGo = some (.go subject))
    (hown : ∀ m ∈ ms, m.chunk.isSome = true → m.isData conn ref = true)
    (hnew : new = chunks ms ++ last) (heof : last = [.gunEof] ↔ ∃ m ∈ ms, m.isLast = true) :
    Forwards replies (sent ++ new.map (Prod.mk subject)) (taken ++ ms) conn ref last where
  reported := by
    obtain ⟨status, headers, fin, hreplies, hmem⟩ := h.reported
    exact ⟨status, headers, fin, hreplies, List.mem_append_left _ hmem⟩
  own := List.forall_mem_append.2 ⟨h.own, hown⟩
  body := by
    have hmap : (new.map (Prod.mk subject)).map Prod.snd = new := by
      rw [List.map_map]
      exact List.map_id new
    rw [List.map_append, h.body, hmap, hnew, chunks_append, List.append_nil, List.append_assoc]
  subject := by
    intro x hx
    rw [List.find?_append]
    rcases List.mem_append.1 hx with hx | hx
    · rw [h.subject x hx, Option.some_or]
    · obtain ⟨msg, hmsg, rfl⟩ := List.mem_map.1 hx
      rw [hgo (List.ne_nil_of_mem hmsg), Option.some_or]
  eof := by
    have hnone : ¬ ∃ x ∈ taken, x.isLast = true := by simpa using h.eof
    rw [heof]
    constructor
    · exact fun ⟨m, hm, hlast⟩ => ⟨m, List.mem_append_right _ hm, hlast⟩
    · rintro ⟨x, hx, hlast⟩
      rcases List.mem_append.1 hx with hx | hx
      · exact (hnone ⟨x, hx, hlast⟩).elim
      · exact ⟨x, hx, hlast⟩

theorem fits_awaitResponse {url : String} {hops conn ref : ℕ} {m : Message}
    (h : Fresh s.replies s.sent s.taken)
    (hwants : (Phase.awaitResponse url hops conn ref).wants m = true) (mailbox : List Message) :
    Fits (awaitResponse uris { s with mailbox, taken := s.taken ++ [m] } url hops conn ref m) := by
  have hearly : m.isEarly = true := by
    cases m <;> simp_all [Phase.wants, Message.isEarly]
  have hfresh : Fresh s.replies s.sent (s.taken ++ [m]) := ⟨h.replies, h.sent, h.early.snoc hearly⟩
  cases m with
  | gunResponse c r fin status headers =>
    obtain ⟨rfl, rfl⟩ : c = conn ∧ r = ref := by simpa [Phase.wants] using hwants
    rw [awaitResponse]
    split
    · dsimp only
      split
      · exact fits_pumpOpen hfresh _ _
      · exact hfresh
    · exact fits_deliver hfresh (by simp)
  | gunError c r => exact fits_failed hfresh
  | gunDown c => exact fits_failed hfresh
  | gunData c r fin data => cases hwants
  | go subject => cases hwants
  | stop => cases hwants
  | other => cases hwants

theorem fits_waitGo {conn ref : ℕ} {m : Message} (hphase : s.phase = .waitGo conn ref) (h : Fits s)
    (hwants : (Phase.waitGo conn ref).wants m = true) (mailbox : List Message) :
    Fits (waitGo { s with mailbox, taken := s.taken ++ [m] } conn ref m) := by
  rw [Fits, hphase] at h
  obtain ⟨hforwards, hsent, hearly⟩ := h
  have hsnoc : m.chunk = none → m.isLast = false →
      Forwards s.replies s.sent (s.taken ++ [m]) conn ref [] := by
    intro hchunk hlast
    have hnext : Forwards s.replies (s.sent ++ ([] : List PumpMsg).map (Prod.mk 0)) (s.taken ++ [m])
        conn ref [] :=
      hforwards.append (by simp) (by simp [hchunk]) (by simp [chunks, hchunk]) (by simp [hlast])
    simpa using hnext
  cases m with
  | go subject =>
    have hstop : Message.stop ∉ s.taken ++ [Message.go subject] := by simpa using hearly.noStop
    have hgo : (s.taken ++ [Message.go subject]).find? Message.isGo = some (.go subject) := by
      rw [List.find?_append, hearly.noGo]
      rfl
    exact ⟨hsnoc rfl rfl, hstop, hgo⟩
  | stop => exact Or.inr ⟨conn, ref, [], Or.inl rfl, hsnoc rfl rfl⟩
  | gunResponse c r fin status headers => cases hwants
  | gunError c r => cases hwants
  | gunDown c => cases hwants
  | gunData c r fin data => cases hwants
  | other => cases hwants

theorem fits_streamBody {subject conn ref : ℕ} {m : Message}
    (hphase : s.phase = .streamBody subject conn ref) (h : Fits s)
    (hwants : (Phase.streamBody subject conn ref).wants m = true) (mailbox : List Message) :
    Fits (streamBody { s with mailbox, taken := s.taken ++ [m] } subject conn m) := by
  rw [Fits, hphase] at h
  obtain ⟨hforwards, hstop, hgo⟩ := h
  have hnext : ∀ last, (m.chunk.isSome = true → m.isData conn ref = true) →
      (last = [.gunEof] ↔ m.isLast = true) →
        Forwards s.replies (s.sent ++ (chunks [m] ++ last).map (Prod.mk subject)) (s.taken ++ [m])
          conn ref last := fun last hown heof =>
    hforwards.append (fun _ => hgo) (by simpa using hown) rfl (by simpa using heof)
  cases m with
  | gunData c r fin data =>
    have hown : (Message.gunData c r fin data).isData conn ref = true := hwants
    cases fin with
    | false =>
      have hstop' : Message.stop ∉ s.taken ++ [Message.gunData c r false data] := by
        simpa using hstop
      have hgo' : (s.taken ++ [Message.gunData c r false data]).find? Message.isGo =
          some (.go subject) := by
        rw [List.find?_append, hgo, Option.some_or]
      rw [streamBody, Fits, send, hphase]
      exact ⟨hnext [] (fun _ => hown) (by simp [Message.isLast]), hstop', hgo'⟩
    | true =>
      have hforwards' := hnext [.gunEof] (fun _ => hown) (by simp [Message.isLast])
      have hsent : s.sent ++ (chunks [.gunData c r true data] ++ [PumpMsg.gunEof]).map
          (Prod.mk subject) =
          s.sent ++ [(subject, .gunChunk data)] ++ [(subject, .gunEof)] := by
        rw [List.append_assoc]
        rfl
      rw [hsent] at hforwards'
      exact Or.inr ⟨conn, ref, [.gunEof], by simp [IsEnd], hforwards'⟩
  | gunError c r =>
    have hforwards' := hnext [.gunFailed] nofun (by simp [Message.isLast])
    exact Or.inr ⟨conn, ref, [.gunFailed], by simp [IsEnd], hforwards'⟩
  | gunDown c =>
    have hforwards' := hnext [.gunFailed] nofun (by simp [Message.isLast])
    exact Or.inr ⟨conn, ref, [.gunFailed], by simp [IsEnd], hforwards'⟩
  | stop =>
    have hforwards' := hnext [] nofun (by simp [Message.isLast])
    have hsent : s.sent ++ (chunks [.stop] ++ []).map (Prod.mk subject) = s.sent :=
      List.append_nil s.sent
    rw [hsent] at hforwards'
    exact Or.inr ⟨conn, ref, [], Or.inl rfl, hforwards'⟩
  | gunResponse c r fin status headers => cases hwants
  | go subject => cases hwants
  | other => cases hwants

/-- Only the three loops take messages. -/
theorem wants_cases {phase : Phase} {m : Message} (h : phase.wants m = true) :
    (∃ url hops conn ref, phase = .awaitResponse url hops conn ref) ∨
      (∃ conn ref, phase = .waitGo conn ref) ∨
        ∃ subject conn ref, phase = .streamBody subject conn ref := by
  cases phase with
  | awaitResponse url hops conn ref => exact Or.inl ⟨url, hops, conn, ref, rfl⟩
  | waitGo conn ref => exact Or.inr (Or.inl ⟨conn, ref, rfl⟩)
  | streamBody subject conn ref => exact Or.inr (Or.inr ⟨subject, conn, ref, rfl⟩)
  | _ => cases h

theorem fits_handle {m : Message} (h : Fits s) (hwants : s.phase.wants m = true)
    (mailbox : List Message) : Fits (handle uris { s with mailbox, taken := s.taken ++ [m] } m) := by
  rcases wants_cases hwants with ⟨url, hops, conn, ref, hphase⟩ | ⟨conn, ref, hphase⟩ |
    ⟨subject, conn, ref, hphase⟩
  · rw [hphase] at hwants
    rw [Fits, hphase] at h
    have hfits : Fits (awaitResponse uris { s with mailbox, taken := s.taken ++ [m] } url hops conn
        ref m) := fits_awaitResponse h hwants mailbox
    simpa only [handle, hphase] using hfits
  · rw [hphase] at hwants
    have hfits := fits_waitGo hphase h hwants mailbox
    simpa only [handle, hphase] using hfits
  · rw [hphase] at hwants
    have hfits := fits_streamBody hphase h hwants mailbox
    simpa only [handle, hphase] using hfits

theorem fits_after (h : Fits s) : Fits (after s) := by
  cases hphase : s.phase with
  | awaitResponse url hops conn ref =>
    rw [Fits, hphase] at h
    simp only [after, hphase]
    exact fits_failed h
  | waitGo conn ref =>
    rw [Fits, hphase] at h
    simp only [after, hphase]
    exact Or.inr ⟨conn, ref, [], Or.inl rfl, h.1⟩
  | streamBody subject conn ref =>
    rw [Fits, hphase] at h
    obtain ⟨hforwards, -, hgo⟩ := h
    simp only [after, hphase]
    have hnext : Forwards s.replies (s.sent ++ [PumpMsg.gunFailed].map (Prod.mk subject))
        (s.taken ++ []) conn ref [.gunFailed] :=
      hforwards.append (fun _ => hgo) (List.forall_mem_nil _) rfl (by simp)
    rw [List.append_nil] at hnext
    exact Or.inr ⟨conn, ref, [.gunFailed], by simp [IsEnd], hnext⟩
  | _ => simpa only [after, hphase] using h

end Clauses

/-! ### Runs -/

section Runs

variable {uris : UriString} {reqHeaders : Headers} {s : State}

/-- Each loop takes the data of a stream or leaves all of it where it is. -/
theorem wants_isData (phase : Phase) (conn ref : ℕ) :
    (∀ m, Message.isData conn ref m = true → phase.wants m = true) ∨
      ∀ m, Message.isData conn ref m = true → phase.wants m = false := by
  by_cases hown : ∃ subject, phase = .streamBody subject conn ref
  · obtain ⟨subject, rfl⟩ := hown
    refine Or.inl fun m hm => ?_
    cases m with
    | gunData c r fin data => exact hm
    | _ => cases hm
  · refine Or.inr fun m hm => ?_
    cases m with
    | gunData c r fin data =>
      obtain ⟨rfl, rfl⟩ : c = conn ∧ r = ref := by simpa [Message.isData] using hm
      cases phase with
      | streamBody subject conn' ref' =>
        by_contra hwants
        obtain ⟨rfl, rfl⟩ : c = conn' ∧ r = ref' := by simpa [Phase.wants] using hwants
        exact hown ⟨subject, rfl⟩
      | _ => rfl
    | _ => cases hm

theorem inv_step (h : Inv s) (i : Input) : Inv (step uris reqHeaders s i) := by
  cases i with
  | arrives m =>
    refine ⟨fun conn ref => ?_, h.fits⟩
    have hkept := h.kept conn ref
    simp only [step, List.filter_append, hkept, List.append_assoc]
  | opened result =>
    have hfits := h.fits
    unfold step
    dsimp only
    split
    next hphase =>
      rw [Fits, hphase] at hfits
      exact ⟨h.kept, hfits⟩
    next hphase =>
      rw [Fits, hphase] at hfits
      exact ⟨h.kept, fits_failed hfits⟩
    · exact h
  | up result =>
    have hfits := h.fits
    unfold step
    dsimp only
    split
    next hphase =>
      rw [Fits, hphase] at hfits
      exact ⟨h.kept, hfits⟩
    next hphase =>
      rw [Fits, hphase] at hfits
      exact ⟨h.kept, fits_failed hfits⟩
    · exact h
  | receives =>
    rw [step]
    split
    next m mailbox hreceive =>
      obtain ⟨harrived, htaken, hmailbox⟩ :=
        handle_kept uris { s with mailbox, taken := s.taken ++ [m] } m
      refine ⟨fun conn ref => ?_, fits_handle h.fits (receive_eq_some hreceive).1 mailbox⟩
      have hbox : s.mailbox.filter (Message.isData conn ref) =
          [m].filter (Message.isData conn ref) ++ mailbox.filter (Message.isData conn ref) := by
        rcases wants_isData s.phase conn ref with hall | hnone
        · exact receive_filter hreceive hall
        · exact receive_filter_other hreceive hnone
      rw [harrived, htaken, hmailbox]
      simp only [h.kept conn ref, hbox, List.filter_append, List.append_assoc]
    next => exact h
  | timeout =>
    rw [step]
    split
    next => exact h
    next =>
      obtain ⟨harrived, htaken, hmailbox⟩ := after_kept s
      refine ⟨fun conn ref => ?_, fits_after h.fits⟩
      rw [harrived, htaken, hmailbox]
      exact h.kept conn ref

theorem inv_spawn (url : String) : Inv (spawn uris url) := by
  obtain ⟨harrived, htaken, hmailbox⟩ :=
    pumpOpen_kept uris ⟨.ended, [], [], [], [], [], []⟩ url REDIRECT_LIMIT
  have hfresh : Fresh [] [] [] := ⟨rfl, rfl, List.forall_mem_nil _⟩
  refine ⟨fun conn ref => ?_, fits_pumpOpen (s := ⟨.ended, [], [], [], [], [], []⟩) hfresh url _⟩
  rw [spawn, harrived, htaken, hmailbox]
  rfl

/-- A process that is over takes no message. -/
theorem isOver_step (uris : UriString) (reqHeaders : Headers) (h : s.phase.IsOver) (i : Input) :
    (step uris reqHeaders s i).phase.IsOver ∧
      (step uris reqHeaders s i).replies = s.replies ∧
        (step uris reqHeaders s i).sent = s.sent := by
  have hreceive : ∀ box, receive s.phase.wants box = none := by
    intro box
    induction box with
    | nil => rfl
    | cons m box ih =>
      have hm : s.phase.wants m = false := by
        cases hphase : s.phase <;> simp_all [Phase.IsOver, Phase.wants]
      rw [receive, hm, ih]
      rfl
  have hafter : after s = s := by
    cases hphase : s.phase <;> simp_all [Phase.IsOver, after]
  cases i with
  | arrives m => exact ⟨h, rfl, rfl⟩
  | opened result =>
    cases hphase : s.phase <;> simp_all [Phase.IsOver, step]
  | up result =>
    cases hphase : s.phase <;> simp_all [Phase.IsOver, step]
  | receives =>
    rw [step, hreceive]
    exact ⟨h, rfl, rfl⟩
  | timeout =>
    rw [step, hreceive]
    dsimp only
    rw [hafter]
    exact ⟨h, rfl, rfl⟩

theorem isOver_run (uris : UriString) (reqHeaders : Headers) (h : s.phase.IsOver)
    (inputs : List Input) :
    (run (step uris reqHeaders) s inputs).replies = s.replies ∧
      (run (step uris reqHeaders) s inputs).sent = s.sent := by
  have hstep : ∀ (t : State) (i : Input),
      (t.phase.IsOver ∧ t.replies = s.replies ∧ t.sent = s.sent) →
        (step uris reqHeaders t i).phase.IsOver ∧ (step uris reqHeaders t i).replies = s.replies ∧
          (step uris reqHeaders t i).sent = s.sent := by
    rintro t i ⟨hover, hreplies, hsent⟩
    obtain ⟨hover', hreplies', hsent'⟩ := isOver_step uris reqHeaders hover i
    exact ⟨hover', hreplies'.trans hreplies, hsent'.trans hsent⟩
  exact (run_kept hstep ⟨h, rfl, rfl⟩ inputs).2

theorem Fits.reports (h : Fits s) (hcrash : s.phase ≠ .crashed) :
    (s.sent = [] ∧ AllEarly s.taken ∧
      (s.replies = [] ∧ ¬ s.phase.IsOver ∨ s.replies = [.failed])) ∨
    ∃ conn ref last, IsEnd last ∧ Forwards s.replies s.sent s.taken conn ref last ∧
      (last ≠ [] → s.phase = .ended) ∧ (.stop ∈ s.taken → s.phase = .ended) := by
  cases hphase : s.phase with
  | waitGo conn ref =>
    rw [Fits, hphase] at h
    obtain ⟨hforwards, -, hearly⟩ := h
    exact Or.inr ⟨conn, ref, [], Or.inl rfl, hforwards, by simp,
      fun hstop => absurd hstop hearly.noStop⟩
  | streamBody subject conn ref =>
    rw [Fits, hphase] at h
    obtain ⟨hforwards, hnone, -⟩ := h
    exact Or.inr ⟨conn, ref, [], Or.inl rfl, hforwards, by simp, fun hstop => absurd hstop hnone⟩
  | ended =>
    rw [Fits, hphase] at h
    rcases h with ⟨hreplies, hsent, hearly⟩ | ⟨conn, ref, last, hlast, hforwards⟩
    · exact Or.inl ⟨hsent, hearly, Or.inr hreplies⟩
    · exact Or.inr ⟨conn, ref, last, hlast, hforwards, fun _ => rfl, fun _ => rfl⟩
  | crashed => exact absurd hphase hcrash
  | _ =>
    rw [Fits, hphase] at h
    exact Or.inl ⟨h.sent, h.early, Or.inl ⟨h.replies, id⟩⟩

theorem chunks_own {taken : List Message} {conn ref : ℕ}
    (h : ∀ m ∈ taken, m.chunk.isSome = true → m.isData conn ref = true) :
    chunks (taken.filter (Message.isData conn ref)) = chunks taken := by
  rw [chunks, List.filterMap_filter, chunks]
  refine List.filterMap_congr fun m hm => ?_
  by_cases hdata : m.isData conn ref = true
  · rw [if_pos hdata]
  · rw [if_neg hdata]
    by_contra hne
    exact hdata (h m hm (Option.isSome_iff_ne_none.2 (Ne.symm hne)))

theorem protocol_of_inv (h : Inv s) (hcrash : s.phase ≠ .crashed) : Protocol uris reqHeaders s := by
  have hsilent := @isOver_run s uris reqHeaders
  rcases h.fits.reports hcrash with ⟨hsent, hearly, hreplies⟩ |
    ⟨conn, ref, last, hlast, hforwards, hended, hstop⟩
  · have hnone : s.replies = [] ∨ s.replies = [.failed] := hreplies.imp And.left id
    refine ⟨?_, ?_, ?_, fun _ => hsent, ?_, ⟨[], Or.inl rfl, ?_, ?_, ?_⟩, ?_, hsilent⟩
    · rcases hnone with hreplies | hreplies <;> simp [hreplies]
    · intro hover
      rcases hreplies with ⟨-, hrun⟩ | hreplies
      · exact absurd hover hrun
      · rw [hreplies]
        rfl
    · exact hnone.imp id Or.inl
    · simp [hsent]
    · rw [hsent, hearly.chunks]
      rfl
    · exact iff_of_false (by simp) hearly.noLast
    · simp
    · exact fun hstop => absurd hstop hearly.noStop
  · obtain ⟨status, headers, fin, hreplies, hmem⟩ := hforwards.reported
    refine ⟨?_, ?_, Or.inr (Or.inr ⟨conn, ref, hforwards.reported, ?_⟩), ?_, hforwards.subject,
      ⟨last, hlast, hforwards.body, hforwards.eof, hended⟩, hstop, hsilent⟩
    · simp [hreplies]
    · simp [hreplies]
    · rw [h.kept conn ref, chunks_append, chunks_own hforwards.own]
    · simp [hreplies]

/-! ### Crashes -/

theorem pumpOpen_phase (s : State) (url : String) (hops : ℕ) :
    (pumpOpen uris s url hops).phase ≠ .crashed := by
  unfold pumpOpen
  split <;> exact Phase.noConfusion

theorem after_phase (h : s.phase ≠ .crashed) : (after s).phase ≠ .crashed := by
  unfold after
  split
  · exact Phase.noConfusion
  · exact Phase.noConfusion
  · exact Phase.noConfusion
  · exact h

theorem deliver_phase (s : State) (conn ref status : ℕ) (headers : Headers) (fin : Bool) :
    (deliver s conn ref status headers fin).phase ≠ .crashed := by
  cases fin <;> exact Phase.noConfusion

theorem awaitResponse_phase (s : State) (url : String) (hops conn ref : ℕ) (m : Message) :
    (awaitResponse uris s url hops conn ref m).phase ≠ .crashed ↔
      ∀ c r fin status headers, m = .gunResponse c r fin status headers →
        300 ≤ status → status < 400 → ∀ loc, location headers = some loc →
          (resolve uris url loc).isSome = true := by
  cases m with
  | gunResponse c r fin status headers =>
    rw [awaitResponse]
    by_cases hstatus : 300 ≤ status ∧ status < 400
    · rw [if_pos hstatus]
      cases hlocation : location headers with
      | none =>
        refine iff_of_true (deliver_phase _ _ _ _ _ _) ?_
        rintro _ _ _ _ _ ⟨⟩ - - loc hloc
        rw [hlocation] at hloc
        cases hloc
      | some loc =>
        dsimp only
        cases hresolve : resolve uris url loc with
        | none =>
          refine iff_of_false (fun hne => hne rfl) fun hall => ?_
          have hsome := hall c r fin status headers rfl hstatus.1 hstatus.2 loc hlocation
          rw [hresolve] at hsome
          cases hsome
        | some next =>
          refine iff_of_true (pumpOpen_phase _ _ _) ?_
          rintro _ _ _ _ _ ⟨⟩ - - loc' hloc
          obtain rfl : loc = loc' := Option.some.inj (hlocation.symm.trans hloc)
          rw [hresolve]
          rfl
    · rw [if_neg hstatus]
      refine iff_of_true (deliver_phase _ _ _ _ _ _) ?_
      rintro _ _ _ _ _ ⟨⟩ hlow hhigh
      exact absurd ⟨hlow, hhigh⟩ hstatus
  | _ => exact iff_of_true Phase.noConfusion nofun

theorem waitGo_phase (s : State) (conn ref : ℕ) (m : Message) :
    (waitGo s conn ref m).phase ≠ .crashed := by
  unfold waitGo
  split <;> exact Phase.noConfusion

theorem streamBody_phase (h : s.phase ≠ .crashed) (subject conn : ℕ) (m : Message) :
    (streamBody s subject conn m).phase ≠ .crashed := by
  unfold streamBody
  split
  · exact h
  · exact Phase.noConfusion
  · exact Phase.noConfusion
  · exact Phase.noConfusion
  · exact Phase.noConfusion

theorem handle_phase (h : s.phase ≠ .crashed)
    (hawait : ∀ url hops conn ref, s.phase ≠ .awaitResponse url hops conn ref) (m : Message) :
    (handle uris s m).phase ≠ .crashed := by
  unfold handle
  split
  next hphase => exact absurd hphase (hawait _ _ _ _)
  next => exact waitGo_phase s _ _ m
  next => exact streamBody_phase h _ _ m
  next => exact h

/-- Only a redirect that cannot be resolved stops the process without a reply. -/
theorem step_phase (h : s.phase ≠ .crashed) (i : Input) :
    (step uris reqHeaders s i).phase ≠ .crashed ↔ Resolves uris s i := by
  cases i with
  | arrives m => exact iff_of_true h trivial
  | opened result =>
    refine iff_of_true ?_ trivial
    unfold step
    dsimp only
    split
    · exact Phase.noConfusion
    · exact Phase.noConfusion
    · exact h
  | up result =>
    refine iff_of_true ?_ trivial
    unfold step
    dsimp only
    split
    · exact Phase.noConfusion
    · exact Phase.noConfusion
    · exact h
  | timeout =>
    refine iff_of_true ?_ trivial
    rw [step]
    split
    · exact h
    · exact after_phase h
  | receives =>
    rw [step]
    cases hreceive : receive s.phase.wants s.mailbox with
    | none =>
      refine iff_of_true h ?_
      intro url hops conn ref _ c r fin status headers mailbox hsome
      rw [hreceive] at hsome
      cases hsome
    | some found =>
      obtain ⟨m, mailbox⟩ := found
      by_cases hawait : ∃ url hops conn ref, s.phase = .awaitResponse url hops conn ref
      · obtain ⟨url, hops, conn, ref, hphase⟩ := hawait
        simp only [handle, hphase]
        rw [← hphase, awaitResponse_phase]
        constructor
        · intro hall url' hops' conn' ref' hphase' c r fin status headers mailbox' hsome
          rw [hreceive] at hsome
          obtain ⟨rfl, -⟩ := Prod.mk.inj (Option.some.inj hsome)
          rw [hphase] at hphase'
          cases hphase'
          exact hall c r fin status headers rfl
        · rintro hresolves c r fin status headers rfl
          exact hresolves url hops conn ref hphase c r fin status headers mailbox hreceive
      · have hnot : ∀ url hops conn ref, s.phase ≠ .awaitResponse url hops conn ref :=
          fun url hops conn ref hphase => hawait ⟨url, hops, conn, ref, hphase⟩
        have hphase :
            (handle uris { s with mailbox, taken := s.taken ++ [m] } m).phase ≠ .crashed :=
          handle_phase (s := { s with mailbox, taken := s.taken ++ [m] }) h hnot m
        refine iff_of_true hphase ?_
        exact fun url hops conn ref hwait => absurd hwait (hnot url hops conn ref)

theorem protocol_iff_phase (h : Inv s) : Protocol uris reqHeaders s ↔ s.phase ≠ .crashed := by
  refine ⟨fun hprotocol hcrash => ?_, protocol_of_inv h⟩
  have hfresh := h.fits
  rw [Fits, hcrash] at hfresh
  have hone := hprotocol.replied (by rw [hcrash]; trivial)
  rw [hfresh.replies] at hone
  cases hone

theorem protocol_run (h : Inv s) (hrun : s.phase ≠ .crashed) (inputs : List Input) :
    (∀ before rest, inputs = before ++ rest →
        Protocol uris reqHeaders (run (step uris reqHeaders) s before)) ↔
      AllSteps (step uris reqHeaders) (Resolves uris) s inputs := by
  have hprotocol : ∀ before, Protocol uris reqHeaders (run (step uris reqHeaders) s before) ↔
      (run (step uris reqHeaders) s before).phase ≠ .crashed :=
    fun before => protocol_iff_phase (run_kept (I := Inv) (fun _ i hinv => inv_step hinv i) h before)
  simp only [hprotocol]
  rw [forall_prefix_iff (Q := fun t : State => t.phase ≠ .crashed), and_iff_right hrun]
  exact allSteps_iff_of_step (I := fun t : State => t.phase ≠ .crashed)
    (fun _ i ht => step_phase ht i) (fun _ i ht hresolves => (step_phase ht i).2 hresolves) hrun

end Runs

/-- The pump reports once and forwards what it is told to, for every order of messages and timeouts,
exactly when each redirect that it follows has a location that `uri_string` resolves. -/
theorem protocol_iff (uris : UriString) (reqHeaders : Headers) (url : String)
    (inputs : List Input) :
    (∀ before rest, inputs = before ++ rest →
        Protocol uris reqHeaders (run (step uris reqHeaders) (spawn uris url) before)) ↔
      AllSteps (step uris reqHeaders) (Resolves uris) (spawn uris url) inputs :=
  protocol_run (inv_spawn url) (pumpOpen_phase _ _ _) inputs

/-- `uri_string` where a blank is no part of a URL. -/
def radioUris : UriString where
  parse url :=
    if url = "http://radio/" then some ⟨some "http", some "radio", none, some "/", none⟩ else none
  resolve _ _ := none

def redirected : State :=
  run (step radioUris []) (spawn radioUris "http://radio/")
    [.opened (some 1), .up (some 2),
      .arrives (.gunResponse 1 2 true 302 [("location", "/my stream")]), .receives]

theorem redirected_unanswered : ¬ Protocol radioUris [] redirected := by
  have hreplies : redirected.replies = [] := rfl
  intro h
  have hone := h.replied trivial
  rw [hreplies] at hone
  cases hone

end Atradio.Proxy.Pump
