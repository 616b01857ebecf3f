import Atradio.App.Sessions
import Atradio.Audio.Settings
import Atradio.Lexicons.Stations

/-! # Station actions on mobile (`auth/runtime.ts`)

What a `stationAction` does with the session it has got, up to the calls on its agent. Who was
signed in, and whether a new generation has begun, is recorded beside the code's own variables. -/

namespace Atradio.App.Auth
open Atradio.Lib Atradio.Audio Atradio.Lexicons

/-- The argument of a station action; `δ` is what the form of a new station hands over. -/
structure ActionInput (δ : Type) where
  actor : Option String
  action : String
  station : Station
  settings : EqSettings
  draft : δ
  text : Option String
  gif : Option GifDraft
  emoji : Option String
  uri : Option String

/-- What is thrown: an error with its message, or the error of a property of undefined. -/
inductive Refusal where
  | error (message : String)
  | typeError
deriving DecidableEq

/-- `AtradioAgent.fromClient` with the client of the session. -/
structure Agent where
  session : Session
  did : String

def fromClient (session : Session) : Agent := ⟨session, session.sub⟩

inductive Call where
  | listFavorites
  | favorite (station : Station)
  | unfavorite (station : Station)
  | getAudioSettings
  | putAudioSettings (data : AudioSettingsData)
  | setPlayStatus (station : Station)
  | createStation (draft : StationDraft)
  | comment (station : Station) (text : String) (gif : Option GifDraft)
  | reaction (station : Station) (emoji : String)
  | deleteComment (uri : String)

def needed (action : String) : String :=
  if action = "favorite" || action = "unfavorite" then "repo:fm.atradio.favorite"
  else if action = "saveEqualizer" then "repo:fm.atradio.audio.settings"
  else if action = "playStatus" then "repo:fm.atradio.actor.status"
  else if action = "reaction" then "repo:fm.atradio.reaction"
  else if action = "registerStation" then "repo:fm.atradio.station"
  else "repo:fm.atradio.comment"

def permit (session : Session) (action : String) : Except Refusal Unit :=
  if action = "getAudioSettings" || action = "listFavorites" then .ok ()
  else if session.scope.isNone then .error .typeError
  else if session.grants (needed action) then .ok ()
  else .error (.error "Sign in again to grant permission for this station action.")

def reactions : List String :=
  ["❤️", "🔥", "🎶", "🎵", "🎧", "🎸", "🎹", "🥁", "🎤", "🕺", "💃", "🙌", "👏", "🤯", "😂"]

section Dispatch

variable {δ : Type}

def comment (input : ActionInput δ) : Except Refusal Call :=
  if ((input.text.map trim).getD "" = "" && input.gif.isNone) ||
      (input.text.getD "").length > 1000 then
    .error (.error "Write a comment (up to 1,000 characters) or choose a GIF.")
  else match input.text with
    | none => .error .typeError
    | some text => .ok (.comment input.station (trim text) input.gif)

def reaction (input : ActionInput δ) : Except Refusal Call :=
  match input.emoji with
  | some emoji =>
    if emoji ∈ reactions then .ok (.reaction input.station emoji)
    else .error (.error "Choose a reaction from the picker.")
  | none => .error (.error "Choose a reaction from the picker.")

def deleteComment (session : Session) (input : ActionInput δ) : Except Refusal Call :=
  match input.uri with
  | none => .error .typeError
  | some uri =>
    if uri.startsWith ("at://" ++ session.sub ++ "/fm.atradio.comment/") then
      .ok (.deleteComment uri)
    else .error (.error "You can only delete your own comments.")

/-- What follows the session: a call, the read before a merge, or an import. -/
inductive Next where
  | call (call : Call)
  | merge
  | validation

def dispatch (session : Session) (input : ActionInput δ) : Except Refusal Next := do
  permit session input.action
  if input.action = "listFavorites" then return .call .listFavorites
  else if input.action = "favorite" then return .call (.favorite input.station)
  else if input.action = "unfavorite" then return .call (.unfavorite input.station)
  else if input.action = "getAudioSettings" then return .call .getAudioSettings
  else if input.action = "saveEqualizer" then return .merge
  else if input.action = "playStatus" then return .call (.setPlayStatus input.station)
  else if input.action = "registerStation" then return .validation
  else if input.action = "comment" then return .call (← comment input)
  else if input.action = "reaction" then return .call (← reaction input)
  else return .call (← deleteComment session input)

end Dispatch

inductive Stage where
  | session
  | importing (agent : Agent)
  /-- The read of `saveEqualizer`. -/
  | reading (agent : Agent)
  | calling (agent : Agent)

/-- A station action that waits. -/
structure Request (δ : Type) where
  ticket : ℕ
  input : ActionInput δ
  did : String
  actionGeneration : ℕ
  stage : Stage
  /-- Who was signed in when it was accepted, and when its session was obtained. -/
  accepted : Option String
  obtained : Option String
  /-- A new generation has begun since it waits for what it waits for. -/
  renewed : Bool

structure Issued (δ : Type) where
  input : ActionInput δ
  agent : Agent
  call : Call
  accepted : Option String
  obtained : Option String
  /-- A new generation began during the wait before the call. -/
  renewed : Bool

structure Host (δ : Type) where
  runtime : Runtime
  requests : Table (Request.ticket (δ := δ))
  issued : List (Issued δ)
  /-- What requests were answered with: a refusal, or none for their result. -/
  replies : List (ℕ × Option Refusal)

inductive Happening (δ : Type) where
  | auth (event : Event)
  | request (input : ActionInput δ)
  | session (ticket : ℕ) (answer : Except Failure Session)
  | imported (ticket : ℕ) (answer : Except Failure Unit)
  /-- A call on the agent ends; the settings count for `getAudioSettings` only. -/
  | called (ticket : ℕ) (answer : Except Failure (Option AudioSettingsData))

variable {δ : Type}

/-- `e.message` in the answer to a failed command. -/
def Failure.refusal : Failure → Refusal
  | .tokenRefresh message => .error message
  | .other message => .error (message.getD "Authentication unavailable")

def Host.reply (h : Host δ) (r : Request δ) (refusal : Option Refusal) : Host δ :=
  { h with
    requests := h.requests.delete r.ticket
    replies := (r.ticket, refusal) :: h.replies }

def Host.wait (h : Host δ) (r : Request δ) (stage : Stage) : Host δ :=
  { h with requests := h.requests.put { r with stage, renewed := false } }

def Host.issue (h : Host δ) (r : Request δ) (agent : Agent) (call : Call) (stage : Stage) :
    Host δ :=
  { h.wait r stage with
    issued := ⟨r.input, agent, call, r.accepted, r.obtained, r.renewed⟩ :: h.issued }

/-- A step of the runtime; a change of the generation is noted with the requests that wait. -/
def Host.advance (h : Host δ) (runtime : Runtime) : Host δ :=
  { h with
    runtime
    requests := h.requests.mapRows
      (fun r => { r with renewed := r.renewed || runtime.generation ≠ h.runtime.generation })
      fun _ => rfl }

def Host.refuse (h : Host δ) (message : String) : Host δ :=
  { h with replies := (h.runtime.started, some (.error message)) :: h.replies }

def Host.request (h : Host δ) (input : ActionInput δ) : Host δ :=
  match h.runtime.state.phase with
  | .signedIn account =>
    if input.actor.any fun a => a ≠ "" && a ≠ account.profile.did then
      h.refuse "Account changed; listening update canceled."
    else if input.action ∉ stationActions then h.refuse "Unsupported station action"
    else
      let h' := h.advance (stationAction h.runtime input.actor input.action)
      { h' with requests := h'.requests.put {
          ticket := h.runtime.started
          input
          did := account.profile.did
          actionGeneration := h.runtime.generation
          stage := .session
          accepted := h.runtime.state.did
          obtained := none
          renewed := false } }
  | _ => h.refuse "Sign in to join the conversation."

/-- After `getSession`. -/
def Host.session (h : Host δ) (r : Request δ) (session : Session) : Host δ :=
  if r.actionGeneration ≠ h.runtime.generation || h.runtime.state.did ≠ some r.did then
    h.reply r (some (.error "Account changed; action canceled."))
  else
    let r := { r with obtained := h.runtime.state.did }
    let agent := fromClient session
    match dispatch session r.input with
    | .error refusal => h.reply r (some refusal)
    | .ok (.call call) => h.issue r agent call (.calling agent)
    | .ok .merge => h.issue r agent .getAudioSettings (.reading agent)
    | .ok .validation => h.wait r (.importing agent)

/-- After the read of `saveEqualizer`. -/
def Host.merge (h : Host δ) (r : Request δ) (agent : Agent)
    (existing : Option AudioSettingsData) : Host δ :=
  if r.actionGeneration ≠ h.runtime.generation then
    h.reply r (some (.error "Account changed; equalizer save canceled."))
  else match mergeRepoEqualizer existing r.input.settings with
    | .error message => h.reply r (some (.error message))
    | .ok data => h.issue r agent (.putAudioSettings data) (.calling agent)

def Host.register (h : Host δ) (r : Request δ) (agent : Agent)
    (draft : Except String StationDraft) : Host δ :=
  match draft with
  | .error message => h.reply r (some (.error message))
  | .ok draft => h.issue r agent (.createStation draft) (.calling agent)

def Host.resume (h : Host δ) (ticket : ℕ) (k : Request δ → Host δ) : Host δ :=
  match h.requests.get ticket with
  | none => h
  | some r => k r

/-- `e` is the start of a station action, or what one waits for. -/
def Host.concerns (h : Host δ) : Event → Bool
  | .stationAction _ _ => true
  | .session ticket _ => (h.requests.get ticket).isSome
  | _ => false

def Host.step (validateStation : δ → Except String StationDraft) (h : Host δ) :
    Happening δ → Host δ
  | .auth e => if h.concerns e then h else h.advance (Auth.step h.runtime e)
  | .request input => h.request input
  | .session ticket answer => h.resume ticket fun r =>
    match r.stage with
    | .session =>
      let h' := h.advance (Auth.step h.runtime (.session ticket (answer.map Session.scope)))
      match answer with
      | .error e => h'.reply r (some e.refusal)
      | .ok session => h'.session r session
    | _ => h
  | .imported ticket answer => h.resume ticket fun r =>
    match r.stage with
    | .importing agent =>
      match answer with
      | .error e => h.reply r (some e.refusal)
      | .ok _ => h.register r agent (validateStation r.input.draft)
    | _ => h
  | .called ticket answer => h.resume ticket fun r =>
    match r.stage, answer with
    | .reading _, .error e | .calling _, .error e => h.reply r (some e.refusal)
    | .reading agent, .ok existing => h.merge r agent existing
    | .calling _, .ok _ => h.reply r none
    | _, _ => h

def Host.init (δ : Type) (savedHandle : Option String) : Host δ where
  runtime := .init savedHandle
  requests := Table.empty
  issued := []
  replies := []

/-! ### Whose agent a call goes through -/

/-- The call goes through an agent of the actor, who was signed in when the request was accepted
and when its session was obtained; settings are written only if no new generation began during
the read. -/
def Issued.Proper (i : Issued δ) : Prop :=
  (∀ actor, i.input.actor = some actor → actor ≠ "" →
    i.agent.session.sub = actor ∧ i.agent.did = actor ∧ i.accepted = some actor ∧
      i.obtained = some actor) ∧
    ∀ data, i.call = .putAudioSettings data → i.renewed = false

/-- `getSession` answers with a session of the account asked for. -/
def Host.Answered (h : Host δ) : Happening δ → Prop
  | .session ticket (.ok session) => ∀ r ∈ h.requests.get ticket, session.sub = r.did
  | _ => True

instance (h : Host δ) : (e : Happening δ) → Decidable (h.Answered e)
  | .session _ (.ok _) => inferInstanceAs (Decidable (∀ r ∈ _, _))
  | .session _ (.error _) | .auth _ | .request _ | .imported .. | .called .. => isTrue trivial

def Stage.agent : Stage → Option Agent
  | .session => none
  | .importing agent | .reading agent | .calling agent => some agent

/-- What holds of a request while it waits. -/
structure Request.Bound (r : Request δ) (generation : ℕ) : Prop where
  accepted : r.accepted = some r.did
  actor : ∀ actor, r.input.actor = some actor → actor ≠ "" → actor = r.did
  aged : r.actionGeneration ≤ generation
  renewed : r.renewed = true → r.actionGeneration < generation
  agent : ∀ agent, r.stage.agent = some agent →
    agent.session.sub = r.did ∧ agent.did = r.did ∧ r.obtained = some r.did

structure Host.Inv (h : Host δ) : Prop where
  requests : ∀ r ∈ h.requests.rows, r.Bound h.runtime.generation
  issued : ∀ i ∈ h.issued, i.Proper

theorem Host.inv_init (savedHandle : Option String) : (Host.init δ savedHandle).Inv where
  requests := fun _ hr => nomatch hr
  issued := fun _ hi => nomatch hi

theorem generation_le_step (s : Runtime) (e : Event) :
    s.generation ≤ (Auth.step s e).generation := by
  cases hop : s.resumed e with
  | some op =>
    rw [step_of_resumed hop]
    exact Nat.le_of_eq (goes_went s op e).generation.symm
  | none =>
    cases e with
    | authorizationUrl | finalized | session | settled =>
      rw [step_of_ticket rfl hop]
    | authStart | authCancel => exact Nat.le_succ _
    | authCallback url attempt =>
      simp only [Auth.step, authCallback]
      split <;> exact Nat.le_refl _
    | authRestore stored => cases stored <;> exact Nat.le_succ _
    | authRefresh =>
      simp only [Auth.step, authRefresh]
      split <;> exact Nat.le_refl _
    | authLogout stored => cases stored <;> exact Nat.le_succ _
    | stationAction actor action =>
      simp only [Auth.step, stationAction]
      split
      · split <;> exact Nat.le_refl _
      · exact Nat.le_refl _

section Invariant

variable {h : Host δ} {r : Request δ}

theorem Request.Bound.issue (hr : r.Bound h.runtime.generation) {agent : Agent}
    (hagent : agent.session.sub = r.did ∧ agent.did = r.did ∧ r.obtained = some r.did)
    (call : Call) (hput : ∀ data, call = .putAudioSettings data → r.renewed = false) :
    Issued.Proper ⟨r.input, agent, call, r.accepted, r.obtained, r.renewed⟩ := by
  refine ⟨fun actor hactor hne => ?_, hput⟩
  rw [hr.actor actor hactor hne]
  exact ⟨hagent.1, hagent.2.1, hr.accepted, hagent.2.2⟩

theorem Request.Bound.mono {g g' : ℕ} (hr : r.Bound g) (hle : g ≤ g') : r.Bound g' :=
  ⟨hr.accepted, hr.actor, Nat.le_trans hr.aged hle,
    fun hrenewed => Nat.lt_of_lt_of_le (hr.renewed hrenewed) hle, hr.agent⟩

theorem Host.Inv.advance (hI : h.Inv) {runtime : Runtime}
    (hle : h.runtime.generation ≤ runtime.generation) : (h.advance runtime).Inv where
  requests := by
    intro r hr
    obtain ⟨r', hr', rfl⟩ := List.mem_map.1 hr
    have hbound := (hI.requests r' hr').mono hle
    refine ⟨hbound.accepted, hbound.actor, hbound.aged, fun hrenewed => ?_, hbound.agent⟩
    rcases Bool.or_eq_true_iff.1 hrenewed with hbefore | hchange
    · exact hbound.renewed hbefore
    · have hne : runtime.generation ≠ h.runtime.generation := of_decide_eq_true hchange
      exact Nat.lt_of_le_of_lt (hI.requests r' hr').aged (Nat.lt_of_le_of_ne hle hne.symm)
  issued := hI.issued

theorem Host.Inv.reply (hI : h.Inv) (r : Request δ) (refusal : Option Refusal) :
    (h.reply r refusal).Inv where
  requests := fun u hu => hI.requests u ((Table.mem_delete _ _ _).1 hu).1
  issued := hI.issued

theorem Host.Inv.refuse (hI : h.Inv) (message : String) : (h.refuse message).Inv where
  requests := hI.requests
  issued := hI.issued

theorem Host.Inv.wait (hI : h.Inv) (hr : r.Bound h.runtime.generation) {stage : Stage}
    (hstage : ∀ agent, stage.agent = some agent →
      agent.session.sub = r.did ∧ agent.did = r.did ∧ r.obtained = some r.did) :
    (h.wait r stage).Inv where
  requests := by
    intro u hu
    rcases (Table.mem_put _ _ _).1 hu with rfl | ⟨hu, -⟩
    · exact ⟨hr.accepted, hr.actor, hr.aged, nofun, hstage⟩
    · exact hI.requests u hu
  issued := hI.issued

theorem Host.Inv.issue (hI : h.Inv) (hr : r.Bound h.runtime.generation) {agent : Agent}
    (hagent : agent.session.sub = r.did ∧ agent.did = r.did ∧ r.obtained = some r.did)
    {call : Call} (hput : ∀ data, call = .putAudioSettings data → r.renewed = false)
    {stage : Stage} (hstage : stage.agent = some agent) : (h.issue r agent call stage).Inv where
  requests := by
    have hwait : (h.wait r stage).Inv := by
      refine hI.wait hr fun agent' hagent' => ?_
      rw [hstage] at hagent'
      exact Option.some.inj hagent' ▸ hagent
    exact hwait.requests
  issued := by
    intro i hi
    rcases List.mem_cons.1 hi with rfl | hi
    · exact hr.issue hagent call hput
    · exact hI.issued i hi

theorem Request.Bound.not_renewed {generation : ℕ} (hr : r.Bound generation)
    (hgen : r.actionGeneration = generation) : r.renewed = false := by
  cases hrenewed : r.renewed with
  | false => rfl
  | true => exact absurd hgen (Nat.ne_of_lt (hr.renewed hrenewed))

theorem Host.Inv.session (hI : h.Inv) (hr : r.Bound h.runtime.generation) {session : Session}
    (hsub : session.sub = r.did) : (h.session r session).Inv := by
  unfold Host.session
  split
  · exact hI.reply r _
  · rename_i hcheck
    simp only [Bool.or_eq_true, decide_eq_true_eq, not_or, not_not] at hcheck
    obtain ⟨hgen, hdid⟩ := hcheck
    have hr' : Request.Bound { r with obtained := h.runtime.state.did } h.runtime.generation :=
      ⟨hr.accepted, hr.actor, hr.aged, hr.renewed,
        fun agent hagent => ⟨(hr.agent agent hagent).1, (hr.agent agent hagent).2.1, hdid⟩⟩
    have hagent : (fromClient session).session.sub = r.did ∧ (fromClient session).did = r.did ∧
        h.runtime.state.did = some r.did := ⟨hsub, hsub, hdid⟩
    dsimp only
    split
    · exact hI.reply _ _
    · exact hI.issue hr' hagent (fun _ _ => hr.not_renewed hgen) rfl
    · exact hI.issue hr' hagent (fun _ _ => hr.not_renewed hgen) rfl
    · exact hI.wait hr' fun agent h' => Option.some.inj h' ▸ hagent

theorem Host.Inv.merge (hI : h.Inv) (hr : r.Bound h.runtime.generation) {agent : Agent}
    (hstage : r.stage = .reading agent) (existing : Option AudioSettingsData) :
    (h.merge r agent existing).Inv := by
  unfold Host.merge
  split
  · exact hI.reply r _
  · rename_i hgen
    split
    · exact hI.reply r _
    · refine hI.issue hr (hr.agent agent (congrArg Stage.agent hstage)) (fun _ _ => ?_) rfl
      exact hr.not_renewed (not_not.1 hgen)

theorem Host.Inv.register (hI : h.Inv) (hr : r.Bound h.runtime.generation) {agent : Agent}
    (hstage : r.stage = .importing agent) (draft : Except String StationDraft) :
    (h.register r agent draft).Inv := by
  unfold Host.register
  split
  · exact hI.reply r _
  · refine hI.issue hr (hr.agent agent (congrArg Stage.agent hstage)) (fun _ hput => ?_) rfl
    cases hput

theorem Host.Inv.request (hI : h.Inv) (input : ActionInput δ) : (h.request input).Inv := by
  unfold Host.request
  split
  · rename_i account hphase
    split
    · exact hI.refuse _
    · rename_i hactor
      split
      · exact hI.refuse _
      · have hadvanced := hI.advance
          (generation_le_step h.runtime (.stationAction input.actor input.action))
        refine ⟨fun u hu => ?_, hI.issued⟩
        rcases (Table.mem_put _ _ _).1 hu with rfl | ⟨hu, -⟩
        · refine ⟨?_, fun actor hsome hne => ?_,
            generation_le_step h.runtime (.stationAction input.actor input.action),
            nofun, nofun⟩
          · simp only [AuthState.did, hphase]
          · by_contra hother
            have hsome' : input.actor = some actor := hsome
            rw [hsome', Option.any_some] at hactor
            exact hactor (Bool.and_eq_true_iff.2 ⟨decide_eq_true hne, decide_eq_true hother⟩)
        · exact hadvanced.requests u hu
  · exact hI.refuse _

theorem Host.Inv.resume (hI : h.Inv) (ticket : ℕ) {k : Request δ → Host δ}
    (hk : ∀ r ∈ h.requests.get ticket, r.Bound h.runtime.generation → (k r).Inv) :
    (h.resume ticket k).Inv := by
  unfold Host.resume
  cases hget : h.requests.get ticket with
  | none => exact hI
  | some r => exact hk r hget (hI.requests r ((Table.get_eq_some _ _ _).1 hget).1)

end Invariant

theorem Host.inv_step (validateStation : δ → Except String StationDraft) {h : Host δ}
    (hI : h.Inv) {e : Happening δ} (ha : h.Answered e) : (h.step validateStation e).Inv := by
  cases e with
  | auth e =>
    simp only [Host.step]
    split
    · exact hI
    · exact hI.advance (generation_le_step _ _)
  | request input => exact hI.request input
  | session ticket answer =>
    refine hI.resume ticket fun r hget hr => ?_
    split
    · have hle := generation_le_step h.runtime (.session ticket (answer.map Session.scope))
      have hadvanced := hI.advance hle
      cases answer with
      | error e => exact hadvanced.reply r _
      | ok session => exact hadvanced.session (hr.mono hle) (ha r hget)
    · exact hI
  | imported ticket answer =>
    refine hI.resume ticket fun r hget hr => ?_
    split
    · rename_i agent hstage
      cases answer with
      | error e => exact hI.reply r _
      | ok _ => exact hI.register hr hstage _
    · exact hI
  | called ticket answer =>
    refine hI.resume ticket fun r hget hr => ?_
    split
    · exact hI.reply r _
    · exact hI.reply r _
    · rename_i agent existing hstage
      exact hI.merge hr hstage existing
    · exact hI.reply r _
    · exact hI

/-- No call is made across accounts. -/
theorem issued_proper (validateStation : δ → Except String StationDraft)
    (savedHandle : Option String) (es : List (Happening δ))
    (ha : AllSteps (Host.step validateStation) Host.Answered (Host.init δ savedHandle) es) :
    ∀ i ∈ (run (Host.step validateStation) (Host.init δ savedHandle) es).issued, i.Proper :=
  (run_invariant (I := Host.Inv) (fun _ _ hI ha => Host.inv_step validateStation hI ha)
    (Host.inv_init savedHandle) ha).issued

def actionOf (action : String) : ActionInput Unit where
  actor := some "did:plc:a"
  action := action
  station := stationOf "rb:1"
  settings := ⟨none, false, EQ_BANDS_HZ.map fun frequency => ⟨frequency, 10, 0⟩⟩
  draft := ()
  text := none
  gif := none
  emoji := none
  uri := none

def consent : String := "atproto repo:fm.atradio.favorite repo:fm.atradio.audio.settings"

/-- A favorite and a save of the equalizer, whose read ends after a logout. -/
def interrupted : List (Happening Unit) :=
  [.auth (.authRestore ["did:plc:a"]), .auth (.session 0 (.ok (some consent))), .auth (.settled 0),
    .request (actionOf "favorite"), .request (actionOf "saveEqualizer"),
    .session 1 (.ok ⟨"did:plc:a", some consent⟩), .session 2 (.ok ⟨"did:plc:a", some consent⟩),
    .called 1 (.ok none), .auth (.authLogout []), .called 2 (.ok none)]

def noDraft (_ : Unit) : Except String StationDraft := .error "A station name is required."

theorem interrupted_proper :
    (run (Host.step noDraft) (Host.init Unit none) interrupted).issued.length = 2 ∧
      ∀ i ∈ (run (Host.step noDraft) (Host.init Unit none) interrupted).issued, i.Proper :=
  ⟨by decide, issued_proper noDraft none interrupted (by decide)⟩

example : (run (Host.step noDraft) (Host.init Unit none) interrupted).replies =
    [(2, some (.error "Account changed; equalizer save canceled.")), (1, none)] := by decide

end Atradio.App.Auth
