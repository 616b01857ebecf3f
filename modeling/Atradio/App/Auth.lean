import Atradio.Lib.Run
import Atradio.Lib.Table

/-! # Signing in on mobile (`auth/runtime.ts`)

The commands share `state`, `generation`, `currentHandle` and `previousState` across their awaits.
What the OAuth library answers, and when, comes as events. -/

namespace Atradio.App.Auth
open Atradio.Lib

structure Profile where
  did : String
  handle : String
deriving DecidableEq

structure Account where
  profile : Profile
  canFavorite : Bool
  canSyncEqualizer : Bool
  canPublishPlays : Bool
deriving DecidableEq

inductive Phase where
  | signedOut (error : Option String)
  | starting
  | authorizing (url : Option String)
  | restoring
  | error (error : String)
  | signedIn (account : Account)
deriving DecidableEq

structure AuthState where
  phase : Phase
  offline : Bool
deriving DecidableEq

def AuthState.of (phase : Phase) : AuthState := ⟨phase, false⟩

def signedOut : AuthState := .of (.signedOut none)

def revoked : AuthState :=
  .of (.signedOut (some "Your session was revoked or expired. Sign in again."))

structure Session where
  sub : String
  scope : Option String

/-- The white space of `\s`. -/
def isSpace (c : Char) : Bool :=
  c.val ∈ [0x20, 0xa0, 0x1680, 0x2028, 0x2029, 0x202f, 0x205f, 0x3000, 0xfeff] ||
    (0x9 ≤ c.val && c.val ≤ 0xd) || (0x2000 ≤ c.val && c.val ≤ 0x200a)

def Session.grants (session : Session) (permission : String) : Bool :=
  session.scope.any fun scope => permission.toList ∈ scope.toList.splitOnP isSpace

def signedIn (session : Session) (handle : String) : AuthState :=
  .of (.signedIn {
    profile := ⟨session.sub, if handle = "" then session.sub else handle⟩
    canFavorite := session.grants "repo:fm.atradio.favorite"
    canSyncEqualizer := session.grants "repo:fm.atradio.audio.settings"
    canPublishPlays := session.grants "repo:fm.atradio.actor.status" })

/-- A rejection: a `TokenRefreshError`, or anything else with its message if it is an `Error`. -/
inductive Failure where
  | tokenRefresh (message : String)
  | other (message : Option String)

def Failure.text : Failure → String
  | tokenRefresh message => message
  | other message => message.getD "Sign-in failed. Please retry."

/-- What the work of a `task` awaits; it has `returned` when only the `then` is to run. -/
inductive Awaits where
  | authorizationUrl
  | finalizeAuthorization
  | session (did : String)
  | staleSession (did : String)
  | returned (next : Except Failure AuthState)

inductive Work where
  /-- `attempt` is the ticket of the sign-in or the restore that the task belongs to. -/
  | task (attempt : ℕ) (awaits : Awaits)
  | refresh (did : String)
  | stationAction (did : String)
  /-- The loop of a logout is at `did`. -/
  | logout (did : String) (rest : List String)

/-- A command between two awaits, with the generation it has read. -/
structure Op where
  ticket : ℕ
  gen : ℕ
  work : Work

structure Runtime where
  state : AuthState
  generation : ℕ
  currentHandle : String
  previousState : AuthState
  /-- `atradio-mobile-handle` in the local storage -/
  savedHandle : Option String
  /-- The accounts `deleteStoredSession` was called for. -/
  deleted : List String
  started : ℕ
  ops : Table Op.ticket

structure Url where
  origin : String
  pathname : String

/-- Commands, and what they await. `getSession` answers with a session of the account asked for,
so that only its scope is open. -/
inductive Event where
  | authStart (signup : Bool) (argument : String)
  /-- `url` is none where `new URL` throws. The code does not look which `attempt` it answers. -/
  | authCallback (url : Option Url) (attempt : ℕ)
  | authCancel
  | authRestore (stored : List String)
  | authRefresh
  | authLogout (stored : List String)
  | stationAction (actor : Option String) (action : String)
  | authorizationUrl (ticket : ℕ) (answer : Except Failure String)
  | finalized (ticket : ℕ) (answer : Except Failure Session)
  | session (ticket : ℕ) (answer : Except Failure (Option String))
  /-- The `then` or the `catch` of a task runs. -/
  | settled (ticket : ℕ)

/-! ### Commands -/

def Runtime.await (s : Runtime) (work : Work) : Runtime :=
  { s with started := s.started + 1, ops := s.ops.put ⟨s.started, s.generation, work⟩ }

def Runtime.goOn (s : Runtime) (op : Op) (work : Work) : Runtime :=
  { s with ops := s.ops.put { op with work } }

def Runtime.done (s : Runtime) (op : Op) : Runtime :=
  { s with ops := s.ops.delete op.ticket }

def authStart (s : Runtime) (signup : Bool) (argument : String) : Runtime :=
  { s with
    generation := s.generation + 1
    previousState := match s.state.phase with
      | .signedIn _ => s.state
      | _ => signedOut
    currentHandle := if signup then "" else argument
    state := .of .starting }.await (.task s.started .authorizationUrl)

def isCallback (url : Option Url) : Bool :=
  url.any fun u => u.origin = "https://atradio.fm" && u.pathname = "/oauth/callback"

def authCallback (s : Runtime) (url : Option Url) (attempt : ℕ) : Runtime :=
  if isCallback url then
    { s with state := .of (.authorizing none) }.await (.task attempt .finalizeAuthorization)
  else s

def authCancel (s : Runtime) : Runtime :=
  { s with
    generation := s.generation + 1
    state := match s.state.phase with
      | .starting | .authorizing _ | .error _ => s.previousState
      | _ => s.state }

def authRestore (s : Runtime) (stored : List String) : Runtime :=
  let s' := { s with generation := s.generation + 1, state := .of .restoring }
  match stored with
  | [] => s'.await (.task s.started (.returned (.ok signedOut)))
  | did :: _ =>
    { s' with currentHandle := s.savedHandle.getD "" }.await (.task s.started (.session did))

def authRefresh (s : Runtime) : Runtime :=
  match s.state.phase with
  | .signedIn account => s.await (.refresh account.profile.did)
  | _ => s

def authLogout (s : Runtime) (stored : List String) : Runtime :=
  let s' := { s with
    generation := s.generation + 1, state := signedOut, previousState := signedOut }
  match stored with
  | [] => { s' with savedHandle := none }
  | did :: rest => s'.await (.logout did rest)

def stationActions : List String :=
  ["comment", "reaction", "deleteComment", "registerStation", "playStatus", "getAudioSettings",
    "saveEqualizer", "listFavorites", "favorite", "unfavorite"]

/-- Up to the session check. What comes after it reads these variables only. -/
def stationAction (s : Runtime) (actor : Option String) (action : String) : Runtime :=
  match s.state.phase with
  | .signedIn account =>
    if actor.any (fun a => a ≠ "" && a ≠ account.profile.did) || action ∉ stationActions then s
    else s.await (.stationAction account.profile.did)
  | _ => s

/-! ### After an await -/

def authorizationUrl (s : Runtime) (op : Op) (answer : Except Failure String) : Runtime :=
  match op.work with
  | .task attempt .authorizationUrl =>
    s.goOn op (.task attempt (.returned (answer.map fun url => .of (.authorizing (some url)))))
  | _ => s

def finalized (s : Runtime) (op : Op) (answer : Except Failure Session) : Runtime :=
  match op.work with
  | .task attempt .finalizeAuthorization =>
    match answer with
    | .error e => s.goOn op (.task attempt (.returned (.error e)))
    | .ok session =>
      if op.gen ≠ s.generation then
        { s with deleted := session.sub :: s.deleted }.goOn op
          (.task attempt (.returned (.ok signedOut)))
      else
        { s with savedHandle := some s.currentHandle }.goOn op
          (.task attempt (.returned (.ok (signedIn session s.currentHandle))))
  | _ => s

/-- `getSession` has answered a command that awaits it. -/
def session (s : Runtime) (op : Op) (answer : Except Failure (Option String)) : Runtime :=
  match op.work with
  | .task attempt (.session did) =>
    match answer with
    | .ok scope =>
      s.goOn op (.task attempt (.returned (.ok (signedIn ⟨did, scope⟩ s.currentHandle))))
    | .error (.tokenRefresh _) =>
      { s with deleted := did :: s.deleted }.goOn op (.task attempt (.returned (.ok signedOut)))
    | .error (.other _) => s.goOn op (.task attempt (.staleSession did))
  | .task attempt (.staleSession did) =>
    s.goOn op (.task attempt (.returned (answer.map fun scope =>
      { signedIn ⟨did, scope⟩ s.currentHandle with offline := true })))
  | .refresh did =>
    if op.gen = s.generation then
      match answer with
      | .ok scope => { s.done op with state := signedIn ⟨did, scope⟩ s.currentHandle }
      | .error (.tokenRefresh _) =>
        { s.done op with deleted := did :: s.deleted, state := revoked }
      | .error (.other _) => { s.done op with state := { s.state with offline := true } }
    else s.done op
  | .stationAction did =>
    match answer with
    -- the generation is not compared here
    | .error (.tokenRefresh _) =>
      { s.done op with deleted := did :: s.deleted, state := revoked }
    | _ => s.done op
  | .logout did rest =>
    match rest with
    | [] => { s.done op with deleted := did :: s.deleted, savedHandle := none }
    | next :: rest => { s with deleted := did :: s.deleted }.goOn op (.logout next rest)
  | .task _ _ => s

def settled (s : Runtime) (op : Op) : Runtime :=
  match op.work with
  | .task _ (.returned next) =>
    if s.generation = op.gen then
      match next with
      | .ok state => { s.done op with state }
      | .error e => { s.done op with state := .of (.error e.text) }
    else s.done op
  | _ => s

def Runtime.resume (s : Runtime) (ticket : ℕ) (k : Op → Runtime) : Runtime :=
  match s.ops.get ticket with
  | none => s
  | some op => k op

def step (s : Runtime) : Event → Runtime
  | .authStart signup argument => authStart s signup argument
  | .authCallback url attempt => authCallback s url attempt
  | .authCancel => authCancel s
  | .authRestore stored => authRestore s stored
  | .authRefresh => authRefresh s
  | .authLogout stored => authLogout s stored
  | .stationAction actor action => stationAction s actor action
  | .authorizationUrl ticket answer => s.resume ticket fun op => authorizationUrl s op answer
  | .finalized ticket answer => s.resume ticket fun op => finalized s op answer
  | .session ticket answer => s.resume ticket fun op => session s op answer
  | .settled ticket => s.resume ticket fun op => settled s op

def Runtime.init (savedHandle : Option String) : Runtime where
  state := signedOut
  generation := 0
  currentHandle := ""
  previousState := signedOut
  savedHandle := savedHandle
  deleted := []
  started := 0
  ops := Table.empty

end Atradio.App.Auth
