import Atradio.Cli.Tui.State

/-! # What the loop of the terminal UI keeps and does (`tui/mod.rs`)

Background jobs and their messages, and the player behind the app. A job that ends and its message
being taken from the channel are one step. -/

namespace Atradio.Cli
open Atradio.Audio Atradio.Connect Atradio.Lib

/-- The lists that are fetched for an account. -/
inductive AccountList where
  | favorites
  | stations
  | profileRecent
  | notifications

structure StationDraft where
  name : String
  streamUrl : String
  genre : Option String
  homepage : Option String
  logo : Option String

/-- A background job; an actor is asked for by its handle. -/
inductive Job where
  | trending
  | popular
  | recentGlobal
  | load (list : AccountList) (actor : Profile)
  | comments (stationId : String)
  | search (query : String)
  | resolve (station : StationInfo)
  | registerClick (stationId : String)
  | setPlayStatus (station : StationInfo) (actor : Option Profile)
  | deletePlayStatus
  | createStation (draft : StationDraft) (actor : Option Profile)
  | favorite (station : StationInfo)
  | comment (station : StationInfo) (text : String)
  | updateSeen (actor : Profile)

inductive Answer where
  | failed
  | done
  | stations (items : List StationInfo)
  | played (stations : List StationInfo) (actors : List String)
  | comments (items : List CommentView)
  | notifications (items : List NotificationView) (unread : ℕ)
  | resolved (r : Resolved)

inductive Msg where
  | trending (items : List StationInfo)
  | popular (items : List StationInfo)
  | favorites (items : List StationInfo)
  | stations (items : List StationInfo)
  | recentGlobal (stations : List StationInfo) (actors : List String)
  | profileRecent (items : List StationInfo)
  | searchResults (query : String) (items : List StationInfo)
  | comments (items : List CommentView)
  | notifications (items : List NotificationView) (unread : ℕ)
  | signedIn (p : Profile)
  | playResolved (stationId url : String)

def Job.message : Job → Answer → Option Msg
  | .trending, .stations items => some (.trending items)
  | .popular, .stations items => some (.popular items)
  | .recentGlobal, .played stations actors => some (.recentGlobal stations actors)
  | .load .favorites _, .stations items => some (.favorites items)
  | .load .stations _, .stations items => some (.stations items)
  | .load .profileRecent _, .stations items => some (.profileRecent items)
  | .load .notifications _, .notifications items unread => some (.notifications items unread)
  | .comments _, .comments items => some (.comments items)
  | .search query, .stations items => some (.searchResults query items)
  | .resolve s, .resolved r => if r.isHls then none else some (.playResolved s.stationId r.url)
  | .createStation _ (some _), .stations items => some (.stations items)
  | _, _ => none

def Job.next : Job → Answer → List Job
  | .setPlayStatus _ actor, .done => .recentGlobal :: (actor.map (Job.load .profileRecent)).toList
  | _, _ => []

/-- The list that the message of a job replaces, and the account it was asked for. -/
def Job.account : Job → Option (AccountList × Profile)
  | .load list actor => some (list, actor)
  | .createStation _ (some actor) => some (.stations, actor)
  | _ => none

def Job.resolving : Job → Option StationInfo
  | .resolve s => some s
  | _ => none

def App.clampProfile (a : App) : App :=
  if a.profileRecent.length ≤ a.profileRecentSelected then
    { a with profileRecentSelected := a.profileRecent.length - 1 }
  else a

def App.applyMsg (a : App) : Msg → App
  | .trending items => { a with trending := items }.clampSelection
  | .popular items => { a with popular := items }
  | .favorites items => { a with favorites := items }
  | .stations items => { a with stations := items }
  | .recentGlobal stations actors => { a with recent := stations, recentActors := actors }
  | .profileRecent items => { a with profileRecent := items }.clampProfile
  | .searchResults query items =>
    if query = a.searchQuery ∨ a.searchQuery = "" then
      { a with searchResults := items, searchSelected := 0 }
    else a
  | .comments items => { a with comments := items, commentsSelected := 0 }
  | .notifications items unread => { a with notifications := items, unread }
  | .signedIn p =>
    { a with
      loggedIn := true, handle := some p.handle, displayName := p.displayName, did := some p.did
      method := some p.method, pds := p.pds, overlay := .none }
  | .playResolved _ _ => a

/-- What `get_audio_settings` ends with. -/
inductive Fetched where
  | record (audio : AudioSettings)
  | nothing
  | failed

/-- What the loop has done. `playUrl` names the station whose stream was resolved, `listed` the
account that a list was asked for. -/
inductive Call where
  | load (station : StationInfo)
  | playUrl (station : StationInfo) (url : String)
  | player (call : PlayerCall)
  | command (target : String) (cmd : RemoteCmd)
  | broadcast (state : GrpcState)
  | listed (list : AccountList) (actor : Profile)
  | fetched (account : Profile) (result : Fetched)
  | saveSettings (audio : AudioSettings) (volume : ℚ)
  | putAudio (account : Profile) (audio : AudioSettings)

/-- Whether an entry tells nothing of playback. -/
def Call.inert : Call → Bool
  | .command _ _ | .listed _ _ | .fetched _ _ | .saveSettings _ _ | .putAudio _ _ => true
  | .load _ | .playUrl _ _ | .player _ | .broadcast _ => false

/-- `session` is the profile in the session file; `calls` has the last call first. -/
structure Tui (E : Engine) where
  app : App
  player : Player E
  session : Option Profile
  jobs : List Job
  listRefresh : ℕ
  grpcVersion : ℕ
  ended : Bool
  calls : List Call

namespace Tui

variable {E : Engine}

def edit (t : Tui E) (f : App → App) : Tui E := { t with app := f t.app }

def spawn (t : Tui E) (jobs : List Job) : Tui E := { t with jobs := t.jobs ++ jobs }

def log (t : Tui E) (c : Call) : Tui E := { t with calls := c :: t.calls }

def callPlayer (t : Tui E) (c : PlayerCall) : Tui E :=
  { t with player := t.player.call c, calls := .player c :: t.calls }

/-- `player.play_url` for a resolution of the station. -/
def playUrl (t : Tui E) (s : StationInfo) (url : String) : Tui E :=
  { t with player := t.player.playUrl url, calls := .playUrl s url :: t.calls }

def isLoggedIn (t : Tui E) : Bool := t.session.isSome

def command (t : Tui E) (target : String) (cmd : RemoteCmd) : Tui E :=
  t.log (.command target cmd)

def drive (t : Tui E) (r : GrpcRemote) : Tui E := t.edit fun a => { a with grpcRemote := some r }

def startJobs (t : Tui E) (s : StationInfo) : List Job :=
  [.resolve s, .registerClick s.stationId] ++
    if t.isLoggedIn then [.setPlayStatus s t.session] else []

def startPlaying (t : Tui E) (s : StationInfo) : Tui E :=
  ((t.edit fun a => { a with current := some s }).log (.load s)).spawn (t.startJobs s)

/-- The stations whose streams are being resolved. -/
def pending (t : Tui E) : List StationInfo := t.jobs.filterMap Job.resolving

end Tui

end Atradio.Cli
