import Atradio.Cli.Grpc
import Atradio.Cli.Player
import Atradio.Cli.Resolve

/-! # The state of the terminal UI (`tui/state.rs`)

Toasts are left out, and so are the mouse and the size of the terminal. -/

namespace Atradio.Cli
open Atradio.Audio Atradio.Connect Atradio.Lib

inductive View where
  | home
  | dsp
  | comments
  | notifications
  | profile
  | help
  deriving DecidableEq

inductive Overlay where
  | none
  | search
  | compose
  | signIn
  | addStation
  | devices
  deriving DecidableEq

structure AddStationForm where
  name : String := ""
  streamUrl : String := ""
  genre : String := ""
  homepage : String := ""
  logo : String := ""
  focus : ℕ := 0

def trim (s : String) : String := String.ofList (trimOf isWhiteSpace s.toList)

/-- `String::pop` -/
def popChar (s : String) : String := String.ofList s.toList.dropLast

namespace AddStationForm

def FIELD_COUNT : ℕ := 5

/-- An edit through `field_mut(focus)`. -/
def editField (f : AddStationForm) (g : String → String) : AddStationForm :=
  match f.focus with
  | 0 => { f with name := g f.name }
  | 1 => { f with streamUrl := g f.streamUrl }
  | 2 => { f with genre := g f.genre }
  | 3 => { f with homepage := g f.homepage }
  | _ => { f with logo := g f.logo }

def isValid (f : AddStationForm) : Bool := trim f.name ≠ "" ∧ trim f.streamUrl ≠ ""

end AddStationForm

inductive HomeTab where
  | trending
  | popular
  | recent
  | favorites
  | yours
  deriving DecidableEq

namespace HomeTab

def ORDER : List HomeTab := [.popular, .recent, .trending, .favorites, .yours]

def index (t : HomeTab) : ℕ := (ORDER.findIdx? (· = t)).getD 0

def next (t : HomeTab) : HomeTab := ORDER.getD ((t.index + 1) % ORDER.length) .popular

def prev (t : HomeTab) : HomeTab :=
  ORDER.getD ((t.index + ORDER.length - 1) % ORDER.length) .popular

end HomeTab

structure CommentView where
  uri : String

structure NotificationView where
  uri : String

/-- A signed-in account (`Profile` of the SDK). -/
structure Profile where
  did : String
  handle : String
  displayName : Option String
  pds : Option String
  method : String

/-- `remoteControl` says whether there is a handle; what it sends is in the log of the loop. -/
structure App where
  view : View
  overlay : Overlay
  shouldQuit : Bool
  homeTab : HomeTab
  trending : List StationInfo
  popular : List StationInfo
  favorites : List StationInfo
  stations : List StationInfo
  recent : List StationInfo
  recentActors : List String
  profileRecent : List StationInfo
  profileRecentSelected : ℕ
  selected : ℕ
  searchQuery : String
  searchResults : List StationInfo
  searchSelected : ℕ
  searchDirty : Bool
  composeText : String
  signinInput : String
  pendingOauth : Option String
  addForm : AddStationForm
  comments : List CommentView
  commentsSelected : ℕ
  commentsStation : Option StationInfo
  notifications : List NotificationView
  unread : ℕ
  current : Option StationInfo
  volume : ℚ
  muted : Bool
  remoteControl : Bool
  remoteDevices : List Device
  remoteTarget : Option String
  selfDeviceId : Option String
  connectOnline : Bool
  deviceSel : ℕ
  grpcRemote : Option GrpcRemote
  grpcConnError : Option String
  dsp : AudioSettings
  dspRow : ℕ
  loggedIn : Bool
  handle : Option String
  displayName : Option String
  did : Option String
  method : Option String
  pds : Option String
  envCreds : Option (String × String)

namespace App

def new (loggedIn : Bool) (handle : Option String) : App where
  view := .home
  overlay := .none
  shouldQuit := false
  homeTab := .popular
  trending := []
  popular := []
  favorites := []
  stations := []
  recent := []
  recentActors := []
  profileRecent := []
  profileRecentSelected := 0
  selected := 0
  searchQuery := ""
  searchResults := []
  searchSelected := 0
  searchDirty := false
  composeText := ""
  signinInput := ""
  pendingOauth := none
  addForm := {}
  comments := []
  commentsSelected := 0
  commentsStation := none
  notifications := []
  unread := 0
  current := none
  volume := 4 / 5
  muted := false
  remoteControl := false
  remoteDevices := []
  remoteTarget := none
  selfDeviceId := none
  connectOnline := false
  deviceSel := 0
  grpcRemote := none
  grpcConnError := none
  dsp := AudioSettings.default
  dspRow := 0
  loggedIn := loggedIn
  handle := handle
  displayName := none
  did := none
  method := none
  pds := none
  envCreds := none

def remoteTargetDevice (a : App) : Option Device :=
  a.remoteTarget.bind fun id => a.remoteDevices.find? fun d => d.id = id && !d.isSelf

def remoteActive (a : App) : Bool := a.remoteTargetDevice.isSome

def otherDevices (a : App) : List Device := a.remoteDevices.filter (!·.isSelf)

def activeList (a : App) : List StationInfo :=
  match a.homeTab with
  | .trending => a.trending
  | .popular => a.popular
  | .recent => a.recent
  | .favorites => a.favorites
  | .yours => a.stations

def selectedStation (a : App) : Option StationInfo := a.activeList[a.selected]?

def clampSelection (a : App) : App :=
  let len := a.activeList.length
  if len = 0 then { a with selected := 0 }
  else if len ≤ a.selected then { a with selected := len - 1 } else a

/-- The score of a name for a query, none where it does not match (`SkimMatcherV2`). -/
abbrev FuzzyMatch := String → String → Option ℤ

/-- Higher scores first, in the order of the results among equal ones. -/
def rankedSearch (fuzzy : FuzzyMatch) (a : App) : List (ℤ × StationInfo) :=
  if a.searchQuery = "" then a.searchResults.map fun s => (0, s)
  else
    (a.searchResults.filterMap fun s => (fuzzy s.name a.searchQuery).map (·, s)).mergeSort
      fun x y => y.1 ≤ x.1

end App

end Atradio.Cli
