import Atradio.Lib.Paging
import Atradio.Jetstream.Records

/-! # The list endpoints of the AppView (`xrpc/index.ts`)

The tables hold times in microseconds; a `Date` and its ISO text hold milliseconds. -/

namespace Atradio.Xrpc
open Atradio.Lib Atradio.Jetstream

/-! ### Tables -/

structure UserRow where
  did : String
  handle : Option String
  displayName : Option String
  avatarUrl : Option String

structure StationRow where
  uri : String
  did : String
  rkey : String
  name : String
  streamUrl : String
  description : Option String
  genre : Option String
  homepage : Option String
  logoUrl : Option String
  tags : Option (List String)
  createdAt : Option ℤ
  indexedAt : ℤ

structure FavoriteRow where
  uri : String
  did : String
  station : StationInfo
  createdAt : Option ℤ
  indexedAt : ℤ

structure PlayRow where
  did : String
  stationId : String
  station : StationInfo
  playedAt : ℤ

structure CommentRow where
  uri : String
  did : String
  stationId : String
  station : StationInfo
  text : String
  facets : Option (List Mention)
  gif : Option GifEmbed
  createdAt : Option ℤ
  indexedAt : ℤ

structure NotificationRow where
  recipientDid : String
  authorDid : String
  reason : String
  subjectUri : String
  station : Option StationInfo
  text : Option String
  createdAt : ℤ

structure SeenRow where
  did : String
  lastSeenAt : ℤ

structure Db where
  users : List UserRow
  stations : List StationRow
  favorites : List FavoriteRow
  recentlyPlayed : List PlayRow
  comments : List CommentRow
  notifications : List NotificationRow
  notificationSeen : List SeenRow

/-- The instant a `Date` and its ISO text keep of a timestamp. -/
def isoDate (t : ℤ) : ℤ := t / 1000 * 1000

theorem isoDate_le (t : ℤ) : isoDate t ≤ t := by
  unfold isoDate
  omega

/-! ### Requests -/

inductive SortOrder where
  | recent
  | name
  | nameDesc
  deriving DecidableEq

structure PageLimit where
  val : ℕ
  pos : 1 ≤ val
  le : val ≤ 100

/-- Clamp a raw `limit` (an integer, or no number) to [1, 100] with a fallback default. -/
def clampLimit (raw : Option ℤ) (fallback : PageLimit) : PageLimit :=
  let n := if raw.getD 0 = 0 then (fallback.val : ℤ) else raw.getD 0
  { val := (min (max 1 n) 100).toNat
    pos := by omega
    le := by omega }

/-- Query params of the list endpoints, with the DID the actor resolves to. -/
structure ListParams where
  did : String
  limit : PageLimit
  cursor : Option ℤ
  q : Option String
  source : Option StationSource
  sort : SortOrder

/-- Query params of the other endpoints. -/
structure FeedParams where
  limit : Option ℤ
  cursor : Option ℤ

/-! ### Answers -/

structure StationView where
  uri : String
  station : StationInfo
  createdAt : ℤ

structure StationListOutput extends Page StationView ℤ where
  total : ℕ

structure ActorInfo where
  did : String
  handle : Option String
  displayName : Option String
  avatar : Option String

structure PlayView where
  station : StationInfo
  playedAt : ℤ
  actor : Option ActorInfo

structure CommentView where
  uri : String
  author : ActorInfo
  station : StationInfo
  text : String
  facets : Option (List Mention)
  gif : Option GifEmbed
  createdAt : ℤ

structure CommentListOutput extends Page CommentView ℤ where
  total : ℕ

structure NotificationView where
  uri : String
  reason : String
  author : ActorInfo
  station : Option StationInfo
  text : Option String
  createdAt : ℤ
  isRead : Bool

structure NotificationListOutput extends Page NotificationView ℤ where
  unreadCount : ℕ

def Db.actor (db : Db) (did : String) : ActorInfo :=
  let user := db.users.find? fun u => u.did = did
  { did, handle := user.bind (·.handle), displayName := user.bind (·.displayName)
    avatar := user.bind (·.avatarUrl) }

/-! ### Groups of plays -/

/-- The plays of one station, or of one actor. -/
structure PlayGroup where
  first : PlayRow
  others : List PlayRow

/-- `max(played_at)` -/
def PlayGroup.lastPlayed (g : PlayGroup) : ℤ :=
  g.others.foldl (fun t p => max t p.playedAt) g.first.playedAt

/-- `(array_agg(… ORDER BY played_at DESC))[1]` -/
def PlayGroup.latest (g : PlayGroup) : PlayRow :=
  g.others.foldl (fun a p => if a.playedAt < p.playedAt then p else a) g.first

theorem PlayGroup.latest_playedAt (g : PlayGroup) : g.latest.playedAt = g.lastPlayed := by
  obtain ⟨first, others⟩ := g
  unfold latest lastPlayed
  induction others generalizing first with
  | nil => rfl
  | cons p others ih =>
    simp only [List.foldl_cons]
    split
    · rename_i h
      rw [max_eq_right h.le]
      exact ih p
    · rename_i h
      rw [max_eq_left (not_lt.1 h)]
      exact ih first

/-- Put a play into the group of its key. -/
def addPlay (key : PlayRow → String) : List PlayGroup → PlayRow → List PlayGroup
  | [], p => [⟨p, []⟩]
  | g :: gs, p =>
    if key g.first = key p then { g with others := g.others ++ [p] } :: gs
    else g :: addPlay key gs p

def groupBy (key : PlayRow → String) (plays : List PlayRow) : List PlayGroup :=
  plays.foldl (addPlay key) []

/-! ### The database -/

/-- What the endpoints leave to the database: its `ILIKE`, and the order of each query's rows,
where rows of one time may come in any order. -/
structure Postgres where
  ilike : String → String → Bool
  favorites : ℕ → SortOrder → List FavoriteRow → List FavoriteRow
  stations : ℕ → SortOrder → List StationRow → List StationRow
  plays : ℕ → List PlayGroup → List PlayGroup
  comments : ℕ → List CommentRow → List CommentRow
  notifications : ℕ → List NotificationRow → List NotificationRow
  favorites_recent : ∀ n, Sorts (fun r => some r.indexedAt) (favorites n .recent)
  stations_recent : ∀ n, Sorts (fun r => some r.indexedAt) (stations n .recent)
  plays_recent : ∀ n, Sorts (fun g => some g.lastPlayed) (plays n)
  comments_recent : ∀ n, Sorts (fun r => r.createdAt) (comments n)
  notifications_recent : ∀ n, Sorts (fun r => some r.createdAt) (notifications n)

section Endpoints

variable (pg : Postgres) (db : Db)

/-! ### Favorites and stations -/

def contains (q : String) : String := "%" ++ q ++ "%"

def favoriteMatches (params : ListParams) (r : FavoriteRow) : Bool :=
  r.did = params.did &&
    params.source.all (fun s => r.station.source = s) &&
    params.q.all fun q => pg.ilike r.station.name (contains q) ||
      r.station.genre.any fun g => pg.ilike g (contains q)

def favoritesOf (params : ListParams) : Listing FavoriteRow ℤ :=
  { rows := db.favorites.filter (favoriteMatches pg params), time := fun r => some r.indexedAt }

def favoriteView (r : FavoriteRow) : StationView :=
  { uri := r.uri, station := r.station, createdAt := isoDate (r.createdAt.getD r.indexedAt) }

/-- `getFavorites`; `n` numbers the queries. -/
def getFavorites (n : ℕ) (params : ListParams) : StationListOutput :=
  let L := favoritesOf pg db params
  let cursor := if params.sort = .recent then params.cursor else none
  let page := L.page isoDate params.limit.val
    (pg.favorites n params.sort (L.rows.filter (L.before cursor)))
  { items := page.items.map favoriteView
    cursor := if params.sort = .recent then page.cursor else none
    total := L.rows.length }

def stationRowToInfo (r : StationRow) : StationInfo :=
  { stationId := "custom:" ++ r.rkey, name := r.name, streamUrl := r.streamUrl, source := .custom,
    description := r.description, genre := r.genre, homepage := r.homepage, logo := r.logoUrl,
    country := none, language := none, bitrate := none, codec := none, tags := r.tags }

def stationMatches (params : ListParams) (r : StationRow) : Bool :=
  r.did = params.did &&
    params.q.all fun q => pg.ilike r.name (contains q) ||
      r.genre.any fun g => pg.ilike g (contains q)

/-- Every station is custom; any other source filter yields nothing. -/
def stationsOf (params : ListParams) : Listing StationRow ℤ :=
  { rows := if params.source.all (· = .custom) then db.stations.filter (stationMatches pg params)
            else []
    time := fun r => some r.indexedAt }

def stationView (r : StationRow) : StationView :=
  { uri := r.uri, station := stationRowToInfo r
    createdAt := isoDate (r.createdAt.getD r.indexedAt) }

def getStations (n : ℕ) (params : ListParams) : StationListOutput :=
  if params.source.all (· = .custom) then
    let L := stationsOf pg db params
    let cursor := if params.sort = .recent then params.cursor else none
    let page := L.page isoDate params.limit.val
      (pg.stations n params.sort (L.rows.filter (L.before cursor)))
    { items := page.items.map stationView
      cursor := if params.sort = .recent then page.cursor else none
      total := L.rows.length }
  else { items := [], cursor := none, total := 0 }

/-! ### Plays -/

def fallbackThirty : PageLimit := ⟨30, by decide, by decide⟩
def fallbackFifty : PageLimit := ⟨50, by decide, by decide⟩

def recentlyPlayedOf (did : String) : Listing PlayGroup ℤ :=
  { rows := groupBy (·.stationId) (db.recentlyPlayed.filter fun p => p.did = did)
    time := fun g => some g.lastPlayed }

def playView (g : PlayGroup) : PlayView :=
  { station := g.latest.station, playedAt := isoDate g.lastPlayed, actor := none }

def getRecentlyPlayed (n : ℕ) (did : String) (params : FeedParams) : Page PlayView ℤ :=
  let L := recentlyPlayedOf db did
  let page := L.page isoDate (clampLimit params.limit fallbackThirty).val
    (pg.plays n (L.rows.filter (L.before params.cursor)))
  { items := page.items.map playView, cursor := page.cursor }

/-- One group for each actor: a user row is one for its DID. -/
def globalRecentlyPlayedOf : Listing PlayGroup ℤ :=
  { rows := groupBy (·.did) db.recentlyPlayed, time := fun g => some g.lastPlayed }

def globalPlayView (g : PlayGroup) : PlayView :=
  { playView g with actor := some (db.actor g.first.did) }

def getGlobalRecentlyPlayed (n : ℕ) (params : FeedParams) : Page PlayView ℤ :=
  let L := globalRecentlyPlayedOf db
  let page := L.page isoDate (clampLimit params.limit fallbackThirty).val
    (pg.plays n (L.rows.filter (L.before params.cursor)))
  { items := page.items.map (globalPlayView db), cursor := page.cursor }

/-! ### Comments and notifications -/

def commentsOf (station : String) : Listing CommentRow ℤ :=
  { rows := db.comments.filter fun r => r.stationId = station, time := fun r => r.createdAt }

def commentView (r : CommentRow) : CommentView :=
  { uri := r.uri, author := db.actor r.did, station := r.station, text := r.text,
    facets := r.facets, gif := r.gif, createdAt := isoDate (r.createdAt.getD r.indexedAt) }

def getComments (n : ℕ) (station : String) (params : FeedParams) : CommentListOutput :=
  let L := commentsOf db station
  let page := L.page isoDate (clampLimit params.limit fallbackFifty).val
    (pg.comments n (L.rows.filter (L.before params.cursor)))
  { items := page.items.map (commentView db), cursor := page.cursor, total := L.rows.length }

def notificationsOf (did : String) : Listing NotificationRow ℤ :=
  { rows := db.notifications.filter fun r => r.recipientDid = did
    time := fun r => some r.createdAt }

/-- The last-seen marker of an actor, as a `Date`. -/
def lastSeen (did : String) : Option ℤ :=
  (db.notificationSeen.find? fun s => s.did = did).map fun s => isoDate s.lastSeenAt

def notificationView (seen : Option ℤ) (r : NotificationRow) : NotificationView :=
  { uri := r.subjectUri, reason := r.reason, author := db.actor r.authorDid, station := r.station,
    text := r.text, createdAt := isoDate r.createdAt
    isRead := seen.any fun t => isoDate r.createdAt ≤ t }

def getNotifications (n : ℕ) (did : String) (params : FeedParams) : NotificationListOutput :=
  let L := notificationsOf db did
  let seen := lastSeen db did
  let page := L.page isoDate (clampLimit params.limit fallbackThirty).val
    (pg.notifications n (L.rows.filter (L.before params.cursor)))
  { items := page.items.map (notificationView db seen), cursor := page.cursor
    unreadCount := (L.rows.filter fun r => seen.all fun t => t < r.createdAt).length }

end Endpoints

end Atradio.Xrpc
