import Atradio.Lib.Async
import Atradio.Lib.Table
import Atradio.Discord.Firehose
import Atradio.Jetstream.Records

/-! # The consumer's world (`db/schema.ts`)

The tables, the variables of the process, and what the consumer does to them: its
synchronous effects and the requests it awaits. -/

namespace Atradio.Jetstream
open Atradio.Lib

/-! ### Events -/

/-- The DID of a repository; a DID has no slash. -/
structure RepoDid where
  did : String
  noSlash : '/' ∉ did.toList

abbrev alice : RepoDid := ⟨"did:plc:alice", by decide⟩

inductive Operation where
  | create
  | update
  | delete
  deriving DecidableEq

structure Commit where
  operation : Operation
  collection : String
  rkey : String
  record : Option Json
  cid : Option String

inductive Kind where
  | commit
  | identity
  | account
  deriving DecidableEq

structure JetstreamEvent where
  did : RepoDid
  timeUs : ℕ
  kind : Kind
  commit : Option Commit

/-! ### Tables -/

structure UserRow where
  did : String
  handle : Option String
  displayName : Option String
  avatarUrl : Option String
  description : Option String
  updatedAt : ℕ

structure StationRow where
  uri : String
  did : String
  rkey : String
  name : String
  streamUrl : String
  description : Option String
  genre : Option String
  homepage : Option String
  logoUrl : Option String
  tags : Option (List String)
  createdAt : ℤ
  indexedAt : ℕ
  deriving DecidableEq

structure FavoriteRow where
  uri : String
  did : String
  rkey : String
  stationId : String
  station : StationInfo
  subjectUri : Option String
  createdAt : ℤ
  indexedAt : ℕ
  deriving DecidableEq

structure PlayRow where
  did : String
  stationId : String
  station : StationInfo
  playedAt : ℤ
  indexedAt : ℕ

structure CommentRow where
  uri : String
  did : String
  rkey : String
  stationId : String
  station : StationInfo
  text : String
  facets : Option (List Mention)
  gif : Option GifEmbed
  createdAt : ℤ
  indexedAt : ℕ
  deriving DecidableEq

structure ReactionRow where
  uri : String
  did : String
  rkey : String
  stationId : String
  emoji : String
  createdAt : ℤ
  indexedAt : ℕ
  deriving DecidableEq

inductive Reason where
  | mention
  | comment
  deriving DecidableEq

structure NotificationRow where
  id : String
  recipientDid : String
  authorDid : String
  reason : Reason
  subjectUri : String
  stationId : String
  station : StationInfo
  text : String
  createdAt : ℤ
  indexedAt : ℕ
  deriving DecidableEq

structure CursorRow where
  id : String
  timeUs : ℕ
  updatedAt : ℕ

structure Db where
  users : Table UserRow.did := Table.empty
  stations : Table StationRow.uri := Table.empty
  favorites : Table FavoriteRow.uri := Table.empty
  recentlyPlayed : Table (fun r : PlayRow => (r.did, r.playedAt)) := Table.empty
  comments : Table CommentRow.uri := Table.empty
  notifications : Table NotificationRow.id := Table.empty
  reactions : Table ReactionRow.uri := Table.empty
  jetstreamCursor : Table CursorRow.id := Table.empty

/-! ### Effects and requests -/

structure ActorInfo where
  did : String
  handle : Option String
  displayName : Option String
  avatar : Option String

inductive LiveEvent where
  | comment (uri : String) (author : ActorInfo) (station : StationInfo) (text : String)
      (facets : Option (List Mention)) (gif : Option GifEmbed) (createdAt : String)
  | reaction (emoji : String) (actor : ActorInfo) (createdAt : String)

structure ProfileData where
  handle : String
  displayName : Option String
  avatar : Option String
  description : Option String

/-- `enqueueEmbed` builds an embed for the commit and queues it, `openSocket` opens a
subscription with the cursor of its URL, `logError` reports a processing error. -/
inductive Act where
  | now
  | isEnriched (did : String)
  | enrich (did : String)
  | seeTime (timeUs : ℕ)
  | readCursor
  | setCursor (timeUs : ℕ)
  | publishLive (stationId : String) (event : LiveEvent)
  | claimFirstDelivery (key : String)
  | enqueueEmbed (c : Commit) (actor : ActorInfo)
  | openSocket (host : String) (cursor : Option ℕ)
  | logError

@[reducible] def Act.Res : Act → Type
  | .now | .readCursor => ℕ
  | .isEnriched _ | .claimFirstDelivery _ => Bool
  | _ => Unit

/-- The tables that mirror the repositories. -/
inductive TableName where
  | favorites
  | stations
  | comments
  | reactions
  deriving DecidableEq

/-- Statements, and the profile lookup. The conflict clause of an upsert sets some columns
to the values it would insert. -/
inductive Req where
  | selectUser (did : String)
  | insertUser (row : UserRow)
  | upsertUser (row : UserRow)
  | upsertFavorite (values : FavoriteRow)
  | upsertStation (values : StationRow)
  | upsertComment (values : CommentRow)
  | insertReaction (row : ReactionRow)
  | insertPlay (row : PlayRow)
  | delete (table : TableName) (uri : String)
  | deleteNotifications (subjectUri : String)
  | insertNotifications (rows : List NotificationRow)
  | selectOwner (rkey : String)
  | selectCursor (id : String)
  | upsertCursor (row : CursorRow)
  | getProfile (did : String)

@[reducible] def Req.Ans : Req → Type
  | .selectUser _ => Option UserRow
  | .selectOwner _ => Option String
  | .selectCursor _ => Option CursorRow
  | .getProfile _ => Option ProfileData
  | _ => Unit

@[reducible] def jetstream : Sig := { Act := Act, Res := Act.Res, Req := Req, Ans := Req.Ans }

/-! ### Semantics -/

/-- The variables of the process, and what it has sent out. -/
structure Mem where
  cursor : ℕ := 0
  enrichedDids : List String := []
  seen : Discord.Seen := Table.empty
  live : List (String × LiveEvent) := []
  embeds : List (Commit × ActorInfo) := []

structure World where
  db : Db := {}
  mem : Mem := {}

/-- What the environment decides at a step: the clock, whether a statement fails, and
what the profile lookup returns. -/
structure Choice where
  now : ℕ := 0
  fail : Bool := false
  profile : Option ProfileData := none

def World.act (c : Choice) (a : Act) (w : World) : a.Res × World :=
  match a with
  | .now => (c.now, w)
  | .isEnriched did => (decide (did ∈ w.mem.enrichedDids), w)
  | .enrich did => ((), { w with mem.enrichedDids := did :: w.mem.enrichedDids })
  | .seeTime t => ((), { w with mem.cursor := max w.mem.cursor t })
  | .readCursor => (w.mem.cursor, w)
  | .setCursor t => ((), { w with mem.cursor := t })
  | .publishLive stationId event => ((), { w with mem.live := w.mem.live ++ [(stationId, event)] })
  | .claimFirstDelivery key =>
    let r := Discord.claimFirstDelivery c.now key w.mem.seen
    (r.1, { w with mem.seen := r.2 })
  | .enqueueEmbed commit actor =>
    ((), { w with mem.embeds := w.mem.embeds ++ [(commit, actor)] })
  | .openSocket _ _ => ((), w)
  | .logError => ((), w)

/-- The columns the conflict clauses set; the others stay as they are in the `old` row. -/
def FavoriteRow.updated (set old : FavoriteRow) : FavoriteRow :=
  { old with stationId := set.stationId, station := set.station, subjectUri := set.subjectUri,
             createdAt := set.createdAt, indexedAt := set.indexedAt }

def StationRow.updated (set old : StationRow) : StationRow :=
  { old with name := set.name, streamUrl := set.streamUrl, description := set.description,
             genre := set.genre, homepage := set.homepage, logoUrl := set.logoUrl,
             tags := set.tags, createdAt := set.createdAt, indexedAt := set.indexedAt }

def CommentRow.updated (set old : CommentRow) : CommentRow :=
  { old with stationId := set.stationId, station := set.station, text := set.text,
             facets := set.facets, gif := set.gif, createdAt := set.createdAt,
             indexedAt := set.indexedAt }

def UserRow.updated (set old : UserRow) : UserRow := { set with did := old.did }

def CursorRow.updated (set old : CursorRow) : CursorRow := { set with id := old.id }

/-- A request that is answered. The station lookup has no order: it takes the first row. -/
def Db.serve (profile : Option ProfileData) (q : Req) (db : Db) : q.Ans × Db :=
  match q with
  | .selectUser did => (db.users.get did, db)
  | .insertUser row => ((), { db with users := db.users.insertNew row })
  | .upsertUser row => ((), { db with users := db.users.upsert row row.updated })
  | .upsertFavorite values =>
    ((), { db with favorites := db.favorites.upsert values values.updated })
  | .upsertStation values =>
    ((), { db with stations := db.stations.upsert values values.updated })
  | .upsertComment values =>
    ((), { db with comments := db.comments.upsert values values.updated })
  | .insertReaction row => ((), { db with reactions := db.reactions.insertNew row })
  | .insertPlay row => ((), { db with recentlyPlayed := db.recentlyPlayed.insertNew row })
  | .delete .favorites uri => ((), { db with favorites := db.favorites.delete uri })
  | .delete .stations uri => ((), { db with stations := db.stations.delete uri })
  | .delete .comments uri => ((), { db with comments := db.comments.delete uri })
  | .delete .reactions uri => ((), { db with reactions := db.reactions.delete uri })
  | .deleteNotifications uri =>
    ((), { db with notifications := db.notifications.filter fun r => r.subjectUri ≠ uri })
  | .insertNotifications rows =>
    ((), { db with notifications := rows.foldl (fun t r => t.insertNew r) db.notifications })
  | .selectOwner rkey => ((db.stations.rows.find? fun r => r.rkey = rkey).map (·.did), db)
  | .selectCursor id => (db.jetstreamCursor.get id, db)
  | .upsertCursor row =>
    ((), { db with jetstreamCursor := db.jetstreamCursor.upsert row row.updated })
  | .getProfile _ => (profile, db)

/-- The profile lookup catches its own errors. -/
def Req.canFail : Req → Bool
  | .getProfile _ => false
  | _ => true

def World.serve (c : Choice) (q : Req) (w : World) : Option q.Ans × World :=
  if c.fail && q.canFail then (none, w)
  else (some (Db.serve c.profile q w.db).1, { w with db := (Db.serve c.profile q w.db).2 })

def machine : Machine jetstream Choice World := { act := World.act, serve := World.serve }

end Atradio.Jetstream
