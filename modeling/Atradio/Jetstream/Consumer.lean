import Atradio.Jetstream.Database

/-! # The Jetstream consumer (`jetstream/consumer.ts`)

Each function below is the function of that name in the source. `parseDate` is the
`Date` constructor on a string; an invalid date makes the statement it is a value of throw
before it is sent. -/

namespace Atradio.Jetstream
open Atradio.Lib

abbrev Task := Prog jetstream Unit

abbrev perform (a : Act) : Prog jetstream a.Res := @Prog.perform jetstream a

abbrev await (q : Req) : Prog jetstream q.Ans := @Prog.await jetstream q

def WANTED : List String :=
  [NSID.favorite, NSID.station, NSID.actorStatus, NSID.comment, NSID.reaction]

def CURSOR_ID : String := "global"

def atUri (did collection rkey : String) : String :=
  "at://" ++ did ++ "/" ++ collection ++ "/" ++ rkey

def PROFILE_TTL_MS : ℕ := 24 * 60 * 60 * 1000

def goodHandle (handle : Option String) : Bool := handle.any fun s => s ≠ ""

def trusted (now : ℕ) (cached : Option UserRow) : Bool :=
  cached.any fun u => goodHandle u.handle && decide (now < u.updatedAt + PROFILE_TTL_MS)

def ensureUser (did : String) : Task := do
  if ← perform (.isEnriched did) then Pure.pure ()
  else
    let cached ← await (.selectUser did)
    let now ← perform .now
    if trusted now cached then perform (.enrich did)
    else
      match ← await (.getProfile did) with
      | none =>
        let now ← perform .now
        await (.insertUser { did, handle := none, displayName := none, avatarUrl := none,
                             description := none, updatedAt := now })
      | some profile =>
        perform (.enrich did)
        let now ← perform .now
        await (.upsertUser { did, handle := some profile.handle,
                             displayName := profile.displayName, avatarUrl := profile.avatar,
                             description := profile.description, updatedAt := now })

variable (parseDate : String → Option ℤ)

/-- `new Date(s)` as the value of a statement. -/
def date (s : String) : Prog jetstream ℤ :=
  match parseDate s with
  | some t => .pure t
  | none => .throw

def indexFavorite (did : RepoDid) (c : Commit) (uri : String) : Task :=
  match c.record.bind favoriteRecordSchema with
  | none => .pure ()
  | some r => do
    ensureUser did.did
    let now ← perform .now
    let createdAt ← date parseDate r.createdAt
    let values : FavoriteRow :=
      { uri, did := did.did, rkey := c.rkey, stationId := r.station.stationId,
        station := r.station, subjectUri := r.subject.map (·.uri), createdAt, indexedAt := now }
    await (.upsertFavorite values)

def indexStation (did : RepoDid) (c : Commit) (uri : String) : Task :=
  match c.record.bind stationRecordSchema with
  | none => .pure ()
  | some r => do
    ensureUser did.did
    let now ← perform .now
    let createdAt ← date parseDate r.createdAt
    let values : StationRow :=
      { uri, did := did.did, rkey := c.rkey, name := r.name, streamUrl := r.streamUrl,
        description := r.description, genre := r.genre, homepage := r.homepage,
        logoUrl := r.logo, tags := r.tags, createdAt, indexedAt := now }
    await (.upsertStation values)

def indexPlay (did : RepoDid) (c : Commit) : Task :=
  match c.record.bind actorStatusRecordSchema with
  | none => .pure ()
  | some r => do
    ensureUser did.did
    let now ← perform .now
    let playedAt ← date parseDate r.playedAt
    await (.insertPlay { did := did.did, stationId := r.station.stationId, station := r.station,
                         playedAt, indexedAt := now })

/-- Distinct mentioned DIDs from a comment's facets (excluding the author). -/
def mentionedDids (facets : Option (List Mention)) (author : String) : List String :=
  (facets.getD []).foldl (fun out f =>
    if f.did ≠ "" ∧ f.did ≠ author ∧ f.did ∉ out then out ++ [f.did] else out) []

def customRkey (stationId : String) : Option String :=
  if "custom:".toList.isPrefixOf stationId.toList then
    some (String.ofList (stationId.toList.drop "custom:".length))
  else none

/-- The owner gets a "comment" notification (unless they are the author or already
mentioned). -/
def withOwner (author : String) (owner : Option String) (recipients : JsMap String Reason) :
    JsMap String Reason :=
  match owner with
  | some did =>
    if did ≠ "" ∧ did ≠ author ∧ JsMap.find recipients did = none then
      JsMap.set recipients did .comment
    else recipients
  | none => recipients

def recipientsOf (author : String) (facets : Option (List Mention)) (owner : Option String) :
    JsMap String Reason :=
  withOwner author owner
    ((mentionedDids facets author).foldl (fun m did => JsMap.set m did .mention) Table.empty)

def Reason.text : Reason → String
  | .mention => "mention"
  | .comment => "comment"

def notificationId (reason : Reason) (uri recipientDid : String) : String :=
  reason.text ++ ":" ++ uri ++ ":" ++ recipientDid

def notificationRows (author uri : String) (station : StationInfo) (text : String)
    (createdAt : ℤ) (indexedAt : ℕ) (recipients : JsMap String Reason) : List NotificationRow :=
  recipients.rows.map fun e =>
    { id := notificationId e.2 uri e.1, recipientDid := e.1, authorDid := author, reason := e.2,
      subjectUri := uri, stationId := station.stationId, station, text, createdAt, indexedAt }

/-- The owner of a custom station: whoever authored the station record with this rkey. -/
def stationOwner (stationId : String) : Prog jetstream (Option String) :=
  match customRkey stationId with
  | some rkey => await (.selectOwner rkey)
  | none => .pure none

def fanoutCommentNotifications (author uri : String) (station : StationInfo) (text : String)
    (facets : Option (List Mention)) (createdAt : ℤ) : Task := do
  await (.deleteNotifications uri)
  let owner ← stationOwner station.stationId
  let recipients := recipientsOf author facets owner
  if recipients.size = 0 then Pure.pure ()
  else
    let now ← perform .now
    await (.insertNotifications (notificationRows author uri station text createdAt now recipients))

def getActorInfo (did : String) : Prog jetstream ActorInfo := do
  let u ← await (.selectUser did)
  return { did, handle := u.bind (·.handle), displayName := u.bind (·.displayName),
           avatar := u.bind (·.avatarUrl) }

def indexComment (did : RepoDid) (c : Commit) (uri : String) : Task :=
  match c.record.bind commentRecordSchema with
  | none => .pure ()
  | some r => do
    ensureUser did.did
    let now ← perform .now
    let createdAt ← date parseDate r.createdAt
    let values : CommentRow :=
      { uri, did := did.did, rkey := c.rkey, stationId := r.station.stationId,
        station := r.station, text := r.text, facets := r.facets, gif := r.gif, createdAt,
        indexedAt := now }
    await (.upsertComment values)
    fanoutCommentNotifications did.did uri r.station r.text r.facets createdAt
    -- Only broadcast fresh comments (creates) so an edit doesn't re-pop the feed.
    if c.operation = .create then
      let author ← getActorInfo did.did
      perform (.publishLive r.station.stationId
        (.comment uri author r.station r.text r.facets r.gif r.createdAt))
    else Pure.pure ()

def indexReaction (did : RepoDid) (c : Commit) (uri : String) : Task :=
  match c.record.bind reactionRecordSchema with
  | none => .pure ()
  | some r => do
    ensureUser did.did
    let now ← perform .now
    let createdAt ← date parseDate r.createdAt
    await (.insertReaction
      { uri, did := did.did, rkey := c.rkey, stationId := r.station.stationId,
        emoji := r.emoji, createdAt, indexedAt := now })
    if c.operation = .create then
      let actor ← getActorInfo did.did
      perform (.publishLive r.station.stationId (.reaction r.emoji actor r.createdAt))
    else Pure.pure ()

/-- A deleted actor.status record leaves the play history intact. -/
def processDelete (collection uri : String) : Task :=
  if collection = NSID.favorite then await (.delete .favorites uri)
  else if collection = NSID.station then await (.delete .stations uri)
  else if collection = NSID.comment then do
    await (.delete .comments uri)
    await (.deleteNotifications uri)
  else if collection = NSID.reaction then await (.delete .reactions uri)
  else .pure ()

def processCommit (evt : JetstreamEvent) : Task :=
  match evt.commit with
  | none => .pure ()
  | some c =>
    if c.collection ∉ WANTED then .pure ()
    else
      let uri := atUri evt.did.did c.collection c.rkey
      if c.operation = .delete then processDelete c.collection uri
      else if c.collection = NSID.favorite then indexFavorite parseDate evt.did c uri
      else if c.collection = NSID.station then indexStation parseDate evt.did c uri
      else if c.collection = NSID.actorStatus then indexPlay parseDate evt.did c
      else if c.collection = NSID.comment then indexComment parseDate evt.did c uri
      else if c.collection = NSID.reaction then indexReaction parseDate evt.did c uri
      else .pure ()

def Operation.text : Operation → String
  | .create => "create"
  | .update => "update"
  | .delete => "delete"

/-- The key of a record in the mirror: `time_us` differs per host, so it is not part of it. -/
def firehoseKey (did : String) (c : Commit) : String :=
  c.operation.text ++ ":" ++ c.collection ++ ":" ++ did ++ ":" ++ c.rkey ++ ":" ++ c.cid.getD ""

def forwardCommitToFirehose (evt : JetstreamEvent) : Task :=
  match evt.commit with
  | none => .pure ()
  | some c =>
    if c.collection ∉ WANTED then .pure ()
    else do
      if ← perform (.claimFirstDelivery (firehoseKey evt.did.did c)) then
        Prog.tryCatch (getActorInfo evt.did.did >>= fun actor => perform (.enqueueEmbed c actor))
          (.pure ())
      else Pure.pure ()

def handleEvent (evt : JetstreamEvent) : Task := do
  perform (.seeTime evt.timeUs)
  if evt.kind = .commit then
    Prog.tryCatch (processCommit parseDate evt) (perform .logError)
    forwardCommitToFirehose evt
  else Pure.pure ()

def connect (host : String) : Task := do
  let cursor ← perform .readCursor
  perform (.openSocket host (if 0 < cursor then some cursor else none))

def loadCursor : Task := do
  let row ← await (.selectCursor CURSOR_ID)
  match row with
  | some row => if row.timeUs ≠ 0 then perform (.setCursor row.timeUs) else Pure.pure ()
  | none => Pure.pure ()

def persistCursor : Task := do
  let cursor ← perform .readCursor
  if cursor = 0 then Pure.pure ()
  else
    let now ← perform .now
    await (.upsertCursor { id := CURSOR_ID, timeUs := cursor, updatedAt := now })

/-! ### Jobs -/

/-- What the process starts: a handler for a message of a host, un-awaited, a connection,
the load of the cursor, a tick of the persistence timer. A message carries the number of the
repository commit it is a copy of; the code does not see it. -/
inductive Job where
  | message (host : String) (number : ℕ) (evt : JetstreamEvent)
  | connect (host : String)
  | load
  | tick

def main : Job → Task
  | .message _ _ evt => handleEvent parseDate evt
  | .connect host => connect host
  | .load => loadCursor
  | .tick => persistCursor.tryCatch (.pure ())

end Atradio.Jetstream
