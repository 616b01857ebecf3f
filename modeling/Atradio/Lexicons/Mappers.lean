import Atradio.Jetstream.Records

/-! # Records the clients write (`lexicons/mappers.ts`)

Builders of records and the mappers that read them back. An object literal lists its
members; `createdAt` and `playedAt` are the dates the builders put in, the time of the
call unless an edit keeps an older one. -/

namespace Atradio.Lexicons
open Atradio.Lib Atradio.Lib.Schema Atradio.Jetstream

/-- A number; JSON writes the ones that are not finite as null. -/
inductive JsNumber where
  | finite (q : ℚ)
  | nonFinite
  deriving DecidableEq

def JsNumber.json : JsNumber → Json
  | .finite q => .num q
  | .nonFinite => .null

def text (s : Option String) : Option Json := s.map .str

def texts (xs : Option (List String)) : Option Json := xs.map fun l => .arr (l.map .str)

def numeral (n : Option JsNumber) : Option Json := n.map (·.json)

structure Station where
  id : String
  name : String
  description : Option String
  genre : Option String
  streamUrl : String
  homepage : Option String
  favicon : Option String
  country : Option String
  language : Option String
  bitrate : Option JsNumber
  codec : Option String
  tags : Option (List String)
  source : StationSource

def ids (l : List Station) : List String := l.map (·.id)

theorem mem_ids {l : List Station} {k : String} : k ∈ ids l ↔ ∃ x ∈ l, x.id = k := List.mem_map

def stationOf (id : String) : Station :=
  { id, name := id, description := none, genre := none, streamUrl := "https://ice.example/a",
    homepage := none, favicon := none, country := none, language := none, bitrate := none,
    codec := none, tags := none, source := .radioBrowser }

structure StationDraft where
  name : String
  streamUrl : String
  description : Option String
  genre : Option String
  homepage : Option String
  logoUrl : Option String

/-- A GIF as the composer hands it over. -/
structure GifDraft where
  url : String
  previewUrl : Option String
  alt : Option String
  width : Option JsNumber
  height : Option JsNumber

/-- A mention as the composer hands it over, with byte offsets into the text. -/
structure Facet where
  did : String
  byteStart : ℕ
  byteEnd : ℕ

def sourceText : StationSource → String
  | .radioBrowser => "radio-browser"
  | .tunein => "tunein"
  | .custom => "custom"

def infoFields (s : Station) : Fields :=
  [("stationId", text (some s.id)), ("name", text (some s.name)),
    ("streamUrl", text (some s.streamUrl)), ("source", text (some (sourceText s.source))),
    ("description", text s.description), ("genre", text s.genre), ("homepage", text s.homepage),
    ("logo", text s.favicon), ("country", text s.country), ("language", text s.language),
    ("bitrate", numeral s.bitrate), ("codec", text s.codec), ("tags", texts s.tags)]

def stationToInfo (s : Station) : Json := clean (infoFields s)

/-- The object an application's `Station` is, with empty members dropped. -/
def stationObject (s : Station) : Json :=
  clean
    [("id", text (some s.id)), ("name", text (some s.name)),
      ("streamUrl", text (some s.streamUrl)), ("source", text (some (sourceText s.source))),
      ("description", text s.description), ("genre", text s.genre), ("homepage", text s.homepage),
      ("favicon", text s.favicon), ("country", text s.country), ("language", text s.language),
      ("bitrate", numeral s.bitrate), ("codec", text s.codec), ("tags", texts s.tags)]

def infoToStation (i : StationInfo) : Json :=
  clean
    [("id", text (some i.stationId)), ("name", text (some i.name)),
      ("streamUrl", text (some i.streamUrl)), ("source", text (some (sourceText i.source))),
      ("description", text i.description), ("genre", text i.genre), ("homepage", text i.homepage),
      ("favicon", text i.logo), ("country", text i.country), ("language", text i.language),
      ("bitrate", i.bitrate.map .num), ("codec", text i.codec), ("tags", texts i.tags)]

def strongRef (r : StrongRef) : Json := .obj [("uri", .str r.uri), ("cid", .str r.cid)]

def buildFavoriteRecord (s : Station) (subject : Option StrongRef) (createdAt : String) : Json :=
  clean
    [("$type", text (some NSID.favorite)), ("station", some (stationToInfo s)),
      ("subject", subject.map strongRef), ("createdAt", text (some createdAt))]

def favoriteRecordToStation (r : FavoriteRecord) : Json := infoToStation r.station

def buildStationRecord (draft : StationDraft) (createdAt : String) : Json :=
  clean
    [("$type", text (some NSID.station)), ("name", text (some draft.name)),
      ("streamUrl", text (some draft.streamUrl)), ("description", text draft.description),
      ("genre", text draft.genre), ("homepage", text draft.homepage), ("logo", text draft.logoUrl),
      ("createdAt", text (some createdAt))]

/-- Turn a stored station record and its rkey into a `Station`. -/
def stationRecordToStation (r : StationRecord) (rkey : String) : Json :=
  clean
    [("id", text (some ("custom:" ++ rkey))), ("name", text (some r.name)),
      ("streamUrl", text (some r.streamUrl)), ("source", text (some "custom")),
      ("description", text r.description), ("genre", text r.genre), ("homepage", text r.homepage),
      ("favicon", text r.logo), ("tags", texts r.tags)]

def buildActorStatusRecord (s : Station) (playedAt : String) : Json :=
  clean
    [("$type", text (some NSID.actorStatus)), ("station", some (stationToInfo s)),
      ("playedAt", text (some playedAt))]

def facetJson (f : Facet) : Json :=
  .obj [("did", .str f.did), ("byteStart", .num f.byteStart), ("byteEnd", .num f.byteEnd)]

def gifJson (g : GifDraft) : Json :=
  clean
    [("url", text (some g.url)), ("previewUrl", text g.previewUrl), ("alt", text g.alt),
      ("width", numeral g.width), ("height", numeral g.height)]

def commentFields (s : Station) (facets : List Facet) (gif : Option GifDraft)
    (createdAt : String) : Fields :=
  [("$type", text (some NSID.comment)), ("station", some (stationToInfo s)),
    ("facets", if facets = [] then none else some (.arr (facets.map facetJson))),
    ("gif", gif.map gifJson), ("createdAt", text (some createdAt))]

/-- The text is always included, even when empty. -/
def buildCommentRecord (s : Station) (body : String) (facets : List Facet)
    (gif : Option GifDraft) (createdAt : String) : Json :=
  match clean (commentFields s facets gif createdAt) with
  | .obj members => .obj (members ++ [("text", .str body)])
  | j => j

def buildReactionRecord (s : Station) (emoji createdAt : String) : Json :=
  clean
    [("$type", text (some NSID.reaction)), ("station", some (stationToInfo s)),
      ("emoji", text (some emoji)), ("createdAt", text (some createdAt))]

end Atradio.Lexicons
