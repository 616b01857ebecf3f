import Atradio.Lib.Schema
import Atradio.Lib.Utf16

/-! # The indexed records (`lexicons/schema.ts`)

The record types of the five collections the consumer indexes, with their schemas. -/

namespace Atradio.Jetstream
open Atradio.Lib

namespace NSID

def favorite : String := "fm.atradio.favorite"
def station : String := "fm.atradio.station"
def actorStatus : String := "fm.atradio.actor.status"
def comment : String := "fm.atradio.comment"
def reaction : String := "fm.atradio.reaction"

end NSID

/-- The `length` of a string. -/
def utf16Length (s : String) : ℕ := (codeUnits s.toList).length

inductive StationSource where
  | radioBrowser
  | tunein
  | custom
  deriving DecidableEq

structure StationInfo where
  stationId : String
  name : String
  streamUrl : String
  source : StationSource
  description : Option String
  genre : Option String
  homepage : Option String
  logo : Option String
  country : Option String
  language : Option String
  bitrate : Option ℚ
  codec : Option String
  tags : Option (List String)
  deriving DecidableEq

structure StrongRef where
  uri : String
  cid : String

structure FavoriteRecord where
  station : StationInfo
  subject : Option StrongRef
  createdAt : String

structure StationRecord where
  name : String
  streamUrl : String
  description : Option String
  genre : Option String
  homepage : Option String
  logo : Option String
  tags : Option (List String)
  createdAt : String

structure ActorStatusRecord where
  station : StationInfo
  playedAt : String

structure Mention where
  did : String
  byteStart : ℚ
  byteEnd : ℚ
  deriving DecidableEq

structure GifEmbed where
  url : String
  previewUrl : Option String
  alt : Option String
  width : Option ℚ
  height : Option ℚ
  deriving DecidableEq

structure CommentRecord where
  station : StationInfo
  text : String
  facets : Option (List Mention)
  gif : Option GifEmbed
  createdAt : String

structure ReactionRecord where
  station : StationInfo
  emoji : String
  createdAt : String

open Schema

def stationSourceSchema : Schema StationSource
  | .str s =>
    if s = "radio-browser" then some .radioBrowser
    else if s = "tunein" then some .tunein
    else if s = "custom" then some .custom
    else none
  | _ => none

def stationInfoSchema : Schema StationInfo := fun v => do
  let stationId ← member "stationId" string v
  let name ← member "name" string v
  let streamUrl ← member "streamUrl" string v
  let source ← member "source" stationSourceSchema v
  let description ← optional "description" string v
  let genre ← optional "genre" string v
  let homepage ← optional "homepage" string v
  let logo ← optional "logo" string v
  let country ← optional "country" string v
  let language ← optional "language" string v
  let bitrate ← optional "bitrate" number v
  let codec ← optional "codec" string v
  let tags ← optional "tags" (array string) v
  return { stationId, name, streamUrl, source, description, genre, homepage, logo, country,
           language, bitrate, codec, tags }

def strongRefSchema : Schema StrongRef := fun v => do
  let uri ← member "uri" string v
  let cid ← member "cid" string v
  return { uri, cid }

def favoriteRecordSchema : Schema FavoriteRecord := fun v => do
  let _ ← optional "$type" (literal NSID.favorite) v
  let station ← member "station" stationInfoSchema v
  let subject ← optional "subject" strongRefSchema v
  let createdAt ← member "createdAt" string v
  return { station, subject, createdAt }

def stationRecordSchema : Schema StationRecord := fun v => do
  let _ ← optional "$type" (literal NSID.station) v
  let name ← member "name" string v
  let streamUrl ← member "streamUrl" string v
  let description ← optional "description" string v
  let genre ← optional "genre" string v
  let homepage ← optional "homepage" string v
  let logo ← optional "logo" string v
  let tags ← optional "tags" (array string) v
  let createdAt ← member "createdAt" string v
  return { name, streamUrl, description, genre, homepage, logo, tags, createdAt }

def actorStatusRecordSchema : Schema ActorStatusRecord := fun v => do
  let _ ← optional "$type" (literal NSID.actorStatus) v
  let station ← member "station" stationInfoSchema v
  let playedAt ← member "playedAt" string v
  return { station, playedAt }

/-- `z.number().int().min(0)` -/
def offset : Schema ℚ := refine number fun q => q.den = 1 ∧ 0 ≤ q.num

def mentionSchema : Schema Mention := fun v => do
  let did ← member "did" string v
  let byteStart ← member "byteStart" offset v
  let byteEnd ← member "byteEnd" offset v
  return { did, byteStart, byteEnd }

def gifEmbedSchema : Schema GifEmbed := fun v => do
  let url ← member "url" string v
  let previewUrl ← optional "previewUrl" string v
  let alt ← optional "alt" string v
  let width ← optional "width" number v
  let height ← optional "height" number v
  return { url, previewUrl, alt, width, height }

def commentRecordSchema : Schema CommentRecord := fun v => do
  let _ ← optional "$type" (literal NSID.comment) v
  let station ← member "station" stationInfoSchema v
  let text ← member "text" (refine string fun s => utf16Length s ≤ 3000) v
  let facets ← optional "facets" (array mentionSchema) v
  let gif ← optional "gif" gifEmbedSchema v
  let createdAt ← member "createdAt" string v
  return { station, text, facets, gif, createdAt }

def reactionRecordSchema : Schema ReactionRecord := fun v => do
  let _ ← optional "$type" (literal NSID.reaction) v
  let station ← member "station" stationInfoSchema v
  let emoji ← member "emoji" (refine string fun s => 1 ≤ utf16Length s ∧ utf16Length s ≤ 32) v
  let createdAt ← member "createdAt" string v
  return { station, emoji, createdAt }

end Atradio.Jetstream
