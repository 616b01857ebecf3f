import Atradio.Lexicons.Readable

/-! # One station snapshot from two agents (`agent.rs`, `mappers.ts`)

The Rust agent writes the station of a favorite or of a play status with `gen_station`, the
TypeScript agent with `stationToInfo`, at the same record key. -/

namespace Atradio.Lexicons
open Atradio.Lib Atradio.Jetstream

/-- `StationInfo` of the Rust client (`appview.rs`). -/
structure WireStation where
  stationId : String
  name : String
  streamUrl : String
  source : String
  description : Option String
  genre : Option String
  homepage : Option String
  logo : Option String
  country : Option String
  language : Option String
  bitrate : Option UInt32
  codec : Option String
  tags : List String

section Rust

/- The text a URL has once `UriValue` has read it, where it reads it. -/
variable (parseUri : String → Option String)

/-- The members of the generated `StationInfo`; nothing sets its tags. -/
def genFields (s : WireStation) : Fields :=
  [("bitrate", s.bitrate.map fun b => .num b.toNat), ("codec", text s.codec),
    ("country", text s.country), ("description", text s.description), ("genre", text s.genre),
    ("homepage", text (s.homepage.bind parseUri)), ("language", text s.language),
    ("logo", text (s.logo.bind parseUri)), ("name", text (some s.name)),
    ("source", text (some s.source)), ("stationId", text (some s.stationId)),
    ("streamUrl", text (some ((parseUri s.streamUrl).getD s.streamUrl))), ("tags", none)]

def present (fields : Fields) : Json := .obj (members id fields)

def genStation (s : WireStation) : Json := present (genFields parseUri s)

def rustFavorite (s : WireStation) (createdAt : String) : Json :=
  present
    [("$type", text (some NSID.favorite)), ("createdAt", text (some createdAt)),
      ("station", some (genStation parseUri s)), ("subject", none)]

def rustActorStatus (s : WireStation) (playedAt : String) : Json :=
  present
    [("$type", text (some NSID.actorStatus)), ("playedAt", text (some playedAt)),
      ("station", some (genStation parseUri s))]

end Rust

/-- A station both applications can hold. -/
structure StationValue where
  stationId : String
  name : String
  streamUrl : String
  source : StationSource
  description : Option String
  genre : Option String
  homepage : Option String
  logo : Option String
  country : Option String
  language : Option String
  bitrate : Option UInt32
  codec : Option String
  tags : Option (List String)

def StationValue.toWire (v : StationValue) : WireStation :=
  { stationId := v.stationId, name := v.name, streamUrl := v.streamUrl,
    source := sourceText v.source, description := v.description, genre := v.genre,
    homepage := v.homepage, logo := v.logo, country := v.country, language := v.language,
    bitrate := v.bitrate, codec := v.codec, tags := v.tags.getD [] }

def StationValue.toStation (v : StationValue) : Station :=
  { id := v.stationId, name := v.name, description := v.description, genre := v.genre,
    streamUrl := v.streamUrl, homepage := v.homepage, favicon := v.logo, country := v.country,
    language := v.language, bitrate := v.bitrate.map fun b => .finite b.toNat, codec := v.codec,
    tags := v.tags, source := v.source }

/-! ### Member by member -/

theorem required_same (t : String) : text (some t) = kept (text (some t)) ↔ t ≠ "" := by
  rw [kept_text, nonEmpty_some]
  by_cases ht : t = ""
  · simp [ht, text]
  · simp [ht, text]

theorem optional_same (s : Option String) : text s = kept (text s) ↔ s ≠ some "" := by
  cases s with
  | none => simp [text, kept]
  | some t =>
    rw [required_same]
    simp

/-- `gen_station` writes a required URL as `UriValue` reads it, or as it is. -/
def UrlKept (parseUri : String → Option String) (u : String) : Prop :=
  u ≠ "" ∧ (parseUri u = none ∨ parseUri u = some u)

theorem url_same (parseUri : String → Option String) (u : String) :
    text (some ((parseUri u).getD u)) = kept (text (some u)) ↔ UrlKept parseUri u := by
  unfold UrlKept
  rw [kept_text, nonEmpty_some]
  by_cases hu : u = ""
  · simp [hu, text]
  · cases parseUri u with
    | none => simp [hu, text]
    | some w => simp [hu, text]

/-- An optional URL is dropped where `UriValue` does not read it. -/
def OptionalUrlKept (parseUri : String → Option String) (s : Option String) : Prop :=
  ∀ u, s = some u → parseUri u = if u = "" then none else some u

theorem optionalUrl_same (parseUri : String → Option String) (s : Option String) :
    text (s.bind parseUri) = kept (text s) ↔ OptionalUrlKept parseUri s := by
  unfold OptionalUrlKept
  cases s with
  | none => simp [text, kept]
  | some u =>
    rw [kept_text, nonEmpty_some, Option.bind_some]
    have hread : text (parseUri u) = text (if u = "" then none else some u) ↔
        parseUri u = if u = "" then none else some u := by
      unfold text
      exact (Option.map_injective fun a b => Json.str.inj).eq_iff
    constructor
    · intro h w hw
      rw [← Option.some.inj hw]
      exact hread.1 h
    · intro h
      exact hread.2 (h u rfl)

/-! ### The whole snapshot -/

structure StationValue.Alike (parseUri : String → Option String) (v : StationValue) : Prop where
  stationId : v.stationId ≠ ""
  name : v.name ≠ ""
  streamUrl : UrlKept parseUri v.streamUrl
  description : v.description ≠ some ""
  genre : v.genre ≠ some ""
  homepage : OptionalUrlKept parseUri v.homepage
  logo : OptionalUrlKept parseUri v.logo
  country : v.country ≠ some ""
  language : v.language ≠ some ""
  codec : v.codec ≠ some ""
  tags : v.tags = none

section Snapshot

variable (parseUri : String → Option String) (v : StationValue)

theorem tags_same (xs : Option (List String)) : none = kept (texts xs) ↔ xs = none := by
  cases xs with
  | none => simp [texts, kept]
  | some xs =>
    rw [texts, Option.map_some, kept_of_not_blank rfl]
    simp

theorem bitrate_same (b : Option UInt32) :
    b.map (fun n => Json.num n.toNat) =
      kept (numeral (b.map fun n => .finite n.toNat)) := by
  cases b with
  | none => rfl
  | some n => rfl

theorem source_same (src : StationSource) :
    text (some (sourceText src)) = kept (text (some (sourceText src))) := by
  cases src with
  | radioBrowser => rfl
  | tunein => rfl
  | custom => rfl

theorem snapshot_same_iff :
    SameObject (genStation parseUri v.toWire) (stationToInfo v.toStation) ↔
      v.Alike parseUri := by
  have hF : ((genFields parseUri v.toWire).map Prod.fst).Nodup := by simp [genFields]
  have hG := infoFields_nodup v.toStation
  have hsame : SameObject (genStation parseUri v.toWire) (stationToInfo v.toStation) ↔ _ :=
    sameObject_iff hF hG
  constructor
  · intro h
    have hkeys := hsame.1 h
    refine ⟨?_, ?_, ?_, ?_, ?_, ?_, ?_, ?_, ?_, ?_, ?_⟩
    · exact (required_same v.stationId).1 (hkeys "stationId" (by simp [genFields]))
    · exact (required_same v.name).1 (hkeys "name" (by simp [genFields]))
    · exact (url_same parseUri v.streamUrl).1 (hkeys "streamUrl" (by simp [genFields]))
    · exact (optional_same v.description).1 (hkeys "description" (by simp [genFields]))
    · exact (optional_same v.genre).1 (hkeys "genre" (by simp [genFields]))
    · exact (optionalUrl_same parseUri v.homepage).1 (hkeys "homepage" (by simp [genFields]))
    · exact (optionalUrl_same parseUri v.logo).1 (hkeys "logo" (by simp [genFields]))
    · exact (optional_same v.country).1 (hkeys "country" (by simp [genFields]))
    · exact (optional_same v.language).1 (hkeys "language" (by simp [genFields]))
    · exact (optional_same v.codec).1 (hkeys "codec" (by simp [genFields]))
    · exact (tags_same v.tags).1 (hkeys "tags" (by simp [genFields]))
  · intro h
    refine hsame.2 ?_
    have hmem : ∀ key ∈ (genFields parseUri v.toWire).map Prod.fst ++
        (infoFields v.toStation).map Prod.fst,
        key ∈ ["bitrate", "codec", "country", "description", "genre", "homepage", "language",
          "logo", "name", "source", "stationId", "streamUrl", "tags"] := by
      simp [genFields, infoFields]
    intro key hkey
    have hone := hmem key hkey
    simp only [List.mem_cons, List.not_mem_nil, or_false] at hone
    rcases hone with rfl | rfl | rfl | rfl | rfl | rfl | rfl | rfl | rfl | rfl | rfl | rfl | rfl
    · exact bitrate_same v.bitrate
    · exact (optional_same v.codec).2 h.codec
    · exact (optional_same v.country).2 h.country
    · exact (optional_same v.description).2 h.description
    · exact (optional_same v.genre).2 h.genre
    · exact (optionalUrl_same parseUri v.homepage).2 h.homepage
    · exact (optional_same v.language).2 h.language
    · exact (optionalUrl_same parseUri v.logo).2 h.logo
    · exact (required_same v.name).2 h.name
    · exact source_same v.source
    · exact (required_same v.stationId).2 h.stationId
    · exact (url_same parseUri v.streamUrl).2 h.streamUrl
    · exact (tags_same v.tags).2 h.tags

/-! ### The records -/

/-- Two records hold the same station object. -/
def SameStation (a b : Json) : Prop :=
  ∃ s s', a.get "station" = some s ∧ b.get "station" = some s' ∧ SameObject s s'

theorem sameStation_iff {a b s s' : Json} (ha : a.get "station" = some s)
    (hb : b.get "station" = some s') : SameStation a b ↔ SameObject s s' := by
  constructor
  · rintro ⟨t, t', ht, ht', h⟩
    rw [ha] at ht
    rw [hb] at ht'
    rw [Option.some.inj ht, Option.some.inj ht']
    exact h
  · exact fun h => ⟨s, s', ha, hb, h⟩

/-- A favorite and a play status of the station hold the same object from both agents. -/
structure StationValue.WrittenAlike (t t' : String) : Prop where
  favorite : SameStation (rustFavorite parseUri v.toWire t)
    (buildFavoriteRecord v.toStation none t')
  status : SameStation (rustActorStatus parseUri v.toWire t)
    (buildActorStatusRecord v.toStation t')

theorem writtenAlike_iff (t t' : String) : v.WrittenAlike parseUri t t' ↔ v.Alike parseUri := by
  have hfavorite : SameStation (rustFavorite parseUri v.toWire t)
      (buildFavoriteRecord v.toStation none t') ↔ v.Alike parseUri :=
    (sameStation_iff rfl rfl).trans (snapshot_same_iff parseUri v)
  have hstatus : SameStation (rustActorStatus parseUri v.toWire t)
      (buildActorStatusRecord v.toStation t') ↔ v.Alike parseUri :=
    (sameStation_iff rfl rfl).trans (snapshot_same_iff parseUri v)
  exact ⟨fun h => hfavorite.1 h.favorite, fun h => ⟨hfavorite.2 h, hstatus.2 h⟩⟩

end Snapshot

/-- A station with a tag, its URL read as it is written. -/
def taggedStation : StationValue :=
  { stationId := "rb:1", name := "Jazz", streamUrl := "https://ice.example/jazz",
    source := .radioBrowser, description := none, genre := some "jazz", homepage := none,
    logo := none, country := none, language := none, bitrate := some 128, codec := none,
    tags := some ["jazz"] }

/-- The Rust agent drops the tags the TypeScript agent wrote. -/
theorem tags_dropped :
    ¬ taggedStation.WrittenAlike some "2026-01-01T00:00:00.000Z" "2026-01-01T00:00:00.000Z" := by
  rintro ⟨hfavorite, -⟩
  have hsame := (sameStation_iff rfl rfl).1 hfavorite "tags"
  cases hsame

end Atradio.Lexicons
