import Atradio.Lexicons.Mappers

/-! # Stations of the two directories (`api/radioBrowser.ts`, `api/tunein.ts`) -/

namespace Atradio.Lexicons
open Atradio.Jetstream

/-- What `trim` takes off both ends of a string. -/
def whitespace : List Char :=
  [0x9, 0xA, 0xB, 0xC, 0xD, 0x20, 0xA0, 0x1680, 0x2000, 0x2001, 0x2002, 0x2003, 0x2004, 0x2005,
    0x2006, 0x2007, 0x2008, 0x2009, 0x200A, 0x2028, 0x2029, 0x202F, 0x205F, 0x3000, 0xFEFF].map
    Char.ofNat

def trim (s : String) : String :=
  let stripped := s.toList.dropWhile (· ∈ whitespace)
  String.ofList (stripped.reverse.dropWhile (· ∈ whitespace)).reverse

/-- `s || undefined` -/
def orUndefined (s : String) : Option String := if s = "" then none else some s

/-- A list of names between commas. -/
def commaList (s : String) : List String :=
  ((s.toList.splitOn ',').map fun t => trim (String.ofList t)).filter (· ≠ "")

structure RadioBrowserStation where
  stationuuid : String
  name : String
  url : String
  urlResolved : String
  homepage : String
  favicon : String
  tags : String
  country : String
  language : String
  codec : String
  bitrate : ℚ

def RadioBrowserStation.toStation (s : RadioBrowserStation) : Station :=
  let tags := if s.tags = "" then [] else commaList s.tags
  { id := "rb:" ++ s.stationuuid
    name := trim s.name
    streamUrl := if s.urlResolved = "" then s.url else s.urlResolved
    homepage := orUndefined s.homepage
    favicon := orUndefined s.favicon
    genre := tags.head?
    tags := some tags
    country := orUndefined s.country
    language := orUndefined s.language
    bitrate := if s.bitrate = 0 then none else some (.finite s.bitrate)
    codec := orUndefined s.codec
    description := none
    source := .radioBrowser }

structure TuneInItem where
  text : Option String
  url : Option String
  guideId : Option String
  subtext : Option String
  genreId : Option String
  image : Option String
  bitrate : Option String
  formats : Option String

/-- `genre_id?.replace(/^g/, "") || undefined` -/
def TuneInItem.genre (i : TuneInItem) : Option String :=
  i.genreId.bind fun g => orUndefined (if g.startsWith "g" then (g.drop 1).toString else g)

/-- A TuneIn item as a station; `number` is `Number` on strings and `proxied` is
`proxyTuneInUrl`. -/
def TuneInItem.toStation (number : String → JsNumber) (proxied : String → String)
    (i : TuneInItem) : Station :=
  { id := "tunein:" ++ ((i.guideId.or i.url).or i.text).getD "undefined"
    name := trim (i.text.getD "Unknown station")
    description := i.subtext
    genre := i.genre
    streamUrl := ((i.url.bind orUndefined).map proxied).getD ""
    favicon := i.image
    bitrate := (i.bitrate.bind orUndefined).map number
    tags := (i.formats.bind orUndefined).map commaList
    homepage := none
    country := none
    language := none
    codec := none
    source := .tunein }

end Atradio.Lexicons
