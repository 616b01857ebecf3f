import Atradio.Lib.Reads
import Atradio.Lib.Text

/-! # Streams in the terminal client (`resolve.rs`) -/

namespace Atradio.Cli
open Atradio.Lib

/-- The characters that `trim` takes off. -/
def whiteSpace : List Char :=
  [0x9, 0xA, 0xB, 0xC, 0xD, 0x20, 0x85, 0xA0, 0x1680, 0x2000, 0x2001, 0x2002, 0x2003, 0x2004,
    0x2005, 0x2006, 0x2007, 0x2008, 0x2009, 0x200A, 0x2028, 0x2029, 0x202F, 0x205F, 0x3000].map
    Char.ofNat

def isWhiteSpace (c : Char) : Bool := c ∈ whiteSpace

/-- `str::lines` -/
def lines (s : List Char) : List (List Char) :=
  if (splitLines s).getLast? = some [] then (splitLines s).dropLast else splitLines s

/-- `str::find` of a character, in bytes. -/
def findChar (c : Char) (s : List Char) : Option ℕ :=
  if c ∈ s then some (utf8Length (s.takeWhile (· ≠ c))) else none

section Urls

variable (L : Lowercase)

def isHlsUrl (url : List Char) : Bool :=
  ".m3u8".toList.isSuffixOf (L.lower (url.takeWhile (· ≠ '?')))

def MARKER : List Char := "/api/tunein".toList

def schemeLen (lower : List Char) : Option ℕ :=
  if "https://".toList.isPrefixOf lower then some 8
  else if "http://".toList.isPrefixOf lower then some 7
  else none

/-- None is a panic: a slice that does not begin at a boundary of characters. -/
def rewriteLegacyTunein (url : List Char) : Option (List Char) :=
  let lower := L.lower url
  match schemeLen lower with
  | none => some url
  | some schemeLen =>
    (sliceFrom lower schemeLen).bind fun rest =>
      match findChar '/' rest with
      | none => some url
      | some slash =>
        let pathStart := schemeLen + slash
        (sliceFrom lower pathStart).bind fun path =>
          if MARKER.isPrefixOf path then
            (sliceFrom url (pathStart + utf8Length MARKER)).map
              ("https://opml.radiotime.com".toList ++ ·)
          else some url

/-! ### Playlists -/

def startsHttp (s : List Char) : Bool :=
  "http://".toList.isPrefixOf s || "https://".toList.isPrefixOf s

def fileLine (line : List Char) : Option (List Char) :=
  match cut ['='] (trimOf isWhiteSpace line) with
  | none => none
  | some (key, val) =>
    if "file".toList.isPrefixOf (L.lower (trimOf isWhiteSpace key)) then
      let v := trimOf isWhiteSpace val
      if startsHttp v then some v else none
    else none

def urlLine (line : List Char) : Option (List Char) :=
  let t := trimOf isWhiteSpace line
  if t = [] || t.head? = some '#' then none
  else if startsHttp t then some t else none

def firstUrlFromPlaylist (body : List Char) : Option (List Char) :=
  let text := trimOf isWhiteSpace body
  ((lines text).findSome? (fileLine L)).or ((lines text).findSome? urlLine)

end Urls

end Atradio.Cli
