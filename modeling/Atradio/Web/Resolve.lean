import Atradio.Lib.Text
import Atradio.Proxy.Upstream

/-! # Streams in the browser (`resolve.ts`) and in the media proxy (`stream.ts`) -/

namespace Atradio.Web
open Atradio.Lib Atradio.Lexicons Atradio.Proxy

/-- `\s`, and what `trim` takes off. -/
def isSpace (c : Char) : Bool := c ∈ whitespace

def isLineTerminator (c : Char) : Bool :=
  c = '\n' || c = '\r' || c = Char.ofNat 0x2028 || c = Char.ofNat 0x2029

/-- `\.m3u8(\?|$)` at the start of `s`. -/
def hlsMark (s : List Char) : Bool :=
  match skipWord ".m3u8".toList s with
  | none => false
  | some [] => true
  | some (c :: _) => c = '?'

def isHlsUrl (url : List Char) : Bool := url.tails.any hlsMark

/-- What follows `https?:\/\/` -/
def afterScheme (s : List Char) : Option (List Char) :=
  (skipWord "https://".toList s).or (skipWord "http://".toList s)

/-- What follows `File\d+\s*=` -/
def fileKey (s : List Char) : Option (List Char) :=
  (skipWord "file".toList s).bind fun s =>
    if s.takeWhile Char.isDigit = [] then none
    else match (s.dropWhile Char.isDigit).dropWhile isSpace with
      | '=' :: value => some value
      | _ => none

/-- `\s*(\S+)` -/
def firstWord (s : List Char) : Option (List Char) :=
  let word := (s.dropWhile isSpace).takeWhile fun c => !isSpace c
  if word = [] then none else some word

/-- `^\s*File\d+\s*=\s*(\S+)` from the start of `s`. -/
def plsAt (s : List Char) : Option (List Char) := (fileKey (s.dropWhile isSpace)).bind firstWord

/-- The first match in a text; `start` says that a line begins here. -/
def plsMatch (start : Bool) : List Char → Option (List Char)
  | [] => none
  | c :: s => (if start then plsAt (c :: s) else none).or (plsMatch (isLineTerminator c) s)

def urlLine (line : List Char) : Option (List Char) :=
  let t := trimOf isSpace line
  if t = [] || t.head? = some '#' then none
  else if (afterScheme t).isSome then some t else none

def firstUrlFromPlaylist (body : List Char) : Option (List Char) :=
  let text := trimOf isSpace body
  match plsMatch true text with
  | some url => some (trimOf isSpace url)
  | none => (splitLines text).findSome? urlLine

end Atradio.Web

namespace Atradio.Proxy
open Atradio.Web

def opmlOrigin : List Char := "https://opml.radiotime.com".toList

/-- What follows `^https?:\/\/[^/]+\/api\/tunein` -/
def legacyPath (url : List Char) : Option (List Char) :=
  (afterScheme url).bind fun s =>
    if s.takeWhile (· ≠ '/') = [] then none
    else skipWord "/api/tunein".toList (s.dropWhile (· ≠ '/'))

def rewriteLegacyTunein (url : List Char) : List Char :=
  match legacyPath url with
  | none => url
  | some rest => opmlOrigin ++ rest

end Atradio.Proxy
