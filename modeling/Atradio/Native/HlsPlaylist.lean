import Atradio.Cli.Resolve

/-! # Media playlists of HLS (`adaptive/hls.rs`, and `url_join` of `adaptive/mod.rs`)

A line is a tag, a comment or the address of a segment. Numbers are those of `u64`; the durations,
which only pace the reloads, are left out. -/

namespace Atradio.Native
open Atradio.Lib

def U64 : ℕ := 0x10000000000000000

def trim (s : List Char) : List Char := trimOf Cli.isWhiteSpace s

def dropPlus : List Char → List Char
  | '+' :: rest => rest
  | s => s

/-- `str::parse` to a `u64`. -/
def parseU64 (s : List Char) : Option ℕ :=
  let digits := dropPlus s
  if digits ≠ [] ∧ digits.all Char.isDigit ∧ Nat.ofDigitChars 10 digits 0 < U64 then
    some (Nat.ofDigitChars 10 digits 0)
  else none

def stripPrefix (mark s : List Char) : Option (List Char) :=
  if mark.isPrefixOf s then some (s.drop mark.length) else none

/-! ### Addresses -/

def isSuffixMark (c : Char) : Bool := c = '?' || c = '#'

/-- Without `.` and, where there is something before it, `..`. -/
def normalizePath (path : List Char) : List Char :=
  let bare := path.takeWhile (!isSuffixMark ·)
  let segs := (bare.splitOn '/').foldl (fun segs seg =>
    if seg = ['.'] ∨ seg = [] then segs
    else if seg = ['.', '.'] then segs.dropLast
    else segs ++ [seg]) []
  let out := '/' :: ['/'].intercalate segs
  (if bare.getLast? = some '/' ∧ 1 < out.length then out ++ ['/'] else out) ++
    path.dropWhile (!isSuffixMark ·)

def urlJoin (base rel : List Char) : List Char :=
  let rel := trim rel
  if (cut "://".toList rel).isSome then rel
  else
    let (scheme, rest) := match cut "://".toList base with
      | some (scheme, rest) => (scheme ++ "://".toList, rest)
      | none => ([], base)
    let origin := scheme ++ rest.takeWhile (· ≠ '/')
    match stripPrefix "//".toList rel with
    | some rest => scheme.take (scheme.length - 2) ++ "//".toList ++ rest
    | none =>
      if ['/'].isPrefixOf rel then origin ++ normalizePath rel
      else
        -- the directory of the base, with the slash behind it
        let dir := ((rest.dropWhile (· ≠ '/')).takeWhile (!isSuffixMark ·)).rdropWhile (· ≠ '/')
        if dir = [] then origin ++ '/' :: rel else origin ++ normalizePath (dir ++ rel)

/-! ### Lines -/

def quote : Char := Char.ofNat 34

/-- A value, with or without quotes, and what is behind the comma after it. -/
def attrValue (s : List Char) : List Char × List Char :=
  if [quote].isPrefixOf s then
    ((s.drop 1).takeWhile (· ≠ quote),
      ((((s.drop 1).dropWhile (· ≠ quote)).drop 1).dropWhile (· ≠ ',')).drop 1)
  else (trim (s.takeWhile (· ≠ ',')), (s.dropWhile (· ≠ ',')).drop 1)

theorem attrValue_length (s : List Char) : (attrValue s).2.length ≤ s.length := by
  have hdrop : ∀ (p : Char → Bool) (l : List Char), (l.dropWhile p).length ≤ l.length :=
    fun p l => (List.dropWhile_suffix p).length_le
  have hplain := hdrop (· ≠ ',') s
  have hquoted := hdrop (· ≠ quote) (s.drop 1)
  have hcomma := hdrop (· ≠ ',') (((s.drop 1).dropWhile (· ≠ quote)).drop 1)
  unfold attrValue
  split
  · simp only [List.length_drop] at hquoted hcomma ⊢
    omega
  · simp only [List.length_drop]
    omega

/-- `KEY=VALUE,KEY="quoted,value",…` -/
def parseAttributes (s : List Char) : List (List Char × List Char) :=
  match _h : s.dropWhile (· ≠ '=') with
  | [] => []
  | _ :: rest =>
    let key := trim (s.takeWhile (· ≠ '='))
    let more := parseAttributes (attrValue rest).2
    if key = [] then more else (key, (attrValue rest).1) :: more
termination_by s.length
decreasing_by
  have hle := (List.dropWhile_suffix (· ≠ '=') (l := s)).length_le
  rw [_h, List.length_cons] at hle
  have hvalue := attrValue_length rest
  omega

/-- The value of a key in any case. -/
def attr (attrs : List (List Char × List Char)) (key : List Char) : Option (List Char) :=
  (attrs.find? fun a => a.1.map Char.toLower = key.map Char.toLower).map Prod.snd

/-- `<length>[@<offset>]`; without an offset, from where the range before it ended. -/
def parseByterange (v : List Char) (prevEnd : ℕ) : Option (ℕ × ℕ) :=
  match cut ['@'] v with
  | some (len, off) => do
    let len ← parseU64 (trim len)
    let off ← parseU64 (trim off)
    return (off, len)
  | none => (parseU64 (trim v)).map fun len => (prevEnd, len)

/-- What stands in a line, and behind a tag. -/
inductive Line where
  | mediaSequence (rest : List Char)
  | byterange (rest : List Char)
  | map (rest : List Char)
  | key (rest : List Char)
  | endlist
  | other
  | uri (line : List Char)
  deriving DecidableEq

/-- The tags for durations are among the others. -/
def lineOf (raw : List Char) : Line :=
  let line := trim raw
  if line = [] then .other
  else if let some rest := stripPrefix "#EXT-X-MEDIA-SEQUENCE:".toList line then .mediaSequence rest
  else if let some rest := stripPrefix "#EXT-X-BYTERANGE:".toList line then .byterange rest
  else if let some rest := stripPrefix "#EXT-X-MAP:".toList line then .map rest
  else if let some rest := stripPrefix "#EXT-X-KEY:".toList line then .key rest
  else if "#EXT-X-ENDLIST".toList.isPrefixOf line then .endlist
  else if ['#'].isPrefixOf line then .other
  else .uri line

/-! ### Playlists -/

/-- Ranges are an offset and a length. -/
structure InitMap where
  uri : List Char
  byteRange : Option (ℕ × ℕ)
  deriving DecidableEq

structure MediaSegment where
  uri : List Char
  sequence : ℕ
  byteRange : Option (ℕ × ℕ)
  map : Option InitMap
  deriving DecidableEq

structure MediaPlaylist where
  mediaSequence : ℕ := 0
  endlist : Bool := false
  encrypted : Bool := false
  segments : List MediaSegment := []
  deriving DecidableEq

/-- What `parse_media` keeps from line to line. -/
structure Parsing where
  playlist : MediaPlaylist := {}
  pendingRange : Option (ℕ × ℕ) := none
  currentMap : Option InitMap := none
  prevRangeEnd : ℕ := 0
  deriving DecidableEq

/-- The end of a range, or of the one before. -/
def rangeEnd (prevEnd : ℕ) : Option (ℕ × ℕ) → ℕ
  | some (off, len) => (off + len) % U64
  | none => prevEnd

def Parsing.line (base : List Char) (p : Parsing) : Line → Parsing
  | .mediaSequence rest =>
    { p with playlist.mediaSequence := (parseU64 (trim rest)).getD 0 }
  | .byterange rest => { p with pendingRange := parseByterange (trim rest) p.prevRangeEnd }
  | .map rest =>
    match attr (parseAttributes rest) "URI".toList with
    | some uri =>
      let range := (attr (parseAttributes rest) "BYTERANGE".toList).bind (parseByterange · 0)
      { p with currentMap := some ⟨urlJoin base uri, range⟩ }
    | none => p
  | .key rest =>
    match attr (parseAttributes rest) "METHOD".toList with
    | some method =>
      if method.map Char.toLower = "none".toList then p else { p with playlist.encrypted := true }
    | none => p
  | .endlist => { p with playlist.endlist := true }
  | .other => p
  | .uri line =>
    let segment : MediaSegment :=
      { uri := urlJoin base line
        sequence := (p.playlist.mediaSequence + p.playlist.segments.length) % U64
        byteRange := p.pendingRange
        map := p.currentMap }
    { p with
      playlist.segments := p.playlist.segments ++ [segment]
      pendingRange := none
      prevRangeEnd := rangeEnd p.prevRangeEnd p.pendingRange }

def parseMedia (base text : List Char) : MediaPlaylist :=
  (((Cli.lines text).map lineOf).foldl (Parsing.line base) {}).playlist

end Atradio.Native
