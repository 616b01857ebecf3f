import Atradio.Native.HlsPlaylist
import Atradio.Native.TsDemuxer

/-! # Reading a stream of HLS (`adaptive/mod.rs`)

A read takes what is in the buffer, and fetches and demuxes segments while there is nothing in it.
It waits for the replies to its requests; the events of a run are the reads and the replies. -/

namespace Atradio.Native
open Atradio.Lib

def MAX_STALE_RELOADS : ℕ := 10

def MAX_MISSING_RETRIES : ℕ := 20

def LIVE_EDGE_BACKOFF : ℕ := 3

/-- `fmp4.rs`: `segment` is what a segment gives out, and the error that ends it. -/
structure Fmp4 (σ : Type) where
  init : List UInt8 → Except String σ
  ext : σ → List Char
  segment : σ → List UInt8 → List UInt8 × Option String

/-! ### Containers -/

def TsAudioKind.ext : TsAudioKind → List Char
  | .aac => "aac".toList
  | .mpeg => "mp3".toList

def looksLikeTs (data : List UInt8) : Bool :=
  TS_PACKET < data.length && isSync (data.getD 0 0) && isSync (data.getD TS_PACKET 0)

def looksLikeMp4 (data : List UInt8) : Bool :=
  8 ≤ data.length &&
    (["ftyp", "styp", "moov", "moof", "sidx", "prft", "emsg"].map fun fourcc =>
      fourcc.toList.map fun c => c.toNat.toUInt8).contains ((data.drop 4).take 4)

/-- The length of an ID3v2 tag with its header, of seven bits a byte. -/
def id3Length (data : List UInt8) : ℕ :=
  let byte i := (data.getD i 0).toNat % 0x80
  10 + (((byte 6 * 0x80 + byte 7) * 0x80 + byte 8) * 0x80 + byte 9)

def stripId3 (data : List UInt8) : List UInt8 :=
  if data.length < 10 ∨ data.take 3 ≠ [0x49, 0x44, 0x33] then data
  else if data.length < id3Length data then data
  else stripId3 (data.drop (id3Length data))
termination_by data.length
decreasing_by
  have hpos : 10 ≤ id3Length data := Nat.le_add_right _ _
  rw [List.length_drop]
  omega

/-- The last part of the path behind its last point. -/
def urlExt (url : List Char) : Option (List Char) :=
  let name := (url.takeWhile (!isSuffixMark ·)).rtakeWhile (· ≠ '/')
  if '.' ∈ name then some ((name.rtakeWhile (· ≠ '.')).map Char.toLower) else none

def rawExts : List (List Char) :=
  ["aac", "mp3", "mp2", "mp1", "mpa", "ogg", "oga", "opus", "flac", "wav"].map String.toList

def sniffExt (data : List UInt8) (url : List Char) : List Char :=
  let sync := 4 ≤ data.length && data.getD 0 0 = 0xFF
  let byte := (data.getD 1 0).toNat
  if let some ext := (urlExt url).filter rawExts.contains then ext
  else if data.take 4 = [0x4F, 0x67, 0x67, 0x53] then "ogg".toList
  else if data.take 4 = [0x66, 0x4C, 0x61, 0x43] then "flac".toList
  else if sync && byte / 0x10 = 0xF && byte / 2 % 4 = 0 then "aac".toList
  else if sync && byte / 0x20 = 7 then "mp3".toList
  else "aac".toList

/-! ### The stream -/

inductive Demux (σ : Type) where
  | unknown
  | passthrough
  | ts (demuxer : TsDemuxer)
  | fmp4 (demuxer : σ)

/-- A segment that was demuxed, with the init segment that was fetched for it. -/
structure Fetched where
  segment : MediaSegment
  init : Option (List UInt8)
  media : List UInt8

/-- The first segment that has not been served. -/
def MediaPlaylist.unserved (playlist : MediaPlaylist) (nextSeq : ℕ) : Option MediaSegment :=
  playlist.segments.find? fun seg => nextSeq ≤ seg.sequence

/-- What a read waits for. -/
inductive Stage where
  | ready
  | reload
  | segment (desc : MediaSegment) (missingRetries : ℕ)
  | init (desc : MediaSegment) (map : InitMap) (media : List UInt8)
  | failed (error : String)

/-- `want` is the size of the read, none while the stream is built. The segments handed out, those
demuxed and the bytes read are kept for the record. -/
structure AdaptiveStream (σ : Type) where
  playlist : MediaPlaylist
  nextSeq : ℕ
  staleReloads : ℕ := 0
  demux : Demux σ := .unknown
  currentInit : Option InitMap := none
  buf : List UInt8 := []
  pos : ℕ := 0
  ext : List Char := []
  ended : Bool := false
  stage : Stage := .ready
  want : Option ℕ := none
  taken : List MediaSegment := []
  fetched : List Fetched := []
  given : List UInt8 := []

inductive Reply where
  | body (data : List UInt8)
  | status (code : ℕ)
  | lost (error : String)

inductive StreamEvent where
  | read (n : ℕ)
  | playlist (reply : Except String (List Char))
  | media (reply : Reply)

def encryptedText : String := "HLS stream is encrypted (EXT-X-KEY), which is not supported"

def noSegmentsText : String := "HLS media playlist has no segments"

def noDataText : String := "adaptive stream has no media data"

def becameEncryptedText : String := "HLS stream became encrypted mid-play"

def noPmtText : String := "MPEG-TS segment has no PAT/PMT"

def statusText (code : ℕ) (url : List Char) : String :=
  "segment fetch failed: HTTP " ++ toString code ++ " for " ++ String.ofList url

section Steps

variable {σ : Type} (F : Fmp4 σ)

/-- `configure`: the demuxer for a first segment or a new init segment, and the extension. -/
def configure (desc : MediaSegment) (init : Option (List UInt8)) (media : List UInt8) :
    Except String (Demux σ × List Char) :=
  match init with
  | some data => (F.init data).map fun d => (.fmp4 d, F.ext d)
  | none =>
    if looksLikeMp4 media then (F.init media).map fun d => (.fmp4 d, F.ext d)
    else if looksLikeTs media then
      match (TsDemuxer.new.feed media).2 with
      | .error e => .error e
      | .ok probe =>
        match probe.kind with
        | some kind => .ok (.ts .new, kind.ext)
        | none => .error noPmtText
    else .ok (.passthrough, sniffExt (stripId3 media) desc.uri)

def Demux.feed (media : List UInt8) : Demux σ → List UInt8 × Except String (Demux σ)
  | .unknown => ([], .ok .unknown)
  | .passthrough => (stripId3 media, .ok .passthrough)
  | .ts d => ((d.feed media).1, (d.feed media).2.map .ts)
  | .fmp4 d =>
    ((F.segment d media).1, match (F.segment d media).2 with
      | some e => .error e
      | none => .ok (.fmp4 d))

def Demux.isUnknown : Demux σ → Bool
  | .unknown => true
  | _ => false

namespace AdaptiveStream

variable (s : AdaptiveStream σ)

def fail (error : String) : AdaptiveStream σ := { s with stage := .failed error }

/-- A read of `n` bytes from the buffer. -/
def deliver (n : ℕ) : AdaptiveStream σ :=
  { s with
    given := s.given ++ (s.buf.drop s.pos).take n
    pos := s.pos + min (s.buf.length - s.pos) n
    stage := .ready }

/-- There is something in the buffer. -/
def filled : AdaptiveStream σ :=
  match s.want with
  | some n => s.deliver n
  | none => { s with stage := .ready }

/-- There is no next segment. -/
def finish : AdaptiveStream σ :=
  match s.want with
  | some _ => { s with ended := true, stage := .ready }
  | none => { s with ended := true, stage := .failed noDataText }

/-- `next` up to where it waits. -/
def next : AdaptiveStream σ :=
  match s.playlist.unserved s.nextSeq with
  | some seg =>
    { s with
      nextSeq := (seg.sequence + 1) % U64
      taken := s.taken ++ [seg]
      stage := .segment seg 0 }
  | none => if s.playlist.endlist then s.finish else { s with stage := .reload }

/-- `next` with a playlist that was loaded again. -/
def reloaded (fresh : MediaPlaylist) : AdaptiveStream σ :=
  if fresh.encrypted then s.fail becameEncryptedText
  else if (fresh.unserved s.nextSeq).isSome || fresh.endlist then
    { s with playlist := fresh, staleReloads := 0 }.next
  else
    let s := { s with playlist := fresh, staleReloads := s.staleReloads + 1 }
    if MAX_STALE_RELOADS < s.staleReloads then s.finish else s.next

/-- The segment goes through the demuxer. A segment without audio is not the last. -/
def decode (desc : MediaSegment) (init : Option (List UInt8)) (media : List UInt8) :
    AdaptiveStream σ :=
  let r := s.demux.feed F media
  let segment : Fetched := ⟨desc, init, media⟩
  let s := { s with buf := r.1, fetched := s.fetched ++ [segment] }
  match r.2 with
  | .error e => s.fail e
  | .ok demux =>
    let s := { s with demux }
    if r.1 = [] then s.next else s.filled

def configured (desc : MediaSegment) (init : Option (List UInt8)) (media : List UInt8) :
    AdaptiveStream σ :=
  match configure F desc init media with
  | .error e => s.fail e
  | .ok (demux, ext) =>
    { s with demux, ext, currentInit := desc.map }.decode F desc init media

/-- `demux_segment`, up to the request for an init segment. -/
def demuxSegment (desc : MediaSegment) (media : List UInt8) : AdaptiveStream σ :=
  let s := { s with buf := [], pos := 0 }
  if s.demux.isUnknown ∨ (desc.map ≠ s.currentInit ∧ desc.map.isSome) then
    match desc.map with
    | some map => { s with stage := .init desc map media }
    | none => s.configured F desc none media
  else s.decode F desc none media

def missing (code : ℕ) : Bool := code = 404 || code = 410

def step (url : List Char) (s : AdaptiveStream σ) : StreamEvent → AdaptiveStream σ
  | .read n =>
    match s.stage with
    | .ready =>
      if n = 0 then s
      else if s.pos < s.buf.length then s.deliver n
      else if s.ended then s
      else { s with want := some n }.next
    | _ => s
  | .playlist reply =>
    match s.stage, reply with
    | .reload, .ok text => s.reloaded (parseMedia url text)
    | .reload, .error e => s.fail e
    | _, _ => s
  | .media reply =>
    match s.stage, reply with
    | .segment desc _, .body data => s.demuxSegment F desc data
    | .segment desc retries, .status code =>
      if missing code ∧ ¬ s.playlist.endlist ∧ retries < MAX_MISSING_RETRIES then
        { s with stage := .segment desc (retries + 1) }
      else s.fail (statusText code desc.uri)
    | .init desc _ media, .body data => s.configured F desc (some data) media
    | .init _ map _, .status code => s.fail (statusText code map.uri)
    | .segment _ _, .lost e => s.fail e
    | .init _ _ _, .lost e => s.fail e
    | _, _ => s

end AdaptiveStream

/-- `open_hls`, up to the request for the first segment. -/
def openHls (url text : List Char) : Except String (AdaptiveStream σ) :=
  let playlist := parseMedia url text
  let start := if playlist.endlist then 0 else playlist.segments.length - LIVE_EDGE_BACKOFF
  if playlist.encrypted then .error encryptedText
  else match playlist.segments[start]? with
    | none => .error noSegmentsText
    | some first => .ok ({ playlist, nextSeq := first.sequence } : AdaptiveStream σ).next

end Steps

end Atradio.Native
