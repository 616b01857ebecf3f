import Mathlib.Data.List.Flatten
import Atradio.Lib.Packets

/-! # The MPEG-TS demuxer of the native engine (`adaptive/ts.rs`)

`feed` takes any piece of a transport stream and gives out the audio in it. Bytes are bytes, and the
numbers that are read from them are natural numbers. -/

namespace Atradio.Native
open Atradio.Lib

inductive TsAudioKind where
  | aac
  | mpeg
  deriving DecidableEq

def TS_PACKET : ℕ := 188

def isSync (b : UInt8) : Bool := b = 0x47

/-- Two bytes as a number, of the first one only the lowest bits, below `unit`. -/
def bigEndian (unit : ℕ) (hi lo : UInt8) : ℕ := hi.toNat % unit * 0x100 + lo.toNat

/-- Whether the header of the PES packet is stripped, and what there is of it before that. -/
structure PesState where
  inPes : Bool
  pesHdr : List UInt8

/-- The demuxer but for the part of a packet that is left over. -/
structure TsState extends PesState where
  pmtPid : Option ℕ
  audioPid : Option ℕ
  kind : Option TsAudioKind

structure TsDemuxer extends TsState where
  leftover : List UInt8

def TsDemuxer.new : TsDemuxer := ⟨⟨⟨false, []⟩, none, none, none⟩, []⟩

def psiSection (payload : List UInt8) (pusi : Bool) : List UInt8 :=
  match pusi, payload with
  | true, ptr :: rest => rest.drop ptr.toNat
  | _, _ => payload

/-- Where the entries of a section end: behind them is the checksum. -/
def sectionEnd (table : List UInt8) : ℕ :=
  min (3 + bigEndian 0x10 (table.getD 1 0) (table.getD 2 0)) table.length - 4

/-- The first entry of a PAT that is a program. -/
def programPid : List UInt8 → Option ℕ
  | a :: b :: c :: d :: rest =>
    if bigEndian 0x100 a b ≠ 0 then some (bigEndian 0x20 c d) else programPid rest
  | _ => none

def streamKind (streamType : UInt8) : Option TsAudioKind :=
  if streamType = 0x0F then some .aac
  else if streamType = 0x03 || streamType = 0x04 then some .mpeg
  else none

def latmText : String :=
  "MPEG-TS carries AAC-LATM audio (stream_type 0x11), which is not supported"

def noAudioText : String :=
  "no supported audio stream (ADTS AAC or MPEG audio) in the MPEG-TS program"

/-- The first audio stream of a PMT, from the entry behind `skip` bytes on. -/
def audioStream : ℕ → Bool → List UInt8 → Except String (ℕ × TsAudioKind)
  | skip + 1, sawLatm, _ :: rest => audioStream skip sawLatm rest
  | 0, sawLatm, streamType :: a :: b :: c :: d :: rest =>
    match streamKind streamType with
    | some kind => .ok (bigEndian 0x20 a b, kind)
    | none => audioStream (bigEndian 0x10 c d) (sawLatm || streamType = 0x11) rest
  | _, sawLatm, _ => .error (if sawLatm then latmText else noAudioText)

namespace PesState

/-- Try to strip the header of a PES packet, which may not be there yet. -/
def stripHeader (d : PesState) : List UInt8 × PesState :=
  if d.pesHdr.length < 9 then ([], d)
  else if d.pesHdr.take 3 ≠ [0, 0, 1] then ([], { d with pesHdr := [] })
  else
    let headerLen := (d.pesHdr.getD 8 0).toNat
    if d.pesHdr.length < 9 + headerLen then ([], d)
    else (d.pesHdr.drop (9 + headerLen), ⟨true, []⟩)

def audioPayload (d : PesState) (payload : List UInt8) (pusi : Bool) : List UInt8 × PesState :=
  if pusi then stripHeader ⟨false, payload⟩
  else if d.pesHdr ≠ [] then stripHeader { d with pesHdr := d.pesHdr ++ payload }
  else if d.inPes then (payload, d)
  else ([], d)

end PesState

namespace TsState

def parsePat (d : TsState) (table : List UInt8) : TsState :=
  if table.length < 12 || table.getD 0 0 ≠ 0x00 then d
  else match programPid ((table.take (sectionEnd table)).drop 8) with
    | some pid => { d with pmtPid := some pid }
    | none => d

def parsePmt (d : TsState) (table : List UInt8) : Except String TsState :=
  if table.length < 16 || table.getD 0 0 ≠ 0x02 then .ok d
  else
    let programInfoLen := bigEndian 0x10 (table.getD 10 0) (table.getD 11 0)
    match audioStream 0 false ((table.take (sectionEnd table)).drop (12 + programInfoLen)) with
    | .ok (pid, kind) => .ok { d with audioPid := some pid, kind := some kind }
    | .error e => .error e

def dispatch (d : TsState) (pid : ℕ) (pusi : Bool) (payload : List UInt8) :
    List UInt8 × Except String TsState :=
  if pid = 0 then ([], .ok (d.parsePat (psiSection payload pusi)))
  else if some pid = d.pmtPid ∧ d.audioPid.isNone then
    ([], d.parsePmt (psiSection payload pusi))
  else if some pid = d.audioPid then
    ((d.audioPayload payload pusi).1, .ok { d with toPesState := (d.audioPayload payload pusi).2 })
  else ([], .ok d)

def packet (d : TsState) (pkt : List UInt8) : List UInt8 × Except String TsState :=
  let byte i := (pkt.getD i 0).toNat
  let pusi := decide (byte 1 / 0x40 % 2 = 1)
  let pid := bigEndian 0x20 (pkt.getD 1 0) (pkt.getD 2 0)
  -- an adaptation field, its length and as many bytes
  let off := if byte 3 / 0x20 % 2 = 1 then 4 + (1 + byte 4) else 4
  if TS_PACKET ≤ off then ([], .ok d)
  else if byte 3 / 0x10 % 2 = 0 then ([], .ok d)
  else d.dispatch pid pusi (pkt.drop off)

end TsState

namespace TsDemuxer

def feed (d : TsDemuxer) (data : List UInt8) : List UInt8 × Except String TsDemuxer :=
  let r := packets (TS_PACKET - 1) isSync TsState.packet d.toTsState (d.leftover ++ data)
  (r.1, r.2.map fun s => { s.1 with leftover := s.2 })

/-- Piece after piece, up to the first that fails. -/
def feedAll (d : TsDemuxer) : List (List UInt8) → List UInt8 × Except String TsDemuxer
  | [] => ([], .ok d)
  | data :: rest => andThen (d.feed data) fun d => d.feedAll rest

theorem feedAll_handleAll (d : TsDemuxer) (pieces : List (List UInt8)) :
    d.feedAll pieces = handleAll feed d pieces := by
  induction pieces generalizing d with
  | nil => rfl
  | cons data rest ih =>
    rw [feedAll, handleAll]
    exact congrArg (andThen (d.feed data)) (funext ih)

/-- The demuxer without the bytes in which it has yet to find a packet. -/
def synced (d : TsDemuxer) : TsDemuxer := { d with leftover := fromMark isSync d.leftover }

theorem feedAll_eq (d : TsDemuxer) (pieces : List (List UInt8)) :
    d.feedAll pieces =
      let r := readPackets (TS_PACKET - 1) isSync TsState.packet (d.toTsState, d.leftover) pieces
      (r.1, r.2.map fun s => { s.1 with leftover := s.2 }) := by
  induction pieces generalizing d with
  | nil => rfl
  | cons data rest ih =>
    rw [feedAll, feed, readPackets]
    cases hr : packets (TS_PACKET - 1) isSync TsState.packet d.toTsState (d.leftover ++ data) with
    | mk out result =>
      cases result with
      | error e => rfl
      | ok s => simp only [andThen, Except.map, ih]

theorem settled_feed {r r' : List UInt8 × Except String (TsState × List UInt8)}
    (h : settled isSync r = settled isSync r') :
    (r.1, (r.2.map fun s => ({ s.1 with leftover := s.2 } : TsDemuxer)).map synced) =
      (r'.1, (r'.2.map fun s => ({ s.1 with leftover := s.2 } : TsDemuxer)).map synced) := by
  obtain ⟨out, result⟩ := r
  obtain ⟨out', result'⟩ := r'
  obtain ⟨rfl, hresult⟩ := Prod.mk.inj h
  have hmap : ∀ x : Except String (TsState × List UInt8),
      (x.map fun s => ({ s.1 with leftover := s.2 } : TsDemuxer)).map synced =
        (x.map fun s => (s.1, fromMark isSync s.2)).map
          fun s => ({ s.1 with leftover := s.2 } : TsDemuxer) := by
    intro x
    cases x <;> rfl
  rw [hmap, hmap]
  exact congrArg (fun x => (out, Except.map _ x)) hresult

theorem feedAll_flatten (pieces : List (List UInt8)) :
    ((new.feedAll pieces).1, (new.feedAll pieces).2.map synced) =
      ((new.feed pieces.flatten).1, (new.feed pieces.flatten).2.map synced) := by
  have hshort : new.leftover.length ≤ TS_PACKET - 1 := Nat.zero_le _
  have hread := @readPackets_flatten _ _ _ _ _ isSync TsState.packet
    (new.toTsState, new.leftover) hshort pieces
  rw [feedAll_eq]
  exact settled_feed hread

end TsDemuxer

/-- However a transport stream is cut into pieces, the demuxer gives out the same audio and ends in
the same state or with the same error, but for bytes in which it has found no packet yet. -/
theorem demux_any_cut (pieces : List (List UInt8)) :
    (TsDemuxer.new.feedAll pieces).1 = (TsDemuxer.new.feed pieces.flatten).1 ∧
      (TsDemuxer.new.feedAll pieces).2.map TsDemuxer.synced =
        (TsDemuxer.new.feed pieces.flatten).2.map TsDemuxer.synced :=
  Prod.mk.inj (TsDemuxer.feedAll_flatten pieces)

end Atradio.Native
