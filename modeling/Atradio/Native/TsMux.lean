import Atradio.Native.TsDemuxer

/-! # Transport streams that carry audio

What the demuxer is for: a PAT, a PMT, and the audio in PES packets that are split over transport
packets, among packets of any other kind. `TsPacket.bytes` is `ts_packet` of the demuxer's tests. -/

namespace Atradio.Native
open Atradio.Lib

structure TsPacket where
  pid : ℕ
  pusi : Bool
  payload : List UInt8
  pid_lt : pid < 0x2000
  payload_le : payload.length ≤ 184

/-- The adaptation field that has the payload end with the packet. -/
def adaptation (payload : List UInt8) : List UInt8 :=
  if payload.length = 184 then []
  else UInt8.ofNat (183 - payload.length) ::
    (if payload.length = 183 then [] else 0x00 :: List.replicate (182 - payload.length) 0xFF)

def TsPacket.bytes (p : TsPacket) : List UInt8 :=
  [0x47, UInt8.ofNat (p.pid / 0x100 + if p.pusi then 0x40 else 0), UInt8.ofNat (p.pid % 0x100),
    if p.payload.length = 184 then 0x10 else 0x30] ++ (adaptation p.payload ++ p.payload)

/-- A number below 4096 under four marker bits. -/
def lengthBytes (mark : ℕ) (n : ℕ) : List UInt8 :=
  [UInt8.ofNat (mark + n / 0x100), UInt8.ofNat (n % 0x100)]

/-- A table, its entries behind a fixed part and in front of a checksum. -/
def tableBytes (tableId : UInt8) (fixed entries crc : List UInt8) : List UInt8 :=
  tableId :: (lengthBytes 0xB0 (fixed ++ entries ++ crc).length ++ (fixed ++ entries ++ crc))

/-- A PAT; the program is the first entry that is not for the network. -/
structure Pat where
  fixed : List UInt8
  networks : List (UInt8 × UInt8)
  program : UInt8 × UInt8
  pmtPid : ℕ
  more : List UInt8
  crc : List UInt8
  stuffing : List UInt8
  fixed_length : fixed.length = 5
  program_ne : bigEndian 0x100 program.1 program.2 ≠ 0
  pmtPid_lt : pmtPid < 0x2000
  pmtPid_ne : pmtPid ≠ 0
  crc_length : crc.length = 4

namespace Pat

def entries (t : Pat) : List UInt8 :=
  t.networks.flatMap (fun n => [0, 0, n.1, n.2]) ++
    ([t.program.1, t.program.2] ++ lengthBytes 0xE0 t.pmtPid ++ t.more)

def bytes (t : Pat) : List UInt8 := tableBytes 0x00 t.fixed t.entries t.crc ++ t.stuffing

end Pat

/-- An elementary stream of a PMT, with its descriptors. -/
structure PmtStream where
  streamType : UInt8
  pid : ℕ
  info : List UInt8
  pid_lt : pid < 0x2000
  info_lt : info.length < 0x1000

def PmtStream.bytes (e : PmtStream) : List UInt8 :=
  e.streamType :: (lengthBytes 0xE0 e.pid ++ (lengthBytes 0xF0 e.info.length ++ e.info))

/-- A PMT; the audio is the first stream that is supported. -/
structure Pmt where
  fixed : List UInt8
  programInfo : List UInt8
  others : List PmtStream
  audio : PmtStream
  kind : TsAudioKind
  more : List UInt8
  crc : List UInt8
  stuffing : List UInt8
  fixed_length : fixed.length = 7
  others_kind : ∀ e ∈ others, streamKind e.streamType = none
  audio_kind : streamKind audio.streamType = some kind
  audio_ne : audio.pid ≠ 0
  crc_length : crc.length = 4

namespace Pmt

def streams (t : Pmt) : List UInt8 := t.others.flatMap PmtStream.bytes ++ (t.audio.bytes ++ t.more)

def entries (t : Pmt) : List UInt8 :=
  lengthBytes 0xF0 t.programInfo.length ++ (t.programInfo ++ t.streams)

def bytes (t : Pmt) : List UInt8 := tableBytes 0x02 t.fixed t.entries t.crc ++ t.stuffing

end Pmt

/-- A PES packet with its header data, split over the payloads of transport packets. -/
structure Pes where
  fixed : List UInt8
  header : List UInt8
  es : List UInt8
  chunks : List (List UInt8)
  fixed_length : fixed.length = 5
  header_lt : header.length < 0x100
  nonempty : [] ∉ chunks
  flatten : chunks.flatten =
    [0, 0, 1] ++ fixed ++ UInt8.ofNat header.length :: (header ++ es)

/-- The payloads of a PES packet; the first one starts a unit. -/
def Pes.payloads (q : Pes) : List (Bool × List UInt8) :=
  match q.chunks with
  | [] => []
  | c :: rest => (true, c) :: rest.map fun c => (false, c)

/-- The packets of one PID, as unit starts and payloads. -/
def payloadsOf (pid : ℕ) (ps : List TsPacket) : List (Bool × List UInt8) :=
  (ps.filter fun p => p.pid = pid).map fun p => (p.pusi, p.payload)

structure TransportStream where
  pat : Pat
  pmt : Pmt
  before : List TsPacket
  between : List TsPacket
  packets : List TsPacket
  pess : List Pes
  pat_le : pat.bytes.length < 184
  pmt_le : pmt.bytes.length < 184
  before_pid : ∀ p ∈ before, p.pid ≠ 0
  between_pid : ∀ p ∈ between, p.pid ≠ 0 ∧ p.pid ≠ pat.pmtPid
  carries : payloadsOf pmt.audio.pid packets = pess.flatMap Pes.payloads

namespace TransportStream

def patPacket (s : TransportStream) : TsPacket :=
  ⟨0, true, 0 :: s.pat.bytes, by decide, s.pat_le⟩

def pmtPacket (s : TransportStream) : TsPacket :=
  ⟨s.pat.pmtPid, true, 0 :: s.pmt.bytes, s.pat.pmtPid_lt, s.pmt_le⟩

def all (s : TransportStream) : List TsPacket :=
  s.before ++ s.patPacket :: (s.between ++ s.pmtPacket :: s.packets)

def bytes (s : TransportStream) : List UInt8 := (s.all.map TsPacket.bytes).flatten

/-- The elementary stream that is carried. -/
def es (s : TransportStream) : List UInt8 := s.pess.flatMap (·.es)

end TransportStream

section Bytes

theorem bigEndian_bytes (unit mark : ℕ) {n : ℕ} (hmark : mark % unit = 0) (hn : n < unit * 0x100)
    (hsmall : mark + n / 0x100 < 0x100) :
    bigEndian unit (UInt8.ofNat (mark + n / 0x100)) (UInt8.ofNat (n % 0x100)) = n := by
  have hhi : (UInt8.ofNat (mark + n / 0x100)).toNat = mark + n / 0x100 := Nat.mod_eq_of_lt hsmall
  have hlo : (UInt8.ofNat (n % 0x100)).toNat = n % 0x100 :=
    Nat.mod_eq_of_lt (Nat.mod_lt n (by decide))
  have hdiv : n / 0x100 < unit := Nat.div_lt_of_lt_mul (by rwa [Nat.mul_comm] at hn)
  rw [bigEndian, hhi, hlo, Nat.add_mod, hmark, Nat.zero_add, Nat.mod_mod, Nat.mod_eq_of_lt hdiv]
  exact Nat.div_add_mod' n 0x100

theorem adaptation_length {payload : List UInt8} (h : payload.length ≤ 184) :
    (adaptation payload).length = 184 - payload.length := by
  unfold adaptation
  split
  · simp only [List.length_nil]
    omega
  · split
    · simp only [List.length_cons, List.length_nil]
      omega
    · simp only [List.length_cons, List.length_replicate]
      omega

theorem bytes_packet (p : TsPacket) :
    ∃ rest, p.bytes = 0x47 :: rest ∧ isSync 0x47 = true ∧ rest.length = TS_PACKET - 1 := by
  refine ⟨_, rfl, rfl, ?_⟩
  have hle := p.payload_le
  have hadaptation := adaptation_length hle
  change (adaptation p.payload ++ p.payload).length + 3 = 187
  rw [List.length_append]
  omega

theorem unit_start (p : TsPacket) :
    (UInt8.ofNat (p.pid / 0x100 + if p.pusi then 0x40 else 0)).toNat / 0x40 % 2 =
      if p.pusi then 1 else 0 := by
  have hlt := p.pid_lt
  cases p.pusi with
  | false =>
    have hbyte : (UInt8.ofNat (p.pid / 0x100 + 0)).toNat = p.pid / 0x100 + 0 :=
      Nat.mod_eq_of_lt (by omega)
    rw [if_neg Bool.false_ne_true, if_neg Bool.false_ne_true, hbyte]
    omega
  | true =>
    have hbyte : (UInt8.ofNat (p.pid / 0x100 + 0x40)).toNat = p.pid / 0x100 + 0x40 :=
      Nat.mod_eq_of_lt (by omega)
    rw [if_pos rfl, if_pos rfl, hbyte]
    omega

theorem packet_pid (p : TsPacket) :
    bigEndian 0x20 (UInt8.ofNat (p.pid / 0x100 + if p.pusi then 0x40 else 0))
      (UInt8.ofNat (p.pid % 0x100)) = p.pid := by
  have hlt := p.pid_lt
  rw [Nat.add_comm]
  refine bigEndian_bytes 0x20 _ ?_ hlt ?_
  · cases p.pusi <;> rfl
  · cases p.pusi <;> simp only [Bool.false_eq_true, if_true, if_false] <;> omega

theorem packet_plain (d : TsState) (b₁ b₂ : UInt8) (payload : List UInt8) :
    d.packet (0x47 :: b₁ :: b₂ :: 0x10 :: payload) =
      d.dispatch (bigEndian 0x20 b₁ b₂) (decide (b₁.toNat / 0x40 % 2 = 1)) payload := by
  have hfield : ¬ (0x10 : UInt8).toNat / 0x20 % 2 = 1 := by decide
  have hpayload : ¬ (0x10 : UInt8).toNat / 0x10 % 2 = 0 := by decide
  have hoff : ¬ TS_PACKET ≤ 4 := by decide
  simp only [TsState.packet, List.getD_cons_succ, List.getD_cons_zero, if_neg hfield,
    if_neg hpayload, if_neg hoff]
  rfl

theorem packet_adapted (d : TsState) (b₁ b₂ len : UInt8) (rest : List UInt8) :
    d.packet (0x47 :: b₁ :: b₂ :: 0x30 :: len :: rest) =
      if 183 ≤ len.toNat then ([], .ok d)
      else d.dispatch (bigEndian 0x20 b₁ b₂) (decide (b₁.toNat / 0x40 % 2 = 1))
        (rest.drop len.toNat) := by
  have hfield : (0x30 : UInt8).toNat / 0x20 % 2 = 1 := by decide
  have hpayload : ¬ (0x30 : UInt8).toNat / 0x10 % 2 = 0 := by decide
  have hoff : TS_PACKET ≤ 4 + (1 + len.toNat) ↔ 183 ≤ len.toNat := by
    change 188 ≤ _ ↔ _
    omega
  have hdrop : (0x47 :: b₁ :: b₂ :: 0x30 :: len :: rest).drop (4 + (1 + len.toNat)) =
      rest.drop len.toNat := by
    rw [show 4 + (1 + len.toNat) = len.toNat + 5 by omega]
    rfl
  simp only [TsState.packet, List.getD_cons_succ, List.getD_cons_zero, if_pos hfield,
    if_neg hpayload, hoff, hdrop]

/-- A packet is read as what it was made of, and as nothing if its payload is empty. -/
theorem packet_bytes (d : TsState) (p : TsPacket) : d.packet p.bytes =
    if p.payload = [] then ([], .ok d) else d.dispatch p.pid p.pusi p.payload := by
  have hle := p.payload_le
  have hpusi : decide ((UInt8.ofNat (p.pid / 0x100 + if p.pusi then 0x40 else 0)).toNat
      / 0x40 % 2 = 1) = p.pusi := by
    rw [unit_start]
    cases p.pusi <;> rfl
  by_cases hfull : p.payload.length = 184
  · have hne : p.payload ≠ [] := fun h => by
      rw [h] at hfull
      cases hfull
    rw [if_neg hne, TsPacket.bytes, adaptation, if_pos hfull, if_pos hfull, List.nil_append]
    refine (packet_plain d _ _ _).trans ?_
    rw [packet_pid, hpusi]
    rfl
  · have hlen : (UInt8.ofNat (183 - p.payload.length)).toNat = 183 - p.payload.length :=
      Nat.mod_eq_of_lt (by omega)
    have hlength := adaptation_length hle
    rw [TsPacket.bytes, if_neg hfull]
    unfold adaptation at hlength ⊢
    rw [if_neg hfull] at hlength ⊢
    refine (packet_adapted d _ _ _ _).trans ?_
    rw [hlen, packet_pid, hpusi]
    by_cases hnil : p.payload = []
    · rw [if_pos hnil, hnil]
      rfl
    · have hpos := List.length_pos_iff.2 hnil
      rw [if_neg hnil, if_neg (by omega)]
      refine congrArg (d.dispatch p.pid p.pusi) (List.drop_left' ?_)
      rw [List.length_cons] at hlength
      omega

end Bytes

section Tables

theorem table_drop {tableId : UInt8} {fixed entries crc : List UInt8} (stuffing : List UInt8) :
    (tableBytes tableId fixed entries crc ++ stuffing).drop (3 + fixed.length) =
      entries ++ (crc ++ stuffing) := by
  have hsplit : tableBytes tableId fixed entries crc ++ stuffing =
      (tableId :: (lengthBytes 0xB0 (fixed ++ entries ++ crc).length ++ fixed)) ++
        (entries ++ (crc ++ stuffing)) := by
    simp only [tableBytes, List.cons_append, List.append_assoc]
  rw [hsplit, List.drop_left']
  change fixed.length + 1 + 1 + 1 = _
  omega

theorem table_entries {tableId : UInt8} {fixed entries crc stuffing : List UInt8}
    (hcrc : crc.length = 4)
    (hlen : (tableBytes tableId fixed entries crc ++ stuffing).length < 0x1000) :
    ((tableBytes tableId fixed entries crc ++ stuffing).take
      (sectionEnd (tableBytes tableId fixed entries crc ++ stuffing))).drop (3 + fixed.length) =
        entries := by
  have htotal : (tableBytes tableId fixed entries crc ++ stuffing).length =
      7 + fixed.length + entries.length + stuffing.length := by
    simp only [tableBytes, lengthBytes, List.length_append, List.length_cons, List.length_nil, hcrc]
    omega
  have hinner : (fixed ++ entries ++ crc).length = fixed.length + entries.length + 4 := by
    rw [List.length_append, List.length_append, hcrc]
  have hread : bigEndian 0x10
      ((tableBytes tableId fixed entries crc ++ stuffing).getD 1 0)
      ((tableBytes tableId fixed entries crc ++ stuffing).getD 2 0) =
        fixed.length + entries.length + 4 := by
    refine Eq.trans ?_ hinner
    refine bigEndian_bytes 0x10 0xB0 rfl ?_ ?_ <;> omega
  have hend : sectionEnd (tableBytes tableId fixed entries crc ++ stuffing) =
      3 + fixed.length + entries.length := by
    rw [sectionEnd, hread, htotal]
    omega
  rw [hend, List.drop_take, table_drop, List.take_left']
  omega

theorem programPid_entries {networks : List (UInt8 × UInt8)} {program : UInt8 × UInt8} {pid : ℕ}
    (hprogram : bigEndian 0x100 program.1 program.2 ≠ 0) (hpid : pid < 0x2000) (more : List UInt8) :
    programPid (networks.flatMap (fun n => [0, 0, n.1, n.2]) ++
      ([program.1, program.2] ++ lengthBytes 0xE0 pid ++ more)) = some pid := by
  induction networks with
  | nil =>
    change (if bigEndian 0x100 program.1 program.2 ≠ 0 then some (bigEndian 0x20 _ _) else _) = _
    rw [if_pos hprogram, bigEndian_bytes 0x20 0xE0 rfl hpid (by omega)]
  | cons n networks ih =>
    refine Eq.trans ?_ ih
    change (if bigEndian 0x100 0 0 ≠ 0 then _ else _) = _
    rw [if_neg (by decide)]
    rfl

theorem parsePat_bytes (d : TsState) (t : Pat) (hlen : t.bytes.length < 0x1000) :
    d.parsePat t.bytes = { d with pmtPid := some t.pmtPid } := by
  have hlong : ¬ t.bytes.length < 12 := by
    have hfixed := t.fixed_length
    have hcrc := t.crc_length
    simp only [Pat.bytes, tableBytes, Pat.entries, lengthBytes, List.length_append,
      List.length_cons, List.length_nil]
    omega
  have hentries : (t.bytes.take (sectionEnd t.bytes)).drop 8 = t.entries := by
    have h := table_entries t.crc_length hlen
    rwa [t.fixed_length] at h
  have hid : t.bytes.getD 0 0 = 0x00 := rfl
  rw [TsState.parsePat, hid, decide_eq_false hlong, hentries, Pat.entries,
    programPid_entries t.program_ne t.pmtPid_lt]
  rfl

theorem audioStream_skip (sawLatm : Bool) (info rest : List UInt8) :
    audioStream info.length sawLatm (info ++ rest) = audioStream 0 sawLatm rest := by
  induction info with
  | nil => rfl
  | cons b info ih => exact ih

theorem stream_bytes (e : PmtStream) (rest : List UInt8) :
    e.bytes ++ rest = e.streamType :: UInt8.ofNat (0xE0 + e.pid / 0x100) ::
      UInt8.ofNat (e.pid % 0x100) :: UInt8.ofNat (0xF0 + e.info.length / 0x100) ::
        UInt8.ofNat (e.info.length % 0x100) :: (e.info ++ rest) := rfl

theorem audioStream_found (sawLatm : Bool) {e : PmtStream} {kind : TsAudioKind}
    (hkind : streamKind e.streamType = some kind) (rest : List UInt8) :
    audioStream 0 sawLatm (e.bytes ++ rest) = .ok (e.pid, kind) := by
  have hlt := e.pid_lt
  rw [stream_bytes, audioStream, hkind, bigEndian_bytes 0x20 0xE0 rfl hlt (by omega)]

theorem audioStream_other (sawLatm : Bool) {e : PmtStream} (hkind : streamKind e.streamType = none)
    (rest : List UInt8) : audioStream 0 sawLatm (e.bytes ++ rest) =
      audioStream 0 (sawLatm || e.streamType = 0x11) rest := by
  have hlt := e.info_lt
  rw [stream_bytes, audioStream, hkind, bigEndian_bytes 0x10 0xF0 rfl hlt (by omega)]
  exact audioStream_skip _ _ _

theorem audioStream_streams {others : List PmtStream} {audio : PmtStream} {kind : TsAudioKind}
    (hothers : ∀ e ∈ others, streamKind e.streamType = none)
    (haudio : streamKind audio.streamType = some kind) (more : List UInt8) (sawLatm : Bool) :
    audioStream 0 sawLatm (others.flatMap PmtStream.bytes ++ (audio.bytes ++ more)) =
      .ok (audio.pid, kind) := by
  induction others generalizing sawLatm with
  | nil => exact audioStream_found sawLatm haudio more
  | cons e others ih =>
    rw [List.flatMap_cons, List.append_assoc,
      audioStream_other sawLatm (hothers e (List.mem_cons_self ..))]
    exact ih (fun e' he' => hothers e' (List.mem_cons_of_mem _ he')) _

theorem getD_drop (l : List UInt8) (m i : ℕ) : l.getD (m + i) 0 = (l.drop m).getD i 0 := by
  rw [List.getD_eq_getElem?_getD, List.getD_eq_getElem?_getD, List.getElem?_drop]

theorem parsePmt_bytes (d : TsState) (t : Pmt) (hlen : t.bytes.length < 0x1000) :
    d.parsePmt t.bytes = .ok { d with audioPid := some t.audio.pid, kind := some t.kind } := by
  have hlength : t.bytes.length = 16 + t.programInfo.length + t.streams.length + t.stuffing.length
      := by
    have hfixed := t.fixed_length
    have hcrc := t.crc_length
    simp only [Pmt.bytes, tableBytes, Pmt.entries, lengthBytes, List.length_append,
      List.length_cons, List.length_nil]
    omega
  have hentries : (t.bytes.take (sectionEnd t.bytes)).drop 10 = t.entries := by
    have h := table_entries t.crc_length hlen
    rwa [t.fixed_length] at h
  have hdrop : t.bytes.drop 10 = t.entries ++ (t.crc ++ t.stuffing) := by
    have h := @table_drop 0x02 t.fixed t.entries t.crc t.stuffing
    rwa [t.fixed_length] at h
  have hinfo : bigEndian 0x10 (t.bytes.getD 10 0) (t.bytes.getD 11 0) = t.programInfo.length := by
    rw [getD_drop _ 10 0, getD_drop _ 10 1, hdrop]
    exact bigEndian_bytes 0x10 0xF0 rfl (by omega) (by omega)
  have hstreams : (t.bytes.take (sectionEnd t.bytes)).drop (12 + t.programInfo.length) =
      t.streams := by
    rw [show 12 + t.programInfo.length = 10 + (2 + t.programInfo.length) by omega, ← List.drop_drop,
      hentries, Pmt.entries, ← List.append_assoc, List.drop_left']
    exact List.length_append
  have hid : t.bytes.getD 0 0 = 0x02 := rfl
  have hlong : ¬ t.bytes.length < 16 := by omega
  simp only [TsState.parsePmt, hid, decide_eq_false hlong, hinfo, hstreams]
  rw [Pmt.streams, audioStream_streams t.others_kind t.audio_kind]
  rfl

end Tables

section Audio

/-- Payloads one after the other. -/
def pesAll (d : PesState) : List (Bool × List UInt8) → List UInt8 × PesState
  | [] => ([], d)
  | (pusi, payload) :: rest =>
    let r := d.audioPayload payload pusi
    (r.1 ++ (pesAll r.2 rest).1, (pesAll r.2 rest).2)

theorem pesAll_append (d : PesState) (xs ys : List (Bool × List UInt8)) :
    pesAll d (xs ++ ys) =
      ((pesAll d xs).1 ++ (pesAll (pesAll d xs).2 ys).1, (pesAll (pesAll d xs).2 ys).2) := by
  induction xs generalizing d with
  | nil => rfl
  | cons x xs ih =>
    simp only [List.cons_append, pesAll, ih, List.append_assoc]

/-- The header of a PES packet. -/
def Pes.head (q : Pes) : List UInt8 :=
  [0, 0, 1] ++ q.fixed ++ UInt8.ofNat q.header.length :: q.header

theorem Pes.flatten_head (q : Pes) : q.chunks.flatten = q.head ++ q.es := by
  rw [q.flatten, Pes.head]
  simp only [List.append_assoc, List.cons_append]

theorem Pes.head_length (q : Pes) : q.head.length = 9 + q.header.length := by
  have hfixed := q.fixed_length
  simp only [Pes.head, List.length_append, List.length_cons, List.length_nil, hfixed]
  omega

/-- As long as the header is not there it is collected, and then all behind it comes out. -/
theorem stripHeader_begin (q : Pes) {x rest : List UInt8} (inPes : Bool)
    (hx : x ++ rest = q.head ++ q.es) :
    PesState.stripHeader ⟨inPes, x⟩ =
      if x.length < q.head.length then ([], ⟨inPes, x⟩)
      else (x.drop q.head.length, ⟨true, []⟩) := by
  have hhead := q.head_length
  unfold PesState.stripHeader
  by_cases hshort : x.length < 9
  · rw [if_pos hshort, if_pos (by omega)]
  have hstart : x.take 3 = [0, 0, 1] := by
    rw [← List.take_append_of_le_length (show 3 ≤ x.length by omega), hx]
    rfl
  have hlen : (x.getD 8 0).toNat = q.header.length := by
    have hsplit : q.head ++ q.es =
        ([0, 0, 1] ++ q.fixed) ++ UInt8.ofNat q.header.length :: (q.header ++ q.es) := by
      simp only [Pes.head, List.append_assoc, List.cons_append]
    have hbehind : (x ++ rest).drop 8 = UInt8.ofNat q.header.length :: (q.header ++ q.es) := by
      rw [hx, hsplit, List.drop_left']
      rw [List.length_append, q.fixed_length]
      rfl
    have hget : x.getD 8 0 = (x ++ rest).getD 8 0 := by
      rw [List.getD_eq_getElem?_getD, List.getD_eq_getElem?_getD,
        List.getElem?_append_left (by omega)]
    rw [hget, getD_drop _ 8 0, hbehind]
    exact Nat.mod_eq_of_lt q.header_lt
  rw [if_neg hshort, hstart, if_neg (not_not.2 rfl)]
  simp only [hlen, hhead]

theorem pesAll_inPes (chunks : List (List UInt8)) :
    pesAll ⟨true, []⟩ (chunks.map fun c => (false, c)) = (chunks.flatten, ⟨true, []⟩) := by
  induction chunks with
  | nil => rfl
  | cons c chunks ih =>
    change (c ++ (pesAll ⟨true, []⟩ _).1, (pesAll ⟨true, []⟩ _).2) = _
    rw [ih, List.flatten_cons]

/-- What is left of a PES packet comes out but for the header, whatever it is split into. -/
theorem pesAll_rest (q : Pes) {x : List UInt8} (hne : x ≠ []) {chunks : List (List UInt8)}
    (hx : x ++ chunks.flatten = q.head ++ q.es) (inPes : Bool) :
    (PesState.stripHeader ⟨inPes, x⟩).1 ++ (pesAll (PesState.stripHeader ⟨inPes, x⟩).2
        (chunks.map fun c => (false, c))).1 = q.es ∧
      (pesAll (PesState.stripHeader ⟨inPes, x⟩).2 (chunks.map fun c => (false, c))).2 =
        ⟨true, []⟩ := by
  have hstripped : ∀ {chunks : List (List UInt8)} {x : List UInt8}, q.head.length ≤ x.length →
      x ++ chunks.flatten = q.head ++ q.es →
        x.drop q.head.length ++ chunks.flatten = q.es := by
    intro chunks x hlong hx
    rw [← List.drop_append_of_le_length hlong, hx, List.drop_left' rfl]
  induction chunks generalizing x with
  | nil =>
    have hlong : q.head.length ≤ x.length := by
      rw [← List.append_nil x, ← List.flatten_nil, hx, List.length_append]
      exact Nat.le_add_right _ _
    rw [stripHeader_begin q inPes hx, if_neg (Nat.not_lt.2 hlong)]
    exact ⟨hstripped hlong hx, rfl⟩
  | cons c chunks ih =>
    by_cases hshort : x.length < q.head.length
    · rw [stripHeader_begin q inPes hx, if_pos hshort]
      have hpayload : PesState.audioPayload ⟨inPes, x⟩ c false =
          PesState.stripHeader ⟨inPes, x ++ c⟩ := by
        rw [PesState.audioPayload, if_neg Bool.false_ne_true, if_pos hne]
      rw [List.map_cons, pesAll, hpayload, List.nil_append]
      refine ih (List.append_ne_nil_of_left_ne_nil hne c) ?_
      rw [List.append_assoc]
      exact hx
    · rw [stripHeader_begin q inPes hx, if_neg hshort, pesAll_inPes]
      exact ⟨hstripped (Nat.not_lt.1 hshort) hx, rfl⟩

theorem pesAll_payloads (d : PesState) (q : Pes) : pesAll d q.payloads = (q.es, ⟨true, []⟩) := by
  have hflatten := q.flatten_head
  unfold Pes.payloads
  cases hchunks : q.chunks with
  | nil =>
    rw [hchunks] at hflatten
    cases hflatten
  | cons c chunks =>
    have hne : c ≠ [] := by
      rintro rfl
      exact q.nonempty (by rw [hchunks]; exact List.mem_cons_self ..)
    rw [hchunks] at hflatten
    obtain ⟨hout, hstate⟩ := pesAll_rest q hne hflatten false
    exact Prod.ext hout hstate

/-- The audio of a run of PES packets. -/
theorem pesAll_pess (d : PesState) (pess : List Pes) :
    (pesAll d (pess.flatMap Pes.payloads)).1 = pess.flatMap (·.es) := by
  induction pess generalizing d with
  | nil => rfl
  | cons q pess ih =>
    rw [List.flatMap_cons, List.flatMap_cons, pesAll_append, pesAll_payloads]
    exact congrArg (q.es ++ ·) (ih _)

end Audio

theorem payloads_full {pess : List Pes} {x : Bool × List UInt8}
    (hx : x ∈ pess.flatMap Pes.payloads) : x.2 ≠ [] := by
  obtain ⟨q, -, hx⟩ := List.mem_flatMap.1 hx
  have hne := q.nonempty
  unfold Pes.payloads at hx
  cases hchunks : q.chunks with
  | nil =>
    rw [hchunks] at hx
    cases hx
  | cons c chunks =>
    rw [hchunks] at hx hne
    rcases List.mem_cons.1 hx with rfl | hx
    · exact fun hc => hne (List.mem_cons.2 (.inl hc.symm))
    · obtain ⟨c', hc', rfl⟩ := List.mem_map.1 hx
      exact fun hc => hne (List.mem_cons.2 (.inr (hc ▸ hc')))

section Demux

variable {d : TsState}

theorem parsePat_cases (d : TsState) (table : List UInt8) :
    ∃ pmtPid, d.parsePat table = { d with pmtPid } := by
  unfold TsState.parsePat
  split
  · exact ⟨d.pmtPid, rfl⟩
  · split
    · exact ⟨_, rfl⟩
    · exact ⟨d.pmtPid, rfl⟩

/-- Once the audio is found, packets of any other kind are passed over. -/
theorem dispatch_other {pid audioPid : ℕ} (haudio : d.audioPid = some audioPid)
    (hpid : pid ≠ audioPid) (pusi : Bool) (payload : List UInt8) :
    ∃ pmtPid, d.dispatch pid pusi payload = ([], .ok { d with pmtPid }) := by
  have hne : ¬ some pid = d.audioPid := fun h => hpid (Option.some.inj (h.trans haudio))
  have hknown : ¬ (some pid = d.pmtPid ∧ d.audioPid.isNone) := fun h => by
    rw [haudio] at h
    exact Bool.false_ne_true h.2
  by_cases hzero : pid = 0
  · obtain ⟨pmtPid, hpat⟩ := parsePat_cases d (psiSection payload pusi)
    exact ⟨pmtPid, by rw [TsState.dispatch, if_pos hzero, hpat]⟩
  · exact ⟨d.pmtPid, by rw [TsState.dispatch, if_neg hzero, if_neg hknown, if_neg hne]⟩

theorem dispatch_audio {audioPid : ℕ} (haudio : d.audioPid = some audioPid) (hne : audioPid ≠ 0)
    (pusi : Bool) (payload : List UInt8) :
    d.dispatch audioPid pusi payload = ((d.audioPayload payload pusi).1,
      .ok { d with toPesState := (d.audioPayload payload pusi).2 }) := by
  have hknown : ¬ (some audioPid = d.pmtPid ∧ d.audioPid.isNone) := fun h => by
    rw [haudio] at h
    exact Bool.false_ne_true h.2
  rw [TsState.dispatch, if_neg hne, if_neg hknown, if_pos haudio.symm]

/-- The packets of a stream whose audio is known. -/
theorem handleAll_audio {audioPid : ℕ} (haudio : d.audioPid = some audioPid) (hne : audioPid ≠ 0)
    {ps : List TsPacket} (hfull : ∀ x ∈ payloadsOf audioPid ps, x.2 ≠ []) :
    ∃ pmtPid, handleAll TsState.packet d (ps.map TsPacket.bytes) =
      ((pesAll d.toPesState (payloadsOf audioPid ps)).1,
        .ok { d with toPesState := (pesAll d.toPesState (payloadsOf audioPid ps)).2, pmtPid }) := by
  induction ps generalizing d with
  | nil => exact ⟨d.pmtPid, rfl⟩
  | cons p ps ih =>
    rw [List.map_cons, handleAll, packet_bytes]
    by_cases hpid : p.pid = audioPid
    · have hpayloads : payloadsOf audioPid (p :: ps) =
          (p.pusi, p.payload) :: payloadsOf audioPid ps := by
        rw [payloadsOf, List.filter_cons_of_pos (by simpa using hpid)]
        rfl
      rw [hpayloads] at hfull ⊢
      have hfirst : p.payload ≠ [] := hfull _ (List.mem_cons_self ..)
      rw [if_neg hfirst, hpid, dispatch_audio haudio hne]
      obtain ⟨pmtPid, hrest⟩ := @ih { d with toPesState := (d.audioPayload p.payload p.pusi).2 }
        haudio fun x hx => hfull x (List.mem_cons_of_mem _ hx)
      refine ⟨pmtPid, ?_⟩
      simp only [andThen, hrest, pesAll]
    · have hpayloads : payloadsOf audioPid (p :: ps) = payloadsOf audioPid ps := by
        rw [payloadsOf, List.filter_cons_of_neg (by simpa using hpid)]
        rfl
      rw [hpayloads] at hfull ⊢
      have hskip : ∃ pmtPid, (if p.payload = [] then ([], .ok d)
          else d.dispatch p.pid p.pusi p.payload) =
            (([], .ok { d with pmtPid }) : List UInt8 × Except String TsState) := by
        split
        · exact ⟨d.pmtPid, rfl⟩
        · exact dispatch_other haudio hpid _ _
      obtain ⟨pmtPid, hskip⟩ := hskip
      rw [hskip, andThen_ok]
      exact @ih { d with pmtPid } haudio hfull

/-- Packets that are not looked at. -/
theorem handleAll_quiet {ps : List TsPacket}
    (h : ∀ p ∈ ps, d.dispatch p.pid p.pusi p.payload = ([], .ok d)) :
    handleAll TsState.packet d (ps.map TsPacket.bytes) = ([], .ok d) := by
  induction ps with
  | nil => rfl
  | cons p ps ih =>
    have hfirst : d.packet p.bytes = ([], .ok d) := by
      rw [packet_bytes, h p (List.mem_cons_self ..), ite_self]
    rw [List.map_cons, handleAll, hfirst, andThen_ok]
    exact ih fun q hq => h q (List.mem_cons_of_mem _ hq)

/-- Before the PMT all but the tables are passed over. -/
theorem dispatch_early {pid : ℕ} (haudio : d.audioPid = none) (hne : pid ≠ 0)
    (hpmt : some pid ≠ d.pmtPid) (pusi : Bool) (payload : List UInt8) :
    d.dispatch pid pusi payload = ([], .ok d) := by
  have hnone : ¬ some pid = d.audioPid := fun h => (Option.some_ne_none _ (h.trans haudio))
  rw [TsState.dispatch, if_neg hne, if_neg (fun h => hpmt h.1), if_neg hnone]

theorem TransportStream.handleAll_all (s : TransportStream) :
    ∃ d : TsState, handleAll TsState.packet TsDemuxer.new.toTsState (s.all.map TsPacket.bytes) =
      (s.es, .ok d) ∧ d.audioPid = some s.pmt.audio.pid ∧ d.kind = some s.pmt.kind := by
  have hpat : s.pat.bytes.length < 0x1000 := Nat.lt_trans s.pat_le (by decide)
  have hpmt : s.pmt.bytes.length < 0x1000 := Nat.lt_trans s.pmt_le (by decide)
  have hbefore : handleAll TsState.packet TsDemuxer.new.toTsState (s.before.map TsPacket.bytes) =
      ([], .ok TsDemuxer.new.toTsState) :=
    handleAll_quiet fun p hp =>
      dispatch_early rfl (s.before_pid p hp) (fun h => Option.some_ne_none _ h) _ _
  let d₁ : TsState := { TsDemuxer.new.toTsState with pmtPid := some s.pat.pmtPid }
  have hfirst : TsDemuxer.new.toTsState.packet s.patPacket.bytes = ([], .ok d₁) := by
    have hne : s.patPacket.payload ≠ [] := List.cons_ne_nil _ _
    rw [packet_bytes, if_neg hne]
    exact congrArg (fun d => ([], Except.ok d)) (parsePat_bytes _ s.pat hpat)
  have hbetween : handleAll TsState.packet d₁ (s.between.map TsPacket.bytes) = ([], .ok d₁) :=
    handleAll_quiet fun p hp =>
      dispatch_early rfl (s.between_pid p hp).1
        (fun h => (s.between_pid p hp).2 (Option.some.inj h)) _ _
  let d₂ : TsState := { d₁ with audioPid := some s.pmt.audio.pid, kind := some s.pmt.kind }
  have hsecond : d₁.packet s.pmtPacket.bytes = ([], .ok d₂) := by
    have hne : s.pmtPacket.payload ≠ [] := List.cons_ne_nil _ _
    have hpid : ¬ s.pmtPacket.pid = 0 := s.pat.pmtPid_ne
    have hknown : some s.pmtPacket.pid = d₁.pmtPid ∧ d₁.audioPid.isNone = true := ⟨rfl, rfl⟩
    rw [packet_bytes, if_neg hne, TsState.dispatch, if_neg hpid, if_pos hknown]
    exact congrArg (fun r => ([], r)) (parsePmt_bytes d₁ s.pmt hpmt)
  obtain ⟨pmtPid, haudio⟩ := @handleAll_audio d₂ s.pmt.audio.pid rfl s.pmt.audio_ne s.packets
    fun x hx => payloads_full (s.carries ▸ hx)
  refine ⟨{ d₂ with
    toPesState := (pesAll d₂.toPesState (payloadsOf s.pmt.audio.pid s.packets)).2
    pmtPid }, ?_, rfl, rfl⟩
  rw [TransportStream.all, List.map_append, handleAll_append, hbefore, andThen_ok, List.map_cons,
    handleAll, hfirst, andThen_ok, List.map_append, handleAll_append, hbetween, andThen_ok,
    List.map_cons, handleAll, hsecond, andThen_ok, haudio, s.carries, pesAll_pess]
  rfl

end Demux

/-- A stream with one packet of MP3 audio. -/
def shortStream : TransportStream where
  pat :=
    { fixed := [0, 1, 0xC1, 0, 0], networks := [(0xE0, 0x10)], program := (0, 1), pmtPid := 0x20
      more := [], crc := [0, 0, 0, 0], stuffing := [0xFF], fixed_length := rfl
      program_ne := by decide, pmtPid_lt := by decide, pmtPid_ne := by decide, crc_length := rfl }
  pmt :=
    { fixed := [0, 1, 0xC1, 0, 0, 0xE1, 0], programInfo := []
      others := [⟨0x1B, 0x100, [], by decide, by decide⟩]
      audio := ⟨0x03, 0x44, [], by decide, by decide⟩, kind := .mpeg, more := []
      crc := [0, 0, 0, 0], stuffing := [], fixed_length := rfl
      others_kind := by decide, audio_kind := rfl, audio_ne := by decide, crc_length := rfl }
  before := []
  between := []
  packets :=
    [⟨0x44, true, [0, 0, 1, 0xC0, 0, 0, 0x80, 0], by decide, by decide⟩,
      ⟨0x44, false, [1, 0x21, 0x5A, 0x5B], by decide, by decide⟩]
  pess :=
    [{ fixed := [0xC0, 0, 0, 0x80, 0], header := [0x21], es := [0x5A, 0x5B]
       chunks := [[0, 0, 1, 0xC0, 0, 0, 0x80, 0], [1, 0x21, 0x5A, 0x5B]]
       fixed_length := rfl, header_lt := by decide, nonempty := by decide, flatten := rfl }]
  pat_le := by decide
  pmt_le := by decide
  before_pid := fun _ hp => (List.not_mem_nil hp).elim
  between_pid := fun _ hp => (List.not_mem_nil hp).elim
  carries := by decide

end Atradio.Native
