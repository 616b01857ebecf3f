import Atradio.Proxy.Chunked

/-! # Malformed chunked coding

Where a stream first deviates from the coding, and whether `ChunkedDecoder` stops there. -/

namespace Atradio.Proxy
open Atradio.Lib

structure BadLine where
  text : List UInt8
  line : cut crlf (text ++ crlf) = some (text, [])
  bad : ∀ n (l : SizeLine n), l.bytes ≠ text

/-- The data of a chunk with something else than CRLF behind it. -/
structure BadEnd where
  chunk : Chunk
  wrong : List UInt8
  differs : (∃ b, b ≠ 13 ∧ wrong = [b]) ∨ ∃ b, b ≠ 10 ∧ wrong = [13, b]

inductive Deviation where
  | badLine (b : BadLine)
  | badEnd (e : BadEnd)

def Deviation.bytes : Deviation → List UInt8
  | .badLine b => b.text ++ crlf
  | .badEnd e => e.chunk.line.bytes ++ crlf ++ (e.chunk.data ++ e.wrong)

def Deviation.data : Deviation → List UInt8
  | .badLine _ => []
  | .badEnd e => e.chunk.data

/-- The first deviation of a stream; whole chunks are all there is before it. -/
structure Deviates (stream : List UInt8) where
  chunks : List Chunk
  deviation : Deviation
  rest : List UInt8
  split : stream = chunks.flatMap Chunk.bytes ++ (deviation.bytes ++ rest)

section Deviates

variable {stream : List UInt8} (d : Deviates stream)

def Deviates.head : List UInt8 := d.chunks.flatMap Chunk.bytes ++ d.deviation.bytes

def Deviates.payload : List UInt8 := Proxy.payload d.chunks ++ d.deviation.data

/-- Nothing behind the deviation comes out, and the decoder is done when it has got this far. -/
structure Stops (pieces : List (List UInt8)) : Prop where
  output : (readAll ChunkedDecoder.push .new pieces).1 <+: d.payload
  done : ∀ ps, ps <+: pieces → d.head.length ≤ ps.flatten.length →
    (readAll ChunkedDecoder.push .new ps).2.done = true

def Deviates.Refused : Prop :=
  ∃ b, d.deviation = .badLine b ∧ ∀ size, chunkSize b.text = some size → size ≤ 0

end Deviates

/-! ### The decoder at a deviation -/

def atSize (buf : List UInt8) : ChunkedDecoder := ⟨buf, .size, 0, false⟩

theorem readAll_push (pieces : List (List UInt8)) :
    readAll ChunkedDecoder.push .new pieces = (atSize pieces.flatten).loop :=
  push_seamless.readAll_flatten new_waits pieces

theorem loop_chunks (chunks : List Chunk) (t : List UInt8) :
    (atSize (chunks.flatMap Chunk.bytes ++ t)).loop =
      (payload chunks ++ (atSize t).loop.1, (atSize t).loop.2) := by
  induction chunks with
  | nil => rfl
  | cons c chunks ih =>
    rw [List.flatMap_cons, List.append_assoc, atSize, loop_chunk, ← atSize, ih, payload, payload,
      List.flatMap_cons, List.append_assoc]

theorem cut_line (b : BadLine) (t : List UInt8) :
    cut crlf (b.text ++ crlf ++ t) = some (b.text, t) := cut_append b.line t

theorem loop_refused {b : BadLine} (h : ∀ size, chunkSize b.text = some size → size ≤ 0)
    (t : List UInt8) : (atSize (b.text ++ crlf ++ t)).loop = ([], ⟨t, .size, 0, true⟩) := by
  have hround : (atSize (b.text ++ crlf ++ t)).round = some ([], ⟨t, .size, 0, true⟩) := by
    simp only [ChunkedDecoder.round, atSize, Bool.false_eq_true, if_false, cut_line]
    cases hsize : chunkSize b.text with
    | none => rfl
    | some size => simp only [if_pos (h size hsize)]
  rw [loop_some hround, loop_none rfl]
  rfl

theorem loop_accepted {b : BadLine} {size : ℤ} (h : chunkSize b.text = some size)
    (hpos : 0 < size) :
    (atSize (b.text ++ crlf)).loop.2.done = false := by
  have hround : (atSize (b.text ++ crlf)).round = some ([], ⟨[], .data, size.toNat, false⟩) := by
    rw [← List.append_nil (b.text ++ crlf)]
    simp only [ChunkedDecoder.round, atSize, Bool.false_eq_true, if_false, cut_line, h,
      if_neg (Int.not_le.2 hpos)]
  rw [loop_some hround, loop_none rfl]

/-- The two bytes behind the data are skipped, whatever they are. -/
theorem loop_badEnd (e : BadEnd) : (atSize (Deviation.badEnd e).bytes).loop.2.done = false := by
  rw [atSize, Deviation.bytes, loop_data]
  rcases e.differs with ⟨b, -, hwrong⟩ | ⟨b, -, hwrong⟩
  · rw [hwrong, loop_none rfl]
  · have hround : ChunkedDecoder.round ⟨[13, b], .crlf, 0, false⟩ =
        some ([], ⟨[], .size, 0, false⟩) := rfl
    rw [hwrong, loop_some hround, loop_none rfl]

/-! ### The streams at whose deviation it stops -/

section Stopping

variable {stream : List UInt8} (d : Deviates stream)

theorem head_append : stream = d.head ++ d.rest := by
  rw [Deviates.head, List.append_assoc]
  exact d.split

/-- What the decoder has made of the stream up to the deviation and some of the rest. -/
theorem loop_head (t : List UInt8) :
    (atSize (d.head ++ t)).loop =
      (payload d.chunks ++ (atSize (d.deviation.bytes ++ t)).loop.1,
        (atSize (d.deviation.bytes ++ t)).loop.2) := by
  rw [Deviates.head, List.append_assoc, loop_chunks]

theorem refused_of_stops (h : ∀ pieces, pieces.flatten = stream → Stops d pieces) : d.Refused := by
  have hdone : (atSize d.deviation.bytes).loop.2.done = true := by
    have hstops := h [d.head, d.rest] (by simpa using (head_append d).symm)
    have harrived := hstops.done [d.head] ⟨[d.rest], rfl⟩ (by simp)
    have hhead := loop_head d []
    rw [List.append_nil, List.append_nil] at hhead
    rw [readAll_push, List.flatten_singleton, hhead] at harrived
    exact harrived
  cases hdeviation : d.deviation with
  | badLine b =>
    refine ⟨b, hdeviation, fun size hsize => ?_⟩
    by_contra hpos
    rw [hdeviation, Deviation.bytes, loop_accepted hsize (Int.not_le.1 hpos)] at hdone
    cases hdone
  | badEnd e =>
    rw [hdeviation, loop_badEnd] at hdone
    cases hdone

theorem stops_of_refused (h : d.Refused) {pieces : List (List UInt8)}
    (hpieces : pieces.flatten = stream) : Stops d pieces := by
  obtain ⟨b, hb, hrefused⟩ := h
  have hloop : ∀ t, (atSize (d.head ++ t)).loop = (payload d.chunks, ⟨t, .size, 0, true⟩) := by
    intro t
    rw [loop_head, hb, Deviation.bytes, loop_refused hrefused, List.append_nil]
  constructor
  · have hstream := hloop d.rest
    rw [← head_append d] at hstream
    rw [readAll_push, hpieces, hstream, Deviates.payload]
    exact List.prefix_append _ _
  · rintro ps ⟨qs, rfl⟩ hlen
    rw [List.flatten_append] at hpieces
    obtain ⟨t, ht⟩ : d.head <+: ps.flatten :=
      List.prefix_of_prefix_length_le ⟨d.rest, (head_append d).symm⟩ ⟨qs.flatten, hpieces⟩ hlen
    rw [readAll_push, ← ht, hloop]

end Stopping

theorem malformed_stops_iff (stream : List UInt8) :
    (∀ pieces, pieces.flatten = stream → ∀ d : Deviates stream, Stops d pieces) ↔
      ∀ d : Deviates stream, d.Refused := by
  constructor
  · exact fun h d => refused_of_stops d fun pieces hpieces => h pieces hpieces d
  · exact fun h pieces hpieces d => stops_of_refused d (h d) hpieces

def abc : Chunk where
  data := [97, 98, 99]
  line := ⟨[51], [], by decide, by decide, by decide, isExtension_nil⟩
  nonempty := by decide
  safe := by decide

def de : Chunk where
  data := [100, 101]
  line := ⟨[50], [], by decide, by decide, by decide, isExtension_nil⟩
  nonempty := by decide
  safe := by decide

/-- Two other bytes stand behind `abc` where CRLF should, and `de` comes out all the same. -/
theorem garbled_goes_on :
    ∃ d : Deviates [51, 13, 10, 97, 98, 99, 88, 88, 50, 13, 10, 100, 101, 13, 10],
      ¬ Stops d [[51, 13, 10, 97, 98, 99, 88, 88, 50, 13, 10, 100, 101, 13, 10]] := by
  refine ⟨⟨[], .badEnd ⟨abc, [88], Or.inl ⟨88, by decide, rfl⟩⟩,
    [88, 50, 13, 10, 100, 101, 13, 10], by decide⟩, fun h => ?_⟩
  have houtput := h.output
  have hskip : ChunkedDecoder.round ⟨[88, 88] ++ (de.bytes ++ []), .crlf, 0, false⟩ =
      some ([], ⟨de.bytes ++ [], .size, 0, false⟩) := rfl
  have hgarbled : (atSize (abc.line.bytes ++ crlf ++
      (abc.data ++ ([88, 88] ++ (de.bytes ++ []))))).loop.1 = [97, 98, 99, 100, 101] := by
    rw [atSize, loop_data, loop_some hskip, loop_chunk, loop_none rfl]
    rfl
  rw [readAll_push] at houtput
  change (atSize (abc.line.bytes ++ crlf ++
    (abc.data ++ ([88, 88] ++ (de.bytes ++ []))))).loop.1 <+: _ at houtput
  rw [hgarbled] at houtput
  exact absurd houtput (by decide)

end Atradio.Proxy
