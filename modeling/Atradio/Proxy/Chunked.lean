import Mathlib.Algebra.Group.Nat.Defs
import Mathlib.Data.List.TakeWhile
import Atradio.Lib.Reads
import Atradio.Lexicons.Stations

/-! # Chunked transfer coding (`upstream.ts`)

`ChunkedDecoder` takes what a socket has read and gives back the payload in it. Numbers are exact
here: a double is up to `2 ^ 53`, and no stream has more bytes. -/

namespace Atradio.Proxy
open Atradio.Lib Atradio.Lexicons

def latin1 (bytes : List UInt8) : List Char := bytes.map fun b => Char.ofNat b.toNat

def crlf : List UInt8 := [13, 10]

def hexDigit (c : Char) : Option ℕ :=
  if '0' ≤ c ∧ c ≤ '9' then some (c.toNat - 48)
  else if 'a' ≤ c ∧ c ≤ 'f' then some (c.toNat - 87)
  else if 'A' ≤ c ∧ c ≤ 'F' then some (c.toNat - 55)
  else none

def hexValue (digits : List Char) : ℕ :=
  digits.foldl (fun n c => 16 * n + (hexDigit c).getD 0) 0

/-- The sign of a numeral, and what follows it. -/
def sign : List Char → ℤ × List Char
  | '-' :: s => (-1, s)
  | '+' :: s => (1, s)
  | s => (1, s)

def dropHexMark : List Char → List Char
  | '0' :: 'x' :: s => s
  | '0' :: 'X' :: s => s
  | s => s

/-- `2 ^ 1024 - 2 ^ 970`, from where on numbers round to infinity. -/
def numberLimit : ℕ := (2 ^ 54 - 1) * (2 ^ 202 * (2 ^ 256) ^ 3)

/-- `Number.parseInt(s, 16)`, none where the result is not finite. -/
def parseHex (s : List Char) : Option ℤ :=
  let (factor, s) := sign (s.dropWhile (· ∈ whitespace))
  let digits := (dropHexMark s).takeWhile fun c => (hexDigit c).isSome
  if digits = [] then none
  else if hexValue digits < numberLimit then some (factor * hexValue digits)
  else none

/-- The size in a size line; what is behind a semicolon is an extension. -/
def chunkSize (line : List UInt8) : Option ℤ :=
  parseHex (trim (String.ofList ((latin1 line).takeWhile (· ≠ ';')))).toList

inductive FrameState where
  | size
  | data
  | crlf
deriving DecidableEq

structure ChunkedDecoder where
  buf : List UInt8
  state : FrameState
  remaining : ℕ
  done : Bool
deriving DecidableEq

def ChunkedDecoder.new : ChunkedDecoder := ⟨[], .size, 0, false⟩

/-- One round of the loop, with the payload it gives out; none where it breaks off to wait. -/
def ChunkedDecoder.round (d : ChunkedDecoder) : Option (List UInt8 × ChunkedDecoder) :=
  if d.done then none
  else match d.state with
    | .size =>
      match cut Proxy.crlf d.buf with
      | none => none
      | some (line, buf) =>
        match chunkSize line with
        | none => some ([], { d with buf, done := true })
        | some size =>
          if size ≤ 0 then some ([], { d with buf, done := true })
          else some ([], { d with buf, remaining := size.toNat, state := .data })
    | .data =>
      if d.buf = [] then none
      else
        let take := min d.remaining d.buf.length
        some (d.buf.take take, { d with
          buf := d.buf.drop take
          remaining := d.remaining - take
          state := if d.remaining - take = 0 then .crlf else .data })
    | .crlf =>
      if d.buf.length < 2 then none
      else some ([], { d with buf := d.buf.drop 2, state := .size })

def FrameState.rank : FrameState → ℕ
  | .data => 1
  | _ => 0

/-- Goes down in every round. -/
def ChunkedDecoder.measure (d : ChunkedDecoder) : ℕ := 2 * d.buf.length + d.state.rank

theorem measure_round {d d' : ChunkedDecoder} {out : List UInt8} (h : d.round = some (out, d')) :
    d'.measure < d.measure := by
  unfold ChunkedDecoder.round at h
  split at h
  · cases h
  · split at h
    · rename_i hstate
      split at h
      · cases h
      · rename_i line buf hcut
        have hlen : buf.length + 2 ≤ d.buf.length := by
          rw [cut_eq_some hcut]
          simp only [List.length_append, Proxy.crlf, List.length_cons, List.length_nil]
          omega
        split at h
        · cases h
          simp only [ChunkedDecoder.measure, hstate, FrameState.rank]
          omega
        · split at h
          · cases h
            simp only [ChunkedDecoder.measure, hstate, FrameState.rank]
            omega
          · cases h
            simp only [ChunkedDecoder.measure, hstate, FrameState.rank]
            omega
    · rename_i hstate
      split at h
      · cases h
      · rename_i hbuf
        have hpos : 0 < d.buf.length := List.length_pos_iff.2 hbuf
        dsimp only at h
        by_cases hall : d.remaining - min d.remaining d.buf.length = 0
        · rw [if_pos hall] at h
          cases h
          simp only [ChunkedDecoder.measure, hstate, List.length_drop, FrameState.rank]
          omega
        · rw [if_neg hall] at h
          cases h
          simp only [ChunkedDecoder.measure, hstate, List.length_drop, FrameState.rank]
          omega
    · rename_i hstate
      split at h
      · cases h
      · cases h
        simp only [ChunkedDecoder.measure, hstate, List.length_drop, FrameState.rank]
        omega

/-- The loop. -/
def ChunkedDecoder.loop (d : ChunkedDecoder) : List UInt8 × ChunkedDecoder :=
  match _h : d.round with
  | none => ([], d)
  | some (out, d') => (out ++ d'.loop.1, d'.loop.2)
termination_by d.measure
decreasing_by all_goals exact measure_round ‹_›

/-- With the payload that it gives out. -/
def ChunkedDecoder.push (d : ChunkedDecoder) (data : List UInt8) : List UInt8 × ChunkedDecoder :=
  ChunkedDecoder.loop { d with buf := d.buf ++ data }

/-- Nothing can be done before more arrives. -/
def ChunkedDecoder.Waits (d : ChunkedDecoder) : Prop := d.round = none

theorem loop_none {d : ChunkedDecoder} (h : d.round = none) : d.loop = ([], d) := by
  rw [ChunkedDecoder.loop]
  split
  · rfl
  · rename_i hsome
    rw [h] at hsome
    cases hsome

theorem loop_some {d d' : ChunkedDecoder} {out : List UInt8} (h : d.round = some (out, d')) :
    d.loop = (out ++ d'.loop.1, d'.loop.2) := by
  rw [ChunkedDecoder.loop]
  split
  · rename_i hnone
    rw [h] at hnone
    cases hnone
  · rename_i hsome
    rw [h] at hsome
    obtain ⟨rfl, rfl⟩ := Prod.mk.inj (Option.some.inj hsome)
    rfl

/-! ### More input -/

def ChunkedDecoder.feed (d : ChunkedDecoder) (data : List UInt8) : ChunkedDecoder :=
  { d with buf := d.buf ++ data }

@[simp] theorem feed_nil (d : ChunkedDecoder) : d.feed [] = d := by
  rw [ChunkedDecoder.feed, List.append_nil]

theorem feed_feed (d : ChunkedDecoder) (p q : List UInt8) :
    (d.feed p).feed q = d.feed (p ++ q) := by
  simp only [ChunkedDecoder.feed, List.append_assoc]

/-- Behind more input a round is the same, unless it was to take all there was. -/
theorem round_feed {d d' : ChunkedDecoder} {out : List UInt8} (h : d.round = some (out, d'))
    (data : List UInt8) :
    (d.feed data).round = some (out, d'.feed data) ∨
      d.done = false ∧ d.state = .data ∧ d.buf ≠ [] ∧ d.buf.length < d.remaining ∧ out = d.buf ∧
        d' = { d with buf := [], remaining := d.remaining - d.buf.length } := by
  unfold ChunkedDecoder.round at h
  split at h
  · cases h
  · rename_i hdone
    split at h
    · rename_i hstate
      split at h
      · cases h
      · rename_i line buf hcut
        left
        simp only [ChunkedDecoder.round, ChunkedDecoder.feed, if_neg hdone, hstate,
          cut_append hcut data]
        split at h
        · cases h
          simp only [hstate]
        · split at h
          · cases h
            rename_i hsize
            simp only [if_pos hsize, hstate]
          · cases h
            rename_i hsize
            simp only [if_neg hsize]
    · rename_i hstate
      split at h
      · cases h
      · rename_i hbuf
        have hmore : d.buf ++ data ≠ [] := List.append_ne_nil_of_left_ne_nil hbuf data
        rcases Nat.lt_or_ge d.buf.length d.remaining with hlt | hge
        · right
          have hmin : min d.remaining d.buf.length = d.buf.length := by omega
          cases h
          simp only [hmin, List.take_length, List.drop_length]
          have hrest : d.remaining - d.buf.length ≠ 0 := by omega
          rw [if_neg hrest]
          exact ⟨Bool.eq_false_iff.2 hdone, hstate, hbuf, hlt, trivial, by rw [← hstate]⟩
        · left
          have hmin : min d.remaining d.buf.length = d.remaining := by omega
          have hmin' : min d.remaining (d.buf ++ data).length = d.remaining := by
            rw [List.length_append]
            omega
          cases h
          simp only [ChunkedDecoder.round, ChunkedDecoder.feed, if_neg hdone, hstate, if_neg hmore,
            hmin, hmin', List.take_append_of_le_length hge, List.drop_append_of_le_length hge]
    · rename_i hstate
      split at h
      · cases h
      · rename_i hlen
        left
        have hlen' : ¬ (d.buf ++ data).length < 2 := by
          rw [List.length_append]
          omega
        cases h
        simp only [ChunkedDecoder.round, ChunkedDecoder.feed, if_neg hdone, hstate, if_neg hlen',
          List.drop_append_of_le_length (Nat.not_lt.1 hlen)]

theorem round_eq_data {d : ChunkedDecoder} (hdone : d.done = false) (hstate : d.state = .data)
    (hbuf : d.buf ≠ []) :
    d.round = some (d.buf.take (min d.remaining d.buf.length), { d with
      buf := d.buf.drop (min d.remaining d.buf.length)
      remaining := d.remaining - min d.remaining d.buf.length
      state := if d.remaining - min d.remaining d.buf.length = 0 then .crlf else .data }) := by
  simp only [ChunkedDecoder.round, hdone, Bool.false_eq_true, if_false, hstate, if_neg hbuf]

/-- Data of one chunk in two parts. -/
theorem round_two {d : ChunkedDecoder} (hdone : d.done = false) (hstate : d.state = .data)
    (hlt : d.buf.length < d.remaining) {data : List UInt8} (hdata : data ≠ []) :
    ∃ out d', (d.feed data).round = some (d.buf ++ out, d') ∧
      ChunkedDecoder.round { d with buf := data, remaining := d.remaining - d.buf.length } =
        some (out, d') := by
  have hmore : d.buf ++ data ≠ [] := List.append_ne_nil_of_right_ne_nil d.buf hdata
  have hmin : min d.remaining (d.buf ++ data).length =
      d.buf.length + min (d.remaining - d.buf.length) data.length := by
    rw [List.length_append]
    omega
  refine ⟨_, _, ?_, round_eq_data (d := { d with
    buf := data, remaining := d.remaining - d.buf.length }) hdone hstate hdata⟩
  rw [round_eq_data (d := d.feed data) hdone hstate hmore]
  simp only [ChunkedDecoder.feed, hmin, List.take_length_add_append, List.drop_length_add_append,
    Nat.sub_add_eq]

/-- The loop on more input is the loop on what there was, and then on the rest. -/
theorem loop_feed (d : ChunkedDecoder) (data : List UInt8) :
    (d.feed data).loop =
      (d.loop.1 ++ (d.loop.2.feed data).loop.1, (d.loop.2.feed data).loop.2) := by
  induction d using ChunkedDecoder.loop.induct with
  | case1 d hround =>
    rw [loop_none hround]
    rfl
  | case2 d out d' hround ih =>
    rw [loop_some hround]
    rcases round_feed hround data with hsame | ⟨hdone, hstate, hbuf, hlt, rfl, rfl⟩
    · rw [loop_some hsame, ih, List.append_assoc]
    · -- the round took the whole buffer, and the loop waits for more of the chunk
      have hwait : ChunkedDecoder.round
          { d with buf := [], remaining := d.remaining - d.buf.length } = none := by
        simp only [ChunkedDecoder.round, hdone, hstate, Bool.false_eq_true, if_false, if_true]
      rw [loop_none hwait, List.append_nil]
      by_cases hdata : data = []
      · subst hdata
        rw [feed_nil, loop_some hround]
        simp only [feed_nil, loop_none hwait, List.append_nil]
      · obtain ⟨out, d', htwo, hrest⟩ := round_two hdone hstate hlt hdata
        rw [loop_some htwo, ChunkedDecoder.feed, List.nil_append, loop_some hrest,
          List.append_assoc]

theorem loop_waits (d : ChunkedDecoder) : d.loop.2.Waits := by
  induction d using ChunkedDecoder.loop.induct with
  | case1 d hround =>
    rw [loop_none hround]
    exact hround
  | case2 d out d' hround ih =>
    rw [loop_some hround]
    exact ih

theorem new_waits : ChunkedDecoder.new.Waits := rfl

theorem push_seamless : Seamless ChunkedDecoder.push ChunkedDecoder.Waits where
  keeps := fun _ _ _ => loop_waits _
  empty := by
    intro d hd
    change (d.feed []).loop = _
    rw [feed_nil, loop_none hd]
  append := by
    intro d p q _
    change (d.feed (p ++ q)).loop = _
    rw [← feed_feed, loop_feed]
    rfl

/-! ### What a server sends -/

def isHexByte (b : UInt8) : Bool := (hexDigit (Char.ofNat b.toNat)).isSome

def isBlank (b : UInt8) : Bool := b = 32 || b = 9

/-- Blanks, and after a semicolon anything on the line. -/
def isExtension (ext : List UInt8) : Bool :=
  !ext.contains 10 && (ext.dropWhile isBlank).head?.all (· = 59)

theorem isExtension_nil : isExtension [] = true := rfl

/-- A size line that says `n`. -/
structure SizeLine (n : ℕ) where
  digits : List UInt8
  ext : List UInt8
  nonempty : digits ≠ []
  hex : digits.all isHexByte = true
  value : hexValue (latin1 digits) = n
  extension : isExtension ext = true

def SizeLine.bytes {n : ℕ} (l : SizeLine n) : List UInt8 := l.digits ++ l.ext

structure Chunk where
  data : List UInt8
  line : SizeLine data.length
  nonempty : data ≠ []
  safe : data.length < 2 ^ 53

structure LastChunk where
  line : SizeLine 0
  trailers : List UInt8

def Chunk.bytes (c : Chunk) : List UInt8 := c.line.bytes ++ crlf ++ (c.data ++ crlf)

def LastChunk.bytes (c : LastChunk) : List UInt8 := c.line.bytes ++ crlf ++ c.trailers

def encode (chunks : List Chunk) (last : LastChunk) : List UInt8 :=
  chunks.flatMap Chunk.bytes ++ last.bytes

def payload (chunks : List Chunk) : List UInt8 := chunks.flatMap Chunk.data

theorem cut_crlf {x : List UInt8} (hx : 10 ∉ x) (t : List UInt8) :
    cut crlf (x ++ crlf ++ t) = some (x, t) := by
  induction x with
  | nil => rfl
  | cons a x ih =>
    have htail := ih fun h => hx (List.mem_cons_of_mem _ h)
    have hno : ¬ crlf <+: a :: (x ++ crlf ++ t) := by
      intro h
      obtain ⟨rest, hrest⟩ := h
      have hten : (x ++ crlf ++ t).head? = some 10 := by
        rw [← (List.cons.inj hrest).2]
        rfl
      cases x with
      | nil => cases hten
      | cons b x =>
        refine hx (List.mem_cons_of_mem _ (List.mem_cons.2 (.inl ?_)))
        exact (Option.some.inj hten).symm
    rw [List.cons_append, List.cons_append, cut, if_neg hno, htail]
    rfl

theorem hexDigit_whitespace {c : Char} (h : (hexDigit c).isSome = true) : c ∉ whitespace := by
  intro hmem
  have hall : (whitespace.all fun c => (hexDigit c).isNone) = true := by decide
  have hnone := List.all_eq_true.1 hall c hmem
  rw [Option.isNone_iff_eq_none] at hnone
  rw [hnone] at h
  cases h

theorem sign_hex {c : Char} {s : List Char} (h : (hexDigit c).isSome = true) :
    sign (c :: s) = (1, c :: s) := by
  unfold sign
  split
  · rename_i heq
    rw [(List.cons.inj heq).1] at h
    exact absurd h (by decide)
  · rename_i heq
    rw [(List.cons.inj heq).1] at h
    exact absurd h (by decide)
  · rfl

theorem dropHexMark_hex {s : List Char} (h : ∀ c ∈ s, (hexDigit c).isSome = true) :
    dropHexMark s = s := by
  unfold dropHexMark
  split
  · exact absurd (h 'x' (by simp)) (by decide)
  · exact absurd (h 'X' (by simp)) (by decide)
  · rfl

theorem dropWhile_head {p : Char → Bool} {c : Char} {s : List Char} (h : p c = false) :
    (c :: s).dropWhile p = c :: s := by
  rw [List.dropWhile_cons, h]
  rfl

theorem parseHex_hex {c : Char} {s : List Char} (h : ∀ d ∈ c :: s, (hexDigit d).isSome = true)
    (hlt : hexValue (c :: s) < 2 ^ 53) : parseHex (c :: s) = some (hexValue (c :: s) : ℤ) := by
  have hc := h c (List.mem_cons_self ..)
  have hspace : decide (c ∈ whitespace) = false := decide_eq_false (hexDigit_whitespace hc)
  have hdigits : (c :: s).takeWhile (fun c => (hexDigit c).isSome) = c :: s :=
    List.takeWhile_eq_self_iff.2 h
  have hfinite : hexValue (c :: s) < numberLimit := Nat.lt_trans hlt (by decide)
  unfold parseHex
  rw [dropWhile_head hspace, sign_hex hc]
  simp only [dropHexMark_hex h, hdigits, if_pos hfinite, Int.one_mul]
  rw [if_neg (List.cons_ne_nil c s)]

theorem trim_blanks {c : Char} {s blanks : List Char}
    (h : ∀ d ∈ c :: s, (hexDigit d).isSome = true) (hblanks : ∀ d ∈ blanks, d ∈ whitespace) :
    (trim (String.ofList (c :: s ++ blanks))).toList = c :: s := by
  have hnot : ∀ d ∈ c :: s, decide (d ∈ whitespace) = false :=
    fun d hd => decide_eq_false (hexDigit_whitespace (h d hd))
  have hback : (blanks.reverse ++ (c :: s).reverse).dropWhile (· ∈ whitespace) =
      (c :: s).reverse := by
    rw [List.dropWhile_append_of_pos fun d hd => decide_eq_true (hblanks d (List.mem_reverse.1 hd))]
    cases hrev : (c :: s).reverse with
    | nil => rfl
    | cons d rest =>
      refine dropWhile_head (hnot d (List.mem_reverse.1 ?_))
      rw [hrev]
      exact List.mem_cons_self ..
  simp only [trim, String.toList_ofList]
  rw [List.cons_append, dropWhile_head (hnot c (List.mem_cons_self ..)), ← List.cons_append,
    List.reverse_append, hback, List.reverse_reverse]

theorem latin1_append (x y : List UInt8) : latin1 (x ++ y) = latin1 x ++ latin1 y :=
  List.map_append

/-- What stays of an extension before its semicolon is blank. -/
theorem takeWhile_extension {ext : List UInt8}
    (h : (ext.dropWhile isBlank).head?.all (· = 59) = true) :
    ∀ c ∈ (latin1 ext).takeWhile (· ≠ ';'), c ∈ whitespace := by
  induction ext with
  | nil => exact fun c hc => nomatch hc
  | cons b ext ih =>
    intro c hc
    rw [latin1, List.map_cons, List.takeWhile_cons] at hc
    cases hb : isBlank b with
    | true =>
      rw [List.dropWhile_cons, if_pos hb] at h
      have hblank : b = 32 ∨ b = 9 := by simpa [isBlank] using hb
      split at hc
      · rcases List.mem_cons.1 hc with rfl | hc
        · rcases hblank with rfl | rfl
          · decide
          · decide
        · exact ih h c hc
      · cases hc
    | false =>
      rw [List.dropWhile_cons, hb] at h
      have hsemicolon : b = 59 := of_decide_eq_true h
      subst hsemicolon
      cases hc

theorem hex_of_all {digits : List UInt8} (h : digits.all isHexByte = true) :
    ∀ c ∈ latin1 digits, (hexDigit c).isSome = true := by
  intro c hc
  obtain ⟨b, hb, rfl⟩ := List.mem_map.1 hc
  exact List.all_eq_true.1 h b hb

theorem chunkSize_line {n : ℕ} (l : SizeLine n) (hn : n < 2 ^ 53) :
    chunkSize l.bytes = some (n : ℤ) := by
  have hhex := hex_of_all l.hex
  have hplain : ∀ c ∈ latin1 l.digits, decide (c ≠ ';') = true := by
    intro c hc
    refine decide_eq_true ?_
    rintro rfl
    exact absurd (hhex ';' hc) (by decide)
  have hblanks := takeWhile_extension (Bool.and_eq_true_iff.1 l.extension).2
  have hvalue := l.value
  unfold chunkSize
  rw [SizeLine.bytes, latin1_append, List.takeWhile_append_of_pos hplain]
  cases hdigits : latin1 l.digits with
  | nil => exact absurd (List.map_eq_nil_iff.1 hdigits) l.nonempty
  | cons c s =>
    rw [hdigits] at hhex hvalue
    rw [trim_blanks hhex hblanks, parseHex_hex hhex (hvalue ▸ hn), hvalue]

theorem ten_notMem_line {n : ℕ} (l : SizeLine n) : 10 ∉ l.bytes := by
  intro hmem
  rcases List.mem_append.1 hmem with hmem | hmem
  · exact absurd (List.all_eq_true.1 l.hex 10 hmem) (by decide)
  · have hext := (Bool.and_eq_true_iff.1 l.extension).1
    rw [List.contains_iff_mem.2 hmem] at hext
    cases hext

/-! ### Chunk by chunk -/

/-- The data of a chunk, whatever is behind it. -/
theorem loop_data (c : Chunk) (tail : List UInt8) (remaining : ℕ) :
    ChunkedDecoder.loop ⟨c.line.bytes ++ crlf ++ (c.data ++ tail), .size, remaining, false⟩ =
      (c.data ++ (ChunkedDecoder.loop ⟨tail, .crlf, 0, false⟩).1,
        (ChunkedDecoder.loop ⟨tail, .crlf, 0, false⟩).2) := by
  have hpos : 0 < c.data.length := List.length_pos_iff.2 c.nonempty
  have hsize : ChunkedDecoder.round
      ⟨c.line.bytes ++ crlf ++ (c.data ++ tail), .size, remaining, false⟩ =
        some ([], ⟨c.data ++ tail, .data, c.data.length, false⟩) := by
    have hcut := cut_crlf (ten_notMem_line c.line) (c.data ++ tail)
    have hnot : ¬ (c.data.length : ℤ) ≤ 0 := by omega
    simp only [ChunkedDecoder.round, Bool.false_eq_true, if_false, hcut, chunkSize_line c.line c.safe,
      if_neg hnot, Int.toNat_natCast]
  have hdata : ChunkedDecoder.round ⟨c.data ++ tail, .data, c.data.length, false⟩ =
      some (c.data, ⟨tail, .crlf, 0, false⟩) := by
    rw [round_eq_data rfl rfl (List.append_ne_nil_of_left_ne_nil c.nonempty _)]
    have hmin : min c.data.length (c.data ++ tail).length = c.data.length := by
      rw [List.length_append]
      omega
    simp only [hmin, List.take_left, List.drop_left, Nat.sub_self, if_true]
  rw [loop_some hsize, loop_some hdata]
  rfl

theorem loop_chunk (c : Chunk) (rest : List UInt8) (remaining : ℕ) :
    ChunkedDecoder.loop ⟨c.bytes ++ rest, .size, remaining, false⟩ =
      (c.data ++ (ChunkedDecoder.loop ⟨rest, .size, 0, false⟩).1,
        (ChunkedDecoder.loop ⟨rest, .size, 0, false⟩).2) := by
  have hcrlf : ChunkedDecoder.round ⟨crlf ++ rest, .crlf, 0, false⟩ =
      some ([], ⟨rest, .size, 0, false⟩) := by
    have hlen : ¬ (crlf ++ rest).length < 2 := by
      rw [List.length_append]
      exact Nat.not_lt.2 (Nat.le_add_right 2 _)
    simp only [ChunkedDecoder.round, Bool.false_eq_true, if_false, if_neg hlen]
    rfl
  rw [Chunk.bytes, List.append_assoc, List.append_assoc c.data, loop_data, loop_some hcrlf]
  rfl

theorem loop_last (c : LastChunk) (remaining : ℕ) :
    ChunkedDecoder.loop ⟨c.bytes, .size, remaining, false⟩ =
      ([], ⟨c.trailers, .size, remaining, true⟩) := by
  have hsize : ChunkedDecoder.round ⟨c.bytes, .size, remaining, false⟩ =
      some ([], ⟨c.trailers, .size, remaining, true⟩) := by
    have hcut : cut crlf c.bytes = some (c.line.bytes, c.trailers) :=
      cut_crlf (ten_notMem_line c.line) _
    simp only [ChunkedDecoder.round, Bool.false_eq_true, if_false, hcut,
      chunkSize_line c.line (by decide)]
    rfl
  rw [loop_some hsize, loop_none rfl]
  rfl

/-- The payload comes out, and the decoder is done. -/
theorem loop_encode (chunks : List Chunk) (last : LastChunk) (remaining : ℕ) :
    (ChunkedDecoder.loop ⟨encode chunks last, .size, remaining, false⟩).1 = payload chunks ∧
      (ChunkedDecoder.loop ⟨encode chunks last, .size, remaining, false⟩).2.done = true := by
  induction chunks generalizing remaining with
  | nil =>
    have hencode : encode [] last = last.bytes := rfl
    rw [hencode, loop_last]
    exact ⟨rfl, rfl⟩
  | cons c chunks ih =>
    have hencode : encode (c :: chunks) last = c.bytes ++ encode chunks last := by
      rw [encode, encode, List.flatMap_cons, List.append_assoc]
    rw [hencode, loop_chunk]
    obtain ⟨hout, hdone⟩ := ih 0
    refine ⟨?_, hdone⟩
    rw [payload, List.flatMap_cons]
    exact congrArg (c.data ++ ·) hout

end Atradio.Proxy
