import Atradio.Proxy.Upstream

/-! # From the socket to the client (`upstream.ts`)

`open` reads up to the head of the response, and `streamBody` hands on what follows it, without
the chunked framing if there is one. -/

namespace Atradio.Proxy
open Atradio.Lib

variable (urls : Urls) (url : String)

/-- How far a socket's stream has come. -/
inductive Flow where
  | opening (buf : List UInt8)
  /-- `open` has rejected, waits for nothing, follows a redirect, or has found no body. -/
  | tooLarge
  | badStatusLine
  | redirected (next : String)
  | bodiless
  | plain
  | chunked (decoder : ChunkedDecoder)
deriving DecidableEq

/-- What `streamBody` emits of a read. -/
def Flow.emit (flow : Flow) (raw : List UInt8) : List UInt8 × Flow :=
  match flow with
  | .plain => (raw, .plain)
  | .chunked decoder => ((decoder.push raw).1, .chunked (decoder.push raw).2)
  | flow => ([], flow)

def Answer.flow : Answer → Flow
  | .badStatusLine => .badStatusLine
  | .redirect next => .redirected next
  | .response _ _ true _ => .bodiless
  | .response _ _ false true => .chunked .new
  | .response _ _ false false => .plain

/-- A read of the socket, with the bytes that go to the client. -/
def Flow.push (flow : Flow) (read : List UInt8) : List UInt8 × Flow :=
  match flow with
  | .opening buf =>
    match receive buf read with
    | .more buf => ([], .opening buf)
    | .tooLarge => ([], .tooLarge)
    | .head text leftover =>
      let flow := (answer urls url text).flow
      if leftover = [] then ([], flow) else flow.emit leftover
  | flow => flow.emit read

/-- The body is over before the socket ends. -/
def Flow.finished : Flow → Bool
  | .chunked decoder => decoder.done
  | _ => false

def Flow.start : Flow := .opening []

/-- Behind the head, in a state that a read has left. -/
def Flow.Settled : Flow → Prop
  | .opening _ => False
  | .chunked decoder => decoder.Waits
  | _ => True

variable {urls url}

theorem emit_settled {flow : Flow} (h : flow.Settled) (raw : List UInt8) :
    (flow.emit raw).2.Settled := by
  cases flow with
  | chunked decoder => exact push_seamless.keeps decoder raw h
  | _ => exact h

theorem emit_empty {flow : Flow} (h : flow.Settled) : flow.emit [] = ([], flow) := by
  cases flow with
  | chunked decoder => simp only [Flow.emit, push_seamless.empty decoder h]
  | _ => rfl

theorem emit_append {flow : Flow} (h : flow.Settled) (p q : List UInt8) :
    flow.emit (p ++ q) = ((flow.emit p).1 ++ ((flow.emit p).2.emit q).1,
      ((flow.emit p).2.emit q).2) := by
  cases flow with
  | chunked decoder => simp only [Flow.emit, push_seamless.append decoder p q h]
  | _ => rfl

theorem push_eq_emit {flow : Flow} (h : flow.Settled) (read : List UInt8) :
    flow.push urls url read = flow.emit read := by
  cases flow with
  | opening buf => exact h.elim
  | _ => rfl

theorem emit_seamless : Seamless (Flow.push urls url) Flow.Settled where
  keeps := by
    intro flow p h
    rw [push_eq_emit h]
    exact emit_settled h p
  empty := by
    intro flow h
    rw [push_eq_emit h, emit_empty h]
  append := by
    intro flow p q h
    rw [push_eq_emit h, push_eq_emit h, push_eq_emit (emit_settled h p), emit_append h]

theorem flow_settled (a : Answer) : a.flow.Settled := by
  cases a with
  | badStatusLine => trivial
  | redirect next => trivial
  | response status headers fin chunked =>
    cases fin with
    | true => trivial
    | false =>
      cases chunked with
      | true => exact new_waits
      | false => trivial

theorem push_head {buf read text leftover : List UInt8}
    (h : receive buf read = .head text leftover) :
    (Flow.opening buf).push urls url read = (answer urls url text).flow.emit leftover := by
  simp only [Flow.push, h]
  split
  · rename_i hempty
    rw [hempty, emit_empty (flow_settled _)]
  · rfl

/-! ### Any split of the stream -/

section Splits

variable {head text body : List UInt8}

/-- Before the end of the head there is nothing but waiting. -/
theorem receive_more (hhead : cut blankLine head = some (text, [])) (hlen : head.length < 64 * 1024)
    {buf read : List UInt8} (hstream : buf ++ read <+: head ++ body)
    (hcut : cut blankLine (buf ++ read) = none) : receive buf read = .more (buf ++ read) := by
  have hshort := cut_prefix_length hhead hcut hstream
  have hnot : ¬ 64 * 1024 < (buf ++ read).length := by omega
  simp only [receive, hcut, if_neg hnot]

theorem receive_head {buf read leftover : List UInt8}
    (hcut : cut blankLine (buf ++ read) = some (text, leftover)) (rest : List UInt8) :
    receive buf (read ++ rest) = .head text (leftover ++ rest) := by
  have hlong := cut_append hcut rest
  rw [List.append_assoc] at hlong
  simp only [receive, hlong]

theorem readAll_opening (hhead : cut blankLine head = some (text, []))
    (hlen : head.length < 64 * 1024) (reads : List (List UInt8)) :
    ∀ buf, cut blankLine buf = none → buf ++ reads.flatten <+: head ++ body →
      readAll (Flow.push urls url) (.opening buf) reads =
        (Flow.opening buf).push urls url reads.flatten := by
  induction reads with
  | nil =>
    intro buf hcut hstream
    have hmore : receive buf [] = .more (buf ++ []) :=
      receive_more hhead hlen hstream (by rwa [List.append_nil])
    simp only [List.flatten_nil, readAll, Flow.push, hmore, List.append_nil]
  | cons read reads ih =>
    intro buf hcut hstream
    rw [List.flatten_cons, ← List.append_assoc] at hstream
    cases hread : cut blankLine (buf ++ read) with
    | none =>
      have hmore := receive_more hhead hlen
        ((List.prefix_append _ reads.flatten).trans hstream) hread
      have hpush : (Flow.opening buf).push urls url read = ([], .opening (buf ++ read)) := by
        simp only [Flow.push, hmore]
      have hsame : (Flow.opening (buf ++ read)).push urls url reads.flatten =
          (Flow.opening buf).push urls url (read ++ reads.flatten) := by
        simp only [Flow.push, receive, List.append_assoc]
      rw [readAll, hpush, ih (buf ++ read) hread hstream, List.flatten_cons, hsame]
      rfl
    | some p =>
      obtain ⟨text', leftover⟩ := p
      have hone : (Flow.opening buf).push urls url (read ++ []) = _ :=
        push_head ((receive_head hread []).trans (congrArg _ (List.append_nil leftover)))
      rw [List.append_nil] at hone
      have hall : (Flow.opening buf).push urls url (read ++ reads.flatten) = _ :=
        push_head (receive_head hread reads.flatten)
      have hsettled := flow_settled (answer urls url text')
      rw [readAll, hone, emit_seamless.readAll_flatten (emit_settled hsettled leftover),
        push_eq_emit (emit_settled hsettled leftover), List.flatten_cons, hall,
        emit_append hsettled]

end Splits

/-- Of a stream whose head is short enough, what has gone to the client after some reads, and
whether the body is over, is the same as if their bytes had come at once. A chunked body gives its
payload and is over. -/
theorem passThrough_of_splits (urls : Urls) (url : String) (head text body : List UInt8)
    (reads : List (List UInt8)) (hhead : cut blankLine head = some (text, []))
    (hlen : head.length < 64 * 1024) (hreads : reads.flatten = head ++ body) :
    (∀ k, readAll (Flow.push urls url) .start (reads.take k) =
      Flow.start.push urls url (reads.take k).flatten) ∧
    ∀ chunks last, body = encode chunks last → (answer urls url text).flow = .chunked .new →
      (readAll (Flow.push urls url) .start reads).1 = payload chunks ∧
        (readAll (Flow.push urls url) .start reads).2.finished = true := by
  have hsplits : ∀ reads' : List (List UInt8), reads'.flatten <+: head ++ body →
      readAll (Flow.push urls url) .start reads' =
        Flow.start.push urls url reads'.flatten := by
    intro reads' hstream
    exact readAll_opening hhead hlen reads' [] rfl hstream
  refine ⟨fun k => hsplits _ ?_, fun chunks last hbody hflow => ?_⟩
  · rw [← hreads]
    refine ⟨(reads.drop k).flatten, ?_⟩
    rw [← List.flatten_append, List.take_append_drop]
  · have hreceive : receive [] (head ++ body) = .head text body :=
      receive_head (List.nil_append head ▸ hhead) body
    obtain ⟨hout, hdone⟩ := loop_encode chunks last 0
    have hpush : ChunkedDecoder.push .new body = ChunkedDecoder.loop
        ⟨encode chunks last, .size, 0, false⟩ := by
      rw [hbody]
      rfl
    rw [hsplits reads (hreads ▸ List.prefix_refl _), hreads, Flow.start, push_head hreceive, hflow]
    simp only [Flow.emit, Flow.finished, hpush]
    exact ⟨hout, hdone⟩

def noUrls : Urls := ⟨fun _ => none, fun _ _ => none⟩

def bytes (s : String) : List UInt8 := s.toList.map fun c => UInt8.ofNat c.toNat

def chunkedText : List UInt8 := bytes "HTTP/1.1 200 OK\r\nTransfer-Encoding: chunked"

def wiki : Chunk where
  data := bytes "Wiki"
  line := ⟨bytes "04", bytes " ;a=b", by decide, by decide, by decide, by decide⟩
  nonempty := by decide
  safe := by decide

def lastChunk : LastChunk where
  line := ⟨bytes "0", [], by decide, by decide, by decide, isExtension_nil⟩
  trailers := bytes "\r\n"

/-- Reads that end in the blank line, in a size line and in the data of a chunk. -/
def smallReads : List (List UInt8) :=
  [chunkedText ++ [13, 10, 13], [10] ++ bytes "04 ;", bytes "a=b\r\nWi", bytes "ki\r\n0\r\n\r\n"]

theorem smallReads_payload :
    (readAll (Flow.push noUrls "http://radio.test/") .start smallReads).1 = payload [wiki] ∧
      (readAll (Flow.push noUrls "http://radio.test/") .start smallReads).2.finished = true :=
  (passThrough_of_splits noUrls "http://radio.test/" (chunkedText ++ blankLine) chunkedText
    (encode [wiki] lastChunk) smallReads (by decide) (by decide) (by decide)).2 [wiki] lastChunk rfl
    (by decide)

end Atradio.Proxy
