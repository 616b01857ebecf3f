import Mathlib.Data.List.DropRight
import Mathlib.Data.List.Sort
import Atradio.Lib.Table
import Atradio.Lib.Utf8
import Atradio.Lexicons.Stations

/-! # Mentions and links in comments (`atproto/richtext.ts`)

Texts are UTF-16 code units, facets count bytes. -/

namespace Atradio.Web
open Atradio.Lib Atradio.Lexicons

/-! ### Mentions in a text -/

structure MentionSpan where
  start : ℕ
  «end» : ℕ
  handle : Units

/-- `@` -/
def atUnit : UInt16 := 64

def isAlnumUnit (u : UInt16) : Bool :=
  (48 ≤ u.toNat && u.toNat ≤ 57) || (65 ≤ u.toNat && u.toNat ≤ 90) ||
    (97 ≤ u.toNat && u.toNat ≤ 122)

/-- `[a-zA-Z0-9.-]` -/
def isHandleUnit (u : UInt16) : Bool := isAlnumUnit u || u.toNat = 46 || u.toNat = 45

/-- `\s` -/
def isSpaceUnit (u : UInt16) : Bool := u.toNat ∈ whitespace.map Char.toNat

/-- `[a-zA-Z0-9][a-zA-Z0-9.-]*[a-zA-Z0-9]|[a-zA-Z0-9]` at the start of `s`: what it takes greedily,
less the dots and hyphens at the end. -/
def handleAt (s : Units) : Option Units :=
  if s.head?.any isAlnumUnit then
    some ((s.takeWhile isHandleUnit).rdropWhile fun u => !isAlnumUnit u)
  else none

/-- `@` and a handle at the start of `s`. -/
def atHandle : Units → Option Units
  | [] => none
  | u :: s => if u = atUnit then handleAt s else none

/-- `[\s(]` -/
def opensMention (u : UInt16) : Bool := isSpaceUnit u || u.toNat = 40

/-- `MENTION_RE` at the start of `s`, which begins the text if `start` is set: the length of the
first group, and the second. -/
def mentionAt (start : Bool) (s : Units) : Option (ℕ × Units) :=
  ((if start then atHandle s else none).map fun handle => (0, handle)).or
    (match s with
    | [] => none
    | u :: s => if opensMention u then (atHandle s).map fun handle => (1, handle) else none)

/-- The matches in what is left of a text from `pos` on, of which `skip` units are taken. -/
def mentionSpans : ℕ → ℕ → Units → List MentionSpan
  | _, _, [] => []
  | skip + 1, pos, _ :: s => mentionSpans skip (pos + 1) s
  | 0, pos, u :: s =>
    match mentionAt (pos = 0) (u :: s) with
    | none => mentionSpans 0 (pos + 1) s
    | some (lead, handle) =>
      { start := pos + lead, «end» := pos + lead + 1 + handle.length, handle } ::
        mentionSpans (lead + handle.length) (pos + 1) s

def detectMentionSpans (text : Units) : List MentionSpan := mentionSpans 0 0 text

/-! ### Facets -/

def byteLength (s : Units) : ℕ := (encode s).length

/-- `toLowerCase` of a handle, which is ASCII. -/
def cacheKey (handle : Units) : Units :=
  handle.map fun u => if 65 ≤ u.toNat && u.toNat ≤ 90 then u + 32 else u

section Resolve

-- the `did` of the profile, none where the request throws
variable (getProfile : Units → Option String)

def resolve (cache : JsMap Units (Option String)) (handle : Units) :
    Option String × JsMap Units (Option String) :=
  match JsMap.find cache (cacheKey handle) with
  | some did => (did, cache)
  | none => (getProfile handle, JsMap.set cache (cacheKey handle) (getProfile handle))

/-- `if (!did) continue` -/
def truthy (did : Option String) : Option String := did.filter (· ≠ "")

def facetOf (text : Units) (span : MentionSpan) (did : String) : Facet where
  did
  byteStart := byteLength (text.take span.start)
  byteEnd := byteLength (text.take span.end)

def facetsOf (text : Units) : JsMap Units (Option String) → List MentionSpan → List Facet
  | _, [] => []
  | cache, span :: spans =>
    let resolved := resolve getProfile cache span.handle
    match truthy resolved.1 with
    | none => facetsOf text resolved.2 spans
    | some did => facetOf text span did :: facetsOf text resolved.2 spans

def resolveMentionFacets (text : Units) : List Facet :=
  facetsOf getProfile text Table.empty (detectMentionSpans text)

end Resolve

/-! ### Segments -/

inductive CommentSegment where
  | text (value : Units)
  | mention (value : Units) (did : String)
  | link (value href : Units)

def asciiUnits (s : String) : Units := s.toList.map fun c => UInt16.ofNat c.toNat

/-- ``[\s<.,:;!?)\]}'"]`` -/
def endsUrl (u : UInt16) : Bool := isSpaceUnit u || u ∈ asciiUnits "<.,:;!?)]\x7d'\""

/-- `URL_RE` at the start of `s`. -/
def urlAt (s : Units) : Option Units :=
  ([asciiUnits "https://", asciiUnits "http://"].find? fun scheme => scheme.isPrefixOf s).bind
    fun scheme =>
      let run := (s.drop scheme.length).takeWhile fun u => !(isSpaceUnit u || u.toNat = 60)
      let url := run.rdropWhile endsUrl
      if 2 ≤ url.length then some (scheme ++ url) else none

def textSegment (value : Units) : List CommentSegment := if value = [] then [] else [.text value]

/-- The segments of the rest of a text, of which `skip` units are taken, behind the plain run. -/
def splitFrom : ℕ → Units → Units → List CommentSegment
  | _, plain, [] => textSegment plain
  | skip + 1, plain, _ :: s => splitFrom skip plain s
  | 0, plain, u :: s =>
    match urlAt (u :: s) with
    | none => splitFrom 0 (plain ++ [u]) s
    | some url => textSegment plain ++ .link url url :: splitFrom (url.length - 1) [] s

def splitLinks (text : Units) : List CommentSegment := splitFrom 0 [] text

/-- `decoder.decode(bytes.slice(start, end))` -/
def decodeSlice (bytes : List UInt8) (start «end» : ℕ) : Units :=
  decode ((bytes.take «end»).drop start)

def segmentFrom (bytes : List UInt8) : ℕ → List Facet → List CommentSegment
  | cursor, [] =>
    if cursor < bytes.length then splitLinks (decodeSlice bytes cursor bytes.length) else []
  | cursor, f :: fs =>
    if f.byteStart < cursor || bytes.length < f.byteEnd || f.byteEnd ≤ f.byteStart then
      segmentFrom bytes cursor fs
    else
      (if cursor < f.byteStart then splitLinks (decodeSlice bytes cursor f.byteStart) else []) ++
        .mention (decodeSlice bytes f.byteStart f.byteEnd) f.did :: segmentFrom bytes f.byteEnd fs

/-- No facets stand for `undefined` too. -/
def segmentComment (text : Units) (facets : List Facet) : List CommentSegment :=
  if facets = [] then splitLinks text
  else segmentFrom (encode text) 0 (facets.insertionSort fun a b => a.byteStart ≤ b.byteStart)

-- a dot at the end is not taken, and an `@` inside a word opens no mention
example : (detectMentionSpans (asciiUnits "(@a.b. x@c @d")).map (fun s => (s.start, s.end)) =
    [(1, 5), (11, 13)] := by decide

/-! ### Where the spans are -/

theorem isAscii_of_handleUnit {u : UInt16} (h : isHandleUnit u = true) : isAscii u = true := by
  simp only [isHandleUnit, isAlnumUnit, isAscii, Bool.or_eq_true, Bool.and_eq_true,
    decide_eq_true_eq] at h ⊢
  omega

/-- What a match takes: at most one unit before it, the `@` and the handle. -/
structure MentionAt (s : Units) (lead : ℕ) (handle : Units) : Prop where
  cut : ∃ before after, before.length = lead ∧ s = before ++ (atUnit :: handle) ++ after
  ascii : ∀ u ∈ handle, isAscii u = true

theorem handleAt_eq_some {s handle : Units} (h : handleAt s = some handle) :
    (∃ after, s = handle ++ after) ∧ ∀ u ∈ handle, isAscii u = true := by
  unfold handleAt at h
  split at h
  · obtain rfl := Option.some.inj h
    obtain ⟨ends, hrun⟩ := List.rdropWhile_prefix (fun u => !isAlnumUnit u) (s.takeWhile isHandleUnit)
    refine ⟨⟨ends ++ s.dropWhile isHandleUnit, ?_⟩, fun u hu => ?_⟩
    · rw [← List.append_assoc, hrun, List.takeWhile_append_dropWhile]
    · have hmem : u ∈ s.takeWhile isHandleUnit := hrun ▸ List.mem_append_left ends hu
      exact isAscii_of_handleUnit (List.mem_takeWhile_imp hmem)
  · cases h

theorem atHandle_eq_some {s handle : Units} (h : atHandle s = some handle) :
    MentionAt s 0 handle := by
  cases s with
  | nil => cases h
  | cons u s =>
    obtain ⟨rfl, hhandle⟩ := Option.ite_none_right_eq_some.1 h
    obtain ⟨⟨after, rfl⟩, hascii⟩ := handleAt_eq_some hhandle
    exact ⟨⟨[], after, rfl, rfl⟩, hascii⟩

theorem mentionAt_eq_some {start : Bool} {s handle : Units} {lead : ℕ}
    (h : mentionAt start s = some (lead, handle)) : MentionAt s lead handle := by
  rcases Option.or_eq_some_iff.1 h with h | ⟨-, h⟩
  · obtain ⟨handle', hat, heq⟩ := Option.map_eq_some_iff.1 h
    obtain ⟨rfl, rfl⟩ := Prod.mk.inj heq
    split at hat
    · exact atHandle_eq_some hat
    · cases hat
  · cases s with
    | nil => cases h
    | cons u s =>
      obtain ⟨-, h⟩ := Option.ite_none_right_eq_some.1 h
      obtain ⟨handle', hat, heq⟩ := Option.map_eq_some_iff.1 h
      obtain ⟨rfl, rfl⟩ := Prod.mk.inj heq
      obtain ⟨⟨before, after, hbefore, rfl⟩, hascii⟩ := atHandle_eq_some hat
      exact ⟨⟨u :: before, after, congrArg (· + 1) hbefore, rfl⟩, hascii⟩

/-- A span of a text, between what is before it and what is behind it. -/
structure SpanIn (text : Units) (span : MentionSpan) : Prop where
  cut : ∃ before after, before.length = span.start ∧
    text = before ++ (atUnit :: span.handle) ++ after
  ends : span.end = span.start + (atUnit :: span.handle).length
  ascii : ∀ u ∈ span.handle, isAscii u = true

theorem mentionSpans_in (skip : ℕ) {pos : ℕ} {before s : Units} (hpos : before.length = pos) :
    (∀ span ∈ mentionSpans skip pos s, SpanIn (before ++ s) span ∧ pos + skip ≤ span.start) ∧
      (mentionSpans skip pos s).Pairwise fun a b => a.end ≤ b.start := by
  induction s generalizing skip pos before with
  | nil =>
    rw [mentionSpans]
    exact ⟨nofun, .nil⟩
  | cons u s ih =>
    have hnext : (before ++ [u]).length = pos + 1 := by
      rw [List.length_append, hpos]
      rfl
    have hcut : before ++ u :: s = before ++ [u] ++ s := by simp
    cases skip with
    | succ skip =>
      rw [mentionSpans, hcut]
      obtain ⟨hin, hapart⟩ := ih skip hnext
      refine ⟨fun span hspan => ?_, hapart⟩
      obtain ⟨hspanIn, hle⟩ := hin span hspan
      exact ⟨hspanIn, by omega⟩
    | zero =>
      rw [mentionSpans]
      split
      · rw [hcut]
        obtain ⟨hin, hapart⟩ := ih 0 hnext
        refine ⟨fun span hspan => ?_, hapart⟩
        obtain ⟨hspanIn, hle⟩ := hin span hspan
        exact ⟨hspanIn, by omega⟩
      · rename_i lead handle hmatch
        obtain ⟨⟨lead', after, hlead, htext⟩, hascii⟩ := mentionAt_eq_some hmatch
        obtain ⟨hin, hapart⟩ := ih (lead + handle.length) hnext
        rw [List.forall_mem_cons, List.pairwise_cons]
        refine ⟨⟨⟨⟨⟨before ++ lead', after, ?_, ?_⟩, ?_, hascii⟩, Nat.le_add_right ..⟩,
          fun span hspan => ?_⟩, fun span hspan => ?_, hapart⟩
        · rw [List.length_append, hpos, hlead]
        · rw [htext]
          simp only [List.append_assoc]
        · rw [List.length_cons]
          exact Nat.add_right_comm ..
        · obtain ⟨hspanIn, hle⟩ := hin span hspan
          rw [hcut]
          exact ⟨hspanIn, by omega⟩
        · have hle := (hin span hspan).2
          simp only
          omega

theorem detect_spans (text : Units) :
    (∀ span ∈ detectMentionSpans text, SpanIn text span ∧ 0 + 0 ≤ span.start) ∧
      (detectMentionSpans text).Pairwise fun a b => a.end ≤ b.start :=
  @mentionSpans_in 0 0 [] text rfl

theorem detect_in (text : Units) : ∀ span ∈ detectMentionSpans text, SpanIn text span :=
  fun span hspan => ((detect_spans text).1 span hspan).1

theorem detect_apart (text : Units) :
    (detectMentionSpans text).Pairwise fun a b => a.end ≤ b.start :=
  (detect_spans text).2

/-! ### What the spans are in bytes -/

/-- The text is cut into its bytes at both ends of a span, whatever follows it. -/
theorem encode_span (before : Units) {handle : Units} (h : ∀ u ∈ handle, isAscii u = true)
    (after : Units) : encode (before ++ (atUnit :: handle) ++ after) =
      encode before ++ asciiBytes (atUnit :: handle) ++ encode after := by
  have hascii : ∀ u ∈ atUnit :: handle, isAscii u = true := List.forall_mem_cons.2 ⟨rfl, h⟩
  rw [List.append_assoc, List.append_assoc, List.cons_append, encode_append rfl,
    ← List.cons_append, encode_ascii hascii]

theorem asciiBytes_length (s : Units) : (asciiBytes s).length = s.length := List.length_map ..

theorem byteLength_span (before : Units) {handle : Units} (h : ∀ u ∈ handle, isAscii u = true)
    (after : Units) : byteLength (before ++ (atUnit :: handle) ++ after) =
      byteLength before + (atUnit :: handle).length + byteLength after := by
  unfold byteLength
  rw [encode_span before h, List.length_append, List.length_append, asciiBytes_length]

section Spans

variable {text : Units} {span : MentionSpan}

theorem SpanIn.take_end {before after : Units} (h : SpanIn text span)
    (hstart : before.length = span.start) (htext : text = before ++ (atUnit :: span.handle) ++ after)
    (n : ℕ) : text.take (span.end + n) = before ++ (atUnit :: span.handle) ++ after.take n := by
  have hlength : (before ++ (atUnit :: span.handle)).length = span.end := by
    rw [List.length_append, hstart, h.ends]
  rw [htext, ← hlength, List.take_length_add_append]

/-- The bytes of a span: from where its facet begins to where it ends. -/
theorem SpanIn.bytes (h : SpanIn text span) (did : String) :
    ∃ before after, (facetOf text span did).byteStart = before.length ∧
      (facetOf text span did).byteEnd = before.length + (atUnit :: span.handle).length ∧
      encode text = before ++ asciiBytes (atUnit :: span.handle) ++ after := by
  obtain ⟨before, after, hstart, htext⟩ := h.cut
  refine ⟨encode before, encode after, ?_, ?_, ?_⟩
  · have htake : text.take span.start = before := by
      rw [htext, ← hstart, List.append_assoc, List.take_left]
    rw [facetOf, htake]
    rfl
  · have htake := h.take_end hstart htext 0
    rw [Nat.add_zero, List.take_zero] at htake
    have hbytes : byteLength (text.take span.end) =
        (encode before).length + (atUnit :: span.handle).length := by
      rw [htake, byteLength_span before h.ascii]
      rfl
    exact hbytes
  · rw [htext, encode_span before h.ascii]

/-- A span that begins behind another one does so in bytes. -/
theorem SpanIn.bytes_le (h : SpanIn text span) {b : MentionSpan} (hle : span.end ≤ b.start)
    (did did' : String) : (facetOf text span did).byteEnd ≤ (facetOf text b did').byteStart := by
  obtain ⟨before, after, hstart, htext⟩ := h.cut
  obtain ⟨n, hn⟩ := Nat.exists_eq_add_of_le hle
  have hend := h.take_end hstart htext 0
  rw [Nat.add_zero, List.take_zero] at hend
  have hbytes : byteLength (text.take span.end) ≤ byteLength (text.take b.start) := by
    rw [hn, hend, h.take_end hstart htext n, byteLength_span before h.ascii,
      byteLength_span before h.ascii]
    exact Nat.add_le_add_left (Nat.zero_le _) _
  exact hbytes

theorem SpanIn.byteStart_lt (h : SpanIn text span) (did : String) :
    (facetOf text span did).byteStart < (facetOf text span did).byteEnd := by
  obtain ⟨before, after, hstart, hend, -⟩ := h.bytes did
  rw [hstart, hend, List.length_cons]
  omega

theorem SpanIn.byteEnd_le (h : SpanIn text span) (did : String) :
    (facetOf text span did).byteEnd ≤ byteLength text := by
  obtain ⟨before, after, -, hend, hbytes⟩ := h.bytes did
  rw [hend, byteLength, hbytes, List.length_append, List.length_append, asciiBytes_length]
  exact Nat.le_add_right ..

/-- What is decoded from the bytes of a facet is the span as typed. -/
theorem SpanIn.decoded (h : SpanIn text span) (did : String) :
    decodeSlice (encode text) (facetOf text span did).byteStart (facetOf text span did).byteEnd =
      atUnit :: span.handle := by
  obtain ⟨before, after, hstart, hend, hbytes⟩ := h.bytes did
  have hascii : ∀ u ∈ atUnit :: span.handle, isAscii u = true :=
    List.forall_mem_cons.2 ⟨rfl, h.ascii⟩
  have hlength : (before ++ asciiBytes (atUnit :: span.handle)).length =
      (facetOf text span did).byteEnd := by
    rw [List.length_append, asciiBytes_length, hend]
  rw [decodeSlice, hbytes, ← hlength, List.take_left, hstart, List.drop_left, decode_ascii hascii]

theorem SpanIn.typed (h : SpanIn text span) :
    (text.take span.end).drop span.start = atUnit :: span.handle := by
  obtain ⟨before, after, hstart, htext⟩ := h.cut
  have htake := h.take_end hstart htext 0
  rw [Nat.add_zero, List.take_zero, List.append_nil] at htake
  rw [htake, ← hstart, List.drop_left]

end Spans

/-! ### Which mentions resolve -/

section Answers

variable (getProfile : Units → Option String)

/-- What the resolver gives for the handle of a span. -/
def ownAnswer (span : MentionSpan) : Option String := truthy (getProfile span.handle)

/-- What it gives for the first of the spans that spell this handle, in whatever case. -/
def firstAnswer (spans : List MentionSpan) (span : MentionSpan) : Option String :=
  truthy ((spans.find? fun s => cacheKey s.handle = cacheKey span.handle).bind fun s =>
    getProfile s.handle)

/-- The cache holds what the resolver gave for the spans seen. -/
def Caches (cache : JsMap Units (Option String)) (seen : List MentionSpan) : Prop :=
  ∀ key, JsMap.find cache key =
    (seen.find? fun s => cacheKey s.handle = key).map fun s => getProfile s.handle

variable {getProfile}

theorem resolve_caches {cache : JsMap Units (Option String)} {seen : List MentionSpan}
    (h : Caches getProfile cache seen) (span : MentionSpan) (rest : List MentionSpan) :
    truthy (resolve getProfile cache span.handle).1 =
        firstAnswer getProfile (seen ++ span :: rest) span ∧
      Caches getProfile (resolve getProfile cache span.handle).2 (seen ++ [span]) := by
  have hkey := h (cacheKey span.handle)
  unfold resolve firstAnswer
  cases hseen : seen.find? fun s => cacheKey s.handle = cacheKey span.handle with
  | some s =>
    rw [hseen, Option.map_some] at hkey
    rw [hkey, List.find?_append, hseen]
    refine ⟨rfl, fun key => ?_⟩
    rw [h key, List.find?_append]
    by_cases hk : cacheKey span.handle = key
    · rw [← hk, hseen]
      rfl
    · rw [List.find?_singleton, if_neg (by simpa using hk), Option.or_none]
  | none =>
    rw [hseen, Option.map_none] at hkey
    rw [hkey, List.find?_append, hseen, Option.none_or, List.find?_cons_of_pos (by simp)]
    refine ⟨rfl, fun key => ?_⟩
    rw [JsMap.find_set, List.find?_append, List.find?_singleton]
    by_cases hk : cacheKey span.handle = key
    · rw [← hk, hseen]
      simp
    · rw [h key]
      simp [hk, Ne.symm hk]

theorem facetsOf_eq (text : Units) {cache : JsMap Units (Option String)}
    (seen : List MentionSpan) (h : Caches getProfile cache seen) (spans : List MentionSpan) :
    facetsOf getProfile text cache spans = spans.filterMap fun span =>
      (firstAnswer getProfile (seen ++ spans) span).map (facetOf text span) := by
  induction spans generalizing cache seen with
  | nil => rfl
  | cons span spans ih =>
    obtain ⟨hanswer, hcaches⟩ := resolve_caches h span spans
    have hrest := ih (seen ++ [span]) hcaches
    rw [List.append_assoc, List.singleton_append] at hrest
    rw [facetsOf, hanswer, List.filterMap_cons, ← hrest]
    cases firstAnswer getProfile (seen ++ span :: spans) span <;> rfl

theorem facets_eq (text : Units) :
    resolveMentionFacets getProfile text = (detectMentionSpans text).filterMap fun span =>
      (firstAnswer getProfile (detectMentionSpans text) span).map (facetOf text span) :=
  facetsOf_eq text [] (fun _ => rfl) _

end Answers

/-! ### The round trip -/

/-- A mention segment, as its value and DID. -/
def CommentSegment.mentioned : CommentSegment → Option (Units × String)
  | .mention value did => some (value, did)
  | _ => none

theorem splitFrom_mentioned (skip : ℕ) (plain s : Units) :
    (splitFrom skip plain s).filterMap CommentSegment.mentioned = [] := by
  have htext : ∀ value, (textSegment value).filterMap CommentSegment.mentioned = [] := by
    intro value
    unfold textSegment
    split <;> rfl
  induction s generalizing skip plain with
  | nil => exact htext plain
  | cons u s ih =>
    cases skip with
    | succ skip => exact ih skip plain
    | zero =>
      rw [splitFrom]
      split
      · exact ih 0 _
      · rw [List.filterMap_append, htext, List.nil_append]
        exact ih _ []

theorem splitLinks_mentioned (text : Units) :
    (splitLinks text).filterMap CommentSegment.mentioned = [] := splitFrom_mentioned 0 [] text

/-- The loop over facets of the spans of a text: each becomes a mention. -/
theorem segmentFrom_mentioned {text : Units} (answer : MentionSpan → Option String)
    {spans : List MentionSpan} (hin : ∀ span ∈ spans, SpanIn text span)
    (hapart : spans.Pairwise fun a b => a.end ≤ b.start) (cursor : ℕ)
    (hcursor : ∀ span ∈ spans, ∀ did, cursor ≤ (facetOf text span did).byteStart) :
    (segmentFrom (encode text) cursor (spans.filterMap fun span =>
      (answer span).map (facetOf text span))).filterMap CommentSegment.mentioned =
      spans.filterMap fun span => (answer span).map fun did => (atUnit :: span.handle, did) := by
  induction spans generalizing cursor with
  | nil =>
    rw [List.filterMap_nil, segmentFrom]
    split
    · exact splitLinks_mentioned _
    · rfl
  | cons span spans ih =>
    obtain ⟨hspan, hrest⟩ := List.forall_mem_cons.1 hin
    obtain ⟨hbehind, hapart⟩ := List.pairwise_cons.1 hapart
    rw [List.filterMap_cons, List.filterMap_cons]
    cases answer span with
    | none => exact ih hrest hapart cursor fun s hs => hcursor s (List.mem_cons_of_mem _ hs)
    | some did =>
      have hle := hcursor span (List.mem_cons_self ..) did
      have hlt := hspan.byteStart_lt did
      have hend := hspan.byteEnd_le did
      have htail := ih hrest hapart _ fun s hs did' => hspan.bytes_le (hbehind s hs) did did'
      unfold byteLength at hend
      simp only [Option.map_some]
      rw [segmentFrom, if_neg (by simp; omega), List.filterMap_append, List.filterMap_cons, htail,
        hspan.decoded]
      split
      · rw [splitLinks_mentioned]
        rfl
      · rfl

/-- The facets lie apart and in order within the text, and cutting the text along them gives
back the mentions as typed, with the DIDs of `answer`. -/
structure RoundTrips (getProfile : Units → Option String) (answer : MentionSpan → Option String)
    (text : Units) : Prop where
  apart : (resolveMentionFacets getProfile text).Pairwise fun a b => a.byteEnd ≤ b.byteStart
  inside : ∀ f ∈ resolveMentionFacets getProfile text,
    f.byteStart < f.byteEnd ∧ f.byteEnd ≤ byteLength text
  typed : ∀ span ∈ detectMentionSpans text,
    (text.take span.end).drop span.start = atUnit :: span.handle
  mentions : (segmentComment text (resolveMentionFacets getProfile text)).filterMap
      CommentSegment.mentioned =
    (detectMentionSpans text).filterMap fun span =>
      (answer span).map fun did => (atUnit :: span.handle, did)

theorem roundTrips_of_answer {getProfile : Units → Option String} {text : Units}
    {answer : MentionSpan → Option String}
    (h : ∀ span ∈ detectMentionSpans text,
      firstAnswer getProfile (detectMentionSpans text) span = answer span) :
    RoundTrips getProfile answer text := by
  have hspans := detect_in text
  have hfacets : resolveMentionFacets getProfile text = (detectMentionSpans text).filterMap
      fun span => (answer span).map (facetOf text span) := by
    rw [facets_eq]
    exact List.filterMap_congr fun span hspan => by rw [h span hspan]
  have hsorted : (resolveMentionFacets getProfile text).Pairwise
      fun a b => a.byteEnd ≤ b.byteStart := by
    rw [hfacets, List.pairwise_filterMap]
    refine (List.Pairwise.and_mem.1 (detect_apart text)).imp ?_
    rintro a b ⟨ha, -, hle⟩ f hf g hg
    obtain ⟨did, -, rfl⟩ := Option.map_eq_some_iff.1 hf
    obtain ⟨did', -, rfl⟩ := Option.map_eq_some_iff.1 hg
    exact (hspans a ha).bytes_le hle did did'
  have hinside : ∀ f ∈ resolveMentionFacets getProfile text,
      f.byteStart < f.byteEnd ∧ f.byteEnd ≤ byteLength text := by
    intro f hf
    rw [hfacets] at hf
    obtain ⟨span, hspan, hmap⟩ := List.mem_filterMap.1 hf
    obtain ⟨did, -, rfl⟩ := Option.map_eq_some_iff.1 hmap
    exact ⟨(hspans span hspan).byteStart_lt did, (hspans span hspan).byteEnd_le did⟩
  refine ⟨hsorted, hinside, fun span hspan => (hspans span hspan).typed, ?_⟩
  have hloop := segmentFrom_mentioned answer hspans (detect_apart text) 0
    fun _ _ _ => Nat.zero_le _
  rw [← hfacets] at hloop
  rw [segmentComment, ← hloop]
  split
  · rename_i hnone
    rw [hnone, splitLinks_mentioned, segmentFrom]
    split
    · rw [splitLinks_mentioned]
    · rfl
  · have hstarts : (resolveMentionFacets getProfile text).Pairwise
        fun a b => a.byteStart ≤ b.byteStart := by
      refine (List.Pairwise.and_mem.1 hsorted).imp ?_
      rintro a b ⟨ha, -, hle⟩
      exact Nat.le_trans (Nat.le_of_lt (hinside a ha).1) hle
    rw [hstarts.insertionSort_eq]

/-- The cache goes by the handle in lower case: a mention takes the DID that the resolver gave for
the first mention of that handle. -/
theorem mentions_roundTrip (getProfile : Units → Option String) (text : Units) :
    RoundTrips getProfile (firstAnswer getProfile (detectMentionSpans text)) text :=
  roundTrips_of_answer fun _ _ => rfl

/-- A resolver that does not look at the case of a handle gives each mention its own DID. -/
theorem roundTrips_own {getProfile : Units → Option String}
    (hcase : ∀ a b, cacheKey a = cacheKey b → getProfile a = getProfile b) (text : Units) :
    RoundTrips getProfile (ownAnswer getProfile) text := by
  refine roundTrips_of_answer fun span hspan => ?_
  unfold firstAnswer ownAnswer
  cases hfind : (detectMentionSpans text).find? fun s => cacheKey s.handle = cacheKey span.handle with
  | none => exact (List.find?_eq_none.1 hfind span hspan (decide_eq_true rfl)).elim
  | some s =>
    have hkey : cacheKey s.handle = cacheKey span.handle := by simpa using List.find?_some hfind
    rw [Option.bind_some, hcase _ _ hkey]

/-- `@A` and `@a` for a resolver that tells them apart. -/
theorem casings_mixed : ¬ RoundTrips
    (fun handle => if handle = asciiUnits "A" then some "did:plc:a" else some "did:plc:b")
    (ownAnswer fun handle => if handle = asciiUnits "A" then some "did:plc:a" else some "did:plc:b")
    (asciiUnits "@A @a") :=
  fun h => absurd h.mentions (by decide)

end Atradio.Web
