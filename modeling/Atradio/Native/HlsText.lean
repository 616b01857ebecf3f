import Atradio.Native.HlsLive

/-! # Media playlists of HLS as they are written

A range that continues the one before is written without its offset, and an init segment where it
changes. -/

namespace Atradio.Native
open Atradio.Lib

def decimal (n : ℕ) : List Char := Nat.toDigits 10 n

/-- Ranges are an offset and a length. -/
def rangeText : ℕ × ℕ → List Char
  | (off, len) => decimal len ++ '@' :: decimal off

def shortRange (prevEnd : ℕ) (range : ℕ × ℕ) : List Char :=
  if range.1 = prevEnd then decimal range.2 else rangeText range

def quoted (s : List Char) : List Char := quote :: (s ++ [quote])

/-- The address of an init segment is as it is written. -/
def mapText (map : InitMap) : List Char :=
  "URI=".toList ++ quoted map.uri ++ match map.byteRange with
    | some range => ",BYTERANGE=".toList ++ quoted (rangeText range)
    | none => []

/-- A segment as it is written, behind lines that do not matter. -/
structure Entry where
  notes : List (List Char)
  uri : List Char
  byteRange : Option (ℕ × ℕ)
  map : Option InitMap

def tagged {α : Type} (tag : List Char) (text : α → List Char) : Option α → List (List Char)
  | some a => [tag ++ text a]
  | none => []

def Entry.lines (prevEnd : ℕ) (current : Option InitMap) (e : Entry) : List (List Char) :=
  e.notes ++ (tagged "#EXT-X-MAP:".toList mapText (if e.map = current then none else e.map) ++
    (tagged "#EXT-X-BYTERANGE:".toList (shortRange prevEnd) e.byteRange ++ [e.uri]))

def entryLines : ℕ → Option InitMap → List Entry → List (List Char)
  | _, _, [] => []
  | prevEnd, current, e :: es =>
    e.lines prevEnd current ++ entryLines (rangeEnd prevEnd e.byteRange) e.map es

def mediaLines (first : ℕ) (ended : Bool) (es : List Entry) : List (List Char) :=
  "#EXTM3U".toList :: ("#EXT-X-MEDIA-SEQUENCE:".toList ++ decimal first) ::
    (entryLines 0 none es ++ if ended then ["#EXT-X-ENDLIST".toList] else [])

/-- Lines with `trail` and a new line behind each. -/
def joinLines (trail : List Char) (ls : List (List Char)) : List Char :=
  ls.flatMap fun l => l ++ trail ++ ['\n']

/-- What is written can be read: a note is blank, or begins with a sign and none of the tags. -/
structure Entry.Fits (e : Entry) : Prop where
  notes : ∀ l ∈ e.notes, '\n' ∉ l ∧ lineOf l = .other
  uri_line : '\n' ∉ e.uri
  uri_ne : e.uri ≠ []
  uri_trim : trim e.uri = e.uri
  uri_head : e.uri.head? ≠ some '#'
  range_lt : ∀ r ∈ e.byteRange, r.1 < U64 ∧ r.2 < U64
  map_uri : ∀ m ∈ e.map, '\n' ∉ m.uri ∧ quote ∉ m.uri
  map_lt : ∀ m ∈ e.map, ∀ r ∈ m.byteRange, r.1 < U64 ∧ r.2 < U64

/-! ### Lines -/

theorem trim_eq {s : List Char} (hhead : ∀ c ∈ s.head?, Cli.isWhiteSpace c = false)
    (hlast : ∀ c ∈ s.getLast?, Cli.isWhiteSpace c = false) : trim s = s := by
  have hdrop : s.dropWhile Cli.isWhiteSpace = s := by
    cases s with
    | nil => rfl
    | cons c s => rw [List.dropWhile_cons_of_neg (by simp [hhead c rfl])]
  rw [trim, trimOf, hdrop, List.rdropWhile_eq_self_iff]
  intro hne
  rw [hlast _ (List.getLast?_eq_some_getLast hne)]
  exact Bool.false_ne_true

theorem trim_trail {trail : List Char} (htrail : ∀ c ∈ trail, Cli.isWhiteSpace c = true)
    (s : List Char) : trim (s ++ trail) = trim s :=
  trimOf_append (x := []) (fun _ hc => absurd hc List.not_mem_nil) htrail s

/-- `f` does not look at the white space around a line. -/
theorem lines_joinLines {γ : Type} {trail : List Char}
    (htrail : ∀ c ∈ trail, Cli.isWhiteSpace c = true) (hline : '\n' ∉ trail) (f : List Char → γ)
    (hf : ∀ {s t : List Char}, trim s = trim t → f s = f t) (ls : List (List Char))
    (h : ∀ l ∈ ls, '\n' ∉ l) : (Cli.lines (joinLines trail ls)).map f = ls.map f := by
  have hsplit : ∃ ls', splitLines (joinLines trail ls) = ls' ++ [[]] ∧ ls'.map f = ls.map f := by
    induction ls with
    | nil => exact ⟨[], rfl, rfl⟩
    | cons l ls ih =>
      obtain ⟨ls', hls', hmap⟩ := ih fun x hx => h x (List.mem_cons_of_mem _ hx)
      have hl : '\n' ∉ l ++ trail := by
        rw [List.mem_append, not_or]
        exact ⟨h l (List.mem_cons_self ..), hline⟩
      obtain ⟨l', hcut, hl'⟩ := splitLines_newline hl (joinLines trail ls)
      refine ⟨l' :: ls', ?_, ?_⟩
      · rw [joinLines, List.flatMap_cons, List.append_assoc, List.singleton_append]
        rw [joinLines] at hcut hls'
        rw [hcut, hls']
        rfl
      · have hsame : f l' = f l := by
          refine hf ?_
          rw [← trim_trail htrail l]
          rcases hl' with hl' | hl'
          · rw [hl']
          · rw [hl']
            exact (trimOf_concat (by decide) l').symm
        rw [List.map_cons, List.map_cons, hmap, hsame]
  obtain ⟨ls', hls', hmap⟩ := hsplit
  rw [Cli.lines, hls', List.getLast?_concat, if_pos rfl, List.dropLast_concat, hmap]

theorem lineOf_trim {s t : List Char} (h : trim s = trim t) : lineOf s = lineOf t := by
  rw [lineOf, lineOf, h]

/-! ### Numbers -/

theorem digit_space {c : Char} (h : c.isDigit = true) : Cli.isWhiteSpace c = false := by
  cases hspace : Cli.isWhiteSpace c with
  | false => rfl
  | true =>
    have hall : ∀ c ∈ Cli.whiteSpace, c.isDigit = false := forall_letters (by decide)
    rw [hall c (of_decide_eq_true hspace)] at h
    cases h

theorem decimal_digit {n : ℕ} {c : Char} (h : c ∈ decimal n) : c.isDigit = true :=
  Nat.isDigit_of_mem_toDigits (by decide) (by decide) h

theorem decimal_ne (n : ℕ) : decimal n ≠ [] := Nat.toDigits_ne_nil

theorem trim_decimal (n : ℕ) : trim (decimal n) = decimal n :=
  trim_eq (fun _ hc => digit_space (decimal_digit (List.mem_of_mem_head? hc)))
    (fun _ hc => digit_space (decimal_digit (List.mem_of_getLast? hc)))

theorem parseU64_decimal {n : ℕ} (h : n < U64) : parseU64 (decimal n) = some n := by
  have hplus : dropPlus (decimal n) = decimal n := by
    unfold dropPlus
    split
    next rest heq =>
      have hdigit : Char.isDigit '+' = true := decimal_digit (n := n) (heq ▸ List.mem_cons_self ..)
      exact absurd hdigit (by decide)
    · rfl
  have hall : (decimal n).all Char.isDigit = true := List.all_eq_true.2 fun _ hc => decimal_digit hc
  have hnumber : Nat.ofDigitChars 10 (decimal n) 0 = n := Nat.ofDigitChars_ten_toDigits
  unfold parseU64
  rw [hplus]
  dsimp only
  rw [hnumber, if_pos ⟨decimal_ne n, hall, h⟩]

theorem decimal_notMem {c : Char} (hc : c.isDigit = false) (n : ℕ) : c ∉ decimal n := fun h => by
  rw [decimal_digit h] at hc
  cases hc

theorem decimal_last (n : ℕ) : ∀ c ∈ (decimal n).getLast?, Cli.isWhiteSpace c = false :=
  fun _ hc => digit_space (decimal_digit (List.mem_of_getLast? hc))

theorem parse_rangeText {range : ℕ × ℕ} (hoff : range.1 < U64) (hlen : range.2 < U64)
    (prevEnd : ℕ) : parseByterange (rangeText range) prevEnd = some range := by
  obtain ⟨off, len⟩ := range
  have hcut : cut ['@'] (rangeText (off, len)) = some (decimal len, decimal off) :=
    cut_singleton_eq_some.2 ⟨rfl, decimal_notMem (by decide) len⟩
  simp only [parseByterange, hcut, trim_decimal, parseU64_decimal hoff, parseU64_decimal hlen]
  rfl

theorem parse_shortRange {range : ℕ × ℕ} (hoff : range.1 < U64) (hlen : range.2 < U64)
    (prevEnd : ℕ) : parseByterange (shortRange prevEnd range) prevEnd = some range := by
  unfold shortRange
  split
  next hsame =>
    have hcut : cut ['@'] (decimal range.2) = none := by
      cases h : cut ['@'] (decimal range.2) with
      | none => rfl
      | some p =>
        obtain ⟨x, y⟩ := p
        have hmem : '@' ∈ decimal range.2 := by
          rw [(cut_singleton_eq_some.1 h).1]
          simp
        exact (decimal_notMem (by decide) range.2 hmem).elim
    simp only [parseByterange, hcut, trim_decimal, parseU64_decimal hlen]
    rw [← hsame]
    rfl
  · exact parse_rangeText hoff hlen prevEnd

/-! ### Attributes -/

theorem attrValue_quoted {v : List Char} (hv : quote ∉ v) (more : List Char) :
    attrValue (quoted v ++ more) = (v, (more.dropWhile (· ≠ ',')).drop 1) := by
  have hall : ∀ c ∈ v, decide (c ≠ quote) = true :=
    fun c hc => decide_eq_true fun heq => hv (heq ▸ hc)
  have hbody : (quoted v ++ more).drop 1 = v ++ quote :: more := by
    simp [quoted]
  rw [attrValue, if_pos (by simp [quoted]), hbody, List.takeWhile_append_of_pos hall,
    List.dropWhile_append_of_pos hall]
  simp

theorem parseAttributes_key {key : List Char} (hkey : '=' ∉ key) (hne : key ≠ [])
    (htrim : trim key = key) (rest : List Char) : parseAttributes (key ++ '=' :: rest) =
      (key, (attrValue rest).1) :: parseAttributes (attrValue rest).2 := by
  have hall : ∀ c ∈ key, decide (c ≠ '=') = true :=
    fun c hc => decide_eq_true fun heq => hkey (heq ▸ hc)
  have hdrop : (key ++ '=' :: rest).dropWhile (· ≠ '=') = '=' :: rest := by
    rw [List.dropWhile_append_of_pos hall]
    simp
  have htake : (key ++ '=' :: rest).takeWhile (· ≠ '=') = key := by
    rw [List.takeWhile_append_of_pos hall]
    simp
  rw [parseAttributes]
  split
  next hnil =>
    rw [hdrop] at hnil
    cases hnil
  next c more hcons =>
    rw [hdrop] at hcons
    obtain ⟨-, rfl⟩ := List.cons.inj hcons
    rw [htake, htrim, if_neg hne]

theorem parseAttributes_quoted {key v : List Char} (hkey : '=' ∉ key) (hne : key ≠ [])
    (htrim : trim key = key) (hv : quote ∉ v) (more : List Char) :
    parseAttributes (key ++ '=' :: (quoted v ++ more)) =
      (key, v) :: parseAttributes ((more.dropWhile (· ≠ ',')).drop 1) := by
  rw [parseAttributes_key hkey hne htrim, attrValue_quoted hv]

theorem rangeText_chars {c : Char} {range : ℕ × ℕ} (h : c ∈ rangeText range) :
    c.isDigit = true ∨ c = '@' := by
  rcases List.mem_append.1 h with h | h
  · exact Or.inl (decimal_digit h)
  · rcases List.mem_cons.1 h with h | h
    · exact Or.inr h
    · exact Or.inl (decimal_digit h)

theorem rangeText_quote (range : ℕ × ℕ) : quote ∉ rangeText range := by
  intro h
  rcases rangeText_chars h with h | h
  · exact absurd h (by decide)
  · exact absurd h (by decide)

theorem attrs_mapText {map : InitMap} (huri : quote ∉ map.uri) :
    parseAttributes (mapText map) = ("URI".toList, map.uri) :: match map.byteRange with
      | some range => [("BYTERANGE".toList, rangeText range)]
      | none => [] := by
  have hnil : parseAttributes [] = [] := by rw [parseAttributes]; rfl
  have hfirst := @parseAttributes_quoted "URI".toList map.uri (by decide) (by decide) (by decide) huri
  obtain ⟨uri, byteRange⟩ := map
  cases byteRange with
  | none => exact (hfirst []).trans (congrArg (_ :: ·) hnil)
  | some range =>
    have hsecond := @parseAttributes_quoted "BYTERANGE".toList (rangeText range) (by decide)
      (by decide) (by decide) (rangeText_quote range) []
    refine (hfirst (",BYTERANGE=".toList ++ quoted (rangeText range))).trans (congrArg (_ :: ·) ?_)
    rw [List.append_nil] at hsecond
    exact hsecond.trans (congrArg (_ :: ·) hnil)

theorem line_map {p : Parsing} {base : List Char} {map : InitMap} (huri : quote ∉ map.uri)
    (hlt : ∀ r ∈ map.byteRange, r.1 < U64 ∧ r.2 < U64) :
    p.line base (.map (mapText map)) =
      { p with currentMap := some ⟨urlJoin base map.uri, map.byteRange⟩ } := by
  obtain ⟨uri, byteRange⟩ := map
  cases byteRange with
  | none =>
    simp only [Parsing.line, attrs_mapText huri]
    rfl
  | some range =>
    obtain ⟨hoff, hlen⟩ := hlt range rfl
    have hrange := parse_rangeText hoff hlen 0
    have hattr : (attr [("URI".toList, uri), ("BYTERANGE".toList, rangeText range)]
        "BYTERANGE".toList).bind (parseByterange · 0) = some range := hrange
    simp only [Parsing.line, attrs_mapText huri, hattr]
    rfl

/-! ### Tags -/

theorem trim_tag {tag text : List Char} (htag : tag.head? = some '#') (hne : text ≠ [])
    (htext : ∀ c ∈ text.getLast?, Cli.isWhiteSpace c = false) :
    trim (tag ++ text) = tag ++ text := by
  refine trim_eq (fun c hc => ?_) fun c hc => htext c ?_
  · rw [List.head?_append, htag] at hc
    obtain rfl := Option.some.inj hc
    decide
  · rwa [List.getLast?_append_of_ne_nil _ hne] at hc

theorem lineOf_mediaSequence (n : ℕ) :
    lineOf ("#EXT-X-MEDIA-SEQUENCE:".toList ++ decimal n) = .mediaSequence (decimal n) := by
  rw [lineOf, trim_tag (by decide) (decimal_ne n) (decimal_last n)]
  rfl

theorem shortRange_space (prevEnd : ℕ) (range : ℕ × ℕ) :
    ∀ c ∈ shortRange prevEnd range, Cli.isWhiteSpace c = false := by
  intro c hc
  unfold shortRange at hc
  split at hc
  · exact digit_space (decimal_digit hc)
  · rcases rangeText_chars hc with hc | rfl
    · exact digit_space hc
    · decide

theorem trim_shortRange (prevEnd : ℕ) (range : ℕ × ℕ) :
    trim (shortRange prevEnd range) = shortRange prevEnd range :=
  trim_eq (fun _ hc => shortRange_space prevEnd range _ (List.mem_of_mem_head? hc))
    (fun _ hc => shortRange_space prevEnd range _ (List.mem_of_getLast? hc))

theorem lineOf_byterange (prevEnd : ℕ) (range : ℕ × ℕ) :
    lineOf ("#EXT-X-BYTERANGE:".toList ++ shortRange prevEnd range) =
      .byterange (shortRange prevEnd range) := by
  have hne : shortRange prevEnd range ≠ [] := by
    unfold shortRange
    split
    · exact decimal_ne range.2
    · simp [rangeText]
  rw [lineOf, trim_tag (by decide) hne
    (fun c hc => shortRange_space prevEnd range c (List.mem_of_getLast? hc))]
  rfl

theorem lineOf_map (map : InitMap) :
    lineOf ("#EXT-X-MAP:".toList ++ mapText map) = .map (mapText map) := by
  have hquoted : ∀ x v : List Char, (x ++ quoted v).getLast? = some quote := by
    intro x v
    rw [quoted, ← List.cons_append, ← List.append_assoc, List.getLast?_concat]
  have hlast : (mapText map).getLast? = some quote := by
    obtain ⟨uri, byteRange⟩ := map
    cases byteRange with
    | none =>
      rw [mapText, List.append_nil]
      exact hquoted _ uri
    | some range =>
      rw [mapText, ← List.append_assoc]
      exact hquoted _ (rangeText range)
  have hne : mapText map ≠ [] := by
    intro hnil
    rw [hnil] at hlast
    cases hlast
  rw [lineOf, trim_tag (by decide) hne ?_]
  · rfl
  · intro c hc
    rw [hlast] at hc
    obtain rfl := Option.some.inj hc
    decide

theorem hash_isPrefixOf {uri : List Char} (hhead : uri.head? ≠ some '#') (rest : List Char) :
    ('#' :: rest).isPrefixOf uri = false := by
  cases uri with
  | nil => rfl
  | cons c uri =>
    have hc : ('#' == c) = false := by
      rw [beq_eq_false_iff_ne]
      rintro rfl
      exact hhead rfl
    rw [List.isPrefixOf, hc]
    rfl

theorem hash_stripPrefix {uri : List Char} (hhead : uri.head? ≠ some '#') (rest : List Char) :
    stripPrefix ('#' :: rest) uri = none := by
  rw [stripPrefix, hash_isPrefixOf hhead rest]
  rfl

theorem lineOf_uri {uri : List Char} (hne : uri ≠ []) (htrim : trim uri = uri)
    (hhead : uri.head? ≠ some '#') : lineOf uri = .uri uri := by
  have hend : "#EXT-X-ENDLIST".toList.isPrefixOf uri = false := hash_isPrefixOf hhead _
  have hhash : ['#'].isPrefixOf uri = false := hash_isPrefixOf hhead []
  rw [lineOf, htrim, if_neg hne,
    show stripPrefix "#EXT-X-MEDIA-SEQUENCE:".toList uri = none from hash_stripPrefix hhead _,
    show stripPrefix "#EXT-X-BYTERANGE:".toList uri = none from hash_stripPrefix hhead _,
    show stripPrefix "#EXT-X-MAP:".toList uri = none from hash_stripPrefix hhead _,
    show stripPrefix "#EXT-X-KEY:".toList uri = none from hash_stripPrefix hhead _, hend, hhash]
  rfl

/-! ### Entries -/

section Entries

variable (base : List Char)

def InitMap.joined (map : InitMap) : InitMap := { map with uri := urlJoin base map.uri }

def Entry.segment (e : Entry) (sequence : ℕ) : MediaSegment :=
  { uri := urlJoin base e.uri, sequence, byteRange := e.byteRange, map := e.map.map (·.joined base) }

theorem notes_read {ls : List (List Char)} (h : ∀ l ∈ ls, lineOf l = .other) (p : Parsing) :
    (ls.map lineOf).foldl (Parsing.line base) p = p := by
  induction ls with
  | nil => rfl
  | cons l ls ih =>
    rw [List.map_cons, h l (List.mem_cons_self ..)]
    exact ih fun x hx => h x (List.mem_cons_of_mem _ hx)

theorem map_read {e : Entry} (he : e.Fits) {current : Option InitMap}
    (hcurrent : e.map = none → current = none) {p : Parsing}
    (hmap : p.currentMap = current.map (·.joined base)) :
    ((tagged "#EXT-X-MAP:".toList mapText (if e.map = current then none else e.map)).map
      lineOf).foldl (Parsing.line base) p = { p with currentMap := e.map.map (·.joined base) } := by
  by_cases hsame : e.map = current
  · rw [if_pos hsame, hsame, ← hmap]
    rfl
  · rw [if_neg hsame]
    cases hm : e.map with
    | none => exact (hsame (hm.trans (hcurrent hm).symm)).elim
    | some map =>
      obtain ⟨-, huri⟩ := he.map_uri map hm
      rw [tagged, List.map_singleton, lineOf_map]
      exact line_map huri (he.map_lt map hm)

theorem range_read {e : Entry} (he : e.Fits) {p : Parsing} (hrange : p.pendingRange = none) :
    ((tagged "#EXT-X-BYTERANGE:".toList (shortRange p.prevRangeEnd) e.byteRange).map lineOf).foldl
      (Parsing.line base) p = { p with pendingRange := e.byteRange } := by
  cases hr : e.byteRange with
  | none => exact congrArg (fun range => { p with pendingRange := range }) hrange
  | some range =>
    obtain ⟨hoff, hlen⟩ := he.range_lt range hr
    rw [tagged, List.map_singleton, lineOf_byterange, List.foldl_cons, List.foldl_nil,
      Parsing.line, trim_shortRange, parse_shortRange hoff hlen]

/-- The lines of an entry, for a reader that is between two segments. -/
theorem entry_read {e : Entry} (he : e.Fits) {current : Option InitMap}
    (hcurrent : e.map = none → current = none) {p : Parsing} (hrange : p.pendingRange = none)
    (hmap : p.currentMap = current.map (·.joined base)) :
    ((e.lines p.prevRangeEnd current).map lineOf).foldl (Parsing.line base) p =
      { p with
        playlist.segments := p.playlist.segments ++
          [e.segment base ((p.playlist.mediaSequence + p.playlist.segments.length) % U64)]
        currentMap := e.map.map (·.joined base)
        prevRangeEnd := rangeEnd p.prevRangeEnd e.byteRange } := by
  have hbytes := @range_read base e he { p with currentMap := e.map.map (·.joined base) } hrange
  rw [Entry.lines, List.map_append, List.foldl_append,
    notes_read base (fun l hl => (he.notes l hl).2), List.map_append, List.foldl_append,
    map_read base he hcurrent hmap, List.map_append, List.foldl_append, hbytes, List.map_singleton,
    lineOf_uri he.uri_ne he.uri_trim he.uri_head]
  simp only [List.foldl_cons, List.foldl_nil, Parsing.line, Entry.segment, hrange]

/-- Once there is an init segment, there is always one. -/
def MapsStay : Option InitMap → List Entry → Prop
  | _, [] => True
  | current, e :: es => (e.map = none → current = none) ∧ MapsStay e.map es

/-- The entries, numbered from `first` on. -/
def numbered (first : ℕ) : List Entry → List MediaSegment
  | [] => []
  | e :: es => e.segment base first :: numbered (first + 1) es

theorem entries_read {es : List Entry} (hes : ∀ e ∈ es, e.Fits) {current : Option InitMap}
    (hmaps : MapsStay current es) {p : Parsing} (hrange : p.pendingRange = none)
    (hmap : p.currentMap = current.map (·.joined base))
    (hsmall : p.playlist.mediaSequence + p.playlist.segments.length + es.length ≤ U64) :
    (((entryLines p.prevRangeEnd current es).map lineOf).foldl (Parsing.line base) p).playlist =
      { p.playlist with
        segments := p.playlist.segments ++
          numbered base (p.playlist.mediaSequence + p.playlist.segments.length) es } := by
  induction es generalizing p current with
  | nil => rw [numbered, List.append_nil]; rfl
  | cons e es ih =>
    obtain ⟨hcurrent, hrest⟩ := hmaps
    rw [List.length_cons] at hsmall
    rw [entryLines, List.map_append, List.foldl_append,
      entry_read base (hes e (List.mem_cons_self ..)) hcurrent hrange hmap]
    refine (ih (fun x hx => hes x (List.mem_cons_of_mem _ hx)) hrest ?_ rfl ?_).trans ?_
    · exact hrange
    · simp only [List.length_append, List.length_singleton]
      omega
    · rw [List.length_append, List.length_singleton, numbered, Nat.mod_eq_of_lt (by omega),
        List.append_assoc]
      rfl

theorem decimal_newline (n : ℕ) : '\n' ∉ decimal n := decimal_notMem (by decide) n

theorem rangeText_newline (range : ℕ × ℕ) : '\n' ∉ rangeText range := by
  intro h
  rcases rangeText_chars h with h | h
  · exact absurd h (by decide)
  · exact absurd h (by decide)

theorem mapText_newline {map : InitMap} (huri : '\n' ∉ map.uri) : '\n' ∉ mapText map := by
  have hquoted : ∀ v : List Char, '\n' ∉ v → '\n' ∉ quoted v := by
    intro v hv
    simp only [quoted, List.mem_cons, List.mem_append, List.not_mem_nil, or_false, not_or]
    exact ⟨by decide, hv, by decide⟩
  obtain ⟨uri, byteRange⟩ := map
  rw [mapText, List.mem_append, List.mem_append, not_or, not_or]
  refine ⟨⟨by decide, hquoted uri huri⟩, ?_⟩
  cases byteRange with
  | none => exact List.not_mem_nil
  | some range =>
    rw [List.mem_append, not_or]
    exact ⟨by decide, hquoted _ (rangeText_newline range)⟩

theorem entryLines_newline {es : List Entry} (hes : ∀ e ∈ es, e.Fits) (prevEnd : ℕ)
    (current : Option InitMap) : ∀ l ∈ entryLines prevEnd current es, '\n' ∉ l := by
  induction es generalizing prevEnd current with
  | nil => exact fun _ hl => absurd hl List.not_mem_nil
  | cons e es ih =>
    have he := hes e (List.mem_cons_self ..)
    intro l hl
    rw [entryLines, Entry.lines, List.mem_append, List.mem_append, List.mem_append,
      List.mem_append] at hl
    rcases hl with (hl | hl | hl | hl) | hl
    · exact (he.notes l hl).1
    · split at hl
      · cases hl
      · cases hm : e.map with
        | none =>
          rw [hm] at hl
          cases hl
        | some map =>
          rw [hm, tagged, List.mem_singleton] at hl
          rw [hl, List.mem_append, not_or]
          exact ⟨by decide, mapText_newline (he.map_uri map hm).1⟩
    · cases hr : e.byteRange with
      | none =>
        rw [hr] at hl
        cases hl
      | some range =>
        rw [hr, tagged, List.mem_singleton] at hl
        rw [hl, List.mem_append, not_or]
        refine ⟨by decide, ?_⟩
        unfold shortRange
        split
        · exact decimal_newline range.2
        · exact rangeText_newline range
    · rw [List.mem_singleton.1 hl]
      exact he.uri_line
    · exact ih (fun x hx => hes x (List.mem_cons_of_mem _ hx)) _ _ l hl

theorem mediaLines_newline {es : List Entry} (hes : ∀ e ∈ es, e.Fits) (first : ℕ) (ended : Bool) :
    ∀ l ∈ mediaLines first ended es, '\n' ∉ l := by
  intro l hl
  rw [mediaLines, List.mem_cons, List.mem_cons, List.mem_append] at hl
  rcases hl with rfl | rfl | hl | hl
  · decide
  · rw [List.mem_append, not_or]
    exact ⟨by decide, decimal_newline first⟩
  · exact entryLines_newline hes 0 none l hl
  · cases ended with
    | false => cases hl
    | true =>
      rw [List.mem_singleton.1 hl]
      decide

theorem mediaLines_read {first : ℕ} (hfirst : first < U64) (ended : Bool) {es : List Entry}
    (hes : ∀ e ∈ es, e.Fits) (hmaps : MapsStay none es) (hsmall : first + es.length ≤ U64) :
    (((mediaLines first ended es).map lineOf).foldl (Parsing.line base) {}).playlist =
      { mediaSequence := first, endlist := ended, encrypted := false
        segments := numbered base first es } := by
  have hhead : lineOf "#EXTM3U".toList = .other := by decide
  have hend : lineOf "#EXT-X-ENDLIST".toList = .endlist := by decide
  have hother : Parsing.line base {} .other = {} := rfl
  have hsequence : Parsing.line base {} (.mediaSequence (decimal first)) =
      { playlist := { mediaSequence := first } } := by
    simp only [Parsing.line, trim_decimal, parseU64_decimal hfirst]
    rfl
  have hentries := @entries_read base es hes none hmaps
    { playlist := { mediaSequence := first } } rfl rfl (by simpa using hsmall)
  rw [mediaLines, List.map_cons, List.map_cons, lineOf_mediaSequence, List.foldl_cons,
    List.foldl_cons, List.map_append, List.foldl_append, hhead, hother, hsequence]
  cases ended with
  | false => exact hentries
  | true =>
    rw [if_pos rfl, List.map_singleton, hend, List.foldl_cons, List.foldl_nil]
    exact congrArg (fun playlist => { playlist with endlist := true }) hentries

end Entries

/-- A playlist of any segments, with ranges, init segments and lines that do not matter, is read as it
was written, for a text in which any white space may end the lines. -/
theorem parse_written (base : List Char) {first : ℕ} (ended : Bool) {es : List Entry}
    {trail : List Char} (hes : ∀ e ∈ es, e.Fits) (hmaps : MapsStay none es)
    (hsmall : first + es.length ≤ U64) (hfirst : first < U64)
    (htrail : ∀ c ∈ trail, Cli.isWhiteSpace c = true ∧ c ≠ '\n') :
    parseMedia base (joinLines trail (mediaLines first ended es)) =
      { mediaSequence := first, endlist := ended, encrypted := false
        segments := numbered base first es } := by
  have hline : '\n' ∉ trail := fun hc => (htrail _ hc).2 rfl
  rw [parseMedia, lines_joinLines (fun c hc => (htrail c hc).1) hline lineOf lineOf_trim _
    (mediaLines_newline hes first ended)]
  exact mediaLines_read base hfirst ended hes hmaps hsmall

/-- A file that is listed by its ranges, behind one init segment. -/
def fileEntry (range : ℕ × ℕ) : Entry where
  notes := [[], "#EXTINF:6,".toList]
  uri := "show.m4s".toList
  byteRange := some range
  map := some ⟨"init.mp4".toList, some (0, 40)⟩

theorem fileEntry_fits {range : ℕ × ℕ} (hoff : range.1 < U64) (hlen : range.2 < U64) :
    (fileEntry range).Fits where
  notes := show ∀ l ∈ [[], "#EXTINF:6,".toList], '\n' ∉ l ∧ lineOf l = .other by decide
  uri_line := show '\n' ∉ "show.m4s".toList by decide
  uri_ne := show "show.m4s".toList ≠ [] by decide
  uri_trim := show trim "show.m4s".toList = "show.m4s".toList by decide
  uri_head := show "show.m4s".toList.head? ≠ some '#' by decide
  range_lt := fun _ hr => Option.some.inj hr ▸ ⟨hoff, hlen⟩
  map_uri := fun _ hm => Option.some.inj hm ▸ by decide
  map_lt := fun _ hm _ hr => by
    obtain rfl := Option.some.inj hm
    obtain rfl := Option.some.inj hr
    decide

theorem parse_written_file : parseMedia "http://a.b/c/live.m3u8".toList
      (joinLines ['\r'] (mediaLines 7 true [fileEntry (40, 100), fileEntry (140, 80)])) =
    { mediaSequence := 7, endlist := true, encrypted := false
      segments := numbered "http://a.b/c/live.m3u8".toList 7
        [fileEntry (40, 100), fileEntry (140, 80)] } :=
  parse_written _ true
    (List.forall_mem_cons.2 ⟨fileEntry_fits (by decide) (by decide),
      List.forall_mem_singleton.2 (fileEntry_fits (by decide) (by decide))⟩)
    ⟨nofun, nofun, trivial⟩ (by decide) (by decide) (List.forall_mem_singleton.2 (by decide))

/-! ### Windows of a channel -/

section Windows

variable (base : List Char) (entries : ℕ → Entry)

/-- The channel whose segments are written so. -/
def writtenChannel : Channel where
  segment n := (entries n).segment base n
  sequence _ := rfl

theorem numbered_window (a k : ℕ) : numbered base a ((List.range' a k).map entries) =
    (writtenChannel base entries).window a k := by
  induction k generalizing a with
  | zero => rfl
  | succ k ih =>
    rw [List.range'_succ, List.map_cons, numbered, ih, window_succ]
    rfl

theorem written_lists {entries} (hes : ∀ n, (entries n).Fits) {a k : ℕ} (hsmall : a + k < U64)
    (hmaps : MapsStay none ((List.range' a k).map entries)) (ended : Bool) :
    (writtenChannel base entries).Lists
      (parseMedia base (joinLines [] (mediaLines a ended ((List.range' a k).map entries)))) := by
  have hfits : ∀ e ∈ (List.range' a k).map entries, e.Fits := by
    intro e he
    obtain ⟨n, -, rfl⟩ := List.mem_map.1 he
    exact hes n
  refine ⟨a, k, ?_, hsmall⟩
  rw [← numbered_window, parseMedia, lines_joinLines (fun _ hc => absurd hc List.not_mem_nil)
    List.not_mem_nil lineOf lineOf_trim _ (mediaLines_newline hfits a ended),
    mediaLines_read base (by omega) ended hfits hmaps (by simpa using hsmall.le)]

end Windows

end Atradio.Native
