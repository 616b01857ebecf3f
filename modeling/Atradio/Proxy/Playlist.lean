import Atradio.Web.Resolve

/-! # Playlists of the proxies (`playlist.ts`, `playlist.gleam`)

The TypeScript copies run on the expressions and strings of JavaScript, the Gleam copy on those of
its own runtime. -/

namespace Atradio.Proxy
open Atradio.Lib Atradio.Web

/-- The expressions and strings of a runtime: `\s`, `\d`, behind what `^` matches in a text of
lines, what trimming takes off, and whether a text matches `^https?:\/\/`. -/
structure Dialect where
  space : Char → Bool
  digit : Char → Bool
  lineEnd : Char → Bool
  trims : Char → Bool
  scheme : List Char → Bool
  newline_space : space '\n' = true
  newline_lineEnd : lineEnd '\n' = true
  scheme_of_http : ∀ s, (afterScheme s).isSome = true → scheme s = true

def javaScript : Dialect where
  space := isSpace
  digit := Char.isDigit
  lineEnd := isLineTerminator
  trims := isSpace
  scheme s := (afterScheme s).isSome
  newline_space := by decide
  newline_lineEnd := by decide
  scheme_of_http _ h := h

namespace Dialect

variable (d : Dialect)

/-- What follows `File\d+\s*=` -/
def fileKey (s : List Char) : Option (List Char) :=
  (skipWord "file".toList s).bind fun s =>
    if s.takeWhile d.digit = [] then none
    else match (s.dropWhile d.digit).dropWhile d.space with
      | '=' :: value => some value
      | _ => none

/-- `\s*(\S+)` -/
def firstWord (s : List Char) : Option (List Char) :=
  let word := (s.dropWhile d.space).takeWhile fun c => !d.space c
  if word = [] then none else some word

/-- `^\s*File\d+\s*=\s*(\S+)` from the start of `s`. -/
def plsAt (s : List Char) : Option (List Char) := (d.fileKey (s.dropWhile d.space)).bind d.firstWord

/-- The first match in a text; `start` says that a line begins here. -/
def plsMatch (start : Bool) : List Char → Option (List Char)
  | [] => none
  | c :: s => (if start then d.plsAt (c :: s) else none).or (plsMatch (d.lineEnd c) s)

def urlOf (t : List Char) : Option (List Char) :=
  if t = [] || t.head? = some '#' then none else if d.scheme t then some t else none

def urlLine (line : List Char) : Option (List Char) := d.urlOf (trimOf d.trims line)

/-- The function of all three sources; `split` gives the lines of a text. -/
def firstUrl (split : List Char → List (List Char)) (body : List Char) : Option (List Char) :=
  match d.plsMatch true body with
  | some url => some (trimOf d.trims url)
  | none => (split body).findSome? d.urlLine

end Dialect

def firstStreamUrl (body : List Char) : Option (List Char) := javaScript.firstUrl splitLines body

def parseFirstStreamUrl (body : List Char) : Option (List Char) :=
  javaScript.firstUrl splitLines body

/-- The copy in Gleam, `first_stream_url`. -/
def gleamFirstStreamUrl (d : Dialect) (body : List Char) : Option (List Char) :=
  d.firstUrl (List.splitOn '\n') body

/-! ### The web player -/

theorem javaScript_plsMatch (b : Bool) (s : List Char) :
    javaScript.plsMatch b s = Web.plsMatch b s := by
  induction s generalizing b with
  | nil => rfl
  | cons c s ih =>
    rw [Dialect.plsMatch, Web.plsMatch, ih]
    rfl

/-- The function of the web player is this one behind a trimming. -/
theorem web_firstUrl (body : List Char) :
    firstUrlFromPlaylist body = firstStreamUrl (trimOf isSpace body) := by
  rw [firstUrlFromPlaylist, firstStreamUrl, Dialect.firstUrl, javaScript_plsMatch]
  rfl

/-! ### Entries -/

section Entries

variable (d : Dialect)

def IsHttp (s : List Char) : Prop := (afterScheme s).isSome = true

/-- White space of either kind. -/
def Dialect.blank (c : Char) : Bool := d.space c || d.trims c

/-- The whole value of a line with a key. -/
def FileValue (body v : List Char) : Prop :=
  ∃ line ∈ body.splitOn '\n', ∃ value, d.fileKey (line.dropWhile d.space) = some value ∧
    trimOf d.blank value = v

/-- A whole line that is no comment. -/
def WholeLine (body v : List Char) : Prop :=
  ∃ line ∈ body.splitOn '\n', trimOf d.trims line = v ∧ v.head? ≠ some '#'

def Stands (body v : List Char) : Prop := FileValue d body v ∨ WholeLine d body v

/-- A result is an entry, and there is one if there is an entry. -/
def Unwraps (f : List Char → Option (List Char)) (body : List Char) : Prop :=
  (∀ url, f body = some url → IsHttp url ∧ Stands d body url) ∧
    ((∃ url, IsHttp url ∧ Stands d body url) → (f body).isSome = true)

/-- The first word behind the first key at the start of a line, over white space and ends of
lines; `textAt` and `textMatch` are the text from it on. -/
def Dialect.textAt (s : List Char) : Option (List Char) :=
  (d.fileKey (s.dropWhile d.space)).bind fun value =>
    if value.dropWhile d.space = [] then none else some (value.dropWhile d.space)

def Dialect.textMatch (start : Bool) : List Char → Option (List Char)
  | [] => none
  | c :: s => (if start then d.textAt (c :: s) else none).or (Dialect.textMatch (d.lineEnd c) s)

structure KeyWord (body : List Char) where
  before : List Char
  word : List Char
  after : List Char
  split : body = before ++ (word ++ after)
  found : d.textMatch true body = some (word ++ after)
  noSpace : ∀ c ∈ word, d.space c = false
  ends : ∀ c ∈ after.head?, d.space c = true

variable {d} {body : List Char} (k : KeyWord d body)

def KeyWord.opening : List Char := k.before.rtakeWhile (· ≠ '\n')

def KeyWord.closing : List Char := k.after.takeWhile (· ≠ '\n')

/-- The word fills its line, or the value of a key there. -/
def KeyWord.Fills : Prop :=
  ((∀ c ∈ k.opening, d.trims c = true) ∧ ∀ c ∈ k.closing, d.trims c = true) ∨
  ∃ value, d.fileKey (k.opening.dropWhile d.space) = some value ∧
    (∀ c ∈ value, d.blank c = true) ∧ ∀ c ∈ k.closing, d.blank c = true

def KeyWord.entry : List Char := trimOf d.trims k.word

/-- It is a URL that fills its line, or that stands elsewhere in the playlist too. -/
def KeyWord.Good : Prop := IsHttp k.entry ∧ (k.Fills ∨ Stands d body k.entry)

end Entries

/-! ### Keys -/

section Keys

variable {d : Dialect} {s t u v value line : List Char}

theorem skipWord_append {word : List Char} (h : skipWord word s = some t) (u : List Char) :
    skipWord word (s ++ u) = some (t ++ u) := by
  obtain ⟨x, rfl, hx⟩ := skipWord_eq_some.1 h
  exact skipWord_eq_some.2 ⟨x, List.append_assoc .., hx⟩

theorem fileKey_eq_some :
    d.fileKey s = some v ↔ ∃ t, skipWord "file".toList s = some t ∧ t.takeWhile d.digit ≠ [] ∧
      (t.dropWhile d.digit).dropWhile d.space = '=' :: v := by
  rw [Dialect.fileKey, Option.bind_eq_some_iff]
  constructor
  · rintro ⟨t, ht, hv⟩
    by_cases hdigit : t.takeWhile d.digit = []
    · rw [if_pos hdigit] at hv
      cases hv
    · rw [if_neg hdigit] at hv
      split at hv
      · rename_i heq
        obtain rfl := Option.some.inj hv
        exact ⟨t, ht, hdigit, heq⟩
      · cases hv
  · rintro ⟨t, ht, hdigit, heq⟩
    refine ⟨t, ht, ?_⟩
    simp only [if_neg hdigit, heq]

theorem fileKey_append (h : d.fileKey s = some v) (u : List Char) :
    d.fileKey (s ++ u) = some (v ++ u) := by
  obtain ⟨t, ht, hdigit, heq⟩ := fileKey_eq_some.1 h
  have hspace : (t.dropWhile d.digit).dropWhile d.space ≠ [] := by simp [heq]
  have hrest : t.dropWhile d.digit ≠ [] := by
    intro hnil
    rw [hnil] at hspace
    exact hspace rfl
  obtain ⟨htake, hdrop⟩ := while_append hrest u
  refine fileKey_eq_some.2 ⟨t ++ u, skipWord_append ht u, ?_, ?_⟩
  · rwa [htake]
  · rw [hdrop, (while_append hspace u).2, heq, List.cons_append]

theorem fileKey_suffix (h : d.fileKey s = some v) : v <:+ s := by
  obtain ⟨t, ht, -, heq⟩ := fileKey_eq_some.1 h
  obtain ⟨x, rfl, -⟩ := skipWord_eq_some.1 ht
  have hv : v <:+ '=' :: v := List.suffix_cons '=' v
  rw [← heq] at hv
  exact ((hv.trans (List.dropWhile_suffix _)).trans (List.dropWhile_suffix _)).trans
    (List.suffix_append x t)

/-- A key on a line is a key of the text that goes on behind the line. -/
theorem key_append (h : d.fileKey (line.dropWhile d.space) = some value) (u : List Char) :
    d.fileKey ((line ++ u).dropWhile d.space) = some (value ++ u) := by
  have hline : line.dropWhile d.space ≠ [] := by
    intro hnil
    rw [hnil] at h
    cases h
  rw [(while_append hline u).2]
  exact fileKey_append h u

theorem textAt_line (h : d.fileKey (line.dropWhile d.space) = some value)
    (hvalue : ∃ c ∈ value, d.space c = false) (u : List Char) :
    (d.textAt (line ++ u)).isSome = true := by
  obtain ⟨c, hc, hspace⟩ := hvalue
  have hdrop : (value ++ u).dropWhile d.space ≠ [] := by
    intro hnil
    rw [List.dropWhile_eq_nil_iff] at hnil
    rw [hnil c (List.mem_append_left u hc)] at hspace
    cases hspace
  rw [Dialect.textAt, key_append h u, Option.bind_some, if_neg hdrop]
  rfl

theorem textMatch_start (h : (d.textAt s).isSome = true) :
    (d.textMatch true s).isSome = true := by
  cases s with
  | nil => cases h
  | cons c s =>
    rw [Dialect.textMatch, if_pos rfl, Option.isSome_or, h, Bool.true_or]

theorem textMatch_behind (h : (d.textMatch true s).isSome = true) (b : Bool) (l : List Char) :
    (d.textMatch b (l ++ '\n' :: s)).isSome = true := by
  induction l generalizing b with
  | nil =>
    rw [List.nil_append, Dialect.textMatch, d.newline_lineEnd, Option.isSome_or, h, Bool.or_true]
  | cons c l ih =>
    rw [List.cons_append, Dialect.textMatch, Option.isSome_or, ih, Bool.or_true]

theorem textMatch_of_line (hmem : line ∈ s.splitOn '\n')
    (h : d.fileKey (line.dropWhile d.space) = some value)
    (hvalue : ∃ c ∈ value, d.space c = false) : (d.textMatch true s).isSome = true := by
  induction s using lines_induction '\n' with
  | last l hl =>
    rw [splitOn_last hl, List.mem_singleton] at hmem
    subst hmem
    have hfound := textMatch_start (textAt_line h hvalue [])
    rwa [List.append_nil] at hfound
  | line l r hl ih =>
    rw [splitOn_line hl, List.mem_cons] at hmem
    rcases hmem with rfl | hmem
    · exact textMatch_start (textAt_line h hvalue _)
    · exact textMatch_behind (ih hmem) true l

theorem textAt_suffix (h : d.textAt s = some t) :
    t <:+ s ∧ t ≠ [] ∧ ∀ c ∈ t.head?, d.space c = false := by
  obtain ⟨value, hkey, hvalue⟩ := Option.bind_eq_some_iff.1 h
  split at hvalue
  · cases hvalue
  · rename_i hne
    obtain rfl := Option.some.inj hvalue
    refine ⟨?_, hne, ?_⟩
    · exact ((List.dropWhile_suffix _).trans (fileKey_suffix hkey)).trans (List.dropWhile_suffix _)
    · exact fun c hc => head_dropWhile hc

theorem textMatch_suffix {b : Bool} (h : d.textMatch b s = some t) :
    t <:+ s ∧ t ≠ [] ∧ ∀ c ∈ t.head?, d.space c = false := by
  induction s generalizing b with
  | nil => cases h
  | cons c s ih =>
    rw [Dialect.textMatch] at h
    rcases Option.or_eq_some_iff.1 h with h | ⟨-, h⟩
    · split at h
      · exact textAt_suffix h
      · cases h
    · obtain ⟨hsuffix, hrest⟩ := ih h
      exact ⟨hsuffix.trans (List.suffix_cons c s), hrest⟩

theorem plsAt_eq (s : List Char) :
    d.plsAt s = (d.textAt s).map fun t => t.takeWhile fun c => !d.space c := by
  unfold Dialect.plsAt Dialect.textAt Dialect.firstWord
  cases d.fileKey (s.dropWhile d.space) with
  | none => rfl
  | some value =>
    simp only [Option.bind_some]
    cases hdrop : value.dropWhile d.space with
    | nil => rfl
    | cons c t =>
      have hc : d.space c = false := head_dropWhile (s := value) (by rw [hdrop]; rfl)
      simp [hc]

theorem plsMatch_eq (b : Bool) (s : List Char) :
    d.plsMatch b s = (d.textMatch b s).map fun t => t.takeWhile fun c => !d.space c := by
  induction s generalizing b with
  | nil => rfl
  | cons c s ih =>
    rw [Dialect.plsMatch, Dialect.textMatch, ih, plsAt_eq]
    cases b with
    | false => rfl
    | true => cases d.textAt (c :: s) <;> rfl

end Keys

/-! ### Entries and results -/

section Results

variable {d : Dialect} {body v : List Char}

theorem http_head (h : IsHttp v) : v ≠ [] ∧ v.head? ≠ some '#' := by
  cases v with
  | nil => cases h
  | cons c v =>
    refine ⟨List.cons_ne_nil c v, ?_⟩
    intro hc
    obtain rfl := Option.some.inj hc
    cases h

theorem urlOf_eq_some {t : List Char} :
    d.urlOf t = some v ↔ t = v ∧ v ≠ [] ∧ v.head? ≠ some '#' ∧ d.scheme v = true := by
  unfold Dialect.urlOf
  constructor
  · intro h
    split at h
    · cases h
    · rename_i hcomment
      split at h
      · rename_i hscheme
        obtain rfl := Option.some.inj h
        rw [Bool.or_eq_true, not_or, decide_eq_true_eq, decide_eq_true_eq] at hcomment
        exact ⟨rfl, hcomment.1, hcomment.2, hscheme⟩
      · cases h
  · rintro ⟨rfl, hne, hcomment, hscheme⟩
    rw [if_neg (by simp [hne, hcomment]), if_pos hscheme]

theorem trimOf_word {word : List Char} (h : ∀ c ∈ word, d.space c = false) :
    trimOf d.blank word = trimOf d.trims word := by
  refine trimOf_congr ?_
  intro c hc
  rw [Dialect.blank, h c hc, Bool.false_or]

theorem textMatch_of_value (hhttp : IsHttp v) (h : FileValue d body v) :
    (d.textMatch true body).isSome = true := by
  obtain ⟨line, hline, value, hkey, hvalue⟩ := h
  refine textMatch_of_line hline hkey ?_
  by_contra hnone
  have hblank : ∀ c ∈ value, d.blank c = true := by
    intro c hc
    cases hspace : d.space c with
    | false => exact absurd ⟨c, hc, hspace⟩ hnone
    | true => rw [Dialect.blank, hspace, Bool.true_or]
  rw [trimOf_eq_nil hblank] at hvalue
  exact (http_head hhttp).1 hvalue.symm

theorem line_mem (k : KeyWord d body) :
    k.opening ++ (k.word ++ k.closing) ∈ body.splitOn '\n' := by
  have hbefore : k.before.rdropWhile (· ≠ '\n') ++ k.opening = k.before :=
    List.rdropWhile_append_rtakeWhile
  have hafter : k.closing ++ k.after.dropWhile (· ≠ '\n') = k.after :=
    List.takeWhile_append_dropWhile
  have hbody : body = k.before.rdropWhile (· ≠ '\n') ++
      ((k.opening ++ (k.word ++ k.closing)) ++ k.after.dropWhile (· ≠ '\n')) := by
    rw [List.append_assoc, List.append_assoc, hafter, ← List.append_assoc, hbefore]
    exact k.split
  have hlines := congrArg (List.splitOn '\n') hbody
  rw [hlines]
  refine mem_splitOn ?_ ?_ ?_
  · intro hmem
    rcases List.mem_append.1 hmem with hmem | hmem
    · simpa using List.mem_rtakeWhile_imp hmem
    rcases List.mem_append.1 hmem with hmem | hmem
    · have hspace := k.noSpace _ hmem
      rw [d.newline_space] at hspace
      cases hspace
    · simpa using List.mem_takeWhile_imp hmem
  · intro c hc
    have hne : k.before.rdropWhile (· ≠ '\n') ≠ [] := by
      intro hnil
      rw [hnil] at hc
      cases hc
    rw [List.getLast?_eq_some_getLast hne] at hc
    have hlast := List.rdropWhile_last_not (· ≠ '\n') k.before hne
    rw [Option.mem_some_iff.1 hc] at hlast
    simpa using hlast
  · intro c hc
    simpa using head_dropWhile hc

/-- A word that fills its line or a value there is one of the entries. -/
theorem stands_of_fills (k : KeyWord d body) (hhttp : IsHttp k.entry) (h : k.Fills) :
    Stands d body k.entry := by
  rcases h with ⟨hopening, hclosing⟩ | ⟨value, hkey, hvalue, hclosing⟩
  · exact Or.inr ⟨_, line_mem k, trimOf_append hopening hclosing k.word, (http_head hhttp).2⟩
  · refine Or.inl ⟨_, line_mem k, _, key_append hkey _, ?_⟩
    rw [trimOf_append hvalue hclosing, trimOf_word k.noSpace]
    rfl

theorem good_iff (k : KeyWord d body) : k.Good ↔ IsHttp k.entry ∧ Stands d body k.entry := by
  constructor
  · rintro ⟨hhttp, hfills | hstands⟩
    · exact ⟨hhttp, stands_of_fills k hhttp hfills⟩
    · exact ⟨hhttp, hstands⟩
  · rintro ⟨hhttp, hstands⟩
    exact ⟨hhttp, Or.inr hstands⟩

theorem word_eq (k : KeyWord d body) :
    (k.word ++ k.after).takeWhile (fun c => !d.space c) = k.word := by
  rw [List.takeWhile_append_of_pos fun c hc => by rw [k.noSpace c hc]; rfl]
  cases hafter : k.after with
  | nil => rw [List.takeWhile_nil, List.append_nil]
  | cons c after =>
    have hc := k.ends c (by rw [hafter]; rfl)
    rw [List.takeWhile_cons, hc]
    exact List.append_nil _

theorem exists_keyWord {t : List Char} (h : d.textMatch true body = some t) :
    Nonempty (KeyWord d body) := by
  obtain ⟨⟨before, hsplit⟩, -, -⟩ := textMatch_suffix h
  have ht : t.takeWhile (fun c => !d.space c) ++ t.dropWhile (fun c => !d.space c) = t :=
    List.takeWhile_append_dropWhile
  refine ⟨⟨before, t.takeWhile fun c => !d.space c, t.dropWhile fun c => !d.space c,
    ?_, ?_, ?_, ?_⟩⟩
  · rw [ht, hsplit]
  · rw [ht, h]
  · intro c hc
    simpa using List.mem_takeWhile_imp hc
  · intro c hc
    simpa using head_dropWhile hc

theorem firstUrl_word (k : KeyWord d body) (split : List Char → List (List Char)) :
    d.firstUrl split body = some k.entry := by
  have hmatch : d.plsMatch true body = some k.word := by
    rw [plsMatch_eq, k.found, Option.map_some, word_eq k]
  simp only [Dialect.firstUrl, hmatch, KeyWord.entry]

theorem firstUrl_lines (h : d.textMatch true body = none) {split : List Char → List (List Char)}
    (hsplit : ∀ s, (split s).map (trimOf d.trims) = (s.splitOn '\n').map (trimOf d.trims)) :
    d.firstUrl split body = (body.splitOn '\n').findSome? d.urlLine := by
  have hmatch : d.plsMatch true body = none := by rw [plsMatch_eq, h, Option.map_none]
  have hlines : ∀ ls : List (List Char),
      ls.findSome? d.urlLine = (ls.map (trimOf d.trims)).findSome? d.urlOf := by
    intro ls
    rw [List.findSome?_map]
    rfl
  simp only [Dialect.firstUrl, hmatch]
  rw [hlines, hlines, hsplit]

theorem find_url {ls : List (List Char)} {line : List Char}
    (h : line ∈ ls.find? fun line => (d.urlLine line).isSome) :
    ∃ v, d.urlLine line = some v := by
  have hsome : (d.urlLine line).isSome = true :=
    List.find?_some (p := fun line => (d.urlLine line).isSome) h
  exact Option.isSome_iff_exists.1 hsome

theorem findSome_find {α β : Type} (f : α → Option β) (l : List α) :
    l.findSome? f = (l.find? fun a => (f a).isSome).bind f := by
  induction l with
  | nil => rfl
  | cons a l ih =>
    rw [List.findSome?_cons, List.find?_cons]
    cases h : f a with
    | none => exact ih
    | some v => exact h.symm

end Results

/-- Without a key, the first line that matches `^https?:\/\/` is a URL: there are expressions for
which other letters match too. -/
def SchemeKept (d : Dialect) (body : List Char) : Prop :=
  d.textMatch true body = none →
    ∀ line ∈ (body.splitOn '\n').find? fun line => (d.urlLine line).isSome,
      IsHttp (trimOf d.trims line)

theorem unwraps_iff {d : Dialect} {split : List Char → List (List Char)}
    (hsplit : ∀ s, (split s).map (trimOf d.trims) = (s.splitOn '\n').map (trimOf d.trims))
    (body : List Char) :
    Unwraps d (d.firstUrl split) body ↔ SchemeKept d body ∧ ∀ k : KeyWord d body, k.Good := by
  cases h : d.textMatch true body with
  | none =>
    have hno : KeyWord d body → False := fun k => by
      have hfound := k.found
      rw [h] at hfound
      cases hfound
    have hfirst := firstUrl_lines h hsplit
    constructor
    · rintro ⟨hresult, -⟩
      refine ⟨fun _ line hline => ?_, fun k => (hno k).elim⟩
      obtain ⟨v, hv⟩ := find_url hline
      have hurl : d.firstUrl split body = some v := by
        rw [hfirst, findSome_find, hline, Option.bind_some, hv]
      rw [(urlOf_eq_some.1 hv).1]
      exact (hresult v hurl).1
    · rintro ⟨hscheme, -⟩
      constructor
      · intro url hurl
        rw [hfirst, findSome_find] at hurl
        obtain ⟨line, hfind, hline⟩ := Option.bind_eq_some_iff.1 hurl
        obtain ⟨htrim, -, hcomment, -⟩ := urlOf_eq_some.1 hline
        have hhttp := hscheme h line hfind
        rw [htrim] at hhttp
        exact ⟨hhttp, Or.inr ⟨line, List.mem_of_find?_eq_some hfind, htrim, hcomment⟩⟩
      · rintro ⟨url, hhttp, hvalue | ⟨line, hmem, htrim, hcomment⟩⟩
        · have hfound := textMatch_of_value hhttp hvalue
          rw [h] at hfound
          cases hfound
        · have hline : d.urlLine line = some url :=
            urlOf_eq_some.2 ⟨htrim, (http_head hhttp).1, hcomment, d.scheme_of_http url hhttp⟩
          rw [hfirst, List.findSome?_isSome_iff]
          exact ⟨line, hmem, by rw [hline]; rfl⟩
  | some t =>
    obtain ⟨k⟩ := exists_keyWord h
    constructor
    · rintro ⟨hresult, -⟩
      refine ⟨fun hnone => ?_, fun k' => (good_iff k').2 (hresult _ (firstUrl_word k' split))⟩
      rw [h] at hnone
      cases hnone
    · rintro ⟨-, hgood⟩
      rw [Unwraps, firstUrl_word k]
      refine ⟨fun url hurl => ?_, fun _ => rfl⟩
      obtain rfl := Option.some.inj hurl
      exact (good_iff k).1 (hgood k)

theorem javaScript_schemeKept (body : List Char) : SchemeKept javaScript body := by
  intro _ line hline
  obtain ⟨v, hv⟩ := find_url hline
  obtain ⟨htrim, -, -, hscheme⟩ := urlOf_eq_some.1 hv
  rw [htrim]
  exact hscheme

theorem javaScript_unwraps_iff (body : List Char) :
    Unwraps javaScript (javaScript.firstUrl splitLines) body ↔
      ∀ k : KeyWord javaScript body, k.Good := by
  have hreturn : javaScript.trims '\r' = true := by decide
  rw [unwraps_iff (splitLines_trimmed hreturn) body]
  exact and_iff_right (javaScript_schemeKept body)

/-! ### The runtime of the Gleam copy -/

/-- The long s, which is an s for expressions that leave the case aside. -/
def unlongS (c : Char) : Char := if c.toNat = 0x17F then 's' else c

theorem skipWord_unlongS {word s t : List Char} (hword : ∀ c ∈ word, c.toNat < 128)
    (h : skipWord word s = some t) : skipWord word (s.map unlongS) = some (t.map unlongS) := by
  obtain ⟨x, rfl, hx⟩ := skipWord_eq_some.1 h
  have hkept : x.map unlongS = x := by
    refine (List.map_congr_left fun c hc => ?_).trans (List.map_id x)
    have hlower := hword c.toLower (hx ▸ List.mem_map_of_mem hc)
    have hascii := lt_of_toLower_lt hlower
    exact if_neg (by omega)
  refine skipWord_eq_some.2 ⟨x, ?_, hx⟩
  rw [List.map_append, hkept]

theorem http_unlongS {s : List Char} (h : (afterScheme s).isSome = true) :
    (afterScheme (s.map unlongS)).isSome = true := by
  obtain ⟨t, ht⟩ := Option.isSome_iff_exists.1 h
  rw [afterScheme, Option.isSome_or, Bool.or_eq_true]
  rcases Option.or_eq_some_iff.1 ht with ht | ⟨-, ht⟩
  · rw [skipWord_unlongS (forall_letters (by decide)) ht]
    exact Or.inl rfl
  · rw [skipWord_unlongS (forall_letters (by decide)) ht]
    exact Or.inr rfl

/-- Unicode properties decide on white space; `digit` is what they call a decimal digit. -/
def erlang (digit : Char → Bool) : Dialect where
  space c := c.toNat ∈ [0x9, 0xA, 0xB, 0xC, 0xD, 0x20, 0x85, 0xA0, 0x1680, 0x180E, 0x2000, 0x2001,
    0x2002, 0x2003, 0x2004, 0x2005, 0x2006, 0x2007, 0x2008, 0x2009, 0x200A, 0x2028, 0x2029, 0x202F,
    0x205F, 0x3000]
  digit := digit
  lineEnd c := c = '\n'
  trims c := c.toNat ∈ [0x9, 0xA, 0xB, 0xC, 0xD, 0x20, 0x85, 0x200E, 0x200F, 0x2028, 0x2029]
  scheme s := (afterScheme (s.map unlongS)).isSome
  newline_space := by decide
  newline_lineEnd := by decide
  scheme_of_http _ h := http_unlongS h

def emptyFile : List Char := "File1=\nTitle1=A".toList

end Atradio.Proxy
