import Atradio.Lib.Regex
import Atradio.Lib.Text
import Atradio.Lib.Utf8Slices
import Atradio.Proxy.Icy

/-! # Titles in a metadata block (`icy.ts`, `proxy_gun_ffi.erl`)

Both parsers have the same pattern. It is run here as a backtracking engine runs it: over the
characters of the block in Latin-1 in TypeScript, over its bytes in Erlang. -/

namespace Atradio.Proxy
open Atradio.Lib Atradio.Lexicons

theorem pair_prefix_cons {α : Type} {a b c : α} {s : List α} :
    [a, b] <+: c :: s ↔ c = a ∧ s.head? = some b := by
  cases s with
  | nil => simp
  | cons d s => simp [eq_comm]

/-- The mark begins with a letter that it does not contain again. -/
theorem not_mark_before {α : Type} {a : α} {m z rest : List α} (ha : a ∉ m) (hz : ¬ a :: m <+: z)
    (hne : z ≠ []) : ¬ a :: m <+: z ++ (a :: m ++ rest) := by
  intro hmark
  rcases List.prefix_or_prefix_of_prefix hmark (List.prefix_append z _) with hin | ⟨t, ht⟩
  · exact hz hin
  rw [← ht, List.prefix_append_right_inj] at hmark
  cases t with
  | nil => exact hz ⟨[], by rw [← ht, List.append_nil, List.append_nil]⟩
  | cons c t =>
    obtain ⟨b, z, rfl⟩ := List.exists_cons_of_ne_nil hne
    rw [ht] at hmark
    have hc : c = a := (List.cons_prefix_cons.1 hmark).1
    rw [← (List.cons.inj ht).2, hc] at ha
    exact ha (List.mem_append_right z (List.mem_cons_self ..))

section Pattern

variable {α : Type} [DecidableEq α] {quote semicolon : α} {s : List α}

/-- `[^']|'(?!;)` -/
def titleLetter (quote semicolon : α) : Regex α :=
  .alt (.set (· ≠ quote)) (.seq (.set (· = quote)) (.notAhead (.set (· = semicolon))))

/-- `mark((?:[^']|'(?!;))*)'` -/
def titlePattern (mark : List α) (quote semicolon : α) : Grouped α where
  before := .word mark
  group := .star (titleLetter quote semicolon)
  after := .set (· = quote)

theorem rests_titleLetter (a : α) (s : List α) : (titleLetter quote semicolon).rests (a :: s) =
    if a = quote ∧ s.head? = some semicolon then [] else [s] := by
  by_cases ha : a = quote
  · cases s with
    | nil => simp [titleLetter, Regex.rests, ha]
    | cons b s => by_cases hb : b = semicolon <;> simp [titleLetter, Regex.rests, ha, hb]
  · simp [titleLetter, Regex.rests, ha]

/-- What the group reads of `s`. -/
def quoted (quote semicolon : α) (s : List α) : Option (List α) :=
  ((Regex.star (titleLetter quote semicolon)).rests s).findSome? fun u =>
    ((Regex.set (· = quote)).rests u).head?.map fun _ => s.take (s.length - u.length)

theorem here_titlePattern (mark s : List α) : (titlePattern mark quote semicolon).here s =
    if mark <+: s then quoted quote semicolon (s.drop mark.length) else none := by
  rw [Grouped.here, titlePattern, rests_word]
  split
  · simp [quoted]
  · rfl

theorem quoted_nil : quoted quote semicolon [] = none := by
  rw [quoted, rests_star_stop rfl]
  rfl

theorem rests_quote (a : α) (s : List α) :
    (Regex.set (· = quote)).rests (a :: s) = if a = quote then [s] else [] := by
  simp [Regex.rests]

/-- The title ends at a quote before a semicolon. If there is none, it is as long as it can be. -/
theorem quoted_cons (a : α) (s : List α) : quoted quote semicolon (a :: s) =
    if a = quote ∧ s.head? = some semicolon then some []
    else ((quoted quote semicolon s).map (a :: ·)).or (if a = quote then some [] else none) := by
  have hletter : (titleLetter quote semicolon).rests (a :: s) = _ := rests_titleLetter a s
  split
  · rename_i hend
    rw [if_pos hend] at hletter
    rw [quoted, rests_star_stop hletter, List.findSome?_singleton, rests_quote, if_pos hend.1]
    simp
  · rename_i hend
    rw [if_neg hend] at hletter
    have hlater : ∀ u ∈ (Regex.star (titleLetter quote semicolon)).rests s,
        (((Regex.set (· = quote)).rests u).head?.map fun _ =>
          (a :: s).take ((a :: s).length - u.length)) =
        (((Regex.set (· = quote)).rests u).head?.map fun _ => s.take (s.length - u.length)).map
          (a :: ·) := by
      intro u hu
      have hle := length_le_of_rounds hu
      have hlength : (a :: s).length - u.length = s.length - u.length + 1 := by
        rw [List.length_cons]
        omega
      rw [hlength, List.take_succ_cons, Option.map_map]
      rfl
    rw [quoted, rests_star_step hletter, List.findSome?_append, findSome_congr hlater,
      List.findSome?_singleton, rests_quote]
    refine congrArg₂ Option.or List.map_findSome?.symm ?_
    split <;> simp

/-! ### What it captures in any text -/

theorem upToLast_cons (a : α) (s : List α) : upToLast quote (a :: s) =
    ((upToLast quote s).map (a :: ·)).or (if a = quote then some [] else none) := by
  rw [upToLast, upToLast, List.reverse_cons, List.dropWhile_append]
  cases hs : s.reverse.dropWhile (· ≠ quote) with
  | nil => by_cases ha : a = quote <;> simp [ha]
  | cons b before => simp

theorem quoted_eq (s : List α) : quoted quote semicolon s =
    match cut [quote, semicolon] s with
    | some (title, _) => some title
    | none => upToLast quote s := by
  induction s with
  | nil =>
    rw [quoted_nil]
    rfl
  | cons a s ih =>
    rw [quoted_cons, cut]
    by_cases hend : a = quote ∧ s.head? = some semicolon
    · rw [if_pos hend, if_pos (pair_prefix_cons.2 hend)]
    · rw [if_neg hend, if_neg (mt pair_prefix_cons.1 hend), ih]
      cases cut [quote, semicolon] s with
      | none => exact (upToLast_cons a s).symm
      | some parts => rfl

theorem quote_of_quoted_eq_none (h : quoted quote semicolon s = none) : quote ∉ s := by
  induction s with
  | nil => exact List.not_mem_nil
  | cons a s ih =>
    rw [quoted_cons] at h
    split at h
    · cases h
    · obtain ⟨hlater, ha⟩ := Option.or_eq_none_iff.1 h
      have hne : a ≠ quote := by
        intro heq
        rw [if_pos heq] at ha
        cases ha
      intro hmem
      rcases List.mem_cons.1 hmem with heq | hmem
      · exact hne heq.symm
      · exact ih (Option.map_eq_none_iff.1 hlater) hmem

/-- Behind a mark with no quote after it there is no other mark. -/
theorem cut_of_no_quote {m rest : List α} {a : α} (hs : a :: s = m ++ [quote] ++ rest)
    (h : quote ∉ rest) : cut (m ++ [quote]) s = none := by
  cases hcut : cut (m ++ [quote]) s with
  | none => rfl
  | some parts =>
    obtain ⟨x, y⟩ := parts
    have hlater : m ++ [quote] ++ rest = (a :: x) ++ (m ++ [quote]) ++ y := by
      rw [← hs, cut_eq_some hcut]
      simp
    rcases List.append_eq_append_iff.1 hlater with ⟨t, ht, hrest⟩ | ⟨t, ht, -⟩
    · have hlast : quote ∈ t := by
        have hne : t ≠ [] := by
          rintro rfl
          have hlength := congrArg List.length ht
          simp only [List.length_append, List.length_cons, List.length_nil] at hlength
          omega
        have hend : (a :: x ++ (m ++ [quote])).getLast? = some quote := by
          rw [← List.append_assoc, List.getLast?_concat]
        rw [ht, List.getLast?_append_of_ne_nil _ hne] at hend
        exact List.mem_of_getLast? hend
      exact (h (hrest ▸ List.mem_append_left y hlast)).elim
    · have hlength := congrArg List.length ht
      simp only [List.length_append, List.length_cons, List.length_nil] at hlength
      omega

/-- `matchTitle` is what the group of the pattern captures. -/
theorem exec_eq_matchTitle (m s : List α) : (titlePattern (m ++ [quote]) quote semicolon).exec s =
    matchTitle (m ++ [quote]) quote semicolon s := by
  induction s with
  | nil =>
    rw [matchTitle, cut, if_neg (by simp)]
    simp [Grouped.exec, here_titlePattern]
  | cons a s ih =>
    rw [Grouped.exec_cons, here_titlePattern, matchTitle, cut]
    by_cases hprefix : m ++ [quote] <+: a :: s
    · obtain ⟨rest, hrest⟩ := hprefix
      rw [if_pos ⟨rest, hrest⟩, if_pos ⟨rest, hrest⟩, ← hrest, List.drop_left]
      refine Eq.trans ?_ (quoted_eq rest)
      cases hquoted : quoted quote semicolon rest with
      | some title => rfl
      | none =>
        have hcut := cut_of_no_quote hrest.symm (quote_of_quoted_eq_none hquoted)
        rw [Option.none_or, ih, matchTitle, hcut]
    · rw [if_neg hprefix, if_neg hprefix, Option.none_or, ih, matchTitle]
      cases cut (m ++ [quote]) s with
      | none => rfl
      | some parts => rfl

/-! ### A title between its mark and its end -/

theorem quoted_title (hquote : quote ≠ semicolon) {title : List α}
    (h : ¬ [quote, semicolon] <:+: title) (rest : List α) :
    quoted quote semicolon (title ++ quote :: semicolon :: rest) = some title := by
  induction title with
  | nil => rw [List.nil_append, quoted_cons, if_pos ⟨rfl, rfl⟩]
  | cons a title ih =>
    have hgoes : ¬ (a = quote ∧
        (title ++ quote :: semicolon :: rest).head? = some semicolon) := by
      rintro ⟨rfl, hhead⟩
      cases title with
      | nil => exact hquote (Option.some.inj hhead)
      | cons b title =>
        rw [List.cons_append, List.head?_cons, Option.some.injEq] at hhead
        exact h ⟨[], title, by rw [hhead]; rfl⟩
    have htail : ¬ [quote, semicolon] <:+: title := fun hin =>
      h (hin.trans (List.suffix_cons a title).isInfix)
    rw [List.cons_append, quoted_cons, if_neg hgoes, ih htail]
    rfl

/-- The pattern captures the title, whatever follows it. -/
theorem exec_title {a : α} {m front title : List α} (hquote : quote ≠ semicolon) (hne : a ≠ quote)
    (ha : a ∉ m) (hfront : ¬ a :: m <:+: front) (htitle : ¬ [quote, semicolon] <:+: title)
    (rest : List α) : (titlePattern (a :: m ++ [quote]) quote semicolon).exec
      (front ++ (a :: m ++ [quote] ++ (title ++ quote :: semicolon :: rest))) = some title := by
  have ha' : a ∉ m ++ [quote] := by simp [ha, hne]
  rw [Grouped.exec_append]
  · refine Grouped.exec_of_here ?_
    rw [here_titlePattern, if_pos (List.prefix_append ..), List.drop_left]
    exact quoted_title hquote htitle rest
  · intro y z hfrontz hz
    have hkey : ¬ a :: (m ++ [quote]) <+: z := by
      intro hin
      refine hfront (((List.prefix_append (a :: m) [quote]).trans hin).isInfix.trans ?_)
      exact hfrontz ▸ (List.suffix_append y z).isInfix
    exact (here_titlePattern ..).trans (if_neg (not_mark_before ha' hkey hz))

end Pattern
/-! ### The two parsers -/

theorem parseStreamTitle_eq (metadata : List UInt8) : parseStreamTitle metadata =
    ((titlePattern "StreamTitle='".toList (Char.ofNat 39) ';').exec (latin1 metadata)).bind
      fun title => orUndefined (trim (String.ofList title)) := by
  have hmark : "StreamTitle='".toList = "StreamTitle=".toList ++ [Char.ofNat 39] := rfl
  rw [parseStreamTitle, hmark, exec_eq_matchTitle]
  cases matchTitle ("StreamTitle=".toList ++ [Char.ofNat 39]) _ _ (latin1 metadata) with
  | none => rfl
  | some title => rw [Option.bind_some]

theorem parseTitle_eq (stringTrim : List UInt8 → List UInt8) (metadata : List UInt8) :
    parseTitle stringTrim metadata =
      ((titlePattern (bytes "StreamTitle='") 39 59).exec metadata).bind
        fun title => if stringTrim title = [] then none else some (stringTrim title) := by
  have hmark : bytes "StreamTitle='" = bytes "StreamTitle=" ++ [39] := by decide
  rw [parseTitle, hmark, exec_eq_matchTitle]
  cases matchTitle (bytes "StreamTitle=" ++ [39]) _ _ metadata <;> rfl

theorem latin1_injective : Function.Injective latin1 := by
  refine List.map_injective_iff.2 fun a b h => ?_
  have hnat (c : UInt8) : (Char.ofNat c.toNat).toNat = c.toNat := by
    have hc := c.toNat_lt
    rw [Char.ofNat, dif_pos (Or.inl (by omega))]
    rfl
  have hab := congrArg Char.toNat h
  rw [hnat, hnat] at hab
  exact UInt8.toNat_inj.1 hab

theorem infix_of_latin1 {w s : List UInt8} (h : latin1 w <:+: latin1 s) : w <:+: s := by
  obtain ⟨l, hl, heq⟩ := List.infix_map_iff.1 h
  rwa [latin1_injective heq]

/-- A block with a title, what precedes it and what follows. -/
def titled (front title rest : List UInt8) : List UInt8 :=
  front ++ (bytes "StreamTitle='" ++ (title ++ (bytes "';" ++ rest)))

theorem parseStreamTitle_titled {front title : List UInt8}
    (hfront : ¬ bytes "StreamTitle=" <:+: front) (htitle : ¬ bytes "';" <:+: title)
    (rest : List UInt8) : parseStreamTitle (titled front title rest) =
      orUndefined (trim (String.ofList (latin1 title))) := by
  have hexec : (titlePattern "StreamTitle='".toList (Char.ofNat 39) ';').exec
      (latin1 (titled front title rest)) = some (latin1 title) := by
    have hsplit : latin1 (titled front title rest) = latin1 front ++
        ("StreamTitle='".toList ++ (latin1 title ++ Char.ofNat 39 :: ';' :: latin1 rest)) := by
      have hmark : latin1 (bytes "StreamTitle='") = "StreamTitle='".toList := by decide
      have hend : latin1 (bytes "';") = [Char.ofNat 39, ';'] := by decide
      rw [titled, latin1_append, latin1_append, latin1_append, latin1_append, hmark, hend,
        List.cons_append, List.cons_append, List.nil_append]
    rw [hsplit]
    exact exec_title (a := 'S') (m := "treamTitle=".toList) (by decide) (by decide) (by decide)
      (fun h => hfront (infix_of_latin1 h)) (fun h => htitle (infix_of_latin1 h)) _
  rw [parseStreamTitle_eq, hexec, Option.bind_some]

/-- `string:trim` takes the white space at both ends off the title, which is in UTF-8. -/
def Trims (stringTrim : List UInt8 → List UInt8) (space : Char → Bool) (title : List Char) : Prop :=
  stringTrim (utf8 (title.map Char.toNat)) = utf8 ((trimOf space title).map Char.toNat)

theorem toNat_lt (c : Char) : c.toNat < 0x110000 := by
  rcases toNat_ranges c with h | h <;> omega

theorem parseTitle_titled {stringTrim : List UInt8 → List UInt8} {space : Char → Bool}
    {front : List UInt8} {title : List Char} (hfront : ¬ bytes "StreamTitle=" <:+: front)
    (htitle : ¬ "';".toList <:+: title) (htrim : Trims stringTrim space title) (rest : List UInt8) :
    parseTitle stringTrim (titled front (utf8 (title.map Char.toNat)) rest) =
      if trimOf space title = [] then none
      else some (utf8 ((trimOf space title).map Char.toNat)) := by
  have hbytes : ¬ [39, 59] <:+: utf8 (title.map Char.toNat) := by
    intro h
    have hscalar : ∀ c ∈ title.map Char.toNat, c < 0x110000 := by
      intro c hc
      obtain ⟨d, -, rfl⟩ := List.mem_map.1 hc
      exact toNat_lt d
    have hinfix := infix_of_utf8 (w := [39, 59]) (by decide) hscalar h
    obtain ⟨l, hl, heq⟩ := List.infix_map_iff.1 hinfix
    have hword : "';".toList = l :=
      List.map_injective_iff.2 (fun _ _ => Char.toNat_inj.1) (heq : "';".toList.map Char.toNat = _)
    exact htitle (hword ▸ hl)
  have hexec : (titlePattern (bytes "StreamTitle='") 39 59).exec
      (titled front (utf8 (title.map Char.toNat)) rest) = some (utf8 (title.map Char.toNat)) :=
    exec_title (a := 83) (m := bytes "treamTitle=") (by decide) (by decide) (by decide) hfront
      hbytes rest
  rw [parseTitle_eq, hexec, Option.bind_some, htrim]
  refine if_congr ⟨fun h => ?_, fun h => ?_⟩ rfl rfl
  · exact List.map_eq_nil_iff.1 (utf8_eq_nil h)
  · rw [h]
    rfl

/-- Both parsers find the title between its mark and the first quote before a semicolon. -/
theorem titles_extracted (stringTrim : List UInt8 → List UInt8) (space : Char → Bool) :
    (∀ front title rest : List UInt8, ¬ bytes "StreamTitle=" <:+: front →
      ¬ bytes "';" <:+: title →
      parseStreamTitle (titled front title rest) =
        orUndefined (trim (String.ofList (latin1 title)))) ∧
    ∀ (front rest : List UInt8) (title : List Char), ¬ bytes "StreamTitle=" <:+: front →
      ¬ "';".toList <:+: title → Trims stringTrim space title →
      parseTitle stringTrim (titled front (utf8 (title.map Char.toNat)) rest) =
        if trimOf space title = [] then none
        else some (utf8 ((trimOf space title).map Char.toNat)) :=
  ⟨fun _ _ rest hfront htitle => parseStreamTitle_titled hfront htitle rest,
    fun _ rest _ hfront htitle htrim => parseTitle_titled hfront htitle htrim rest⟩

/-- White space of ASCII, off both ends. -/
def trimBlanks (s : List UInt8) : List UInt8 := (s.dropWhile (· ≤ 32)).rdropWhile (· ≤ 32)

/-- A title that ends in an apostrophe, with a second field and padding behind it. -/
theorem live_extracted :
    parseStreamTitle (titled [] (bytes " Rock 'n' Roll' ") (bytes "StreamTitle='b';")) =
        some "Rock 'n' Roll'" ∧
      parseTitle trimBlanks (titled [] (utf8 (" Été'n'".toList.map Char.toNat)) [0, 0]) =
        some (utf8 ("Été'n'".toList.map Char.toNat)) := by
  obtain ⟨hscript, herlang⟩ := titles_extracted trimBlanks (· = ' ')
  have hread := hscript [] (bytes " Rock 'n' Roll' ") (bytes "StreamTitle='b';") (by decide)
    (by decide)
  have htrim : trimBlanks (utf8 (" Été'n'".toList.map Char.toNat)) =
      utf8 ((trimOf (· = ' ') " Été'n'".toList).map Char.toNat) := by decide
  have hparsed := herlang [] [0, 0] " Été'n'".toList (by decide) (by decide) htrim
  refine ⟨hread.trans (by decide), hparsed.trans (by decide)⟩

/-- The title reaches whoever asked, where its block is the first one and comes in time. -/
theorem scan_titled {metaint stop : ℕ} {front title rest : List UInt8} (up : Upstream)
    (chunks : List (List UInt8)) (hfront : ¬ bytes "StreamTitle=" <:+: front)
    (htitle : ¬ bytes "';" <:+: title)
    (hfirst : FirstBlock metaint (deliveries up.decoder (up.leftover :: chunks)).flatten stop
      (titled front title rest))
    (hearly : Early (icyCap metaint) stop [] (deliveries up.decoder (up.leftover :: chunks))) :
    scan up metaint chunks = orUndefined (trim (String.ofList (latin1 title))) := by
  have hfinds : Finds parseStreamTitle metaint (icyCap metaint) []
      (deliveries up.decoder (up.leftover :: chunks)) _ :=
    search_finds _ [] [] fun _ => rfl
  rw [scan_eq_search, ← parseStreamTitle_titled hfront htitle rest]
  exact hfinds.1 stop _ hfirst hearly

end Atradio.Proxy
