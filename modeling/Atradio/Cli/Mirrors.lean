import Atradio.Cli.Resolve
import Atradio.Web.Resolve

/-! # The mirrors of `resolve.ts` and `stream.ts` in `resolve.rs` -/

namespace Atradio.Cli
open Atradio.Lib Atradio.Proxy Atradio.Web

/-! ### HLS -/

/-- `.m3u8` in any case. -/
def IsM3u8 (mark : List Char) : Prop := mark.map Char.toLower = ".m3u8".toList

def EndsInM3u8 (s : List Char) : Prop := ∃ x mark, s = x ++ mark ∧ IsM3u8 mark

/-- It stands before a question mark or at the end. -/
def HasM3u8 (s : List Char) : Prop :=
  ∃ x mark rest, s = x ++ (mark ++ rest) ∧ IsM3u8 mark ∧ ∀ c ∈ rest.head?, c = '?'

theorem hlsMark_iff (s : List Char) :
    hlsMark s = true ↔ ∃ mark rest, s = mark ++ rest ∧ IsM3u8 mark ∧ ∀ c ∈ rest.head?, c = '?' := by
  unfold hlsMark
  constructor
  · intro h
    split at h
    · cases h
    · rename_i hskip
      obtain ⟨mark, rfl, hmark⟩ := skipWord_eq_some.1 hskip
      exact ⟨mark, [], rfl, hmark, by simp⟩
    · rename_i c rest hskip
      obtain ⟨mark, rfl, hmark⟩ := skipWord_eq_some.1 hskip
      exact ⟨mark, c :: rest, rfl, hmark, by simpa using h⟩
  · rintro ⟨mark, rest, hs, hmark, hrest⟩
    rw [skipWord_eq_some.2 ⟨mark, hs, hmark⟩]
    cases rest with
    | nil => rfl
    | cons c rest => simpa using hrest

theorem web_isHlsUrl_iff (url : List Char) : Web.isHlsUrl url = true ↔ HasM3u8 url := by
  rw [Web.isHlsUrl, List.any_eq_true]
  constructor
  · rintro ⟨s, hs, hmark⟩
    obtain ⟨x, rfl⟩ := (List.mem_tails _ _).1 hs
    obtain ⟨mark, rest, rfl, hm3u8, hrest⟩ := (hlsMark_iff s).1 hmark
    exact ⟨x, mark, rest, rfl, hm3u8, hrest⟩
  · rintro ⟨x, mark, rest, rfl, hm3u8, hrest⟩
    exact ⟨mark ++ rest, (List.mem_tails _ _).2 ⟨x, rfl⟩,
      (hlsMark_iff _).2 ⟨mark, rest, rfl, hm3u8, hrest⟩⟩

theorem lower_ends (L : Lowercase) {s x mark : List Char} (hs : s = x ++ mark)
    (hmark : IsM3u8 mark) :
    ".m3u8".toList <:+ L.lower s := by
  have hascii := ascii_of_lowered (forall_letters (by decide)) hmark
  rw [hs, Lowercase.lower, apply_append, apply_ascii L hascii, hmark]
  exact List.suffix_append _ _

theorem cli_isHlsUrl_iff (L : Lowercase) (url : List Char) :
    isHlsUrl L url = true ↔ EndsInM3u8 (url.takeWhile (· ≠ '?')) := by
  rw [isHlsUrl, List.isSuffixOf_iff_suffix]
  constructor
  · intro h
    exact ends_of_suffix L (forall_letters (by decide)) (by decide) h
  · rintro ⟨x, mark, hs, hmark⟩
    exact lower_ends L hs hmark

theorem hasM3u8_iff (url : List Char) :
    HasM3u8 url ↔ EndsInM3u8 (url.takeWhile (· ≠ '?')) ∨ HasM3u8 (url.dropWhile (· ≠ '?')) := by
  have hurl : url.takeWhile (· ≠ '?') ++ url.dropWhile (· ≠ '?') = url :=
    List.takeWhile_append_dropWhile
  have hpath : '?' ∉ url.takeWhile (· ≠ '?') := fun h => by
    simpa using List.mem_takeWhile_imp h
  have hquery : ∀ c ∈ (url.dropWhile (· ≠ '?')).head?, c = '?' := by
    intro c hc
    simpa using head_dropWhile hc
  generalize url.takeWhile (· ≠ '?') = path at hurl hpath
  generalize url.dropWhile (· ≠ '?') = query at hurl hquery
  subst hurl
  constructor
  · rintro ⟨x, mark, rest, hs, hmark, hrest⟩
    have hnot : '?' ∉ mark := by
      intro h
      have hmem : Char.toLower '?' ∈ ".m3u8".toList := hmark ▸ List.mem_map_of_mem h
      exact absurd hmem (by decide)
    rcases List.append_eq_append_iff.1 hs with ⟨y, rfl, hq⟩ | ⟨y, rfl, hm⟩
    · exact Or.inr ⟨y, mark, rest, hq, hmark, hrest⟩
    refine Or.inl ?_
    rcases List.append_eq_append_iff.1 hm with ⟨z, rfl, rfl⟩ | ⟨z, rfl, rfl⟩
    · cases z with
      | nil => exact ⟨x, mark, by rw [List.append_nil], hmark⟩
      | cons c z =>
        obtain rfl : c = '?' := hrest c rfl
        exact (hpath (by simp)).elim
    · cases z with
      | nil => exact ⟨x, y, rfl, List.append_nil y ▸ hmark⟩
      | cons c z =>
        obtain rfl : c = '?' := hquery c rfl
        exact (hnot (by simp)).elim
  · rintro (⟨x, mark, rfl, hmark⟩ | ⟨x, mark, rest, rfl, hmark, hrest⟩)
    · exact ⟨x, mark, query, List.append_assoc .., hmark, hquery⟩
    · exact ⟨path ++ x, mark, rest, (List.append_assoc ..).symm, hmark, hrest⟩

/-- The clients differ where the mark is in the query alone. -/
theorem isHlsUrl_alike_iff (L : Lowercase) (url : List Char) :
    isHlsUrl L url = Web.isHlsUrl url ↔
      (HasM3u8 (url.dropWhile (· ≠ '?')) → EndsInM3u8 (url.takeWhile (· ≠ '?'))) := by
  rw [Bool.eq_iff_iff, cli_isHlsUrl_iff, web_isHlsUrl_iff, hasM3u8_iff]
  constructor
  · intro h hquery
    exact h.2 (Or.inr hquery)
  · intro h
    refine ⟨Or.inl, ?_⟩
    rintro (hpath | hquery)
    · exact hpath
    · exact h hquery

/-! ### Legacy links -/

def IsScheme (scheme : List Char) : Prop :=
  scheme.map Char.toLower = "https://".toList ∨ scheme.map Char.toLower = "http://".toList

/-- A legacy link; nothing is asked of the host but that it ends at the marker. -/
structure Legacy (url : List Char) where
  scheme : List Char
  host : List Char
  marker : List Char
  rest : List Char
  split : url = scheme ++ (host ++ (marker ++ rest))
  isScheme : IsScheme scheme
  noSlash : '/' ∉ host
  isMarker : marker.map Char.toLower = MARKER

/-- The host in lower case, which ends where the path begins. -/
def Legacy.lowerHost (L : Lowercase) {url : List Char} (l : Legacy url) : List Char :=
  L.apply l.scheme.reverse l.host (l.marker ++ l.rest)

theorem eq_slash_of_toLower {c : Char} (h : c.toLower = '/') : c = '/' := by
  have hc : c.toNat < 128 := lt_of_toLower_lt (h ▸ by decide)
  exact char_lt_cases (P := fun c => c.toLower = '/' → c = '/') (by decide) hc h

theorem marker_head {marker : List Char} (h : marker.map Char.toLower = MARKER) :
    ∃ m, marker = '/' :: m := by
  cases marker with
  | nil => cases h
  | cons c m => exact ⟨m, by rw [eq_slash_of_toLower (List.cons.inj h).1]⟩

section Schemes

variable {scheme s : List Char}

theorem https_safe : Safe "https://".toList := ⟨forall_letters (by decide), by decide, by decide⟩

theorem http_safe : Safe "http://".toList := ⟨forall_letters (by decide), by decide, by decide⟩

theorem marker_safe : Safe MARKER := ⟨forall_letters (by decide), by decide, by decide⟩

theorem scheme_ascii (h : IsScheme scheme) : ∀ c ∈ scheme, c.toNat < 128 := by
  rcases h with h | h
  · exact ascii_of_lowered https_safe.ascii h
  · exact ascii_of_lowered http_safe.ascii h

theorem scheme_length (h : IsScheme scheme) :
    utf8Length scheme = (scheme.map Char.toLower).length := by
  rw [utf8Length_ascii (scheme_ascii h), List.length_map]

theorem afterScheme_append (h : IsScheme scheme) (s : List Char) :
    afterScheme (scheme ++ s) = some s := by
  unfold afterScheme
  rcases h with h | h
  · rw [skipWord_eq_some.2 ⟨scheme, rfl, h⟩]
    rfl
  · have hnone : skipWord "https://".toList (scheme ++ s) = none := by
      rw [Option.eq_none_iff_forall_ne_some]
      intro rest hrest
      obtain ⟨x, hx, hlower⟩ := skipWord_eq_some.1 hrest
      have hlong : scheme <+: x := by
        refine List.prefix_of_prefix_length_le (List.prefix_append scheme s)
          (hx ▸ List.prefix_append x rest) ?_
        have hlen := congrArg List.length h
        have hlen' := congrArg List.length hlower
        rw [List.length_map] at hlen hlen'
        rw [hlen, hlen']
        decide
      have hprefix := hlong.map Char.toLower
      rw [h, hlower] at hprefix
      exact absurd hprefix (by decide)
    rw [hnone, skipWord_eq_some.2 ⟨scheme, rfl, h⟩]
    rfl

theorem eq_of_afterScheme {url : List Char} (h : afterScheme url = some s) :
    ∃ scheme, url = scheme ++ s ∧ IsScheme scheme := by
  rcases Option.or_eq_some_iff.1 h with h | ⟨_, h⟩
  · obtain ⟨x, hx, hlower⟩ := skipWord_eq_some.1 h
    exact ⟨x, hx, Or.inl hlower⟩
  · obtain ⟨x, hx, hlower⟩ := skipWord_eq_some.1 h
    exact ⟨x, hx, Or.inr hlower⟩

end Schemes

section Links

variable (L : Lowercase) {url : List Char}

theorem takeWhile_slash {x y : List Char} (hx : '/' ∉ x) :
    (x ++ '/' :: y).takeWhile (· ≠ '/') = x ∧ (x ++ '/' :: y).dropWhile (· ≠ '/') = '/' :: y := by
  have hall : ∀ c ∈ x, decide (c ≠ '/') = true := by
    intro c hc
    simpa using fun h : c = '/' => hx (h ▸ hc)
  constructor
  · rw [List.takeWhile_append_of_pos hall]
    simp
  · rw [List.dropWhile_append_of_pos hall]
    simp

theorem web_legacy (l : Legacy url) :
    Proxy.rewriteLegacyTunein url = if l.host = [] then url else opmlOrigin ++ l.rest := by
  obtain ⟨m, hm⟩ := marker_head l.isMarker
  obtain ⟨htake, hdrop⟩ := takeWhile_slash (y := m ++ l.rest) l.noSlash
  have hafter := afterScheme_append l.isScheme (l.host ++ (l.marker ++ l.rest))
  rw [← l.split, hm, List.cons_append] at hafter
  have hskip : skipWord "/api/tunein".toList (l.marker ++ l.rest) = some l.rest :=
    skipWord_eq_some.2 ⟨l.marker, rfl, l.isMarker⟩
  rw [hm, List.cons_append] at hskip
  rw [Proxy.rewriteLegacyTunein, legacyPath, hafter]
  simp only [Option.bind_some, htake, hdrop]
  by_cases hhost : l.host = []
  · rw [if_pos hhost, if_pos hhost]
  · rw [if_neg hhost, if_neg hhost, hskip]

theorem web_other (h : Legacy url → False) : Proxy.rewriteLegacyTunein url = url := by
  have hnone : legacyPath url = none := by
    rw [Option.eq_none_iff_forall_ne_some]
    intro rest hrest
    obtain ⟨s, hs, hpath⟩ := Option.bind_eq_some_iff.1 hrest
    obtain ⟨scheme, rfl, hscheme⟩ := eq_of_afterScheme hs
    split at hpath
    · cases hpath
    · obtain ⟨marker, hmarker, hlower⟩ := skipWord_eq_some.1 hpath
      refine h ⟨scheme, s.takeWhile (· ≠ '/'), marker, rest, ?_, hscheme, ?_, hlower⟩
      · rw [← hmarker, List.takeWhile_append_dropWhile]
      · intro hmem
        simpa using List.mem_takeWhile_imp hmem
  rw [Proxy.rewriteLegacyTunein, hnone]

/-- The scheme is found in the lower case as it is in the link. -/
theorem schemeLen_lower {scheme : List Char} (h : IsScheme scheme) (s : List Char) :
    L.lower (scheme ++ s) = scheme.map Char.toLower ++ L.apply scheme.reverse s [] ∧
      schemeLen (L.lower (scheme ++ s)) = some (utf8Length (scheme.map Char.toLower)) := by
  have hlower : L.lower (scheme ++ s) =
      scheme.map Char.toLower ++ L.apply scheme.reverse s [] := by
    rw [Lowercase.lower, apply_append, apply_ascii L (scheme_ascii h), List.append_nil]
  refine ⟨hlower, ?_⟩
  rw [hlower]
  rcases h with h | h
  · rw [h]
    rfl
  · rw [h]
    rfl

theorem isScheme_of_schemeLen {n : ℕ} (h : schemeLen (L.lower url) = some n) :
    ∃ scheme s, url = scheme ++ s ∧ IsScheme scheme := by
  unfold schemeLen at h
  split at h
  · rename_i hhttps
    obtain ⟨scheme, s, hs, hlower⟩ := starts_of_prefix L https_safe
      (List.isPrefixOf_iff_prefix.1 hhttps)
    exact ⟨scheme, s, hs, Or.inl hlower⟩
  · split at h
    · rename_i hhttp
      obtain ⟨scheme, s, hs, hlower⟩ := starts_of_prefix L http_safe
        (List.isPrefixOf_iff_prefix.1 hhttp)
      exact ⟨scheme, s, hs, Or.inr hlower⟩
    · cases h

theorem slash_mem_apply {before s after : List Char} (h : '/' ∈ L.apply before s after) :
    '/' ∈ s := by
  obtain ⟨c, hc, hlower⟩ := mem_apply L h (by decide) (by decide) (by decide)
  exact eq_slash_of_toLower hlower ▸ hc

theorem cli_no_path {scheme s : List Char} (h : IsScheme scheme) (hs : '/' ∉ s) :
    rewriteLegacyTunein L (scheme ++ s) = some (scheme ++ s) := by
  obtain ⟨hlower, hlen⟩ := schemeLen_lower L h s
  have hfind : findChar '/' (L.apply scheme.reverse s []) = none :=
    if_neg fun hmem => hs (slash_mem_apply L hmem)
  rw [rewriteLegacyTunein, hlen]
  dsimp only
  rw [hlower, sliceFrom_append, Option.bind_some, hfind]

theorem cli_path {scheme host p : List Char} (h : IsScheme scheme) (hhost : '/' ∉ host) :
    rewriteLegacyTunein L (scheme ++ (host ++ '/' :: p)) =
      if MARKER.isPrefixOf (L.apply (host.reverse ++ scheme.reverse) ('/' :: p) []) then
        (sliceFrom (scheme ++ (host ++ '/' :: p)) (utf8Length scheme +
          utf8Length (L.apply scheme.reverse host ('/' :: p)) + utf8Length MARKER)).map
          (opmlOrigin ++ ·)
      else some (scheme ++ (host ++ '/' :: p)) := by
  obtain ⟨hlower, hlen⟩ := schemeLen_lower L h (host ++ '/' :: p)
  have hscheme : utf8Length scheme = utf8Length (scheme.map Char.toLower) := by
    rw [scheme_length h, utf8Length_ascii]
    rcases h with h | h
    · rw [h]
      exact https_safe.ascii
    · rw [h]
      exact http_safe.ascii
  have hslash : ∃ t, L.apply (host.reverse ++ scheme.reverse) ('/' :: p) [] = '/' :: t :=
    ⟨_, rfl⟩
  rw [apply_append, List.append_nil] at hlower
  obtain ⟨t, ht⟩ := hslash
  have hnot : '/' ∉ L.apply scheme.reverse host ('/' :: p) :=
    fun hmem => hhost (slash_mem_apply L hmem)
  have hfind : findChar '/' (L.apply scheme.reverse host ('/' :: p) ++ '/' :: t) =
      some (utf8Length (L.apply scheme.reverse host ('/' :: p))) := by
    rw [findChar, if_pos (by simp), (takeWhile_slash hnot).1]
  rw [rewriteLegacyTunein, hlen]
  dsimp only
  rw [hlower, sliceFrom_append, Option.bind_some, ht, hfind]
  dsimp only
  rw [← utf8Length_append, ← List.append_assoc, sliceFrom_append, Option.bind_some, hscheme,
    utf8Length_append]
  rfl

theorem cli_legacy (l : Legacy url) :
    rewriteLegacyTunein L url = (sliceFrom url (utf8Length l.scheme + utf8Length (l.lowerHost L) +
      utf8Length MARKER)).map (opmlOrigin ++ ·) := by
  obtain ⟨m, hm⟩ := marker_head l.isMarker
  have hurl : url = l.scheme ++ (l.host ++ '/' :: (m ++ l.rest)) := by
    rw [← List.cons_append, ← hm]
    exact l.split
  have hstarts : MARKER.isPrefixOf
      (L.apply (l.host.reverse ++ l.scheme.reverse) ('/' :: (m ++ l.rest)) []) = true := by
    rw [← List.cons_append, ← hm, apply_append,
      apply_ascii L (ascii_of_lowered marker_safe.ascii l.isMarker), l.isMarker,
      List.isPrefixOf_iff_prefix]
    exact List.prefix_append _ _
  have hpath := cli_path L l.isScheme l.noSlash (p := m ++ l.rest)
  rw [if_pos hstarts, ← hurl, ← List.cons_append, ← hm] at hpath
  exact hpath

theorem cli_other (h : Legacy url → False) : rewriteLegacyTunein L url = some url := by
  cases hlen : schemeLen (L.lower url) with
  | none =>
    rw [rewriteLegacyTunein, hlen]
  | some n =>
    obtain ⟨scheme, s, rfl, hscheme⟩ := isScheme_of_schemeLen L hlen
    by_cases hslash : '/' ∈ s
    · obtain ⟨host, p, rfl, hhost⟩ := List.eq_append_cons_of_mem hslash
      rw [cli_path L hscheme hhost, if_neg]
      intro hmarker
      obtain ⟨marker, rest, hp, hlower⟩ := starts_of_prefix L marker_safe
        (List.isPrefixOf_iff_prefix.1 hmarker)
      exact h ⟨scheme, host, marker, rest, by rw [hp], hscheme, hhost, hlower⟩
    · exact cli_no_path L hscheme hslash

/-- A link without a host is not one into the origin of the rewriting. -/
theorem not_origin (l : Legacy url) (h : l.host = []) (r : List Char) : opmlOrigin ++ r ≠ url := by
  intro hr
  obtain ⟨m, hm⟩ := marker_head l.isMarker
  have hurl : opmlOrigin ++ r = l.scheme ++ '/' :: (m ++ l.rest) := by
    rw [hr, ← List.cons_append, ← hm, ← List.nil_append (l.marker ++ l.rest), ← h]
    exact l.split
  have hlen : l.scheme.length = (l.scheme.map Char.toLower).length := (List.length_map _).symm
  have hget := congrArg (fun s => s[l.scheme.length]?) hurl
  have hstart := congrArg (fun s => s.take l.scheme.length) hurl
  simp only [List.getElem?_append_right (Nat.le_refl _), Nat.sub_self, List.getElem?_cons_zero,
    List.take_left] at hget hstart
  rcases l.isScheme with hscheme | hscheme
  · rw [hscheme] at hlen
    rw [hlen] at hget
    have hchar : (opmlOrigin ++ r)[8]? = some 'o' := rfl
    rw [show "https://".toList.length = 8 from rfl, hchar] at hget
    exact absurd (Option.some.inj hget) (by decide)
  · have hlen7 : l.scheme.length = 7 := hlen.trans (congrArg List.length hscheme)
    have htake : (opmlOrigin ++ r).take 7 = "https:/".toList := rfl
    rw [hlen7, htake] at hstart
    rw [← hstart] at hscheme
    exact absurd hscheme (by decide)

theorem rewrite_legacy_iff (l : Legacy url) :
    rewriteLegacyTunein L url = some (Proxy.rewriteLegacyTunein url) ↔
      l.host ≠ [] ∧ utf8Length (l.lowerHost L) = utf8Length l.host := by
  rw [cli_legacy L l, web_legacy l]
  by_cases hhost : l.host = []
  · rw [if_pos hhost]
    constructor
    · intro h
      obtain ⟨r, _, hr⟩ := Option.map_eq_some_iff.1 h
      exact (not_origin l hhost r hr).elim
    · rintro ⟨hne, _⟩
      exact (hne hhost).elim
  rw [if_neg hhost]
  have hsplit : url = l.scheme ++ l.host ++ l.marker ++ l.rest := by
    rw [List.append_assoc, List.append_assoc]
    exact l.split
  have hmarker : utf8Length l.marker = utf8Length MARKER := by
    rw [utf8Length_ascii (ascii_of_lowered marker_safe.ascii l.isMarker), ← List.length_map,
      l.isMarker]
    rfl
  have hslice : sliceFrom url (utf8Length l.scheme + utf8Length (l.lowerHost L) +
      utf8Length MARKER) = some l.rest ↔ utf8Length (l.lowerHost L) = utf8Length l.host := by
    have hiff := sliceFrom_iff (l.scheme ++ l.host ++ l.marker) l.rest
      (utf8Length l.scheme + utf8Length (l.lowerHost L) + utf8Length MARKER)
    rw [← hsplit, utf8Length_append, utf8Length_append, hmarker] at hiff
    rw [hiff]
    omega
  rw [Option.map_eq_some_iff]
  constructor
  · rintro ⟨r, hr, heq⟩
    rw [List.append_cancel_left heq] at hr
    exact ⟨hhost, hslice.1 hr⟩
  · rintro ⟨_, hlen⟩
    exact ⟨l.rest, hslice.2 hlen, rfl⟩

/-- The proxy's expression wants a host; the client cuts the link where its lower case says. -/
theorem rewrite_alike_iff (url : List Char) :
    rewriteLegacyTunein L url = some (Proxy.rewriteLegacyTunein url) ↔
      ∀ l : Legacy url, l.host ≠ [] ∧ utf8Length (l.lowerHost L) = utf8Length l.host := by
  constructor
  · intro h l
    exact (rewrite_legacy_iff L l).1 h
  · intro h
    by_cases hlegacy : Nonempty (Legacy url)
    · obtain ⟨l⟩ := hlegacy
      exact (rewrite_legacy_iff L l).2 (h l)
    · have hno : Legacy url → False := fun l => hlegacy ⟨l⟩
      rw [cli_other L hno, web_other hno]

end Links

end Atradio.Cli
