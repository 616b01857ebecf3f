import Atradio.Web.Resolve

/-! # HLS, playlists and direct streams (`playlist.ts`, `resolve.ts`)

The proxy unwraps the playlists, and the web player hands HLS to its own player. Both go by an
expression that looks for an extension anywhere in the URL. -/

namespace Atradio.Proxy
open Atradio.Lib Atradio.Web

/-- `(\?|$)` -/
def endsName (s : List Char) : Bool := s.head?.all (· = '?')

def extensionAt (extensions : List (List Char)) (s : List Char) : Bool :=
  extensions.any fun extension => (skipWord extension s).any endsName

def hasExtension (extensions : List (List Char)) (url : List Char) : Bool :=
  url.tails.any (extensionAt extensions)

def playlistExtensions : List (List Char) := [".pls".toList, ".m3u".toList]

/-- `/\.(pls|m3u)(\?|$)/i` -/
def isUnwrappable (url : List Char) : Bool := hasExtension playlistExtensions url

/-- `/\.(pls|m3u|m3u8)(\?|$)/i` -/
def isPlaylist (url : List Char) : Bool :=
  hasExtension (playlistExtensions ++ [".m3u8".toList]) url

inductive Route where
  | hls
  | playlist
  | direct

def Takes (url : List Char) : Route → Prop
  | .hls => isHlsUrl url = true
  | .playlist => isUnwrappable url = true
  | .direct => isHlsUrl url = false ∧ isUnwrappable url = false

/-! ### The path of a URL -/

/-- What follows `^([^:/?#]+:)?` -/
def afterAnyScheme (url : List Char) : List Char :=
  match url.takeWhile fun c => !(c ∈ [':', '/', '?', '#']),
      url.dropWhile fun c => !(c ∈ [':', '/', '?', '#']) with
  | _ :: _, ':' :: rest => rest
  | _, _ => url

/-- The path, which stands behind the authority and before the query and the fragment. -/
def pathOf (url : List Char) : List Char :=
  match (afterAnyScheme url).takeWhile fun c => c ≠ '#' ∧ c ≠ '?' with
  | '/' :: '/' :: s => s.dropWhile (· ≠ '/')
  | s => s

def EndsIn (extensions : List (List Char)) (s : List Char) : Prop :=
  ∃ extension ∈ extensions, extension <:+ s.map Char.toLower

instance (extensions : List (List Char)) (s : List Char) : Decidable (EndsIn extensions s) :=
  inferInstanceAs (Decidable (∃ extension ∈ extensions, extension <:+ s.map Char.toLower))

structure OneWay (url : List Char) : Prop where
  hls : isHlsUrl url = true → isUnwrappable url = false
  playlist : EndsIn playlistExtensions (pathOf url) →
    isUnwrappable url = true ∧ isHlsUrl url = false
  route : ∃! r, Takes url r

/-- No piece of the URL between question marks ends as a playlist while another ends as HLS, and a
playlist with a fragment right behind its path has such a piece elsewhere. -/
structure Unmixed (url : List Char) : Prop where
  apart : ∀ p ∈ url.splitOn '?', ∀ q ∈ url.splitOn '?',
    EndsIn playlistExtensions p → ¬ EndsIn [".m3u8".toList] q
  fragment : EndsIn playlistExtensions (pathOf url) → '#' ∈ url.takeWhile (· ≠ '?') →
    ∃ p ∈ url.splitOn '?', EndsIn playlistExtensions p

/-! ### Extensions and pieces -/

theorem endsName_iff {s : List Char} : endsName s = true ↔ ∀ c ∈ s.head?, c = '?' := by
  cases s <;> simp [endsName]

section Pieces

variable {extension l r : List Char}

/-- The extension, in any case, before a question mark or at the end. -/
def HasMark (extension url : List Char) : Prop :=
  ∃ x mark rest, url = x ++ (mark ++ rest) ∧ mark.map Char.toLower = extension ∧
    ∀ c ∈ rest.head?, c = '?'

theorem hasExtension_iff {extensions : List (List Char)} {url : List Char} :
    hasExtension extensions url = true ↔ ∃ extension ∈ extensions, HasMark extension url := by
  rw [hasExtension, List.any_eq_true]
  constructor
  · rintro ⟨s, hs, hat⟩
    obtain ⟨extension, hmem, hskip⟩ := List.any_eq_true.1 hat
    obtain ⟨rest, hskip, hrest⟩ := (Option.any_eq_true ..).1 hskip
    obtain ⟨mark, rfl, hmark⟩ := skipWord_eq_some.1 hskip
    obtain ⟨x, rfl⟩ := (List.mem_tails _ _).1 hs
    exact ⟨extension, hmem, x, mark, rest, rfl, hmark, endsName_iff.1 hrest⟩
  · rintro ⟨extension, hmem, x, mark, rest, rfl, hmark, hrest⟩
    have hskip : skipWord extension (mark ++ rest) = some rest :=
      skipWord_eq_some.2 ⟨mark, rfl, hmark⟩
    refine ⟨mark ++ rest, (List.mem_tails _ _).2 ⟨x, rfl⟩, List.any_eq_true.2 ⟨extension, hmem, ?_⟩⟩
    exact (Option.any_eq_true ..).2 ⟨rest, hskip, endsName_iff.2 hrest⟩

theorem hasMark_ends (h : extension <:+ l.map Char.toLower) (hr : ∀ c ∈ r.head?, c = '?') :
    HasMark extension (l ++ r) := by
  obtain ⟨x, hx⟩ := h
  obtain ⟨y, mark, rfl, -, hmark⟩ := List.map_eq_append_iff.1 hx.symm
  exact ⟨y, mark, r, List.append_assoc .., hmark, hr⟩

theorem hasMark_last (hl : '?' ∉ l) : HasMark extension l ↔ extension <:+ l.map Char.toLower := by
  constructor
  · rintro ⟨x, mark, rest, rfl, hmark, hrest⟩
    cases rest with
    | nil =>
      rw [List.append_nil, List.map_append, hmark]
      exact List.suffix_append _ _
    | cons c rest =>
      obtain rfl := hrest c rfl
      exact absurd (by simp) hl
  · intro h
    rw [← List.append_nil l]
    exact hasMark_ends h nofun

theorem hasMark_cut (hne : extension ≠ []) (hplain : '?' ∉ extension) (hl : '?' ∉ l) :
    HasMark extension (l ++ '?' :: r) ↔
      extension <:+ l.map Char.toLower ∨ HasMark extension r := by
  constructor
  · rintro ⟨x, mark, rest, hs, hmark, hrest⟩
    have hnot : '?' ∉ mark := by
      intro hmem
      have hlower : Char.toLower '?' ∈ extension := hmark ▸ List.mem_map_of_mem hmem
      exact hplain hlower
    rcases List.append_eq_append_iff.1 hs with ⟨y, rfl, hr⟩ | ⟨y, rfl, hy⟩
    · -- the mark begins at or behind the question mark
      right
      cases y with
      | nil =>
        cases mark with
        | nil => exact absurd hmark.symm hne
        | cons c mark =>
          obtain rfl : '?' = c := (List.cons.inj hr).1
          exact absurd (List.mem_cons_self ..) hnot
      | cons c y => exact ⟨y, mark, rest, (List.cons.inj hr).2, hmark, hrest⟩
    · left
      rcases List.append_eq_append_iff.1 hy with ⟨z, rfl, rfl⟩ | ⟨z, rfl, hz⟩
      · -- it ends before the question mark, or behind it
        cases z with
        | nil =>
          rw [List.append_nil, List.map_append, hmark]
          exact List.suffix_append _ _
        | cons c z =>
          obtain rfl := hrest c rfl
          exact absurd (by simp) hl
      · cases z with
        | nil =>
          rw [List.append_nil] at hmark
          rw [List.map_append, hmark]
          exact List.suffix_append _ _
        | cons c z =>
          obtain rfl : '?' = c := (List.cons.inj hz).1
          exact absurd (by simp) hnot
  · rintro (h | ⟨x, mark, rest, rfl, hmark, hrest⟩)
    · exact hasMark_ends h (by simp)
    · refine ⟨l ++ '?' :: x, mark, rest, ?_, hmark, hrest⟩
      rw [List.append_assoc, List.cons_append]

theorem hasMark_iff (hne : extension ≠ []) (hplain : '?' ∉ extension) (url : List Char) :
    HasMark extension url ↔ ∃ p ∈ url.splitOn '?', extension <:+ p.map Char.toLower := by
  induction url using lines_induction '?' with
  | last l hl =>
    rw [hasMark_last hl, splitOn_last hl]
    simp only [List.mem_singleton, exists_eq_left]
  | line l r hl ih =>
    rw [hasMark_cut hne hplain hl, splitOn_line hl, ih]
    simp only [List.mem_cons, exists_eq_or_imp]

end Pieces

/-- The expressions look at the ends of the pieces. -/
theorem hasExtension_pieces {extensions : List (List Char)}
    (h : ∀ extension ∈ extensions, extension ≠ [] ∧ '?' ∉ extension) (url : List Char) :
    hasExtension extensions url = true ↔ ∃ p ∈ url.splitOn '?', EndsIn extensions p := by
  rw [hasExtension_iff]
  constructor
  · rintro ⟨extension, hmem, hmark⟩
    obtain ⟨p, hp, hends⟩ := (hasMark_iff (h _ hmem).1 (h _ hmem).2 url).1 hmark
    exact ⟨p, hp, extension, hmem, hends⟩
  · rintro ⟨p, hp, extension, hmem, hends⟩
    exact ⟨extension, hmem, (hasMark_iff (h _ hmem).1 (h _ hmem).2 url).2 ⟨p, hp, hends⟩⟩

theorem isUnwrappable_iff (url : List Char) :
    isUnwrappable url = true ↔ ∃ p ∈ url.splitOn '?', EndsIn playlistExtensions p :=
  hasExtension_pieces (by decide) url

theorem isHlsUrl_eq (url : List Char) : isHlsUrl url = hasExtension [".m3u8".toList] url := by
  refine congrArg (fun p => url.tails.any p) (funext fun s => ?_)
  rw [extensionAt, List.any_cons, List.any_nil, Bool.or_false, hlsMark]
  cases skipWord ".m3u8".toList s with
  | none => rfl
  | some rest => cases rest <;> rfl

theorem isHlsUrl_iff (url : List Char) :
    isHlsUrl url = true ↔ ∃ p ∈ url.splitOn '?', EndsIn [".m3u8".toList] p := by
  rw [isHlsUrl_eq]
  exact hasExtension_pieces (by decide) url

/-- A playlist of any kind is for the proxy to unwrap, or HLS. -/
theorem isPlaylist_eq (url : List Char) : isPlaylist url = (isUnwrappable url || isHlsUrl url) := by
  rw [Bool.eq_iff_iff, Bool.or_eq_true, isHlsUrl_eq, isPlaylist, isUnwrappable, hasExtension_iff,
    hasExtension_iff, hasExtension_iff]
  simp only [List.mem_append, or_and_right, exists_or]

/-! ### The path -/

theorem afterAnyScheme_split (url : List Char) :
    ∃ scheme, url = scheme ++ afterAnyScheme url ∧ '?' ∉ scheme := by
  unfold afterAnyScheme
  split
  · rename_i c scheme rest hscheme hrest
    refine ⟨url.takeWhile (fun c => !(c ∈ [':', '/', '?', '#'])) ++ [':'], ?_, ?_⟩
    · rw [List.append_assoc, List.singleton_append, ← hrest, List.takeWhile_append_dropWhile]
    · intro h
      rcases List.mem_append.1 h with h | h
      · have hnot := List.mem_takeWhile_imp h
        exact absurd hnot (by decide)
      · exact absurd h (by decide)
  · exact ⟨[], rfl, List.not_mem_nil⟩

/-- Without a fragment right behind it the path ends where the first piece does. -/
theorem pathOf_suffix {url : List Char} (h : '#' ∉ url.takeWhile (· ≠ '?')) :
    pathOf url <:+ url.takeWhile (· ≠ '?') := by
  obtain ⟨scheme, hurl, hscheme⟩ := afterAnyScheme_split url
  have hpos : ∀ c ∈ scheme, decide (c ≠ '?') = true := by
    intro c hc
    exact decide_eq_true fun heq => hscheme (heq ▸ hc)
  have htake : url.takeWhile (· ≠ '?') =
      scheme ++ (afterAnyScheme url).takeWhile (· ≠ '?') := by
    rw [← List.takeWhile_append_of_pos hpos, ← hurl]
  have hself : ((afterAnyScheme url).takeWhile (· ≠ '?')).takeWhile (· ≠ '#') =
      (afterAnyScheme url).takeWhile (· ≠ '?') := by
    refine List.takeWhile_eq_self_iff.2 fun c hc => decide_eq_true fun heq => h ?_
    rw [htake, ← heq]
    exact List.mem_append_right scheme hc
  rw [htake]
  refine List.IsSuffix.trans ?_ (List.suffix_append scheme _)
  rw [← hself, List.takeWhile_takeWhile]
  unfold pathOf
  simp only [decide_eq_true_eq]
  split
  · rename_i s hs
    rw [hs]
    exact (List.dropWhile_suffix _).trans ((List.suffix_cons _ s).trans (List.suffix_cons _ _))
  · exact List.suffix_rfl

theorem takeWhile_mem_splitOn (url : List Char) :
    url.takeWhile (· ≠ '?') ∈ url.splitOn '?' := by
  have hnot : '?' ∉ url.takeWhile (· ≠ '?') := fun h => by simpa using List.mem_takeWhile_imp h
  have hmem := mem_splitOn hnot (x := []) (y := url.dropWhile (· ≠ '?')) nofun
    fun c hc => by simpa using head_dropWhile hc
  rwa [List.nil_append, List.takeWhile_append_dropWhile] at hmem

theorem EndsIn.of_suffix {extensions : List (List Char)} {s t : List Char}
    (h : EndsIn extensions s) (hst : s <:+ t) : EndsIn extensions t := by
  obtain ⟨extension, hmem, hends⟩ := h
  exact ⟨extension, hmem, hends.trans (hst.map Char.toLower)⟩

/-! ### One way for each URL -/

theorem route_unique_iff (url : List Char) :
    (∃! r, Takes url r) ↔ (isHlsUrl url = true → isUnwrappable url = false) := by
  constructor
  · rintro ⟨r, -, hr⟩ hhls
    by_contra hnot
    have hplaylist : isUnwrappable url = true := by simpa using hnot
    have hsame := (hr .hls hhls).trans (hr .playlist hplaylist).symm
    cases hsame
  · intro h
    cases hhls : isHlsUrl url with
    | true =>
      refine ⟨.hls, hhls, ?_⟩
      rintro (_ | _ | _) hr
      · rfl
      · exact absurd hr (by simp [Takes, h hhls])
      · exact absurd hr.1 (by simp [hhls])
    | false =>
      cases hplaylist : isUnwrappable url with
      | true =>
        refine ⟨.playlist, hplaylist, ?_⟩
        rintro (_ | _ | _) hr
        · exact absurd hr (by simp [Takes, hhls])
        · rfl
        · exact absurd hr.2 (by simp [hplaylist])
      | false =>
        refine ⟨.direct, ⟨hhls, hplaylist⟩, ?_⟩
        rintro (_ | _ | _) hr
        · exact absurd hr (by simp [Takes, hhls])
        · exact absurd hr (by simp [Takes, hplaylist])
        · rfl

theorem oneWay_iff (url : List Char) : OneWay url ↔ Unmixed url := by
  have hexclusive : (isHlsUrl url = true → isUnwrappable url = false) ↔
      ∀ p ∈ url.splitOn '?', ∀ q ∈ url.splitOn '?',
        EndsIn playlistExtensions p → ¬ EndsIn [".m3u8".toList] q := by
    constructor
    · intro h p hp q hq hends hm3u8
      have hplaylist := (isUnwrappable_iff url).2 ⟨p, hp, hends⟩
      rw [h ((isHlsUrl_iff url).2 ⟨q, hq, hm3u8⟩)] at hplaylist
      cases hplaylist
    · intro h hhls
      obtain ⟨q, hq, hm3u8⟩ := (isHlsUrl_iff url).1 hhls
      rw [Bool.eq_false_iff]
      intro hplaylist
      obtain ⟨p, hp, hends⟩ := (isUnwrappable_iff url).1 hplaylist
      exact h p hp q hq hends hm3u8
  constructor
  · rintro ⟨hhls, hplaylist, -⟩
    exact ⟨hexclusive.1 hhls, fun hpath _ => (isUnwrappable_iff url).1 (hplaylist hpath).1⟩
  · rintro ⟨hapart, hfragment⟩
    have hhls := hexclusive.2 hapart
    refine ⟨hhls, fun hpath => ?_, (route_unique_iff url).2 hhls⟩
    have hunwrappable : isUnwrappable url = true := by
      rw [isUnwrappable_iff]
      by_cases hmark : '#' ∈ url.takeWhile (· ≠ '?')
      · exact hfragment hpath hmark
      · exact ⟨_, takeWhile_mem_splitOn url, hpath.of_suffix (pathOf_suffix hmark)⟩
    refine ⟨hunwrappable, Bool.eq_false_iff.2 fun htrue => ?_⟩
    rw [hhls htrue] at hunwrappable
    cases hunwrappable

/-- An HLS manifest with a playlist in its query. -/
theorem manifest_unwrapped : ¬ OneWay "https://h/live.m3u8?next=b.m3u".toList :=
  fun h => absurd (h.hls (by decide)) (by decide)

end Atradio.Proxy
