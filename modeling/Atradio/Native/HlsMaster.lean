import Mathlib.Data.List.MinMax
import Atradio.Native.HlsText

/-! # Master playlists of HLS (`adaptive/hls.rs`)

A master playlist lists variants of a stream, which may share renditions of its audio. One address is
chosen of it. -/

namespace Atradio.Native
open Atradio.Lib

structure Variant where
  uri : List Char
  bandwidth : ℕ
  codecs : List (List Char)
  audioGroup : Option (List Char)
  deriving DecidableEq

/-- Without an address the audio is in the segments of the variant. -/
structure AudioRendition where
  groupId : List Char
  uri : Option (List Char)
  default : Bool
  deriving DecidableEq

structure MasterPlaylist where
  variants : List Variant := []
  audio : List AudioRendition := []
  deriving DecidableEq

inductive MasterLine where
  | streamInf (rest : List Char)
  | media (rest : List Char)
  | other
  | uri (line : List Char)
  deriving DecidableEq

def masterLineOf (raw : List Char) : MasterLine :=
  let line := trim raw
  if line = [] then .other
  else if let some rest := stripPrefix "#EXT-X-STREAM-INF:".toList line then .streamInf rest
  else if let some rest := stripPrefix "#EXT-X-MEDIA:".toList line then .media rest
  else if ['#'].isPrefixOf line then .other
  else .uri line

def Variant.ofAttributes (attrs : List (List Char × List Char)) : Variant where
  uri := []
  bandwidth := ((attr attrs "BANDWIDTH".toList).bind parseU64).getD 0
  codecs := ((attr attrs "CODECS".toList).map fun c => (c.splitOn ',').map trim).getD []
  audioGroup := attr attrs "AUDIO".toList

/-- `eq_ignore_ascii_case` -/
def isWord (word s : List Char) : Bool := s.map Char.toLower = word.map Char.toLower

def AudioRendition.ofAttributes (base : List Char) (attrs : List (List Char × List Char)) :
    AudioRendition where
  groupId := (attr attrs "GROUP-ID".toList).getD []
  uri := (attr attrs "URI".toList).map (urlJoin base)
  default := (attr attrs "DEFAULT".toList).any (isWord "YES".toList)

/-- What `parse_master` keeps from line to line. -/
structure MasterParsing where
  master : MasterPlaylist := {}
  pending : Option Variant := none

def MasterParsing.line (base : List Char) (p : MasterParsing) : MasterLine → MasterParsing
  | .streamInf rest => { p with pending := some (Variant.ofAttributes (parseAttributes rest)) }
  | .media rest =>
    if (attr (parseAttributes rest) "TYPE".toList).any (isWord "AUDIO".toList) then
      { p with master.audio := p.master.audio ++
          [AudioRendition.ofAttributes base (parseAttributes rest)] }
    else p
  | .other => p
  | .uri line =>
    match p.pending with
    | some v =>
      { master.variants := p.master.variants ++ [{ v with uri := urlJoin base line }]
        master.audio := p.master.audio
        pending := none }
    | none => p

def parseMaster (base text : List Char) : MasterPlaylist :=
  (((Cli.lines text).map masterLineOf).foldl (MasterParsing.line base) {}).master

/-! ### The choice -/

def videoCodecs : List (List Char) :=
  ["avc1", "avc3", "hvc1", "hev1", "vp09", "vp08", "av01", "mp4v"].map String.toList

def isVideoCodec (c : List Char) : Bool :=
  videoCodecs.any fun p => p.isPrefixOf (c.map Char.toLower)

def Variant.isAudioOnly (v : Variant) : Bool :=
  v.codecs ≠ [] && !v.codecs.any isVideoCodec

/-- The last of the greatest, as `max_by_key` has it. -/
def maxByKey {α β : Type} [LinearOrder β] (key : α → β) (l : List α) : Option α :=
  l.reverse.argmax key

def MasterPlaylist.chosen (m : MasterPlaylist) : Option Variant :=
  let audioOnly := m.variants.filter Variant.isAudioOnly
  if audioOnly ≠ [] then maxByKey Variant.bandwidth audioOnly
  else m.variants.argmin Variant.bandwidth

/-- The rendition of a group that has an address, a default one if there is one. -/
def MasterPlaylist.rendition (m : MasterPlaylist) (group : List Char) : Option AudioRendition :=
  maxByKey AudioRendition.default (m.audio.filter fun a => a.groupId = group && a.uri.isSome)

def MasterPlaylist.address (m : MasterPlaylist) (v : Variant) : List Char :=
  (((v.audioGroup.bind m.rendition).bind AudioRendition.uri).getD v.uri)

def selectMediaPlaylist (m : MasterPlaylist) : Option (List Char) :=
  if m.variants = [] then
    ((m.audio.find? AudioRendition.default).or m.audio.head?).bind AudioRendition.uri
  else m.chosen.map m.address

/-- Of the variants without video the one with the greatest bandwidth; if all have video, the one with
the least. -/
def MasterPlaylist.Best (m : MasterPlaylist) (v : Variant) : Prop :=
  v ∈ m.variants ∧
    if ∃ w ∈ m.variants, w.isAudioOnly = true then
      v.isAudioOnly = true ∧ ∀ w ∈ m.variants, w.isAudioOnly = true → w.bandwidth ≤ v.bandwidth
    else ∀ w ∈ m.variants, v.bandwidth ≤ w.bandwidth

/-- A rendition of the variant's group with an address of its own, a default one if there is one. -/
def MasterPlaylist.Carries (m : MasterPlaylist) (v : Variant) (a : AudioRendition) : Prop :=
  a ∈ m.audio ∧ v.audioGroup = some a.groupId ∧ a.uri.isSome = true ∧
    (a.default = true ∨ ∀ b ∈ m.audio, b.groupId = a.groupId → b.uri.isSome = true →
      b.default = false)

/-- The address of a variant: that of a rendition it plays with, or else its own. -/
def MasterPlaylist.Plays (m : MasterPlaylist) (v : Variant) (url : List Char) : Prop :=
  (∃ a, m.Carries v a ∧ a.uri = some url) ∨ ((∀ a, ¬ m.Carries v a) ∧ v.uri = url)

section Choice

variable {α β : Type} [LinearOrder β] {key : α → β} {l : List α} {a : α}

theorem maxByKey_mem (h : maxByKey key l = some a) : a ∈ l :=
  List.mem_reverse.1 (List.argmax_mem h)

theorem le_maxByKey (h : maxByKey key l = some a) {b : α} (hb : b ∈ l) : key b ≤ key a :=
  List.le_of_mem_argmax (List.mem_reverse.2 hb) h

theorem maxByKey_none (h : maxByKey key l = none) : l = [] :=
  List.reverse_eq_nil_iff.1 (List.argmax_eq_none.1 h)

theorem chosen_best {m : MasterPlaylist} (hne : m.variants ≠ []) :
    ∃ v, m.chosen = some v ∧ m.Best v := by
  by_cases haudio : m.variants.filter Variant.isAudioOnly = []
  · have hnone : ¬ ∃ w ∈ m.variants, w.isAudioOnly = true := by
      rintro ⟨w, hw, hw'⟩
      exact List.filter_eq_nil_iff.1 haudio w hw hw'
    have hchosen : m.chosen = m.variants.argmin Variant.bandwidth := if_neg (not_not.2 haudio)
    cases hv : m.variants.argmin Variant.bandwidth with
    | none => exact absurd (List.argmin_eq_none.1 hv) hne
    | some v =>
      refine ⟨v, hchosen.trans hv, List.argmin_mem hv, ?_⟩
      rw [if_neg hnone]
      exact fun w hw => List.le_of_mem_argmin hw hv
  · have hchosen : m.chosen = maxByKey Variant.bandwidth (m.variants.filter Variant.isAudioOnly) :=
      if_pos haudio
    cases hv : maxByKey Variant.bandwidth (m.variants.filter Variant.isAudioOnly) with
    | none => exact absurd (maxByKey_none hv) haudio
    | some v =>
      obtain ⟨hmem, hv'⟩ := List.mem_filter.1 (maxByKey_mem hv)
      refine ⟨v, hchosen.trans hv, hmem, ?_⟩
      rw [if_pos ⟨v, hmem, hv'⟩]
      exact ⟨hv', fun w hw hw' => le_maxByKey hv (List.mem_filter.2 ⟨hw, hw'⟩)⟩

theorem rendition_carries {m : MasterPlaylist} {v : Variant} {group : List Char}
    (hgroup : v.audioGroup = some group) {a : AudioRendition} (h : m.rendition group = some a) :
    m.Carries v a := by
  obtain ⟨hmem, ha⟩ := List.mem_filter.1 (maxByKey_mem h)
  rw [Bool.and_eq_true, decide_eq_true_eq] at ha
  obtain ⟨rfl, huri⟩ := ha
  refine ⟨hmem, hgroup, huri, ?_⟩
  cases hdefault : a.default with
  | true => exact Or.inl rfl
  | false =>
    refine Or.inr fun b hb hsame hburi => ?_
    have hle := le_maxByKey h (List.mem_filter.2 ⟨hb, by rw [hsame, hburi]; simp⟩)
    rw [hdefault] at hle
    exact Bool.eq_false_of_le_false hle

theorem address_plays (m : MasterPlaylist) (v : Variant) : m.Plays v (m.address v) := by
  unfold MasterPlaylist.address
  cases hgroup : v.audioGroup with
  | none =>
    refine Or.inr ⟨fun a ha => ?_, rfl⟩
    rw [ha.2.1] at hgroup
    cases hgroup
  | some group =>
    cases h : m.rendition group with
    | none =>
      refine Or.inr ⟨fun a ha => ?_, by rw [Option.bind_some, h]; rfl⟩
      obtain ⟨hmem, hsame, huri, -⟩ := ha
      rw [hgroup] at hsame
      obtain rfl := Option.some.inj hsame
      have hnil := maxByKey_none h
      exact List.filter_eq_nil_iff.1 hnil a hmem (by rw [huri]; simp)
    | some a =>
      have hcarries := rendition_carries hgroup h
      obtain ⟨url, hurl⟩ := Option.isSome_iff_exists.1 hcarries.2.2.1
      refine Or.inl ⟨a, hcarries, ?_⟩
      rw [Option.bind_some, h, Option.bind_some, hurl]
      rfl

end Choice

/-! ### Attributes as they are written -/

/-- An attribute without quotes or in quotes. -/
inductive AttrText where
  | plain (key value : List Char)
  | quoted (key value : List Char)

def AttrText.text : AttrText → List Char
  | .plain key value => key ++ '=' :: value
  | .quoted key value => key ++ '=' :: Native.quoted value

def AttrText.pair : AttrText → List Char × List Char
  | .plain key value | .quoted key value => (key, value)

def KeyFits (key : List Char) : Prop := '=' ∉ key ∧ key ≠ [] ∧ trim key = key ∧ '\n' ∉ key

def AttrText.Fits : AttrText → Prop
  | .plain key value => KeyFits key ∧ value ≠ [] ∧
      ∀ c ∈ value, c ≠ ',' ∧ c ≠ quote ∧ Cli.isWhiteSpace c = false
  | .quoted key value => KeyFits key ∧ quote ∉ value ∧ '\n' ∉ value

def attrsText : List AttrText → List Char
  | [] => []
  | [a] => a.text
  | a :: b :: l => a.text ++ ',' :: attrsText (b :: l)

theorem parse_first {a : AttrText} (ha : a.Fits) {more : List Char}
    (hmore : ∀ c ∈ more.head?, c = ',') :
    parseAttributes (a.text ++ more) = a.pair :: parseAttributes (more.drop 1) := by
  have hdrop : more.dropWhile (· ≠ ',') = more := by
    cases more with
    | nil => rfl
    | cons c more => rw [List.dropWhile_cons_of_neg (by simp [hmore c rfl])]
  cases a with
  | plain key value =>
    obtain ⟨⟨hkey, hne, htrim, -⟩, hvne, hv⟩ := ha
    have htake : more.takeWhile (· ≠ ',') = [] := by
      cases more with
      | nil => rfl
      | cons c more => rw [List.takeWhile_cons_of_neg (by simp [hmore c rfl])]
    have hall : ∀ c ∈ value, decide (c ≠ ',') = true := fun c hc => decide_eq_true (hv c hc).1
    have hhead : [quote].isPrefixOf (value ++ more) = false := by
      cases value with
      | nil => exact absurd rfl hvne
      | cons c value =>
        have hc : (quote == c) = false :=
          beq_eq_false_iff_ne.2 fun heq => (hv c (List.mem_cons_self ..)).2.1 heq.symm
        rw [List.cons_append, List.isPrefixOf, hc]
        rfl
    have htrimv : trim value = value :=
      trim_eq (fun c hc => (hv c (List.mem_of_mem_head? hc)).2.2)
        (fun c hc => (hv c (List.mem_of_getLast? hc)).2.2)
    rw [AttrText.text, List.append_assoc, List.cons_append, parseAttributes_key hkey hne htrim,
      attrValue, if_neg (by rw [hhead]; exact Bool.false_ne_true),
      List.takeWhile_append_of_pos hall, List.dropWhile_append_of_pos hall, htake, hdrop,
      List.append_nil, htrimv]
    rfl
  | quoted key value =>
    obtain ⟨⟨hkey, hne, htrim, -⟩, hv, -⟩ := ha
    rw [AttrText.text, List.append_assoc, List.cons_append,
      parseAttributes_quoted hkey hne htrim hv, hdrop]
    rfl

theorem parse_attrsText {l : List AttrText} (h : ∀ a ∈ l, a.Fits) :
    parseAttributes (attrsText l) = l.map AttrText.pair := by
  induction l with
  | nil => rw [attrsText, parseAttributes]; rfl
  | cons a l ih =>
    have ha := h a (List.mem_cons_self ..)
    have hrest := ih fun x hx => h x (List.mem_cons_of_mem _ hx)
    cases l with
    | nil =>
      have hnil : ∀ c ∈ ([] : List Char).head?, c = ',' := by
        intro c hc
        cases hc
      have hfirst := parse_first ha hnil
      rw [List.append_nil] at hfirst
      exact hfirst.trans (congrArg (a.pair :: ·) hrest)
    | cons b l =>
      have hfirst := @parse_first a ha (',' :: attrsText (b :: l))
        (fun _ hc => (Option.some.inj hc).symm)
      exact hfirst.trans (congrArg (a.pair :: ·) hrest)

theorem text_last {a : AttrText} (ha : a.Fits) :
    ∃ c, a.text.getLast? = some c ∧ Cli.isWhiteSpace c = false := by
  cases a with
  | plain key value =>
    obtain ⟨-, hne, hv⟩ := ha
    refine ⟨value.getLast hne, ?_, (hv _ (List.getLast_mem hne)).2.2⟩
    rw [AttrText.text, List.getLast?_append_of_ne_nil _ (List.cons_ne_nil _ _),
      List.getLast?_cons, List.getLast?_eq_some_getLast hne]
    rfl
  | quoted key value =>
    refine ⟨quote, ?_, by decide⟩
    rw [AttrText.text, quoted, ← List.cons_append, ← List.cons_append, ← List.append_assoc,
      List.getLast?_concat]

theorem attrsText_last {l : List AttrText} (hne : l ≠ []) (h : ∀ a ∈ l, a.Fits) :
    ∃ c, (attrsText l).getLast? = some c ∧ Cli.isWhiteSpace c = false := by
  induction l with
  | nil => exact absurd rfl hne
  | cons a l ih =>
    cases l with
    | nil => exact text_last (h a (List.mem_cons_self ..))
    | cons b l =>
      obtain ⟨c, hc, hspace⟩ := ih (List.cons_ne_nil _ _) fun x hx => h x (List.mem_cons_of_mem _ hx)
      refine ⟨c, ?_, hspace⟩
      rw [attrsText, List.getLast?_append, List.getLast?_cons, hc]
      rfl

theorem attrsText_newline {l : List AttrText} (h : ∀ a ∈ l, a.Fits) : '\n' ∉ attrsText l := by
  have htext : ∀ a : AttrText, a.Fits → '\n' ∉ a.text := by
    intro a ha
    cases a with
    | plain key value =>
      obtain ⟨⟨-, -, -, hkey⟩, -, hv⟩ := ha
      rw [AttrText.text, List.mem_append, List.mem_cons, not_or, not_or]
      exact ⟨hkey, by decide, fun hc => absurd (hv _ hc).2.2 (by decide)⟩
    | quoted key value =>
      obtain ⟨⟨-, -, -, hkey⟩, -, hv⟩ := ha
      simp only [AttrText.text, quoted, List.mem_append, List.mem_cons, List.not_mem_nil, or_false,
        not_or]
      exact ⟨hkey, by decide, by decide, hv, by decide⟩
  induction l with
  | nil => exact List.not_mem_nil
  | cons a l ih =>
    have ha := htext a (h a (List.mem_cons_self ..))
    cases l with
    | nil => exact ha
    | cons b l =>
      rw [attrsText, List.mem_append, List.mem_cons, not_or, not_or]
      exact ⟨ha, by decide, ih fun x hx => h x (List.mem_cons_of_mem _ hx)⟩

/-! ### Master playlists as they are written -/

def Variant.attrs (v : Variant) : List AttrText :=
  .plain "BANDWIDTH".toList (decimal v.bandwidth) ::
    ((if v.codecs = [] then [] else [.quoted "CODECS".toList ([','].intercalate v.codecs)]) ++
      match v.audioGroup with
      | some group => [.quoted "AUDIO".toList group]
      | none => [])

def AudioRendition.attrs (a : AudioRendition) : List AttrText :=
  .plain "TYPE".toList "AUDIO".toList :: .quoted "GROUP-ID".toList a.groupId ::
    ((if a.default then [.plain "DEFAULT".toList "YES".toList] else []) ++
      match a.uri with
      | some uri => [.quoted "URI".toList uri]
      | none => [])

def Variant.lines (v : Variant) : List (List Char) :=
  ["#EXT-X-STREAM-INF:".toList ++ attrsText v.attrs, v.uri]

def AudioRendition.text (a : AudioRendition) : List Char :=
  "#EXT-X-MEDIA:".toList ++ attrsText a.attrs

def MasterPlaylist.lines (m : MasterPlaylist) : List (List Char) :=
  "#EXTM3U".toList :: (m.audio.map AudioRendition.text ++ m.variants.flatMap Variant.lines)

structure Variant.Fits (v : Variant) : Prop where
  uri_line : '\n' ∉ v.uri
  uri_ne : v.uri ≠ []
  uri_trim : trim v.uri = v.uri
  uri_head : v.uri.head? ≠ some '#'
  bandwidth_lt : v.bandwidth < U64
  codecs : ∀ c ∈ v.codecs, ',' ∉ c ∧ quote ∉ c ∧ '\n' ∉ c ∧ trim c = c
  group : ∀ g ∈ v.audioGroup, quote ∉ g ∧ '\n' ∉ g

structure AudioRendition.Fits (a : AudioRendition) : Prop where
  group : quote ∉ a.groupId ∧ '\n' ∉ a.groupId
  uri : ∀ u ∈ a.uri, quote ∉ u ∧ '\n' ∉ u

def Variant.joined (base : List Char) (v : Variant) : Variant := { v with uri := urlJoin base v.uri }

def AudioRendition.joined (base : List Char) (a : AudioRendition) : AudioRendition :=
  { a with uri := a.uri.map (urlJoin base) }

def MasterPlaylist.joined (base : List Char) (m : MasterPlaylist) : MasterPlaylist where
  variants := m.variants.map (Variant.joined base)
  audio := m.audio.map (AudioRendition.joined base)

theorem intercalate_notMem {c : Char} (hc : c ≠ ',') {l : List (List Char)} (h : ∀ x ∈ l, c ∉ x) :
    c ∉ [','].intercalate l := by
  induction l with
  | nil => exact List.not_mem_nil
  | cons x l ih =>
    have hx := h x (List.mem_cons_self ..)
    cases l with
    | nil => simpa [List.intercalate] using hx
    | cons y l =>
      have hrest := ih fun z hz => h z (List.mem_cons_of_mem _ hz)
      rw [List.intercalate_cons_of_ne_nil (List.cons_ne_nil _ _), List.mem_append, List.mem_append,
        not_or, not_or]
      exact ⟨⟨hx, fun hmem => hc (List.mem_singleton.1 hmem)⟩, hrest⟩

theorem Variant.Fits.attrs {v : Variant} (hv : v.Fits) : ∀ a ∈ v.attrs, a.Fits := by
  intro a ha
  rw [Variant.attrs, List.mem_cons, List.mem_append] at ha
  rcases ha with rfl | ha | ha
  · refine ⟨⟨by decide, by decide, by decide, by decide⟩, decimal_ne _, fun c hc => ?_⟩
    have hdigit := decimal_digit hc
    refine ⟨?_, ?_, digit_space hdigit⟩
    · rintro rfl
      exact absurd hdigit (by decide)
    · rintro rfl
      exact absurd hdigit (by decide)
  · split at ha
    · cases ha
    · rw [List.mem_singleton.1 ha]
      exact ⟨⟨by decide, by decide, by decide, by decide⟩,
        intercalate_notMem (by decide) fun c hc => (hv.codecs c hc).2.1,
        intercalate_notMem (by decide) fun c hc => (hv.codecs c hc).2.2.1⟩
  · cases hg : v.audioGroup with
    | none =>
      rw [hg] at ha
      cases ha
    | some group =>
      rw [hg] at ha
      rw [List.mem_singleton.1 ha]
      exact ⟨⟨by decide, by decide, by decide, by decide⟩, hv.group group hg⟩

theorem AudioRendition.Fits.attrs {a : AudioRendition} (ha : a.Fits) : ∀ x ∈ a.attrs, x.Fits := by
  intro x hx
  rw [AudioRendition.attrs, List.mem_cons, List.mem_cons, List.mem_append] at hx
  rcases hx with rfl | rfl | hx | hx
  · exact ⟨⟨by decide, by decide, by decide, by decide⟩, by decide, forall_letters (by decide)⟩
  · exact ⟨⟨by decide, by decide, by decide, by decide⟩, ha.group⟩
  · split at hx
    · rw [List.mem_singleton.1 hx]
      exact ⟨⟨by decide, by decide, by decide, by decide⟩, by decide, forall_letters (by decide)⟩
    · cases hx
  · cases hu : a.uri with
    | none =>
      rw [hu] at hx
      cases hx
    | some uri =>
      rw [hu] at hx
      rw [List.mem_singleton.1 hx]
      exact ⟨⟨by decide, by decide, by decide, by decide⟩, ha.uri uri hu⟩

theorem variant_attrs {v : Variant} (hv : v.Fits) :
    Variant.ofAttributes (v.attrs.map AttrText.pair) = { v with uri := [] } := by
  have hbandwidth := parseU64_decimal hv.bandwidth_lt
  obtain ⟨uri, bandwidth, codecs, audioGroup⟩ := v
  have hcodecs : codecs ≠ [] → (([','].intercalate codecs).splitOn ',').map trim = codecs := by
    intro hne
    rw [List.splitOn_intercalate _ (fun c hc => (hv.codecs c hc).1) hne]
    exact (List.map_congr_left fun c hc => (hv.codecs c hc).2.2.2).trans (List.map_id codecs)
  by_cases hne : codecs = []
  · subst hne
    cases audioGroup with
    | none => exact congrArg (fun b : Option ℕ => (⟨[], b.getD 0, [], none⟩ : Variant)) hbandwidth
    | some group =>
      exact congrArg (fun b : Option ℕ => (⟨[], b.getD 0, [], some group⟩ : Variant)) hbandwidth
  · have hlist := hcodecs hne
    cases audioGroup with
    | none =>
      simp only [Variant.attrs, if_neg hne]
      exact congrArg₂ (fun (b : Option ℕ) c => (⟨[], b.getD 0, c, none⟩ : Variant)) hbandwidth hlist
    | some group =>
      simp only [Variant.attrs, if_neg hne]
      exact congrArg₂ (fun (b : Option ℕ) c => (⟨[], b.getD 0, c, some group⟩ : Variant))
        hbandwidth hlist

theorem audio_attrs (base : List Char) (a : AudioRendition) :
    AudioRendition.ofAttributes base (a.attrs.map AttrText.pair) = a.joined base := by
  obtain ⟨groupId, uri, isDefault⟩ := a
  cases isDefault <;> cases uri <;> rfl

theorem audio_text (a : AudioRendition) :
    a.text = "#EXT-X-MEDIA:".toList ++ attrsText a.attrs := rfl

theorem audio_type (a : AudioRendition) :
    (attr (a.attrs.map AttrText.pair) "TYPE".toList).any (isWord "AUDIO".toList) = true := rfl

/-! ### Lines -/

theorem trim_attrs {tag : List Char} (htag : tag.head? = some '#') {l : List AttrText}
    (hne : l ≠ []) (h : ∀ a ∈ l, a.Fits) : trim (tag ++ attrsText l) = tag ++ attrsText l := by
  obtain ⟨c, hlast, hspace⟩ := attrsText_last hne h
  have htext : attrsText l ≠ [] := by
    intro htext
    rw [htext] at hlast
    cases hlast
  refine trim_tag htag htext fun d hd => ?_
  rw [hlast] at hd
  obtain rfl := Option.some.inj hd
  exact hspace

theorem masterLineOf_streamInf {v : Variant} (hv : v.Fits) :
    masterLineOf ("#EXT-X-STREAM-INF:".toList ++ attrsText v.attrs) = .streamInf (attrsText v.attrs) := by
  have hne : v.attrs ≠ [] := List.cons_ne_nil _ _
  have htrim := @trim_attrs "#EXT-X-STREAM-INF:".toList (by decide) _ hne hv.attrs
  rw [masterLineOf, htrim]
  rfl

theorem masterLineOf_media {a : AudioRendition} (ha : a.Fits) :
    masterLineOf a.text = .media (attrsText a.attrs) := by
  have hne : a.attrs ≠ [] := List.cons_ne_nil _ _
  have htrim := @trim_attrs "#EXT-X-MEDIA:".toList (by decide) _ hne ha.attrs
  rw [audio_text, masterLineOf, htrim]
  rfl

theorem masterLineOf_uri {uri : List Char} (hne : uri ≠ []) (htrim : trim uri = uri)
    (hhead : uri.head? ≠ some '#') : masterLineOf uri = .uri uri := by
  have hhash : ['#'].isPrefixOf uri = false := hash_isPrefixOf hhead []
  rw [masterLineOf, htrim, if_neg hne,
    show stripPrefix "#EXT-X-STREAM-INF:".toList uri = none from hash_stripPrefix hhead _,
    show stripPrefix "#EXT-X-MEDIA:".toList uri = none from hash_stripPrefix hhead _, hhash]
  rfl

section Read

variable (base : List Char)

theorem audio_read {as : List AudioRendition} (has : ∀ a ∈ as, a.Fits) (p : MasterParsing) :
    ((as.map AudioRendition.text).map masterLineOf).foldl (MasterParsing.line base) p =
      { p with master.audio := p.master.audio ++ as.map (AudioRendition.joined base) } := by
  induction as generalizing p with
  | nil =>
    rw [List.map_nil, List.map_nil, List.foldl_nil, List.map_nil, List.append_nil]
  | cons a as ih =>
    have ha := has a (List.mem_cons_self ..)
    rw [List.map_cons, List.map_cons, masterLineOf_media ha, List.foldl_cons, MasterParsing.line,
      parse_attrsText ha.attrs, if_pos (audio_type a), audio_attrs,
      ih (fun x hx => has x (List.mem_cons_of_mem _ hx)), List.map_cons, ← List.append_cons]

theorem variants_read {vs : List Variant} (hvs : ∀ v ∈ vs, v.Fits) {p : MasterParsing}
    (hp : p.pending = none) :
    ((vs.flatMap Variant.lines).map masterLineOf).foldl (MasterParsing.line base) p =
      { p with master.variants := p.master.variants ++ vs.map (Variant.joined base) } := by
  induction vs generalizing p with
  | nil =>
    rw [List.flatMap_nil, List.map_nil, List.foldl_nil, List.map_nil, List.append_nil]
  | cons v vs ih =>
    have hv := hvs v (List.mem_cons_self ..)
    have hfirst : ((v.lines).map masterLineOf).foldl (MasterParsing.line base) p =
        { p with master.variants := p.master.variants ++ [v.joined base] } := by
      rw [Variant.lines, List.map_cons, List.map_singleton, masterLineOf_streamInf hv,
        masterLineOf_uri hv.uri_ne hv.uri_trim hv.uri_head, List.foldl_cons, List.foldl_cons,
        List.foldl_nil, MasterParsing.line, parse_attrsText hv.attrs, variant_attrs hv]
      simp only [MasterParsing.line, Variant.joined, hp]
    have hrest := @ih (fun x hx => hvs x (List.mem_cons_of_mem _ hx))
      { p with master.variants := p.master.variants ++ [v.joined base] } hp
    rw [List.flatMap_cons, List.map_append, List.foldl_append, hfirst, hrest, List.map_cons,
      ← List.append_cons]

theorem master_read {m : MasterPlaylist} (hvariants : ∀ v ∈ m.variants, v.Fits)
    (haudio : ∀ a ∈ m.audio, a.Fits) :
    ((m.lines.map masterLineOf).foldl (MasterParsing.line base) {}).master = m.joined base := by
  have hhead : masterLineOf "#EXTM3U".toList = .other := by decide
  have hother : MasterParsing.line base {} .other = {} := rfl
  have hfirst : ((m.audio.map AudioRendition.text).map masterLineOf).foldl
      (MasterParsing.line base) {} = { master.audio := m.audio.map (AudioRendition.joined base) } :=
    audio_read base haudio {}
  have hrest := @variants_read base m.variants hvariants
    { master.audio := m.audio.map (AudioRendition.joined base) } rfl
  rw [MasterPlaylist.lines, List.map_cons, List.foldl_cons, hhead, hother, List.map_append,
    List.foldl_append, hfirst, hrest]
  rfl

end Read

theorem master_newline {m : MasterPlaylist} (hvariants : ∀ v ∈ m.variants, v.Fits)
    (haudio : ∀ a ∈ m.audio, a.Fits) : ∀ l ∈ m.lines, '\n' ∉ l := by
  intro l hl
  rw [MasterPlaylist.lines, List.mem_cons, List.mem_append] at hl
  rcases hl with rfl | hl | hl
  · decide
  · obtain ⟨a, ha, rfl⟩ := List.mem_map.1 hl
    rw [audio_text, List.mem_append, not_or]
    exact ⟨by decide, attrsText_newline (haudio a ha).attrs⟩
  · obtain ⟨v, hv, hl⟩ := List.mem_flatMap.1 hl
    rw [Variant.lines, List.mem_cons, List.mem_singleton] at hl
    rcases hl with rfl | rfl
    · rw [List.mem_append, not_or]
      exact ⟨by decide, attrsText_newline (hvariants v hv).attrs⟩
    · exact (hvariants v hv).uri_line

/-- A written master playlist is read as it is written, and what is opened is the best variant: the
rendition it plays with, or its own playlist. -/
theorem master_written (base : List Char) {m : MasterPlaylist} {trail : List Char}
    (hvariants : ∀ v ∈ m.variants, v.Fits) (haudio : ∀ a ∈ m.audio, a.Fits)
    (htrail : ∀ c ∈ trail, Cli.isWhiteSpace c = true ∧ c ≠ '\n') :
    parseMaster base (joinLines trail m.lines) = m.joined base ∧
      (m.variants ≠ [] → ∃ v url, (m.joined base).Best v ∧ (m.joined base).Plays v url ∧
        selectMediaPlaylist (parseMaster base (joinLines trail m.lines)) = some url) := by
  have hline : '\n' ∉ trail := fun hc => (htrail _ hc).2 rfl
  have hread : parseMaster base (joinLines trail m.lines) = m.joined base := by
    rw [parseMaster, lines_joinLines (fun c hc => (htrail c hc).1) hline masterLineOf
      (fun h => by rw [masterLineOf, masterLineOf, h]) _ (master_newline hvariants haudio)]
    exact master_read base hvariants haudio
  refine ⟨hread, fun hne => ?_⟩
  have hjoined : (m.joined base).variants ≠ [] := fun h => hne (List.map_eq_nil_iff.1 h)
  obtain ⟨v, hv, hbest⟩ := chosen_best hjoined
  refine ⟨v, (m.joined base).address v, hbest, address_plays _ v, ?_⟩
  rw [hread, selectMediaPlaylist, if_neg hjoined, hv]
  rfl

def shortMaster : MasterPlaylist where
  variants := [⟨"video.m3u8".toList, 900000, ["avc1.64001f".toList, "mp4a.40.2".toList], none⟩,
    ⟨"audio.m3u8".toList, 128000, ["mp4a.40.2".toList], some "stereo".toList⟩]
  audio := [⟨"stereo".toList, some "en.m3u8".toList, true⟩]

theorem shortMaster_variants : ∀ v ∈ shortMaster.variants, v.Fits := by
  intro v hv
  rw [shortMaster, List.mem_cons, List.mem_singleton] at hv
  rcases hv with rfl | rfl
  · exact ⟨by decide, by decide, by decide, by decide, by decide, by decide, nofun⟩
  · exact ⟨by decide, by decide, by decide, by decide, by decide, by decide,
      fun _ hg => Option.some.inj hg ▸ by decide⟩

theorem shortMaster_audio : ∀ a ∈ shortMaster.audio, a.Fits := by
  intro a ha
  rw [shortMaster, List.mem_singleton] at ha
  subst ha
  exact ⟨by decide, fun _ hu => Option.some.inj hu ▸ by decide⟩

theorem master_written_short :
    parseMaster "http://a.b/c/live.m3u8".toList (joinLines [] shortMaster.lines) =
        shortMaster.joined "http://a.b/c/live.m3u8".toList ∧
      selectMediaPlaylist (parseMaster "http://a.b/c/live.m3u8".toList
        (joinLines [] shortMaster.lines)) = some "http://a.b/c/en.m3u8".toList := by
  have h := (@master_written "http://a.b/c/live.m3u8".toList shortMaster [] shortMaster_variants
    shortMaster_audio fun _ hc => absurd hc List.not_mem_nil).1
  refine ⟨h, ?_⟩
  rw [h]
  decide

end Atradio.Native
