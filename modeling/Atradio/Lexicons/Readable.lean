import Atradio.Lexicons.Stations

/-! # Records the indexer can read

A record the clients build is accepted by the schema of its collection when the members
the schema requires are not empty: `clean` drops those that are. -/

namespace Atradio.Lexicons
open Atradio.Lib Atradio.Lib.Schema Atradio.Jetstream

/-! ### Members -/

def nonEmpty (s : Option String) : Option String := s.filter fun t => t ≠ ""

theorem nonEmpty_some (t : String) : nonEmpty (some t) = if t = "" then none else some t := by
  rw [nonEmpty, Option.filter_some]
  by_cases ht : t = ""
  · simp [ht]
  · simp [ht]

theorem kept_text (s : Option String) : kept (text s) = (nonEmpty s).map .str := by
  cases s with
  | none => rfl
  | some t =>
    rw [nonEmpty_some, text, kept, Option.map_some, Option.filter_some]
    by_cases ht : t = ""
    · simp [Json.blank, ht]
    · simp [Json.blank, ht]

theorem kept_nonEmpty (s : Option String) : kept (text (nonEmpty s)) = kept (text s) := by
  rw [kept_text, kept_text]
  simp [nonEmpty, Option.filter_filter]

theorem kept_of_not_blank {j : Json} (h : j.blank = false) : kept (some j) = some j := by
  simp [kept, h, Option.filter_some]

/-- What a schema reads of an optional number: JSON has no value that is not finite. -/
def numeralRead : Option JsNumber → Option (Option ℚ)
  | none => some none
  | some (.finite q) => some (some q)
  | some .nonFinite => none

section Members

variable {fields : Fields} {key : String}

theorem member_text (h : (fields.map Prod.fst).Nodup) {s : String}
    (hv : fields.lookup key = some (text (some s))) :
    member key string (clean fields) = if s = "" then none else some s := by
  rw [member_clean h hv, kept_text, nonEmpty_some]
  by_cases hs : s = ""
  · rw [if_pos hs]
    rfl
  · rw [if_neg hs]
    rfl

theorem optional_text (h : (fields.map Prod.fst).Nodup) {s : Option String}
    (hv : fields.lookup key = some (text s)) :
    optional key string (clean fields) = some (nonEmpty s) := by
  rw [optional_clean h hv, kept_text]
  cases nonEmpty s with
  | none => rfl
  | some t => rfl

theorem optional_literal (h : (fields.map Prod.fst).Nodup) {t : String} (ht : t ≠ "")
    (hv : fields.lookup key = some (text (some t))) :
    optional key (literal t) (clean fields) = some (some t) := by
  rw [optional_clean h hv, kept_text, nonEmpty_some, if_neg ht]
  simp [literal, refine, string, Option.filter_some]

theorem optional_numeral (h : (fields.map Prod.fst).Nodup) {n : Option JsNumber}
    (hv : fields.lookup key = some (numeral n)) :
    optional key number (clean fields) = numeralRead n := by
  rw [optional_clean h hv]
  match n with
  | none => rfl
  | some (.finite q) => rfl
  | some .nonFinite => rfl

theorem array_texts (xs : List String) : array string (.arr (xs.map .str)) = some xs := by
  induction xs with
  | nil => rfl
  | cons x xs ih =>
    simp only [array] at ih ⊢
    rw [List.map_cons, List.mapM_cons, ih]
    rfl

theorem optional_texts (h : (fields.map Prod.fst).Nodup) {xs : Option (List String)}
    (hv : fields.lookup key = some (texts xs)) :
    optional key (array string) (clean fields) = some xs := by
  rw [optional_clean h hv]
  cases xs with
  | none => rfl
  | some xs =>
    rw [texts, Option.map_some, kept_of_not_blank rfl]
    dsimp only
    rw [array_texts]
    rfl

end Members

/-! ### The station snapshot -/

structure Station.Readable (s : Station) : Prop where
  id : s.id ≠ ""
  name : s.name ≠ ""
  streamUrl : s.streamUrl ≠ ""
  bitrate : s.bitrate ≠ some .nonFinite

/-- The finite number. -/
def JsNumber.value : JsNumber → Option ℚ
  | .finite q => some q
  | .nonFinite => none

def infoOf (s : Station) : StationInfo :=
  { stationId := s.id, name := s.name, streamUrl := s.streamUrl, source := s.source,
    description := nonEmpty s.description, genre := nonEmpty s.genre,
    homepage := nonEmpty s.homepage, logo := nonEmpty s.favicon, country := nonEmpty s.country,
    language := nonEmpty s.language, bitrate := s.bitrate.bind (·.value), codec := nonEmpty s.codec,
    tags := s.tags }

theorem infoFields_nodup (s : Station) : ((infoFields s).map Prod.fst).Nodup := by
  simp [infoFields]

theorem source_read (src : StationSource) :
    stationSourceSchema (.str (sourceText src)) = some src := by
  cases src <;> decide

theorem source_member (s : Station) :
    member "source" stationSourceSchema (stationToInfo s) = some s.source := by
  have hv : (infoFields s).lookup "source" = some (text (some (sourceText s.source))) := rfl
  have hne : sourceText s.source ≠ "" := by cases s.source <;> decide
  rw [stationToInfo, member_clean (infoFields_nodup s) hv, kept_text, nonEmpty_some, if_neg hne]
  exact source_read s.source

theorem stationInfo_read (s : Station) (h : s.Readable) :
    stationInfoSchema (stationToInfo s) = some (infoOf s) := by
  have hn := infoFields_nodup s
  have hbitrate : optional "bitrate" number (clean (infoFields s)) =
      some (s.bitrate.bind (·.value)) := by
    rw [optional_numeral hn rfl]
    match hb : s.bitrate with
    | none => rfl
    | some (.finite q) => rfl
    | some .nonFinite => exact (h.bitrate hb).elim
  have hsource := source_member s
  unfold stationToInfo at hsource ⊢
  unfold stationInfoSchema
  rw [member_text hn rfl, member_text hn rfl, member_text hn rfl, hsource, optional_text hn rfl,
    optional_text hn rfl, optional_text hn rfl, optional_text hn rfl, optional_text hn rfl,
    optional_text hn rfl, hbitrate, optional_text hn rfl, optional_texts hn rfl,
    if_neg h.id, if_neg h.name, if_neg h.streamUrl]
  rfl

theorem stationInfo_unread (s : Station) (h : ¬ s.Readable) :
    stationInfoSchema (stationToInfo s) = none := by
  have hn := infoFields_nodup s
  have hsource := source_member s
  unfold stationToInfo at hsource ⊢
  unfold stationInfoSchema
  rw [member_text hn rfl, member_text hn rfl, member_text hn rfl, hsource, optional_text hn rfl,
    optional_text hn rfl, optional_text hn rfl, optional_text hn rfl, optional_text hn rfl,
    optional_text hn rfl, optional_numeral hn rfl, optional_text hn rfl, optional_texts hn rfl]
  by_cases hid : s.id = ""
  · rw [if_pos hid]
    rfl
  · by_cases hname : s.name = ""
    · rw [if_neg hid, if_pos hname]
      rfl
    · by_cases hurl : s.streamUrl = ""
      · rw [if_neg hid, if_neg hname, if_pos hurl]
        rfl
      · have hb : s.bitrate = some .nonFinite := by
          by_contra hb
          exact h ⟨hid, hname, hurl, hb⟩
        rw [if_neg hid, if_neg hname, if_neg hurl, hb]
        rfl

theorem infoToStation_infoOf (s : Station) (h : s.Readable) :
    infoToStation (infoOf s) = stationObject s := by
  have hbitrate : ((infoOf s).bitrate.map Json.num) = numeral s.bitrate := by
    unfold infoOf
    match hb : s.bitrate with
    | none => rfl
    | some (.finite q) => rfl
    | some .nonFinite => exact (h.bitrate hb).elim
  unfold infoToStation stationObject clean
  rw [hbitrate]
  simp only [infoOf, List.filterMap_cons, List.filterMap_nil, kept_nonEmpty]

theorem station_reads_iff (s : Station) :
    (stationInfoSchema (stationToInfo s)).map infoToStation = some (stationObject s) ↔
      s.Readable := by
  constructor
  · intro h
    by_contra hs
    rw [stationInfo_unread s hs] at h
    cases h
  · intro hs
    rw [stationInfo_read s hs, Option.map_some, infoToStation_infoOf s hs]

/-! ### Where the stations come from -/

theorem prefixed_ne_empty {a b : String} (ha : a ≠ "") : a ++ b ≠ "" :=
  fun h => ha (String.append_eq_empty_iff.1 h).1

theorem RadioBrowserStation.readable_iff (s : RadioBrowserStation) :
    s.toStation.Readable ↔ trim s.name ≠ "" ∧ (s.urlResolved ≠ "" ∨ s.url ≠ "") := by
  have hid : s.toStation.id ≠ "" := prefixed_ne_empty (by decide)
  have hbitrate : s.toStation.bitrate ≠ some .nonFinite := by
    dsimp only [RadioBrowserStation.toStation]
    split
    · exact fun h => by cases h
    · exact fun h => by cases h
  have hurl : s.toStation.streamUrl ≠ "" ↔ s.urlResolved ≠ "" ∨ s.url ≠ "" := by
    dsimp only [RadioBrowserStation.toStation]
    by_cases h : s.urlResolved = ""
    · simp [h]
    · simp [h]
  exact ⟨fun h => ⟨h.name, hurl.1 h.streamUrl⟩, fun h => ⟨hid, h.1, hurl.2 h.2, hbitrate⟩⟩

theorem orUndefined_bind (s : Option String) : s.bind orUndefined = nonEmpty s := by
  cases s with
  | none => rfl
  | some t =>
    rw [nonEmpty_some]
    rfl

theorem TuneInItem.readable_iff (number : String → JsNumber) (proxied : String → String)
    (i : TuneInItem) :
    (i.toStation number proxied).Readable ↔
      trim (i.text.getD "Unknown station") ≠ "" ∧
      (∃ u, nonEmpty i.url = some u ∧ proxied u ≠ "") ∧
      ∀ b, nonEmpty i.bitrate = some b → number b ≠ .nonFinite := by
  have hid : (i.toStation number proxied).id ≠ "" := prefixed_ne_empty (by decide)
  have hurl : (i.toStation number proxied).streamUrl ≠ "" ↔
      ∃ u, nonEmpty i.url = some u ∧ proxied u ≠ "" := by
    dsimp only [TuneInItem.toStation]
    rw [orUndefined_bind]
    cases nonEmpty i.url with
    | none => simp
    | some u => simp
  have hbitrate : (i.toStation number proxied).bitrate ≠ some .nonFinite ↔
      ∀ b, nonEmpty i.bitrate = some b → number b ≠ .nonFinite := by
    dsimp only [TuneInItem.toStation]
    rw [orUndefined_bind]
    cases nonEmpty i.bitrate with
    | none => simp
    | some b => simp
  exact ⟨fun h => ⟨h.name, hurl.1 h.streamUrl, hbitrate.1 h.bitrate⟩,
    fun h => ⟨hid, h.1, hurl.2 h.2.1, hbitrate.2 h.2.2⟩⟩

/-! ### The five records -/

section Snapshots

variable {fields : Fields} {s : Station}

theorem station_blank (s : Station) : (stationToInfo s).blank = false := rfl

theorem member_station (h : (fields.map Prod.fst).Nodup)
    (hv : fields.lookup "station" = some (some (stationToInfo s))) :
    member "station" stationInfoSchema (clean fields) = stationInfoSchema (stationToInfo s) := by
  rw [member_clean h hv, kept_of_not_blank (station_blank s)]
  rfl

end Snapshots

theorem strongRef_read (r : StrongRef) : strongRefSchema (strongRef r) = some r := rfl

theorem optional_subject {fields : Fields} (h : (fields.map Prod.fst).Nodup)
    {subject : Option StrongRef} (hv : fields.lookup "subject" = some (subject.map strongRef)) :
    optional "subject" strongRefSchema (clean fields) = some subject := by
  rw [optional_clean h hv]
  cases subject with
  | none => rfl
  | some r =>
    rw [Option.map_some, kept_of_not_blank rfl]
    dsimp only
    rw [strongRef_read]
    rfl

theorem favorite_read (s : Station) (subject : Option StrongRef) {t : String} (ht : t ≠ "") :
    favoriteRecordSchema (buildFavoriteRecord s subject t) =
      (stationInfoSchema (stationToInfo s)).map fun i => ⟨i, subject, t⟩ := by
  unfold favoriteRecordSchema buildFavoriteRecord
  rw [optional_literal (by simp) (by decide) rfl, member_station (s := s) (by simp) rfl,
    optional_subject (by simp) rfl, member_text (by simp) rfl, if_neg ht]
  cases stationInfoSchema (stationToInfo s) with
  | none => rfl
  | some i => rfl

theorem actorStatus_read (s : Station) {t : String} (ht : t ≠ "") :
    actorStatusRecordSchema (buildActorStatusRecord s t) =
      (stationInfoSchema (stationToInfo s)).map fun i => ⟨i, t⟩ := by
  unfold actorStatusRecordSchema buildActorStatusRecord
  rw [optional_literal (by simp) (by decide) rfl, member_station (s := s) (by simp) rfl,
    member_text (by simp) rfl, if_neg ht]
  cases stationInfoSchema (stationToInfo s) with
  | none => rfl
  | some i => rfl

def EmojiFits (emoji : String) : Prop := 1 ≤ utf16Length emoji ∧ utf16Length emoji ≤ 32

instance (emoji : String) : Decidable (EmojiFits emoji) :=
  inferInstanceAs (Decidable (_ ∧ _))

def quickEmojis : List String :=
  ["❤️", "🔥", "🎶", "🎵", "🎧", "🎸", "🎹", "🥁", "🎤", "🕺", "💃", "🙌", "👏", "🤯", "😂"]

theorem quickEmojis_fit : ∀ emoji ∈ quickEmojis, EmojiFits emoji := by decide

theorem reaction_read (s : Station) (emoji : String) {t : String} (ht : t ≠ "") :
    reactionRecordSchema (buildReactionRecord s emoji t) =
      if EmojiFits emoji then (stationInfoSchema (stationToInfo s)).map fun i => ⟨i, emoji, t⟩
      else none := by
  have hn : ([("$type", text (some NSID.reaction)), ("station", some (stationToInfo s)),
      ("emoji", text (some emoji)), ("createdAt", text (some t))].map Prod.fst).Nodup := by simp
  unfold reactionRecordSchema buildReactionRecord
  rw [optional_literal hn (by decide) rfl, member_station (s := s) hn rfl,
    member_text hn (s := t) rfl, if_neg ht, member_clean hn rfl, kept_text, nonEmpty_some]
  by_cases hfits : EmojiFits emoji
  · have hne : emoji ≠ "" := by
      rintro rfl
      exact absurd hfits (by decide)
    have hread : refine string (fun e => 1 ≤ utf16Length e ∧ utf16Length e ≤ 32) (.str emoji) =
        some emoji := by
      unfold EmojiFits at hfits
      simp [refine, string, Option.filter_some, hfits]
    rw [if_neg hne, if_pos hfits, Option.map_some, Option.bind_some, hread]
    cases stationInfoSchema (stationToInfo s) with
    | none => rfl
    | some i => rfl
  · have hnone : ((if emoji = "" then none else some emoji).map Json.str).bind
        (refine string fun e => 1 ≤ utf16Length e ∧ utf16Length e ≤ 32) = none := by
      by_cases hne : emoji = ""
      · rw [if_pos hne]
        rfl
      · unfold EmojiFits at hfits
        rw [if_neg hne, Option.map_some, Option.bind_some]
        simp only [refine, string, Option.filter_some, decide_eq_true_eq]
        rw [if_neg hfits]
    rw [hnone, if_neg hfits]
    cases stationInfoSchema (stationToInfo s) with
    | none => rfl
    | some i => rfl

structure StationDraft.Readable (d : StationDraft) : Prop where
  name : d.name ≠ ""
  streamUrl : d.streamUrl ≠ ""

/-- The custom station an application holds after the draft is saved. -/
def StationDraft.toStation (d : StationDraft) (rkey : String) : Station :=
  { id := "custom:" ++ rkey, name := d.name, description := d.description, genre := d.genre,
    streamUrl := d.streamUrl, homepage := d.homepage, favicon := d.logoUrl, country := none,
    language := none, bitrate := none, codec := none, tags := none, source := .custom }

def recordOf (d : StationDraft) (t : String) : StationRecord :=
  { name := d.name, streamUrl := d.streamUrl, description := nonEmpty d.description,
    genre := nonEmpty d.genre, homepage := nonEmpty d.homepage, logo := nonEmpty d.logoUrl,
    tags := none, createdAt := t }

theorem stationRecord_read (d : StationDraft) {t : String} (ht : t ≠ "") :
    stationRecordSchema (buildStationRecord d t) =
      if d.name = "" ∨ d.streamUrl = "" then none else some (recordOf d t) := by
  have hn : ([("$type", text (some NSID.station)), ("name", text (some d.name)),
      ("streamUrl", text (some d.streamUrl)), ("description", text d.description),
      ("genre", text d.genre), ("homepage", text d.homepage), ("logo", text d.logoUrl),
      ("createdAt", text (some t))].map Prod.fst).Nodup := by simp
  unfold stationRecordSchema buildStationRecord
  rw [optional_literal hn (by decide) rfl, member_text hn rfl, member_text hn rfl,
    optional_text hn rfl, optional_text hn rfl, optional_text hn rfl, optional_text hn rfl,
    optional_absent hn rfl, member_text hn (s := t) rfl, if_neg ht]
  by_cases hname : d.name = ""
  · rw [if_pos hname, if_pos (Or.inl hname)]
    rfl
  · by_cases hurl : d.streamUrl = ""
    · rw [if_neg hname, if_pos hurl, if_pos (Or.inr hurl)]
      rfl
    · rw [if_neg hname, if_neg hurl, if_neg (not_or.2 ⟨hname, hurl⟩)]
      rfl

theorem stationRecordToStation_recordOf (d : StationDraft) (t rkey : String) :
    stationRecordToStation (recordOf d t) rkey = stationObject (d.toStation rkey) := by
  unfold stationRecordToStation stationObject clean
  simp only [recordOf, StationDraft.toStation, sourceText, List.filterMap_cons,
    List.filterMap_nil, kept_nonEmpty]
  rfl

theorem draft_reads_iff (d : StationDraft) {t : String} (ht : t ≠ "") (rkey : String) :
    (stationRecordSchema (buildStationRecord d t)).map (stationRecordToStation · rkey) =
      some (stationObject (d.toStation rkey)) ↔ d.Readable := by
  rw [stationRecord_read d ht]
  constructor
  · intro h
    by_contra hd
    have hblank : d.name = "" ∨ d.streamUrl = "" := by
      by_contra hnot
      exact hd ⟨fun hname => hnot (Or.inl hname), fun hurl => hnot (Or.inr hurl)⟩
    rw [if_pos hblank] at h
    cases h
  · intro hd
    rw [if_neg (not_or.2 ⟨hd.name, hd.streamUrl⟩), Option.map_some,
      stationRecordToStation_recordOf]

/-! ### Comments -/

structure GifDraft.Readable (g : GifDraft) : Prop where
  url : g.url ≠ ""
  width : g.width ≠ some .nonFinite
  height : g.height ≠ some .nonFinite

def gifOf (g : GifDraft) : GifEmbed :=
  { url := g.url, previewUrl := nonEmpty g.previewUrl, alt := nonEmpty g.alt,
    width := g.width.bind (·.value), height := g.height.bind (·.value) }

theorem numeralRead_finite {n : Option JsNumber} (h : n ≠ some .nonFinite) :
    numeralRead n = some (n.bind (·.value)) := by
  match n with
  | none => rfl
  | some (.finite q) => rfl
  | some .nonFinite => exact (h rfl).elim

theorem gif_fields (g : GifDraft) : gifEmbedSchema (gifJson g) = (do
    let url ← (if g.url = "" then none else some g.url)
    let width ← numeralRead g.width
    let height ← numeralRead g.height
    return { url, previewUrl := nonEmpty g.previewUrl, alt := nonEmpty g.alt, width, height }) := by
  have hn : ([("url", text (some g.url)), ("previewUrl", text g.previewUrl), ("alt", text g.alt),
      ("width", numeral g.width), ("height", numeral g.height)].map Prod.fst).Nodup := by simp
  unfold gifEmbedSchema gifJson
  rw [member_text hn rfl, optional_text hn rfl, optional_text hn rfl, optional_numeral hn rfl,
    optional_numeral hn rfl]
  rfl

theorem gif_read (g : GifDraft) (h : g.Readable) :
    gifEmbedSchema (gifJson g) = some (gifOf g) := by
  rw [gif_fields, if_neg h.url, numeralRead_finite h.width, numeralRead_finite h.height]
  rfl

theorem gif_unread (g : GifDraft) (h : ¬ g.Readable) : gifEmbedSchema (gifJson g) = none := by
  rw [gif_fields]
  by_cases hurl : g.url = ""
  · rw [if_pos hurl]
    rfl
  · rw [if_neg hurl]
    by_cases hw : g.width = some .nonFinite
    · rw [hw]
      rfl
    · have hh : g.height = some .nonFinite := by
        by_contra hh
        exact h ⟨hurl, hw, hh⟩
      rw [hh, numeralRead_finite hw]
      rfl

def mentionOf (f : Facet) : Mention := ⟨f.did, f.byteStart, f.byteEnd⟩

theorem offset_read (n : ℕ) : offset (.num (n : ℚ)) = some (n : ℚ) := by
  have hn : (0 : ℚ) ≤ n := Rat.natCast_nonneg
  simp [offset, refine, number, Option.filter_some, hn]

theorem facet_read (f : Facet) : mentionSchema (facetJson f) = some (mentionOf f) := by
  have hstart : member "byteStart" offset (facetJson f) = some (f.byteStart : ℚ) :=
    offset_read f.byteStart
  have hend : member "byteEnd" offset (facetJson f) = some (f.byteEnd : ℚ) :=
    offset_read f.byteEnd
  unfold mentionSchema
  rw [hstart, hend]
  rfl

theorem facets_read (facets : List Facet) :
    array mentionSchema (.arr (facets.map facetJson)) = some (facets.map mentionOf) := by
  induction facets with
  | nil => rfl
  | cons f facets ih =>
    simp only [array] at ih ⊢
    rw [List.map_cons, List.mapM_cons, facet_read, ih]
    rfl

theorem comment_members (s : Station) (body : String) (facets : List Facet)
    (gif : Option GifDraft) (t : String) :
    buildCommentRecord s body facets gif t =
      .obj (((commentFields s facets gif t).filterMap
        fun f => (kept f.2).map fun j => (f.1, j)) ++ [("text", .str body)]) := rfl

section CommentMembers

variable {α : Type} {s : Station} {body : String} {facets : List Facet} {gif : Option GifDraft}
  {t key : String}

theorem commentFields_nodup : ((commentFields s facets gif t).map Prod.fst).Nodup := by
  simp [commentFields]

theorem lookup_comment (hkey : key ≠ "text") :
    (((commentFields s facets gif t).filterMap fun f => (kept f.2).map fun j => (f.1, j)) ++
      [("text", Json.str body)]).lookup key =
      ((commentFields s facets gif t).filterMap
        fun f => (kept f.2).map fun j => (f.1, j)).lookup key := by
  have hbeq : (key == "text") = false := by simpa using hkey
  rw [List.lookup_append, List.lookup_cons, hbeq, List.lookup_nil, Option.or_none]

theorem comment_member (hkey : key ≠ "text") (sch : Schema α) :
    member key sch (buildCommentRecord s body facets gif t) =
      member key sch (clean (commentFields s facets gif t)) := by
  rw [comment_members, clean]
  dsimp only [member]
  rw [lookup_comment hkey]

theorem comment_optional (hkey : key ≠ "text") (sch : Schema α) :
    optional key sch (buildCommentRecord s body facets gif t) =
      optional key sch (clean (commentFields s facets gif t)) := by
  rw [comment_members, clean]
  dsimp only [Schema.optional]
  rw [lookup_comment hkey]

theorem comment_text (sch : Schema α) :
    member "text" sch (buildCommentRecord s body facets gif t) = sch (.str body) := by
  have hn : ((commentFields s facets gif t).map Prod.fst).Nodup := commentFields_nodup
  have hnone := lookup_clean hn "text"
  rw [comment_members]
  dsimp only [member]
  rw [List.lookup_append, hnone]
  rfl

end CommentMembers

/-- A comment the schema reads, beside its station. -/
structure CommentFits (body : String) (gif : Option GifDraft) : Prop where
  body : utf16Length body ≤ 3000
  gif : ∀ g, gif = some g → g.Readable

theorem optional_facets {s : Station} {facets : List Facet} {gif : Option GifDraft} {t : String} :
    optional "facets" (array mentionSchema) (clean (commentFields s facets gif t)) =
      some (if facets = [] then none else some (facets.map mentionOf)) := by
  rw [optional_clean commentFields_nodup rfl]
  by_cases hf : facets = []
  · rw [if_pos hf, if_pos hf]
    rfl
  · rw [if_neg hf, if_neg hf, kept_of_not_blank rfl]
    dsimp only
    rw [facets_read]
    rfl

/-- What a schema reads of the GIF of a comment. -/
def gifRead : Option GifDraft → Option (Option GifEmbed)
  | none => some none
  | some g => (gifEmbedSchema (gifJson g)).map some

theorem optional_gif {s : Station} {facets : List Facet} {gif : Option GifDraft} {t : String} :
    optional "gif" gifEmbedSchema (clean (commentFields s facets gif t)) = gifRead gif := by
  rw [optional_clean commentFields_nodup rfl]
  cases gif with
  | none => rfl
  | some g =>
    rw [Option.map_some, kept_of_not_blank rfl]
    rfl

theorem comment_fields (s : Station) (body : String) (facets : List Facet)
    (gif : Option GifDraft) {t : String} (ht : t ≠ "") :
    commentRecordSchema (buildCommentRecord s body facets gif t) = (do
      let station ← stationInfoSchema (stationToInfo s)
      let text ← refine string (fun b => utf16Length b ≤ 3000) (.str body)
      let gif ← gifRead gif
      return { station, text, facets := if facets = [] then none else some (facets.map mentionOf),
               gif, createdAt := t }) := by
  unfold commentRecordSchema
  rw [comment_optional (by decide), comment_member (by decide), comment_text,
    comment_optional (by decide), comment_optional (by decide), comment_member (by decide),
    optional_literal commentFields_nodup (by decide) rfl,
    member_station (s := s) commentFields_nodup rfl, optional_facets, optional_gif,
    member_text commentFields_nodup (s := t) rfl, if_neg ht]
  rfl

theorem comment_read (s : Station) {body : String} (facets : List Facet)
    {gif : Option GifDraft} {t : String} (ht : t ≠ "") (h : CommentFits body gif) :
    commentRecordSchema (buildCommentRecord s body facets gif t) =
      (stationInfoSchema (stationToInfo s)).map fun i =>
        { station := i, text := body,
          facets := if facets = [] then none else some (facets.map mentionOf),
          gif := gif.map gifOf, createdAt := t } := by
  have hbody : refine string (fun b => utf16Length b ≤ 3000) (.str body) = some body := by
    simp [refine, string, Option.filter_some, h.body]
  have hgif : gifRead gif = some (gif.map gifOf) := by
    cases gif with
    | none => rfl
    | some g =>
      rw [gifRead, gif_read g (h.gif g rfl)]
      rfl
  rw [comment_fields s body facets gif ht, hbody, hgif]
  cases stationInfoSchema (stationToInfo s) with
  | none => rfl
  | some i => rfl

theorem comment_unread (s : Station) {body : String} (facets : List Facet)
    {gif : Option GifDraft} {t : String} (ht : t ≠ "") (h : ¬ CommentFits body gif) :
    commentRecordSchema (buildCommentRecord s body facets gif t) = none := by
  rw [comment_fields s body facets gif ht]
  cases stationInfoSchema (stationToInfo s) with
  | none => rfl
  | some i =>
    by_cases hbody : utf16Length body ≤ 3000
    · have hgif : gifRead gif = none := by
        cases gif with
        | none =>
          exact absurd ⟨hbody, fun g hg => by cases hg⟩ h
        | some g =>
          have hg : ¬ g.Readable := by
            intro hg
            refine h ⟨hbody, fun g' hg' => ?_⟩
            cases hg'
            exact hg
          rw [gifRead, gif_unread g hg]
          rfl
      rw [hgif]
      cases refine string (fun b => utf16Length b ≤ 3000) (.str body) with
      | none => rfl
      | some b => rfl
    · have hnone : refine string (fun b => utf16Length b ≤ 3000) (.str body) = none := by
        simp [refine, string, Option.filter_some, hbody]
      rw [hnone]
      rfl

/-! ### Round trips -/

/-- What a client saves: a station it plays, likes, comments on and reacts to, and a draft of
a station of its own. -/
structure Submission where
  station : Station
  subject : Option StrongRef
  draft : StationDraft
  rkey : String
  body : String
  facets : List Facet
  gif : Option GifDraft
  emoji : String

/-- Every record of the submission is accepted and maps back to its station. -/
structure Submission.RoundTrips (x : Submission) (t : String) : Prop where
  favorite : (favoriteRecordSchema (buildFavoriteRecord x.station x.subject t)).map
    favoriteRecordToStation = some (stationObject x.station)
  custom : (stationRecordSchema (buildStationRecord x.draft t)).map
    (stationRecordToStation · x.rkey) = some (stationObject (x.draft.toStation x.rkey))
  status : (actorStatusRecordSchema (buildActorStatusRecord x.station t)).map
    (infoToStation ·.station) = some (stationObject x.station)
  comment : (commentRecordSchema (buildCommentRecord x.station x.body x.facets x.gif t)).map
    (infoToStation ·.station) = some (stationObject x.station)
  reaction : (reactionRecordSchema (buildReactionRecord x.station x.emoji t)).map
    (infoToStation ·.station) = some (stationObject x.station)

structure Submission.Readable (x : Submission) : Prop where
  station : x.station.Readable
  draft : x.draft.Readable
  comment : CommentFits x.body x.gif
  emoji : EmojiFits x.emoji

theorem roundTrips_iff (x : Submission) (t : String) (ht : t ≠ "") :
    x.RoundTrips t ↔ x.Readable := by
  have hstation := station_reads_iff x.station
  constructor
  · intro h
    refine ⟨?_, (draft_reads_iff x.draft ht x.rkey).1 h.custom, ?_, ?_⟩
    · have hfavorite := h.favorite
      rw [favorite_read x.station x.subject ht, Option.map_map] at hfavorite
      exact hstation.1 hfavorite
    · by_contra hfits
      have hcomment := h.comment
      rw [comment_unread x.station x.facets ht hfits] at hcomment
      cases hcomment
    · by_contra hfits
      have hreaction := h.reaction
      rw [reaction_read x.station x.emoji ht, if_neg hfits] at hreaction
      cases hreaction
  · intro h
    have hread := hstation.2 h.station
    refine ⟨?_, (draft_reads_iff x.draft ht x.rkey).2 h.draft, ?_, ?_, ?_⟩
    · rw [favorite_read x.station x.subject ht, Option.map_map]
      exact hread
    · rw [actorStatus_read x.station ht, Option.map_map]
      exact hread
    · rw [comment_read x.station x.facets ht h.comment, Option.map_map]
      exact hread
    · rw [reaction_read x.station x.emoji ht, if_pos h.emoji, Option.map_map]
      exact hread

def plainStation : Station :=
  { id := "rb:1", name := "Jazz", description := none, genre := none,
    streamUrl := "http://ice.example/jazz", homepage := none, favicon := none, country := none,
    language := none, bitrate := none, codec := none, tags := none, source := .radioBrowser }

def plainSubmission : Submission :=
  { station := plainStation, subject := none,
    draft := { name := "Mine", streamUrl := "http://ice.example/mine", description := none,
               genre := none, homepage := none, logoUrl := none },
    rkey := "3kabc", body := "hello", facets := [], gif := none, emoji := "🔥" }

theorem roundTrips_iff_created : plainSubmission.RoundTrips "2026-01-01T00:00:00.000Z" :=
  (roundTrips_iff plainSubmission "2026-01-01T00:00:00.000Z" (by decide)).2
    ⟨⟨by decide, by decide, by decide, by decide⟩, ⟨by decide, by decide⟩,
      ⟨by decide, fun g hg => by cases hg⟩, by decide⟩

/-- A station of the directory whose name is blank. -/
def blankName : RadioBrowserStation :=
  { stationuuid := "960e57c5-0601-11e8-ae97-52543be04c81", name := " ",
    url := "http://ice.example/stream", urlResolved := "http://ice.example/stream",
    homepage := "", favicon := "", tags := "jazz", country := "France", language := "",
    codec := "MP3", bitrate := 128 }

def blankSubmission : Submission := { plainSubmission with station := blankName.toStation }

/-- The indexer drops the favorite of such a station. -/
theorem blank_name_unread :
    favoriteRecordSchema (buildFavoriteRecord blankName.toStation none
      "2026-01-01T00:00:00.000Z") = none ∧
    ¬ blankSubmission.RoundTrips "2026-01-01T00:00:00.000Z" := by
  have hnone : favoriteRecordSchema (buildFavoriteRecord blankName.toStation none
      "2026-01-01T00:00:00.000Z") = none := by
    rw [favorite_read _ _ (by decide), stationInfo_unread]
    · rfl
    · intro h
      exact h.name (by decide)
  refine ⟨hnone, fun h => ?_⟩
  have hfavorite := h.favorite
  dsimp only [blankSubmission, plainSubmission] at hfavorite
  rw [hnone] at hfavorite
  cases hfavorite

end Atradio.Lexicons
