import Atradio.Lib.Utf8Slices
import Atradio.Web.RichText

/-! # What the segments of a comment lose (`atproto/richtext.ts`)

The facets of a comment come from other people's records. Those that are used cut the bytes of the
text, and every run between two cuts is decoded by itself. -/

namespace Atradio.Web
open Atradio.Lib Atradio.Lexicons

def CommentSegment.value : CommentSegment → Units
  | .text value | .mention value _ | .link value _ => value

/-- The facets that the loop does not skip. -/
def usedFacets (size : ℕ) : ℕ → List Facet → List Facet
  | _, [] => []
  | cursor, f :: fs =>
    if f.byteStart < cursor || size < f.byteEnd || f.byteEnd ≤ f.byteStart then
      usedFacets size cursor fs
    else f :: usedFacets size f.byteEnd fs

/-- The runs of bytes that used facets cut from `cursor` on. -/
def pieces (bytes : List UInt8) : ℕ → List Facet → List (List UInt8)
  | cursor, [] => if cursor < bytes.length then [bytes.drop cursor] else []
  | cursor, f :: fs =>
    (if cursor < f.byteStart then [(bytes.take f.byteStart).drop cursor] else []) ++
      (bytes.take f.byteEnd).drop f.byteStart :: pieces bytes f.byteEnd fs

def usedBy (text : Units) (facets : List Facet) : List Facet :=
  usedFacets (encode text).length 0 (facets.insertionSort fun a b => a.byteStart ≤ b.byteStart)

/-- The segments make up the text, and the mentions among them are those of facets that lie apart
and in order. -/
structure Lossless (text : Units) (facets : List Facet) : Prop where
  whole : (segmentComment text facets).flatMap CommentSegment.value = text
  apart : ∃ used : List Facet, used ⊆ facets ∧ used.Pairwise (fun a b => a.byteEnd ≤ b.byteStart) ∧
    (segmentComment text facets).filterMap CommentSegment.mentioned =
      used.map fun f => (decodeSlice (encode text) f.byteStart f.byteEnd, f.did)

/-- Without facets nothing is decoded. -/
def CutsCleanly (text : Units) (facets : List Facet) : Prop :=
  facets = [] ∨ isPaired text = true ∧
    ∀ s ∈ pieces (encode text) 0 (usedBy text facets), BeginsCleanly s

/-! ### Links -/

theorem urlAt_prefix {s url : Units} (h : urlAt s = some url) : url <+: s ∧ 0 < url.length := by
  obtain ⟨scheme, hfind, hurl⟩ := Option.bind_eq_some_iff.1 h
  have hscheme : scheme.isPrefixOf s = true := by simpa using List.find?_some hfind
  obtain ⟨rest, rfl⟩ := List.isPrefixOf_iff_prefix.1 hscheme
  rw [List.drop_left] at hurl
  obtain ⟨hlength, rfl⟩ := Option.ite_some_none_eq_some.1 hurl
  have hrun := (List.rdropWhile_prefix endsUrl _).trans
    (List.takeWhile_prefix (l := rest) fun u => !(isSpaceUnit u || u.toNat = 60))
  refine ⟨(List.prefix_append_right_inj scheme).2 hrun, ?_⟩
  rw [List.length_append]
  omega

theorem splitFrom_value (skip : ℕ) (plain s : Units) :
    (splitFrom skip plain s).flatMap CommentSegment.value = plain ++ s.drop skip := by
  have htext : ∀ value, (textSegment value).flatMap CommentSegment.value = value := by
    intro value
    unfold textSegment
    split
    · rename_i hnil
      rw [hnil]
      rfl
    · exact List.flatMap_singleton ..
  induction s generalizing skip plain with
  | nil =>
    rw [splitFrom, htext, List.drop_nil, List.append_nil]
  | cons u s ih =>
    cases skip with
    | succ skip => exact ih skip plain
    | zero =>
      rw [splitFrom, List.drop_zero]
      cases hurl : urlAt (u :: s) with
      | none =>
        dsimp only
        rw [ih, List.drop_zero, List.append_assoc, List.singleton_append]
      | some url =>
        obtain ⟨⟨rest, hrest⟩, hpos⟩ := urlAt_prefix hurl
        obtain ⟨n, hn⟩ := Nat.exists_eq_succ_of_ne_zero hpos.ne'
        have hdrop : s.drop (url.length - 1) = rest := by
          have hcons : (u :: s).drop url.length = rest := by rw [← hrest, List.drop_left]
          rw [hn, List.drop_succ_cons] at hcons
          rw [hn]
          exact hcons
        dsimp only
        rw [List.flatMap_append, htext, List.flatMap_cons, ih, hdrop, ← hrest]
        rfl

theorem splitLinks_value (text : Units) :
    (splitLinks text).flatMap CommentSegment.value = text := splitFrom_value 0 [] text

/-! ### The pieces -/

section Pieces

variable {bytes : List UInt8}

theorem usedFacets_apart (size cursor : ℕ) (fs : List Facet) :
    (∀ f ∈ usedFacets size cursor fs, f ∈ fs ∧ cursor ≤ f.byteStart) ∧
      (usedFacets size cursor fs).Pairwise fun a b => a.byteEnd ≤ b.byteStart := by
  induction fs generalizing cursor with
  | nil => exact ⟨nofun, .nil⟩
  | cons f fs ih =>
    rw [usedFacets]
    split
    · obtain ⟨hall, hapart⟩ := ih cursor
      exact ⟨fun g hg => ⟨List.mem_cons_of_mem f (hall g hg).1, (hall g hg).2⟩, hapart⟩
    · rename_i hused
      simp only [Bool.or_eq_true, decide_eq_true_eq, not_or, Nat.not_lt, Nat.not_le] at hused
      obtain ⟨hall, hapart⟩ := ih f.byteEnd
      refine ⟨List.forall_mem_cons.2 ⟨⟨List.mem_cons_self .., hused.1.1⟩, fun g hg => ?_⟩,
        List.pairwise_cons.2 ⟨fun g hg => (hall g hg).2, hapart⟩⟩
      have hle := (hall g hg).2
      exact ⟨List.mem_cons_of_mem f (hall g hg).1, by omega⟩

theorem drop_take (start : ℕ) {cut : ℕ} (h : start ≤ cut) :
    (bytes.take cut).drop start ++ bytes.drop cut = bytes.drop start := by
  rw [List.drop_take]
  have hrest : bytes.drop cut = (bytes.drop start).drop (cut - start) := by
    rw [List.drop_drop, Nat.add_sub_cancel' h]
  rw [hrest, List.take_append_drop]

/-- The pieces are the bytes from `cursor` on, and none of them is empty. -/
theorem pieces_flatten (cursor : ℕ) (fs : List Facet) :
    (pieces bytes cursor (usedFacets bytes.length cursor fs)).flatten = bytes.drop cursor ∧
      ∀ s ∈ pieces bytes cursor (usedFacets bytes.length cursor fs), s ≠ [] := by
  have hne : ∀ start cut, start < cut → cut ≤ bytes.length → (bytes.take cut).drop start ≠ [] := by
    intro start cut hlt hle hnil
    have hlength := congrArg List.length hnil
    rw [List.length_drop, List.length_take, Nat.min_eq_left hle, List.length_nil] at hlength
    omega
  induction fs generalizing cursor with
  | nil =>
    rw [usedFacets, pieces]
    split
    · rename_i hlt
      refine ⟨List.append_nil _, ?_⟩
      simpa using hlt
    · rename_i hge
      exact ⟨(List.drop_eq_nil_of_le (Nat.not_lt.1 hge)).symm, nofun⟩
  | cons f fs ih =>
    rw [usedFacets]
    split
    · exact ih cursor
    · rename_i hused
      simp only [Bool.or_eq_true, decide_eq_true_eq, not_or, Nat.not_lt, Nat.not_le] at hused
      obtain ⟨⟨hcursor, hend⟩, hlt⟩ := hused
      obtain ⟨hflatten, hothers⟩ := ih f.byteEnd
      have hmention := hne f.byteStart f.byteEnd hlt hend
      rw [pieces, List.flatten_append, List.flatten_cons, hflatten, drop_take f.byteStart hlt.le]
      by_cases hgap : cursor < f.byteStart
      · rw [if_pos hgap]
        refine ⟨?_, ?_⟩
        · rw [List.flatten_singleton]
          exact drop_take cursor hcursor
        · have hplain := hne cursor f.byteStart hgap (by omega)
          exact List.forall_mem_append.2 ⟨by simpa using hplain,
            List.forall_mem_cons.2 ⟨hmention, hothers⟩⟩
      · obtain rfl : cursor = f.byteStart := by omega
        rw [if_neg hgap]
        exact ⟨rfl, List.forall_mem_cons.2 ⟨hmention, hothers⟩⟩

theorem segmentFrom_value (cursor : ℕ) (fs : List Facet) :
    (segmentFrom bytes cursor fs).flatMap CommentSegment.value =
      (pieces bytes cursor (usedFacets bytes.length cursor fs)).flatMap decode := by
  induction fs generalizing cursor with
  | nil =>
    rw [segmentFrom, usedFacets, pieces]
    split
    · rw [splitLinks_value, decodeSlice, List.take_length]
      exact (List.flatMap_singleton ..).symm
    · rfl
  | cons f fs ih =>
    rw [segmentFrom, usedFacets]
    split
    · exact ih cursor
    · rw [pieces, List.flatMap_append, List.flatMap_append, List.flatMap_cons, List.flatMap_cons,
        ih]
      refine congrArg₂ (· ++ ·) ?_ rfl
      split
      · rw [splitLinks_value]
        exact (List.flatMap_singleton ..).symm
      · rfl

theorem segmentFrom_mentions (cursor : ℕ) (fs : List Facet) :
    (segmentFrom bytes cursor fs).filterMap CommentSegment.mentioned =
      (usedFacets bytes.length cursor fs).map fun f =>
        (decodeSlice bytes f.byteStart f.byteEnd, f.did) := by
  induction fs generalizing cursor with
  | nil =>
    rw [segmentFrom, usedFacets]
    split
    · exact splitLinks_mentioned _
    · rfl
  | cons f fs ih =>
    rw [segmentFrom, usedFacets]
    split
    · exact ih cursor
    · rw [List.filterMap_append, List.filterMap_cons, ih, List.map_cons]
      split
      · rw [splitLinks_mentioned]
        rfl
      · rfl

end Pieces

theorem segmentComment_facets (text : Units) {facets : List Facet} (hne : facets ≠ []) :
    segmentComment text facets = segmentFrom (encode text) 0
      (facets.insertionSort fun a b => a.byteStart ≤ b.byteStart) :=
  if_neg hne

/-- The mentions are those of the facets that are used, whatever the facets are. -/
theorem segments_apart (text : Units) (facets : List Facet) :
    ∃ used : List Facet, used ⊆ facets ∧ used.Pairwise (fun a b => a.byteEnd ≤ b.byteStart) ∧
      (segmentComment text facets).filterMap CommentSegment.mentioned =
        used.map fun f => (decodeSlice (encode text) f.byteStart f.byteEnd, f.did) := by
  by_cases hnone : facets = []
  · subst hnone
    have hplain : segmentComment text [] = splitLinks text := if_pos rfl
    refine ⟨[], List.nil_subset _, .nil, ?_⟩
    rw [hplain, splitLinks_mentioned]
    rfl
  · refine ⟨usedBy text facets, fun f hf => ?_, (usedFacets_apart _ 0 _).2, ?_⟩
    · have hsorted := ((usedFacets_apart _ 0 _).1 f hf).1
      exact (List.perm_insertionSort _ facets).mem_iff.1 hsorted
    · rw [segmentComment_facets text hnone, segmentFrom_mentions]
      rfl

theorem segments_whole_iff (text : Units) (facets : List Facet) :
    (segmentComment text facets).flatMap CommentSegment.value = text ↔
      CutsCleanly text facets := by
  by_cases hnone : facets = []
  · subst hnone
    have hplain : segmentComment text [] = splitLinks text := if_pos rfl
    rw [hplain, splitLinks_value]
    exact iff_of_true rfl (Or.inl rfl)
  · obtain ⟨hflatten, hne⟩ := @pieces_flatten (encode text) 0
      (facets.insertionSort fun a b => a.byteStart ≤ b.byteStart)
    rw [segmentComment_facets text hnone, segmentFrom_value, decode_slices_iff text hne hflatten]
    exact (or_iff_right hnone).symm

/-- The segments lose nothing exactly if there are no facets, or no surrogate of the text stands
alone and every piece begins with a character other than a byte order mark. -/
theorem segments_lossless_iff (text : Units) (facets : List Facet) :
    Lossless text facets ↔ CutsCleanly text facets := by
  rw [← segments_whole_iff text facets]
  exact ⟨Lossless.whole, fun hwhole => ⟨hwhole, segments_apart text facets⟩⟩

/-- `é` with a mention of its first byte. -/
theorem character_cut : ¬ Lossless [0xE9] [⟨"did:plc:a", 0, 1⟩] := by
  intro h
  exact absurd h.whole (by decide)

end Atradio.Web
