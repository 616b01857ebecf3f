import Atradio.Discord.Format
import Atradio.Lib.Percent
import Atradio.Lib.Utf16
import Mathlib.Data.List.DropRight

/-! # Tags in the path of a request (`browser.rs`, `radioBrowser.ts`) -/

namespace Atradio.Cli
open Atradio.Lib Atradio.Discord

/-! ### The two requests -/

structure TagRequest where
  url : String
  query : List (String × String)

def isUnreserved (c : Char) : Bool := c.isAlphanum || c ∈ "-_.~".toList

def urlencodeChar (c : Char) : List Char :=
  if isUnreserved c then [c]
  else if c = ' ' then "%20".toList
  else '%' :: hex02 c.toNat

def urlencode (s : String) : String := String.ofList (s.toList.flatMap urlencodeChar)

def byTag (base tag : String) (limit : ℕ) : TagRequest where
  url := base ++ "/json/stations/bytag/" ++ urlencode tag
  query := [("limit", toString limit), ("hidebroken", "true"), ("order", "clickcount"),
    ("reverse", "true")]

/-- The web's, which also says where its page begins. -/
def browseRadioBrowserByTag (base tag : String) (offset limit : ℕ) : TagRequest where
  url := base ++ "/json/stations/bytag/" ++ encodeURIComponent tag
  query := [("offset", toString offset), ("limit", toString limit), ("hidebroken", "true"),
    ("order", "clickcount"), ("reverse", "true")]

/-- The scalar values a server reads from a segment of the path. -/
def readSegment (s : String) : List ℕ := decodeFrom none (percentDecode s.toList)

def scalarValues (s : String) : List ℕ := s.toList.map Char.toNat

/-- The tag is escaped, and reads back from the terminal's path as it does from the web's. -/
structure Carried (tag : String) : Prop where
  escaped : Escaped isUnreserved (urlencode tag).toList
  reads : readSegment (urlencode tag) = scalarValues tag
  web : readSegment (encodeURIComponent tag) = scalarValues tag

/-! ### One character -/

/-- What `encodeURIComponent` leaves as it is. -/
def isComponent (c : Char) : Bool := c.isAlphanum || c ∈ "-_.!~*'()".toList

theorem isComponent_of_unreserved {c : Char} (hc : isUnreserved c = true) :
    isComponent c = true := by
  rw [isUnreserved, Bool.or_eq_true, decide_eq_true_eq] at hc
  rw [isComponent, Bool.or_eq_true, decide_eq_true_eq]
  have hmarks : ("-_.~".toList.all fun d => "-_.!~*'()".toList.contains d) = true := rfl
  exact hc.imp_right fun hmark => List.contains_iff_mem.1 (List.all_eq_true.1 hmarks c hmark)

theorem ne_percent {c : Char} (hc : isComponent c = true) : c ≠ '%' := by
  rintro rfl
  exact absurd hc (by decide)

theorem alphanum_ascii {c : Char} (hc : c.isAlphanum = true) : c.toNat < 0x80 := by
  have hranges : (decide (65 ≤ c.val ∧ c.val ≤ 90) ||
      (decide (97 ≤ c.val) && decide (c.val ≤ 122)) ||
      (decide (48 ≤ c.val) && decide (c.val ≤ 57))) = true := hc
  simp only [Bool.or_eq_true, Bool.and_eq_true, decide_eq_true_eq, UInt32.le_iff_toNat_le,
    UInt32.reduceToNat, Char.toNat_val] at hranges
  omega

theorem component_ascii {c : Char} (hc : isComponent c = true) : c.toNat < 0x80 := by
  rw [isComponent, Bool.or_eq_true, decide_eq_true_eq] at hc
  rcases hc with hletter | hmark
  · exact alphanum_ascii hletter
  · have hmarks : ("-_.!~*'()".toList.all fun d => decide (d.toNat < 0x80)) = true := rfl
    exact of_decide_eq_true (List.all_eq_true.1 hmarks c hmark)

theorem percentDecode_component {c : Char} (hc : isComponent c = true) (s : List Char) :
    percentDecode (c :: s) = UInt8.ofNat c.toNat :: percentDecode s := by
  rw [percentDecode_plain (ne_percent hc), scalarBytes_ascii (component_ascii hc)]
  rfl

/-- Below `U+0100` a character is sent as the byte of its number. -/
theorem percentDecode_byte {c : Char} (hc : c.toNat < 0x100) (s : List Char) :
    percentDecode (urlencodeChar c ++ s) = UInt8.ofNat c.toNat :: percentDecode s := by
  unfold urlencodeChar
  split
  · rename_i hplain
    exact percentDecode_component (isComponent_of_unreserved hplain) s
  split
  · rename_i hspace
    rw [hspace]
    exact percentDecode_escape (x := 2) (y := 0) rfl rfl s
  · have hescape := percentDecode_escape (hexValue_upperDigit (n := c.toNat / 16) (by omega))
      (hexValue_upperDigit (n := c.toNat % 16) (by omega)) s
    have hsum : 16 * (c.toNat / 16) + c.toNat % 16 = c.toNat := by omega
    rw [hsum] at hescape
    rw [hex02_byte hc]
    exact hescape

theorem urlencodeChar_wide {c : Char} (hc : 0x80 ≤ c.toNat) :
    urlencodeChar c = '%' :: hex02 c.toNat := by
  have hplain : ¬ isUnreserved c = true := by
    intro h
    have hascii := component_ascii (isComponent_of_unreserved h)
    omega
  have hspace : c ≠ ' ' := by
    rintro rfl
    exact absurd hc (by decide)
  rw [urlencodeChar, if_neg hplain, if_neg hspace]

/-- From there on its first two digits are sent as a byte, and the others as text. -/
theorem percentDecode_wide {c : Char} (hc : 0x100 ≤ c.toNat) : ∃ b r rest,
    (∀ a ∈ r :: rest, a.toNat < 0x80) ∧
      ∀ s, percentDecode (urlencodeChar c ++ s) = b :: r :: rest ++ percentDecode s := by
  obtain ⟨x, hx, y, hy, z, hz, ds, hhex, hds⟩ := hex02_long hc
  have hdigits : ∀ d ∈ upperDigit z :: ds, ∃ n < 16, d = upperDigit n :=
    List.forall_mem_cons.2 ⟨⟨z, hz, rfl⟩, hds⟩
  refine ⟨UInt8.ofNat (16 * x + y), UInt8.ofNat (upperDigit z).toNat,
    ds.map fun d => UInt8.ofNat d.toNat, ?_, fun s => ?_⟩
  · intro a ha
    have hmap : a ∈ (upperDigit z :: ds).map fun d => UInt8.ofNat d.toNat := ha
    obtain ⟨d, hd, rfl⟩ := List.mem_map.1 hmap
    obtain ⟨n, hn, rfl⟩ := hdigits d hd
    have hascii := upperDigit_ascii hn
    rwa [toNat_byte (by omega)]
  · have hescape := percentDecode_escape (hexValue_upperDigit hx) (hexValue_upperDigit hy)
      (upperDigit z :: ds ++ s)
    rw [percentDecode_digits hdigits] at hescape
    rw [urlencodeChar_wide (by omega), hhex]
    exact hescape

/-! ### What is read back -/

def readBack (cs : List Char) : List ℕ :=
  decodeFrom none (percentDecode (cs.flatMap urlencodeChar))

theorem readSegment_urlencode (tag : String) :
    readSegment (urlencode tag) = readBack tag.toList := by
  rw [readSegment, urlencode, String.toList_ofList]
  rfl

theorem readBack_ascii {c : Char} (hc : c.toNat < 0x80) (cs : List Char) :
    readBack (c :: cs) = c.toNat :: readBack cs := by
  have hbyte : (UInt8.ofNat c.toNat).toNat = c.toNat := toNat_byte (by omega)
  rw [readBack, List.flatMap_cons, percentDecode_byte (by omega),
    decodeFrom_low (by rwa [hbyte]), hbyte]
  rfl

/-- A character from `U+0100` on is read as one of ASCII or U+FFFD, and text in ASCII behind it. -/
theorem readBack_wide {c : Char} (hc : 0x100 ≤ c.toNat) (cs : List Char) : ∃ y r rest,
    (y < 0x80 ∨ y = 0xFFFD) ∧ (∀ a ∈ r :: rest, a < 0x80) ∧
      readBack (c :: cs) = y :: (r :: rest ++ readBack cs) := by
  obtain ⟨b, r, rest, hascii, hsent⟩ := percentDecode_wide hc
  have hread : decodeFrom none (r :: rest ++ percentDecode (cs.flatMap urlencodeChar)) =
      (r :: rest).map UInt8.toNat ++ readBack cs := decodeFrom_lows hascii _
  have hmap : ∀ a ∈ (r :: rest).map UInt8.toNat, a < 0x80 := by
    intro a ha
    obtain ⟨d, hd, rfl⟩ := List.mem_map.1 ha
    exact hascii d hd
  rw [readBack, List.flatMap_cons, hsent]
  by_cases hb : b.toNat < 0x80
  · refine ⟨b.toNat, r.toNat, rest.map UInt8.toNat, Or.inl hb, hmap, ?_⟩
    rw [List.cons_append, decodeFrom_low hb, hread]
    rfl
  · have hr := hascii r (List.mem_cons_self ..)
    refine ⟨0xFFFD, r.toNat, rest.map UInt8.toNat, Or.inr rfl, hmap, ?_⟩
    rw [List.cons_append, List.cons_append, decodeFrom_broken (by omega) hr, ← List.cons_append,
      hread]
    rfl

/-- A character between ASCII and `U+0100` is read where two are sent. -/
theorem readBack_pair {c : Char} (hlow : 0x80 ≤ c.toNat) (hhigh : c.toNat < 0x100)
    {cs : List Char} {y : ℕ} {t : List ℕ} (h : readBack (c :: cs) = y :: t) (hy : y < 0x100) :
    ∃ d ds, cs = d :: ds ∧ 0x80 ≤ d.toNat ∧
      (d.toNat < 0x100 ∧ t = readBack ds ∨ ∃ r rest, r < 0x80 ∧ t = r :: rest) := by
  have hbyte : (UInt8.ofNat c.toNat).toNat = c.toNat := toNat_byte hhigh
  rw [readBack, List.flatMap_cons, percentDecode_byte hhigh] at h
  obtain ⟨k, s, hs, hk, rfl⟩ := two_of_decodeFrom (by rwa [hbyte]) h hy
  cases cs with
  | nil => cases hs
  | cons d ds =>
    rw [List.flatMap_cons] at hs
    by_cases hd : d.toNat < 0x100
    · rw [percentDecode_byte hd, List.cons.injEq] at hs
      obtain ⟨rfl, rfl⟩ := hs
      rw [toNat_byte hd] at hk
      exact ⟨d, ds, rfl, hk, Or.inl ⟨hd, rfl⟩⟩
    · obtain ⟨b, r, rest, hascii, hsent⟩ := percentDecode_wide (not_lt.1 hd)
      rw [hsent, List.cons_append, List.cons.injEq] at hs
      obtain ⟨rfl, rfl⟩ := hs
      have hr := hascii r (List.mem_cons_self ..)
      exact ⟨d, ds, rfl, by omega, Or.inr ⟨r.toNat, _, hr, decodeFrom_low hr _⟩⟩

/-! ### What reads back as it was -/

/-- Text in ASCII that was read too early is never made up for. -/
theorem readBack_not_late (front : List ℕ) (hne : front ≠ []) (hfront : ∀ a ∈ front, a < 0x80)
    (cs : List Char) : cs.map Char.toNat ≠ front ++ readBack cs := by
  induction cs generalizing front with
  | nil => exact fun h => hne (List.append_eq_nil_iff.1 h.symm).1
  | cons c cs ih =>
    intro h
    obtain ⟨a, front, rfl⟩ := List.exists_cons_of_ne_nil hne
    obtain ⟨ha, hrest⟩ := List.forall_mem_cons.1 hfront
    rw [List.map_cons, List.cons_append, List.cons.injEq] at h
    obtain ⟨rfl, hcs⟩ := h
    rw [readBack_ascii ha] at hcs
    refine ih (front ++ [c.toNat]) (by simp) ?_ (by rw [hcs, List.append_assoc]; rfl)
    intro b hb
    rcases List.mem_append.1 hb with hb | hb
    · exact hrest b hb
    · exact (List.mem_singleton.1 hb) ▸ ha

/-- Nor are characters that are sent as one byte and were read too late. -/
theorem readBack_not_early (front : List ℕ) (hne : front ≠ [])
    (hfront : ∀ a ∈ front, 0x80 ≤ a ∧ a < 0x100) (cs : List Char) :
    front ++ cs.map Char.toNat ≠ readBack cs := by
  induction hn : cs.length using Nat.strong_induction_on generalizing front cs with
  | _ n ih =>
    intro h
    obtain ⟨y, front, rfl⟩ := List.exists_cons_of_ne_nil hne
    obtain ⟨hy, hrest⟩ := List.forall_mem_cons.1 hfront
    rw [List.cons_append] at h
    cases cs with
    | nil => cases h
    | cons c cs =>
      by_cases hlow : c.toNat < 0x80
      · rw [readBack_ascii hlow] at h
        have hyc := (List.cons.inj h).1
        omega
      by_cases hhigh : c.toNat < 0x100
      · obtain ⟨d, ds, rfl, hd, ⟨hd', ht⟩ | ⟨r, rest, hr, ht⟩⟩ :=
          readBack_pair (not_lt.1 hlow) hhigh h.symm hy.2
        · have hshorter : ds.length < n := by
            rw [← hn, List.length_cons, List.length_cons]
            omega
          have hlater : front ++ [c.toNat, d.toNat] ++ ds.map Char.toNat = readBack ds := by
            rw [← ht, List.append_assoc]
            rfl
          refine ih ds.length hshorter (front ++ [c.toNat, d.toNat]) (by simp) ?_ ds rfl hlater
          intro a ha
          rcases List.mem_append.1 ha with ha | ha
          · exact hrest a ha
          · simp only [List.mem_cons, List.not_mem_nil, or_false] at ha
            omega
        · cases front with
          | nil =>
            have hcr : c.toNat = r := (List.cons.inj ht).1
            omega
          | cons z front =>
            have hz := hrest z (List.mem_cons_self ..)
            have hzr : z = r := (List.cons.inj ht).1
            omega
      · obtain ⟨x, r, rest, hx, -, hread⟩ := readBack_wide (not_lt.1 hhigh) cs
        rw [hread] at h
        have hyx := (List.cons.inj h).1
        omega

theorem readBack_eq_iff (cs : List Char) :
    readBack cs = cs.map Char.toNat ↔ ∀ c ∈ cs, c.toNat < 0x80 := by
  induction cs with
  | nil => exact ⟨fun _ => by simp, fun _ => rfl⟩
  | cons c cs ih =>
    rw [List.forall_mem_cons, ← ih, List.map_cons]
    constructor
    · intro h
      by_cases hlow : c.toNat < 0x80
      · rw [readBack_ascii hlow] at h
        exact ⟨hlow, (List.cons.inj h).2⟩
      exfalso
      by_cases hhigh : c.toNat < 0x100
      · obtain ⟨d, ds, rfl, hd, ⟨hd', ht⟩ | ⟨r, rest, hr, ht⟩⟩ :=
          readBack_pair (not_lt.1 hlow) hhigh h hhigh
        · refine readBack_not_early [d.toNat] (by simp) ?_ ds ht
          simpa using ⟨hd, hd'⟩
        · have hdr : d.toNat = r := (List.cons.inj ht).1
          omega
      · obtain ⟨y, r, rest, -, hascii, hread⟩ := readBack_wide (not_lt.1 hhigh) cs
        rw [hread] at h
        have hlate := readBack_not_late (r :: rest) (List.cons_ne_nil r rest) hascii cs
        exact hlate (List.cons.inj h).2.symm
    · rintro ⟨hc, hcs⟩
      rw [readBack_ascii hc, hcs]

/-! ### The terminal's text and the web's -/

theorem upperDigit_unreserved {n : ℕ} (h : n < 16) : isUnreserved (upperDigit n) = true := by
  interval_cases n <;> decide

theorem escaped_urlencode (tag : String) : Escaped isUnreserved (urlencode tag).toList := by
  rw [urlencode, String.toList_ofList]
  refine Escaped.flatMap fun c _ => ?_
  unfold urlencodeChar
  split
  · rename_i hplain
    exact .plain hplain .nil
  split
  · exact .escape rfl rfl .nil
  · by_cases hc : c.toNat < 0x100
    · rw [hex02_byte hc]
      exact escaped_upperDigits (by omega) (by omega)
    · obtain ⟨x, hx, y, hy, z, hz, ds, hhex, hds⟩ := hex02_long (not_lt.1 hc)
      have hdigits : ∀ d ∈ upperDigit z :: ds, isUnreserved d = true := by
        intro d hd
        obtain ⟨n, hn, rfl⟩ := List.forall_mem_cons.2 ⟨⟨z, hz, rfl⟩, hds⟩ d hd
        exact upperDigit_unreserved hn
      rw [hhex]
      exact (escaped_upperDigits hx hy).append (.of_plain hdigits)

theorem toList_encodeURIComponent (tag : String) : (encodeURIComponent tag).toList =
    tag.toList.flatMap fun c =>
      if isComponent c then [c] else (scalarBytes c.toNat).flatMap escapeByte := by
  rw [encodeURIComponent, String.toList_ofList]
  rfl

theorem escaped_encodeURIComponent (tag : String) :
    Escaped isComponent (encodeURIComponent tag).toList := by
  rw [toList_encodeURIComponent]
  refine Escaped.flatMap fun c _ => ?_
  split
  · rename_i hplain
    exact .plain hplain .nil
  · exact escaped_bytes _

theorem percentDecode_encodeURIComponent (tag : String) :
    percentDecode (encodeURIComponent tag).toList = utf8 (scalarValues tag) := by
  rw [toList_encodeURIComponent, utf8, scalarValues, List.flatMap_map]
  refine percentDecode_flatMap fun c _ s => ?_
  split
  · rename_i hplain
    rw [List.singleton_append, percentDecode_plain (ne_percent hplain)]
  · exact percentDecode_escapes _ s

theorem scalarValues_isScalar (tag : String) : ∀ c ∈ scalarValues tag, IsScalar c := by
  intro c hc
  obtain ⟨d, -, rfl⟩ := List.mem_map.1 hc
  exact toNat_ranges d

theorem readSegment_encodeURIComponent (tag : String) :
    readSegment (encodeURIComponent tag) = scalarValues tag := by
  rw [readSegment, percentDecode_encodeURIComponent]
  exact decodeFrom_whole (scalarValues_isScalar tag)

/-- The bytes sent are the tag's in the same cases, so a strict decoder makes no difference. -/
theorem percentDecode_urlencode_iff (tag : String) :
    percentDecode (urlencode tag).toList = utf8 (scalarValues tag) ↔
      ∀ c ∈ tag.toList, c.toNat < 0x80 := by
  constructor
  · intro h
    refine (readBack_eq_iff tag.toList).1 ?_
    rw [← readSegment_urlencode, readSegment, h]
    exact decodeFrom_whole (scalarValues_isScalar tag)
  · intro h
    rw [urlencode, String.toList_ofList, utf8, scalarValues, List.flatMap_map]
    refine percentDecode_flatMap fun c hc s => ?_
    have hascii := h c hc
    rw [percentDecode_byte (by omega), scalarBytes_ascii hascii]
    rfl

/-- A tag comes through the terminal's path where it is ASCII. -/
theorem carried_iff (tag : String) : Carried tag ↔ ∀ c ∈ tag.toList, c.toNat < 0x80 := by
  constructor
  · intro h
    refine (readBack_eq_iff tag.toList).1 ?_
    rw [← readSegment_urlencode]
    exact h.reads
  · intro h
    refine ⟨escaped_urlencode tag, ?_, readSegment_encodeURIComponent tag⟩
    rw [readSegment_urlencode]
    exact (readBack_eq_iff tag.toList).2 h

/-- In the web's path the accent is there; the terminal's has U+FFFD in its place. -/
theorem accent_lost : readSegment (urlencode "é") = [0xFFFD] ∧
    readSegment (encodeURIComponent "é") = [0xE9] ∧ ¬ ∀ tag, Carried tag := by
  have hlost : readSegment (urlencode "é") = [0xFFFD] := by decide
  refine ⟨hlost, by decide, fun h => ?_⟩
  have hread := (h "é").reads
  rw [hlost] at hread
  exact absurd hread (by decide)

/-! ### The segment in the request -/

/-- What follows the last slash of the path. -/
def TagRequest.segment (r : TagRequest) : String :=
  String.ofList (r.url.toList.rtakeWhile (· ≠ '/'))

theorem segment_eq {r : TagRequest} {base segment : String}
    (hurl : r.url = base ++ "/json/stations/bytag/" ++ segment) (hsegment : '/' ∉ segment.toList) :
    r.segment = segment := by
  have hpath : "/json/stations/bytag/".toList = "/json/stations/bytag".toList ++ ['/'] := by decide
  have hsplit : r.url.toList =
      base.toList ++ "/json/stations/bytag".toList ++ '/' :: segment.toList := by
    rw [hurl, String.toList_append, String.toList_append, hpath, ← List.append_assoc,
      List.append_assoc _ ['/'], List.singleton_append]
  have hkeep : ∀ c ∈ segment.toList.reverse, decide (c ≠ '/') = true := by
    intro c hc
    refine decide_eq_true ?_
    rintro rfl
    exact hsegment (List.mem_reverse.1 hc)
  rw [TagRequest.segment, hsplit, List.rtakeWhile, List.reverse_append, List.reverse_cons,
    List.append_assoc, List.takeWhile_append_of_pos hkeep]
  simp

theorem segment_byTag (base tag : String) (limit : ℕ) :
    (byTag base tag limit).segment = urlencode tag :=
  segment_eq rfl ((escaped_urlencode tag).notMem (by decide) rfl (by decide))

theorem segment_browse (base tag : String) (offset limit : ℕ) :
    (browseRadioBrowserByTag base tag offset limit).segment = encodeURIComponent tag :=
  segment_eq rfl ((escaped_encodeURIComponent tag).notMem (by decide) rfl (by decide))

/-- The two clients ask for the same stations only of tags in ASCII. -/
theorem same_tag_iff (base tag : String) (offset limit : ℕ) :
    readSegment (byTag base tag limit).segment =
        readSegment (browseRadioBrowserByTag base tag offset limit).segment ↔
      ∀ c ∈ tag.toList, c.toNat < 0x80 := by
  rw [segment_byTag, segment_browse, readSegment_encodeURIComponent, readSegment_urlencode]
  exact readBack_eq_iff tag.toList

end Atradio.Cli
