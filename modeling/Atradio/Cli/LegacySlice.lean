import Atradio.Cli.Playlists

/-! # Where `rewrite_legacy_tunein` cuts (`resolve.rs`)

The offsets are those of the lower-cased copy, the string that is cut is the original. -/

namespace Atradio.Cli
open Atradio.Lib

section Fits

variable (L : Lowercase) {url : List Char}

/-- The lower case of the host is longer by whole characters of what follows the marker, or shorter
by whole characters of what ends with it. -/
def Legacy.Fits (l : Legacy url) : Prop :=
  (∃ skipped kept, l.rest = skipped ++ kept ∧
    utf8Length (l.lowerHost L) = utf8Length l.host + utf8Length skipped) ∨
  ∃ kept again, l.scheme ++ (l.host ++ l.marker) = kept ++ again ∧
    utf8Length (l.lowerHost L) + utf8Length again = utf8Length l.host

theorem marker_length (l : Legacy url) : utf8Length l.marker = utf8Length MARKER := by
  have hascii := ascii_of_lowered marker_safe.ascii l.isMarker
  rw [utf8Length_ascii hascii, ← List.length_map (f := Char.toLower), l.isMarker]
  rfl

theorem sliceFrom_isSome_iff (s : List Char) (n : ℕ) :
    (sliceFrom s n).isSome = true ↔ ∃ x y, s = x ++ y ∧ utf8Length x = n := by
  constructor
  · intro h
    obtain ⟨y, hy⟩ := Option.isSome_iff_exists.1 h
    obtain ⟨x, hs, hx⟩ := sliceFrom_eq_some hy
    exact ⟨x, y, hs, hx⟩
  · rintro ⟨x, y, rfl, rfl⟩
    rw [sliceFrom_append]
    rfl

theorem legacy_returns_iff (l : Legacy url) :
    (rewriteLegacyTunein L url).isSome = true ↔ l.Fits L := by
  have hmarker := marker_length l
  have hurl : url = (l.scheme ++ (l.host ++ l.marker)) ++ l.rest := by
    simpa only [List.append_assoc] using l.split
  have hlen : utf8Length (l.scheme ++ (l.host ++ l.marker)) =
      utf8Length l.scheme + (utf8Length l.host + utf8Length MARKER) := by
    rw [utf8Length_append, utf8Length_append, hmarker]
  rw [cli_legacy L l, Option.isSome_map, sliceFrom_isSome_iff]
  constructor
  · rintro ⟨x, y, hxy, hx⟩
    rw [hurl] at hxy
    rcases List.append_eq_append_iff.1 hxy with ⟨skipped, rfl, hrest⟩ | ⟨again, hkept, rfl⟩
    · refine Or.inl ⟨skipped, y, hrest, ?_⟩
      rw [utf8Length_append, hlen] at hx
      omega
    · refine Or.inr ⟨x, again, hkept, ?_⟩
      rw [hkept, utf8Length_append] at hlen
      omega
  · rintro (⟨skipped, kept, hrest, hhost⟩ | ⟨kept, again, hkept, hhost⟩)
    · refine ⟨(l.scheme ++ (l.host ++ l.marker)) ++ skipped, kept, ?_, ?_⟩
      · rw [List.append_assoc, ← hrest]
        exact hurl
      · rw [utf8Length_append, hlen]
        omega
    · refine ⟨kept, again ++ l.rest, ?_, ?_⟩
      · rw [← List.append_assoc, ← hkept]
        exact hurl
      · rw [hkept, utf8Length_append] at hlen
        omega

/-- A link that is no legacy link is not cut at all. -/
theorem rewrite_returns_iff (url : List Char) :
    (rewriteLegacyTunein L url).isSome = true ↔ ∀ l : Legacy url, l.Fits L := by
  constructor
  · exact fun h l => (legacy_returns_iff L l).1 h
  · intro h
    by_cases hlegacy : Nonempty (Legacy url)
    · obtain ⟨l⟩ := hlegacy
      exact (legacy_returns_iff L l).2 (h l)
    · rw [cli_other L fun l => hlegacy ⟨l⟩]
      rfl

/-- It is cut where its marker ends as long as the host keeps its length. -/
theorem fits_of_length (l : Legacy url) (h : utf8Length (l.lowerHost L) = utf8Length l.host) :
    l.Fits L := Or.inl ⟨[], l.rest, rfl, by rw [h, utf8Length, Nat.add_zero]⟩

theorem fits_of_ascii (l : Legacy url) (h : ∀ c ∈ l.host, c.toNat < 128) : l.Fits L := by
  refine fits_of_length L l ?_
  have hlower : ∀ c ∈ l.host.map Char.toLower, c.toNat < 128 := by
    intro c hc
    obtain ⟨d, hd, rfl⟩ := List.mem_map.1 hc
    exact char_lt_cases (P := fun c => c.toLower.toNat < 128) (by decide) (h d hd)
  rw [Legacy.lowerHost, apply_ascii L h, utf8Length_ascii hlower, utf8Length_ascii h,
    List.length_map]

end Fits

def dottedHost : List Char := "http://".toList ++ Char.ofNat 0x130 :: "/api/tunein".toList

/-- One byte behind the end. -/
theorem dotted_panics : ¬ ∀ url, (rewriteLegacyTunein someLowercase url).isSome = true := by
  intro h
  exact absurd (h dottedHost) (by decide +kernel)

end Atradio.Cli
