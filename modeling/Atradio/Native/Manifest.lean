import Mathlib.Data.List.Infix
import Atradio.Lib.Follow
import Atradio.Native.Adaptive
import Atradio.Native.HlsMaster

/-! # Opening a manifest (`open_manifest` in `adaptive/mod.rs`)

Of a master playlist the address that is chosen of it is opened in its place, a bounded number of
times. What a server answers with is the parameter `fetch`. -/

namespace Atradio.Native
open Atradio.Lib

def contains (mark s : List Char) : Bool := mark <:+: s

def isMaster (text : List Char) : Bool := contains "#EXT-X-STREAM-INF".toList text

def isHls (text : List Char) : Bool :=
  contains "#EXT-X-STREAM-INF".toList text || contains "#EXT-X-TARGETDURATION".toList text

/-- A manifest of DASH is left to `open_dash`. -/
inductive Manifest (σ : Type) where
  | dash (url text : List Char)
  | adaptive (stream : AdaptiveStream σ)
  | redirect (url : List Char)

def noVariantText : String := "HLS master playlist has no playable variant"

def noEntriesText : String := "playlist has no entries"

def noFilesText : String := "PLS playlist has no File entries"

def unrecognizedText (url : List Char) : String := "unrecognized manifest at " ++ String.ofList url

def tooDeepText : String := "manifest nesting too deep"

/-- The first line of a plain M3U that is not a comment. -/
def firstEntry (text : List Char) : Option (List Char) :=
  ((Cli.lines text).map trim).find? fun l => l ≠ [] && !(['#'].isPrefixOf l)

/-- `FileN=<url>` -/
def firstFile (text : List Char) : Option (List Char) :=
  (((Cli.lines text).filterMap fun l => cut ['='] (trim l)).find? fun p =>
    "file".toList.isPrefixOf ((trim p.1).map Char.toLower)).map fun p => trim p.2

section Opening

variable {σ : Type} (fetch : List Char → Except String (List Char))

/-- A text that is a playlist of HLS or a plain M3U. -/
def isM3u (text : List Char) : Bool :=
  contains "#EXT-X-".toList text ||
    "#EXTM3U".toList.isPrefixOf (text.dropWhile Cli.isWhiteSpace)

/-- The address a manifest leads to, or what it is opened as. -/
def classify (url text : List Char) : Except String (List Char ⊕ Manifest σ) :=
  if contains "<MPD".toList text then .ok (.inr (.dash url text))
  else if isM3u text then
    if isMaster text then
      match selectMediaPlaylist (parseMaster url text) with
      | some next => .ok (.inl next)
      | none => .error noVariantText
    else if isHls text then
      match openHls url text with
      | .ok stream => .ok (.inr (.adaptive stream))
      | .error e => .error e
    else match firstEntry text with
      | some entry => .ok (.inr (.redirect (urlJoin url entry)))
      | none => .error noEntriesText
  else if contains "[playlist]".toList (text.map Char.toLower) then
    match firstFile text with
    | some entry => .ok (.inr (.redirect (urlJoin url entry)))
    | none => .error noFilesText
  else .error (unrecognizedText url)

def openOne (url : List Char) : Except String (List Char ⊕ Manifest σ) :=
  match fetch url with
  | .ok text => classify url text
  | .error e => .error e

def openManifest (url : List Char) : Except String (Manifest σ) :=
  follow (openOne fetch) tooDeepText 4 url

/-- A master playlist, and the address that is chosen of it. -/
def LeadsTo (url next : List Char) : Prop :=
  ∃ text, fetch url = .ok text ∧ contains "<MPD".toList text = false ∧ isMaster text = true ∧
    selectMediaPlaylist (parseMaster url text) = some next

/-- A media playlist that can be opened. -/
def OpensAs (url : List Char) (stream : AdaptiveStream σ) : Prop :=
  ∃ text, fetch url = .ok text ∧ contains "<MPD".toList text = false ∧ isMaster text = false ∧
    contains "#EXT-X-TARGETDURATION".toList text = true ∧ openHls url text = .ok stream

variable {fetch} {url next : List Char}

theorem contains_of_append {mark more s : List Char} (h : contains (mark ++ more) s = true) :
    contains mark s = true :=
  decide_eq_true ((List.prefix_append mark more).isInfix.trans (of_decide_eq_true h))

theorem isMaster_tag {text : List Char} (h : isMaster text = true) :
    contains "#EXT-X-".toList text = true :=
  @contains_of_append "#EXT-X-".toList "STREAM-INF".toList text h

theorem target_tag {text : List Char} (h : contains "#EXT-X-TARGETDURATION".toList text = true) :
    contains "#EXT-X-".toList text = true :=
  @contains_of_append "#EXT-X-".toList "TARGETDURATION".toList text h

theorem isM3u_tag {text : List Char} (h : contains "#EXT-X-".toList text = true) :
    isM3u text = true := by
  rw [isM3u, h, Bool.true_or]

theorem classify_next {text : List Char} :
    (classify url text : Except String (List Char ⊕ Manifest σ)) = .ok (.inl next) ↔
      contains "<MPD".toList text = false ∧ isMaster text = true ∧
        selectMediaPlaylist (parseMaster url text) = some next := by
  constructor
  · intro h
    unfold classify at h
    split at h
    · cases h
    next hdash =>
      split at h
      · split at h
        next hmaster =>
          split at h
          next u hselect =>
            obtain rfl := Sum.inl.inj (Except.ok.inj h)
            exact ⟨Bool.eq_false_of_not_eq_true hdash, hmaster, hselect⟩
          · cases h
        · split at h
          · split at h <;> cases h
          · split at h <;> cases h
      · split at h
        · split at h <;> cases h
        · cases h
  · rintro ⟨hdash, hmaster, hselect⟩
    rw [classify, if_neg (Bool.eq_false_iff.1 hdash), if_pos (isM3u_tag (isMaster_tag hmaster)),
      if_pos hmaster, hselect]

theorem classify_adaptive {text : List Char} {stream : AdaptiveStream σ} :
    classify url text = .ok (.inr (.adaptive stream)) ↔
      contains "<MPD".toList text = false ∧ isMaster text = false ∧
        contains "#EXT-X-TARGETDURATION".toList text = true ∧ openHls url text = .ok stream := by
  constructor
  · intro h
    unfold classify at h
    split at h
    · cases h
    next hdash =>
      split at h
      · split at h
        · split at h <;> cases h
        next hmaster =>
          have hmaster := Bool.eq_false_of_not_eq_true hmaster
          split at h
          next hhls =>
            rw [isHls, show contains "#EXT-X-STREAM-INF".toList text = false from hmaster,
              Bool.false_or] at hhls
            split at h
            next s hopen =>
              obtain rfl := Manifest.adaptive.inj (Sum.inr.inj (Except.ok.inj h))
              exact ⟨Bool.eq_false_of_not_eq_true hdash, hmaster, hhls, hopen⟩
            · cases h
          · split at h <;> cases h
      · split at h
        · split at h <;> cases h
        · cases h
  · rintro ⟨hdash, hmaster, htarget, hopen⟩
    have hhls : isHls text = true := by
      rw [isHls, htarget, Bool.or_true]
    rw [classify, if_neg (Bool.eq_false_iff.1 hdash), if_pos (isM3u_tag (target_tag htarget)),
      if_neg (Bool.eq_false_iff.1 hmaster), if_pos hhls, hopen]

theorem openOne_iff {P : List Char → Prop} {r : List Char ⊕ Manifest σ}
    (hP : ∀ text, P text ↔ classify url text = .ok r) :
    (∃ text, fetch url = .ok text ∧ P text) ↔ openOne fetch url = .ok r := by
  unfold openOne
  cases fetch url with
  | error e =>
    constructor
    · rintro ⟨text, h, -⟩
      cases h
    · intro h
      cases h
  | ok text =>
    refine Iff.trans ?_ (hP text)
    constructor
    · rintro ⟨text', h, htext⟩
      obtain rfl := Except.ok.inj h
      exact htext
    · exact fun h => ⟨text, rfl, h⟩

theorem leadsTo_iff : LeadsTo fetch url next ↔
    (openOne fetch url : Except String (List Char ⊕ Manifest σ)) = .ok (.inl next) :=
  openOne_iff fun _ => classify_next.symm

theorem opensAs_iff {stream : AdaptiveStream σ} :
    OpensAs fetch url stream ↔ openOne fetch url = .ok (.inr (.adaptive stream)) :=
  openOne_iff fun _ => classify_adaptive.symm

end Opening

end Atradio.Native
