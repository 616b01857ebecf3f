import Atradio.Jetstream.Database
import Atradio.Lib.Links
import Atradio.Lib.Utf8

/-! # Embeds of the Discord mirror (`discord/format.ts`)

One embed for each commit of a record. Its description is Markdown, with a link to the station
that the record is about. -/

namespace Atradio.Discord
open Atradio.Lib Atradio.Lib.Markdown Atradio.Jetstream

def WEB_ORIGIN : String := "https://atradio.fm"

structure Author where
  name : String
  url : String
  iconUrl : Option String

structure DiscordEmbed where
  author : Author
  footer : String
  color : ℕ
  description : String
  thumbnail : Option String := none
  timestamp : Option String := none

namespace COLORS

def favorite : ℕ := 0xf5a623
def station : ℕ := 0x9b5de5
def status : ℕ := 0x00f5d4
def comment : ℕ := 0x00bbf9
def reaction : ℕ := 0xf15bb5
def delete : ℕ := 0x6c757d

end COLORS

/-! ### Strings -/

def special (c : Char) : Bool := c ∈ "*_~`>\\|".toList

def esc (s : String) : String := String.ofList (escape special s.toList)

/-- The first `n` code units; half of a pair reads as U+FFFD. -/
def takeUnits : ℕ → List Char → List Char
  | 0, _ => []
  | _, [] => []
  | n + 1, c :: s =>
    if c.toNat < 0x10000 then c :: takeUnits n s
    else if n = 0 then [Char.ofNat 0xFFFD]
    else c :: takeUnits (n - 1) s

def truncate (s : String) (max : ℕ) : String :=
  if max < utf16Length s then String.ofList (takeUnits (max - 1) s.toList) ++ "…" else s

def hexDigit (n : ℕ) : Char := (Nat.digitChar n).toUpper

def encodeURIComponent (s : String) : String :=
  String.ofList <| s.toList.flatMap fun c =>
    if c.isAlphanum || c ∈ "-_.!~*'()".toList then [c]
    else (scalarBytes c.toNat).flatMap fun b => ['%', hexDigit (b.toNat / 16), hexDigit (b.toNat % 16)]

def truthy (s : Option String) : Option String := s.filter (· ≠ "")

/-- `s.replace(pattern, "")` -/
def removeFirst (pattern : List Char) : List Char → List Char
  | [] => []
  | c :: s =>
    if pattern.isPrefixOf (c :: s) then (c :: s).drop pattern.length
    else c :: removeFirst pattern s

def profileUrl (actor : ActorInfo) : String :=
  WEB_ORIGIN ++ "/profile/" ++ encodeURIComponent (actor.handle.getD actor.did)

/-- `/^https?:\/\//i` -/
def isHttp (url : String) : Bool :=
  let lower := url.toList.map Char.toLower
  "http://".toList.isPrefixOf lower || "https://".toList.isPrefixOf lower

def httpUrl (url : Option String) : Option String := url.filter isHttp

def authorOf (actor : ActorInfo) : Author :=
  { name := ((truthy actor.displayName).or (truthy actor.handle)).getD actor.did
    url := profileUrl actor
    iconUrl := httpUrl actor.avatar }

def footerOf (actor : ActorInfo) : String :=
  "atradio.fm • " ++ ((truthy actor.handle).map ("@" ++ ·)).getD actor.did

/-! ### Descriptions -/

/-- The homepage if it is set, else the app. -/
def stationUrl (homepage : Option String) : String := (httpUrl homepage).getD WEB_ORIGIN

def linkTo (name : String) (homepage : Option String) : String :=
  "[" ++ esc name ++ "](" ++ stationUrl homepage ++ ")"

def stationLink (station : StationInfo) : String := linkTo station.name station.homepage

def stationMeta (station : StationInfo) : String :=
  let parts := ([station.genre, station.country].filterMap truthy).map esc
  if parts.length = 0 then "" else " · " ++ " · ".intercalate parts

def buildFirehoseEmbed (c : Commit) (actor : ActorInfo) : Option DiscordEmbed :=
  let author := authorOf actor
  let footer := footerOf actor
  if c.operation = .delete then
    let kind := String.ofList (removeFirst "fm.atradio.".toList c.collection.toList)
    some { author, footer
           color := COLORS.delete
           description := "🗑️ removed a **" ++ esc kind ++ "** record `" ++ esc c.rkey ++ "`" }
  else if c.collection = NSID.favorite then
    (c.record.bind favoriteRecordSchema).map fun p =>
      { author, footer
        color := COLORS.favorite
        description := "⭐ favorited " ++ stationLink p.station ++ stationMeta p.station
        thumbnail := httpUrl p.station.logo
        timestamp := some p.createdAt }
  else if c.collection = NSID.station then
    (c.record.bind stationRecordSchema).map fun r =>
      let verb := if c.operation = .update then "updated" else "created"
      { author, footer
        color := COLORS.station
        description := "📻 " ++ verb ++ " the station " ++ linkTo r.name r.homepage ++
          ((truthy r.genre).map (" · " ++ esc ·)).getD ""
        thumbnail := httpUrl r.logo
        timestamp := some r.createdAt }
  else if c.collection = NSID.actorStatus then
    (c.record.bind actorStatusRecordSchema).map fun p =>
      { author, footer
        color := COLORS.status
        description := "🎧 now listening to " ++ stationLink p.station ++ stationMeta p.station
        thumbnail := httpUrl p.station.logo
        timestamp := some p.playedAt }
  else if c.collection = NSID.comment then
    (c.record.bind commentRecordSchema).map fun r =>
      let body := if r.text ≠ "" then truncate (esc r.text) 1500 else ""
      let gif := (r.gif.map fun gif => "\n" ++ (httpUrl (some gif.url)).getD "").getD ""
      { author, footer
        color := COLORS.comment
        description := "💬 commented on " ++ stationLink r.station ++
          (if body ≠ "" then "\n\n" ++ body else "") ++ gif
        thumbnail := httpUrl r.station.logo
        timestamp := some r.createdAt }
  else if c.collection = NSID.reaction then
    (c.record.bind reactionRecordSchema).map fun r =>
      { author, footer
        color := COLORS.reaction
        description := r.emoji ++ " reacted on " ++ stationLink r.station
        thumbnail := httpUrl r.station.logo
        timestamp := some r.createdAt }
  else none

/-! ### The link of a description -/

/-- What a description is made of: the text in front of its link, what the record says of the
station, and the text behind. -/
structure Parts where
  before : String
  name : String
  homepage : Option String
  after : String

namespace Parts

def description (p : Parts) : String := p.before ++ linkTo p.name p.homepage ++ p.after

def link (p : Parts) : Link :=
  { start := p.before.toList.length + 1
    label := (esc p.name).toList
    url := (stationUrl p.homepage).toList }

/-- The emoji in front and the texts behind have no link of their own, the name has its brackets
in pairs and nothing in parentheses behind one of them, and the homepage has no blanks and
balanced parentheses. -/
structure Harmless (p : Parts) : Prop where
  before : linkFree [] 0 false p.before.toList = true
  name : paired 0 p.name.toList = true
  homepage : isUrl (stationUrl p.homepage).toList = true
  after : linkFree [] 0 false p.after.toList = true

end Parts

/-- The parts of the description of a valid record. -/
def partsOf (c : Commit) : Option Parts :=
  if c.collection = NSID.favorite then
    (c.record.bind favoriteRecordSchema).map fun p =>
      { before := "⭐ favorited ", name := p.station.name, homepage := p.station.homepage
        after := stationMeta p.station }
  else if c.collection = NSID.station then
    (c.record.bind stationRecordSchema).map fun r =>
      { before := "📻 " ++ (if c.operation = .update then "updated" else "created") ++ " the station "
        name := r.name, homepage := r.homepage
        after := ((truthy r.genre).map (" · " ++ esc ·)).getD "" }
  else if c.collection = NSID.actorStatus then
    (c.record.bind actorStatusRecordSchema).map fun p =>
      { before := "🎧 now listening to ", name := p.station.name, homepage := p.station.homepage
        after := stationMeta p.station }
  else if c.collection = NSID.comment then
    (c.record.bind commentRecordSchema).map fun r =>
      let body := if r.text ≠ "" then truncate (esc r.text) 1500 else ""
      { before := "💬 commented on ", name := r.station.name, homepage := r.station.homepage
        after := (if body ≠ "" then "\n\n" ++ body else "") ++
          (r.gif.map fun gif => "\n" ++ (httpUrl (some gif.url)).getD "").getD "" }
  else if c.collection = NSID.reaction then
    (c.record.bind reactionRecordSchema).map fun r =>
      { before := r.emoji ++ " reacted on ", name := r.station.name, homepage := r.station.homepage
        after := "" }
  else none

theorem leavesBrackets_special : LeavesBrackets special where
  backslash := by simp [special]
  punct := by
    intro c hc
    have hmem : c ∈ ['*', '_', '~', '`', '>', '\\', '|'] := of_decide_eq_true hc
    simp only [List.mem_cons, List.not_mem_nil, or_false] at hmem
    rcases hmem with rfl | rfl | rfl | rfl | rfl | rfl | rfl <;> rfl
  brackets := by simp [special]

theorem linkTo_toList (name : String) (homepage : Option String) :
    (linkTo name homepage).toList =
      '[' :: ((esc name).toList ++ ']' :: '(' :: ((stationUrl homepage).toList ++ [')'])) := by
  simp [linkTo, String.toList_append]

theorem description_eq {c : Commit} (hc : c.operation ≠ .delete) (actor : ActorInfo) :
    (buildFirehoseEmbed c actor).map (·.description) = (partsOf c).map Parts.description := by
  unfold buildFirehoseEmbed partsOf
  rw [if_neg hc]
  split
  · cases c.record.bind favoriteRecordSchema <;> rfl
  split
  · cases c.record.bind stationRecordSchema <;> rfl
  split
  · cases c.record.bind actorStatusRecordSchema <;> rfl
  split
  · cases c.record.bind commentRecordSchema with
    | none => rfl
    | some r => exact congrArg some (String.append_assoc ..)
  split
  · cases c.record.bind reactionRecordSchema with
    | none => rfl
    | some r => exact congrArg some (String.append_empty ..).symm
  · rfl

theorem startsBlank_append {x : String} (hx : ∃ c rest, x.toList = c :: rest ∧ isBlank c = true)
    (y : String) : StartsBlank (x ++ y).toList := by
  obtain ⟨c, rest, hx, hc⟩ := hx
  rw [String.toList_append, hx]
  intro d hd
  obtain rfl := Option.some.inj hd
  exact hc

theorem startsBlank_empty : StartsBlank "".toList := fun c hc => by cases hc

theorem endsBlank_append (x : String) : EndsBlank (x ++ " ").toList :=
  ⟨x.toList, ' ', String.toList_append .., rfl⟩

theorem stationMeta_startsBlank (station : StationInfo) :
    StartsBlank (stationMeta station).toList := by
  unfold stationMeta
  dsimp only
  split
  · exact startsBlank_empty
  · exact startsBlank_append ⟨' ', ['·', ' '], rfl, rfl⟩ _

theorem genre_startsBlank (genre : Option String) :
    StartsBlank (((truthy genre).map (" · " ++ esc ·)).getD "").toList := by
  cases truthy genre with
  | none => exact startsBlank_empty
  | some genre => exact startsBlank_append ⟨' ', ['·', ' '], rfl, rfl⟩ _

theorem comment_startsBlank (body : String) (gif : Option GifEmbed) :
    StartsBlank ((if body ≠ "" then "\n\n" ++ body else "") ++
      (gif.map fun gif => "\n" ++ (httpUrl (some gif.url)).getD "").getD "").toList := by
  split
  · rw [String.append_assoc]
    exact startsBlank_append ⟨'\n', ['\n'], rfl, rfl⟩ _
  · rw [String.empty_append]
    cases gif with
    | none => exact startsBlank_empty
    | some gif => exact startsBlank_append ⟨'\n', [], rfl, rfl⟩ _

/-- The words of the builder keep what is around the link apart from it. -/
theorem partsOf_blanks {c : Commit} {p : Parts} (hp : partsOf c = some p) :
    EndsBlank p.before.toList ∧ StartsBlank p.after.toList := by
  unfold partsOf at hp
  split at hp
  · obtain ⟨r, _, rfl⟩ := Option.map_eq_some_iff.1 hp
    exact ⟨endsBlank_append "⭐ favorited", stationMeta_startsBlank _⟩
  split at hp
  · obtain ⟨r, _, rfl⟩ := Option.map_eq_some_iff.1 hp
    refine ⟨?_, genre_startsBlank _⟩
    have hwords := endsBlank_append
      ("📻 " ++ (if c.operation = .update then "updated" else "created") ++ " the station")
    rwa [String.append_assoc] at hwords
  split at hp
  · obtain ⟨r, _, rfl⟩ := Option.map_eq_some_iff.1 hp
    exact ⟨endsBlank_append "🎧 now listening to", stationMeta_startsBlank _⟩
  split at hp
  · obtain ⟨r, _, rfl⟩ := Option.map_eq_some_iff.1 hp
    exact ⟨endsBlank_append "💬 commented on", comment_startsBlank _ _⟩
  split at hp
  · obtain ⟨r, _, rfl⟩ := Option.map_eq_some_iff.1 hp
    refine ⟨?_, startsBlank_empty⟩
    have hwords := endsBlank_append (r.emoji ++ " reacted on")
    rwa [String.append_assoc] at hwords
  · cases hp

/-- The only link of a description is the one that the builder makes, exactly when the texts of the
record are harmless. -/
theorem unforged_iff {c : Commit} (hc : c.operation ≠ .delete) (actor : ActorInfo) {p : Parts}
    (hp : partsOf c = some p) :
    ∃ embed, buildFirehoseEmbed c actor = some embed ∧
      (links embed.description.toList = [p.link] ↔ p.Harmless) := by
  have hdescription := description_eq hc actor
  rw [hp] at hdescription
  obtain ⟨embed, hembed, hparts⟩ := Option.map_eq_some_iff.1 hdescription
  refine ⟨embed, hembed, ?_⟩
  obtain ⟨hbefore, hafter⟩ := partsOf_blanks hp
  have htext : embed.description.toList = p.before.toList ++ '[' :: ((esc p.name).toList ++
      ']' :: '(' :: ((stationUrl p.homepage).toList ++ ')' :: p.after.toList)) := by
    rw [hparts, Parts.description, String.toList_append, String.toList_append, linkTo_toList]
    simp
  have hname : balanced [] 0 false (esc p.name).toList = paired 0 p.name.toList := by
    unfold esc
    rw [String.toList_ofList]
    exact balanced_escape leavesBrackets_special
  rw [htext]
  refine (links_eq_iff hbefore hafter).trans ?_
  rw [hname]
  constructor
  · rintro ⟨hfree, hpaired, hurl, hrest⟩
    exact ⟨hfree, hpaired, hurl, hrest⟩
  · intro h
    exact ⟨h.before, h.name, h.homepage, h.after⟩

def favorited (name : String) : Commit :=
  { operation := .create, collection := NSID.favorite, rkey := "k", cid := none
    record := some (.obj
      [("station", .obj [("stationId", .str "tunein:s1"), ("name", .str name),
        ("streamUrl", .str "http://s"), ("source", .str "tunein")]),
       ("createdAt", .str "1970-01-01T00:00:00Z")]) }

def listener : ActorInfo :=
  { did := "did:plc:alice", handle := none, displayName := none, avatar := none }

theorem plain_name : ∃ embed, buildFirehoseEmbed (favorited "Jazz [24]") listener = some embed ∧
    links embed.description.toList =
      [{ start := 13, label := "Jazz [24]".toList, url := "https://atradio.fm".toList }] := by
  obtain ⟨embed, hembed, hiff⟩ := @unforged_iff (favorited "Jazz [24]") (by decide) listener _ rfl
  refine ⟨embed, hembed, (hiff.2 ⟨?_, ?_, ?_, ?_⟩).trans ?_⟩ <;> decide +kernel

theorem forged_name :
    ¬ ∀ (c : Commit) (actor : ActorInfo) (p : Parts), c.operation ≠ .delete →
      partsOf c = some p → ∃ embed, buildFirehoseEmbed c actor = some embed ∧
        links embed.description.toList = [p.link] := by
  intro h
  obtain ⟨embed, hembed, hlinks⟩ :=
    h (favorited "Jazz](https://evil.example) [24") listener _ (by decide) rfl
  obtain rfl := Option.some.inj hembed
  exact absurd hlinks (by decide +kernel)

end Atradio.Discord
