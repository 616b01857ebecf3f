import Atradio.Cli.Mirrors

/-! # Playlists as both clients read them -/

namespace Atradio.Cli
open Atradio.Lib Atradio.Proxy Atradio.Web Atradio.Lexicons

/-! ### White space -/

section Spaces

variable {p : Char → Bool} {s t u x y : List Char}

def AllSpace (s : List Char) : Prop := ∀ c ∈ s, isSpace c = true

/-- Nothing, or something that begins with white space. -/
def Spaced (s : List Char) : Prop := ∀ c ∈ s.head?, isSpace c = true

/-- Nothing, or something that does not end with white space. -/
def Ends (s : List Char) : Prop := ∀ c ∈ s.getLast?, isSpace c = false

structure Trimmed (s : List Char) : Prop where
  head : ∀ c ∈ s.head?, isSpace c = false
  ends : Ends s
  nonempty : s ≠ []

theorem trimOf_split (p : Char → Bool) (s : List Char) :
    ∃ x y, s = x ++ (trimOf p s ++ y) ∧ (∀ c ∈ x, p c = true) ∧ ∀ c ∈ y, p c = true := by
  refine ⟨s.takeWhile p, (s.dropWhile p).rtakeWhile p, ?_, fun c hc => List.mem_takeWhile_imp hc,
    fun c hc => List.mem_rtakeWhile_imp hc⟩
  rw [trimOf, List.rdropWhile_append_rtakeWhile, List.takeWhile_append_dropWhile]

theorem trimmed_trimOf (h : trimOf isSpace s ≠ []) : Trimmed (trimOf isSpace s) where
  head := by
    intro c hc
    obtain ⟨z, hz⟩ : trimOf isSpace s <+: s.dropWhile isSpace := List.rdropWhile_prefix _ _
    refine head_dropWhile (s := s) (p := isSpace) ?_
    rw [← hz, List.head?_append_of_ne_nil _ h]
    exact hc
  ends := by
    intro c hc
    rw [List.getLast?_eq_some_getLast h, Option.mem_some_iff] at hc
    rw [← hc]
    exact eq_false_of_ne_true (List.rdropWhile_last_not isSpace (s.dropWhile isSpace) h)
  nonempty := h

theorem ends_of_append (h : Ends (x ++ y)) : Ends y := by
  intro c hc
  refine h c ?_
  rw [List.getLast?_append, hc]
  rfl

theorem takeWhile_append (hu : ∀ c ∈ u.head?, p c = false) :
    (s ++ u).takeWhile p = s.takeWhile p ∧ (s ++ u).dropWhile p = s.dropWhile p ++ u := by
  induction s with
  | nil =>
    cases u with
    | nil => exact ⟨rfl, rfl⟩
    | cons c u =>
      have hc := hu c rfl
      simp [hc]
  | cons c s ih =>
    rw [List.cons_append, List.takeWhile_cons, List.takeWhile_cons, List.dropWhile_cons,
      List.dropWhile_cons, ih.1, ih.2]
    split
    · exact ⟨rfl, rfl⟩
    · exact ⟨rfl, rfl⟩

theorem dropWhile_ends (h : Ends s) (hne : s ≠ []) (u : List Char) :
    (s ++ u).dropWhile isSpace = s.dropWhile isSpace ++ u ∧ s.dropWhile isSpace ≠ [] := by
  have hdrop : s.dropWhile isSpace ≠ [] := by
    intro hnil
    rw [List.dropWhile_eq_nil_iff] at hnil
    have hlast := h _ (List.getLast?_eq_some_getLast hne)
    rw [hnil _ (List.getLast_mem hne)] at hlast
    cases hlast
  refine ⟨?_, hdrop⟩
  rw [List.dropWhile_append, if_neg]
  simpa using hdrop

end Spaces

/-! ### The expression of the web client on a line -/

section Lines

variable {s t u v word : List Char}

theorem space_toLower {c : Char} (h : isSpace c = true) : c.toLower = c := by
  have hall : ∀ d ∈ whitespace, d.toLower = d := forall_letters (by decide)
  exact hall c (of_decide_eq_true h)

theorem space_notDigit {c : Char} (h : isSpace c = true) : c.isDigit = false := by
  have hall : ∀ d ∈ whitespace, d.isDigit = false := forall_letters (by decide)
  exact hall c (of_decide_eq_true h)

theorem file_safe : Safe "file".toList := ⟨forall_letters (by decide), by decide, by decide⟩

theorem file_noSpace : ∀ a ∈ "file".toList, isSpace a = false := forall_letters (by decide)

theorem skipWord_append (hword : ∀ a ∈ word, isSpace a = false) (hu : Spaced u) :
    skipWord word (t ++ u) = (skipWord word t).map (· ++ u) := by
  induction word generalizing t with
  | nil => rfl
  | cons a word ih =>
    cases t with
    | nil =>
      cases u with
      | nil => rfl
      | cons c u =>
        have hc : isSpace c = true := hu c rfl
        have hne : c.toLower ≠ a := by
          intro heq
          rw [space_toLower hc] at heq
          rw [heq, hword a (List.mem_cons_self ..)] at hc
          cases hc
        show skipWord (a :: word) (c :: u) = none
        rw [skipWord, if_neg hne]
    | cons c t =>
      rw [List.cons_append, skipWord, skipWord]
      split
      · exact ih fun b hb => hword b (List.mem_cons_of_mem a hb)
      · rfl

/-- A key that nothing follows on its line. -/
def bareKey (t : List Char) : Bool :=
  match skipWord "file".toList t with
  | none => false
  | some s => s ≠ [] && s.all Char.isDigit

/-- What follows an equals sign behind white space. -/
def afterEquals (s : List Char) : Option (List Char) :=
  match s.dropWhile isSpace with
  | '=' :: v => some v
  | _ => none

theorem fileKey_append (ht : Ends t) (hu : Spaced u) :
    fileKey (t ++ u) =
      if bareKey t then afterEquals u else (fileKey t).map (· ++ u) := by
  have hskip := skipWord_append (t := t) file_noSpace hu
  unfold fileKey bareKey
  rw [hskip]
  cases hs : skipWord "file".toList t with
  | none => rfl
  | some s =>
    obtain ⟨x, rfl, _⟩ := skipWord_eq_some.1 hs
    obtain ⟨htake, hdrop⟩ := takeWhile_append (s := s) (u := u) (p := Char.isDigit)
      fun c hc => space_notDigit (hu c hc)
    simp only [Option.map_some, Option.bind_some]
    rw [htake, hdrop]
    by_cases hdigits : s.takeWhile Char.isDigit = []
    · have hbare : (s ≠ [] && s.all Char.isDigit) = false := by
        cases s with
        | nil => rfl
        | cons c s =>
          rw [List.takeWhile_cons] at hdigits
          split at hdigits
          · cases hdigits
          · rename_i hc
            simp [hc]
      rw [if_pos hdigits, if_pos hdigits, hbare]
      rfl
    rw [if_neg hdigits, if_neg hdigits]
    have hne : s ≠ [] := by
      rintro rfl
      exact hdigits rfl
    cases hd : s.dropWhile Char.isDigit with
    | nil =>
      have hall : s.all Char.isDigit = true := List.all_eq_true.2 (List.dropWhile_eq_nil_iff.1 hd)
      rw [hall, Bool.and_true, if_pos (by simpa using hne)]
      rfl
    | cons c d =>
      have hall : s.all Char.isDigit = false := by
        by_contra hall
        rw [Bool.not_eq_false, List.all_eq_true, ← List.dropWhile_eq_nil_iff, hd] at hall
        cases hall
      have hends : Ends (c :: d) := by
        refine ends_of_append (x := x ++ s.takeWhile Char.isDigit) ?_
        rw [← hd, List.append_assoc, List.takeWhile_append_dropWhile]
        exact ht
      obtain ⟨happend, hrest⟩ := dropWhile_ends hends (List.cons_ne_nil c d) u
      rw [hall, Bool.and_false, if_neg Bool.false_ne_true, happend]
      obtain ⟨e, es, hes⟩ := List.exists_cons_of_ne_nil hrest
      rw [hes]
      by_cases he : e = '='
      · rw [he]
        rfl
      · simp [he]

theorem firstWord_append (hv : Ends v) (hu : Spaced u) :
    firstWord (v ++ u) = if v = [] then firstWord u else firstWord v := by
  split
  · rename_i hnil
    rw [hnil]
    rfl
  · rename_i hne
    have hstop : ∀ c ∈ u.head?, (!isSpace c) = false := by
      intro c hc
      rw [hu c hc]
      rfl
    rw [firstWord, firstWord, (dropWhile_ends hv hne u).1,
      (takeWhile_append hstop).1]

theorem firstWord_ends (hv : Ends v) (hne : v ≠ []) : firstWord v ≠ none := by
  have hdrop := (dropWhile_ends hv hne []).2
  obtain ⟨c, s, hs⟩ := List.exists_cons_of_ne_nil hdrop
  have hc : isSpace c = false := head_dropWhile (s := v) (p := isSpace) (by rw [hs]; rfl)
  rw [firstWord, hs]
  simp [hc]

theorem not_mem_lowered {f : List Char} {c : Char} (hf : f.map Char.toLower = word)
    (hc : c.toLower ∉ word) : c ∉ f := fun h => hc (hf ▸ List.mem_map_of_mem h)

theorem fileKey_split (h : fileKey t = some v) :
    ∃ f y, t = (f ++ y) ++ '=' :: v ∧ f.map Char.toLower = "file".toList ∧ '=' ∉ f ++ y := by
  obtain ⟨s, hs, hv⟩ := Option.bind_eq_some_iff.1 h
  obtain ⟨f, rfl, hf⟩ := skipWord_eq_some.1 hs
  split at hv
  · cases hv
  · split at hv
    · rename_i value hvalue
      obtain rfl := Option.some.inj hv
      refine ⟨f, s.takeWhile Char.isDigit ++ (s.dropWhile Char.isDigit).takeWhile isSpace, ?_, hf,
        ?_⟩
      · rw [← hvalue, List.append_assoc, List.append_assoc, List.takeWhile_append_dropWhile,
          List.takeWhile_append_dropWhile]
      · intro hmem
        rcases List.mem_append.1 hmem with hmem | hmem
        · exact not_mem_lowered hf (by decide) hmem
        rcases List.mem_append.1 hmem with hmem | hmem
        · exact absurd (List.mem_takeWhile_imp hmem) (by decide)
        · exact absurd (List.mem_takeWhile_imp hmem) (by decide)
    · cases hv

theorem dropWhile_line {lead : List Char} (ht : Trimmed t) (hlead : AllSpace lead) :
    (lead ++ (t ++ u)).dropWhile isSpace = t ++ u := by
  rw [List.dropWhile_append_of_pos hlead]
  obtain ⟨c, s, rfl⟩ := List.exists_cons_of_ne_nil ht.nonempty
  rw [List.cons_append, List.dropWhile_cons, ht.head c rfl]
  rfl

theorem plsAt_line {lead : List Char} (ht : Trimmed t) (hlead : AllSpace lead) (hu : Spaced u) :
    plsAt (lead ++ (t ++ u)) =
      if bareKey t then (afterEquals u).bind firstWord
      else (fileKey t).bind fun v => if v = [] then firstWord u else firstWord v := by
  rw [plsAt, dropWhile_line ht hlead, fileKey_append ht.ends hu]
  split
  · rfl
  · cases hkey : fileKey t with
    | none => rfl
    | some v =>
      obtain ⟨f, y, hsplit, _, _⟩ := fileKey_split hkey
      have hv : Ends v := by
        refine ends_of_append (x := f ++ y ++ ['=']) ?_
        rw [List.append_assoc, List.singleton_append, ← hsplit]
        exact ht.ends
      exact firstWord_append hv hu

theorem bareKey_fileKey (h : bareKey t = true) : fileKey t = none ∧ '=' ∉ t := by
  unfold bareKey at h
  unfold fileKey
  cases hs : skipWord "file".toList t with
  | none =>
    rw [hs] at h
    cases h
  | some s =>
    rw [hs, Bool.and_eq_true, List.all_eq_true] at h
    obtain ⟨f, rfl, hf⟩ := skipWord_eq_some.1 hs
    refine ⟨?_, fun hmem => ?_⟩
    · rw [Option.bind_some, List.dropWhile_eq_nil_iff.2 h.2]
      split
      · rfl
      · rfl
    · rcases List.mem_append.1 hmem with hmem | hmem
      · exact not_mem_lowered hf (by decide) hmem
      · exact absurd (h.2 _ hmem) (by decide)

end Lines

/-! ### The line reader of the terminal client -/

section FileLines

variable (L : Lowercase) {l t u key v : List Char}

/-- A word without the letter at which a text is split begins the first part. -/
theorem starts_inside {f s x y : List Char} (h : f ++ s = x ++ y) (hy : ∀ c ∈ y.head?, c ∉ f) :
    ∃ z, x = f ++ z := by
  rcases List.append_eq_append_iff.1 h with ⟨z, hz, -⟩ | ⟨z, hz, hyz⟩
  · exact ⟨z, hz⟩
  · cases z with
    | nil => exact ⟨[], by rw [hz, List.append_nil, List.append_nil]⟩
    | cons c z =>
      have hhead : c ∈ y.head? := by
        rw [hyz]
        rfl
      exact (hy c hhead (hz ▸ by simp)).elim

/-- What spells `file` has no white space in it. -/
theorem file_noWhite {f : List Char} (hlower : f.map Char.toLower = "file".toList)
    (hwhite : ∀ c ∈ f, isSpace c = isWhiteSpace c) : ∀ c ∈ f, isWhiteSpace c = false := by
  intro c hc
  rw [← hwhite c hc]
  by_contra hspace
  rw [Bool.not_eq_false] at hspace
  have hmem : c.toLower ∈ "file".toList := hlower ▸ List.mem_map_of_mem hc
  rw [space_toLower hspace] at hmem
  rw [file_noSpace c hmem] at hspace
  cases hspace

theorem key_iff (ht : Trimmed t) (hwhite : ∀ c ∈ t, isSpace c = isWhiteSpace c)
    (hcut : t = key ++ '=' :: v) :
    "file".toList.isPrefixOf (L.lower (trimOf isWhiteSpace key)) =
      (skipWord "file".toList t).isSome := by
  obtain ⟨x, y, hsplit, hx, hy⟩ := trimOf_split isWhiteSpace key
  have hkt : ∀ c ∈ key, c ∈ t := fun c hc => hcut ▸ List.mem_append_left _ hc
  have hnil : x = [] := by
    cases x with
    | nil => rfl
    | cons c x =>
      have hc : c ∈ t.head? := by
        rw [hcut, hsplit]
        rfl
      have hspace := hwhite c (List.mem_of_mem_head? hc)
      rw [ht.head c hc, hx c (List.mem_cons_self ..)] at hspace
      cases hspace
  rw [hnil, List.nil_append] at hsplit
  rw [Bool.eq_iff_iff, List.isPrefixOf_iff_prefix, Option.isSome_iff_exists]
  constructor
  · intro h
    obtain ⟨f, z, hf, hlower⟩ := starts_of_prefix L file_safe h
    refine ⟨z ++ y ++ '=' :: v, skipWord_eq_some.2 ⟨f, ?_, hlower⟩⟩
    rw [hcut, hsplit, hf, List.append_assoc, List.append_assoc, List.append_assoc]
  · rintro ⟨s, hs⟩
    obtain ⟨f, hf, hlower⟩ := skipWord_eq_some.1 hs
    obtain ⟨k, hk⟩ : ∃ k, key = f ++ k := by
      refine starts_inside (hf.symm.trans hcut) fun c hc => ?_
      obtain rfl := Option.some.inj hc
      exact not_mem_lowered hlower (by decide)
    have hletters := file_noWhite hlower fun c hc =>
      hwhite c (hkt c (hk ▸ List.mem_append_left k hc))
    obtain ⟨z, hz⟩ : ∃ z, trimOf isWhiteSpace key = f ++ z := by
      refine starts_inside (hk.symm.trans hsplit) fun c hc hmem => ?_
      cases (hletters c hmem).symm.trans (hy c (List.mem_of_mem_head? hc))
    rw [hz, Lowercase.lower, apply_append, apply_ascii L (ascii_of_lowered file_safe.ascii hlower),
      hlower]
    exact List.prefix_append _ _

/-- With one notion of white space, the line is read as it is when trimmed. -/
theorem fileLine_eq (hl : ∀ c ∈ l, isSpace c = isWhiteSpace c) (ht : trimOf isSpace l = t) :
    fileLine L l = (cut ['='] t).bind fun p =>
      if (skipWord "file".toList t).isSome && startsHttp (trimOf isSpace p.2) then
        some (trimOf isSpace p.2)
      else none := by
  have htrim : trimOf isWhiteSpace l = t := (trimOf_congr hl).symm.trans ht
  rw [fileLine, htrim]
  cases hcut : cut ['='] t with
  | none => rfl
  | some p =>
    obtain ⟨key, v⟩ := p
    obtain ⟨hsplit, _⟩ := cut_singleton_eq_some.1 hcut
    have hwhite : ∀ c ∈ t, isSpace c = isWhiteSpace c := by
      intro c hc
      refine hl c ?_
      obtain ⟨x, y, hxy, _, _⟩ := trimOf_split isSpace l
      rw [hxy, ht]
      exact List.mem_append_right x (List.mem_append_left y hc)
    have hv : trimOf isWhiteSpace v = trimOf isSpace v :=
      (trimOf_congr fun c hc => hwhite c (hsplit ▸ by simp [hc])).symm
    have htrimmed : Trimmed t := by
      rw [← ht]
      refine trimmed_trimOf ?_
      rw [ht, hsplit]
      simp
    dsimp only
    rw [key_iff L htrimmed hwhite hsplit, hv, Option.bind_some]
    cases (skipWord "file".toList t).isSome with
    | true => rfl
    | false => rfl

/-- A line is read alike by both: `u` is what follows it. -/
structure PlainLine (t u : List Char) : Prop where
  /-- A key that ends its line is not followed by an equals sign and a value. -/
  closed : bareKey t = true → (afterEquals u).bind firstWord = none
  /-- An entry that ends its line has nothing behind it. -/
  filled : fileKey t = some [] → firstWord u = none
  /-- The value of an entry is one word and has a scheme in lower case. -/
  url : ∀ v, fileKey t = some v → v ≠ [] →
    startsHttp (trimOf isSpace v) = true ∧ firstWord v = some (trimOf isSpace v)
  /-- Where `file` begins a line but not a key with a number, no such value follows. -/
  key : fileKey t = none → (skipWord "file".toList t).isSome = true →
    ∀ key v, cut ['='] t = some (key, v) → startsHttp (trimOf isSpace v) = false

theorem plainLine_bare (hbare : bareKey t = true) :
    PlainLine t u ↔ (afterEquals u).bind firstWord = none := by
  obtain ⟨hnone, heq⟩ := bareKey_fileKey hbare
  refine ⟨fun h => h.closed hbare, fun h => ⟨fun _ => h, fun hkey => ?_, fun v hkey => ?_,
    fun _ _ key v hcut => ?_⟩⟩
  · cases hnone.symm.trans hkey
  · cases hnone.symm.trans hkey
  · exact (heq ((cut_singleton_eq_some.1 hcut).1 ▸ by simp)).elim

theorem plainLine_keyless (hbare : ¬ bareKey t = true) (hnone : fileKey t = none) :
    PlainLine t u ↔ ((skipWord "file".toList t).isSome = true →
      ∀ key v, cut ['='] t = some (key, v) → startsHttp (trimOf isSpace v) = false) := by
  refine ⟨fun h => h.key hnone, fun h => ⟨fun hb => (hbare hb).elim, fun hkey => ?_,
    fun v hkey => ?_, fun _ => h⟩⟩
  · cases hnone.symm.trans hkey
  · cases hnone.symm.trans hkey

theorem plainLine_empty (hkey : fileKey t = some []) : PlainLine t u ↔ firstWord u = none := by
  refine ⟨fun h => h.filled hkey, fun h => ⟨fun hb => ?_, fun _ => h, fun v hv hne => ?_,
    fun hnone => ?_⟩⟩
  · cases hkey.symm.trans (bareKey_fileKey hb).1
  · exact (hne (Option.some.inj (hv.symm.trans hkey))).elim
  · cases hkey.symm.trans hnone

theorem plainLine_value (hkey : fileKey t = some v) (hv : v ≠ []) :
    PlainLine t u ↔
      startsHttp (trimOf isSpace v) = true ∧ firstWord v = some (trimOf isSpace v) := by
  refine ⟨fun h => h.url v hkey hv, fun h => ⟨fun hb => ?_, fun hempty => ?_, fun w hw _ => ?_,
    fun hnone => ?_⟩⟩
  · cases hkey.symm.trans (bareKey_fileKey hb).1
  · exact (hv (Option.some.inj (hkey.symm.trans hempty))).elim
  · obtain rfl := Option.some.inj (hkey.symm.trans hw)
    exact h
  · cases hkey.symm.trans hnone

theorem fileKey_cut (hkey : fileKey t = some v) : ∃ key, cut ['='] t = some (key, v) ∧
    (skipWord "file".toList t).isSome = true ∧ t = key ++ '=' :: v := by
  obtain ⟨f, y, hsplit, hf, hnot⟩ := fileKey_split hkey
  refine ⟨f ++ y, cut_singleton_eq_some.2 ⟨hsplit, hnot⟩, Option.isSome_iff_exists.2 ?_, hsplit⟩
  exact ⟨y ++ '=' :: v, skipWord_eq_some.2 ⟨f, by rw [hsplit, List.append_assoc], hf⟩⟩

theorem line_alike_iff {lead : List Char} (hl : ∀ c ∈ l, isSpace c = isWhiteSpace c)
    (ht : trimOf isSpace l = t) (hne : t ≠ []) (hlead : AllSpace lead) (hu : Spaced u) :
    plsAt (lead ++ (t ++ u)) = fileLine L l ↔ PlainLine t u := by
  have htrimmed : Trimmed t := ht ▸ trimmed_trimOf (ht ▸ hne)
  rw [plsAt_line htrimmed hlead hu, fileLine_eq L hl ht]
  by_cases hbare : bareKey t = true
  · have hcut : cut ['='] t = none := by
      rw [Option.eq_none_iff_forall_ne_some]
      rintro ⟨key, v⟩ hcut
      exact (bareKey_fileKey hbare).2 ((cut_singleton_eq_some.1 hcut).1 ▸ by simp)
    rw [plainLine_bare hbare, if_pos hbare, hcut]
    exact Iff.rfl
  rw [if_neg hbare]
  cases hkey : fileKey t with
  | none =>
    rw [plainLine_keyless hbare hkey, Option.bind_none]
    cases hcut : cut ['='] t with
    | none => exact ⟨(fun _ _ _ _ h => nomatch h), fun _ => rfl⟩
    | some p =>
      rw [Option.bind_some]
      split
      · rename_i hboth
        rw [Bool.and_eq_true] at hboth
        refine ⟨nofun, fun h => ?_⟩
        cases (h hboth.1 p.1 p.2 rfl).symm.trans hboth.2
      · rename_i hnot
        rw [Bool.and_eq_true, not_and] at hnot
        refine ⟨fun _ hfile key v hp => ?_, fun _ => rfl⟩
        obtain rfl := Option.some.inj hp
        exact eq_false_of_ne_true (hnot hfile)
  | some v =>
    obtain ⟨key, hcut, hfile, hsplit⟩ := fileKey_cut hkey
    rw [hcut, hfile, Option.bind_some, Option.bind_some, Bool.true_and]
    by_cases hv : v = []
    · subst hv
      have hnone : startsHttp (trimOf isSpace []) = false := rfl
      rw [plainLine_empty hkey, if_pos rfl, hnone, if_neg Bool.false_ne_true]
    · have hends : Ends v := by
        refine ends_of_append (x := key ++ ['=']) ?_
        rw [List.append_assoc, List.singleton_append, ← hsplit]
        exact htrimmed.ends
      rw [plainLine_value hkey hv, if_neg hv]
      split
      · rename_i hstarts
        exact ⟨fun h => ⟨hstarts, h⟩, fun h => h.2⟩
      · rename_i hstarts
        exact ⟨fun h => (firstWord_ends hends hv h).elim, fun h => (hstarts h.1).elim⟩

end FileLines

/-! ### The expression in a text -/

section Texts

variable {l r t w trail : List Char}

theorem plsAt_space (hw : AllSpace w) (r : List Char) : plsAt (w ++ r) = plsAt r := by
  rw [plsAt, plsAt, List.dropWhile_append_of_pos hw]

theorem or_plsMatch (b : Bool) (r : List Char) :
    (plsAt r).or (plsMatch b r) = plsMatch true r := by
  cases r with
  | nil => rfl
  | cons c r =>
    rw [plsMatch, plsMatch]
    cases b with
    | true => cases plsAt (c :: r) with
      | none => rfl
      | some v => rfl
    | false => rfl

theorem or_plsMatch_space (hw : AllSpace w) (b : Bool) (r : List Char) :
    (plsAt r).or (plsMatch b (w ++ r)) = plsMatch true r := by
  induction w generalizing b with
  | nil => exact or_plsMatch b r
  | cons c w ih =>
    have hw' : AllSpace w := fun d hd => hw d (List.mem_cons_of_mem c hd)
    rw [← ih hw' (isLineTerminator c), List.cons_append, plsMatch, ← List.cons_append,
      plsAt_space hw]
    cases plsAt r with
    | none => cases b with
      | true => rfl
      | false => rfl
    | some v => rfl

/-- White space before a line does not matter. -/
theorem plsMatch_lead (hw : AllSpace w) (r : List Char) :
    plsMatch true (w ++ r) = plsMatch true r := by
  rw [← or_plsMatch true (w ++ r), plsAt_space hw, or_plsMatch_space hw]

theorem newline_space : AllSpace ['\n'] := by
  intro c hc
  rw [List.mem_singleton.1 hc]
  decide

/-- Behind white space that ends in a new line, a line begins. -/
theorem plsMatch_newline (hw : AllSpace w) (b : Bool) (r : List Char) :
    plsMatch b (w ++ '\n' :: r) = plsMatch true r := by
  induction w generalizing b with
  | nil =>
    have hmatch : plsMatch b ('\n' :: r) =
        (if b then plsAt ('\n' :: r) else none).or (plsMatch true r) := rfl
    have hspace : plsAt ('\n' :: r) = plsAt r := plsAt_space newline_space r
    rw [List.nil_append, hmatch, hspace]
    cases b with
    | true => exact or_plsMatch true r
    | false => rfl
  | cons c w ih =>
    have hw' : AllSpace w := fun d hd => hw d (List.mem_cons_of_mem c hd)
    have hall : AllSpace (c :: w ++ ['\n']) := by
      intro d hd
      rcases List.mem_append.1 hd with hd | hd
      · exact hw d hd
      · exact newline_space d hd
    have hspace : plsAt (c :: (w ++ '\n' :: r)) = plsAt r := by
      have h := plsAt_space hall r
      rw [List.append_assoc] at h
      exact h
    rw [List.cons_append, plsMatch, ih hw', hspace]
    cases b with
    | true => exact or_plsMatch true r
    | false => rfl

theorem plsMatch_space (hw : AllSpace w) (b : Bool) : plsMatch b w = none := by
  induction w generalizing b with
  | nil => rfl
  | cons c w ih =>
    have hw' : AllSpace w := fun d hd => hw d (List.mem_cons_of_mem c hd)
    have hnone : plsAt (c :: w) = none := by
      rw [← List.append_nil (c :: w), plsAt_space hw]
      rfl
    rw [plsMatch, ih hw', hnone]
    cases b with
    | true => rfl
    | false => rfl

theorem plsMatch_inside (ht : ∀ c ∈ t, isLineTerminator c = false) (r : List Char) :
    plsMatch false (t ++ r) = plsMatch false r := by
  induction t with
  | nil => rfl
  | cons c t ih =>
    rw [List.cons_append, plsMatch, ht c (List.mem_cons_self ..),
      ih fun d hd => ht d (List.mem_cons_of_mem c hd)]
    rfl

theorem plsMatch_text (hne : t ≠ []) (ht : ∀ c ∈ t, isLineTerminator c = false) (r : List Char) :
    plsMatch true (t ++ r) = (plsAt (t ++ r)).or (plsMatch false r) := by
  obtain ⟨c, s, rfl⟩ := List.exists_cons_of_ne_nil hne
  have hinside := plsMatch_inside (fun d hd => ht d (List.mem_cons_of_mem c hd)) (t := s) r
  rw [List.cons_append, plsMatch, ht c (List.mem_cons_self ..), hinside]
  rfl

/-! ### Lines -/

/-- A reader of lines that does not see a final return, nor an empty line. -/
structure LineReader (f : List Char → Option (List Char)) : Prop where
  empty : f [] = none
  chomp : ∀ l, f (l ++ ['\r']) = f l

variable {f : List Char → Option (List Char)}

theorem findSome_lines (h : f [] = none) (s : List Char) :
    (lines s).findSome? f = (splitLines s).findSome? f := by
  unfold lines
  split
  · rename_i hlast
    obtain ⟨ls, hls⟩ := List.getLast?_eq_some_iff.1 hlast
    rw [hls, List.dropLast_concat, List.findSome?_append, List.findSome?_singleton, h,
      Option.or_none]
  · rfl

theorem findSome_newline (hf : LineReader f) (h : '\n' ∉ l) (r : List Char) :
    (lines (l ++ '\n' :: r)).findSome? f = (f l).or ((lines r).findSome? f) := by
  obtain ⟨l', hsplit, hl'⟩ := splitLines_newline h r
  have hsame : f l' = f l := by
    rcases hl' with rfl | rfl
    · rfl
    · exact (hf.chomp l').symm
  rw [findSome_lines hf.empty, findSome_lines hf.empty, hsplit, List.findSome?_cons, hsame]
  cases f l with
  | none => rfl
  | some v => rfl

theorem findSome_last (hf : LineReader f) (h : '\n' ∉ l) : (lines l).findSome? f = f l := by
  rw [findSome_lines hf.empty, splitLines_none h, List.findSome?_singleton]

theorem fileLine_reader (L : Lowercase) : LineReader (fileLine L) where
  empty := rfl
  chomp l := by
    rw [fileLine, trimOf_concat (by decide)]
    rfl

/-! ### Plain playlists -/

/-- The value of a File entry that has one on its line. -/
def entryOf (t : List Char) : Option (List Char) := (fileKey t).bind firstWord

/-- Up to the first entry, the lines of a text are plain and whole. -/
inductive PlainFiles : List Char → Prop
  | last (l : List Char) : '\n' ∉ l → (∀ c ∈ trimOf isSpace l, isLineTerminator c = false) →
      PlainLine (trimOf isSpace l) [] → PlainFiles l
  | line (text l r : List Char) : text = l ++ '\n' :: r → '\n' ∉ l →
      (∀ c ∈ trimOf isSpace l, isLineTerminator c = false) → PlainLine (trimOf isSpace l) r →
      (entryOf (trimOf isSpace l) = none → PlainFiles r) → PlainFiles text

/-- The first line with a scheme in any case has it in lower case. -/
def PlainUrls : List (List Char) → Prop
  | [] => True
  | l :: ls =>
    ((afterScheme (trimOf isSpace l)).isSome = true → startsHttp (trimOf isSpace l) = true) ∧
    ((afterScheme (trimOf isSpace l)).isSome = false → PlainUrls ls)

structure PlainPlaylist (body : List Char) : Prop where
  /-- There is no byte order mark and no U+0085: one notion of white space. -/
  spaces : ∀ c ∈ body, isSpace c = isWhiteSpace c
  files : PlainFiles (trimOf isSpace body)
  urls : plsMatch true (trimOf isSpace body) = none → PlainUrls (splitLines (trimOf isSpace body))

theorem spaced_newline {trail : List Char} (h : AllSpace trail) (r : List Char) :
    Spaced (trail ++ '\n' :: r) := by
  cases trail with
  | nil =>
    intro c hc
    obtain rfl := Option.some.inj hc
    decide
  | cons d trail =>
    intro c hc
    obtain rfl := Option.some.inj hc
    exact h d (List.mem_cons_self ..)

theorem dropWhile_newline {trail : List Char} (h : AllSpace trail) (r : List Char) :
    (trail ++ '\n' :: r).dropWhile isSpace = r.dropWhile isSpace := by
  rw [List.dropWhile_append_of_pos h, List.dropWhile_cons]
  rfl

/-- Only what is behind the white space counts for what follows a line. -/
theorem plainLine_congr {u u' : List Char} (h : u.dropWhile isSpace = u'.dropWhile isSpace) :
    PlainLine t u ↔ PlainLine t u' := by
  have hword : firstWord u = firstWord u' := by rw [firstWord, firstWord, h]
  have hequals : afterEquals u = afterEquals u' := by rw [afterEquals, afterEquals, h]
  constructor
  · intro hp
    exact ⟨hequals ▸ hp.closed, hword ▸ hp.filled, hp.url, hp.key⟩
  · intro hp
    exact ⟨hequals ▸ hp.closed, hword ▸ hp.filled, hp.url, hp.key⟩

theorem fileLine_blank (L : Lowercase) (hl : ∀ c ∈ l, isSpace c = isWhiteSpace c)
    (hnil : trimOf isSpace l = []) : fileLine L l = none := by
  rw [fileLine_eq L hl hnil]
  rfl

theorem plsMatch_last (L : Lowercase) (hl : ∀ c ∈ l, isSpace c = isWhiteSpace c)
    (hwhole : ∀ c ∈ trimOf isSpace l, isLineTerminator c = false)
    (hplain : PlainLine (trimOf isSpace l) []) : plsMatch true l = fileLine L l := by
  obtain ⟨lead, trail, hsplit, hlead, htrail⟩ := trimOf_split isSpace l
  by_cases hnil : trimOf isSpace l = []
  · rw [fileLine_blank L hl hnil]
    refine plsMatch_space (fun c hc => ?_) true
    rw [hsplit, hnil, List.nil_append] at hc
    rcases List.mem_append.1 hc with hc | hc
    · exact hlead c hc
    · exact htrail c hc
  have hspaced : Spaced trail := fun c hc => htrail c (List.mem_of_mem_head? hc)
  have hdrop : trail.dropWhile isSpace = [].dropWhile isSpace := List.dropWhile_eq_nil_iff.2 htrail
  have halike := (line_alike_iff L hl rfl hnil hlead hspaced).2 ((plainLine_congr hdrop).2 hplain)
  calc plsMatch true l
      = plsMatch true (lead ++ (trimOf isSpace l ++ trail)) := by rw [← hsplit]
    _ = (plsAt (trimOf isSpace l ++ trail)).or (plsMatch false trail) := by
      rw [plsMatch_lead hlead, plsMatch_text hnil hwhole]
    _ = plsAt (lead ++ (trimOf isSpace l ++ trail)) := by
      rw [plsMatch_space htrail, Option.or_none, plsAt_space hlead]
    _ = fileLine L l := halike

theorem plsMatch_line (L : Lowercase) (hl : ∀ c ∈ l, isSpace c = isWhiteSpace c)
    (hwhole : ∀ c ∈ trimOf isSpace l, isLineTerminator c = false)
    (hplain : PlainLine (trimOf isSpace l) r) :
    plsMatch true (l ++ '\n' :: r) = (fileLine L l).or (plsMatch true r) := by
  obtain ⟨lead, trail, hsplit, hlead, htrail⟩ := trimOf_split isSpace l
  by_cases hnil : trimOf isSpace l = []
  · rw [fileLine_blank L hl hnil]
    refine plsMatch_newline (fun c hc => ?_) true r
    rw [hsplit, hnil, List.nil_append] at hc
    rcases List.mem_append.1 hc with hc | hc
    · exact hlead c hc
    · exact htrail c hc
  have hplain' := (plainLine_congr (dropWhile_newline htrail r)).2 hplain
  have halike := (line_alike_iff L hl rfl hnil hlead (spaced_newline htrail r)).2 hplain'
  calc plsMatch true (l ++ '\n' :: r)
      = plsMatch true (lead ++ (trimOf isSpace l ++ (trail ++ '\n' :: r))) := by
        rw [← List.append_assoc (trimOf isSpace l), ← List.append_assoc lead, ← hsplit]
    _ = (plsAt (trimOf isSpace l ++ (trail ++ '\n' :: r))).or
          (plsMatch false (trail ++ '\n' :: r)) := by
      rw [plsMatch_lead hlead, plsMatch_text hnil hwhole]
    _ = (plsAt (lead ++ (trimOf isSpace l ++ (trail ++ '\n' :: r)))).or (plsMatch true r) := by
      rw [plsMatch_newline htrail, plsAt_space hlead]
    _ = (fileLine L l).or (plsMatch true r) := by rw [halike]

theorem fileLine_entry (L : Lowercase) (hl : ∀ c ∈ l, isSpace c = isWhiteSpace c)
    (hplain : PlainLine (trimOf isSpace l) r) (hentry : entryOf (trimOf isSpace l) ≠ none) :
    fileLine L l ≠ none := by
  obtain ⟨word, hword⟩ := Option.ne_none_iff_exists'.1 hentry
  obtain ⟨v, hkey, hfirst⟩ := Option.bind_eq_some_iff.1 hword
  have hv : v ≠ [] := by
    rintro rfl
    cases hfirst
  obtain ⟨hstarts, _⟩ := hplain.url v hkey hv
  obtain ⟨f, y, hsplit, hf, hnot⟩ := fileKey_split hkey
  have hfile : skipWord "file".toList (trimOf isSpace l) = some (y ++ '=' :: v) :=
    skipWord_eq_some.2 ⟨f, by rw [hsplit, List.append_assoc], hf⟩
  rw [fileLine_eq L hl rfl, cut_singleton_eq_some.2 ⟨hsplit, hnot⟩, hfile, Option.bind_some,
    Option.isSome_some, Bool.true_and, if_pos hstarts]
  exact Option.some_ne_none _

theorem plsMatch_plain (L : Lowercase) {text : List Char} (h : PlainFiles text) :
    (∀ c ∈ text, isSpace c = isWhiteSpace c) →
    plsMatch true text = (lines text).findSome? (fileLine L) := by
  induction h with
  | last l hline hwhole hplain =>
    intro hspaces
    rw [findSome_last (fileLine_reader L) hline]
    exact plsMatch_last L hspaces hwhole hplain
  | line text l r htext hline hwhole hplain _ ih =>
    intro hspaces
    have hl : ∀ c ∈ l, isSpace c = isWhiteSpace c :=
      fun c hc => hspaces c (htext ▸ List.mem_append_left _ hc)
    have hr : ∀ c ∈ r, isSpace c = isWhiteSpace c := by
      intro c hc
      exact hspaces c (htext ▸ List.mem_append_right _ (List.mem_cons_of_mem _ hc))
    rw [htext, plsMatch_line L hl hwhole hplain, findSome_newline (fileLine_reader L) hline]
    by_cases hentry : entryOf (trimOf isSpace l) = none
    · rw [ih hentry hr]
    · obtain ⟨v, hv⟩ := Option.ne_none_iff_exists'.1 (fileLine_entry L hl hplain hentry)
      rw [hv]
      rfl

theorem afterScheme_of_starts (h : startsHttp t = true) : (afterScheme t).isSome = true := by
  rw [startsHttp, Bool.or_eq_true, List.isPrefixOf_iff_prefix, List.isPrefixOf_iff_prefix] at h
  rcases h with ⟨s, rfl⟩ | ⟨s, rfl⟩
  · rw [afterScheme_append (Or.inr (by decide))]
    rfl
  · rw [afterScheme_append (Or.inl (by decide))]
    rfl

theorem not_comment (h : (afterScheme t).isSome = true) :
    (t = [] || t.head? = some '#') = false := by
  cases t with
  | nil => cases h
  | cons c t =>
    have hc : c ≠ '#' := by
      rintro rfl
      cases h
    simpa using hc

theorem urlLine_alike (hl : ∀ c ∈ l, isSpace c = isWhiteSpace c)
    (h : (afterScheme (trimOf isSpace l)).isSome = true → startsHttp (trimOf isSpace l) = true) :
    Web.urlLine l = urlLine l := by
  have htests : (afterScheme (trimOf isSpace l)).isSome = startsHttp (trimOf isSpace l) :=
    Bool.eq_iff_iff.2 ⟨h, afterScheme_of_starts⟩
  rw [Web.urlLine, urlLine, ← trimOf_congr hl, htests]

theorem findSome_urls {ls : List (List Char)}
    (hspaces : ∀ l ∈ ls, ∀ c ∈ l, isSpace c = isWhiteSpace c) (h : PlainUrls ls) :
    ls.findSome? Web.urlLine = ls.findSome? urlLine := by
  induction ls with
  | nil => rfl
  | cons l ls ih =>
    have hl := hspaces l (List.mem_cons_self ..)
    rw [List.findSome?_cons, List.findSome?_cons, ← urlLine_alike hl h.1]
    cases hscheme : (afterScheme (trimOf isSpace l)).isSome with
    | true =>
      have hsome : Web.urlLine l = some (trimOf isSpace l) := by
        rw [Web.urlLine, not_comment hscheme, if_neg Bool.false_ne_true, if_pos hscheme]
      rw [hsome]
    | false => rw [ih (fun l' hl' => hspaces l' (List.mem_cons_of_mem l hl')) (h.2 hscheme)]

theorem mem_splitLines {s : List Char} {c : Char} (hl : l ∈ splitLines s) (hc : c ∈ l) : c ∈ s := by
  induction s using splitLines.induct generalizing l with
  | case1 =>
    rw [splitLines, List.mem_singleton] at hl
    rw [hl] at hc
    cases hc
  | case2 s ih =>
    rw [splitLines, List.mem_cons] at hl
    rcases hl with rfl | hl
    · cases hc
    · exact List.mem_cons_of_mem _ (List.mem_cons_of_mem _ (ih hl hc))
  | case3 s ih =>
    rw [splitLines, List.mem_cons] at hl
    rcases hl with rfl | hl
    · cases hc
    · exact List.mem_cons_of_mem _ (ih hl hc)
  | case4 d s hreturn hnewline hnil ih =>
    rw [splitLines, hnil, List.mem_singleton] at hl
    · rw [hl, List.mem_singleton] at hc
      exact hc ▸ List.mem_cons_self ..
    · exact hreturn
    · exact hnewline
  | case5 d s hreturn hnewline x ls hsplit ih =>
    rw [splitLines, hsplit, List.mem_cons] at hl
    · rcases hl with rfl | hl
      · rcases List.mem_cons.1 hc with rfl | hc
        · exact List.mem_cons_self ..
        · exact List.mem_cons_of_mem d (ih (hsplit ▸ List.mem_cons_self ..) hc)
      · exact List.mem_cons_of_mem d (ih (hsplit ▸ List.mem_cons_of_mem x hl) hc)
    · exact hreturn
    · exact hnewline

theorem firstWord_noSpace {v word : List Char} (h : firstWord v = some word) :
    ∀ c ∈ word, isSpace c = false := by
  intro c hc
  rw [firstWord] at h
  split at h
  · cases h
  · obtain rfl := Option.some.inj h
    simpa using List.mem_takeWhile_imp hc

/-- The match has no white space that `trim` could take off. -/
theorem plsMatch_noSpace {b : Bool} {s url : List Char} (h : plsMatch b s = some url) :
    ∀ c ∈ url, isSpace c = false := by
  induction s generalizing b with
  | nil => cases h
  | cons c s ih =>
    rw [plsMatch] at h
    rcases Option.or_eq_some_iff.1 h with h | ⟨_, h⟩
    · split at h
      · obtain ⟨v, _, hword⟩ := Option.bind_eq_some_iff.1 h
        exact firstWord_noSpace hword
      · cases h
    · exact ih h

theorem trimOf_noSpace {s : List Char} (h : ∀ c ∈ s, isSpace c = false) : trimOf isSpace s = s := by
  obtain ⟨x, y, hxy, hx, hy⟩ := trimOf_split isSpace s
  have hnone : ∀ z : List Char, (∀ c ∈ z, c ∈ s) → (∀ c ∈ z, isSpace c = true) → z = [] := by
    intro z hz hspace
    cases z with
    | nil => rfl
    | cons c z =>
      have hc := h c (hz c (List.mem_cons_self ..))
      rw [hspace c (List.mem_cons_self ..)] at hc
      cases hc
  have hx' : x = [] := hnone x (fun c hc => hxy ▸ List.mem_append_left _ hc) hx
  have hy' : y = [] := by
    refine hnone y (fun c hc => ?_) hy
    rw [hxy]
    exact List.mem_append_right x (List.mem_append_right _ hc)
  rw [hx', hy', List.nil_append, List.append_nil] at hxy
  exact hxy.symm

theorem firstUrl_plain (L : Lowercase) {body : List Char} (h : PlainPlaylist body) :
    firstUrlFromPlaylist L body = Web.firstUrlFromPlaylist body := by
  have hmem : ∀ c ∈ trimOf isSpace body, c ∈ body := by
    intro c hc
    obtain ⟨x, y, hxy, _, _⟩ := trimOf_split isSpace body
    rw [hxy]
    exact List.mem_append_right x (List.mem_append_left y hc)
  have hspaces : ∀ c ∈ trimOf isSpace body, isSpace c = isWhiteSpace c :=
    fun c hc => h.spaces c (hmem c hc)
  have hfiles := plsMatch_plain L h.files hspaces
  rw [firstUrlFromPlaylist, Web.firstUrlFromPlaylist, ← trimOf_congr h.spaces, ← hfiles]
  cases hmatch : plsMatch true (trimOf isSpace body) with
  | none =>
    rw [Option.none_or, findSome_lines rfl]
    exact (findSome_urls (fun l hl c hc => hspaces c (mem_splitLines hl hc)) (h.urls hmatch)).symm
  | some url =>
    have htrim := trimOf_noSpace (plsMatch_noSpace hmatch)
    rw [Option.some_or]
    exact congrArg some htrim.symm

end Texts

/-! ### The mirrors together -/

/-- Lower case as it is for the two signs with ASCII in it and for what has no case. -/
def someLowercase : Lowercase where
  beyond _ c _ :=
    if c.toNat = 0x212A then ['k'] else if c.toNat = 0x130 then ['i', Char.ofNat 0x307] else [c]
  ascii _ c _ hc := by
    split
    · exact Or.inl rfl
    · split
      · exact Or.inr (Or.inl rfl)
      · refine Or.inr (Or.inr ⟨List.cons_ne_nil c [], fun d hd => ?_⟩)
        rw [List.mem_singleton.1 hd]
        exact hc

def plsBody : List Char := "[playlist]\nFile1=http://a.test/b\nTitle1=A".toList

theorem plsBody_plain : PlainPlaylist plsBody where
  spaces := forall_letters (by decide)
  files := by
    have htrim : trimOf isSpace plsBody = plsBody := by decide
    rw [htrim]
    refine .line plsBody "[playlist]".toList "File1=http://a.test/b\nTitle1=A".toList (by decide)
      (by decide) (forall_letters (by decide)) ?_ fun _ => ?_
    · have hkey : fileKey (trimOf isSpace "[playlist]".toList) = none := by decide
      refine ⟨fun h => absurd h (by decide), fun h => absurd h (by decide), fun v hv => ?_,
        fun _ h => absurd h (by decide)⟩
      cases hkey.symm.trans hv
    · refine .line _ "File1=http://a.test/b".toList "Title1=A".toList (by decide) (by decide)
        (forall_letters (by decide)) ?_ fun h => absurd h (by decide)
      have hkey : fileKey (trimOf isSpace "File1=http://a.test/b".toList) =
          some "http://a.test/b".toList := by decide
      refine ⟨fun h => absurd h (by decide), fun h => absurd h (by decide), fun v hv _ => ?_,
        fun h => absurd h (by decide)⟩
      obtain rfl := Option.some.inj (hkey.symm.trans hv)
      decide
  urls h := absurd h (by decide)

end Atradio.Cli
