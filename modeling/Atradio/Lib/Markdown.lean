import Mathlib.Data.List.Basic

/-! # Links of a Markdown text

An inline link is `[label](url)`. The text is read from the left: an opening bracket goes on a
stack, a closing one takes the last of them off and makes a link with it when a destination
in parentheses follows; the brackets that were opened before a link open no link any more. A
backslash takes its meaning from the punctuation behind it. A destination has no blanks, and
its parentheses are balanced. -/

namespace Atradio.Lib.Markdown

/-! ### Reading a text -/

/-- Punctuation of ASCII. -/
def isPunct (c : Char) : Bool :=
  (33 ≤ c.toNat && c.toNat ≤ 47) || (58 ≤ c.toNat && c.toNat ≤ 64) ||
    (91 ≤ c.toNat && c.toNat ≤ 96) || (123 ≤ c.toNat && c.toNat ≤ 126)

/-- A space or a control character of ASCII. -/
def isBlank (c : Char) : Bool := c.toNat ≤ 32 || c.toNat == 127

def escapes (c : Char) (next : Option Char) : Bool := c == '\\' && next.any isPunct

/-- Where a character of a destination leads: the destination is broken off or closed, or goes
on with so many more parentheses open. -/
inductive Paren where
  | broken
  | closed
  | inside (depth : ℕ) (escaped : Bool)

def Paren.step (depth : ℕ) (escaped : Bool) (c : Char) (next : Option Char) : Paren :=
  if escaped then .inside depth false
  else if isBlank c then .broken
  else if c = '(' then .inside (depth + 1) false
  else if c = ')' then if depth = 0 then .closed else .inside (depth - 1) false
  else .inside depth (escapes c next)

/-- A destination up to the parenthesis that closes it. -/
def destination : ℕ → Bool → List Char → Option (List Char)
  | _, _, [] => none
  | depth, escaped, c :: rest =>
    match Paren.step depth escaped c rest.head? with
    | .broken => none
    | .closed => some []
    | .inside depth escaped => (destination depth escaped rest).map (c :: ·)

def linkUrl : List Char → Option (List Char)
  | [] => none
  | c :: rest => if c = '(' then destination 0 false rest else none

structure Opener where
  active : Bool
  start : ℕ

/-- The destination with which a closing bracket makes a link. -/
def Opener.url (o : Opener) (rest : List Char) : Option (List Char) :=
  if o.active then linkUrl rest else none

structure Link where
  start : ℕ
  label : List Char
  url : List Char
  deriving DecidableEq

/-- The text read so far, its open brackets, the last one first, how many characters to pass
over, and the links found. -/
structure Scan where
  seen : List Char := []
  openers : List Opener := []
  skip : ℕ := 0
  links : List Link := []

namespace Scan

def read (s : Scan) (c : Char) : Scan := { s with seen := s.seen ++ [c] }

def found (s : Scan) (o : Opener) (openers : List Opener) (url : List Char) : Scan :=
  { s with openers := openers.map fun o => { o with active := false }
           skip := url.length + 2
           links := s.links ++ [{ start := o.start, label := s.seen.drop o.start, url }] }

def close (s : Scan) (rest : List Char) : Scan :=
  match s.openers with
  | [] => s
  | o :: openers =>
    match o.url rest with
    | some url => s.found o openers url
    | none => { s with openers := openers }

def advance (s : Scan) (c : Char) (rest : List Char) : Scan :=
  if 0 < s.skip then { s.read c with skip := s.skip - 1 }
  else if escapes c rest.head? then { s.read c with skip := 1 }
  else if c = '[' then
    { s.read c with openers := { active := true, start := s.seen.length + 1 } :: s.openers }
  else if c = ']' then (s.close rest).read c
  else s.read c

end Scan

/-- Read a text that goes on with `after`. -/
def scan (after : List Char) : Scan → List Char → Scan
  | s, [] => s
  | s, c :: rest => scan after (s.advance c (rest ++ after)) rest

def links (text : List Char) : List Link := (scan [] {} text).links

/-! ### Texts without links -/

/-- In front of `after`, no bracket that closes one of the text, or one of `depth` brackets open
before it, is followed by a destination. -/
def linkFree (after : List Char) : ℕ → Bool → List Char → Bool
  | _, _, [] => true
  | depth, true, _ :: rest => linkFree after depth false rest
  | depth, false, c :: rest =>
    if c = '[' then linkFree after (depth + 1) false rest
    else if c = ']' then
      (depth == 0 || (linkUrl (rest ++ after)).isNone) && linkFree after (depth - 1) false rest
    else linkFree after depth (escapes c (rest ++ after).head?) rest

/-- In front of `after`, the brackets of the text, and `depth` brackets open before it, are
balanced, no closing one is followed by a destination, and no backslash is left at the end. -/
def balanced (after : List Char) : ℕ → Bool → List Char → Bool
  | depth, escaped, [] => depth == 0 && !escaped
  | depth, true, _ :: rest => balanced after depth false rest
  | depth, false, c :: rest =>
    if c = '[' then balanced after (depth + 1) false rest
    else if c = ']' then
      depth != 0 && (linkUrl (rest ++ after)).isNone && balanced after (depth - 1) false rest
    else (c != '\\' || !rest.isEmpty) && balanced after depth (escapes c (rest ++ after).head?) rest

/-- The text is a destination as it stands. -/
def isUrl (url : List Char) : Bool := destination 0 false (url ++ [')']) == some url

/-! ### Destinations -/

theorem head_append {rest : List Char} (h : rest ≠ []) (after : List Char) :
    (rest ++ after).head? = rest.head? := by
  cases rest with
  | nil => exact (h rfl).elim
  | cons d rest => rfl

/-- The next character only matters to what a backslash does. -/
theorem Paren.step_next (depth : ℕ) (e : Bool) (c : Char) (next next' : Option Char) :
    Paren.step depth e c next = Paren.step depth e c next' ∨
      ∃ e₁ e₂, Paren.step depth e c next = .inside depth e₁ ∧
        Paren.step depth e c next' = .inside depth e₂ := by
  unfold Paren.step
  split
  · exact Or.inl rfl
  split
  · exact Or.inl rfl
  split
  · exact Or.inl rfl
  split
  · exact Or.inl rfl
  · exact Or.inr ⟨_, _, rfl, rfl⟩

theorem Paren.step_closed {depth : ℕ} {e : Bool} {c : Char} {next : Option Char}
    (h : Paren.step depth e c next = .closed) : e = false ∧ depth = 0 := by
  unfold Paren.step at h
  split at h
  · cases h
  split at h
  · cases h
  split at h
  · cases h
  split at h
  · split at h
    · exact ⟨by simpa using ‹¬e = true›, ‹depth = 0›⟩
    · cases h
  · cases h

theorem Paren.step_deeper {depth d : ℕ} {e e' : Bool} {c : Char} {next : Option Char}
    (h : Paren.step depth e c next = .inside d e') (k : ℕ) :
    Paren.step (depth + k) e c next = .inside (d + k) e' := by
  unfold Paren.step at h ⊢
  split at h
  · cases h
    rw [if_pos ‹e = true›]
  rw [if_neg ‹¬e = true›]
  split at h
  · cases h
  rw [if_neg ‹¬isBlank c = true›]
  split at h
  · cases h
    rw [if_pos ‹c = '('›]
    congr 1
    omega
  rw [if_neg ‹¬c = '('›]
  split at h
  · rw [if_pos ‹c = ')'›]
    split at h
    · cases h
    · cases h
      rw [if_neg (by omega)]
      congr 1
      omega
  · cases h
    rw [if_neg ‹¬c = ')'›]

theorem not_punct_of_blank {c : Char} (h : isBlank c = true) : isPunct c = false := by
  simp only [isBlank, Bool.or_eq_true, decide_eq_true_eq, beq_iff_eq] at h
  simp only [isPunct, Bool.or_eq_false_iff, Bool.and_eq_false_iff, decide_eq_false_iff_not]
  omega

section Destination

variable {depth : ℕ} {e : Bool} {c : Char} {rest : List Char}

theorem destination_broken (h : Paren.step depth e c rest.head? = .broken) :
    destination depth e (c :: rest) = none := by
  rw [destination, h]

theorem destination_closed (h : Paren.step depth e c rest.head? = .closed) :
    destination depth e (c :: rest) = some [] := by
  rw [destination, h]

theorem destination_inside {d : ℕ} {e' : Bool} (h : Paren.step depth e c rest.head? = .inside d e') :
    destination depth e (c :: rest) = (destination d e' rest).map (c :: ·) := by
  rw [destination, h]

theorem destination_blank (h : isBlank c = true) : destination depth false (c :: rest) = none := by
  refine destination_broken ?_
  unfold Paren.step
  rw [if_neg (by simp), if_pos h]

end Destination

theorem destination_append {depth : ℕ} {e : Bool} {text url : List Char}
    (h : destination depth e text = some url) (after : List Char) :
    destination depth e (text ++ after) = some url := by
  induction text generalizing depth e url with
  | nil => cases h
  | cons c rest ih =>
    have hnext : Paren.step depth e c (rest ++ after).head? = Paren.step depth e c rest.head? := by
      by_cases hrest : rest = []
      · subst hrest
        rcases Paren.step_next depth e c none after.head? with heq | ⟨e₁, _, hin, _⟩
        · exact heq.symm
        · rw [@destination_inside depth e c [] _ _ hin] at h
          cases h
      · rw [head_append hrest]
    cases hp : Paren.step depth e c rest.head? with
    | broken =>
      rw [destination_broken hp] at h
      cases h
    | closed =>
      rw [destination_closed hp] at h
      rw [List.cons_append, destination_closed (hnext.trans hp)]
      exact h
    | inside d e' =>
      rw [destination_inside hp] at h
      obtain ⟨url, hurl, rfl⟩ := Option.map_eq_some_iff.1 h
      rw [List.cons_append, destination_inside (hnext.trans hp), ih hurl, Option.map_some]

theorem destination_append_none {after : List Char}
    (hafter : ∀ depth e, destination depth e after = none) {depth : ℕ} {e : Bool}
    {text : List Char} (h : destination depth e text = none) :
    destination depth e (text ++ after) = none := by
  induction text generalizing depth e with
  | nil => exact hafter depth e
  | cons c rest ih =>
    have hgo : ∀ {d e'}, Paren.step depth e c (rest ++ after).head? = .inside d e' →
        (rest = [] ∨ Paren.step depth e c rest.head? = .inside d e') →
        destination depth e (c :: rest ++ after) = none := by
      intro d e' hp hor
      rw [List.cons_append, destination_inside hp, Option.map_eq_none_iff]
      rcases hor with rfl | hp'
      · exact hafter d e'
      · rw [destination_inside hp', Option.map_eq_none_iff] at h
        exact ih h
    by_cases hrest : rest = []
    · subst hrest
      cases hp : Paren.step depth e c ([] ++ after).head? with
      | broken => exact destination_broken hp
      | closed =>
        rcases Paren.step_next depth e c none after.head? with heq | ⟨_, e₂, _, hin⟩
        · rw [@destination_closed depth e c [] (heq.trans hp)] at h
          cases h
        · cases hin.symm.trans hp
      | inside d e' => exact hgo hp (Or.inl rfl)
    · have hnext := head_append hrest after
      cases hp : Paren.step depth e c rest.head? with
      | broken => exact destination_broken (hnext ▸ hp)
      | closed =>
        rw [destination_closed hp] at h
        cases h
      | inside d e' => exact hgo (hnext ▸ hp) (Or.inr hp)

/-- A blank ends a destination: what follows it does not matter. -/
theorem destination_to_blank {b : Char} (hb : isBlank b = true) (after : List Char) {depth : ℕ}
    {e : Bool} {text : List Char} (he : e = true → text ≠ []) :
    destination depth e (text ++ b :: after) = destination depth e (text ++ [b]) := by
  induction text generalizing depth e with
  | nil =>
    cases e with
    | true => exact (he rfl rfl).elim
    | false =>
      rw [List.nil_append, List.nil_append, destination_blank hb, destination_blank hb]
  | cons c rest ih =>
    have hnext : (rest ++ b :: after).head? = (rest ++ [b]).head? := by cases rest <;> rfl
    cases hp : Paren.step depth e c (rest ++ [b]).head? with
    | broken =>
      rw [List.cons_append, List.cons_append, destination_broken hp,
        destination_broken (hnext ▸ hp)]
    | closed =>
      rw [List.cons_append, List.cons_append, destination_closed hp,
        destination_closed (hnext ▸ hp)]
    | inside d e' =>
      rw [List.cons_append, List.cons_append, destination_inside hp,
        destination_inside (hnext ▸ hp), ih]
      rintro rfl rfl
      -- a backslash in front of a blank escapes nothing
      have hpunct := not_punct_of_blank hb
      unfold Paren.step at hp
      split at hp
      · cases hp
      split at hp
      · cases hp
      split at hp
      · cases hp
      split at hp
      · split at hp <;> cases hp
      · simp [escapes, hpunct] at hp

/-! ### Whole destinations -/

theorem isUrl_iff {url after : List Char} :
    isUrl url = true ↔ destination 0 false (url ++ ')' :: after) = some url := by
  have hback : ∀ (url : List Char) depth e,
      destination depth e (url ++ ')' :: after) = some url →
        destination depth e (url ++ [')']) = some url := by
    intro url
    induction url with
    | nil =>
      intro depth e h
      cases hp : Paren.step depth e ')' after.head? with
      | broken =>
        rw [List.nil_append, destination_broken hp] at h
        cases h
      | closed =>
        rcases Paren.step_next depth e ')' none after.head? with heq | ⟨_, _, _, hin⟩
        · exact @destination_closed depth e ')' [] (heq.trans hp)
        · cases hin.symm.trans hp
      | inside d e' =>
        rw [List.nil_append, destination_inside hp] at h
        obtain ⟨_, _, h⟩ := Option.map_eq_some_iff.1 h
        cases h
    | cons c url ih =>
      intro depth e h
      have hnext : (url ++ ')' :: after).head? = (url ++ [')']).head? := by cases url <;> rfl
      cases hp : Paren.step depth e c (url ++ [')']).head? with
      | broken =>
        rw [List.cons_append, destination_broken (hnext ▸ hp)] at h
        cases h
      | closed =>
        rw [List.cons_append, destination_closed (hnext ▸ hp)] at h
        cases h
      | inside d e' =>
        rw [List.cons_append, destination_inside (hnext ▸ hp)] at h
        obtain ⟨url', hurl, heq⟩ := Option.map_eq_some_iff.1 h
        obtain rfl := (List.cons.inj heq).2
        rw [List.cons_append, destination_inside hp, ih d e' hurl, Option.map_some]
  unfold isUrl
  rw [beq_iff_eq]
  constructor
  · intro h
    have happend := destination_append h after
    rwa [List.append_assoc, List.singleton_append] at happend
  · exact hback url 0 false

/-- Inside further parentheses a destination that ends here goes on, up to a blank or the end. -/
theorem destination_deeper {after : List Char}
    (hafter : ∀ depth, destination depth false after = none) {url : List Char} {depth : ℕ} {e : Bool}
    (h : destination depth e (url ++ [')']) = some url) (k : ℕ) :
    destination (depth + k + 1) e (url ++ ')' :: after) = none := by
  induction url generalizing depth e with
  | nil =>
    cases hp : Paren.step depth e ')' ([] : List Char).head? with
    | broken =>
      rw [List.nil_append, destination_broken hp] at h
      cases h
    | inside d e' =>
      rw [List.nil_append, destination_inside hp] at h
      cases h
    | closed =>
      obtain ⟨rfl, rfl⟩ := Paren.step_closed hp
      have hin : Paren.step (0 + k + 1) false ')' after.head? = .inside k false := by
        simp [Paren.step, isBlank]
      rw [List.nil_append, destination_inside hin, hafter, Option.map_none]
  | cons c url ih =>
    have hnext : (url ++ ')' :: after).head? = (url ++ [')']).head? := by cases url <;> rfl
    cases hp : Paren.step depth e c (url ++ [')']).head? with
    | broken =>
      rw [List.cons_append, destination_broken hp] at h
      cases h
    | closed =>
      rw [List.cons_append, destination_closed hp] at h
      cases h
    | inside d e' =>
      rw [List.cons_append, destination_inside hp] at h
      have hdeep := Paren.step_deeper hp (k + 1)
      rw [← hnext] at hdeep
      obtain ⟨url', hurl, heq⟩ := Option.map_eq_some_iff.1 h
      rw [(List.cons.inj heq).2] at hurl
      have hrest : destination (d + (k + 1)) e' (url ++ ')' :: after) = none := ih hurl
      have hall : destination (depth + (k + 1)) e (c :: (url ++ ')' :: after)) = none := by
        rw [destination_inside hdeep, hrest, Option.map_none]
      exact hall

/-! ### What follows a text -/

def StartsBlank (text : List Char) : Prop := ∀ c ∈ text.head?, isBlank c = true

theorem StartsBlank.destination {after : List Char} (h : StartsBlank after) (depth : ℕ) :
    destination depth false after = none := by
  cases after with
  | nil => rfl
  | cons c rest => exact destination_blank (h c rfl)

theorem destination_over_link {url after : List Char} (hurl : isUrl url = true)
    (hafter : StartsBlank after) (depth : ℕ) (e : Bool) :
    destination depth e (']' :: '(' :: (url ++ ')' :: after)) = none := by
  have hbracket : Paren.step depth e ']' (some '(') = .inside depth false := by
    cases e <;> simp [Paren.step, isBlank, escapes]
  have hopen : Paren.step depth false '(' (url ++ ')' :: after).head? = .inside (depth + 1) false := by
    simp [Paren.step, isBlank]
  have hend : destination 0 false (url ++ [')']) = some url := by
    unfold isUrl at hurl
    exact beq_iff_eq.1 hurl
  have hdeep := destination_deeper hafter.destination hend depth
  rw [Nat.zero_add] at hdeep
  rw [destination_inside hbracket, destination_inside hopen, hdeep]
  rfl

theorem linkUrl_cons (c : Char) (rest : List Char) :
    linkUrl (c :: rest) = if c = '(' then destination 0 false rest else none := rfl

theorem linkUrl_append {text url : List Char} (h : linkUrl text = some url) (after : List Char) :
    linkUrl (text ++ after) = some url := by
  cases text with
  | nil => cases h
  | cons c rest =>
    rw [linkUrl_cons] at h
    rw [List.cons_append, linkUrl_cons]
    split at h
    · rw [if_pos ‹c = '('›]
      exact destination_append h after
    · cases h

theorem linkUrl_over_link {url after : List Char} (hurl : isUrl url = true)
    (hafter : StartsBlank after) (text : List Char) :
    (linkUrl (text ++ ']' :: '(' :: (url ++ ')' :: after))).isNone = (linkUrl text).isNone := by
  cases h : linkUrl text with
  | some u => rw [linkUrl_append h]
  | none =>
    rw [Option.isNone_none, Option.isNone_iff_eq_none]
    cases text with
    | nil => rfl
    | cons c rest =>
      rw [linkUrl_cons] at h
      rw [List.cons_append, linkUrl_cons]
      split at h
      · rw [if_pos ‹c = '('›]
        exact destination_append_none (destination_over_link hurl hafter) h
      · rw [if_neg ‹¬c = '('›]

theorem linkUrl_to_blank {b : Char} (hb : isBlank b = true) (text after : List Char) :
    linkUrl (text ++ b :: after) = linkUrl (text ++ [b]) := by
  cases text with
  | nil =>
    have hne : b ≠ '(' := by
      rintro rfl
      cases hb
    simp [linkUrl, hne]
  | cons c rest =>
    rw [List.cons_append, List.cons_append, linkUrl_cons, linkUrl_cons]
    split
    · exact destination_to_blank hb after (by simp)
    · rfl

theorem linkFree_to_blank {b : Char} (hb : isBlank b = true) (after : List Char) {depth : ℕ}
    {e : Bool} {text : List Char} :
    linkFree after depth e (text ++ [b]) = linkFree [] depth e (text ++ [b]) := by
  induction text generalizing depth e with
  | nil =>
    cases e with
    | true => rfl
    | false =>
      have hopen : b ≠ '[' := by
        rintro rfl
        cases hb
      have hclose : b ≠ ']' := by
        rintro rfl
        cases hb
      simp [linkFree, hopen, hclose]
  | cons c rest ih =>
    have hhead : (rest ++ [b] ++ after).head? = (rest ++ [b] ++ []).head? := by cases rest <;> rfl
    have hurl : linkUrl (rest ++ [b] ++ after) = linkUrl (rest ++ [b] ++ []) := by
      rw [List.append_assoc, List.append_assoc]
      exact linkUrl_to_blank hb rest after
    cases e with
    | true => exact ih
    | false => simp only [List.cons_append, linkFree, hhead, hurl, ih]

theorem balanced_over_link {url after : List Char} (hurl : isUrl url = true)
    (hafter : StartsBlank after) {depth : ℕ} {e : Bool} {text : List Char} :
    balanced (']' :: '(' :: (url ++ ')' :: after)) depth e text = balanced [] depth e text := by
  induction text generalizing depth e with
  | nil => rfl
  | cons c rest ih =>
    have hnone : (linkUrl (rest ++ ']' :: '(' :: (url ++ ')' :: after))).isNone =
        (linkUrl (rest ++ [])).isNone := by
      rw [List.append_nil]
      exact linkUrl_over_link hurl hafter rest
    have hrest : ((c != '\\' || !rest.isEmpty) &&
          balanced [] depth (escapes c (rest ++ ']' :: '(' :: (url ++ ')' :: after)).head?) rest) =
        ((c != '\\' || !rest.isEmpty) && balanced [] depth (escapes c (rest ++ []).head?) rest) := by
      cases rest with
      | nil =>
        by_cases hc : c = '\\'
        · simp [hc]
        · have hplain : ∀ next, escapes c next = false := by simp [escapes, hc]
          rw [hplain, hplain]
      | cons d rest => rfl
    cases e with
    | true => exact ih
    | false => simp only [balanced, hnone, ih, hrest]

/-! ### Escaped texts -/

/-- Each special character behind a backslash. -/
def escape (special : Char → Bool) (text : List Char) : List Char :=
  text.flatMap fun c => if special c then ['\\', c] else [c]

/-- A parenthesis closes before any blank. -/
def closes : ℕ → List Char → Bool
  | _, [] => false
  | depth, c :: rest =>
    if isBlank c then false
    else if c = '(' then closes (depth + 1) rest
    else if c = ')' then depth == 0 || closes (depth - 1) rest
    else closes depth rest

def parenthesised : List Char → Bool
  | [] => false
  | c :: rest => c == '(' && closes 0 rest

/-- The brackets are paired, and none of the closing ones has a parenthesised part behind it. -/
def paired : ℕ → List Char → Bool
  | depth, [] => depth == 0
  | depth, c :: rest =>
    if c = '[' then paired (depth + 1) rest
    else if c = ']' then depth != 0 && !parenthesised rest && paired (depth - 1) rest
    else paired depth rest

/-- Backslashes are escaped, and some of the punctuation, but no brackets or parentheses. -/
structure LeavesBrackets (special : Char → Bool) : Prop where
  backslash : special '\\' = true
  punct : ∀ c, special c = true → isPunct c = true
  brackets : ∀ c ∈ ['[', ']', '(', ')'], special c = false

section Escape

variable {special : Char → Bool}

theorem escape_special {c : Char} (hc : special c = true) (text : List Char) :
    escape special (c :: text) = '\\' :: c :: escape special text := by
  simp [escape, hc]

theorem escape_plain {c : Char} (hc : special c = false) (text : List Char) :
    escape special (c :: text) = c :: escape special text := by
  simp [escape, hc]

theorem LeavesBrackets.ne (h : LeavesBrackets special) {c b : Char} (hc : special c = true)
    (hb : b ∈ ['[', ']', '(', ')']) : c ≠ b := by
  rintro rfl
  have hplain := h.brackets c hb
  rw [hc] at hplain
  cases hplain

theorem LeavesBrackets.ne_backslash (h : LeavesBrackets special) {c : Char}
    (hc : special c = false) : c ≠ '\\' := by
  rintro rfl
  rw [h.backslash] at hc
  cases hc

theorem LeavesBrackets.not_escapes (h : LeavesBrackets special) {c : Char}
    (hc : special c = false) (next : Option Char) : escapes c next = false := by
  simp [escapes, h.ne_backslash hc]

theorem destination_escape (h : LeavesBrackets special) {depth : ℕ} {text : List Char} :
    (destination depth false (escape special text)).isSome = closes depth text := by
  induction text generalizing depth with
  | nil => rfl
  | cons c text ih =>
    cases hc : special c with
    | true =>
      have hpunct := h.punct c hc
      have hblank : isBlank c = false := by
        rw [← Bool.not_eq_true]
        intro hb
        rw [not_punct_of_blank hb] at hpunct
        cases hpunct
      have hslash : Paren.step depth false '\\' (some c) = .inside depth true := by
        simp [Paren.step, isBlank, escapes, hpunct]
      rw [escape_special hc, destination_inside hslash, destination_inside rfl, closes, hblank,
        if_neg (by simp), if_neg (h.ne hc (by simp)), if_neg (h.ne hc (by simp)), Option.isSome_map,
        Option.isSome_map]
      exact ih
    | false =>
      rw [escape_plain hc, destination, Paren.step, closes, h.not_escapes hc, if_neg (by simp)]
      by_cases hblank : isBlank c = true
      · rw [if_pos hblank, if_pos hblank]
        rfl
      rw [if_neg hblank, if_neg hblank]
      by_cases hopen : c = '('
      · rw [if_pos hopen, if_pos hopen]
        exact (Option.isSome_map ..).trans ih
      rw [if_neg hopen, if_neg hopen]
      by_cases hclose : c = ')'
      · rw [if_pos hclose, if_pos hclose]
        cases depth with
        | zero => rfl
        | succ depth => exact (Option.isSome_map ..).trans ih
      · rw [if_neg hclose, if_neg hclose]
        exact (Option.isSome_map ..).trans ih

theorem linkUrl_escape (h : LeavesBrackets special) (text : List Char) :
    (linkUrl (escape special text)).isSome = parenthesised text := by
  cases text with
  | nil => rfl
  | cons c text =>
    cases hc : special c with
    | true =>
      rw [escape_special hc, linkUrl_cons, if_neg (by decide), parenthesised,
        beq_false_of_ne (h.ne hc (by simp))]
      rfl
    | false =>
      rw [escape_plain hc, linkUrl_cons, parenthesised]
      by_cases hopen : c = '('
      · rw [if_pos hopen, destination_escape h, beq_iff_eq.2 hopen, Bool.true_and]
      · rw [if_neg hopen, beq_false_of_ne hopen]
        rfl

/-- Such an escape does not touch what makes links: a text is as balanced as it was. -/
theorem balanced_escape (h : LeavesBrackets special) {depth : ℕ} {text : List Char} :
    balanced [] depth false (escape special text) = paired depth text := by
  induction text generalizing depth with
  | nil => exact Bool.and_true _
  | cons c text ih =>
    cases hc : special c with
    | true =>
      have hslash : escapes '\\' (some c) = true := by
        simp [escapes, h.punct c hc]
      have hnext : (c :: escape special text ++ []).head? = some c := rfl
      rw [escape_special hc, balanced, if_neg (by decide), if_neg (by decide), hnext, hslash,
        balanced, ih, paired, if_neg (h.ne hc (by simp)), if_neg (h.ne hc (by simp))]
      rfl
    | false =>
      have hurl := linkUrl_escape h text
      have hslash : (c != '\\') = true := bne_iff_ne.2 (h.ne_backslash hc)
      rw [escape_plain hc, balanced, paired, h.not_escapes hc, List.append_nil,
        ← Option.not_isSome, hurl, hslash, ih, ih, ih]
      rfl

end Escape

end Atradio.Lib.Markdown
