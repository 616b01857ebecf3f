import Atradio.Web.RichText

/-! # Completing a mention (`CommentComposer.tsx`)

The composer looks back from the caret for an `@`, and the suggestion that is picked takes the place
of what was typed behind it. -/

namespace Atradio.Web
open Atradio.Lib Atradio.Lexicons

structure MentionToken where
  start : ℕ
  query : Units

/-- The loop of `activeMentionToken` over the units before `i`. -/
def tokenBefore (text : Units) (caret : ℕ) : ℕ → Option MentionToken
  | 0 => none
  | i + 1 =>
    match text[i]? with
    -- past the end, where the letters of `undefined` match
    | none => tokenBefore text caret i
    | some ch =>
      if ch = atUnit then
        if i = 0 || text[i - 1]?.any opensMention then
          some { start := i, query := (text.take caret).drop (i + 1) }
        else none
      else if isHandleUnit ch then tokenBefore text caret i
      else none

def activeMentionToken (text : Units) (caret : ℕ) : Option MentionToken :=
  tokenBefore text caret caret

def insertMention (text : Units) (mention : MentionToken) (caretPos : ℕ) (handle : Units) : Units :=
  text.take mention.start ++ (atUnit :: handle ++ asciiUnits " ") ++ text.drop caretPos

example : (activeMentionToken (asciiUnits "hi (@al") 7).map (fun m => (m.start, m.query)) =
    some (4, asciiUnits "al") := by decide

/-! ### Where the token is -/

/-- A mention may stand behind `before`, which begins at `pos`. -/
def Opens (pos : ℕ) (before : Units) : Prop :=
  (pos = 0 ∧ before = []) ∨ ∃ front u, before = front ++ [u] ∧ opensMention u = true

theorem tokenBefore_eq_some {text : Units} {caret i : ℕ} {mention : MentionToken}
    (h : tokenBefore text caret i = some mention) :
    ∃ before after, before.length = mention.start ∧ text = before ++ atUnit :: after ∧
      Opens 0 before := by
  induction i with
  | zero => cases h
  | succ i ih =>
    rw [tokenBefore] at h
    cases hch : text[i]? with
    | none =>
      rw [hch] at h
      exact ih h
    | some ch =>
      rw [hch] at h
      obtain ⟨hi, rfl⟩ := List.getElem?_eq_some_iff.1 hch
      dsimp only at h
      by_cases hat : text[i] = atUnit
      · rw [if_pos hat] at h
        obtain ⟨hopens, hmention⟩ := Option.ite_none_right_eq_some.1 h
        obtain rfl := Option.some.inj hmention
        refine ⟨text.take i, text.drop (i + 1), ?_, ?_, ?_⟩
        · rw [List.length_take]
          exact Nat.min_eq_left hi.le
        · rw [← hat, List.getElem_cons_drop, List.take_append_drop]
        · cases i with
          | zero => exact Or.inl ⟨rfl, rfl⟩
          | succ j =>
            have hlast : text[j]?.any opensMention = true := by simpa using hopens
            have hj : j < text.length := by omega
            rw [List.getElem?_eq_getElem hj] at hlast
            exact Or.inr ⟨text.take j, text[j], List.take_succ_eq_append_getElem hj, hlast⟩
      · rw [if_neg hat] at h
        exact ih (Option.ite_none_right_eq_some.1 h).2

/-! ### What the scan finds before an `@` -/

theorem takeWhile_stop {p : UInt16 → Bool} {a : UInt16} (ha : p a = false) (l r : Units) :
    (l ++ a :: r).takeWhile p = l.takeWhile p := by
  induction l with
  | nil => simp [ha]
  | cons x l ih => simp [List.takeWhile_cons, ih]

theorem handleAt_stop {a : UInt16} (ha : isHandleUnit a = false) (l r : Units) :
    handleAt (l ++ a :: r) = handleAt l := by
  have halnum : isAlnumUnit a = false := by
    by_contra hne
    simp [isHandleUnit, hne] at ha
  unfold handleAt
  rw [takeWhile_stop ha]
  cases l with
  | nil => simp [halnum]
  | cons x l => rfl

/-- An `@` behind the next two units does not change what is found at the first. -/
theorem mentionAt_before (start : Bool) (u b : UInt16) (l r : Units) :
    mentionAt start (u :: b :: l ++ atUnit :: r) = mentionAt start (u :: b :: l) := by
  have hat : ∀ (x : UInt16) (l : Units), atHandle (x :: l ++ atUnit :: r) = atHandle (x :: l) := by
    intro x l
    rw [List.cons_append, atHandle, atHandle, handleAt_stop rfl]
  unfold mentionAt
  rw [hat u (b :: l)]
  simp only [List.cons_append]
  rw [← List.cons_append, hat b l]

theorem mentionAt_opener (start : Bool) (u : UInt16) (r : Units) :
    mentionAt start (u :: atUnit :: r) =
      if opensMention u then (handleAt r).map fun handle => (1, handle) else none := by
  have hnone : atHandle (u :: atUnit :: r) = none := by
    have hstop := handleAt_stop (a := atUnit) rfl [] r
    rw [List.nil_append] at hstop
    rw [atHandle, hstop]
    exact ite_self none
  unfold mentionAt
  rw [hnone, ite_self, Option.map_none, Option.none_or]
  rfl

theorem mentionAt_length {start : Bool} {s handle : Units} {lead : ℕ}
    (h : mentionAt start s = some (lead, handle)) : lead + 1 + handle.length ≤ s.length := by
  obtain ⟨⟨before, after, rfl, rfl⟩, -⟩ := mentionAt_eq_some h
  simp only [List.length_append, List.length_cons]
  omega

theorem handleUnit_not_opens {u : UInt16} (h : isHandleUnit u = true) : opensMention u = false := by
  have hspaces : ∀ n ∈ whitespace.map Char.toNat, n < 45 ∨ 122 < n := by decide
  by_contra hopens
  simp only [opensMention, isSpaceUnit, Bool.not_eq_false, Bool.or_eq_true,
    decide_eq_true_eq] at hopens
  simp only [isHandleUnit, isAlnumUnit, Bool.or_eq_true, Bool.and_eq_true, decide_eq_true_eq] at h
  rcases hopens with hspace | hparen
  · have hrange := hspaces _ hspace
    omega
  · omega

theorem handleAt_units {s handle : Units} (h : handleAt s = some handle) :
    s.take handle.length = handle ∧ ∀ u ∈ handle, isHandleUnit u = true := by
  obtain ⟨-, rfl⟩ := Option.ite_some_none_eq_some.1 h
  have hrun := List.rdropWhile_prefix (fun u => !isAlnumUnit u) (s.takeWhile isHandleUnit)
  have hprefix := hrun.trans (List.takeWhile_prefix isHandleUnit)
  refine ⟨(List.prefix_iff_eq_take.1 hprefix).symm, fun u hu => ?_⟩
  exact List.mem_takeWhile_imp (hrun.subset hu)

/-- What a match takes behind its first unit opens no other mention. -/
theorem mentionAt_taken {start : Bool} {u : UInt16} {s handle : Units} {lead : ℕ}
    (h : mentionAt start (u :: s) = some (lead, handle)) :
    ∀ x ∈ s.take (lead + handle.length), opensMention x = false := by
  rcases Option.or_eq_some_iff.1 h with h | ⟨-, h⟩
  · obtain ⟨handle', hat, heq⟩ := Option.map_eq_some_iff.1 h
    obtain ⟨rfl, rfl⟩ := Prod.mk.inj heq
    obtain ⟨-, hat⟩ := Option.ite_none_right_eq_some.1 hat
    obtain ⟨-, hhandle⟩ := Option.ite_none_right_eq_some.1 hat
    obtain ⟨htake, hunits⟩ := handleAt_units hhandle
    rw [Nat.zero_add, htake]
    exact fun x hx => handleUnit_not_opens (hunits x hx)
  · obtain ⟨-, h⟩ := Option.ite_none_right_eq_some.1 h
    obtain ⟨handle', hat, heq⟩ := Option.map_eq_some_iff.1 h
    obtain ⟨rfl, rfl⟩ := Prod.mk.inj heq
    cases s with
    | nil => cases hat
    | cons v s =>
      obtain ⟨rfl, hhandle⟩ := Option.ite_none_right_eq_some.1 hat
      obtain ⟨htake, hunits⟩ := handleAt_units hhandle
      rw [Nat.add_comm 1, List.take_succ_cons, htake]
      exact List.forall_mem_cons.2 ⟨by decide, fun x hx => handleUnit_not_opens (hunits x hx)⟩

theorem mentionSpans_end {span : MentionSpan} {skip pos : ℕ} {s : Units}
    (h : span ∈ mentionSpans skip pos s) : pos + skip < span.end := by
  have hbefore : (List.replicate pos atUnit).length = pos := List.length_replicate
  obtain ⟨hspan, hstart⟩ := (mentionSpans_in skip hbefore).1 span h
  have hend := hspan.ends
  rw [List.length_cons] at hend
  omega

theorem mentionSpans_opener_end {span : MentionSpan} {pos : ℕ} {u : UInt16} {r : Units}
    (h : span ∈ mentionSpans 0 pos (u :: atUnit :: r)) : pos + 1 < span.end := by
  rw [mentionSpans, mentionAt_opener] at h
  split at h
  · have hlt := mentionSpans_end h
    omega
  · rename_i lead handle hmention
    obtain ⟨handle', -, heq⟩ :=
      Option.map_eq_some_iff.1 (Option.ite_none_right_eq_some.1 hmention).2
    obtain ⟨rfl, rfl⟩ := Prod.mk.inj heq
    rcases List.mem_cons.1 h with rfl | h
    · dsimp only
      omega
    · have hlt := mentionSpans_end h
      omega

/-- A span that ends before an `@` does not depend on what is behind the `@`. -/
theorem mentionSpans_before {span : MentionSpan} {skip pos : ℕ} {before r : Units} (r' : Units)
    (hskip : skip ≤ before.length) (hend : span.end ≤ pos + before.length)
    (h : span ∈ mentionSpans skip pos (before ++ atUnit :: r)) :
    span ∈ mentionSpans skip pos (before ++ atUnit :: r') := by
  induction before generalizing skip pos with
  | nil =>
    have hlt := mentionSpans_end h
    simp only [List.length_nil] at hend
    omega
  | cons u before ih =>
    rw [List.length_cons] at hskip hend
    have hnext : span.end ≤ pos + 1 + before.length := by omega
    cases skip with
    | succ skip => exact ih (by omega) hnext h
    | zero =>
      cases before with
      | nil =>
        have hlt := mentionSpans_opener_end h
        rw [List.length_nil] at hend
        omega
      | cons b before =>
        have hsame := mentionAt_before (pos = 0) u b before
        rw [List.cons_append, mentionSpans, ← List.cons_append, hsame r] at h
        rw [List.cons_append, mentionSpans, ← List.cons_append, hsame r']
        cases hmention : mentionAt (pos = 0) (u :: b :: before) with
        | none =>
          rw [hmention] at h
          exact ih (Nat.zero_le _) hnext h
        | some found =>
          obtain ⟨lead, handle⟩ := found
          rw [hmention] at h
          have hlength := mentionAt_length hmention
          rw [List.length_cons] at hlength
          rcases List.mem_cons.1 h with rfl | h
          · exact List.mem_cons_self ..
          · exact List.mem_cons_of_mem _ (ih (by omega) hnext h)

/-- A mention is found wherever one may stand. -/
theorem mentionSpans_opens {skip pos : ℕ} {before r handle : Units} (hopens : Opens pos before)
    (hskip : skip ≤ before.length) (htaken : ∀ u ∈ before.take skip, opensMention u = false)
    (hhandle : handleAt r = some handle) :
    { start := pos + before.length, «end» := pos + before.length + 1 + handle.length, handle } ∈
      mentionSpans skip pos (before ++ atUnit :: r) := by
  induction before generalizing skip pos with
  | nil =>
    rcases hopens with ⟨rfl, -⟩ | ⟨front, u, hnil, -⟩
    · obtain rfl : skip = 0 := Nat.le_zero.1 hskip
      have hat : mentionAt true (atUnit :: r) = some (0, handle) := by
        simp [mentionAt, atHandle, hhandle]
      rw [List.nil_append, mentionSpans]
      simp [hat]
    · simp at hnil
  | cons u before ih =>
    have hlength : pos + (u :: before).length = pos + 1 + before.length := by
      rw [List.length_cons]
      omega
    rw [hlength]
    rcases hopens with ⟨-, hnil⟩ | ⟨front, v, hlast, hv⟩
    · cases hnil
    cases before with
    | nil =>
      obtain ⟨-, rfl⟩ : front = [] ∧ v = u := by
        cases front <;> simp_all
      cases skip with
      | succ skip =>
        have hnot := htaken v (by simp)
        rw [hv] at hnot
        cases hnot
      | zero =>
        rw [List.cons_append, List.nil_append, mentionSpans, mentionAt_opener, if_pos hv, hhandle]
        exact List.mem_cons_self ..
    | cons b before =>
      have hnext : Opens (pos + 1) (b :: before) := by
        cases front with
        | nil => cases hlast
        | cons x front => exact Or.inr ⟨front, v, (List.cons.inj hlast).2, hv⟩
      cases skip with
      | succ skip =>
        refine ih hnext (Nat.le_of_succ_le_succ hskip) fun x hx => htaken x ?_
        exact List.mem_cons_of_mem _ hx
      | zero =>
        rw [List.cons_append, mentionSpans, ← List.cons_append, mentionAt_before]
        cases hmention : mentionAt (pos = 0) (u :: b :: before) with
        | none => exact ih hnext (Nat.zero_le _) (by simp)
        | some found =>
          obtain ⟨lead, taken⟩ := found
          have hshort := mentionAt_length hmention
          rw [List.length_cons] at hshort
          exact List.mem_cons_of_mem _ (ih hnext (by omega) (mentionAt_taken hmention))

/-! ### What is found in the new text -/

/-- Letters, digits, dots and hyphens, a letter or a digit at both ends. -/
structure IsHandle (handle : Units) : Prop where
  units : ∀ u ∈ handle, isHandleUnit u = true
  first : handle.head?.any isAlnumUnit = true
  last : handle.getLast?.any isAlnumUnit = true

theorem handleAt_handle {handle : Units} (h : IsHandle handle) (rest : Units) :
    handleAt (handle ++ asciiUnits " " ++ rest) = some handle := by
  have hends : (handle.takeWhile isHandleUnit).rdropWhile (fun u => !isAlnumUnit u) = handle := by
    rw [List.takeWhile_eq_self_iff.2 h.units, List.rdropWhile_eq_self_iff]
    intro hne
    have hlast := h.last
    rw [List.getLast?_eq_some_getLast hne] at hlast
    simpa using hlast
  have hstop := handleAt_stop (a := 32) rfl handle rest
  rw [List.append_assoc]
  exact hstop.trans (by rw [handleAt, if_pos h.first, hends])

/-- The inserted mention is found where the token was, and the mentions before it as they were,
wherever the caret has gone since. -/
theorem insertMention_detected {text handle : Units} {caret : ℕ} {mention : MentionToken}
    (hmention : activeMentionToken text caret = some mention) (hhandle : IsHandle handle)
    (caretPos : ℕ) :
    { start := mention.start, «end» := mention.start + 1 + handle.length, handle } ∈
        detectMentionSpans (insertMention text mention caretPos handle) ∧
      ∀ span ∈ detectMentionSpans text, span.end ≤ mention.start →
        span ∈ detectMentionSpans (insertMention text mention caretPos handle) := by
  obtain ⟨before, after, hstart, htext, hopens⟩ := tokenBefore_eq_some hmention
  have htake : text.take mention.start = before := by rw [htext, ← hstart, List.take_left]
  have hinsert : insertMention text mention caretPos handle =
      before ++ atUnit :: (handle ++ asciiUnits " " ++ text.drop caretPos) := by
    rw [insertMention, htake]
    simp only [List.append_assoc, List.cons_append]
  have hhandleAt := handleAt_handle hhandle (text.drop caretPos)
  rw [hinsert]
  constructor
  · have hfound := mentionSpans_opens hopens (Nat.zero_le _) (by simp) hhandleAt
    rwa [Nat.zero_add, hstart] at hfound
  · intro span hspan hend
    rw [htext] at hspan
    exact mentionSpans_before _ (Nat.zero_le _) (by omega) hspan

/-- The second mention of a text is completed. -/
theorem insertMention_second :
    ∃ mention, activeMentionToken (asciiUnits "@a.b (@al!") 9 = some mention ∧
      { start := 6, «end» := 11, handle := asciiUnits "al.x" } ∈
        detectMentionSpans (insertMention (asciiUnits "@a.b (@al!") mention 9 (asciiUnits "al.x")) ∧
      ∀ span ∈ detectMentionSpans (asciiUnits "@a.b (@al!"), span.end ≤ 6 → span ∈
        detectMentionSpans (insertMention (asciiUnits "@a.b (@al!") mention 9 (asciiUnits "al.x")) := by
  have hhandle : IsHandle (asciiUnits "al.x") := ⟨List.all_eq_true.1 rfl, rfl, rfl⟩
  have hmention : activeMentionToken (asciiUnits "@a.b (@al!") 9 =
      some { start := 6, query := asciiUnits "al" } := by rfl
  exact ⟨_, hmention, insertMention_detected hmention hhandle 9⟩

end Atradio.Web
