import Atradio.Lib.Markdown

/-! # A text with one link

What reading a text adds to the links, and when a text around `[label](url)` has that link and
no other. -/

namespace Atradio.Lib.Markdown

/-! ### One character -/

theorem scan_append (after : List Char) (s : Scan) (x y : List Char) :
    scan after s (x ++ y) = scan after (scan (y ++ after) s x) y := by
  induction x generalizing s with
  | nil => rfl
  | cons c x ih =>
    rw [List.cons_append, scan, scan, ih, List.append_assoc]

namespace Scan

theorem close_cases (s : Scan) (rest : List Char) :
    s.openers = [] ∧ s.close rest = s ∨
      ∃ o openers, s.openers = o :: openers ∧
        (o.url rest = none ∧ s.close rest = { s with openers := openers } ∨
          ∃ url, o.url rest = some url ∧ s.close rest = s.found o openers url) := by
  unfold close
  cases s.openers with
  | nil => exact Or.inl ⟨rfl, rfl⟩
  | cons o openers =>
    refine Or.inr ⟨o, openers, rfl, ?_⟩
    dsimp only
    cases o.url rest with
    | none => exact Or.inl ⟨rfl, rfl⟩
    | some url => exact Or.inr ⟨url, rfl, rfl⟩

theorem close_seen (s : Scan) (rest : List Char) : (s.close rest).seen = s.seen := by
  rcases s.close_cases rest with ⟨_, h⟩ | ⟨o, openers, _, ⟨_, h⟩ | ⟨url, _, h⟩⟩
  · rw [h]
  · rw [h]
  · rw [h]
    rfl

theorem advance_seen (s : Scan) (c : Char) (rest : List Char) :
    (s.advance c rest).seen = s.seen ++ [c] := by
  unfold advance
  split
  · rfl
  split
  · rfl
  split
  · rfl
  split
  · show (s.close rest).seen ++ [c] = _
    rw [close_seen]
  · rfl

/-- The openers begin in the text that has been read. -/
def Sound (s : Scan) : Prop := ∀ o ∈ s.openers, o.start ≤ s.seen.length

theorem close_starts {s : Scan} {rest : List Char} {o : Opener} (ho : o ∈ (s.close rest).openers) :
    ∃ o' ∈ s.openers, o'.start = o.start := by
  rcases s.close_cases rest with ⟨_, h⟩ | ⟨p, openers, hs, ⟨_, h⟩ | ⟨url, _, h⟩⟩
  · rw [h] at ho
    exact ⟨o, ho, rfl⟩
  · rw [h] at ho
    exact ⟨o, hs ▸ List.mem_cons_of_mem p ho, rfl⟩
  · rw [h] at ho
    obtain ⟨o', ho', rfl⟩ := List.mem_map.1 ho
    exact ⟨o', hs ▸ List.mem_cons_of_mem p ho', rfl⟩

theorem advance_starts {s : Scan} {c : Char} {rest : List Char} {o : Opener}
    (ho : o ∈ (s.advance c rest).openers) :
    o.start = s.seen.length + 1 ∨ ∃ o' ∈ s.openers, o'.start = o.start := by
  unfold advance at ho
  split at ho
  · exact Or.inr ⟨o, ho, rfl⟩
  split at ho
  · exact Or.inr ⟨o, ho, rfl⟩
  split at ho
  · rcases List.mem_cons.1 ho with rfl | ho
    · exact Or.inl rfl
    · exact Or.inr ⟨o, ho, rfl⟩
  split at ho
  · exact Or.inr (close_starts ho)
  · exact Or.inr ⟨o, ho, rfl⟩

theorem Sound.advance {s : Scan} (h : s.Sound) (c : Char) (rest : List Char) :
    (s.advance c rest).Sound := by
  intro o ho
  rw [advance_seen, List.length_append, List.length_singleton]
  rcases advance_starts ho with heq | ⟨o', ho', heq⟩
  · omega
  · have hle := h o' ho'
    omega

theorem advance_links {s : Scan} (h : s.Sound) (c : Char) (rest : List Char) :
    (s.advance c rest).links = s.links ∨
      ∃ l : Link, (s.advance c rest).links = s.links ++ [l] ∧
        l.start + l.label.length = s.seen.length := by
  unfold Scan.advance
  split
  · exact Or.inl rfl
  split
  · exact Or.inl rfl
  split
  · exact Or.inl rfl
  split
  · show (s.close rest).links = _ ∨ ∃ l : Link, (s.close rest).links = _ ∧ _
    rcases s.close_cases rest with ⟨_, hc⟩ | ⟨o, openers, hs, ⟨_, hc⟩ | ⟨url, _, hc⟩⟩
    · exact Or.inl (by rw [hc])
    · exact Or.inl (by rw [hc])
    · rw [hc]
      refine Or.inr ⟨{ start := o.start, label := s.seen.drop o.start, url }, rfl, ?_⟩
      have hle := h o (hs ▸ List.mem_cons_self ..)
      simp only [List.length_drop]
      omega
  · exact Or.inl rfl

end Scan

/-! ### A text -/

theorem scan_seen (after : List Char) (s : Scan) (x : List Char) :
    (scan after s x).seen = s.seen ++ x := by
  induction x generalizing s with
  | nil => simp [scan]
  | cons c x ih => rw [scan, ih, Scan.advance_seen, List.append_assoc, List.singleton_append]

theorem scan_sound (after : List Char) {s : Scan} (h : s.Sound) (x : List Char) :
    (scan after s x).Sound := by
  induction x generalizing s with
  | nil => exact h
  | cons c x ih => exact ih (h.advance c (x ++ after))

theorem scan_links (after : List Char) {s : Scan} (h : s.Sound) (x : List Char) :
    ∃ ls, (scan after s x).links = s.links ++ ls ∧ ∀ l ∈ ls,
      s.seen.length ≤ l.start + l.label.length ∧
        l.start + l.label.length < s.seen.length + x.length := by
  induction x generalizing s with
  | nil => exact ⟨[], (List.append_nil _).symm, fun l hl => by cases hl⟩
  | cons c x ih =>
    obtain ⟨ls, hls, hin⟩ := ih (h.advance c (x ++ after))
    rw [Scan.advance_seen, List.length_append, List.length_singleton] at hin
    rcases Scan.advance_links h c (x ++ after) with hsame | ⟨l, hnew, hend⟩
    · refine ⟨ls, by rw [scan, hls, hsame], fun l hl => ?_⟩
      have hl := hin l hl
      rw [List.length_cons]
      omega
    · refine ⟨l :: ls, by rw [scan, hls, hnew, List.append_assoc, List.singleton_append], ?_⟩
      intro l' hl'
      rw [List.length_cons]
      rcases List.mem_cons.1 hl' with rfl | hl'
      · omega
      · have hl := hin l' hl'
        omega

/-- The labels of the links found end in the text that has been read. -/
def Ended (s : Scan) : Prop := ∀ l ∈ s.links, l.start + l.label.length < s.seen.length

theorem scan_ended (after : List Char) {s : Scan} (hs : s.Sound) (h : Ended s) (x : List Char) :
    Ended (scan after s x) := by
  obtain ⟨ls, hls, hin⟩ := scan_links after hs x
  intro l hl
  rw [hls] at hl
  rw [scan_seen, List.length_append]
  rcases List.mem_append.1 hl with hl | hl
  · have hlt := h l hl
    omega
  · exact (hin l hl).2

theorem advance_ended {s : Scan} (hs : s.Sound) (h : Ended s) (c : Char) (rest : List Char) :
    Ended (s.advance c rest) := by
  have hone := scan_ended rest hs h [c]
  rwa [scan, List.nil_append, scan] at hone

theorem advance_prefix {s : Scan} (hs : s.Sound) (c : Char) (rest : List Char) :
    s.links <+: (s.advance c rest).links := by
  rcases Scan.advance_links hs c rest with h | ⟨l, h, _⟩
  · exact h ▸ List.prefix_refl _
  · exact h ▸ List.prefix_append _ _

theorem scan_prefix (after : List Char) {s : Scan} (hs : s.Sound) (x : List Char) :
    s.links <+: (scan after s x).links := by
  obtain ⟨ls, hls, _⟩ := scan_links after hs x
  rw [hls]
  exact List.prefix_append _ _

theorem scan_gone (after : List Char) {s : Scan} {start : ℕ} (hle : start ≤ s.seen.length)
    (h : ∀ o ∈ s.openers, o.start ≠ start) (x : List Char) :
    ∀ o ∈ (scan after s x).openers, o.start ≠ start := by
  induction x generalizing s with
  | nil => exact h
  | cons c x ih =>
    refine ih ?_ fun o ho => ?_
    · rw [Scan.advance_seen, List.length_append]
      omega
    · rcases Scan.advance_starts ho with heq | ⟨o', ho', heq⟩
      · omega
      · exact heq ▸ h o' ho'

theorem scan_skip (after : List Char) {s : Scan} {x : List Char} (h : s.skip = x.length) :
    scan after s x = { s with seen := s.seen ++ x, skip := 0 } := by
  induction x generalizing s with
  | nil =>
    obtain ⟨seen, openers, skip, links⟩ := s
    obtain rfl : skip = 0 := h
    simp [scan]
  | cons c x ih =>
    rw [List.length_cons] at h
    have hpass : s.advance c (x ++ after) = { s.read c with skip := s.skip - 1 } :=
      if_pos (by omega)
    have hskip : ({ s.read c with skip := s.skip - 1 } : Scan).skip = x.length := by
      show s.skip - 1 = x.length
      omega
    rw [scan, hpass, ih hskip]
    simp [Scan.read]

/-! ### Open brackets -/

/-- `depth` brackets are open above `base`, all of them behind `floor`, and the next character
is escaped or not. -/
structure Reading (s : Scan) (depth : ℕ) (e : Bool) (base : List Opener) (floor : ℕ) : Prop where
  openers : ∃ os, s.openers = os ++ base ∧ os.length = depth ∧
    ∀ o ∈ os, o.active = true ∧ floor < o.start
  skip : s.skip = if e then 1 else 0
  floor_le : floor ≤ s.seen.length

section Reading

variable {s : Scan} {depth : ℕ} {e : Bool} {base : List Opener} {floor : ℕ}

theorem Reading.escaped (h : Reading s depth true base floor) (c : Char) (rest : List Char) :
    Reading (s.advance c rest) depth false base floor ∧ (s.advance c rest).links = s.links := by
  have hskip : s.skip = 1 := h.skip
  have hadv : s.advance c rest = { s.read c with skip := s.skip - 1 } := if_pos (by omega)
  rw [hadv]
  refine ⟨⟨h.openers, by simp [hskip], ?_⟩, rfl⟩
  have hle := h.floor_le
  simp only [Scan.read, List.length_append]
  omega

theorem Reading.plain (h : Reading s depth false base floor) {c : Char} (hopen : c ≠ '[')
    (hclose : c ≠ ']') (rest : List Char) :
    Reading (s.advance c rest) depth (escapes c rest.head?) base floor ∧
      (s.advance c rest).links = s.links := by
  have hskip : s.skip = 0 := h.skip
  have hle := h.floor_le
  unfold Scan.advance
  rw [if_neg (by omega), if_neg hopen, if_neg hclose]
  by_cases hesc : escapes c rest.head? = true
  · rw [if_pos hesc]
    refine ⟨⟨h.openers, by rw [hesc]; rfl, ?_⟩, rfl⟩
    simp only [Scan.read, List.length_append]
    omega
  · rw [if_neg hesc]
    refine ⟨⟨h.openers, ?_, ?_⟩, rfl⟩
    · rw [Bool.not_eq_true] at hesc
      rw [hesc]
      exact hskip
    · simp only [Scan.read, List.length_append]
      omega

theorem Reading.opens (h : Reading s depth false base floor) (rest : List Char) :
    Reading (s.advance '[' rest) (depth + 1) false base floor ∧
      (s.advance '[' rest).links = s.links := by
  have hskip : s.skip = 0 := h.skip
  have hle := h.floor_le
  obtain ⟨os, hos, hlen, hactive⟩ := h.openers
  have hadv : s.advance '[' rest =
      { s.read '[' with openers := { active := true, start := s.seen.length + 1 } :: s.openers } := by
    unfold Scan.advance
    rw [if_neg (by omega), if_neg (by simp [escapes]), if_pos rfl]
  rw [hadv]
  refine ⟨⟨⟨{ active := true, start := s.seen.length + 1 } :: os, ?_, ?_, ?_⟩, hskip, ?_⟩, rfl⟩
  · rw [hos]
    rfl
  · simp [hlen]
  · intro o ho
    rcases List.mem_cons.1 ho with rfl | ho
    · exact ⟨rfl, by dsimp only; omega⟩
    · exact hactive o ho
  · simp only [Scan.read, List.length_append]
    omega

theorem advance_close (h : Reading s depth false base floor) (rest : List Char) :
    s.advance ']' rest = (s.close rest).read ']' := by
  have hskip : s.skip = 0 := h.skip
  unfold Scan.advance
  rw [if_neg (by omega), if_neg (by simp [escapes]), if_neg (by decide), if_pos rfl]

/-- A bracket that closes one above `base` makes a link when a destination follows. -/
theorem Reading.closes (h : Reading s (depth + 1) false base floor) (rest : List Char) :
    linkUrl rest = none ∧ Reading (s.advance ']' rest) depth false base floor ∧
        (s.advance ']' rest).links = s.links ∨
      (linkUrl rest).isSome ∧ ∃ l, (s.advance ']' rest).links = s.links ++ [l] := by
  have hle := h.floor_le
  obtain ⟨os, hos, hlen, hactive⟩ := h.openers
  obtain ⟨o, os, rfl⟩ := List.exists_cons_of_length_eq_add_one hlen
  have hurl : o.url rest = linkUrl rest := if_pos (hactive o (List.mem_cons_self ..)).1
  rw [advance_close h]
  rcases s.close_cases rest with ⟨hnil, _⟩ | ⟨o', openers, hs, hcase⟩
  · rw [hnil] at hos
    cases hos
  · rw [hs] at hos
    obtain ⟨rfl, rfl⟩ := List.cons.inj hos
    rcases hcase with ⟨hnone, hc⟩ | ⟨url, hsome, hc⟩
    · rw [hc]
      refine Or.inl ⟨hurl ▸ hnone, ⟨⟨os, rfl, by simpa using hlen, ?_⟩, h.skip, ?_⟩, rfl⟩
      · exact fun p hp => hactive p (List.mem_cons_of_mem _ hp)
      · simp only [Scan.read, List.length_append]
        omega
    · rw [hc]
      exact Or.inr ⟨by rw [← hurl, hsome]; rfl, _, rfl⟩

theorem Reading.base_eq (h : Reading s 0 e base floor) : s.openers = base := by
  obtain ⟨os, hos, hlen, _⟩ := h.openers
  obtain rfl := List.length_eq_zero_iff.1 hlen
  exact hos

/-- A bracket that closes one of `base` makes no link when these are not active. -/
theorem Reading.closes_inactive (h : Reading s 0 false base 0)
    (hbase : ∀ o ∈ base, o.active = false) (rest : List Char) :
    ∃ base', Reading (s.advance ']' rest) 0 false base' 0 ∧
      (s.advance ']' rest).links = s.links ∧ ∀ o ∈ base', o.active = false := by
  have hread : ∀ {s' : Scan}, s'.skip = s.skip → Reading (s'.read ']') 0 false s'.openers 0 :=
    fun hskip => ⟨⟨[], rfl, rfl, by simp⟩, hskip.trans h.skip, Nat.zero_le _⟩
  rw [advance_close h]
  rcases s.close_cases rest with ⟨hnil, hc⟩ | ⟨o, openers, ho, hcase⟩
  · rw [hc]
    exact ⟨s.openers, hread rfl, rfl, by simp [hnil]⟩
  · have hmem : ∀ p ∈ o :: openers, p.active = false := by
      rw [← ho, h.base_eq]
      exact hbase
    have hoff : o.url rest = none := if_neg (by simp [hmem o (List.mem_cons_self ..)])
    rcases hcase with ⟨_, hc⟩ | ⟨url, hsome, _⟩
    · rw [hc]
      exact ⟨openers, @hread { s with openers := openers } rfl, rfl,
        fun p hp => hmem p (List.mem_cons_of_mem _ hp)⟩
    · rw [hoff] at hsome
      cases hsome

theorem Reading.closes_below {o : Opener} {outer : List Opener}
    (h : Reading s 0 false (o :: outer) floor) (houter : ∀ p ∈ outer, p.start ≠ o.start)
    (rest : List Char) : ∀ p ∈ (s.advance ']' rest).openers, p.start ≠ o.start := by
  have hos := h.base_eq
  rw [advance_close h]
  rcases s.close_cases rest with ⟨hnil, _⟩ | ⟨q, openers, hq, hcase⟩
  · rw [hnil] at hos
    cases hos
  · rw [hq] at hos
    obtain ⟨rfl, rfl⟩ := List.cons.inj hos
    rcases hcase with ⟨_, hc⟩ | ⟨url, _, hc⟩
    · rw [hc]
      exact houter
    · rw [hc]
      intro p hp
      obtain ⟨p', hp', rfl⟩ := List.mem_map.1 hp
      exact houter p' hp'

end Reading

/-! ### Texts without links -/

theorem links_grow (after : List Char) {s : Scan} (h : s.Sound) {c : Char} {rest : List Char}
    {l : Link} (hl : (s.advance c (rest ++ after)).links = s.links ++ [l]) :
    (scan after s (c :: rest)).links ≠ s.links := by
  obtain ⟨ls, hls, _⟩ := scan_links after (h.advance c (rest ++ after)) rest
  rw [scan, hls, hl, List.append_assoc]
  simp

/-- Reading a text adds no link exactly when it is free of links; the brackets below it are of
no use when they are not active. -/
theorem scan_linkFree (after : List Char) {s : Scan} {depth : ℕ} {e : Bool} {base : List Opener}
    (hs : s.Sound) (h : Reading s depth e base 0) (hbase : ∀ o ∈ base, o.active = false)
    (x : List Char) :
    ((scan after s x).links = s.links ↔ linkFree after depth e x = true) ∧
      (linkFree after depth e x = true →
        ∃ depth' e' base', Reading (scan after s x) depth' e' base' 0) := by
  induction x generalizing s depth e base with
  | nil => exact ⟨iff_of_true rfl rfl, fun _ => ⟨depth, e, base, h⟩⟩
  | cons c x ih =>
    have hsound := hs.advance c (x ++ after)
    cases e with
    | true =>
      obtain ⟨h', hlinks⟩ := h.escaped c (x ++ after)
      rw [scan, ← hlinks]
      exact ih hsound h' hbase
    | false =>
      by_cases hopen : c = '['
      · subst hopen
        obtain ⟨h', hlinks⟩ := h.opens (x ++ after)
        rw [scan, ← hlinks, linkFree, if_pos rfl]
        exact ih hsound h' hbase
      by_cases hclose : c = ']'
      · subst hclose
        rw [linkFree, if_neg (by decide), if_pos rfl]
        cases depth with
        | zero =>
          obtain ⟨base', h', hlinks, hbase'⟩ := h.closes_inactive hbase (x ++ after)
          rw [scan, ← hlinks]
          simpa using ih hsound h' hbase'
        | succ depth =>
          rcases h.closes (x ++ after) with ⟨hnone, h', hlinks⟩ | ⟨hsome, l, hl⟩
          · rw [scan, ← hlinks]
            simpa [hnone] using ih hsound h' hbase
          · have hgrow := links_grow after hs hl
            have hisNone : (linkUrl (x ++ after)).isNone = false := by
              rw [← Option.not_isSome, hsome]
              rfl
            rw [hisNone]
            exact ⟨iff_of_false hgrow (by simp), by simp⟩
      · obtain ⟨h', hlinks⟩ := h.plain hopen hclose (x ++ after)
        rw [scan, ← hlinks, linkFree, if_neg hopen, if_neg hclose]
        exact ih hsound h' hbase

/-! ### Balanced texts -/

/-- A balanced text leaves the brackets below it as they are. -/
theorem scan_of_balanced (after : List Char) {s : Scan} {depth : ℕ} {e : Bool} {base : List Opener}
    {floor : ℕ} (h : Reading s depth e base floor) {x : List Char}
    (hx : balanced after depth e x = true) :
    (scan after s x).links = s.links ∧ Reading (scan after s x) 0 false base floor := by
  induction x generalizing s depth e with
  | nil =>
    simp only [balanced, Bool.and_eq_true, beq_iff_eq, Bool.not_eq_true'] at hx
    obtain ⟨rfl, rfl⟩ := hx
    exact ⟨rfl, h⟩
  | cons c x ih =>
    cases e with
    | true =>
      obtain ⟨h', hlinks⟩ := h.escaped c (x ++ after)
      rw [scan, ← hlinks]
      exact ih h' hx
    | false =>
      rw [balanced] at hx
      split at hx
      · rename_i hopen
        subst hopen
        obtain ⟨h', hlinks⟩ := h.opens (x ++ after)
        rw [scan, ← hlinks]
        exact ih h' hx
      split at hx
      · rename_i hclose
        subst hclose
        simp only [Bool.and_eq_true, bne_iff_ne, ne_eq] at hx
        obtain ⟨⟨hdepth, hnone⟩, hx⟩ := hx
        obtain ⟨depth, rfl⟩ := Nat.exists_eq_succ_of_ne_zero hdepth
        rcases h.closes (x ++ after) with ⟨_, h', hlinks⟩ | ⟨hsome, _⟩
        · rw [scan, ← hlinks]
          exact ih h' hx
        · rw [← Option.not_isSome, hsome] at hnone
          cases hnone
      · rename_i hopen hclose
        obtain ⟨h', hlinks⟩ := h.plain hopen hclose (x ++ after)
        rw [Bool.and_eq_true] at hx
        rw [scan, ← hlinks]
        exact ih h' hx.2

/-- A text is balanced when reading it adds no link and ends with the last bracket that was open
below it, whose place is `floor`. -/
theorem balanced_of_scan {after : List Char} (hafter : after.head?.any isPunct = true) {s : Scan}
    {depth : ℕ} {e : Bool} {o : Opener} {outer : List Opener} (hs : s.Sound)
    (h : Reading s depth e (o :: outer) o.start) (houter : ∀ p ∈ outer, p.start ≠ o.start)
    {x : List Char} (hlinks : (scan after s x).links = s.links) (hskip : (scan after s x).skip = 0)
    {p : Opener} {ps : List Opener} (hend : (scan after s x).openers = p :: ps)
    (hp : p.start = o.start) : balanced after depth e x = true := by
  induction x generalizing s depth e with
  | nil =>
    obtain ⟨os, hos, hlen, hfloor⟩ := h.openers
    have he : e = false := by
      have hskip' : s.skip = if e then 1 else 0 := h.skip
      have hzero : s.skip = 0 := hskip
      rw [hzero] at hskip'
      cases e with
      | true => cases hskip'
      | false => rfl
    have hnil : os = [] := by
      have hend : s.openers = p :: ps := hend
      rw [hos] at hend
      cases os with
      | nil => rfl
      | cons q os =>
        obtain ⟨rfl, _⟩ := List.cons.inj hend
        have hlt := (hfloor q (List.mem_cons_self ..)).2
        omega
    rw [hnil] at hlen
    rw [he, ← hlen]
    rfl
  | cons c x ih =>
    have hsound := hs.advance c (x ++ after)
    have hgo : ∀ {depth' e'}, Reading (s.advance c (x ++ after)) depth' e' (o :: outer) o.start →
        (s.advance c (x ++ after)).links = s.links → balanced after depth' e' x = true :=
      fun h' hsame => ih hsound h' (hlinks.trans hsame.symm) hskip hend
    cases e with
    | true =>
      obtain ⟨h', hsame⟩ := h.escaped c (x ++ after)
      exact hgo h' hsame
    | false =>
      rw [balanced]
      by_cases hopen : c = '['
      · subst hopen
        obtain ⟨h', hsame⟩ := h.opens (x ++ after)
        rw [if_pos rfl]
        exact hgo h' hsame
      rw [if_neg hopen]
      by_cases hclose : c = ']'
      · subst hclose
        rw [if_pos rfl]
        cases depth with
        | zero =>
          -- the bracket below is taken off, and does not come back
          have hgone := h.closes_below houter (x ++ after)
          have hle : o.start ≤ (s.advance ']' (x ++ after)).seen.length := by
            have hfloor := h.floor_le
            rw [Scan.advance_seen, List.length_append]
            omega
          have hnever := scan_gone after hle hgone x p (by
            have hend : (scan after (s.advance ']' (x ++ after)) x).openers = p :: ps := hend
            rw [hend]
            exact List.mem_cons_self ..)
          exact (hnever hp).elim
        | succ depth =>
          rcases h.closes (x ++ after) with ⟨hnone, h', hsame⟩ | ⟨_, l, hl⟩
          · simpa [hnone] using hgo h' hsame
          · exact (links_grow after hs hl hlinks).elim
      · obtain ⟨h', hsame⟩ := h.plain hopen hclose (x ++ after)
        rw [if_neg hclose, hgo h' hsame, Bool.and_true]
        by_cases hback : c = '\\' ∧ x = []
        · obtain ⟨rfl, rfl⟩ := hback
          have hesc : escapes '\\' after.head? = true := by simp [escapes, hafter]
          have hlast := h'.skip
          have hzero : (s.advance '\\' ([] ++ after)).skip = 0 := hskip
          rw [hzero, List.nil_append, hesc] at hlast
          cases hlast
        · cases x with
          | nil => simpa using hback
          | cons d x => simp

/-! ### One link -/

/-- What makes a link: the last opener, still active, and a destination behind the bracket. -/
theorem Scan.advance_found {s : Scan} {c : Char} {rest : List Char} {l : Link}
    (h : (s.advance c rest).links = s.links ++ [l]) :
    s.skip = 0 ∧ ∃ o openers url, s.openers = o :: openers ∧ linkUrl rest = some url ∧
      l = { start := o.start, label := s.seen.drop o.start, url } ∧
      s.advance c rest = (s.found o openers url).read c := by
  have hsame : (s.advance c rest).links ≠ s.links := by
    rw [h]
    simp
  unfold Scan.advance at h hsame ⊢
  split at hsame
  · exact (hsame rfl).elim
  split at hsame
  · exact (hsame rfl).elim
  split at hsame
  · exact (hsame rfl).elim
  split at hsame
  · rename_i hskip hesc hopen hclose
    rw [if_neg hskip, if_neg hesc, if_neg hopen, if_pos hclose] at h ⊢
    refine ⟨by omega, ?_⟩
    rcases s.close_cases rest with ⟨_, hc⟩ | ⟨o, openers, ho, ⟨_, hc⟩ | ⟨url, hurl, hc⟩⟩
    · rw [hc] at hsame
      exact (hsame rfl).elim
    · rw [hc] at hsame
      exact (hsame rfl).elim
    · rw [hc] at h ⊢
      have hl : s.links ++ [{ start := o.start, label := s.seen.drop o.start, url }] =
          s.links ++ [l] := h
      have hactive : linkUrl rest = some url := by
        unfold Opener.url at hurl
        split at hurl
        · exact hurl
        · cases hurl
      refine ⟨o, openers, url, ho, hactive, ?_, rfl⟩
      exact (List.singleton_injective (List.append_cancel_left hl)).symm
  · exact (hsame rfl).elim

theorem advance_blank {s : Scan} {b : Char} (hb : isBlank b = true) (hs : s.skip ≤ 1)
    (rest : List Char) : (s.advance b rest).skip = 0 := by
  have hesc : escapes b rest.head? = false := by
    unfold escapes
    rw [Bool.and_eq_false_iff]
    left
    rw [beq_eq_false_iff_ne]
    rintro rfl
    cases hb
  have hopen : b ≠ '[' := by
    rintro rfl
    cases hb
  have hclose : b ≠ ']' := by
    rintro rfl
    cases hb
  unfold Scan.advance
  by_cases hpos : 0 < s.skip
  · rw [if_pos hpos]
    show s.skip - 1 = 0
    omega
  · rw [if_neg hpos, hesc, if_neg (by simp), if_neg hopen, if_neg hclose]
    show s.skip = 0
    omega

theorem reading_init : Reading {} 0 false [] 0 := ⟨⟨[], rfl, rfl, by simp⟩, rfl, Nat.zero_le _⟩

def EndsBlank (text : List Char) : Prop := ∃ x b, text = x ++ [b] ∧ isBlank b = true

section Link

variable {before label url after : List Char}

def opened (before rest : List Char) : Scan := (scan ('[' :: rest) {} before).advance '[' rest

def labelled (before label rest : List Char) : Scan :=
  scan (']' :: rest) (opened before (label ++ ']' :: rest)) label

def closedOff (before label rest : List Char) : Scan := (labelled before label rest).advance ']' rest

theorem links_split : links (before ++ '[' :: (label ++ ']' :: '(' :: (url ++ ')' :: after))) =
    (scan [] (closedOff before label ('(' :: (url ++ ')' :: after)))
      ('(' :: (url ++ ')' :: after))).links := by
  unfold links closedOff labelled opened
  rw [scan_append, List.append_nil, scan, List.append_nil, scan_append, List.append_nil, scan,
    List.append_nil]

theorem opened_seen (rest : List Char) : (opened before rest).seen = before ++ ['['] := by
  unfold opened
  rw [Scan.advance_seen, scan_seen, List.nil_append]

theorem labelled_seen (rest : List Char) :
    (labelled before label rest).seen = before ++ ['['] ++ label := by
  unfold labelled
  rw [scan_seen, opened_seen]

theorem closedOff_seen (rest : List Char) :
    (closedOff before label rest).seen = before ++ ['['] ++ label ++ [']'] := by
  unfold closedOff
  rw [Scan.advance_seen, labelled_seen]

theorem sound_init : ({} : Scan).Sound := fun _ ho => by cases ho

theorem opened_sound (rest : List Char) : (opened before rest).Sound :=
  (scan_sound _ sound_init before).advance _ _

theorem labelled_sound (rest : List Char) : (labelled before label rest).Sound :=
  scan_sound _ (opened_sound _) label

theorem closedOff_sound (rest : List Char) : (closedOff before label rest).Sound :=
  (labelled_sound rest).advance _ _

theorem labelled_ended (rest : List Char) : Ended (labelled before label rest) := by
  refine scan_ended _ (opened_sound _) (advance_ended (scan_sound _ sound_init before) ?_ _ _) label
  exact scan_ended _ sound_init (fun l hl => by cases hl) before

/-- If the text has one link alone, and its label ends where this label does, then nothing before
the closing bracket has made a link. -/
theorem labelled_links {rest : List Char} {l : Link}
    (hl : l.start + l.label.length = before.length + 1 + label.length)
    (h : (scan [] (closedOff before label rest) rest).links = [l]) :
    (labelled before label rest).links = [] ∧ (closedOff before label rest).links = [l] := by
  obtain ⟨ls, hls, hin⟩ := scan_links [] (@closedOff_sound before label rest) rest
  rw [closedOff_seen] at hin
  simp only [List.length_append, List.length_singleton] at hin
  rw [hls] at h
  have hclosed : (closedOff before label rest).links = [l] := by
    rcases List.append_eq_singleton_iff.1 h with ⟨_, hlast⟩ | ⟨hfirst, _⟩
    · have hge := (hin l (hlast ▸ List.mem_singleton_self l)).1
      omega
    · exact hfirst
  refine ⟨?_, hclosed⟩
  rcases Scan.advance_links (@labelled_sound before label rest) ']' rest with
    hsame | ⟨l', hnew, _⟩
  · have hlinks : (labelled before label rest).links = [l] := hsame.symm.trans hclosed
    have hend := @labelled_ended before label rest l
      (hlinks ▸ List.mem_singleton_self l)
    rw [labelled_seen] at hend
    simp only [List.length_append, List.length_singleton] at hend
    omega
  · have hboth : (labelled before label rest).links ++ [l'] = [l] := hnew.symm.trans hclosed
    rcases List.append_eq_singleton_iff.1 hboth with ⟨hnil, _⟩ | ⟨_, hnil⟩
    · exact hnil
    · cases hnil

/-- Before a link, the bracket that opens it is above what is open. -/
theorem opened_reading (hbefore : EndsBlank before) {rest : List Char}
    (h : (scan ('[' :: rest) {} before).links = []) :
    (opened before rest).links = [] ∧
      ∃ outer, (∀ p ∈ outer, p.start ≠ before.length + 1) ∧
        Reading (opened before rest) 0 false
          ({ active := true, start := before.length + 1 } :: outer) (before.length + 1) := by
  obtain ⟨x, b, hx, hb⟩ := hbefore
  have hsplit : scan ('[' :: rest) {} before =
      (scan (b :: '[' :: rest) {} x).advance b ('[' :: rest) := by
    rw [hx, scan_append, scan, scan]
    rfl
  have hskip : (scan ('[' :: rest) {} before).skip = 0 := by
    have hnil : (scan (b :: '[' :: rest) {} x).links = [] := by
      have hle := advance_prefix (scan_sound (b :: '[' :: rest) sound_init x) b ('[' :: rest)
      rw [← hsplit, h] at hle
      exact List.prefix_nil.1 hle
    obtain ⟨hiff, hread⟩ := scan_linkFree (b :: '[' :: rest) sound_init reading_init (by simp) x
    obtain ⟨_, e, _, hread⟩ := hread (hiff.1 hnil)
    rw [hsplit]
    refine advance_blank hb ?_ _
    rw [hread.skip]
    cases e <;> simp
  have hseen := scan_seen ('[' :: rest) {} before
  rw [List.nil_append] at hseen
  have hsound := scan_sound ('[' :: rest) sound_init before
  have hread : Reading (scan ('[' :: rest) {} before) 0 false (scan ('[' :: rest) {} before).openers
      before.length := ⟨⟨[], rfl, rfl, by simp⟩, hskip, Nat.le_of_eq (by rw [hseen])⟩
  obtain ⟨hopened, hlinks⟩ := hread.opens rest
  refine ⟨hlinks.trans h, (scan ('[' :: rest) {} before).openers, fun p hp => ?_, ?_⟩
  · have hle := hsound p hp
    rw [hseen] at hle
    omega
  · refine ⟨⟨[], ?_, rfl, by simp⟩, hopened.skip, ?_⟩
    · have hadv : opened before rest = { (scan ('[' :: rest) {} before).read '[' with
          openers := { active := true, start := (scan ('[' :: rest) {} before).seen.length + 1 } ::
            (scan ('[' :: rest) {} before).openers } := by
        unfold opened Scan.advance
        rw [if_neg (by omega), if_neg (by simp [escapes]), if_pos rfl]
      rw [hadv, hseen]
      rfl
    · rw [opened_seen, List.length_append]
      exact Nat.le_refl _

/-- Behind a link no bracket is active: what follows has links of its own or none. -/
theorem scan_behind {s : Scan} {o : Opener} {openers : List Opener}
    (hs : ((s.found o openers url).read ']').Sound) :
    (scan [] ((s.found o openers url).read ']') ('(' :: (url ++ ')' :: after))).links =
        ((s.found o openers url).read ']').links ↔ linkFree [] 0 false after = true := by
  have hsplit : '(' :: (url ++ ')' :: after) = ('(' :: (url ++ [')'])) ++ after := by simp
  have hskip : ((s.found o openers url).read ']').skip = ('(' :: (url ++ [')'])).length := by
    simp [Scan.read, Scan.found]
  have hpassed := scan_sound (after ++ []) hs ('(' :: (url ++ [')']))
  rw [hsplit, scan_append]
  rw [scan_skip _ hskip] at hpassed ⊢
  have hbase : ∀ p ∈ openers.map fun o => { o with active := false }, p.active = false := by
    intro p hp
    obtain ⟨_, _, rfl⟩ := List.mem_map.1 hp
    rfl
  have hread : Reading { (s.found o openers url).read ']' with
      seen := ((s.found o openers url).read ']').seen ++ '(' :: (url ++ [')']), skip := 0 } 0 false
      (openers.map fun o => { o with active := false }) 0 :=
    ⟨⟨[], rfl, rfl, by simp⟩, rfl, Nat.zero_le _⟩
  obtain ⟨hiff, _⟩ := scan_linkFree [] hpassed hread hbase after
  exact hiff

theorem before_links (hbefore : EndsBlank before) (rest : List Char) :
    (scan rest {} before).links = [] ↔ linkFree [] 0 false before = true := by
  obtain ⟨x, b, rfl, hb⟩ := hbefore
  obtain ⟨hiff, _⟩ := scan_linkFree rest sound_init reading_init (by simp) (x ++ [b])
  rwa [linkFree_to_blank hb] at hiff

theorem closedOff_balanced {rest : List Char} (hbefore : EndsBlank before)
    (hfree : linkFree [] 0 false before = true) (hlabel : balanced (']' :: rest) 0 false label = true)
    (hurl : linkUrl rest = some url) :
    ∃ o openers, closedOff before label rest =
        ((labelled before label rest).found o openers url).read ']' ∧
      (closedOff before label rest).links = [{ start := before.length + 1, label, url }] := by
  have hnone := (before_links hbefore ('[' :: (label ++ ']' :: rest))).2 hfree
  obtain ⟨hlinks, outer, _, hread⟩ := opened_reading hbefore hnone
  obtain ⟨hsame, hread⟩ := scan_of_balanced (']' :: rest) hread hlabel
  obtain ⟨os, hos, hlen, _⟩ := hread.openers
  obtain rfl := List.length_eq_zero_iff.1 hlen
  have hclosed : closedOff before label rest = ((labelled before label rest).close rest).read ']' :=
    advance_close hread rest
  rcases (labelled before label rest).close_cases rest with ⟨hnil, _⟩ | ⟨o, openers, ho, hcase⟩
  · have hcons : (labelled before label rest).openers = _ := hos
    rw [hnil] at hcons
    cases hcons
  · have hcons : (labelled before label rest).openers = _ := hos
    rw [ho] at hcons
    obtain ⟨rfl, rfl⟩ := List.cons.inj hcons
    have hactive : Opener.url { active := true, start := before.length + 1 } rest = some url :=
      hurl
    rcases hcase with ⟨hoff, _⟩ | ⟨url', hon, hc⟩
    · rw [hactive] at hoff
      cases hoff
    · obtain rfl := Option.some.inj (hactive.symm.trans hon)
      rw [hc] at hclosed
      refine ⟨_, _, hclosed, ?_⟩
      have hempty : (labelled before label rest).links = [] := hsame.trans hlinks
      rw [hclosed]
      show (labelled before label rest).links ++ _ = _
      rw [hempty, labelled_seen, List.nil_append]
      simp

/-- Between a text that ends with a blank and one that starts with a blank, a link is the only
one exactly when these have no links, its label is balanced and its destination is a whole
one. -/
theorem links_eq_iff (hbefore : EndsBlank before) (hafter : StartsBlank after) :
    links (before ++ '[' :: (label ++ ']' :: '(' :: (url ++ ')' :: after))) =
        [{ start := before.length + 1, label, url }] ↔
      linkFree [] 0 false before = true ∧ balanced [] 0 false label = true ∧ isUrl url = true ∧
        linkFree [] 0 false after = true := by
  have hdest : linkUrl ('(' :: (url ++ ')' :: after)) = some url ↔ isUrl url = true := by
    rw [linkUrl_cons, if_pos rfl]
    exact isUrl_iff.symm
  rw [links_split]
  constructor
  · intro h
    obtain ⟨hnone, hone⟩ := labelled_links (by simp) h
    have hgrow : (closedOff before label ('(' :: (url ++ ')' :: after))).links =
        (labelled before label ('(' :: (url ++ ')' :: after))).links ++
          [{ start := before.length + 1, label, url }] := by
      rw [hnone, hone]
      rfl
    obtain ⟨hskip, o, openers, url', ho, hurl, hl, hadv⟩ := Scan.advance_found hgrow
    obtain ⟨hstart, _, rfl⟩ := Link.mk.inj hl
    have hopened : (opened before (label ++ ']' :: '(' :: (url ++ ')' :: after))).links = [] := by
      have hle := scan_prefix (']' :: '(' :: (url ++ ')' :: after))
        (@opened_sound before (label ++ ']' :: '(' :: (url ++ ')' :: after))) label
      exact List.prefix_nil.1 (hnone ▸ hle)
    have hfree : (scan ('[' :: (label ++ ']' :: '(' :: (url ++ ')' :: after))) {} before).links =
        [] := by
      have hle : _ <+: (opened before (label ++ ']' :: '(' :: (url ++ ')' :: after))).links :=
        advance_prefix (scan_sound _ sound_init before) _ _
      rw [hopened] at hle
      exact List.prefix_nil.1 hle
    obtain ⟨_, outer, houter, hread⟩ := opened_reading hbefore hfree
    have hlabel := balanced_of_scan (by simp [isPunct]) (opened_sound _) hread houter
      (hnone.trans hopened.symm) hskip ho hstart.symm
    rw [balanced_over_link (hdest.1 hurl) hafter] at hlabel
    refine ⟨(before_links hbefore _).1 hfree, hlabel, hdest.1 hurl, ?_⟩
    have hsound := @closedOff_sound before label ('(' :: (url ++ ')' :: after))
    unfold closedOff at h hone hsound
    rw [hadv] at h hone hsound
    exact (scan_behind hsound).1 (h.trans hone.symm)
  · rintro ⟨hfree, hlabel, hurl, hrest⟩
    rw [← balanced_over_link hurl hafter] at hlabel
    obtain ⟨o, openers, hclosed, hone⟩ := closedOff_balanced hbefore hfree hlabel (hdest.2 hurl)
    have hsound := @closedOff_sound before label ('(' :: (url ++ ')' :: after))
    rw [hclosed] at hone hsound ⊢
    exact ((scan_behind hsound).2 hrest).trans hone

end Link

end Atradio.Lib.Markdown
