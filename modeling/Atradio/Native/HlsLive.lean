import Atradio.Native.HlsRead

/-! # A live stream of HLS

A channel numbers its segments; each playlist shows a window of it. -/

namespace Atradio.Native
open Atradio.Lib

structure Channel where
  segment : ℕ → MediaSegment
  sequence : ∀ n, (segment n).sequence = n

/-- The `k` segments from `a` on. -/
def Channel.window (ch : Channel) (a k : ℕ) : List MediaSegment := (List.range' a k).map ch.segment

def Channel.Lists (ch : Channel) (playlist : MediaPlaylist) : Prop :=
  ∃ a k, playlist.segments = ch.window a k ∧ a + k < U64

variable {σ : Type} {F : Fmp4 σ} {ch : Channel}

section Window

variable {playlist : MediaPlaylist} {a k n : ℕ}

theorem window_succ (ch : Channel) (a k : ℕ) :
    ch.window a (k + 1) = ch.segment a :: ch.window (a + 1) k := rfl

theorem window_concat (ch : Channel) (a k : ℕ) :
    ch.window a (k + 1) = ch.window a k ++ [ch.segment (a + k)] := by
  rw [Channel.window, List.range'_concat, List.map_append, Nat.one_mul]
  rfl

@[simp] theorem window_length (ch : Channel) (a k : ℕ) : (ch.window a k).length = k := by
  simp [Channel.window]

theorem window_prefix {xs ys : List MediaSegment} (h : ch.window a k = xs ++ ys) :
    xs = ch.window a xs.length := by
  induction xs generalizing a k with
  | nil => rfl
  | cons x xs ih =>
    cases k with
    | zero => cases h
    | succ k =>
      rw [window_succ, List.cons_append] at h
      obtain ⟨rfl, hrest⟩ := List.cons.inj h
      rw [List.length_cons, window_succ, ← ih hrest]

theorem unserved_window (h : playlist.segments = ch.window a k) :
    playlist.unserved n = if max a n < a + k then some (ch.segment (max a n)) else none := by
  have hfind : ∀ k a, (ch.window a k).find? (fun seg => n ≤ seg.sequence) =
      if max a n < a + k then some (ch.segment (max a n)) else none := by
    intro k
    induction k with
    | zero =>
      intro a
      rw [if_neg (by omega)]
      rfl
    | succ k ih =>
      intro a
      rw [window_succ, List.find?_cons, ch.sequence]
      by_cases hle : n ≤ a
      · rw [Nat.max_eq_left hle, if_pos (by omega)]
        simp [hle]
      · have hmax : max (a + 1) n = max a n := by omega
        simp only [hle, decide_false, ih (a + 1), hmax]
        rw [Nat.add_right_comm, Nat.add_assoc]
  rw [MediaPlaylist.unserved, h]
  exact hfind k a

/-- The window has not slid past the segment that is next. -/
def View.InWindow (v : View) : Prop := ∀ seg ∈ v.playlist.segments.head?, seg.sequence ≤ v.nextSeq

theorem inWindow_iff {v : View} (h : v.playlist.segments = ch.window a k) :
    v.InWindow ↔ (0 < k → a ≤ v.nextSeq) := by
  unfold View.InWindow
  rw [h]
  cases k with
  | zero => simp [Channel.window]
  | succ k => simp [window_succ, ch.sequence]

end Window

/-- The segments from `start` on, without a gap. -/
structure View.Follows (ch : Channel) (start : ℕ) (v : View) : Prop where
  taken : v.taken = ch.window start v.taken.length
  nextSeq : v.nextSeq = start + v.taken.length
  lists : ch.Lists v.playlist

theorem follows_next {v : View} {start : ℕ} (h : v.Follows ch start) :
    (v.next.taken = ch.window start v.next.taken.length ↔ v.InWindow) ∧
      (v.InWindow → v.next.Follows ch start ∧ v.next.InWindow) := by
  obtain ⟨a, k, hsegments, hsmall⟩ := h.lists
  have hwindow := inWindow_iff hsegments
  by_cases hmax : max a v.nextSeq < a + k
  · have hnext : v.next = ⟨v.playlist, max a v.nextSeq + 1, v.taken ++ [ch.segment (max a v.nextSeq)]⟩ := by
      simp only [View.next, unserved_window hsegments, if_pos hmax, ch.sequence]
      rw [Nat.mod_eq_of_lt (by omega)]
    have htaken : v.next.taken = ch.window start v.next.taken.length ↔ max a v.nextSeq = v.nextSeq := by
      rw [hnext]
      dsimp only
      rw [List.length_append, List.length_singleton, window_concat, ← h.taken, ← h.nextSeq,
        List.append_cancel_left_eq, List.singleton_inj]
      refine ⟨fun hsame => ?_, fun hsame => by rw [hsame]⟩
      have hseq := congrArg MediaSegment.sequence hsame
      rwa [ch.sequence, ch.sequence] at hseq
    have hiff : max a v.nextSeq = v.nextSeq ↔ v.InWindow := by
      rw [hwindow]
      omega
    refine ⟨htaken.trans hiff, fun hin => ⟨⟨htaken.2 (hiff.2 hin), ?_, ?_⟩, ?_⟩⟩
    · rw [hnext]
      dsimp only
      rw [hiff.2 hin, List.length_append, List.length_singleton, h.nextSeq]
      omega
    · rw [hnext]
      exact h.lists
    · rw [inWindow_iff (a := a) (k := k) (by rw [hnext]; exact hsegments), hnext]
      dsimp only
      omega
  · have hnext : v.next = v := by
      simp only [View.next, unserved_window hsegments, if_neg hmax]
    rw [hnext]
    have hin : v.InWindow := hwindow.2 fun _ => by omega
    exact ⟨iff_of_true h.taken hin, fun _ => ⟨h, hin⟩⟩

/-- No playlist comes too late: its window begins no later than at the segment that is next. -/
def InTime (url : List Char) (w : AdaptiveStream σ) (e : StreamEvent) : Prop :=
  ∀ fresh, w.Reloads url e fresh → ∀ seg ∈ fresh.segments.head?, seg.sequence ≤ w.nextSeq

theorem follows_step {url : List Char} {w : AdaptiveStream σ} {start : ℕ}
    (h : w.view.Follows ch start) (hin : w.view.InWindow) {e : StreamEvent}
    (hlists : ∀ text, e = .playlist (.ok text) → ch.Lists (parseMedia url text)) :
    ((w.step F url e).taken = ch.window start (w.step F url e).taken.length ↔ InTime url w e) ∧
      (InTime url w e →
        (w.step F url e).view.Follows ch start ∧ (w.step F url e).view.InWindow) := by
  have htaken : ∀ v, (w.step F url e).view = v → (w.step F url e).taken = v.taken := by
    rintro v rfl
    rfl
  rcases w.view_step url e with ⟨fresh, hreloads, hview⟩ | ⟨hnot, hview | hview⟩
  · have ⟨_, _, text, he, hfresh⟩ := hreloads
    have hlist : ch.Lists fresh := hfresh ▸ hlists text he
    obtain ⟨hiff, hkept⟩ :=
      @follows_next ch { w.view with playlist := fresh } start ⟨h.taken, h.nextSeq, hlist⟩
    have htime : View.InWindow { w.view with playlist := fresh } ↔ InTime url w e := by
      refine ⟨fun hwindow fresh' hfresh' => ?_, fun htime => htime fresh hreloads⟩
      obtain ⟨-, -, text', he', rfl⟩ := hfresh'
      obtain rfl : text = text' := by
        rw [he] at he'
        exact Except.ok.inj (StreamEvent.playlist.inj he')
      rw [← hfresh]
      exact hwindow
    rw [htaken _ hview, hview]
    exact ⟨hiff.trans htime, fun h => hkept (htime.2 h)⟩
  · have htime : InTime url w e := fun fresh hfresh => (hnot fresh hfresh).elim
    rw [htaken _ hview, hview]
    exact ⟨iff_of_true h.taken htime, fun _ => ⟨h, hin⟩⟩
  · have htime : InTime url w e := fun fresh hfresh => (hnot fresh hfresh).elim
    obtain ⟨hiff, hkept⟩ := follows_next h
    rw [htaken _ hview, hview]
    exact ⟨iff_of_true (hiff.2 hin) htime, fun _ => hkept hin⟩

section Runs

variable {url text : List Char} {s : AdaptiveStream σ}

/-- Where a stream begins in a window. -/
def firstNumber (playlist : MediaPlaylist) (a k : ℕ) : ℕ :=
  if playlist.endlist then a else a + (k - LIVE_EDGE_BACKOFF)

theorem follows_open (h : openHls url text = .ok s) {a k : ℕ}
    (hwindow : (parseMedia url text).segments = ch.window a k) (hsmall : a + k < U64) :
    s.view.Follows ch (firstNumber (parseMedia url text) a k) ∧ s.view.InWindow := by
  obtain ⟨first, hfirst, rfl⟩ := open_next h
  have hnumber : first.sequence = firstNumber (parseMedia url text) a k := by
    rw [hwindow, window_length, Channel.window, List.getElem?_map] at hfirst
    obtain ⟨n, hn, rfl⟩ := Option.map_eq_some_iff.1 hfirst
    obtain ⟨hlt, hget⟩ := List.getElem?_eq_some_iff.1 hn
    rw [List.getElem_range', Nat.one_mul] at hget
    rw [ch.sequence, ← hget, firstNumber]
    split <;> rfl
  have hstart : View.Follows ch (firstNumber (parseMedia url text) a k)
      ⟨parseMedia url text, first.sequence, []⟩ := ⟨rfl, hnumber, a, k, hwindow, hsmall⟩
  rw [AdaptiveStream.view_next]
  refine (follows_next hstart).2 ((inWindow_iff hwindow).2 fun _ => ?_)
  dsimp only
  rw [hnumber, firstNumber]
  split <;> omega

/-- What is made of the segments of a channel. -/
theorem follows_bytes {w : AdaptiveStream σ} {start : ℕ} {pending : List MediaSegment}
    {result : Except String (Demux σ × Option InitMap)} (h : w.view.Follows ch start)
    (hcore : w.Core F pending result) {body : ℕ → List UInt8}
    (hbody : ∀ f ∈ w.fetched, f.media = body f.segment.sequence)
    (hmap : ∀ n, (ch.segment n).map = none) (hmp4 : looksLikeMp4 (body start) = false)
    (hts : looksLikeTs (body start) = true) :
    w.given ++ w.buf.drop w.pos =
      (TsDemuxer.new.feed ((List.range' start w.fetched.length).map body).flatten).1 := by
  have hsegments : w.fetched.map Fetched.segment = ch.window start w.fetched.length := by
    have hprefix := window_prefix (h.taken.symm.trans hcore.log)
    rwa [List.length_map] at hprefix
  have hmedia : w.fetched.map Fetched.media = (List.range' start w.fetched.length).map body := by
    have hsequence : w.fetched.map (fun f => f.segment.sequence) =
        List.range' start w.fetched.length := by
      rw [← Function.comp_def MediaSegment.sequence, ← List.map_map, hsegments,
        Channel.window, List.map_map]
      simp [Function.comp_def, ch.sequence]
    rw [← hsequence, List.map_map]
    exact List.map_congr_left hbody
  cases hfetched : w.fetched with
  | nil =>
    obtain ⟨hout, -⟩ := played_nil hcore.played hfetched
    rw [hout]
    simp [TsDemuxer.feed, TsDemuxer.new, packets]
  | cons first rest =>
    have hfirst : first ∈ w.fetched.head? := by rw [hfetched]; rfl
    have hplain : ∀ f ∈ w.fetched, f.segment.map = none := by
      intro f hf
      have hmem : f.segment ∈ ch.window start w.fetched.length :=
        hsegments ▸ List.mem_map_of_mem hf
      obtain ⟨n, -, hn⟩ := List.mem_map.1 hmem
      rw [← hn]
      exact hmap n
    have hstart : first.media = body start := by
      rw [hbody first (List.mem_of_mem_head? hfirst)]
      rw [hfetched, List.map_cons, List.length_cons, window_succ] at hsegments
      rw [(List.cons.inj hsegments).1, ch.sequence]
    rw [← hfetched, ← hmedia]
    exact (played_heard hcore.played).ts first hfirst hplain (hstart ▸ hmp4) (hstart ▸ hts)

end Runs

/-- The channel of `shortList`, and a playlist that shows its first segment. -/
def shortChannel : Channel where
  segment n := ⟨(if n = 7 then "http://a.test/a.aac" else "http://a.test/b.aac").toList, n, none, none⟩
  sequence _ := rfl

def liveList : List Char := "#EXTM3U\n#EXT-X-MEDIA-SEQUENCE:7\n#EXTINF:1,\na.aac\n".toList

def liveStream : AdaptiveStream Unit :=
  ({ playlist := parseMedia shortUrl liveList, nextSeq := 7 } : AdaptiveStream Unit).next

def liveReads : List StreamEvent :=
  [.media (.body [1, 2, 3]), .read 4, .read 4, .playlist (.ok shortList), .media (.body [4])]

theorem liveList_parsed : parseMedia shortUrl liveList =
    { mediaSequence := 7, endlist := false, encrypted := false
      segments := [⟨"http://a.test/a.aac".toList, 7, none, none⟩] } := by
  decide +kernel

theorem open_live : openHls shortUrl liveList = .ok liveStream := by
  unfold liveStream
  rw [openHls, liveList_parsed]
  rfl

theorem live_inTime : AllSteps (AdaptiveStream.step noFmp4 shortUrl) (InTime shortUrl) liveStream
    liveReads := by
  have hother : ∀ (w : AdaptiveStream Unit) (e : StreamEvent), (∀ text, e ≠ .playlist (.ok text)) →
      InTime shortUrl w e := by
    rintro w e he fresh ⟨-, -, text, htext, -⟩
    exact (he text htext).elim
  refine ⟨hother _ _ (by simp), hother _ _ (by simp), hother _ _ (by simp), ?_,
    hother _ _ (by simp), trivial⟩
  rintro fresh ⟨-, -, text, htext, rfl⟩ seg hseg
  obtain rfl := Except.ok.inj (StreamEvent.playlist.inj htext)
  rw [shortList_parsed] at hseg
  obtain rfl := Option.some.inj hseg
  decide +kernel

end Atradio.Native
