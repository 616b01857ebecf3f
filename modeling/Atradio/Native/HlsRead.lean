import Mathlib.Data.List.Chain
import Atradio.Lib.Run
import Atradio.Native.Adaptive

/-! # What is read of a stream of HLS

The numbers of the segments that are handed out, and the bytes that are made of them. -/

namespace Atradio.Native
open Atradio.Lib

variable {σ : Type} {F : Fmp4 σ}

/-! ### Numbers -/

/-- The part of a stream that says which segment is next. -/
structure View where
  playlist : MediaPlaylist
  nextSeq : ℕ
  taken : List MediaSegment

def AdaptiveStream.view (s : AdaptiveStream σ) : View := ⟨s.playlist, s.nextSeq, s.taken⟩

def View.next (v : View) : View :=
  match v.playlist.unserved v.nextSeq with
  | some seg => { v with nextSeq := (seg.sequence + 1) % U64, taken := v.taken ++ [seg] }
  | none => v

namespace AdaptiveStream

variable (s : AdaptiveStream σ)

@[simp] theorem view_fail (e : String) : (s.fail e).view = s.view := rfl

@[simp] theorem view_filled : s.filled.view = s.view := by
  unfold filled
  split <;> rfl

@[simp] theorem view_finish : s.finish.view = s.view := by
  unfold finish
  split <;> rfl

@[simp] theorem view_next : s.next.view = s.view.next := by
  cases hfind : s.playlist.unserved s.nextSeq with
  | some seg => simp only [next, View.next, view, hfind]
  | none =>
    have hview : s.view.next = s.view := by simp only [View.next, view, hfind]
    rw [hview]
    simp only [next, hfind]
    split
    · exact s.view_finish
    · rfl

theorem view_decode (desc : MediaSegment) (init : Option (List UInt8)) (media : List UInt8) :
    (s.decode F desc init media).view = s.view ∨
      (s.decode F desc init media).view = s.view.next := by
  unfold decode
  dsimp only
  split
  · exact Or.inl rfl
  · split
    · exact Or.inr (view_next _)
    · exact Or.inl (view_filled _)

theorem view_configured (desc : MediaSegment) (init : Option (List UInt8)) (media : List UInt8) :
    (s.configured F desc init media).view = s.view ∨
      (s.configured F desc init media).view = s.view.next := by
  unfold configured
  split
  · exact Or.inl rfl
  next demux ext _ =>
    exact view_decode { s with demux, ext, currentInit := desc.map } desc init media

theorem view_demuxSegment (desc : MediaSegment) (media : List UInt8) :
    (s.demuxSegment F desc media).view = s.view ∨
      (s.demuxSegment F desc media).view = s.view.next := by
  unfold demuxSegment
  dsimp only
  split
  · split
    · exact Or.inl rfl
    · exact view_configured { s with buf := [], pos := 0 } desc none media
  · exact view_decode { s with buf := [], pos := 0 } desc none media

/-- Where nothing new has come, there is nothing to hand out. -/
theorem view_reloaded (fresh : MediaPlaylist) : (s.reloaded fresh).view =
    if fresh.encrypted then s.view else { s.view with playlist := fresh }.next := by
  unfold reloaded
  split
  · rfl
  · split
    · exact view_next _
    next hold =>
      dsimp only
      split
      · have hnone : fresh.unserved s.nextSeq = none := by
          cases hnew : fresh.unserved s.nextSeq with
          | none => rfl
          | some seg => exact (hold (by rw [hnew]; rfl)).elim
        rw [view_finish]
        simp only [View.next, view, hnone]
      · exact view_next _

/-- A playlist that was loaded again comes into use. -/
def Reloads (url : List Char) (s : AdaptiveStream σ) (e : StreamEvent) (fresh : MediaPlaylist) :
    Prop :=
  s.stage = .reload ∧ fresh.encrypted = false ∧
    ∃ text, e = .playlist (.ok text) ∧ fresh = parseMedia url text

/-- What a step can do to the numbers. -/
theorem view_step (url : List Char) (e : StreamEvent) :
    (∃ fresh, s.Reloads url e fresh ∧
      (s.step F url e).view = { s.view with playlist := fresh }.next) ∨
    ((∀ fresh, ¬ s.Reloads url e fresh) ∧
      ((s.step F url e).view = s.view ∨ (s.step F url e).view = s.view.next)) := by
  cases e with
  | read n =>
    refine Or.inr ⟨fun fresh h => ?_, ?_⟩
    · obtain ⟨-, -, text, ⟨⟩, -⟩ := h
    simp only [step]
    split
    · split
      · exact Or.inl rfl
      · split
        · exact Or.inl rfl
        · split
          · exact Or.inl rfl
          · exact Or.inr (view_next _)
    · exact Or.inl rfl
  | playlist reply =>
    simp only [step]
    split
    next text hstage =>
      rw [view_reloaded]
      split
      next hencrypted =>
        refine Or.inr ⟨fun fresh h => ?_, Or.inl rfl⟩
        obtain ⟨-, hplain, text', ⟨⟩, rfl⟩ := h
        rw [hencrypted] at hplain
        cases hplain
      next hplain => exact Or.inl ⟨_, ⟨hstage, by simpa using hplain, text, rfl, rfl⟩, rfl⟩
    next e hstage =>
      refine Or.inr ⟨fun fresh h => ?_, Or.inl rfl⟩
      obtain ⟨-, -, text, ⟨⟩, -⟩ := h
    next hok _ =>
      refine Or.inr ⟨fun fresh h => ?_, Or.inl rfl⟩
      obtain ⟨hstage, -, text, heq, -⟩ := h
      exact hok text hstage (StreamEvent.playlist.inj heq)
  | media reply =>
    refine Or.inr ⟨fun fresh h => ?_, ?_⟩
    · obtain ⟨-, -, text, ⟨⟩, -⟩ := h
    simp only [step]
    split
    · exact s.view_demuxSegment _ _
    · split <;> exact Or.inl rfl
    · exact s.view_configured _ _ _
    all_goals exact Or.inl rfl

end AdaptiveStream

theorem parse_small (base text : List Char) :
    ∀ seg ∈ (parseMedia base text).segments, seg.sequence < U64 := by
  have hline : ∀ (p : Parsing) (l : Line), (∀ seg ∈ p.playlist.segments, seg.sequence < U64) →
      ∀ seg ∈ (p.line base l).playlist.segments, seg.sequence < U64 := by
    intro p l hp
    cases l with
    | mediaSequence | byterange | endlist | other => exact hp
    | map rest => simp only [Parsing.line]; split <;> exact hp
    | key rest =>
      simp only [Parsing.line]
      split
      · split <;> exact hp
      · exact hp
    | uri line =>
      intro seg hseg
      rcases List.mem_append.1 hseg with hseg | hseg
      · exact hp seg hseg
      · rw [List.mem_singleton.1 hseg]
        exact Nat.mod_lt _ (by decide)
  have hall : ∀ (ls : List Line) (p : Parsing), (∀ seg ∈ p.playlist.segments, seg.sequence < U64) →
      ∀ seg ∈ (ls.foldl (Parsing.line base) p).playlist.segments, seg.sequence < U64 := by
    intro ls
    induction ls with
    | nil => exact fun p hp => hp
    | cons l ls ih => exact fun p hp => ih _ (hline p l hp)
  exact hall _ {} fun seg hseg => absurd hseg List.not_mem_nil

/-- The segments that were handed out, each not before the one that follows on the last. -/
structure View.Ordered (v : View) : Prop where
  small : ∀ seg ∈ v.playlist.segments, seg.sequence < U64
  takenSmall : ∀ seg ∈ v.taken, seg.sequence < U64
  chain : v.taken.IsChain fun x y => (x.sequence + 1) % U64 ≤ y.sequence
  last : ∀ seg ∈ v.taken.getLast?, v.nextSeq = (seg.sequence + 1) % U64

theorem View.Ordered.next {v : View} (h : v.Ordered) : v.next.Ordered := by
  unfold View.next
  split
  next seg hfind =>
    have hmem := List.mem_of_find?_eq_some hfind
    have hle : v.nextSeq ≤ seg.sequence := by simpa using List.find?_some hfind
    refine ⟨h.small, ?_, ?_, ?_⟩
    · intro x hx
      rcases List.mem_append.1 hx with hx | hx
      · exact h.takenSmall x hx
      · rw [List.mem_singleton.1 hx]
        exact h.small seg hmem
    · refine List.isChain_append.2 ⟨h.chain, List.isChain_singleton _, ?_⟩
      intro x hx y hy
      obtain rfl : seg = y := by simpa using hy
      rw [← h.last x hx]
      exact hle
    · intro x hx
      rw [List.getLast?_concat] at hx
      obtain rfl := Option.some.inj hx
      rfl
  · exact h

/-- Numbers that follow on each other go up, but behind the last number there is. -/
theorem pairwise_iff_chain {segs : List MediaSegment} (hsmall : ∀ seg ∈ segs, seg.sequence < U64)
    (hchain : segs.IsChain fun x y => (x.sequence + 1) % U64 ≤ y.sequence) :
    (segs.map MediaSegment.sequence).Pairwise (· < ·) ↔
      ∀ seg ∈ segs.dropLast, seg.sequence + 1 ≠ U64 := by
  induction segs with
  | nil => simp
  | cons x segs ih =>
    cases segs with
    | nil => simp
    | cons y segs =>
      have hx := hsmall x (List.mem_cons_self ..)
      have hy := hsmall y (by simp)
      obtain ⟨hxy, hrest⟩ := List.isChain_cons_cons.1 hchain
      have ih := ih (fun z hz => hsmall z (List.mem_cons_of_mem _ hz)) hrest
      rw [List.map_cons, List.pairwise_cons, ih, List.dropLast_cons_cons, List.forall_mem_cons]
      refine and_congr_left fun hlast => ?_
      constructor
      · intro hlt
        have hnext := hlt y.sequence (by simp)
        omega
      · intro hne
        rw [Nat.mod_eq_of_lt (by omega)] at hxy
        have hlater := List.pairwise_cons.1 (ih.2 hlast)
        rw [List.map_cons, List.forall_mem_cons]
        refine ⟨by omega, fun n hn => ?_⟩
        have hyn := hlater.1 n hn
        omega

/-! ### Bytes -/

/-- Whether a segment is the first, or comes with another init segment. -/
def Demux.Changes (d : Demux σ) (current : Option InitMap) (desc : MediaSegment) : Prop :=
  d.isUnknown ∨ (desc.map ≠ current ∧ desc.map.isSome)

/-- What the segments give out one after the other, and the demuxer behind them with the init
segment it was made of. -/
inductive Played (F : Fmp4 σ) :
    List Fetched → List UInt8 → Except String (Demux σ × Option InitMap) → Prop
  | start : Played F [] [] (.ok (.unknown, none))
  | same (fs : List Fetched) (out : List UInt8) (d : Demux σ) (current : Option InitMap)
      (f : Fetched) : Played F fs out (.ok (d, current)) → ¬ d.Changes current f.segment →
      Played F (fs ++ [f]) (out ++ (d.feed F f.media).1) ((d.feed F f.media).2.map (·, current))
  | changed (fs : List Fetched) (out : List UInt8) (d d' : Demux σ) (current : Option InitMap)
      (ext : List Char) (f : Fetched) : Played F fs out (.ok (d, current)) →
      d.Changes current f.segment → (f.segment.map.isSome = f.init.isSome) →
      configure F f.segment f.init f.media = .ok (d', ext) →
      Played F (fs ++ [f]) (out ++ (d'.feed F f.media).1)
        ((d'.feed F f.media).2.map (·, f.segment.map))

/-- `pending` is the segment that is being fetched. -/
structure AdaptiveStream.Core (F : Fmp4 σ) (s : AdaptiveStream σ) (pending : List MediaSegment)
    (result : Except String (Demux σ × Option InitMap)) : Prop where
  log : s.taken = s.fetched.map Fetched.segment ++ pending
  played : Played F s.fetched (s.given ++ s.buf.drop s.pos) result
  fin : s.ended = true → s.playlist.unserved s.nextSeq = none ∧
    (s.playlist.endlist = true ∨ MAX_STALE_RELOADS < s.staleReloads)

/-- There is nothing to read, and the stream has not ended. -/
def AdaptiveStream.Empty (s : AdaptiveStream σ) : Prop := s.buf.drop s.pos = [] ∧ s.ended = false

def AdaptiveStream.Sound (F : Fmp4 σ) (s : AdaptiveStream σ) : Prop :=
  match s.stage with
  | .ready => s.Core F [] (.ok (s.demux, s.currentInit))
  | .reload => s.Core F [] (.ok (s.demux, s.currentInit)) ∧ s.Empty
  | .segment desc _ => s.Core F [desc] (.ok (s.demux, s.currentInit)) ∧ s.Empty
  | .init desc _ _ => s.Core F [desc] (.ok (s.demux, s.currentInit)) ∧ s.Empty ∧ s.pos = 0 ∧
      desc.map.isSome = true ∧ s.demux.Changes s.currentInit desc
  | .failed _ => ∃ pending result, pending.length ≤ 1 ∧ s.Core F pending result

namespace AdaptiveStream

variable {s : AdaptiveStream σ} {pending : List MediaSegment}
  {result : Except String (Demux σ × Option InitMap)}

theorem Core.fail (h : s.Core F pending result) (hpending : pending.length ≤ 1) (e : String) :
    (s.fail e).Sound F := ⟨pending, result, hpending, h.log, h.played, h.fin⟩

theorem Core.deliver (h : s.Core F [] (.ok (s.demux, s.currentInit))) (n : ℕ) :
    (s.deliver n).Sound F := by
  refine ⟨h.log, ?_, h.fin⟩
  have hrest : s.buf.drop (s.pos + min (s.buf.length - s.pos) n) = (s.buf.drop s.pos).drop n := by
    rw [List.drop_drop]
    rcases Nat.le_total (s.buf.length - s.pos) n with hle | hle
    · rw [List.drop_eq_nil_of_le (by omega), List.drop_eq_nil_of_le (by omega)]
    · rw [Nat.min_eq_right hle]
  dsimp only [AdaptiveStream.deliver]
  rw [hrest, List.append_assoc, List.take_append_drop]
  exact h.played

theorem Core.filled (h : s.Core F [] (.ok (s.demux, s.currentInit))) : s.filled.Sound F := by
  unfold AdaptiveStream.filled
  split
  · exact h.deliver _
  · exact ⟨h.log, h.played, h.fin⟩

theorem Core.finish (h : s.Core F [] (.ok (s.demux, s.currentInit)))
    (hnone : s.playlist.unserved s.nextSeq = none)
    (hend : s.playlist.endlist = true ∨ MAX_STALE_RELOADS < s.staleReloads) :
    s.finish.Sound F := by
  unfold AdaptiveStream.finish
  split
  · exact ⟨h.log, h.played, fun _ => ⟨hnone, hend⟩⟩
  · exact ⟨[], _, Nat.zero_le _, h.log, h.played, fun _ => ⟨hnone, hend⟩⟩

theorem Core.next (h : s.Core F [] (.ok (s.demux, s.currentInit))) (hempty : s.Empty) :
    s.next.Sound F := by
  have hended : ∀ P : Prop, s.ended = true → P := by
    intro P hend
    rw [hempty.2] at hend
    cases hend
  unfold AdaptiveStream.next
  split
  next seg hseg =>
    refine ⟨⟨?_, h.played, hended _⟩, hempty⟩
    dsimp only
    rw [h.log, List.append_nil]
  next hnone =>
    split
    next hend => exact h.finish hnone (Or.inl hend)
    · exact ⟨⟨h.log, h.played, h.fin⟩, hempty⟩

/-- The segment that was fetched, by a demuxer for which it is `Played`. -/
theorem sound_decode {desc : MediaSegment} (init : Option (List UInt8)) (media : List UInt8)
    (hlog : s.taken = s.fetched.map Fetched.segment ++ [desc]) (hended : s.ended = false)
    (hpos : s.pos = 0) (hplayed : Played F (s.fetched ++ [⟨desc, init, media⟩])
      (s.given ++ (s.demux.feed F media).1) ((s.demux.feed F media).2.map (·, s.currentInit))) :
    (s.decode F desc init media).Sound F := by
  have hlog' : s.taken = (s.fetched ++ [(⟨desc, init, media⟩ : Fetched)]).map Fetched.segment ++ [] := by
    rw [hlog, List.map_append, List.append_nil]
    rfl
  have hfin : ∀ P : Prop, s.ended = true → P := by
    intro P hend
    rw [hended] at hend
    cases hend
  unfold AdaptiveStream.decode
  dsimp only
  split
  next e hresult =>
    rw [hresult] at hplayed
    refine ⟨[], .error e, Nat.zero_le _, hlog', ?_, hfin _⟩
    dsimp only [fail]
    rw [hpos]
    exact hplayed
  next demux hresult =>
    rw [hresult] at hplayed
    split
    next hnil =>
      refine Core.next ⟨hlog', ?_, hfin _⟩ ⟨?_, hended⟩
      · dsimp only
        rw [hpos]
        exact hplayed
      · dsimp only
        rw [hnil]
        exact List.drop_nil
    · refine Core.filled ⟨hlog', ?_, hfin _⟩
      dsimp only
      rw [hpos]
      exact hplayed

theorem sound_configured {desc : MediaSegment} (init : Option (List UInt8)) (media : List UInt8)
    (h : s.Core F [desc] (.ok (s.demux, s.currentInit))) (hempty : s.Empty) (hpos : s.pos = 0)
    (hinit : desc.map.isSome = init.isSome) (hchanges : s.demux.Changes s.currentInit desc) :
    (s.configured F desc init media).Sound F := by
  unfold configured
  split
  · exact h.fail (Nat.le_refl 1) _
  next demux ext hconfigure =>
    refine sound_decode init media h.log hempty.2 hpos ?_
    have hplayed := h.played
    rw [hempty.1, List.append_nil] at hplayed
    exact .changed _ _ _ _ _ _ ⟨desc, init, media⟩ hplayed hchanges hinit hconfigure

theorem sound_demuxSegment {desc : MediaSegment} (media : List UInt8)
    (h : s.Core F [desc] (.ok (s.demux, s.currentInit))) (hempty : s.Empty) :
    (s.demuxSegment F desc media).Sound F := by
  have hplayed := h.played
  rw [hempty.1, List.append_nil] at hplayed
  have hclear : ({ s with buf := [], pos := 0 } : AdaptiveStream σ).Core F [desc]
      (.ok (s.demux, s.currentInit)) :=
    ⟨h.log, by simpa using hplayed, h.fin⟩
  have hempty' : ({ s with buf := [], pos := 0 } : AdaptiveStream σ).Empty := ⟨rfl, hempty.2⟩
  unfold demuxSegment
  dsimp only
  split
  next hchanges =>
    split
    next map hmap =>
      exact ⟨⟨h.log, hclear.played, h.fin⟩, hempty', rfl, by rw [hmap]; rfl, hchanges⟩
    next hmap => exact sound_configured none media hclear hempty' rfl (by rw [hmap]; rfl) hchanges
  next hchanges =>
    refine sound_decode none media h.log hempty.2 rfl ?_
    exact .same _ _ _ _ ⟨desc, none, media⟩ hplayed hchanges

theorem sound_reloaded (h : s.Core F [] (.ok (s.demux, s.currentInit))) (hempty : s.Empty)
    (fresh : MediaPlaylist) : (s.reloaded fresh).Sound F := by
  have hfin : ∀ P : Prop, s.ended = true → P := by
    intro P hend
    rw [hempty.2] at hend
    cases hend
  unfold reloaded
  split
  · exact h.fail (Nat.zero_le _) _
  · split
    · exact Core.next ⟨h.log, h.played, hfin _⟩ hempty
    next hold =>
      obtain ⟨hnone, -⟩ : fresh.unserved s.nextSeq = none ∧ fresh.endlist = false := by
        simpa using hold
      dsimp only
      split
      next hstale => exact Core.finish ⟨h.log, h.played, hfin _⟩ hnone (Or.inr hstale)
      · exact Core.next ⟨h.log, h.played, hfin _⟩ hempty

theorem sound_step {url : List Char} (h : s.Sound F) (e : StreamEvent) :
    (s.step F url e).Sound F := by
  have hsound := h
  cases hstage : s.stage with
  | ready =>
    simp only [Sound, hstage] at h
    cases e with
    | read n =>
      simp only [step, hstage]
      split
      · exact hsound
      · split
        · exact h.deliver n
        · split
          · exact hsound
          next hend =>
            refine Core.next ⟨h.log, h.played, h.fin⟩ ⟨?_, by simpa using hend⟩
            exact List.drop_eq_nil_of_le (by dsimp only; omega)
    | playlist reply => simpa only [step, hstage] using hsound
    | media reply => simpa only [step, hstage] using hsound
  | reload =>
    simp only [Sound, hstage] at h
    cases e with
    | read n => simpa only [step, hstage] using hsound
    | playlist reply =>
      cases reply with
      | ok text =>
        simp only [step, hstage]
        exact sound_reloaded h.1 h.2 _
      | error e =>
        simp only [step, hstage]
        exact h.1.fail (Nat.zero_le _) e
    | media reply => simpa only [step, hstage] using hsound
  | segment desc retries =>
    simp only [Sound, hstage] at h
    cases e with
    | read n => simpa only [step, hstage] using hsound
    | playlist reply => simpa only [step, hstage] using hsound
    | media reply =>
      cases reply with
      | body data =>
        simp only [step, hstage]
        exact sound_demuxSegment data h.1 h.2
      | status code =>
        simp only [step, hstage]
        split
        · exact ⟨⟨h.1.log, h.1.played, h.1.fin⟩, h.2⟩
        · exact h.1.fail (Nat.le_refl 1) _
      | lost e =>
        simp only [step, hstage]
        exact h.1.fail (Nat.le_refl 1) e
  | init desc map media =>
    simp only [Sound, hstage] at h
    obtain ⟨hcore, hempty, hpos, hmap, hchanges⟩ := h
    cases e with
    | read n => simpa only [step, hstage] using hsound
    | playlist reply => simpa only [step, hstage] using hsound
    | media reply =>
      cases reply with
      | body data =>
        simp only [step, hstage]
        exact sound_configured (some data) media hcore hempty hpos hmap hchanges
      | status code =>
        simp only [step, hstage]
        exact hcore.fail (Nat.le_refl 1) _
      | lost e =>
        simp only [step, hstage]
        exact hcore.fail (Nat.le_refl 1) e
  | failed error =>
    cases e with
    | read n => simpa only [step, hstage] using hsound
    | playlist reply => simpa only [step, hstage] using hsound
    | media reply => simpa only [step, hstage] using hsound

end AdaptiveStream

/-! ### One container -/

theorem Demux.feed_known {d d' : Demux σ} {media : List UInt8} (h : d.isUnknown = false)
    (hd' : (d.feed F media).2 = .ok d') : d'.isUnknown = false := by
  cases d with
  | unknown => cases h
  | passthrough =>
    obtain rfl := Except.ok.inj hd'
    rfl
  | ts t =>
    simp only [Demux.feed] at hd'
    cases ht : (t.feed media).2 with
    | error e =>
      rw [ht] at hd'
      cases hd'
    | ok t' =>
      rw [ht] at hd'
      obtain rfl := Except.ok.inj hd'
      rfl
  | fmp4 m =>
    simp only [Demux.feed] at hd'
    split at hd'
    · cases hd'
    · obtain rfl := Except.ok.inj hd'
      rfl

theorem configure_known {desc : MediaSegment} {init : Option (List UInt8)} {media : List UInt8}
    {d : Demux σ} {ext : List Char} (h : configure F desc init media = .ok (d, ext)) :
    d.isUnknown = false := by
  have hmap : ∀ r : Except String σ, r.map (fun d => (Demux.fmp4 d, F.ext d)) = .ok (d, ext) →
      d.isUnknown = false := by
    intro r hr
    cases r with
    | error e => cases hr
    | ok m =>
      obtain ⟨rfl, -⟩ := Prod.mk.inj (Except.ok.inj hr)
      rfl
  unfold configure at h
  split at h
  · exact hmap _ h
  · split at h
    · exact hmap _ h
    · split at h
      · split at h
        · cases h
        · split at h
          · obtain ⟨rfl, -⟩ := Prod.mk.inj (Except.ok.inj h)
            rfl
          · cases h
      · obtain ⟨rfl, -⟩ := Prod.mk.inj (Except.ok.inj h)
        rfl

theorem played_nil {fs : List Fetched} {out : List UInt8}
    {result : Except String (Demux σ × Option InitMap)} (h : Played F fs out result)
    (hfs : fs = []) : out = [] ∧ result = .ok (.unknown, none) := by
  cases h with
  | start => exact ⟨rfl, rfl⟩
  | same => simp at hfs
  | changed => simp at hfs

theorem map_ok {ε τ υ : Type} {r : Except ε τ} {f : τ → υ} {b : υ} (h : r.map f = .ok b) :
    ∃ a, r = .ok a ∧ f a = b := by
  cases r with
  | error e => cases h
  | ok a => exact ⟨a, rfl, Except.ok.inj h⟩

theorem played_known {fs : List Fetched} {out : List UInt8} {d : Demux σ}
    {current : Option InitMap} (h : Played F fs out (.ok (d, current))) (hfs : fs ≠ []) :
    d.isUnknown = false := by
  generalize hresult : Except.ok (d, current) = result at h
  cases h with
  | start => exact (hfs rfl).elim
  | same fs out d₀ current₀ f h₀ hsame =>
    obtain ⟨d', hd', hpair⟩ := map_ok hresult.symm
    obtain ⟨rfl, -⟩ := Prod.mk.inj hpair
    refine Demux.feed_known ?_ hd'
    cases hunknown : d₀.isUnknown with
    | false => rfl
    | true => exact (hsame (Or.inl hunknown)).elim
  | changed fs out d₀ d₁ current₀ ext f h₀ hchanges hinit hconfigure =>
    obtain ⟨d', hd', hpair⟩ := map_ok hresult.symm
    obtain ⟨rfl, -⟩ := Prod.mk.inj hpair
    exact Demux.feed_known (configure_known hconfigure) hd'

@[simp] theorem feed_passthrough (media : List UInt8) :
    (Demux.passthrough : Demux σ).feed F media = (stripId3 media, .ok .passthrough) := rfl

@[simp] theorem feed_ts (t : TsDemuxer) (media : List UInt8) :
    (Demux.ts t : Demux σ).feed F media = ((t.feed media).1, (t.feed media).2.map .ts) := rfl

@[simp] theorem feed_fmp4 (m : σ) (media : List UInt8) :
    (Demux.fmp4 m).feed F media = ((F.segment m media).1, match (F.segment m media).2 with
      | some e => .error e
      | none => .ok (.fmp4 m)) := rfl

def Demux.feedAll (F : Fmp4 σ) (d : Demux σ) (medias : List (List UInt8)) :
    List UInt8 × Except String (Demux σ) := handleAll (fun d media => d.feed F media) d medias

theorem feedAll_cons (d : Demux σ) (media : List UInt8) (medias : List (List UInt8)) :
    d.feedAll F (media :: medias) = andThen (d.feed F media) fun d => d.feedAll F medias := rfl

/-- Behind a segment there is nothing but the rest of its demuxer: where the init segment stays, all
go through the demuxer of the first. -/
theorem played_uniform {fs : List Fetched} {out : List UInt8} {map : Option InitMap}
    {result : Except String (Demux σ × Option InitMap)} (h : Played F fs out result)
    (hmap : ∀ f ∈ fs, f.segment.map = map) {first : Fetched} (hfirst : fs.head? = some first) :
    ∃ d ext, configure F first.segment first.init first.media = .ok (d, ext) ∧
      map.isSome = first.init.isSome ∧
      ∃ fs' last out' d', fs = fs' ++ [last] ∧
        d.feedAll F (fs'.map Fetched.media) = (out', .ok d') ∧
        out = out' ++ (d'.feed F last.media).1 ∧ result = (d'.feed F last.media).2.map (·, map) := by
  induction h generalizing first with
  | start => cases hfirst
  | same fs out d current f h hsame ih =>
    cases fs with
    | nil =>
      obtain ⟨-, hresult⟩ := played_nil h rfl
      obtain ⟨rfl, -⟩ := Prod.mk.inj (Except.ok.inj hresult)
      exact (hsame (Or.inl rfl)).elim
    | cons g fs =>
      obtain ⟨d₀, ext, hconfigure, hinit, fs', last, out', d', hfs, hall, hout, hresult⟩ :=
        ih (fun x hx => hmap x (List.mem_append_left _ hx)) hfirst
      obtain ⟨d₁, hd₁, hpair⟩ := map_ok hresult.symm
      obtain ⟨rfl, rfl⟩ := Prod.mk.inj hpair
      refine ⟨d₀, ext, hconfigure, hinit, g :: fs, f, out, d₁, rfl, ?_, rfl, rfl⟩
      rw [hfs, List.map_append, List.map_singleton, Demux.feedAll, handleAll_concat hall, hout, hd₁]
  | changed fs out d d₁ current ext f h hchanges hinit hconfigure ih =>
    cases fs with
    | nil =>
      obtain rfl : f = first := Option.some.inj hfirst
      obtain ⟨rfl, -⟩ := played_nil h rfl
      have hf := hmap f (by simp)
      refine ⟨d₁, ext, hconfigure, ?_, [], f, [], d₁, rfl, rfl, rfl, ?_⟩
      · rw [← hf]
        exact hinit
      · rw [hf]
    | cons g fs =>
      obtain ⟨d₀, ext, -, -, fs', last, out', d', -, -, -, hresult⟩ :=
        ih (fun x hx => hmap x (List.mem_append_left _ hx)) hfirst
      obtain ⟨d₂, -, hpair⟩ := map_ok hresult.symm
      obtain ⟨-, rfl⟩ := Prod.mk.inj hpair
      rcases hchanges with hunknown | ⟨hne, -⟩
      · rw [played_known h (List.cons_ne_nil g fs)] at hunknown
        cases hunknown
      · exact (hne (hmap f (by simp))).elim

theorem feedAll_passthrough (medias : List (List UInt8)) :
    (Demux.passthrough : Demux σ).feedAll F medias =
      ((medias.map stripId3).flatten, .ok .passthrough) := by
  induction medias with
  | nil => rfl
  | cons media medias ih =>
    rw [feedAll_cons, feed_passthrough]
    simp only [andThen, ih, List.map_cons, List.flatten_cons]

theorem feedAll_fmp4 {m : σ} {medias : List (List UInt8)} {out : List UInt8} {d : Demux σ}
    (h : (Demux.fmp4 m).feedAll F medias = (out, .ok d)) :
    d = .fmp4 m ∧ out = (medias.map fun media => (F.segment m media).1).flatten := by
  induction medias generalizing out with
  | nil =>
    obtain ⟨rfl, hd⟩ := Prod.mk.inj h
    exact ⟨(Except.ok.inj hd).symm, rfl⟩
  | cons media medias ih =>
    rw [feedAll_cons, feed_fmp4] at h
    cases hsegment : (F.segment m media).2 with
    | some e => simp [hsegment, andThen] at h
    | none =>
      simp only [hsegment, andThen] at h
      obtain ⟨rfl, hd⟩ := Prod.mk.inj h
      obtain ⟨rfl, hrest⟩ := ih (Prod.ext rfl hd)
      exact ⟨rfl, congrArg ((F.segment m media).1 ++ ·) hrest⟩

theorem feedAll_ts {t : TsDemuxer} {medias : List (List UInt8)} {out : List UInt8} {d : Demux σ}
    (h : (Demux.ts t).feedAll F medias = (out, .ok d)) :
    ∃ t', d = .ts t' ∧ handleAll TsDemuxer.feed t medias = (out, .ok t') := by
  induction medias generalizing t out with
  | nil =>
    obtain ⟨rfl, hd⟩ := Prod.mk.inj h
    exact ⟨t, (Except.ok.inj hd).symm, rfl⟩
  | cons media medias ih =>
    rw [feedAll_cons, feed_ts] at h
    cases hfeed : (t.feed media).2 with
    | error e => simp [hfeed, Except.map, andThen] at h
    | ok t₁ =>
      simp only [hfeed, Except.map, andThen] at h
      obtain ⟨rfl, hd⟩ := Prod.mk.inj h
      obtain ⟨t', rfl, hrest⟩ := ih (Prod.ext rfl hd)
      refine ⟨t', rfl, ?_⟩
      rw [handleAll]
      simp only [andThen, hfeed, hrest]

/-- What is made of segments: one run of the demuxer over the whole transport stream, the segments
themselves without their ID3 tags, or what each fragment gives out. -/
structure Heard (F : Fmp4 σ) (fs : List Fetched) (out : List UInt8) : Prop where
  ts : ∀ first ∈ fs.head?, (∀ f ∈ fs, f.segment.map = none) → looksLikeMp4 first.media = false →
    looksLikeTs first.media = true →
    out = (TsDemuxer.new.feed (fs.map Fetched.media).flatten).1
  raw : ∀ first ∈ fs.head?, (∀ f ∈ fs, f.segment.map = none) → looksLikeMp4 first.media = false →
    looksLikeTs first.media = false →
    out = (fs.map fun f => stripId3 f.media).flatten
  fmp4 : ∀ first ∈ fs.head?, (∀ f ∈ fs, f.segment.map = first.segment.map) →
    (first.segment.map.isSome = true ∨ looksLikeMp4 first.media = true) →
    ∃ m, F.init (first.init.getD first.media) = .ok m ∧
      out = (fs.map fun f => (F.segment m f.media).1).flatten

theorem configure_init {desc : MediaSegment} {init : Option (List UInt8)} {media : List UInt8}
    {d : Demux σ} {ext : List Char} (h : configure F desc init media = .ok (d, ext))
    (hmp4 : init.isSome = true ∨ looksLikeMp4 media = true) :
    ∃ m, d = .fmp4 m ∧ F.init (init.getD media) = .ok m := by
  have hinit : ∀ data, (F.init data).map (fun m => (Demux.fmp4 m, F.ext m)) = .ok (d, ext) →
      ∃ m, d = .fmp4 m ∧ F.init data = .ok m := by
    intro data hdata
    obtain ⟨m, hm, hpair⟩ := map_ok hdata
    exact ⟨m, (Prod.mk.inj hpair).1.symm, hm⟩
  cases init with
  | some data => exact hinit data h
  | none =>
    have hmedia : looksLikeMp4 media = true := hmp4.resolve_left (by simp)
    simp only [configure, hmedia, if_true] at h
    exact hinit media h

theorem configure_ts {desc : MediaSegment} {media : List UInt8} {d : Demux σ} {ext : List Char}
    (h : configure F desc none media = .ok (d, ext)) (hmp4 : looksLikeMp4 media = false)
    (hts : looksLikeTs media = true) : d = .ts .new := by
  simp only [configure, hmp4, hts, if_true, Bool.false_eq_true, if_false] at h
  split at h
  · cases h
  · split at h
    · exact (Prod.mk.inj (Except.ok.inj h)).1.symm
    · cases h

theorem configure_raw {desc : MediaSegment} {media : List UInt8} {d : Demux σ} {ext : List Char}
    (h : configure F desc none media = .ok (d, ext)) (hmp4 : looksLikeMp4 media = false)
    (hts : looksLikeTs media = false) : d = .passthrough := by
  simp only [configure, hmp4, hts, Bool.false_eq_true, if_false] at h
  exact (Prod.mk.inj (Except.ok.inj h)).1.symm

theorem played_heard {fs : List Fetched} {out : List UInt8}
    {result : Except String (Demux σ × Option InitMap)} (h : Played F fs out result) :
    Heard F fs out where
  ts first hfirst hmap hmp4 hts := by
    obtain ⟨d, ext, hconfigure, hinit, fs', last, out', d', rfl, hall, rfl, -⟩ :=
      played_uniform h hmap hfirst
    have hnone : first.init = none := by simpa using hinit.symm
    rw [hnone] at hconfigure
    obtain rfl := configure_ts hconfigure hmp4 hts
    obtain ⟨t, rfl, ht⟩ := feedAll_ts hall
    have hwhole := congrArg Prod.fst
      (TsDemuxer.feedAll_flatten ((fs' ++ [last]).map Fetched.media))
    rw [List.map_append, List.map_singleton, TsDemuxer.feedAll_handleAll, handleAll_concat ht,
      ← List.map_singleton, ← List.map_append] at hwhole
    exact hwhole
  raw first hfirst hmap hmp4 hts := by
    obtain ⟨d, ext, hconfigure, hinit, fs', last, out', d', rfl, hall, rfl, -⟩ :=
      played_uniform h hmap hfirst
    have hnone : first.init = none := by simpa using hinit.symm
    rw [hnone] at hconfigure
    obtain rfl := configure_raw hconfigure hmp4 hts
    rw [feedAll_passthrough] at hall
    obtain ⟨rfl, hd'⟩ := Prod.mk.inj hall
    obtain rfl := Except.ok.inj hd'
    simp [Function.comp_def]
  fmp4 first hfirst hmap hmp4 := by
    obtain ⟨d, ext, hconfigure, hinit, fs', last, out', d', rfl, hall, rfl, -⟩ :=
      played_uniform h hmap hfirst
    rw [hinit] at hmp4
    obtain ⟨m, rfl, hm⟩ := configure_init hconfigure hmp4
    obtain ⟨rfl, rfl⟩ := feedAll_fmp4 hall
    refine ⟨m, hm, ?_⟩
    simp [Function.comp_def]

/-! ### Whole runs -/

section Runs

variable {s : AdaptiveStream σ} {url text : List Char}

/-- The first segment of a stream that was opened is on its way. -/
theorem open_next (h : openHls url text = .ok s) : ∃ first : MediaSegment,
    (parseMedia url text).segments[if (parseMedia url text).endlist then 0
      else (parseMedia url text).segments.length - LIVE_EDGE_BACKOFF]? = some first ∧
    s = ({ playlist := parseMedia url text, nextSeq := first.sequence } : AdaptiveStream σ).next := by
  unfold openHls at h
  dsimp only at h
  split at h
  · cases h
  · split at h
    · cases h
    next first hfirst => exact ⟨first, hfirst, (Except.ok.inj h).symm⟩

theorem sound_open (h : openHls url text = .ok s) : s.Sound F := by
  obtain ⟨first, -, rfl⟩ := open_next h
  exact AdaptiveStream.Core.next ⟨rfl, .start, fun hend => by cases hend⟩ ⟨rfl, rfl⟩

theorem ordered_open (h : openHls url text = .ok s) : s.view.Ordered := by
  obtain ⟨first, -, rfl⟩ := open_next h
  rw [AdaptiveStream.view_next]
  refine View.Ordered.next ⟨parse_small url text, ?_, List.isChain_nil, ?_⟩
  · exact fun seg hseg => absurd hseg List.not_mem_nil
  · exact fun seg hseg => by cases hseg

theorem ordered_step (h : s.view.Ordered) (e : StreamEvent) : (s.step F url e).view.Ordered := by
  rcases s.view_step url e with ⟨fresh, ⟨-, -, text, -, rfl⟩, hview⟩ | ⟨-, hview | hview⟩
  · rw [hview]
    exact View.Ordered.next ⟨parse_small url text, h.takenSmall, h.chain, h.last⟩
  · rw [hview]
    exact h
  · rw [hview]
    exact h.next

theorem run_core (F : Fmp4 σ) (h : openHls url text = .ok s) (es : List StreamEvent) :
    ∃ pending result, pending.length ≤ 1 ∧
      (run (AdaptiveStream.step F url) s es).Core F pending result := by
  have hsound : (run (AdaptiveStream.step F url) s es).Sound F :=
    @run_kept _ _ (AdaptiveStream.step F url) (AdaptiveStream.Sound F)
      (fun s e hs => AdaptiveStream.sound_step hs e) s (sound_open h) es
  unfold AdaptiveStream.Sound at hsound
  split at hsound
  · exact ⟨[], _, Nat.zero_le _, hsound⟩
  · exact ⟨[], _, Nat.zero_le _, hsound.1⟩
  · exact ⟨[_], _, Nat.le_refl 1, hsound.1⟩
  · exact ⟨[_], _, Nat.le_refl 1, hsound.1⟩
  · exact hsound

end Runs

/-- A playlist of two segments that are not in a container, and a stream of it. -/
def shortList : List Char :=
  "#EXTM3U\n#EXT-X-MEDIA-SEQUENCE:7\n#EXTINF:1,\na.aac\n#EXTINF:1,\nb.aac\n#EXT-X-ENDLIST\n".toList

def shortUrl : List Char := "http://a.test/list.m3u8".toList

def noFmp4 : Fmp4 Unit := ⟨fun _ => .error "", fun _ => [], fun _ _ => ([], none)⟩

theorem shortList_parsed : parseMedia shortUrl shortList =
    { mediaSequence := 7, endlist := true, encrypted := false
      segments := [⟨"http://a.test/a.aac".toList, 7, none, none⟩,
        ⟨"http://a.test/b.aac".toList, 8, none, none⟩] } := by
  decide +kernel

def listStream : AdaptiveStream Unit :=
  ({ playlist := parseMedia shortUrl shortList, nextSeq := 7 } : AdaptiveStream Unit).next

def shortReads : List StreamEvent :=
  [.media (.body [1, 2, 3]), .read 2, .read 4, .read 1, .media (.body [4, 5]), .read 9]

theorem open_short : openHls shortUrl shortList = .ok listStream := by
  unfold listStream
  rw [openHls, shortList_parsed]
  rfl

end Atradio.Native
