import Atradio.Proxy.PassThrough

/-! # The title in a stream (`icy.ts`, `proxy_gun_ffi.erl`)

Behind every `metaint` bytes of audio there is a length byte, and a metadata block of 16 times that
length. Both readers look for the first block that is not empty. -/

namespace Atradio.Proxy
open Atradio.Lib Atradio.Lexicons

def ICY_EXTRA : ℕ := 4096

def icyCap (metaint : ℕ) : ℕ := metaint * 2 + ICY_EXTRA

/-! ### Titles -/

/-- What precedes the last `quote`. -/
def upToLast {α : Type} [DecidableEq α] (quote : α) (s : List α) : Option (List α) :=
  match s.reverse.dropWhile (· ≠ quote) with
  | [] => none
  | _ :: before => some before.reverse

/-- `mark((?:[^']|'(?!;))*)'`: up to a quote before a semicolon, else up to the last quote. -/
def matchTitle {α : Type} [DecidableEq α] (mark : List α) (quote semicolon : α) (s : List α) :
    Option (List α) :=
  match cut mark s with
  | none => none
  | some (_, rest) =>
    match cut [quote, semicolon] rest with
    | some (title, _) => some title
    | none => upToLast quote rest

def parseStreamTitle (metadata : List UInt8) : Option String :=
  match matchTitle "StreamTitle='".toList (Char.ofNat 39) ';' (latin1 metadata) with
  | none => none
  | some title => orUndefined (trim (String.ofList title))

/-- `parse_title`; `string:trim` is a parameter. -/
def parseTitle (stringTrim : List UInt8 → List UInt8) (metadata : List UInt8) :
    Option (List UInt8) :=
  match matchTitle (bytes "StreamTitle='") 39 59 metadata with
  | none => none
  | some title => if stringTrim title = [] then none else some (stringTrim title)

/-! ### The walk over the blocks -/

inductive Walked where
  | wait (buf : List UInt8)
  | block (metadata : List UInt8)

/-- The loop over empty blocks. The budget is tested in each of its rounds in the source; what was
received does not change in it. -/
def walk (metaint : ℕ) (buf : List UInt8) : Walked :=
  match _h : buf.drop metaint with
  | [] => .wait buf
  | len :: rest =>
    if len = 0 then walk metaint rest
    else if rest.length < 16 * len.toNat then .wait buf
    else .block (rest.take (16 * len.toNat))
termination_by buf.length
decreasing_by
  have hlen : (buf.drop metaint).length = rest.length + 1 := by rw [_h]; rfl
  rw [List.length_drop] at hlen
  omega

/-- A search in what is delivered. At the end of it the connection closes, or the time is up. -/
def search {τ : Type} (title : List UInt8 → Option τ) (metaint cap : ℕ)
    (deliveries : List (List UInt8)) (buf : List UInt8) (consumed : ℕ) : Option τ :=
  if cap ≤ consumed then none
  else match walk metaint buf with
    | .block metadata => title metadata
    | .wait buf =>
      match deliveries with
      | [] => none
      | data :: deliveries =>
        search title metaint cap deliveries (buf ++ data) (consumed + data.length)

/-- `icy_scan` and `icy_recv` on the messages of a response, as `read_icy_title` calls them. -/
def icyScan (stringTrim : List UInt8 → List UInt8) (metaint : ℕ) (messages : List (List UInt8)) :
    Option (List UInt8) :=
  search (parseTitle stringTrim) metaint (icyCap metaint) messages [] 0

/-! ### The reader in TypeScript -/

structure Upstream where
  leftover : List UInt8
  chunked : Bool

structure Scan where
  decoder : Option ChunkedDecoder
  buf : List UInt8
  consumed : ℕ
  /-- What the promise was resolved with. -/
  done : Option (Option String)

def decode (decoder : Option ChunkedDecoder) (raw : List UInt8) :
    List UInt8 × Option ChunkedDecoder :=
  match decoder with
  | none => (raw, none)
  | some decoder => ((decoder.push raw).1, some (decoder.push raw).2)

def Scan.tryParse (metaint : ℕ) (s : Scan) : Scan :=
  if icyCap metaint ≤ s.consumed then { s with done := some none }
  else match walk metaint s.buf with
    | .wait buf => { s with buf }
    | .block metadata => { s with done := some (parseStreamTitle metadata) }

def Scan.onData (metaint : ℕ) (s : Scan) (chunk : List UInt8) : Scan :=
  if s.done.isSome then s
  else
    let (payload, decoder) := decode s.decoder chunk
    if payload = [] then { s with decoder }
    else Scan.tryParse metaint
      ⟨decoder, s.buf ++ payload, s.consumed + payload.length, none⟩

def Upstream.decoder (up : Upstream) : Option ChunkedDecoder :=
  if up.chunked then some .new else none

/-- `scan` on the chunks that the socket reads before it closes. -/
def scan (up : Upstream) (metaint : ℕ) (chunks : List (List UInt8)) : Option String :=
  let (buf, decoder) := decode up.decoder up.leftover
  let s := chunks.foldl (Scan.onData metaint) (Scan.tryParse metaint ⟨decoder, buf, buf.length, none⟩)
  s.done.getD none

/-- What the reads of a socket deliver. -/
def deliveries (decoder : Option ChunkedDecoder) : List (List UInt8) → List (List UInt8)
  | [] => []
  | raw :: chunks => (decode decoder raw).1 :: deliveries (decode decoder raw).2 chunks

/-! ### The first block that is not empty -/

/-- `block` is the first metadata block of `s` that is not empty, and ends at `stop`. -/
inductive FirstBlock (metaint : ℕ) : List UInt8 → ℕ → List UInt8 → Prop
  | here (s audio block rest : List UInt8) (len : UInt8) :
      s = audio ++ len :: (block ++ rest) → audio.length = metaint → len ≠ 0 →
      block.length = 16 * len.toNat → FirstBlock metaint s (metaint + 1 + block.length) block
  | later (s audio s' block : List UInt8) (stop : ℕ) :
      s = audio ++ 0 :: s' → audio.length = metaint → FirstBlock metaint s' stop block →
      FirstBlock metaint s (metaint + 1 + stop) block

section Blocks

variable {metaint stop : ℕ} {s s' block buf : List UInt8}

theorem drop_audio {audio : List UInt8} (h : audio.length = metaint) (t : List UInt8) :
    (audio ++ t).drop metaint = t := List.drop_left' h

theorem walk_empty (h : s.drop metaint = 0 :: s') : walk metaint s = walk metaint s' := by
  rw [walk]
  split
  · rename_i hnil
    rw [hnil] at h
    cases h
  · rename_i len rest hcons
    obtain ⟨rfl, rfl⟩ := List.cons.inj (hcons.symm.trans h)
    rw [if_pos rfl]

theorem walk_short (h : s.drop metaint = []) : walk metaint s = .wait s := by
  rw [walk]
  split
  · rfl
  · rename_i len rest hcons
    rw [hcons] at h
    cases h

theorem walk_full {len : UInt8} {rest : List UInt8} (h : s.drop metaint = len :: rest)
    (hlen : len ≠ 0) :
    walk metaint s = if rest.length < 16 * len.toNat then .wait s
      else .block (rest.take (16 * len.toNat)) := by
  rw [walk]
  split
  · rename_i hnil
    rw [hnil] at h
    cases h
  · rename_i len' rest' hcons
    obtain ⟨rfl, rfl⟩ := List.cons.inj (hcons.symm.trans h)
    rw [if_neg hlen]

theorem FirstBlock.walk_eq (h : FirstBlock metaint s stop block) :
    walk metaint s = .block block := by
  induction h with
  | here s audio block rest len hs haudio hlen hblock =>
    have hdrop : s.drop metaint = len :: (block ++ rest) := hs ▸ drop_audio haudio _
    have hlong : ¬ (block ++ rest).length < 16 * len.toNat := by
      rw [List.length_append]
      omega
    rw [walk_full hdrop hlen, if_neg hlong, ← hblock, List.take_left]
  | later s audio s' block stop hs haudio _ ih =>
    have hdrop : s.drop metaint = 0 :: s' := hs ▸ drop_audio haudio _
    rw [walk_empty hdrop, ih]

theorem FirstBlock.append (h : FirstBlock metaint s stop block) (t : List UInt8) :
    FirstBlock metaint (s ++ t) stop block := by
  induction h with
  | here s audio block rest len hs haudio hlen hblock =>
    exact .here (s ++ t) audio block (rest ++ t) len (by simp [hs]) haudio hlen hblock
  | later s audio s' block stop hs haudio _ ih =>
    exact .later (s ++ t) audio (s' ++ t) block stop (by simp [hs]) haudio ih

theorem FirstBlock.stop_le (h : FirstBlock metaint s stop block) : stop ≤ s.length := by
  induction h with
  | here s audio block rest len hs haudio _ _ =>
    rw [hs]
    simp only [List.length_append, List.length_cons]
    omega
  | later s audio s' block stop hs haudio _ ih =>
    rw [hs]
    simp only [List.length_append, List.length_cons]
    omega

/-- A block that ends in a part of the stream is the first one of this part. -/
theorem FirstBlock.of_append {t : List UInt8} (h : FirstBlock metaint (s ++ t) stop block)
    (hstop : stop ≤ s.length) : FirstBlock metaint s stop block := by
  generalize hst : s ++ t = st at h
  induction h generalizing s with
  | here st audio block rest len hs haudio hlen hblock =>
    have hpart : audio ++ len :: block <+: s ++ t := ⟨rest, by simp [hst, hs]⟩
    have hlength : (audio ++ len :: block).length ≤ s.length := by
      simp only [List.length_append, List.length_cons]
      omega
    obtain ⟨rest', hrest⟩ :=
      List.prefix_of_prefix_length_le hpart (List.prefix_append s t) hlength
    exact .here s audio block rest' len (by simp [← hrest]) haudio hlen hblock
  | later st audio s' block stop hs haudio _ ih =>
    have hpart : audio ++ [0] <+: s ++ t := ⟨s', by simp [hst, hs]⟩
    have hlength : (audio ++ [0]).length ≤ s.length := by
      simp only [List.length_append, List.length_singleton]
      omega
    obtain ⟨s₁, rfl⟩ := List.prefix_of_prefix_length_le hpart (List.prefix_append s t) hlength
    have hs₁ : s₁ ++ t = s' := by simpa [hs] using hst
    have hle : stop ≤ s₁.length := by
      simp only [List.length_append, List.length_singleton] at hstop
      omega
    exact .later _ audio s₁ block stop (by simp) haudio (ih hle hs₁)

theorem FirstBlock.unique {stop' : ℕ} {block' : List UInt8}
    (h : FirstBlock metaint s stop block) (h' : FirstBlock metaint s stop' block') :
    stop = stop' ∧ block = block' := by
  have hblock : block = block' := Walked.block.inj (h.walk_eq.symm.trans h'.walk_eq)
  refine ⟨?_, hblock⟩
  induction h generalizing stop' with
  | here s audio block rest len hs haudio hlen _ =>
    have hdrop : s.drop metaint = len :: (block ++ rest) := hs ▸ drop_audio haudio _
    cases h' with
    | here => rw [hblock]
    | later _ audio' s' _ stop' hs' haudio' _ =>
      have hdrop' : s.drop metaint = 0 :: s' := hs' ▸ drop_audio haudio' _
      exact (hlen (List.cons.inj (hdrop.symm.trans hdrop')).1).elim
  | later s audio s₁ block stop hs haudio _ ih =>
    have hdrop : s.drop metaint = 0 :: s₁ := hs ▸ drop_audio haudio _
    cases h' with
    | here _ audio' _ rest' len' hs' haudio' hlen' =>
      have hdrop' : s.drop metaint = len' :: _ := hs' ▸ drop_audio haudio' _
      exact (hlen' (List.cons.inj (hdrop'.symm.trans hdrop)).1).elim
    | later _ audio' s₂ _ stop' hs' haudio' h' =>
      have hdrop' : s.drop metaint = 0 :: s₂ := hs' ▸ drop_audio haudio' _
      obtain ⟨_, rfl⟩ := List.cons.inj (hdrop.symm.trans hdrop')
      rw [ih h' hblock]

theorem split_at_audio {len : UInt8} {rest : List UInt8} (h : s.drop metaint = len :: rest) :
    s = s.take metaint ++ len :: rest ∧ (s.take metaint).length = metaint := by
  refine ⟨by rw [← h, List.take_append_drop], List.length_take_of_le ?_⟩
  by_contra hshort
  rw [List.drop_eq_nil_of_le (by omega)] at h
  cases h

theorem walk_block (h : walk metaint s = .block block) :
    ∃ stop, FirstBlock metaint s stop block := by
  induction s using walk.induct metaint with
  | case1 s hnil =>
    rw [walk_short hnil] at h
    cases h
  | case2 s rest hdrop ih =>
    rw [walk_empty hdrop] at h
    obtain ⟨stop, hfirst⟩ := ih h
    obtain ⟨hs, haudio⟩ := split_at_audio hdrop
    exact ⟨_, .later s _ rest block stop hs haudio hfirst⟩
  | case3 s len rest hdrop hlen hshort =>
    rw [walk_full hdrop hlen, if_pos hshort] at h
    cases h
  | case4 s len rest hdrop hlen hlong =>
    rw [walk_full hdrop hlen, if_neg hlong] at h
    obtain ⟨hs, haudio⟩ := split_at_audio hdrop
    have hblock : block = rest.take (16 * len.toNat) := (Walked.block.inj h).symm
    refine ⟨_, .here s _ block (rest.drop (16 * len.toNat)) len ?_ haudio hlen ?_⟩
    · rw [hblock, List.take_append_drop]
      exact hs
    · rw [hblock, List.length_take]
      omega

theorem walk_wait (h : walk metaint s = .wait buf) (t : List UInt8) :
    walk metaint (s ++ t) = walk metaint (buf ++ t) := by
  induction s using walk.induct metaint with
  | case1 s hnil =>
    rw [walk_short hnil] at h
    rw [Walked.wait.inj h]
  | case2 s rest hdrop ih =>
    rw [walk_empty hdrop] at h
    obtain ⟨hs, haudio⟩ := split_at_audio hdrop
    have hdrop' : (s ++ t).drop metaint = 0 :: (rest ++ t) := by
      rw [hs, List.append_assoc, drop_audio haudio]
      rfl
    rw [walk_empty hdrop', ih h]
  | case3 s len rest hdrop hlen hshort =>
    rw [walk_full hdrop hlen, if_pos hshort] at h
    rw [Walked.wait.inj h]
  | case4 s len rest hdrop hlen hlong =>
    rw [walk_full hdrop hlen, if_neg hlong] at h
    cases h

end Blocks

/-! ### What a search finds -/

/-- The deliveries that bring the stream up to `stop` come before the budget is used up. -/
def Early (cap stop : ℕ) (received : List UInt8) (deliveries : List (List UInt8)) : Prop :=
  ∃ n, stop ≤ (received ++ (deliveries.take n).flatten).length ∧
    (received ++ (deliveries.take n).flatten).length < cap

section Search

variable {τ : Type} {title : List UInt8 → Option τ} {metaint cap stop : ℕ} {block : List UInt8}

theorem search_over {ds : List (List UInt8)} {buf : List UInt8} {consumed : ℕ}
    (h : cap ≤ consumed) : search title metaint cap ds buf consumed = none := by
  rw [search, if_pos h]

theorem search_block {ds : List (List UInt8)} {buf : List UInt8} {consumed : ℕ}
    (h : consumed < cap) (hwalk : walk metaint buf = .block block) :
    search title metaint cap ds buf consumed = title block := by
  rw [search, if_neg (Nat.not_le.2 h), hwalk]

theorem search_end {buf rest : List UInt8} {consumed : ℕ} (h : consumed < cap)
    (hwalk : walk metaint buf = .wait rest) :
    search title metaint cap [] buf consumed = none := by
  rw [search, if_neg (Nat.not_le.2 h), hwalk]

theorem search_wait {ds : List (List UInt8)} {data buf rest : List UInt8} {consumed : ℕ}
    (h : consumed < cap) (hwalk : walk metaint buf = .wait rest) :
    search title metaint cap (data :: ds) buf consumed =
      search title metaint cap ds (rest ++ data) (consumed + data.length) := by
  rw [search, if_neg (Nat.not_le.2 h), hwalk]

theorem early_cons {received data : List UInt8} {ds : List (List UInt8)}
    (h : Early cap stop (received ++ data) ds) : Early cap stop received (data :: ds) := by
  obtain ⟨n, hstop, hcap⟩ := h
  refine ⟨n + 1, ?_, ?_⟩
  · simpa using hstop
  · simpa using hcap

theorem early_of_cons {received data : List UInt8} {ds : List (List UInt8)}
    (h : Early cap stop received (data :: ds)) (hlate : received.length < stop) :
    Early cap stop (received ++ data) ds := by
  obtain ⟨n, hstop, hcap⟩ := h
  cases n with
  | zero =>
    simp only [List.take_zero, List.flatten_nil, List.append_nil] at hstop
    omega
  | succ n => exact ⟨n, by simpa using hstop, by simpa using hcap⟩

theorem not_early {received : List UInt8} {ds : List (List UInt8)} (h : cap ≤ received.length) :
    ¬ Early cap stop received ds := by
  rintro ⟨n, _, hcap⟩
  rw [List.length_append] at hcap
  omega

/-- The title of the first block if that comes early, and none otherwise. -/
def Finds (title : List UInt8 → Option τ) (metaint cap : ℕ) (received : List UInt8)
    (ds : List (List UInt8)) (result : Option τ) : Prop :=
  (∀ stop block, FirstBlock metaint (received ++ ds.flatten) stop block →
    Early cap stop received ds → result = title block) ∧
  ((∀ stop block, FirstBlock metaint (received ++ ds.flatten) stop block →
    ¬ Early cap stop received ds) → result = none)

theorem finds_over {received : List UInt8} {ds : List (List UInt8)} (h : cap ≤ received.length) :
    Finds title metaint cap received ds none :=
  ⟨fun _ _ _ hearly => (not_early h hearly).elim, fun _ => rfl⟩

theorem finds_block {received : List UInt8} {ds : List (List UInt8)} (hcap : received.length < cap)
    (h : FirstBlock metaint received stop block) :
    Finds title metaint cap received ds (title block) := by
  have hwhole := h.append ds.flatten
  refine ⟨fun stop' block' hblock _ => ?_, fun hnone => ?_⟩
  · rw [(hwhole.unique hblock).2]
  · refine (hnone stop block hwhole ⟨0, ?_, ?_⟩).elim
    · simpa using h.stop_le
    · simpa using hcap

theorem not_firstBlock {s rest : List UInt8} (h : walk metaint s = .wait rest) :
    ¬ FirstBlock metaint s stop block := by
  intro hblock
  rw [hblock.walk_eq] at h
  cases h

/-- The search goes on only while it waits for a block and is not over. -/
theorem finds_unless_wait {received buf : List UInt8} {ds : List (List UInt8)}
    (hreceived : walk metaint received = walk metaint buf)
    (hwait : ∀ rest, received.length < cap → walk metaint buf = .wait rest →
      Finds title metaint cap received ds (search title metaint cap ds buf received.length)) :
    Finds title metaint cap received ds (search title metaint cap ds buf received.length) := by
  rcases Nat.lt_or_ge received.length cap with hcap | hcap
  · cases hwalk : walk metaint buf with
    | block b =>
      obtain ⟨stop, hfirst⟩ := walk_block (hreceived.trans hwalk)
      rw [search_block hcap hwalk]
      exact finds_block hcap hfirst
    | wait rest => exact hwait rest hcap hwalk
  · rw [search_over hcap]
    exact finds_over hcap

/-- `buf` is what the walk over everything received has left. -/
theorem search_finds (ds : List (List UInt8)) (received buf : List UInt8)
    (hbuf : ∀ t, walk metaint (received ++ t) = walk metaint (buf ++ t)) :
    Finds title metaint cap received ds (search title metaint cap ds buf received.length) := by
  have hreceived : walk metaint received = walk metaint buf := by simpa using hbuf []
  refine finds_unless_wait hreceived fun rest hcap hwalk => ?_
  induction ds generalizing received buf rest with
  | nil =>
    rw [search_end hcap hwalk]
    refine ⟨fun stop block hblock _ => ?_, fun _ => rfl⟩
    rw [List.flatten_nil, List.append_nil] at hblock
    exact (not_firstBlock (hreceived.trans hwalk) hblock).elim
  | cons data ds ih =>
    have hnext : ∀ t, walk metaint (received ++ data ++ t) = walk metaint (rest ++ data ++ t) := by
      intro t
      rw [List.append_assoc, List.append_assoc, hbuf, walk_wait hwalk]
    have hnext' : walk metaint (received ++ data) = walk metaint (rest ++ data) := by
      simpa using hnext []
    have hfinds : Finds title metaint cap (received ++ data) ds
        (search title metaint cap ds (rest ++ data) (received ++ data).length) :=
      finds_unless_wait hnext' fun rest' hcap' hwalk' =>
        ih (received ++ data) (rest ++ data) hnext hnext' rest' hcap' hwalk'
    obtain ⟨hfound, hnone⟩ := hfinds
    rw [List.append_assoc, ← List.flatten_cons, List.length_append] at hfound hnone
    rw [search_wait hcap hwalk]
    refine ⟨fun stop block hblock hearly => ?_, fun hlate => ?_⟩
    · refine hfound stop block hblock (early_of_cons hearly ?_)
      by_contra hstop
      have hpart := hblock.of_append (Nat.not_lt.1 hstop)
      exact not_firstBlock (hreceived.trans hwalk) hpart
    · exact hnone fun stop block hblock hearly => hlate stop block hblock (early_cons hearly)

theorem walk_nil (metaint : ℕ) : walk metaint [] = .wait [] := walk_short List.drop_nil

/-- The first delivery may as well be the start. -/
theorem search_first (hcap : 0 < cap) (data : List UInt8) (ds : List (List UInt8)) :
    search title metaint cap (data :: ds) [] 0 =
      search title metaint cap ds data data.length := by
  rw [search_wait hcap (walk_nil metaint), List.nil_append, Nat.zero_add]

end Search

/-! ### The reader in TypeScript searches too -/

section Scans

variable {metaint : ℕ}

theorem foldl_done {s : Scan} (h : s.done.isSome = true) (chunks : List (List UInt8)) :
    chunks.foldl (Scan.onData metaint) s = s := by
  induction chunks with
  | nil => rfl
  | cons raw chunks ih => rw [List.foldl_cons, Scan.onData, if_pos h, ih]

theorem tryParse_wait {s : Scan} {rest : List UInt8} (hcap : s.consumed < icyCap metaint)
    (hwalk : walk metaint s.buf = .wait rest) :
    s.tryParse metaint = { s with buf := rest } := by
  rw [Scan.tryParse, if_neg (Nat.not_le.2 hcap), hwalk]

theorem foldl_tryParse (chunks : List (List UInt8)) (s : Scan) (hs : s.done = none) :
    (chunks.foldl (Scan.onData metaint) (s.tryParse metaint)).done.getD none =
      search parseStreamTitle metaint (icyCap metaint) (deliveries s.decoder chunks) s.buf
        s.consumed := by
  induction chunks generalizing s with
  | nil =>
    rcases Nat.lt_or_ge s.consumed (icyCap metaint) with hcap | hcap
    · cases hwalk : walk metaint s.buf with
      | block metadata =>
        rw [deliveries, search_block hcap hwalk, Scan.tryParse, if_neg (Nat.not_le.2 hcap), hwalk]
        rfl
      | wait rest =>
        rw [deliveries, search_end hcap hwalk, tryParse_wait hcap hwalk, List.foldl_nil, hs]
        rfl
    · rw [search_over hcap, Scan.tryParse, if_pos hcap]
      rfl
  | cons raw chunks ih =>
    rcases Nat.lt_or_ge s.consumed (icyCap metaint) with hcap | hcap
    · cases hwalk : walk metaint s.buf with
      | block metadata =>
        rw [search_block hcap hwalk, Scan.tryParse, if_neg (Nat.not_le.2 hcap), hwalk]
        rw [foldl_done rfl]
        rfl
      | wait rest =>
        have hrest : walk metaint rest = .wait rest := by
          rw [← hwalk]
          simpa using (walk_wait hwalk []).symm
        rw [deliveries, search_wait hcap hwalk, tryParse_wait hcap hwalk, List.foldl_cons]
        rw [Scan.onData, if_neg (by simp [hs])]
        dsimp only
        split
        · -- nothing was delivered: the state is as if it had been parsed again
          rename_i hpayload
          have hparsed := tryParse_wait (s := ⟨(decode s.decoder raw).2, rest, s.consumed, none⟩)
            hcap hrest
          rw [hpayload, List.append_nil, List.length_nil, Nat.add_zero]
          rw [← ih ⟨(decode s.decoder raw).2, rest, s.consumed, none⟩ rfl, hparsed, hs]
        · exact ih ⟨(decode s.decoder raw).2, rest ++ _, _, none⟩ rfl
    · rw [search_over hcap, Scan.tryParse, if_pos hcap, foldl_done rfl]
      rfl

theorem icyCap_pos (metaint : ℕ) : 0 < icyCap metaint := Nat.add_pos_right _ (by decide)

theorem scan_eq_search (up : Upstream) (chunks : List (List UInt8)) :
    scan up metaint chunks = search parseStreamTitle metaint (icyCap metaint)
      (deliveries up.decoder (up.leftover :: chunks)) [] 0 := by
  rw [deliveries, search_first (icyCap_pos metaint)]
  exact foldl_tryParse chunks ⟨_, _, _, none⟩ rfl

end Scans

/-! ### Titles whatever the deliveries are -/

section Titles

variable {τ : Type}

/-- The title of the first block that is not empty if that ends within the budget. -/
def Promised (title : List UInt8 → Option τ) (metaint : ℕ) (stream : List UInt8)
    (result : Option τ) : Prop :=
  (∀ stop block, FirstBlock metaint stream stop block → stop ≤ icyCap metaint →
    result = title block) ∧
  ((∀ stop block, FirstBlock metaint stream stop block → icyCap metaint < stop) → result = none)

/-- A first block with a title is complete before the budget is used up. -/
def Timely (title : List UInt8 → Option τ) (metaint : ℕ) (ds : List (List UInt8)) : Prop :=
  ∀ stop block, FirstBlock metaint ds.flatten stop block → stop ≤ icyCap metaint →
    title block ≠ none → Early (icyCap metaint) stop [] ds

theorem search_promised_iff (title : List UInt8 → Option τ) (metaint : ℕ) (ds : List (List UInt8)) :
    Promised title metaint ds.flatten (search title metaint (icyCap metaint) ds [] 0) ↔
      Timely title metaint ds := by
  obtain ⟨hfound, hnone⟩ : Finds title metaint (icyCap metaint) [] ds _ :=
    search_finds ds [] [] fun t => rfl
  rw [List.nil_append] at hfound hnone
  constructor
  · rintro ⟨hpromised, _⟩ stop block hblock hstop htitle
    by_contra hlate
    have hresult := hnone fun stop' block' hblock' => by
      rw [(hblock'.unique hblock).1]
      exact hlate
    exact htitle ((hpromised stop block hblock hstop).symm.trans hresult)
  · intro htimely
    constructor
    · intro stop block hblock hstop
      by_cases hearly : Early (icyCap metaint) stop [] ds
      · exact hfound stop block hblock hearly
      have htitle : title block = none := by
        by_contra htitle
        exact hearly (htimely stop block hblock hstop htitle)
      rw [htitle]
      refine hnone fun stop' block' hblock' => ?_
      rw [(hblock'.unique hblock).1]
      exact hearly
    · intro hlong
      refine hnone fun stop block hblock hearly => ?_
      obtain ⟨n, hstop, hcap⟩ := hearly
      have hfar := hlong stop block hblock
      omega

/-- Both readers give the title of the first block just where it arrives in time. -/
theorem titles_promised_iff (stringTrim : List UInt8 → List UInt8) (metaint : ℕ) (up : Upstream)
    (chunks messages : List (List UInt8)) :
    (Promised parseStreamTitle metaint (deliveries up.decoder (up.leftover :: chunks)).flatten
        (scan up metaint chunks) ↔
      Timely parseStreamTitle metaint (deliveries up.decoder (up.leftover :: chunks))) ∧
    (Promised (parseTitle stringTrim) metaint messages.flatten
        (icyScan stringTrim metaint messages) ↔
      Timely (parseTitle stringTrim) metaint messages) := by
  rw [scan_eq_search]
  exact ⟨search_promised_iff _ _ _, search_promised_iff _ _ _⟩

end Titles

def titleBlock : List UInt8 := bytes "StreamTitle='a';"

/-- A stream with a title behind the first 8192 bytes, which is read at once. -/
def longRead : List UInt8 :=
  List.replicate 8192 0 ++ 1 :: (titleBlock ++ List.replicate 16000 0)

theorem longRead_length : longRead.length = 24209 := by
  rw [longRead, List.length_append, List.length_cons, List.length_append, List.length_replicate,
    List.length_replicate]
  rfl

theorem longRead_first : FirstBlock 8192 longRead (8192 + 1 + titleBlock.length) titleBlock :=
  .here longRead (List.replicate 8192 0) titleBlock (List.replicate 16000 0) 1 rfl
    List.length_replicate (by decide) (by decide)

theorem search_longRead {τ : Type} (title : List UInt8 → Option τ) :
    search title 8192 (icyCap 8192) [longRead] [] 0 = none := by
  rw [search_first (icyCap_pos _)]
  refine search_over ?_
  rw [longRead_length]
  decide

theorem longRead_unpromised :
    ¬ Promised parseStreamTitle 8192 longRead (scan ⟨longRead, false⟩ 8192 []) ∧
      ¬ Promised (parseTitle id) 8192 longRead (icyScan id 8192 [longRead]) := by
  have hscan : scan ⟨longRead, false⟩ 8192 [] = none :=
    (scan_eq_search ⟨longRead, false⟩ []).trans (search_longRead _)
  rw [hscan, icyScan, search_longRead]
  constructor
  · intro h
    have htitle := h.1 _ titleBlock longRead_first (by decide)
    have hsome : parseStreamTitle titleBlock = some "a" := by decide
    cases htitle.trans hsome
  · intro h
    have htitle := h.1 _ titleBlock longRead_first (by decide)
    have hsome : parseTitle id titleBlock = some [97] := by decide
    cases htitle.trans hsome

end Atradio.Proxy
