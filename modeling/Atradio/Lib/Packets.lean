import Mathlib.Data.List.DropRight

/-! # Packets of a fixed size behind a mark

A stream of packets, each a mark with `body` elements behind it. The reader looks for the mark once
it has enough for a packet, and keeps what is too short for one; `handle` gives out what a packet
holds, or fails. What is kept may begin before the mark, so that the state behind two pieces is the
one behind their concatenation only when that is dropped (`settled`). -/

namespace Atradio.Lib

variable {σ α β ε : Type}

/-- What is behind everything before the first mark. -/
def fromMark (mark : α → Bool) (buf : List α) : List α := buf.dropWhile fun a => !mark a

theorem fromMark_length_le (mark : α → Bool) (buf : List α) :
    (fromMark mark buf).length ≤ buf.length := (List.dropWhile_suffix _).length_le

/-- What a first part gives out, with what the rest does. -/
def andThen {τ υ : Type} (r : List β × Except ε τ) (rest : τ → List β × Except ε υ) :
    List β × Except ε υ :=
  match r.2 with
  | .error e => (r.1, .error e)
  | .ok s => (r.1 ++ (rest s).1, (rest s).2)

section Reader

variable (body : ℕ) (mark : α → Bool) (handle : σ → List α → List β × Except ε σ)

/-- All the packets of a buffer, and what is left of it. -/
def packets (s : σ) : List α → List β × Except ε (σ × List α)
  | [] => ([], .ok (s, []))
  | a :: rest =>
    if rest.length < body then ([], .ok (s, a :: rest))
    else if mark a then andThen (handle s (a :: rest.take body)) fun s => packets s (rest.drop body)
    else packets s (fromMark mark rest)
  termination_by buf => buf.length
  decreasing_by
    · simp only [List.length_drop, List.length_cons]
      omega
    · have hle := fromMark_length_le mark rest
      simp only [List.length_cons]
      omega

/-- The pieces of a stream one after the other, up to the first failure. -/
def readPackets (s : σ × List α) : List (List α) → List β × Except ε (σ × List α)
  | [] => ([], .ok s)
  | piece :: pieces =>
    andThen (packets body mark handle s.1 (s.2 ++ piece)) fun s => readPackets s pieces

def settled (r : List β × Except ε (σ × List α)) : List β × Except ε (σ × List α) :=
  (r.1, r.2.map fun s => (s.1, fromMark mark s.2))

/-- Packets one after the other. -/
def handleAll (s : σ) : List (List α) → List β × Except ε σ
  | [] => ([], .ok s)
  | packet :: rest => andThen (handle s packet) fun s => handleAll s rest

end Reader

section AndThen

variable {τ υ φ : Type}

theorem andThen_assoc (r : List β × Except ε τ) (f : τ → List β × Except ε υ)
    (g : υ → List β × Except ε φ) :
    andThen (andThen r f) g = andThen r fun s => andThen (f s) g := by
  obtain ⟨out, result⟩ := r
  cases result with
  | error e => rfl
  | ok s =>
    simp only [andThen]
    cases (f s).2 with
    | error e => rfl
    | ok u => simp [List.append_assoc]

theorem andThen_ok (s : τ) (f : τ → List β × Except ε υ) : andThen ([], .ok s) f = f s := rfl

theorem andThen_congr {r : List β × Except ε τ} {f g : τ → List β × Except ε υ}
    (h : ∀ s, r.2 = .ok s → f s = g s) : andThen r f = andThen r g := by
  obtain ⟨out, result⟩ := r
  cases result with
  | error e => rfl
  | ok s => simp only [andThen, h s rfl]

end AndThen

variable {body : ℕ} {mark : α → Bool} {handle : σ → List α → List β × Except ε σ}

theorem settled_andThen {τ : Type} (r : List β × Except ε τ)
    (f : τ → List β × Except ε (σ × List α)) :
    settled mark (andThen r f) = andThen r fun s => settled mark (f s) := by
  obtain ⟨out, result⟩ := r
  cases result <;> rfl

section Steps

variable {s : σ} {a : α} {rest : List α}

theorem packets_short {buf : List α} (h : buf.length ≤ body) :
    packets body mark handle s buf = ([], .ok (s, buf)) := by
  cases buf with
  | nil => rw [packets]
  | cons a rest => rw [packets, if_pos (Nat.lt_of_succ_le h)]

theorem packets_packet (h : body ≤ rest.length) (hmark : mark a = true) :
    packets body mark handle s (a :: rest) =
      andThen (handle s (a :: rest.take body)) fun s =>
        packets body mark handle s (rest.drop body) := by
  rw [packets, if_neg (Nat.not_lt.2 h), if_pos hmark]

theorem packets_skip (h : body ≤ rest.length) (hmark : mark a = false) :
    packets body mark handle s (a :: rest) = packets body mark handle s (fromMark mark rest) := by
  rw [packets, if_neg (Nat.not_lt.2 h), hmark, if_neg Bool.false_ne_true]

theorem fromMark_cons (hmark : mark a = true) (buf : List α) :
    fromMark mark (a :: buf) = a :: buf := by
  rw [fromMark, List.dropWhile_cons, hmark]
  rfl

theorem fromMark_skip (hmark : mark a = false) (buf : List α) :
    fromMark mark (a :: buf) = fromMark mark buf := by
  rw [fromMark, List.dropWhile_cons, hmark]
  rfl

end Steps

theorem fromMark_idem (buf : List α) : fromMark mark (fromMark mark buf) = fromMark mark buf :=
  List.dropWhile_idempotent _ buf

theorem fromMark_append_nil {a : List α} (h : fromMark mark a = []) (b : List α) :
    fromMark mark (a ++ b) = fromMark mark b := by
  unfold fromMark at h ⊢
  rw [List.dropWhile_append, h]
  rfl

theorem fromMark_append {a : List α} (h : fromMark mark a ≠ []) (b : List α) :
    fromMark mark (a ++ b) = fromMark mark a ++ b := by
  unfold fromMark at h ⊢
  rw [List.dropWhile_append, if_neg]
  exact fun hempty => h (List.isEmpty_iff.1 hempty)

/-- What is before the first mark makes no difference. -/
theorem settled_fromMark (s : σ) (buf : List α) :
    settled mark (packets body mark handle s (fromMark mark buf)) =
      settled mark (packets body mark handle s buf) := by
  cases buf with
  | nil => rfl
  | cons a rest =>
    cases hmark : mark a with
    | true => rw [fromMark_cons hmark]
    | false =>
      rw [fromMark_skip hmark]
      by_cases hlen : body ≤ rest.length
      · rw [packets_skip hlen hmark]
      · have hle := fromMark_length_le mark rest
        have hless : (fromMark mark rest).length ≤ body := by omega
        have hshort : (a :: rest).length ≤ body := by
          rw [List.length_cons]
          omega
        rw [packets_short hless, packets_short hshort]
        simp only [settled, Except.map, fromMark_idem, fromMark_skip hmark]

/-- A buffer may as well be read up to anywhere, and then the rest behind what was left. -/
theorem packets_append (s : σ) (a b : List α) :
    settled mark (packets body mark handle s (a ++ b)) =
      andThen (packets body mark handle s a) fun t =>
        settled mark (packets body mark handle t.1 (t.2 ++ b)) := by
  induction hn : a.length using Nat.strong_induction_on generalizing s a with
  | _ n ih =>
    subst hn
    by_cases hlen : a.length ≤ body
    · rw [packets_short hlen, andThen_ok]
    cases a with
    | nil => exact absurd (Nat.zero_le body) hlen
    | cons x rest =>
      have hle : body ≤ rest.length := by
        rw [List.length_cons] at hlen
        omega
      have hlong : body ≤ (rest ++ b).length := by
        rw [List.length_append]
        omega
      cases hmark : mark x with
      | true =>
        have hdrop : (rest.drop body).length < (x :: rest).length := by
          rw [List.length_drop, List.length_cons]
          omega
        rw [List.cons_append, packets_packet hlong hmark, packets_packet hle hmark,
          settled_andThen, andThen_assoc, List.take_append_of_le_length hle,
          List.drop_append_of_le_length hle]
        exact andThen_congr fun t _ => ih _ hdrop t _ rfl
      | false =>
        have hless : (fromMark mark rest).length < (x :: rest).length :=
          Nat.lt_succ_of_le (fromMark_length_le mark rest)
        rw [List.cons_append, packets_skip hlong hmark, packets_skip hle hmark]
        by_cases hnil : fromMark mark rest = []
        · have hshort : ([] : List α).length ≤ body := Nat.zero_le body
          rw [hnil, packets_short hshort, andThen_ok, List.nil_append, fromMark_append_nil hnil,
            settled_fromMark]
        · rw [fromMark_append hnil]
          exact ih _ hless s _ rfl

theorem packets_left {s : σ} {buf : List α} {t : σ × List α}
    (h : (packets body mark handle s buf).2 = .ok t) : t.2.length ≤ body := by
  induction hn : buf.length using Nat.strong_induction_on generalizing s buf with
  | _ n ih =>
    subst hn
    by_cases hlen : buf.length ≤ body
    · rw [packets_short hlen] at h
      rw [← Except.ok.inj h]
      exact hlen
    cases buf with
    | nil => exact absurd (Nat.zero_le body) hlen
    | cons a rest =>
      have hle : body ≤ rest.length := by
        rw [List.length_cons] at hlen
        omega
      cases hmark : mark a with
      | true =>
        rw [packets_packet hle hmark] at h
        cases hhandle : (handle s (a :: rest.take body)).2 with
        | error e =>
          simp only [andThen, hhandle] at h
          cases h
        | ok u =>
          simp only [andThen, hhandle] at h
          refine ih _ ?_ h rfl
          rw [List.length_drop, List.length_cons]
          omega
      | false =>
        rw [packets_skip hle hmark] at h
        exact ih _ (Nat.lt_succ_of_le (fromMark_length_le mark rest)) h rfl

/-- How a stream is cut into pieces makes no difference. -/
theorem readPackets_flatten {s : σ × List α} (hs : s.2.length ≤ body) (pieces : List (List α)) :
    settled mark (readPackets body mark handle s pieces) =
      settled mark (packets body mark handle s.1 (s.2 ++ pieces.flatten)) := by
  induction pieces generalizing s with
  | nil =>
    rw [List.flatten_nil, List.append_nil, packets_short hs]
    rfl
  | cons piece pieces ih =>
    rw [readPackets, settled_andThen, List.flatten_cons, ← List.append_assoc, packets_append]
    exact andThen_congr fun t ht => ih (packets_left ht)

/-- A stream of nothing but whole packets. -/
theorem packets_flatten (s : σ) {ps : List (List α)}
    (h : ∀ p ∈ ps, ∃ a rest, p = a :: rest ∧ mark a = true ∧ rest.length = body) :
    packets body mark handle s ps.flatten =
      andThen (handleAll handle s ps) fun s => ([], .ok (s, [])) := by
  induction ps generalizing s with
  | nil => exact packets_short (Nat.zero_le body)
  | cons p ps ih =>
    obtain ⟨a, rest, rfl, hmark, rfl⟩ := h p (List.mem_cons_self ..)
    have hlong : rest.length ≤ (rest ++ ps.flatten).length := by
      rw [List.length_append]
      omega
    rw [List.flatten_cons, List.cons_append, packets_packet hlong hmark,
      List.take_left' rfl, List.drop_left' rfl, handleAll, andThen_assoc]
    exact andThen_congr fun t _ => ih t fun q hq => h q (List.mem_cons_of_mem _ hq)

theorem handleAll_append (s : σ) (ps qs : List (List α)) :
    handleAll handle s (ps ++ qs) =
      andThen (handleAll handle s ps) fun s => handleAll handle s qs := by
  induction ps generalizing s with
  | nil => rfl
  | cons p ps ih =>
    rw [List.cons_append, handleAll, handleAll, andThen_assoc]
    exact andThen_congr fun t _ => ih t

theorem handleAll_concat {s s' : σ} {ps : List (List α)} {out : List β}
    (h : handleAll handle s ps = (out, .ok s')) (p : List α) :
    handleAll handle s (ps ++ [p]) = (out ++ (handle s' p).1, (handle s' p).2) := by
  rw [handleAll_append, h]
  simp only [andThen, handleAll]
  cases hp : (handle s' p).2 with
  | error e => rfl
  | ok s => simp

end Atradio.Lib
