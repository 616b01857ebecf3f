import Mathlib.Algebra.Order.Ring.Int
import Mathlib.Data.List.DropRight
import Mathlib.Data.Nat.Init
import Atradio.Lib.Run
import Atradio.Lib.Table

/-! # The rate limiter of the proxy (`ratelimit.ts`, `proxy_ratelimit_ffi.erl`)

Requests are counted by client and window. One copy keeps the counters under strings, from which
the sweeper reads the window back, the other one under pairs. Time is in seconds. -/

namespace Atradio.Proxy.RateLimit
open Atradio.Lib

/-- How a counter is addressed, and the end of the window that the sweeper reads there; none stands
for `NaN`. -/
structure Slots (Slot : Type) where
  slot : List Char → ℕ → Slot
  endOf : Slot → Option ℕ
  endOf_slot : ∀ key windowEnd, endOf (slot key windowEnd) = some windowEnd
  slot_key : ∀ {key key' windowEnd}, slot key windowEnd = slot key' windowEnd → key = key'

inductive Decision where
  | allowed (remaining : ℤ)
  | limited (retryAfter : ℕ)
deriving DecidableEq

inductive Op where
  | check (now : ℕ) (key : List Char)
  | sweep (now : ℕ)

def Op.now : Op → ℕ
  | .check now _ => now
  | .sweep now => now

section Limiter

variable {Slot : Type} [DecidableEq Slot] (slots : Slots Slot) (limit : ℤ) (window : ℕ)

def windowEndOf (now : ℕ) : ℕ := (now / window + 1) * window

def check (counters : JsMap Slot ℕ) (now : ℕ) (key : List Char) : Decision × JsMap Slot ℕ :=
  let windowEnd := windowEndOf window now
  let slot := slots.slot key windowEnd
  let count := (counters.find slot).getD 0 + 1
  (if count ≤ limit then .allowed (limit - count) else .limited (windowEnd - now),
    counters.set slot count)

/-- Drop entries whose window has already ended. -/
def sweep (counters : JsMap Slot ℕ) (now : ℕ) : JsMap Slot ℕ :=
  counters.filter fun entry => !(slots.endOf entry.1).any (· < now)

def step (counters : JsMap Slot ℕ) : Op → JsMap Slot ℕ
  | .check now key => (check slots limit window counters now key).2
  | .sweep now => sweep slots counters now

def countersOf (ops : List Op) : JsMap Slot ℕ := run (step slots limit window) Table.empty ops

def decision (ops : List Op) (now : ℕ) (key : List Char) : Decision :=
  (check slots limit window (countersOf slots limit window ops) now key).1

end Limiter

/-! ### The two copies -/

/-- `Number` of a text of digits; others do not come up. -/
def numberOf (s : List Char) : Option ℕ :=
  if s.all Char.isDigit then some (Nat.ofDigitChars 10 s 0) else none

theorem toDigits_isDigit (n : ℕ) : (Nat.toDigits 10 n).all Char.isDigit = true :=
  List.all_eq_true.2 fun _ hc => Nat.isDigit_of_mem_toDigits (by decide) (by decide) hc

theorem colon_notMem (n : ℕ) : ∀ c ∈ Nat.toDigits 10 n, decide (c ≠ ':') = true := by
  intro c hc
  refine decide_eq_true ?_
  rintro rfl
  exact absurd (Nat.isDigit_of_mem_toDigits (by decide) (by decide) hc) (by decide)

/-- `key:windowEnd`, and `Number(slot.slice(slot.lastIndexOf(":") + 1))` -/
def stringSlots : Slots (List Char) where
  slot key windowEnd := key ++ ':' :: Nat.toDigits 10 windowEnd
  endOf slot := numberOf (slot.rtakeWhile (· ≠ ':'))
  endOf_slot := by
    intro key n
    have htake : (key ++ ':' :: Nat.toDigits 10 n).rtakeWhile (· ≠ ':') = Nat.toDigits 10 n := by
      have hrev : ∀ c ∈ (Nat.toDigits 10 n).reverse, decide (c ≠ ':') = true :=
        fun c hc => colon_notMem n c (List.mem_reverse.1 hc)
      rw [List.rtakeWhile, List.reverse_append, List.reverse_cons, List.append_assoc,
        List.takeWhile_append_of_pos hrev]
      simp
    rw [htake, numberOf, if_pos (toDigits_isDigit n), Nat.ofDigitChars_ten_toDigits]
  slot_key := List.append_cancel_right

/-- `{Key, WindowEnd}` -/
def pairSlots : Slots (List Char × ℕ) where
  slot := Prod.mk
  endOf slot := some slot.2
  endOf_slot _ _ := rfl
  slot_key h := (Prod.mk.inj h).1

/-! ### What a limiter is for -/

section Purpose

variable (limit : ℤ) (window : ℕ)

def requests (key : List Char) (windowEnd : ℕ) (ops : List Op) : ℕ :=
  ops.countP fun op =>
    match op with
    | .check now key' => key' = key ∧ windowEndOf window now = windowEnd
    | .sweep _ => false

/-- What the `n`th request of a client in its window gets. -/
def verdict (n : ℕ) (now : ℕ) : Decision :=
  if n ≤ limit then .allowed (limit - n) else .limited (windowEndOf window now - now)

structure Limits {Slot : Type} [DecidableEq Slot] (slots : Slots Slot) (ops : List Op) : Prop where
  verdict : ∀ {before key now after}, ops = before ++ .check now key :: after →
    decision slots limit window before now key =
      verdict limit window (requests window key (windowEndOf window now) before + 1) now
  retryAfter : ∀ {before key now after r}, ops = before ++ .check now key :: after →
    decision slots limit window before now key = .limited r → 1 ≤ r ∧ r ≤ window
  unswept : ∀ {before n between key now after},
    ops = before ++ .sweep n :: (between ++ .check now key :: after) →
      decision slots limit window (before ++ .sweep n :: between) now key =
        decision slots limit window (before ++ between) now key
  swept : ∀ {before n after}, ops = before ++ .sweep n :: after →
    ∀ entry ∈ (countersOf slots limit window (before ++ [.sweep n])).rows,
      ∃ key windowEnd, entry.1 = slots.slot key windowEnd ∧ n ≤ windowEnd

end Purpose

/-! ### Counters and requests -/

section Counting

variable {Slot : Type} [DecidableEq Slot] {slots : Slots Slot} {limit : ℤ} {window : ℕ}

omit [DecidableEq Slot] in
theorem slot_inj {key key' : List Char} {e e' : ℕ} :
    slots.slot key e = slots.slot key' e' ↔ key' = key ∧ e' = e := by
  constructor
  · intro h
    have hend := congrArg slots.endOf h
    rw [slots.endOf_slot, slots.endOf_slot] at hend
    obtain rfl := Option.some.inj hend
    exact ⟨(slots.slot_key h).symm, rfl⟩
  · rintro ⟨rfl, rfl⟩
    rfl

theorem find_sweep (counters : JsMap Slot ℕ) (now : ℕ) (key : List Char) (e : ℕ) :
    (sweep slots counters now).find (slots.slot key e) =
      if e < now then none else counters.find (slots.slot key e) := by
  unfold sweep JsMap.find
  rw [Table.get_filter]
  cases hget : Table.get counters (slots.slot key e) with
  | none => simp
  | some entry =>
    have hkey : entry.1 = slots.slot key e := Table.key_of_get hget
    rw [Option.filter_some, hkey, slots.endOf_slot]
    by_cases he : e < now
    · simp [he]
    · simp [he]

theorem countersOf_snoc (ops : List Op) (op : Op) :
    countersOf slots limit window (ops ++ [op]) =
      step slots limit window (countersOf slots limit window ops) op := by
  rw [countersOf, run_append]
  rfl

theorem requests_snoc (key : List Char) (e : ℕ) (ops : List Op) (op : Op) :
    requests window key e (ops ++ [op]) =
      requests window key e ops + requests window key e [op] := List.countP_append

/-- The counter of a window that has not ended is the number of its requests. -/
theorem count_eq (key : List Char) {e : ℕ} (ops : List Op) (h : ∀ op ∈ ops, op.now ≤ e) :
    ((countersOf slots limit window ops).find (slots.slot key e)).getD 0 =
      requests window key e ops := by
  induction ops using List.reverseRecOn with
  | nil => rfl
  | append_singleton ops op ih =>
    have hops := ih fun op hop => h op (List.mem_append_left _ hop)
    have hnow : op.now ≤ e := h op (by simp)
    rw [countersOf_snoc, requests_snoc, ← hops]
    cases op with
    | check now key' =>
      rw [step, check, JsMap.find_set]
      by_cases hslot : slots.slot key e = slots.slot key' (windowEndOf window now)
      · have hsame := slot_inj.1 hslot
        rw [if_pos hslot, hslot]
        simp [requests, hsame]
      · rw [if_neg hslot]
        have hother : ¬ (key' = key ∧ windowEndOf window now = e) := fun hsame =>
          hslot (slot_inj.2 hsame)
        simp [requests, hother]
    | sweep now =>
      have hkept : ¬ e < now := Nat.not_lt.2 hnow
      rw [step, find_sweep, if_neg hkept]
      rfl

theorem slots_of_rows (ops : List Op) : ∀ entry ∈ (countersOf slots limit window ops).rows,
    ∃ key e, entry.1 = slots.slot key e := by
  induction ops using List.reverseRecOn with
  | nil => exact nofun
  | append_singleton ops op ih =>
    rw [countersOf_snoc]
    intro entry hentry
    cases op with
    | check now key =>
      rcases (Table.mem_put _ _ _).1 hentry with rfl | ⟨hold, -⟩
      · exact ⟨key, _, rfl⟩
      · exact ih entry hold
    | sweep now => exact ih entry ((Table.mem_filter _ _ _).1 hentry).1

/-! ### Windows -/

theorem lt_windowEndOf (hwindow : 0 < window) (now : ℕ) : now < windowEndOf window now := by
  have hdiv : now < now / window * window + window := Nat.lt_div_mul_add hwindow
  rw [windowEndOf, Nat.add_one_mul]
  exact hdiv

theorem windowEndOf_le (now : ℕ) : windowEndOf window now ≤ now + window := by
  rw [windowEndOf, Nat.add_one_mul]
  exact Nat.add_le_add_right (Nat.div_mul_le_self now window) window

/-! ### A sequence of requests -/

theorem past_le {before after : List Op} {op : Op}
    (h : ((before ++ op :: after).map Op.now).Pairwise (· ≤ ·)) : ∀ o ∈ before, o.now ≤ op.now := by
  intro o ho
  rw [List.map_append, List.map_cons, List.pairwise_append] at h
  exact h.2.2 o.now (List.mem_map_of_mem ho) op.now (List.mem_cons_self ..)

theorem decision_eq (hwindow : 0 < window) {ops : List Op} {now : ℕ}
    (h : ∀ op ∈ ops, op.now ≤ now) (key : List Char) :
    decision slots limit window ops now key =
      verdict limit window (requests window key (windowEndOf window now) ops + 1) now := by
  have hcount : ((countersOf slots limit window ops).find
      (slots.slot key (windowEndOf window now))).getD 0 =
        requests window key (windowEndOf window now) ops :=
    count_eq key ops fun op hop => (h op hop).trans (Nat.le_of_lt (lt_windowEndOf hwindow now))
  simp only [decision, check, verdict, hcount]

theorem requests_unswept (key : List Char) (e n : ℕ) (before between : List Op) :
    requests window key e (before ++ .sweep n :: between) =
      requests window key e (before ++ between) := by
  simp [requests]

theorem verdict_limited {n now r : ℕ} (hwindow : 0 < window)
    (h : verdict limit window n now = .limited r) : 1 ≤ r ∧ r ≤ window := by
  have hlt := lt_windowEndOf hwindow now
  have hle : windowEndOf window now ≤ now + window := windowEndOf_le now
  unfold verdict at h
  split at h
  · cases h
  · cases h
    omega

theorem limits (hwindow : 0 < window) {ops : List Op} (h : (ops.map Op.now).Pairwise (· ≤ ·)) :
    Limits limit window slots ops where
  verdict := by
    rintro before key now after rfl
    exact decision_eq hwindow (past_le h) key
  retryAfter := by
    rintro before key now after r rfl hr
    have hpast : ∀ op ∈ before, op.now ≤ now := past_le h
    rw [decision_eq hwindow hpast] at hr
    exact verdict_limited hwindow hr
  unswept := by
    rintro before n between key now after rfl
    rw [← List.cons_append, ← List.append_assoc] at h
    have hpast : ∀ op ∈ before ++ .sweep n :: between, op.now ≤ now := past_le h
    rw [decision_eq hwindow hpast, decision_eq hwindow fun op hop => hpast op ?_, requests_unswept]
    rw [List.mem_append] at hop ⊢
    exact hop.imp_right (List.mem_cons_of_mem _)
  swept := by
    rintro before n after rfl entry hentry
    rw [countersOf_snoc] at hentry
    obtain ⟨hold, hkept⟩ := (Table.mem_filter _ _ _).1 hentry
    obtain ⟨key, e, hslot⟩ := slots_of_rows before entry hold
    refine ⟨key, e, hslot, ?_⟩
    rw [hslot, slots.endOf_slot] at hkept
    simpa using hkept

end Counting

theorem both_limit (limit : ℤ) {window : ℕ} (hwindow : 0 < window) (ops : List Op)
    (h : (ops.map Op.now).Pairwise (· ≤ ·)) :
    Limits limit window stringSlots ops ∧ Limits limit window pairSlots ops :=
  ⟨limits hwindow h, limits hwindow h⟩

/-- Three requests of `a:1` and one of `a` in two windows, with a sweep between them. -/
theorem both_limit_colons :
    Limits 1 60 stringSlots [.check 0 "a:1".toList, .check 59 "a:1".toList, .sweep 60,
      .check 60 "a:1".toList, .check 61 "a".toList] ∧
    Limits 1 60 pairSlots [.check 0 "a:1".toList, .check 59 "a:1".toList, .sweep 60,
      .check 60 "a:1".toList, .check 61 "a".toList] :=
  both_limit 1 (by decide) _ (by decide)

end Atradio.Proxy.RateLimit
