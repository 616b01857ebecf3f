import Atradio.Discord.Dedup
import Atradio.Jetstream.Consumer

/-! # Copies of a commit in the mirror

The hosts deliver each commit several times. A copy is forwarded when it claims its key; the
key is the operation, the record and its cid, but not the revision of the repository. -/

namespace Atradio.Jetstream
open Atradio.Lib Atradio.Discord

/-! ### Copies -/

/-- A commit as a host delivers it; the code does not see the revision. -/
structure Copy where
  now : ℕ
  did : RepoDid
  commit : Commit
  rev : String

def Copy.delivery (c : Copy) : Delivery := { now := c.now, key := firehoseKey c.did.did c.commit }

def Copy.Same (a b : Copy) : Prop :=
  a.did.did = b.did.did ∧ a.commit.collection = b.commit.collection ∧
    a.commit.rkey = b.commit.rkey ∧ a.rev = b.rev

instance (a b : Copy) : Decidable (a.Same b) :=
  inferInstanceAs (Decidable (a.did.did = b.did.did ∧ a.commit.collection = b.commit.collection ∧
    a.commit.rkey = b.commit.rkey ∧ a.rev = b.rev))

/-- The cache when the copy with this number arrives. -/
def cacheAt (copies : List Copy) (i : ℕ) : Dedup :=
  run Dedup.step {} ((copies.take i).map Copy.delivery)

/-- This copy obtains true from `claimFirstDelivery`. -/
def Obtains (copies : List Copy) (i : ℕ) (c : Copy) : Prop :=
  copies[i]? = some c ∧ (cacheAt copies i).claimed c.delivery = true

def First (copies : List Copy) (i : ℕ) (c : Copy) : Prop :=
  copies[i]? = some c ∧ ∀ j < i, ∀ a, copies[j]? = some a → ¬ a.Same c

/-- Copies of one commit are of one operation and one version and arrive within the window,
and there is room for the live keys. -/
structure Redundant (copies : List Copy) : Prop where
  time : copies.Pairwise fun a b => a.now ≤ b.now
  agree : ∀ a ∈ copies, ∀ b ∈ copies, a.Same b →
    a.commit.operation = b.commit.operation ∧ a.commit.cid = b.commit.cid
  window : ∀ (i j : ℕ) a b, i < j → copies[i]? = some a → copies[j]? = some b → a.Same b →
    b.now < a.now + DEDUP_TTL_MS
  room : ∀ (i : ℕ) c, copies[i]? = some c → (cacheAt copies i).Room c.delivery

/-- One copy of every commit is forwarded, and a copy is held back only for an earlier one of
its own commit. -/
structure ExactPerCommit (copies : List Copy) : Prop where
  once : ∀ c ∈ copies, ∃! i, ∃ a, Obtains copies i a ∧ a.Same c
  apart : ∀ (i : ℕ) c, copies[i]? = some c → (cacheAt copies i).claimed c.delivery = false →
    ∃ j < i, ∃ a, copies[j]? = some a ∧ a.Same c

/-- Of two commits with one key, the first copies are a window apart. -/
def Spaced (copies : List Copy) : Prop :=
  ∀ (i j : ℕ) a b, i < j → First copies i a → First copies j b →
    a.delivery.key = b.delivery.key → a.now + DEDUP_TTL_MS ≤ b.now

theorem Copy.Same.symm {a b : Copy} (h : a.Same b) : b.Same a :=
  ⟨h.1.symm, h.2.1.symm, h.2.2.1.symm, h.2.2.2.symm⟩

theorem Copy.Same.trans {a b c : Copy} (h : a.Same b) (h' : b.Same c) : a.Same c :=
  ⟨h.1.trans h'.1, h.2.1.trans h'.2.1, h.2.2.1.trans h'.2.2.1, h.2.2.2.trans h'.2.2.2⟩

/-! ### The cache along the copies -/

section Cache

variable {copies : List Copy}

theorem cacheAt_succ {i : ℕ} {c : Copy} (h : copies[i]? = some c) :
    cacheAt copies (i + 1) = (cacheAt copies i).step c.delivery := by
  unfold cacheAt
  rw [List.take_add_one, h, List.map_append, run_append]
  rfl

theorem cacheAt_end {i : ℕ} (h : copies[i]? = none) :
    cacheAt copies (i + 1) = cacheAt copies i := by
  unfold cacheAt
  rw [List.take_add_one, h]
  simp

theorem cacheAt_inTime (h : Redundant copies) {i : ℕ} {c : Copy} (hc : copies[i]? = some c) :
    (cacheAt copies i).InTime c.delivery := by
  cases i with
  | zero => exact Nat.zero_le _
  | succ i =>
    obtain ⟨hlt, hget⟩ := List.getElem?_eq_some_iff.1 hc
    have hprev : copies[i]? = some copies[i] := List.getElem?_eq_getElem (by omega)
    rw [cacheAt_succ hprev]
    show copies[i].now ≤ c.now
    rw [← hget]
    exact List.pairwise_iff_getElem.1 h.time i (i + 1) (by omega) hlt (by omega)

theorem cacheAt_sound (h : Redundant copies) (i : ℕ) :
    Dedup.Stamped (cacheAt copies i) ∧ Dedup.Complete (cacheAt copies i) := by
  induction i with
  | zero => exact ⟨Dedup.stamped_init, Dedup.complete_init⟩
  | succ i ih =>
    cases hc : copies[i]? with
    | none =>
      rw [cacheAt_end hc]
      exact ih
    | some c =>
      rw [cacheAt_succ hc]
      have htime := cacheAt_inTime h hc
      exact ⟨ih.1.step htime, ih.2.step htime (h.room i c hc)⟩

/-- The claims are those of the copies that have obtained true. -/
theorem mem_claims (e : Delivery) (i : ℕ) :
    e ∈ (cacheAt copies i).claims ↔ ∃ j < i, ∃ a, Obtains copies j a ∧ a.delivery = e := by
  induction i with
  | zero => simp [cacheAt]
  | succ i ih =>
    have hsplit : (∃ j < i + 1, ∃ a, Obtains copies j a ∧ a.delivery = e) ↔
        (∃ j < i, ∃ a, Obtains copies j a ∧ a.delivery = e) ∨
          ∃ a, Obtains copies i a ∧ a.delivery = e := by
      constructor
      · rintro ⟨j, hj, ha⟩
        rcases Nat.lt_succ_iff_lt_or_eq.1 hj with hj | rfl
        · exact Or.inl ⟨j, hj, ha⟩
        · exact Or.inr ha
      · rintro (⟨j, hj, ha⟩ | ha)
        · exact ⟨j, by omega, ha⟩
        · exact ⟨i, by omega, ha⟩
    rw [hsplit, ← ih]
    cases hc : copies[i]? with
    | none =>
      rw [cacheAt_end hc]
      refine (or_iff_left ?_).symm
      rintro ⟨a, ⟨ha, _⟩, _⟩
      rw [hc] at ha
      cases ha
    | some c =>
      have hlast : (∃ a, Obtains copies i a ∧ a.delivery = e) ↔
          (cacheAt copies i).claimed c.delivery = true ∧ c.delivery = e := by
        constructor
        · rintro ⟨a, ⟨ha, hclaimed⟩, rfl⟩
          obtain rfl := Option.some.inj (hc.symm.trans ha)
          exact ⟨hclaimed, rfl⟩
        · rintro ⟨hclaimed, rfl⟩
          exact ⟨c, ⟨hc, hclaimed⟩, rfl⟩
      rw [cacheAt_succ hc, hlast]
      unfold Dedup.step
      dsimp only
      split
      · rename_i hclaimed
        rw [List.mem_cons, eq_comm (a := e), and_iff_right hclaimed]
        exact or_comm
      · rename_i hclaimed
        exact (or_iff_left fun h => hclaimed h.1).symm

/-- A copy is held back exactly when an earlier one with its key obtained true in the window. -/
theorem held_iff (h : Redundant copies) {j : ℕ} {b : Copy} (hb : copies[j]? = some b) :
    (cacheAt copies j).claimed b.delivery = false ↔ ∃ i < j, ∃ a, Obtains copies i a ∧
      a.delivery.key = b.delivery.key ∧ b.now < a.now + DEDUP_TTL_MS := by
  obtain ⟨hs, hd⟩ := cacheAt_sound h j
  rw [Dedup.refused_iff hs hd (cacheAt_inTime h hb)]
  constructor
  · rintro ⟨e, he, hkey, hlt⟩
    obtain ⟨i, hi, a, ha, rfl⟩ := (mem_claims e j).1 he
    exact ⟨i, hi, a, ha, hkey, hlt⟩
  · rintro ⟨i, hi, a, ha, hkey, hlt⟩
    exact ⟨a.delivery, (mem_claims _ j).2 ⟨i, hi, a, ha, rfl⟩, hkey, hlt⟩

theorem same_key (h : Redundant copies) {a b : Copy} (ha : a ∈ copies) (hb : b ∈ copies)
    (hsame : a.Same b) : a.delivery.key = b.delivery.key := by
  obtain ⟨hop, hcid⟩ := h.agree a ha b hb hsame
  obtain ⟨hdid, hcoll, hrkey, _⟩ := hsame
  simp only [Copy.delivery, firehoseKey, hop, hcid, hdid, hcoll, hrkey]

/-- The first copy of a commit that has one before the number `i`. -/
theorem exists_first {i : ℕ} {c : Copy} (hc : copies[i]? = some c) :
    ∃ j ≤ i, ∃ a, First copies j a ∧ a.Same c := by
  induction i using Nat.strong_induction_on generalizing c with
  | _ i ih =>
    by_cases hfirst : ∀ j < i, ∀ a, copies[j]? = some a → ¬ a.Same c
    · exact ⟨i, le_rfl, c, ⟨hc, hfirst⟩, rfl, rfl, rfl, rfl⟩
    · push Not at hfirst
      obtain ⟨j, hj, a, ha, hsame⟩ := hfirst
      obtain ⟨k, hk, b, hb, hsame'⟩ := ih j hj ha
      exact ⟨k, by omega, b, hb, hsame'.trans hsame⟩

/-! ### The first copy and no other -/

/-- The copies that obtain true are the first ones of their commits. -/
def FirstOnly (copies : List Copy) : Prop :=
  ∀ (i : ℕ) c, copies[i]? = some c → (Obtains copies i c ↔ First copies i c)

theorem firstOnly_of_spaced (h : Redundant copies) (hspaced : Spaced copies) :
    FirstOnly copies := by
  intro i
  induction i using Nat.strong_induction_on with
  | _ i ih =>
    intro c hc
    constructor
    · rintro ⟨_, hclaimed⟩
      refine ⟨hc, fun j hj a ha hsame => ?_⟩
      -- the first copy of the commit has obtained true and holds this one back
      obtain ⟨k, hk, b, hb, hsame'⟩ := exists_first ha
      have hobtains := (ih k (by omega) b hb.1).2 hb
      have hheld := (held_iff h hc).2 ⟨k, by omega, b, hobtains,
        same_key h (List.mem_of_getElem? hb.1) (List.mem_of_getElem? hc) (hsame'.trans hsame),
        h.window k i b c (by omega) hb.1 hc (hsame'.trans hsame)⟩
      rw [hclaimed] at hheld
      cases hheld
    · intro hfirst
      refine ⟨hc, ?_⟩
      rw [← Bool.not_eq_false]
      intro hheld
      obtain ⟨k, hk, b, hb, hkey, hlt⟩ := (held_iff h hc).1 hheld
      have hle := hspaced k i b c hk ((ih k hk b hb.1).1 hb) hfirst hkey
      omega

theorem spaced_of_firstOnly (h : Redundant copies) (hfirst : FirstOnly copies) :
    Spaced copies := by
  intro i j a b hij ha hb hkey
  by_contra hlt
  have hobtains := (hfirst j b hb.1).2 hb
  have hheld := (held_iff h hb.1).2
    ⟨i, hij, a, (hfirst i a ha.1).2 ha, hkey, Nat.lt_of_not_le hlt⟩
  rw [hobtains.2] at hheld
  cases hheld

theorem exact_iff_firstOnly : ExactPerCommit copies ↔ FirstOnly copies := by
  constructor
  · intro hex
    have hclaim : ∀ i c, First copies i c → Obtains copies i c := by
      intro i c hfirst
      refine ⟨hfirst.1, ?_⟩
      rw [← Bool.not_eq_false]
      intro hheld
      obtain ⟨j, hj, a, ha, hsame⟩ := hex.apart i c hfirst.1 hheld
      exact hfirst.2 j hj a ha hsame
    intro i c hc
    refine ⟨fun hobtains => ?_, hclaim i c⟩
    obtain ⟨j, _, a, ha, hsame⟩ := exists_first hc
    have hij : i = j := (hex.once c (List.mem_of_getElem? hc)).unique
      ⟨c, hobtains, rfl, rfl, rfl, rfl⟩ ⟨a, hclaim j a ha, hsame⟩
    subst hij
    obtain rfl := Option.some.inj (hc.symm.trans ha.1)
    exact ha
  · intro hfirst
    refine ⟨fun c hc => ?_, fun i c hc hheld => ?_⟩
    · obtain ⟨i, hi⟩ := List.mem_iff_getElem?.1 hc
      obtain ⟨j, _, a, ha, hsame⟩ := exists_first hi
      refine ⟨j, ⟨a, (hfirst j a ha.1).2 ha, hsame⟩, ?_⟩
      rintro k ⟨b, hb, hsame'⟩
      have hb' := (hfirst k b hb.1).1 hb
      rcases Nat.lt_trichotomy k j with hlt | heq | hgt
      · exact (ha.2 k hlt b hb.1 (hsame'.trans hsame.symm)).elim
      · exact heq
      · exact (hb'.2 j hgt a ha.1 (hsame.trans hsame'.symm)).elim
    · by_contra hnone
      push Not at hnone
      have hobtains := (hfirst i c hc).2 ⟨hc, hnone⟩
      rw [hobtains.2] at hheld
      cases hheld

end Cache

/-- The mirror is exact if and only if no commit follows another one with its key within the
window. -/
theorem exact_iff_spaced {copies : List Copy} (h : Redundant copies) :
    ExactPerCommit copies ↔ Spaced copies :=
  exact_iff_firstOnly.trans ⟨spaced_of_firstOnly h, firstOnly_of_spaced h⟩

/-! ### A favorite that is toggled -/

/-- The commits of a favorite that is added and removed again and again, a second apart. -/
def toggles (revs : List (ℕ × Operation × Option String)) : List Copy :=
  revs.map fun e =>
    { now := 1000 * e.1, did := alice, rev := toString e.1
      commit := { operation := e.2.1, collection := NSID.favorite, rkey := "k", record := none
                  cid := e.2.2 } }

def removedTwice : List Copy :=
  toggles [(0, .create, some "bafy1"), (1, .delete, none), (2, .create, some "bafy2"),
    (3, .delete, none)]

def removedOnce : List Copy :=
  toggles [(0, .create, some "bafy1"), (1, .delete, none), (2, .create, some "bafy2")]

/-- Every commit delivered once. -/
theorem redundant_of_apart {copies : List Copy}
    (hapart : copies.Pairwise fun a b => a.now ≤ b.now ∧ ¬ a.Same b)
    (hroom : ∀ (i : ℕ) (h : i < copies.length), (cacheAt copies i).Room copies[i].delivery) :
    Redundant copies := by
  have hne : ∀ (i j : ℕ) a b, i < j → copies[i]? = some a → copies[j]? = some b → ¬ a.Same b := by
    intro i j a b hij ha hb
    obtain ⟨hi, rfl⟩ := List.getElem?_eq_some_iff.1 ha
    obtain ⟨hj, rfl⟩ := List.getElem?_eq_some_iff.1 hb
    exact (List.pairwise_iff_getElem.1 hapart i j hi hj hij).2
  refine ⟨hapart.imp fun h => h.1, fun a ha b hb hsame => ?_, fun i j a b hij ha hb hsame => ?_,
    fun i c hc => ?_⟩
  · obtain ⟨i, hi⟩ := List.mem_iff_getElem?.1 ha
    obtain ⟨j, hj⟩ := List.mem_iff_getElem?.1 hb
    rcases Nat.lt_trichotomy i j with hlt | rfl | hgt
    · exact (hne i j a b hlt hi hj hsame).elim
    · obtain rfl := Option.some.inj (hi.symm.trans hj)
      exact ⟨rfl, rfl⟩
    · exact (hne j i b a hgt hj hi hsame.symm).elim
  · exact (hne i j a b hij ha hb hsame).elim
  · obtain ⟨hi, rfl⟩ := List.getElem?_eq_some_iff.1 hc
    exact hroom i hi

theorem second_removal_lost : ¬ ∀ copies, Redundant copies → ExactPerCommit copies := by
  intro h
  have hex := h removedTwice (redundant_of_apart (by decide +kernel) (by decide +kernel))
  obtain ⟨j, hj, a, ha, hsame⟩ := hex.apart 3 removedTwice[3] rfl (by decide +kernel)
  have hmem : a ∈ removedTwice.take 3 :=
    List.mem_of_getElem? ((List.getElem?_take_of_lt hj).trans ha)
  have hother : ∀ a ∈ removedTwice.take 3, ¬ a.Same removedTwice[3] := by decide +kernel
  exact hother a hmem hsame

theorem toggle_exact : ExactPerCommit removedOnce := by
  obtain ⟨_, h⟩ := @exact_iff_spaced removedOnce
    (redundant_of_apart (by decide +kernel) (by decide +kernel))
  have hkeys : removedOnce.Pairwise fun a b => a.delivery.key ≠ b.delivery.key := by decide +kernel
  refine h fun i j a b hij ha hb hkey => ?_
  obtain ⟨hi, rfl⟩ := List.getElem?_eq_some_iff.1 ha.1
  obtain ⟨hj, rfl⟩ := List.getElem?_eq_some_iff.1 hb.1
  exact (List.pairwise_iff_getElem.1 hkeys i j hi hj hij hkey).elim

end Atradio.Jetstream
