import Atradio.Lib.Run
import Atradio.Discord.Firehose

/-! # The dedup cache over a run

An entry of the map is a key with the expiry of its latest claim. The map keeps the keys in
the order of their first insertion: a key that is claimed again after it has expired stays
where it was. -/

namespace Atradio.Discord
open Atradio.Lib

/-! ### Calls -/

structure Delivery where
  now : ℕ
  key : String

/-- The map, the time of the last call, and the successful claims, the latest one first. -/
structure Dedup where
  seen : Seen := Table.empty
  clock : ℕ := 0
  claims : List Delivery := []

namespace Dedup

def claimed (d : Dedup) (e : Delivery) : Bool := (claimFirstDelivery e.now e.key d.seen).1

def step (d : Dedup) (e : Delivery) : Dedup :=
  { seen := (claimFirstDelivery e.now e.key d.seen).2
    clock := e.now
    claims := if d.claimed e then e :: d.claims else d.claims }

def lastClaim (d : Dedup) (key : String) : Option ℕ :=
  (d.claims.find? fun e => e.key = key).map (·.now)

def InTime (d : Dedup) (e : Delivery) : Prop := d.clock ≤ e.now

instance (d : Dedup) : DecidablePred d.InTime := fun e =>
  inferInstanceAs (Decidable (d.clock ≤ e.now))

end Dedup

/-! ### What a call does -/

def live (now : ℕ) (e : String × ℕ) : Bool := now < e.2

/-- Within the budget all entries stay; over it, the live ones go from the front. -/
theorem evict_cases (now : ℕ) (seen : Seen) :
    seen.size ≤ DEDUP_MAX ∧ evict now seen = seen ∨
      DEDUP_MAX < seen.size ∧ ∃ gone, seen.rows.filter (live now) = gone ++ (evict now seen).rows ∧
        gone.length = (seen.rows.filter (live now)).length - DEDUP_MAX := by
  unfold evict
  split
  · rename_i h
    generalize DEDUP_MAX = size at h ⊢
    refine Or.inr ⟨h, (seen.rows.filter (live now)).take
      ((seen.rows.filter (live now)).length - size), (List.take_append_drop _ _).symm, ?_⟩
    rw [List.length_take]
    omega
  · rename_i h
    exact Or.inl ⟨Nat.le_of_not_lt h, rfl⟩

theorem evict_size (now : ℕ) (seen : Seen) : (evict now seen).size ≤ DEDUP_MAX := by
  rcases evict_cases now seen with ⟨h, heq⟩ | ⟨_, gone, hrows, hgone⟩
  · rw [heq]
    exact h
  · have hlen := congrArg List.length hrows
    rw [List.length_append] at hlen
    unfold Table.size
    omega

theorem evict_subset {now : ℕ} {seen : Seen} {e : String × ℕ} (h : e ∈ (evict now seen).rows) :
    e ∈ seen.rows := by
  rcases evict_cases now seen with ⟨_, heq⟩ | ⟨_, gone, hrows, _⟩
  · rwa [heq] at h
  · have hmem : e ∈ seen.rows.filter (live now) := hrows ▸ List.mem_append_right gone h
    exact (List.mem_filter.1 hmem).1

theorem evict_sublist (now : ℕ) (seen : Seen) : (evict now seen).rows.Sublist seen.rows := by
  rcases evict_cases now seen with ⟨_, heq⟩ | ⟨_, gone, hrows, _⟩
  · rw [heq]
  · exact (hrows ▸ List.sublist_append_right gone _).trans List.filter_sublist

theorem claim_refused {now exp : ℕ} {key : String} {seen : Seen}
    (h : JsMap.find seen key = some exp) (hlt : now < exp) :
    claimFirstDelivery now key seen = (false, seen) := by
  unfold claimFirstDelivery
  rw [h, if_pos (by simpa using hlt)]

theorem claim_taken {now : ℕ} {key : String} {seen : Seen}
    (h : ∀ exp, JsMap.find seen key = some exp → exp ≤ now) :
    claimFirstDelivery now key seen =
      (true, evict now (JsMap.set seen key (now + DEDUP_TTL_MS))) := by
  unfold claimFirstDelivery
  rw [if_neg]
  cases hfind : JsMap.find seen key with
  | none => simp
  | some exp => simpa using h exp hfind

namespace Dedup

/-- A call is refused by a live entry of its key, or claims the key and puts it into the map. -/
theorem step_cases (d : Dedup) (e : Delivery) :
    (∃ exp, JsMap.find d.seen e.key = some exp ∧ e.now < exp ∧ d.claimed e = false ∧
        d.step e = { d with clock := e.now }) ∨
      (∀ exp, JsMap.find d.seen e.key = some exp → exp ≤ e.now) ∧ d.claimed e = true ∧
        d.step e = { seen := evict e.now (JsMap.set d.seen e.key (e.now + DEDUP_TTL_MS))
                     clock := e.now, claims := e :: d.claims } := by
  by_cases h : ∃ exp, JsMap.find d.seen e.key = some exp ∧ e.now < exp
  · obtain ⟨exp, hfind, hlt⟩ := h
    refine Or.inl ⟨exp, hfind, hlt, ?_⟩
    simp [step, claimed, claim_refused hfind hlt]
  · have htaken : ∀ exp, JsMap.find d.seen e.key = some exp → exp ≤ e.now :=
      fun exp hfind => Nat.le_of_not_lt fun hlt => h ⟨exp, hfind, hlt⟩
    refine Or.inr ⟨htaken, ?_⟩
    simp [step, claimed, claim_taken htaken]

/-! ### Every entry is a latest claim -/

theorem lastClaim_claimed {d : Dedup} {e : Delivery} (h : d.claimed e = true) (key : String) :
    (d.step e).lastClaim key = if e.key = key then some e.now else d.lastClaim key := by
  unfold lastClaim step
  dsimp only
  rw [if_pos h, List.find?_cons]
  by_cases hk : e.key = key <;> simp [hk]

theorem lastClaim_refused {d : Dedup} {e : Delivery} (h : d.claimed e = false) (key : String) :
    (d.step e).lastClaim key = d.lastClaim key := by
  unfold lastClaim step
  dsimp only
  rw [if_neg (by simp [h])]

/-- The map within its budget, each entry made by the latest claim of its key. -/
structure Stamped (d : Dedup) : Prop where
  size : d.seen.size ≤ DEDUP_MAX
  stamp : ∀ x ∈ d.seen.rows, ∃ t, d.lastClaim x.1 = some t ∧ t ≤ d.clock ∧ x.2 = t + DEDUP_TTL_MS

theorem stamped_init : Stamped {} := by
  refine ⟨Nat.zero_le _, fun x hx => ?_⟩
  cases hx

theorem Stamped.step {d : Dedup} (hd : Stamped d) {e : Delivery} (he : d.InTime e) :
    Stamped (d.step e) := by
  unfold InTime at he
  have hlast := lastClaim_claimed (d := d) (e := e)
  have hkept := lastClaim_refused (d := d) (e := e)
  rcases d.step_cases e with ⟨exp, _, _, hc, hstep⟩ | ⟨_, hc, hstep⟩
  · have hclaim : ∀ key, ({ d with clock := e.now } : Dedup).lastClaim key = d.lastClaim key :=
      fun key => rfl
    rw [hstep]
    refine ⟨hd.size, fun x hx => ?_⟩
    obtain ⟨t, ht, hle, hexp⟩ := hd.stamp x hx
    exact ⟨t, (hclaim x.1).trans ht, Nat.le_trans hle he, hexp⟩
  · refine ⟨?_, fun x hx => ?_⟩
    · rw [hstep]
      exact evict_size _ _
    · have hclock : (d.step e).clock = e.now := rfl
      rw [hlast hc, hclock]
      rw [hstep] at hx
      rcases (Table.mem_put _ _ _).1 (evict_subset hx) with rfl | ⟨hx, hne⟩
      · exact ⟨e.now, if_pos rfl, Nat.le_refl _, rfl⟩
      · obtain ⟨t, ht, hle, hexp⟩ := hd.stamp x hx
        exact ⟨t, (if_neg (Ne.symm hne)).trans ht, Nat.le_trans hle he, hexp⟩

/-! ### The order of the map -/

/-- The live entries stand in the order of their latest claims. -/
def Sorted (d : Dedup) : Prop :=
  d.seen.rows.Pairwise fun x y => d.clock < y.2 → x.2 ≤ y.2

/-- A key that is claimed again while its expired entry is still in the map stands in front of
no entry that is live and older than this call. -/
def InLine (d : Dedup) (e : Delivery) : Prop :=
  ∀ front old back, d.seen.rows = front ++ (e.key, old) :: back → old ≤ e.now →
    ∀ x ∈ back, e.now < x.2 → e.now + DEDUP_TTL_MS ≤ x.2

theorem set_sorted {d : Dedup} (hd : Stamped d) (hs : Sorted d) {e : Delivery} (he : d.InTime e)
    (hline : d.InLine e) (hfree : ∀ exp, JsMap.find d.seen e.key = some exp → exp ≤ e.now) :
    (JsMap.set d.seen e.key (e.now + DEDUP_TTL_MS)).rows.Pairwise
      fun x y => e.now < y.2 → x.2 ≤ y.2 := by
  unfold InTime at he
  have hbound : ∀ x ∈ d.seen.rows, x.2 ≤ e.now + DEDUP_TTL_MS := by
    intro x hx
    obtain ⟨t, _, hle, hexp⟩ := hd.stamp x hx
    omega
  have hlater : d.seen.rows.Pairwise fun x y => e.now < y.2 → x.2 ≤ y.2 :=
    hs.imp fun h hlt => h (by omega)
  rcases JsMap.set_cases d.seen e.key (e.now + DEDUP_TTL_MS) with
    ⟨front, old, back, hrows, hset⟩ | ⟨_, hset⟩
  · have hold : old ≤ e.now := hfree old ((JsMap.find_eq_some _ _ _).2 (hrows ▸ by simp))
    have hback := hline front old back hrows hold
    rw [hrows] at hlater hbound
    rw [hset]
    obtain ⟨hfront, hrest, hacross⟩ := List.pairwise_append.1 hlater
    obtain ⟨_, hrest⟩ := List.pairwise_cons.1 hrest
    refine List.pairwise_append.2 ⟨hfront, List.pairwise_cons.2 ⟨hback, hrest⟩, ?_⟩
    intro x hx y hy hlt
    rcases List.mem_cons.1 hy with rfl | hy
    · exact hbound x (List.mem_append_left _ hx)
    · exact hacross x hx y (List.mem_cons_of_mem _ hy) hlt
  · rw [hset]
    refine List.pairwise_append.2 ⟨hlater, List.pairwise_singleton _ _, ?_⟩
    intro x hx y hy _
    obtain rfl := List.mem_singleton.1 hy
    exact hbound x hx

theorem Sorted.step {d : Dedup} (hs : Sorted d) (hd : Stamped d) {e : Delivery} (he : d.InTime e)
    (hline : d.InLine e) : Sorted (d.step e) := by
  rcases d.step_cases e with ⟨exp, _, _, _, hstep⟩ | ⟨hfree, _, hstep⟩
  · rw [hstep]
    unfold InTime at he
    exact hs.imp fun h hlt => h (Nat.lt_of_le_of_lt he hlt)
  · rw [hstep]
    exact (set_sorted hd hs he hline hfree).sublist (evict_sublist _ _)

/-! ### Eviction -/

/-- The map keeps to its budget and to the key that was just claimed, and the live keys that
a call throws out are those whose latest claims are the oldest. -/
structure EvictsOldest (d : Dedup) (e : Delivery) : Prop where
  size : (d.step e).seen.size ≤ DEDUP_MAX
  own : d.claimed e = true → ∃ x ∈ (d.step e).seen.rows, x.1 = e.key
  oldest : ∀ x ∈ d.seen.rows, e.now < x.2 → (∀ y ∈ (d.step e).seen.rows, y.1 ≠ x.1) →
    ∀ y ∈ (d.step e).seen.rows, ∃ t u, (d.step e).lastClaim x.1 = some t ∧
      (d.step e).lastClaim y.1 = some u ∧ t ≤ u

theorem claimed_kept {d : Dedup} (hd : Stamped d) {e : Delivery} (hc : d.claimed e = true) :
    ∃ x ∈ (d.step e).seen.rows, x.1 = e.key := by
  rcases d.step_cases e with ⟨exp, _, _, href, _⟩ | ⟨_, _, hstep⟩
  · rw [href] at hc
    cases hc
  · rw [hstep]
    refine ⟨(e.key, e.now + DEDUP_TTL_MS), ?_, rfl⟩
    rcases JsMap.set_cases d.seen e.key (e.now + DEDUP_TTL_MS) with
      ⟨front, old, back, hrows, hset⟩ | ⟨_, hset⟩
    · have hsize : (JsMap.set d.seen e.key (e.now + DEDUP_TTL_MS)).size ≤ DEDUP_MAX := by
        have hd := hd.size
        unfold Table.size at hd ⊢
        rw [hset]
        rw [hrows] at hd
        simpa using hd
      rcases evict_cases e.now (JsMap.set d.seen e.key (e.now + DEDUP_TTL_MS)) with
        ⟨_, heq⟩ | ⟨hover, _⟩
      · rw [heq, hset]
        simp
      · omega
    · rcases evict_cases e.now (JsMap.set d.seen e.key (e.now + DEDUP_TTL_MS)) with
        ⟨_, heq⟩ | ⟨_, gone, hsplit, hgone⟩
      · rw [heq, hset]
        simp
      · -- what goes is shorter than the live entries, so the last of them stays
        have hlive : live e.now (e.key, e.now + DEDUP_TTL_MS) = true := by
          simp [live, DEDUP_TTL_MS]
        rw [hset, List.filter_append, List.filter_cons_of_pos hlive, List.filter_nil] at hsplit hgone
        have hlen := congrArg List.length hsplit
        have hmax : 0 < DEDUP_MAX := by decide
        simp only [List.length_append, List.length_singleton] at hlen hgone
        have hlast := congrArg List.getLast? hsplit
        have hne : (evict e.now (JsMap.set d.seen e.key (e.now + DEDUP_TTL_MS))).rows ≠ [] := by
          intro hnil
          rw [hnil, List.length_nil] at hlen
          omega
        rw [List.getLast?_concat, List.getLast?_append_of_ne_nil _ hne] at hlast
        exact List.mem_of_getLast? hlast.symm

theorem evict_oldest {now : ℕ} {seen : Seen}
    (hs : seen.rows.Pairwise fun x y => now < y.2 → x.2 ≤ y.2) {x : String × ℕ}
    (hx : x ∈ seen.rows) (hlive : now < x.2) (hgone : x ∉ (evict now seen).rows) :
    ∀ y ∈ (evict now seen).rows, x.2 ≤ y.2 := by
  rcases evict_cases now seen with ⟨_, heq⟩ | ⟨_, gone, hsplit, _⟩
  · rw [heq] at hgone
    exact (hgone hx).elim
  · have hpair := hs.sublist (List.filter_sublist (p := live now))
    rw [hsplit] at hpair
    have hmem : x ∈ gone ++ (evict now seen).rows :=
      hsplit ▸ List.mem_filter.2 ⟨hx, decide_eq_true hlive⟩
    intro y hy
    have hy' : y ∈ seen.rows.filter (live now) := hsplit ▸ List.mem_append_right gone hy
    refine (List.pairwise_append.1 hpair).2.2 x ?_ y hy (of_decide_eq_true (List.mem_filter.1 hy').2)
    exact (List.mem_append.1 hmem).resolve_right hgone

theorem step_evicts {d : Dedup} (hd : Stamped d) (hs : Sorted d) {e : Delivery} (he : d.InTime e)
    (hline : d.InLine e) : EvictsOldest d e := by
  have hd' := hd.step he
  refine ⟨hd'.size, claimed_kept hd, fun x hx hlive hgone y hy => ?_⟩
  rcases d.step_cases e with ⟨exp, _, _, _, hstep⟩ | ⟨hfree, hc, hstep⟩
  · rw [hstep] at hgone
    exact (hgone x hx rfl).elim
  · have hne : x.1 ≠ e.key := by
      rintro hk
      have hfind := hfree x.2 (hk ▸ (JsMap.find_eq_some _ _ _).2 hx)
      omega
    obtain ⟨t, ht, _, hxt⟩ := hd.stamp x hx
    obtain ⟨u, hu, _, hyu⟩ := hd'.stamp y hy
    have hset : x ∈ (JsMap.set d.seen e.key (e.now + DEDUP_TTL_MS)).rows :=
      (Table.mem_put _ _ _).2 (Or.inr ⟨hx, hne⟩)
    refine ⟨t, u, ?_, hu, ?_⟩
    · rw [lastClaim_claimed hc, if_neg (Ne.symm hne)]
      exact ht
    · rw [hstep] at hy hgone
      have hle := evict_oldest (set_sorted hd hs he hline hfree) hset hlive
        (fun hmem => hgone x hmem rfl) y hy
      omega

/-! ### A cache with room -/

/-- Fewer live keys than the budget. -/
def Room (d : Dedup) (e : Delivery) : Prop := (d.seen.filter (live e.now)).size < DEDUP_MAX

instance (d : Dedup) : DecidablePred d.Room := fun e =>
  inferInstanceAs (Decidable ((d.seen.filter (live e.now)).size < DEDUP_MAX))

/-- Every claim that has not expired is in the map. -/
def Complete (d : Dedup) : Prop :=
  ∀ e ∈ d.claims, d.clock < e.now + DEDUP_TTL_MS →
    JsMap.find d.seen e.key = some (e.now + DEDUP_TTL_MS)

theorem filter_set_length (seen : Seen) (p : String × ℕ → Bool) (key : String) (exp : ℕ) :
    ((JsMap.set seen key exp).rows.filter p).length ≤ (seen.rows.filter p).length + 1 := by
  have hone : ∀ x : String × ℕ, ([x].filter p).length ≤ 1 := fun x => List.length_filter_le p [x]
  rcases JsMap.set_cases seen key exp with ⟨front, old, back, hrows, hset⟩ | ⟨_, hset⟩
  · have hnew := hone (key, exp)
    rw [hset, hrows, List.append_cons, List.append_cons front (key, old)]
    simp only [List.filter_append, List.length_append]
    omega
  · have hnew := hone (key, exp)
    rw [hset, List.filter_append, List.length_append]
    omega

theorem evict_room {d : Dedup} {e : Delivery} (h : d.Room e) {exp : ℕ} {x : String × ℕ}
    (hx : x ∈ (JsMap.set d.seen e.key exp).rows) (hlive : e.now < x.2) :
    x ∈ (evict e.now (JsMap.set d.seen e.key exp)).rows := by
  rcases evict_cases e.now (JsMap.set d.seen e.key exp) with ⟨_, heq⟩ | ⟨_, gone, hsplit, hgone⟩
  · rw [heq]
    exact hx
  · have hle := filter_set_length d.seen (live e.now) e.key exp
    have hroom : (d.seen.rows.filter (live e.now)).length < DEDUP_MAX := h
    have hnil : gone = [] := List.length_eq_zero_iff.1 (by omega)
    rw [hnil, List.nil_append] at hsplit
    rw [← hsplit]
    exact List.mem_filter.2 ⟨hx, decide_eq_true hlive⟩

theorem Complete.step {d : Dedup} (h : Complete d) {e : Delivery} (he : d.InTime e)
    (hroom : d.Room e) : Complete (d.step e) := by
  unfold InTime at he
  rcases d.step_cases e with ⟨exp, _, _, _, hstep⟩ | ⟨hfree, _, hstep⟩
  · rw [hstep]
    exact fun c hc hlt => h c hc (Nat.lt_of_le_of_lt he hlt)
  · rw [hstep]
    intro c hc hlt
    dsimp only at hlt
    rw [JsMap.find_eq_some]
    rcases List.mem_cons.1 hc with rfl | hc
    · exact evict_room hroom ((Table.mem_put _ _ _).2 (Or.inl rfl)) hlt
    · have hfind := h c hc (Nat.lt_of_le_of_lt he hlt)
      have hne : c.key ≠ e.key := by
        intro hk
        have hexp := hfree _ (hk ▸ hfind)
        omega
      refine evict_room hroom ((Table.mem_put _ _ _).2 (Or.inr ⟨?_, hne⟩)) hlt
      exact (JsMap.find_eq_some _ _ _).1 hfind

theorem complete_init : Complete {} := fun _ hc => by cases hc

/-- A call is refused exactly when its key was claimed within the window. -/
theorem refused_iff {d : Dedup} (hs : Stamped d) (hd : Complete d) {e : Delivery}
    (he : d.InTime e) :
    d.claimed e = false ↔ ∃ c ∈ d.claims, c.key = e.key ∧ e.now < c.now + DEDUP_TTL_MS := by
  unfold InTime at he
  rcases d.step_cases e with ⟨exp, hfind, hlt, hc, _⟩ | ⟨hfree, hc, _⟩
  · refine iff_of_true hc ?_
    obtain ⟨t, ht, _, hexp⟩ := hs.stamp _ ((JsMap.find_eq_some _ _ _).1 hfind)
    obtain ⟨c, hfound, rfl⟩ := Option.map_eq_some_iff.1 ht
    refine ⟨c, List.mem_of_find?_eq_some hfound, by simpa using List.find?_some hfound, ?_⟩
    dsimp only at hexp
    omega
  · refine iff_of_false (by simp [hc]) ?_
    rintro ⟨c, hmem, hkey, hlt⟩
    have hfind := hd c hmem (Nat.lt_of_le_of_lt he hlt)
    have hexp := hfree _ (hkey ▸ hfind)
    omega

/-! ### Runs -/

/-- When no key is claimed again in front of live entries, every call of a run throws out the
oldest claims. -/
theorem evicts_oldest {es : List Delivery} (htime : AllSteps Dedup.step InTime {} es)
    (hline : AllSteps Dedup.step InLine {} es) : AllSteps Dedup.step EvictsOldest {} es := by
  refine allSteps_of_invariant (I := fun d => Stamped d ∧ Sorted d)
    (fun d e hd hg => ⟨hd.1.step hg.1, hd.2.step hd.1 hg.1 hg.2⟩)
    (fun d e hd hg => step_evicts hd.1 hd.2 hg.1 hg.2) ⟨stamped_init, List.Pairwise.nil⟩
    (allSteps_and.2 ⟨htime, hline⟩)

/-! ### A key that is claimed twice -/

def callsAt (now : ℕ) (keys : List String) : List Delivery := keys.map fun key => ⟨now, key⟩

theorem run_fresh {d : Dedup} {now : ℕ} {keys : List String} (hkeys : keys.Nodup)
    (hnew : ∀ key ∈ keys, ∀ x ∈ d.seen.rows, x.1 ≠ key)
    (hroom : d.seen.rows.length + keys.length ≤ DEDUP_MAX) :
    (run Dedup.step d (callsAt now keys)).seen.rows =
      d.seen.rows ++ keys.map fun key => (key, now + DEDUP_TTL_MS) := by
  induction keys generalizing d with
  | nil => simp [callsAt]
  | cons key keys ih =>
    obtain ⟨hkey, hkeys⟩ := List.nodup_cons.1 hkeys
    simp only [List.length_cons] at hroom
    have hfresh := hnew key (List.mem_cons_self ..)
    have hput : (JsMap.set d.seen key (now + DEDUP_TTL_MS)).rows =
        d.seen.rows ++ [(key, now + DEDUP_TTL_MS)] := Table.rows_put_new _ _ hfresh
    have hstep : (d.step ⟨now, key⟩).seen.rows = d.seen.rows ++ [(key, now + DEDUP_TTL_MS)] := by
      rcases d.step_cases ⟨now, key⟩ with ⟨exp, hfind, _, _, _⟩ | ⟨_, _, hstep⟩
      · exact (hfresh _ ((JsMap.find_eq_some _ _ _).1 hfind) rfl).elim
      · rw [hstep, ← hput]
        rcases evict_cases now (JsMap.set d.seen key (now + DEDUP_TTL_MS)) with ⟨_, heq⟩ | ⟨hover, _⟩
        · exact congrArg Table.rows heq
        · unfold Table.size at hover
          rw [hput, List.length_append, List.length_singleton] at hover
          omega
    show (run Dedup.step (d.step ⟨now, key⟩) (callsAt now keys)).seen.rows = _
    rw [ih hkeys, hstep]
    · simp
    · intro key' hkey' x hx
      rw [hstep] at hx
      rcases List.mem_append.1 hx with hx | hx
      · exact hnew key' (List.mem_cons_of_mem _ hkey') x hx
      · obtain rfl := List.mem_singleton.1 hx
        rintro rfl
        exact hkey hkey'
    · rw [hstep, List.length_append, List.length_singleton]
      omega

theorem step_over {d : Dedup} {now : ℕ} {key : String} {x : String × ℕ} {rest : List (String × ℕ)}
    (hrows : d.seen.rows = x :: rest) (hsize : d.seen.rows.length = DEDUP_MAX)
    (hlive : ∀ y ∈ d.seen.rows, now < y.2) (hnew : ∀ y ∈ d.seen.rows, y.1 ≠ key) :
    d.claimed ⟨now, key⟩ = true ∧
      (d.step ⟨now, key⟩).seen.rows = rest ++ [(key, now + DEDUP_TTL_MS)] := by
  rcases d.step_cases ⟨now, key⟩ with ⟨exp, hfind, _, _, _⟩ | ⟨_, hc, hstep⟩
  · exact (hnew _ ((JsMap.find_eq_some _ _ _).1 hfind) rfl).elim
  · refine ⟨hc, ?_⟩
    have hput : (JsMap.set d.seen key (now + DEDUP_TTL_MS)).rows =
        d.seen.rows ++ [(key, now + DEDUP_TTL_MS)] := Table.rows_put_new _ _ hnew
    have hall : (d.seen.rows ++ [(key, now + DEDUP_TTL_MS)]).filter (live now) =
        d.seen.rows ++ [(key, now + DEDUP_TTL_MS)] := by
      refine List.filter_eq_self.2 fun y hy => ?_
      rcases List.mem_append.1 hy with hy | hy
      · exact decide_eq_true (hlive y hy)
      · obtain rfl := List.mem_singleton.1 hy
        simp [live, DEDUP_TTL_MS]
    rw [hstep]
    rcases evict_cases now (JsMap.set d.seen key (now + DEDUP_TTL_MS)) with
      ⟨hle, _⟩ | ⟨_, gone, hsplit, hgone⟩
    · unfold Table.size at hle
      rw [hput, List.length_append, List.length_singleton] at hle
      omega
    · rw [hput, hall] at hsplit hgone
      rw [List.length_append, List.length_singleton] at hgone
      obtain ⟨y, rfl⟩ := List.length_eq_one_iff.1 (show gone.length = 1 by omega)
      rw [hrows] at hsplit
      exact ((List.cons.inj hsplit).2).symm

theorem inTime_at {d : Dedup} {now : ℕ} (h : d.clock ≤ now) (keys : List String) :
    AllSteps Dedup.step InTime d (callsAt now keys) := by
  induction keys generalizing d with
  | nil => trivial
  | cons key keys ih => exact ⟨h, ih (Nat.le_refl now)⟩

def freshKeys (n : ℕ) : List String :=
  (List.range n).map fun i => String.ofList (List.replicate (i + 1) 'x')

theorem freshKeys_nodup (n : ℕ) : (freshKeys n).Nodup := by
  refine List.Nodup.map (fun i j hij => ?_) List.nodup_range
  have hlen := congrArg (fun key : String => key.toList.length) hij
  simpa using hlen

theorem x_mem_freshKeys {n : ℕ} {key : String} (h : key ∈ freshKeys n) :
    key.toList.head? = some 'x' := by
  obtain ⟨i, _, rfl⟩ := List.mem_map.1 h
  simp [List.replicate_succ]

/-- "a" expires and is claimed again, in front of "b", which is live. -/
def reclaim : List Delivery := [⟨0, "a"⟩, ⟨1, "b"⟩, ⟨DEDUP_TTL_MS, "a"⟩]

theorem reclaim_rows : (run Dedup.step {} reclaim).seen.rows =
    [("a", DEDUP_TTL_MS + DEDUP_TTL_MS), ("b", 1 + DEDUP_TTL_MS)] := by decide +kernel

/-- Other keys are claimed until the map is at its budget. -/
def crowd (n : ℕ) : Dedup :=
  run Dedup.step (run Dedup.step {} reclaim) (callsAt DEDUP_TTL_MS (freshKeys n))

theorem crowd_rows {n : ℕ} (hn : DEDUP_MAX = n + 2) : (crowd n).seen.rows =
    [("a", DEDUP_TTL_MS + DEDUP_TTL_MS), ("b", 1 + DEDUP_TTL_MS)] ++
      (freshKeys n).map fun key => (key, DEDUP_TTL_MS + DEDUP_TTL_MS) := by
  unfold crowd
  rw [run_fresh (freshKeys_nodup n), reclaim_rows]
  · intro key hkey x hx
    have hhead := x_mem_freshKeys hkey
    rw [reclaim_rows] at hx
    rintro rfl
    rcases List.mem_cons.1 hx with rfl | hx
    · exact absurd hhead (by decide)
    · obtain rfl := List.mem_singleton.1 hx
      exact absurd hhead (by decide)
  · rw [reclaim_rows, hn, freshKeys]
    simp
    omega

theorem reclaimed_evicted :
    ¬ ∀ es, AllSteps Dedup.step InTime {} es → AllSteps Dedup.step EvictsOldest {} es := by
  intro h
  obtain ⟨n, hn⟩ : ∃ n, DEDUP_MAX = n + 2 := Nat.exists_eq_add_of_le' (by decide)
  have htime : AllSteps Dedup.step InTime {}
      (reclaim ++ (callsAt DEDUP_TTL_MS (freshKeys n) ++ [⟨DEDUP_TTL_MS, "y"⟩])) := by
    have hlast : callsAt DEDUP_TTL_MS (freshKeys n) ++ [⟨DEDUP_TTL_MS, "y"⟩] =
        callsAt DEDUP_TTL_MS (freshKeys n ++ ["y"]) := by simp [callsAt]
    rw [hlast, allSteps_append]
    exact ⟨by decide +kernel, inTime_at (by decide +kernel) _⟩
  have hevict := h _ htime
  rw [allSteps_append, allSteps_append] at hevict htime
  obtain ⟨hreclaim, hfill, hin, _⟩ := htime
  have hlast : (crowd n).EvictsOldest ⟨DEDUP_TTL_MS, "y"⟩ := hevict.2.2.1
  have hd : Stamped (crowd n) :=
    run_invariant (fun d e hd he => hd.step he)
      (run_invariant (fun d e hd he => hd.step he) stamped_init hreclaim) hfill
  have hrows := crowd_rows hn
  have hother : ∀ x ∈ (crowd n).seen.rows, x.1 ≠ "y" ∧ DEDUP_TTL_MS < x.2 := by
    intro x hx
    rw [hrows] at hx
    rcases List.mem_append.1 hx with hx | hx
    · rcases List.mem_cons.1 hx with rfl | hx
      · decide
      · obtain rfl := List.mem_singleton.1 hx
        decide
    · obtain ⟨key, hkey, rfl⟩ := List.mem_map.1 hx
      refine ⟨fun hy => ?_, Nat.lt_add_of_pos_right (by decide)⟩
      have hhead := x_mem_freshKeys hkey
      rw [show key = "y" from hy] at hhead
      exact absurd hhead (by decide)
  have hsize : (crowd n).seen.rows.length = DEDUP_MAX := by
    rw [hrows, hn, freshKeys]
    simp
  -- the map is over its budget by one live entry, and the first one is "a"
  obtain ⟨hc, hstep⟩ := @step_over _ DEDUP_TTL_MS "y" _ _ hrows hsize
    (fun x hx => (hother x hx).2) fun x hx => (hother x hx).1
  have hgone : ∀ y ∈ ((crowd n).step ⟨DEDUP_TTL_MS, "y"⟩).seen.rows, y.1 ≠ "a" := by
    intro y hy
    rw [hstep] at hy
    rcases List.mem_append.1 hy with hy | hy
    · rcases List.mem_cons.1 hy with rfl | hy
      · decide
      · obtain ⟨key, hkey, rfl⟩ := List.mem_map.1 hy
        rintro rfl
        exact absurd (x_mem_freshKeys hkey) (by decide)
    · obtain rfl := List.mem_singleton.1 hy
      decide
  have ha : ("a", DEDUP_TTL_MS + DEDUP_TTL_MS) ∈ (crowd n).seen.rows := hrows ▸ by simp
  have hb : ("b", 1 + DEDUP_TTL_MS) ∈ ((crowd n).step ⟨DEDUP_TTL_MS, "y"⟩).seen.rows :=
    hstep ▸ by simp
  obtain ⟨t, u, ht, hu, hle⟩ := hlast.oldest _ ha (hother _ ha).2 hgone _ hb
  rw [lastClaim_claimed hc, if_neg (by decide)] at ht
  obtain ⟨t', ht', _, hexp⟩ := hd.stamp _ ha
  obtain ⟨u', hu', _, hexp'⟩ := (hd.step hin).stamp _ hb
  obtain rfl := Option.some.inj (ht.symm.trans ht')
  obtain rfl := Option.some.inj (hu.symm.trans hu')
  have httl : 1 < DEDUP_TTL_MS := by decide
  dsimp only at hexp hexp'
  omega

theorem inLine_new {d : Dedup} {e : Delivery} (h : ∀ x ∈ d.seen.rows, x.1 ≠ e.key) :
    d.InLine e := by
  intro front old back hrows _ x _ _
  exact (h (e.key, old) (hrows ▸ by simp) rfl).elim

theorem inLine_expired {d : Dedup} {e : Delivery} (h : ∀ x ∈ d.seen.rows, x.2 ≤ e.now) :
    d.InLine e := by
  intro front old back hrows _ x hx hlt
  exact absurd (h x (hrows ▸ by simp [hx])) (Nat.not_le_of_lt hlt)

theorem reclaim_late :
    AllSteps Dedup.step EvictsOldest {} [⟨0, "a"⟩, ⟨1, "b"⟩, ⟨DEDUP_TTL_MS + 1, "a"⟩] :=
  evicts_oldest (by decide +kernel)
    ⟨inLine_new (by decide +kernel), inLine_new (by decide +kernel),
      inLine_expired (by decide +kernel), trivial⟩

end Dedup

end Atradio.Discord
