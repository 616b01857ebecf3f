import Atradio.Lib.Async
import Atradio.Lib.Run

/-! # What programs ask

A program `Asks ok ans` when every request of it is `ok`, as long as the answers it gets are
as `ans` says. Of a pool of such programs, the state changes only as their requests let it
(`Respects`). A signature may be extended with further requests; its programs are lifted. -/

namespace Atradio.Lib

variable {S : Sig} {α β χ σ J : Type}

/-! ### Requests -/

def Prog.Asks (ok : S.Req → Prop) (ans : ∀ q, S.Ans q → Prop) : Prog S α → Prop
  | .pure _ => True
  | .throw => True
  | .act _ k => ∀ r, (k r).Asks ok ans
  | .ask q k => ok q ∧ (k none).Asks ok ans ∧ ∀ r, ans q r → (k (some r)).Asks ok ans

section Asks

variable {ok : S.Req → Prop} {ans : ∀ q, S.Ans q → Prop}

theorem asks_bind {p : Prog S α} {f : α → Prog S β} (hp : p.Asks ok ans)
    (hf : ∀ a, (f a).Asks ok ans) : (p.bind f).Asks ok ans := by
  induction p with
  | pure a => exact hf a
  | throw => trivial
  | act a k ih => exact fun r => ih r (hp r)
  | ask q k ih => exact ⟨hp.1, ih none hp.2.1, fun r hr => ih (some r) (hp.2.2 r hr)⟩

theorem asks_tryCatch {p h : Prog S α} (hp : p.Asks ok ans) (hh : h.Asks ok ans) :
    (p.tryCatch h).Asks ok ans := by
  induction p with
  | pure a => trivial
  | throw => exact hh
  | act a k ih => exact fun r => ih r (hp r)
  | ask q k ih => exact ⟨hp.1, ih none hp.2.1, fun r hr => ih (some r) (hp.2.2 r hr)⟩

theorem asks_perform (a : S.Act) : (Prog.perform a).Asks ok ans := fun _ => trivial

theorem asks_await {q : S.Req} (hq : ok q) : (Prog.await q).Asks ok ans :=
  ⟨hq, trivial, fun _ _ => trivial⟩

/-- The continuation of a request may rely on the answer. -/
theorem asks_await_bind {q : S.Req} {f : S.Ans q → Prog S β} (hq : ok q)
    (hf : ∀ r, ans q r → (f r).Asks ok ans) : ((Prog.await q).bind f).Asks ok ans :=
  ⟨hq, trivial, hf⟩

end Asks

/-! ### Pools -/

def Turn.choice : Turn J χ → χ
  | .start _ c => c
  | .answer _ c => c
  | .resume _ c => c

/-- Effects, and requests that are `ok`, change the state as `R` allows, and their answers are
as `ans` says, when the environment decides as `G` says. -/
structure Respects (M : Machine S χ σ) (G : χ → Prop) (ok : S.Req → Prop)
    (ans : ∀ q, S.Ans q → Prop) (R : σ → σ → Prop) : Prop where
  refl : ∀ s, R s s
  trans : ∀ s t u, R s t → R t u → R s u
  act : ∀ c a s, G c → R s (M.act c a s).2
  serve : ∀ c q s, G c → ok q → R s (M.serve c q s).2
  answer : ∀ c q s r, G c → (M.serve c q s).1 = some r → ans q r

namespace Pool

variable {M : Machine S χ σ} {G : χ → Prop} {ok : S.Req → Prop} {ans : ∀ q, S.Ans q → Prop}
  {R : σ → σ → Prop} {main : J → Prog S Unit}

theorem sync_respects (h : Respects M G ok ans R) {c : χ} (hc : G c) {p : Prog S α}
    (hp : p.Asks ok ans) (s : σ) :
    R s (p.sync M c s).2.2 ∧ (p.sync M c s).2.1.Asks ok ans := by
  induction p generalizing s with
  | act a k ih =>
    obtain ⟨hr, hk⟩ := ih _ (hp _) (M.act c a s).2
    exact ⟨h.trans _ _ _ (h.act c a s hc) hr, hk⟩
  | _ => exact ⟨h.refl s, hp⟩

theorem serve_asks (h : Respects M G ok ans R) {c : χ} (hc : G c) {q : S.Req}
    {k : Option (S.Ans q) → Prog S α} (hp : (Prog.ask q k).Asks ok ans) (s : σ) :
    R s (M.serve c q s).2 ∧ (k (M.serve c q s).1).Asks ok ans := by
  obtain ⟨hok, hnone, hsome⟩ := hp
  refine ⟨h.serve c q s hc hok, ?_⟩
  cases hr : (M.serve c q s).1 with
  | none => exact hnone
  | some r => exact hsome r (h.answer c q s r hc hr)

def AllAsk (ok : S.Req → Prop) (ans : ∀ q, S.Ans q → Prop) (P : Pool S J σ) : Prop :=
  ∀ t ∈ P.tasks, t.2.Asks ok ans

theorem step_respects (h : Respects M G ok ans R) (hmain : ∀ j, (main j).Asks ok ans)
    {P : Pool S J σ} (hP : P.AllAsk ok ans) {e : Turn J χ} (he : G e.choice) :
    R P.state (step M main P e).state ∧ (step M main P e).AllAsk ok ans := by
  have hset : ∀ {t : ℕ} {j : J} {q : Prog S Unit}, q.Asks ok ans →
      ∀ u ∈ P.tasks.set t (j, q), u.2.Asks ok ans := by
    intro t j q hq u hu
    rcases List.mem_or_eq_of_mem_set hu with hu | rfl
    · exact hP u hu
    · exact hq
  cases e with
  | start j c =>
    obtain ⟨hr, hq⟩ := sync_respects h he (hmain j) P.state
    refine ⟨hr, fun u hu => ?_⟩
    rcases List.mem_append.1 hu with hu | hu
    · exact hP u hu
    · obtain rfl := List.mem_singleton.1 hu
      exact hq
  | answer t c =>
    dsimp only [step]
    split
    · rename_i j q k hk
      obtain ⟨hr, hq⟩ := serve_asks h he (hP _ (List.mem_of_getElem? hk)) P.state
      exact ⟨hr, hset hq⟩
    · exact ⟨h.refl _, hP⟩
  | resume t c =>
    dsimp only [step]
    split
    · rename_i j p hp
      obtain ⟨hr, hq⟩ := sync_respects h he (hP _ (List.mem_of_getElem? hp)) P.state
      exact ⟨hr, hset hq⟩
    · exact ⟨h.refl _, hP⟩

theorem run_respects (h : Respects M G ok ans R) (hmain : ∀ j, (main j).Asks ok ans)
    {P : Pool S J σ} (hP : P.AllAsk ok ans) {es : List (Turn J χ)} (hes : ∀ e ∈ es, G e.choice) :
    R P.state (run (step M main) P es).state ∧ (run (step M main) P es).AllAsk ok ans := by
  induction es generalizing P with
  | nil => exact ⟨h.refl _, hP⟩
  | cons e es ih =>
    obtain ⟨hr, hP'⟩ := step_respects h hmain hP (hes e (List.mem_cons_self ..))
    obtain ⟨hrest, hend⟩ := ih hP' fun e he => hes e (List.mem_cons_of_mem _ he)
    exact ⟨h.trans _ _ _ hr hrest, hend⟩

theorem allAsk_init (s : σ) : ({ state := s } : Pool S J σ).AllAsk ok ans :=
  fun _ ht => by cases ht

end Pool

/-! ### Further requests -/

section Extend

variable {R : Type} {A : R → Type}

@[reducible] def Sig.extend (S : Sig) (R : Type) (A : R → Type) : Sig :=
  { Act := S.Act, Res := S.Res, Req := S.Req ⊕ R, Ans := Sum.elim S.Ans A }

def Prog.lift : Prog S α → Prog (S.extend R A) α
  | .pure a => .pure a
  | .throw => .throw
  | .act a k => .act a fun r => (k r).lift
  | .ask q k => .ask (Sum.inl q) fun r => (k r).lift

def Machine.extend {χ' : Type} (M : Machine S χ σ) (f : χ' → χ)
    (serve : χ' → (q : R) → σ → Option (A q) × σ) : Machine (S.extend R A) χ' σ where
  act c a s := M.act (f c) a s
  serve
    | c, .inl q, s => M.serve (f c) q s
    | c, .inr q, s => serve c q s

theorem asks_lift {ok : S.Req ⊕ R → Prop} {ans : ∀ q, (S.extend R A).Ans q → Prop} {p : Prog S α}
    (hp : p.Asks (fun q => ok (.inl q)) (fun q => ans (.inl q))) :
    (p.lift : Prog (S.extend R A) α).Asks ok ans := by
  induction p with
  | pure a => trivial
  | throw => trivial
  | act a k ih => exact fun r => ih r (hp r)
  | ask q k ih => exact ⟨hp.1, ih none hp.2.1, fun r hr => ih (some r) (hp.2.2 r hr)⟩

end Extend

end Atradio.Lib
