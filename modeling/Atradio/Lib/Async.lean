import Mathlib.Data.List.Basic

/-! # Asynchronous programs

A program of a single-threaded runtime: synchronous effects, awaited requests that
are answered or fail, exceptions. A pool runs any number of programs over one shared
state: between two awaits a program is not interrupted, and requests are answered in any
order.

A program is judged by the traces of its paths (`Path`). `Yields sel p l` says that the
entries which `sel` selects from a path of `p` are a prefix of `l`, and all of `l` once `p`
has returned. -/

namespace Atradio.Lib

/-- Synchronous effects and awaited requests, with the type of what each gives back. -/
structure Sig where
  Act : Type
  Res : Act → Type
  Req : Type
  Ans : Req → Type

variable {S : Sig} {α β γ : Type}

/-- `ask` awaits an answer; `none` is the rejection of the promise. -/
inductive Prog (S : Sig) (α : Type) where
  | pure (a : α)
  | throw
  | act (a : S.Act) (k : S.Res a → Prog S α)
  | ask (q : S.Req) (k : Option (S.Ans q) → Prog S α)

namespace Prog

def bind (p : Prog S α) (f : α → Prog S β) : Prog S β :=
  match p with
  | .pure a => f a
  | .throw => .throw
  | .act a k => .act a fun r => (k r).bind f
  | .ask q k => .ask q fun r => (k r).bind f

instance : Monad (Prog S) where
  pure := Prog.pure
  bind := Prog.bind

/-- `try { p } catch { h }` -/
def tryCatch (p h : Prog S α) : Prog S α :=
  match p with
  | .pure a => .pure a
  | .throw => h
  | .act a k => .act a fun r => (k r).tryCatch h
  | .ask q k => .ask q fun r => (k r).tryCatch h

def perform (a : S.Act) : Prog S (S.Res a) := .act a .pure

/-- `await` of a request; a rejection is thrown. -/
def await (q : S.Req) : Prog S (S.Ans q) :=
  .ask q fun
    | some r => .pure r
    | none => .throw

@[simp] theorem pure_eq (a : α) : (Pure.pure a : Prog S α) = .pure a := rfl

@[simp] theorem bind_eq (p : Prog S α) (f : α → Prog S β) : (p >>= f) = p.bind f := rfl

@[simp] theorem bind_pure_left (a : α) (f : α → Prog S β) : (Prog.pure a).bind f = f a := rfl

@[simp] theorem bind_throw (f : α → Prog S β) : (Prog.throw : Prog S α).bind f = .throw := rfl

end Prog

/-! ### Paths -/

/-- What a program did, or what came of a request of it. -/
inductive Entry (S : Sig) where
  | did (a : S.Act) (r : S.Res a)
  | got (q : S.Req) (r : S.Ans q)
  | failed (q : S.Req)

def Entry.answer (q : S.Req) : Option (S.Ans q) → Entry S
  | some r => .got q r
  | none => .failed q

/-- `Path p l q`: with the entries `l`, the program `p` becomes `q`. -/
inductive Path : Prog S α → List (Entry S) → Prog S α → Prop where
  | nil (p) : Path p [] p
  | act {a k r l q} : Path (k r) l q → Path (.act a k) (.did a r :: l) q
  | ask {x k r l q} : Path (k r) l q → Path (.ask x k) (.answer x r :: l) q

theorem Path.trans {p q r : Prog S α} {l m : List (Entry S)} (h : Path p l q) (h' : Path q m r) :
    Path p (l ++ m) r := by
  induction h with
  | nil => exact h'
  | act _ ih => exact .act (ih h')
  | ask _ ih => exact .ask (ih h')

theorem Path.of_bind {p : Prog S α} {f : α → Prog S β} {l : List (Entry S)} {q : Prog S β}
    (h : Path (p.bind f) l q) :
    (∃ p', Path p l p' ∧ q = p'.bind f) ∨
      ∃ l1 l2 a, l = l1 ++ l2 ∧ Path p l1 (.pure a) ∧ Path (f a) l2 q := by
  induction p generalizing l with
  | pure a => exact Or.inr ⟨[], l, a, rfl, .nil _, h⟩
  | throw =>
    cases h with
    | nil => exact Or.inl ⟨.throw, .nil _, rfl⟩
  | act a k ih =>
    cases h with
    | nil => exact Or.inl ⟨.act a k, .nil _, rfl⟩
    | act hk =>
      rcases ih _ hk with ⟨p', hp, rfl⟩ | ⟨l1, l2, b, rfl, h1, h2⟩
      · exact Or.inl ⟨p', .act hp, rfl⟩
      · exact Or.inr ⟨_ :: l1, l2, b, rfl, .act h1, h2⟩
  | ask x k ih =>
    cases h with
    | nil => exact Or.inl ⟨.ask x k, .nil _, rfl⟩
    | ask hk =>
      rcases ih _ hk with ⟨p', hp, rfl⟩ | ⟨l1, l2, b, rfl, h1, h2⟩
      · exact Or.inl ⟨p', .ask hp, rfl⟩
      · exact Or.inr ⟨_ :: l1, l2, b, rfl, .ask h1, h2⟩

theorem Path.of_tryCatch {p h : Prog S α} {l : List (Entry S)} {q : Prog S α}
    (hp : Path (p.tryCatch h) l q) :
    (∃ p', Path p l p' ∧ q = p'.tryCatch h) ∨
      ∃ l1 l2, l = l1 ++ l2 ∧ Path p l1 .throw ∧ Path h l2 q := by
  induction p generalizing l with
  | pure a =>
    cases hp with
    | nil => exact Or.inl ⟨.pure a, .nil _, rfl⟩
  | throw => exact Or.inr ⟨[], l, rfl, .nil _, hp⟩
  | act a k ih =>
    cases hp with
    | nil => exact Or.inl ⟨.act a k, .nil _, rfl⟩
    | act hk =>
      rcases ih _ hk with ⟨p', h1, rfl⟩ | ⟨l1, l2, rfl, h1, h2⟩
      · exact Or.inl ⟨p', .act h1, rfl⟩
      · exact Or.inr ⟨_ :: l1, l2, rfl, .act h1, h2⟩
  | ask x k ih =>
    cases hp with
    | nil => exact Or.inl ⟨.ask x k, .nil _, rfl⟩
    | ask hk =>
      rcases ih _ hk with ⟨p', h1, rfl⟩ | ⟨l1, l2, rfl, h1, h2⟩
      · exact Or.inl ⟨p', .ask h1, rfl⟩
      · exact Or.inr ⟨_ :: l1, l2, rfl, .ask h1, h2⟩

/-! ### What a program does on the way -/

/-- The selected entries of a path are those of `l` in order, all of them on return. -/
structure Yields (sel : Entry S → Option γ) (p : Prog S α) (l : List γ) : Prop where
  along : ∀ tr q, Path p tr q → tr.filterMap sel <+: l
  onReturn : ∀ tr a, Path p tr (.pure a) → tr.filterMap sel = l

section Yields

variable {sel : Entry S → Option γ}

theorem yields_pure (a : α) : Yields sel (.pure a) [] := by
  refine ⟨fun tr q h => ?_, fun tr b h => ?_⟩
  · cases h
    exact List.nil_prefix
  · cases h
    rfl

theorem yields_throw (l : List γ) : Yields sel (.throw : Prog S α) l := by
  refine ⟨fun tr q h => ?_, fun tr b h => ?_⟩
  · cases h
    exact List.nil_prefix
  · cases h

theorem Yields.bind {p : Prog S α} {f : α → Prog S β} {l m : List γ} (hp : Yields sel p l)
    (hf : ∀ a, Yields sel (f a) m) : Yields sel (p.bind f) (l ++ m) := by
  refine ⟨fun tr q h => ?_, fun tr b h => ?_⟩
  · rcases h.of_bind with ⟨p', hp', rfl⟩ | ⟨l1, l2, a, rfl, h1, h2⟩
    · exact (hp.along tr p' hp').trans (List.prefix_append l m)
    · rw [List.filterMap_append, hp.onReturn l1 a h1]
      exact (List.prefix_append_right_inj l).2 ((hf a).along l2 q h2)
  · rcases h.of_bind with ⟨p', hp', hq⟩ | ⟨l1, l2, a, rfl, h1, h2⟩
    · cases p' with
      | pure a =>
        have hnil := (hf a).onReturn [] b (hq ▸ .nil _)
        rw [hp.onReturn tr a hp', ← hnil]
        exact (List.append_nil l).symm
      | _ => cases hq
    · rw [List.filterMap_append, hp.onReturn l1 a h1, (hf a).onReturn l2 b h2]

theorem Yields.after {p : Prog S α} {f : α → Prog S β} {l : List γ} (hp : Yields sel p [])
    (hf : ∀ a, Yields sel (f a) l) : Yields sel (p.bind f) l := hp.bind hf

theorem yields_perform {a : S.Act} {l : List γ} (h : ∀ r, (sel (.did a r)).toList = l) :
    Yields sel (Prog.perform a) l := by
  have hone : ∀ r, [Entry.did a r].filterMap sel = l := by
    intro r
    rw [← h r, List.filterMap_cons]
    cases sel (.did a r) <;> rfl
  refine ⟨fun tr q hp => ?_, fun tr b hp => ?_⟩
  · cases hp with
    | nil => exact List.nil_prefix
    | act hk =>
      cases hk
      exact hone _ ▸ List.prefix_refl l
  · cases hp with
    | act hk =>
      cases hk
      exact hone _

theorem yields_await {x : S.Req} {l : List γ} (h : ∀ r, (sel (.got x r)).toList = l)
    (hfail : sel (.failed x) = none) : Yields sel (Prog.await x) l := by
  have hone : ∀ r, [Entry.got x r].filterMap sel = l := by
    intro r
    rw [← h r, List.filterMap_cons]
    cases sel (.got x r) <;> rfl
  refine ⟨fun tr q hp => ?_, fun tr b hp => ?_⟩
  · cases hp with
    | nil => exact List.nil_prefix
    | @ask _ _ r tr' _ hk =>
      cases r with
      | none =>
        cases hk
        simp [Entry.answer, hfail]
      | some r =>
        cases hk
        exact hone r ▸ List.prefix_refl l
  · cases hp with
    | @ask _ _ r tr' _ hk =>
      cases r with
      | none => cases hk
      | some r =>
        cases hk
        exact hone _

/-- A handler that selects nothing, as far as the paths before the exception go. -/
theorem Yields.tryCatch_along {p h : Prog S α} {l : List γ} (hp : Yields sel p l)
    (hh : Yields sel h []) {tr : List (Entry S)} {q : Prog S α} (hpath : Path (p.tryCatch h) tr q) :
    tr.filterMap sel <+: l := by
  rcases hpath.of_tryCatch with ⟨p', hp', rfl⟩ | ⟨l1, l2, rfl, h1, h2⟩
  · exact hp.along tr p' hp'
  · rw [List.filterMap_append, List.prefix_nil.1 (hh.along l2 q h2), List.append_nil]
    exact hp.along l1 .throw h1

theorem Yields.tryCatch_silent {p h : Prog S α} (hp : Yields sel p []) (hh : Yields sel h []) :
    Yields sel (p.tryCatch h) [] :=
  ⟨fun _ _ hpath => hp.tryCatch_along hh hpath,
    fun _ _ hpath => List.prefix_nil.1 (hp.tryCatch_along hh hpath)⟩

end Yields

/-! ### Running to completion -/

/-- How effects and requests act on the shared state; `χ` is what the environment decides. -/
structure Machine (S : Sig) (χ σ : Type) where
  act : χ → (a : S.Act) → σ → S.Res a × σ
  serve : χ → (q : S.Req) → σ → Option (S.Ans q) × σ

variable {χ σ : Type}

/-- Run a program on its own. `ω` is what the environment decides at each of its steps; the
result is `none` after an exception. -/
def Prog.eval (M : Machine S χ σ) (ω : ℕ → χ) : Prog S α → ℕ → σ → Option α × ℕ × σ
  | .pure a, n, s => (some a, n, s)
  | .throw, n, s => (none, n, s)
  | .act a k, n, s => (k (M.act (ω n) a s).1).eval M ω (n + 1) (M.act (ω n) a s).2
  | .ask q k, n, s => (k (M.serve (ω n) q s).1).eval M ω (n + 1) (M.serve (ω n) q s).2

/-- A part `f` of the state changes with the entries, as `eff` says. -/
structure Follows (M : Machine S χ σ) {X : Type} (f : σ → X) (eff : Entry S → X → X) : Prop where
  act : ∀ c a s, f (M.act c a s).2 = eff (.did a (M.act c a s).1) (f s)
  serve : ∀ c q s, f (M.serve c q s).2 = eff (.answer q (M.serve c q s).1) (f s)

/-- A program that has run on its own has gone a path, and the state has followed it. -/
theorem Follows.eval {M : Machine S χ σ} {X : Type} {f : σ → X} {eff : Entry S → X → X}
    (hf : Follows M f eff) (ω : ℕ → χ) (p : Prog S α) (n : ℕ) (s : σ) :
    ∃ tr, (∀ a, (p.eval M ω n s).1 = some a → Path p tr (.pure a)) ∧
      f (p.eval M ω n s).2.2 = tr.foldl (fun x e => eff e x) (f s) := by
  induction p generalizing n s with
  | pure a =>
    refine ⟨[], fun b hb => ?_, rfl⟩
    obtain rfl := Option.some.inj hb
    exact .nil _
  | throw =>
    refine ⟨[], fun b hb => ?_, rfl⟩
    cases hb
  | act a k ih =>
    obtain ⟨tr, hpath, hend⟩ := ih (M.act (ω n) a s).1 (n + 1) (M.act (ω n) a s).2
    refine ⟨.did a (M.act (ω n) a s).1 :: tr, fun b hb => .act (hpath b hb), ?_⟩
    rw [Prog.eval, hend, hf.act, List.foldl_cons]
  | ask q k ih =>
    obtain ⟨tr, hpath, hend⟩ := ih (M.serve (ω n) q s).1 (n + 1) (M.serve (ω n) q s).2
    refine ⟨.answer q (M.serve (ω n) q s).1 :: tr, fun b hb => .ask (hpath b hb), ?_⟩
    rw [Prog.eval, hend, hf.serve, List.foldl_cons]

/-- `Q` holds of the result and the state in which the program ends when it runs on its
own and the environment decides as `G` says. -/
def Prog.wp (M : Machine S χ σ) (G : χ → Prop) : Prog S α → (Option α → σ → Prop) → σ → Prop
  | .pure a, Q, s => Q (some a) s
  | .throw, Q, s => Q none s
  | .act a k, Q, s => ∀ c, G c → (k (M.act c a s).1).wp M G Q (M.act c a s).2
  | .ask q k, Q, s => ∀ c, G c → (k (M.serve c q s).1).wp M G Q (M.serve c q s).2

section Wp

variable {M : Machine S χ σ} {G : χ → Prop}

theorem Prog.wp_eval {ω : ℕ → χ} (hω : ∀ n, G (ω n)) {Q : Option α → σ → Prop} {p : Prog S α}
    {n : ℕ} {s : σ} (h : p.wp M G Q s) : Q (p.eval M ω n s).1 (p.eval M ω n s).2.2 := by
  induction p generalizing n s with
  | pure a => exact h
  | throw => exact h
  | act a k ih => exact ih _ (h (ω n) (hω n))
  | ask q k ih => exact ih _ (h (ω n) (hω n))

theorem Prog.wp_mono {Q R : Option α → σ → Prop} (hQ : ∀ o s, Q o s → R o s) {p : Prog S α} {s : σ}
    (h : p.wp M G Q s) : p.wp M G R s := by
  induction p generalizing s with
  | pure a => exact hQ _ _ h
  | throw => exact hQ _ _ h
  | act a k ih => exact fun c hc => ih _ (h c hc)
  | ask q k ih => exact fun c hc => ih _ (h c hc)

theorem Prog.wp_bind {Q : Option β → σ → Prop} {p : Prog S α} {f : α → Prog S β} {s : σ}
    (h : p.wp M G (fun o s' => match o with
      | some a => (f a).wp M G Q s'
      | none => Q none s') s) : (p.bind f).wp M G Q s := by
  induction p generalizing s with
  | pure a => exact h
  | throw => exact h
  | act a k ih => exact fun c hc => ih _ (h c hc)
  | ask q k ih => exact fun c hc => ih _ (h c hc)

theorem Prog.wp_await {q : S.Req} {Q : Option (S.Ans q) → σ → Prop} {s : σ}
    (h : ∀ c, G c → Q (M.serve c q s).1 (M.serve c q s).2) : (Prog.await q).wp M G Q s := by
  intro c hc
  have hq := h c hc
  cases hr : (M.serve c q s).1 with
  | none =>
    rw [hr] at hq
    exact hq
  | some r =>
    rw [hr] at hq
    exact hq

/-- On its own, the program runs to its end without an exception and leaves `f` of the state
as it is. -/
def Prog.Runs (M : Machine S χ σ) (G : χ → Prop) {X : Type} (f : σ → X) (p : Prog S α) : Prop :=
  ∀ s, p.wp M G (fun o s' => o.isSome ∧ f s' = f s) s

variable {X : Type} {f : σ → X}

theorem runs_pure (a : α) : (Prog.pure a : Prog S α).Runs M G f := fun _ => ⟨rfl, rfl⟩

theorem runs_perform {a : S.Act} (h : ∀ c s, G c → f (M.act c a s).2 = f s) :
    (Prog.perform a).Runs M G f := fun s c hc => ⟨rfl, h c s hc⟩

theorem runs_await {q : S.Req}
    (h : ∀ c s, G c → (M.serve c q s).1.isSome ∧ f (M.serve c q s).2 = f s) :
    (Prog.await q).Runs M G f := fun s => Prog.wp_await fun c hc => h c s hc

theorem Prog.Runs.wp_bind {p : Prog S α} {k : α → Prog S β} (hp : p.Runs M G f)
    {Q : Option β → σ → Prop} {s : σ} (hk : ∀ a s', f s' = f s → (k a).wp M G Q s') :
    (p.bind k).wp M G Q s := by
  refine Prog.wp_bind (Prog.wp_mono (fun o s' h => ?_) (hp s))
  cases o with
  | none => cases h.1
  | some a => exact hk a s' h.2

theorem Prog.Runs.bind {p : Prog S α} {k : α → Prog S β} (hp : p.Runs M G f)
    (hk : ∀ a, (k a).Runs M G f) : (p.bind k).Runs M G f := by
  intro s
  refine hp.wp_bind fun a s' hs' => ?_
  rw [← hs']
  exact hk a s'

theorem Prog.Runs.eval {p : Prog S α} (hp : p.Runs M G f) {ω : ℕ → χ} (hω : ∀ n, G (ω n)) (n : ℕ)
    (s : σ) : (p.eval M ω n s).1.isSome ∧ f (p.eval M ω n s).2.2 = f s := Prog.wp_eval hω (hp s)

end Wp

/-! ### The pool -/

def Prog.sync (M : Machine S χ σ) (c : χ) : Prog S α → σ → List (Entry S) × Prog S α × σ
  | .act a k, s =>
    let r := M.act c a s
    let rest := (k r.1).sync M c r.2
    (.did a r.1 :: rest.1, rest.2)
  | p, s => ([], p, s)

theorem Prog.sync_path (M : Machine S χ σ) (c : χ) (p : Prog S α) (s : σ) :
    Path p (p.sync M c s).1 (p.sync M c s).2.1 := by
  induction p generalizing s with
  | act a k ih => exact .act (ih _ _)
  | _ => exact .nil _

theorem Prog.sync_did (M : Machine S χ σ) (c : χ) (p : Prog S α) (s : σ) :
    ∀ e ∈ (p.sync M c s).1, ∃ a r, e = .did a r := by
  induction p generalizing s with
  | act a k ih =>
    intro e he
    rcases List.mem_cons.1 he with rfl | he
    · exact ⟨a, _, rfl⟩
    · exact ih _ _ e he
  | _ => exact fun e he => by cases he

/-- Programs that run concurrently, numbered from zero in the order of their start, each
with the job it was started for. The log has every entry with the program it belongs to. -/
structure Pool (S : Sig) (J σ : Type) where
  state : σ
  tasks : List (J × Prog S Unit) := []
  log : List (ℕ × Entry S) := []

/-- A program is started, the request it awaits is answered, or it goes on. -/
inductive Turn (J χ : Type) where
  | start (job : J) (c : χ)
  | answer (task : ℕ) (c : χ)
  | resume (task : ℕ) (c : χ)

namespace Pool

variable {J : Type}

def logOf (P : Pool S J σ) (t : ℕ) : List (Entry S) :=
  P.log.filterMap fun e => if e.1 = t then some e.2 else none

def tag (t : ℕ) (l : List (Entry S)) : List (ℕ × Entry S) := l.map fun e => (t, e)

def step (M : Machine S χ σ) (main : J → Prog S Unit) (P : Pool S J σ) :
    Turn J χ → Pool S J σ
  | .start j c =>
    let r := (main j).sync M c P.state
    { state := r.2.2, tasks := P.tasks ++ [(j, r.2.1)], log := P.log ++ tag P.tasks.length r.1 }
  | .answer t c =>
    match P.tasks[t]? with
    | some (j, .ask q k) =>
      let r := M.serve c q P.state
      { state := r.2, tasks := P.tasks.set t (j, k r.1), log := P.log ++ [(t, .answer q r.1)] }
    | _ => P
  | .resume t c =>
    match P.tasks[t]? with
    | some (j, p) =>
      let r := p.sync M c P.state
      { state := r.2.2, tasks := P.tasks.set t (j, r.2.1), log := P.log ++ tag t r.1 }
    | none => P

/-- The state `P'` comes from `P` by an advance of one program, old or new, with the
entries `l`. -/
inductive Advance (M : Machine S χ σ) (main : J → Prog S Unit) (c : χ) (P : Pool S J σ) :
    ℕ → List (Entry S) → Pool S J σ → Prop where
  | started (j) : Advance M main c P P.tasks.length ((main j).sync M c P.state).1
      { state := ((main j).sync M c P.state).2.2
        tasks := P.tasks ++ [(j, ((main j).sync M c P.state).2.1)]
        log := P.log ++ tag P.tasks.length ((main j).sync M c P.state).1 }
  | answered {t j x k} (h : P.tasks[t]? = some (j, .ask x k)) :
      Advance M main c P t [.answer x (M.serve c x P.state).1]
        { state := (M.serve c x P.state).2
          tasks := P.tasks.set t (j, k (M.serve c x P.state).1)
          log := P.log ++ tag t [.answer x (M.serve c x P.state).1] }
  | resumed {t j p} (h : P.tasks[t]? = some (j, p)) :
      Advance M main c P t (p.sync M c P.state).1
        { state := (p.sync M c P.state).2.2
          tasks := P.tasks.set t (j, (p.sync M c P.state).2.1)
          log := P.log ++ tag t (p.sync M c P.state).1 }

theorem step_cases (M : Machine S χ σ) (main : J → Prog S Unit) (P : Pool S J σ)
    (e : Turn J χ) : step M main P e = P ∨ ∃ c t l, Advance M main c P t l (step M main P e) := by
  cases e with
  | start j c => exact Or.inr ⟨c, _, _, .started j⟩
  | answer t c =>
    dsimp only [step]
    split
    · rename_i j x k h
      exact Or.inr ⟨c, t, _, .answered h⟩
    · exact Or.inl rfl
  | resume t c =>
    dsimp only [step]
    split
    · rename_i j p h
      exact Or.inr ⟨c, t, _, .resumed h⟩
    · exact Or.inl rfl

variable {M : Machine S χ σ} {main : J → Prog S Unit}

theorem Advance.log {c : χ} {P P' : Pool S J σ} {t : ℕ} {l : List (Entry S)}
    (h : Advance M main c P t l P') : P'.log = P.log ++ tag t l := by
  cases h <;> rfl

theorem Advance.job {c : χ} {P P' : Pool S J σ} {t : ℕ} {l : List (Entry S)}
    (h : Advance M main c P t l P') {u : ℕ} {j : J} {p : Prog S Unit}
    (hu : P.tasks[u]? = some (j, p)) : ∃ p', P'.tasks[u]? = some (j, p') := by
  have hset : ∀ {t j' q p0}, P.tasks[t]? = some (j', p0) →
      ∃ p', (P.tasks.set t (j', q))[u]? = some (j, p') := by
    intro t j' q p0 ht
    by_cases hut : t = u
    · subst hut
      rw [ht] at hu
      obtain ⟨rfl, rfl⟩ := Prod.mk.inj (Option.some.inj hu)
      exact ⟨q, by rw [List.getElem?_set_self (List.getElem?_eq_some_iff.1 ht).1]⟩
    · exact ⟨p, by rw [List.getElem?_set_ne hut, hu]⟩
  cases h with
  | started j' =>
    exact ⟨p, by rw [List.getElem?_append_left (List.getElem?_eq_some_iff.1 hu).1, hu]⟩
  | answered ht => exact hset ht
  | resumed ht => exact hset ht

/-- Every program is where its own entries lead. -/
structure Traced (main : J → Prog S Unit) (P : Pool S J σ) : Prop where
  path : ∀ t j p, P.tasks[t]? = some (j, p) → Path (main j) (P.logOf t) p
  known : ∀ e ∈ P.log, e.1 < P.tasks.length

theorem filterMap_tag (t u : ℕ) (l : List (Entry S)) :
    (tag u l).filterMap (fun e => if e.1 = t then some e.2 else none) = if u = t then l else [] := by
  unfold tag
  rw [List.filterMap_map]
  by_cases h : u = t
  · simp [h]
  · simp [h]

theorem Advance.logOf {c : χ} {P P' : Pool S J σ} {t : ℕ} {l : List (Entry S)}
    (h : Advance M main c P t l P') (u : ℕ) :
    P'.logOf u = P.logOf u ++ if t = u then l else [] := by
  unfold Pool.logOf
  rw [h.log, List.filterMap_append, filterMap_tag]

theorem Traced.unknown {P : Pool S J σ} (h : Traced main P) {t : ℕ} (ht : P.tasks.length ≤ t) :
    P.logOf t = [] := by
  unfold Pool.logOf
  rw [List.filterMap_eq_nil_iff]
  intro e he
  have hlt := h.known e he
  rw [if_neg (by omega)]

theorem Advance.traced {c : χ} {P P' : Pool S J σ} {t : ℕ} {l : List (Entry S)}
    (ha : Advance M main c P t l P') (h : Traced main P) : Traced main P' := by
  have hset : ∀ {t j p q l}, P.tasks[t]? = some (j, p) → Path p l q →
      ∀ u i r, (P.tasks.set t (j, q))[u]? = some (i, r) →
        Path (main i) (P.logOf u ++ if t = u then l else []) r := by
    intro t j p q l ht hpq u i r hu
    by_cases htu : t = u
    · subst htu
      rw [List.getElem?_set_self (List.getElem?_eq_some_iff.1 ht).1] at hu
      obtain ⟨rfl, rfl⟩ := Prod.mk.inj (Option.some.inj hu)
      rw [if_pos rfl]
      exact (h.path t j p ht).trans hpq
    · rw [List.getElem?_set_ne htu] at hu
      rw [if_neg htu, List.append_nil]
      exact h.path u i r hu
  have hknown : ∀ {t l}, t < P.tasks.length → ∀ e ∈ P.log ++ tag t l, e.1 < P.tasks.length := by
    intro t l ht e he
    rcases List.mem_append.1 he with he | he
    · exact h.known e he
    · obtain ⟨_, _, rfl⟩ := List.mem_map.1 he
      exact ht
  refine ⟨fun u i r hu => ?_, fun e he => ?_⟩
  · rw [ha.logOf]
    cases ha with
    | started j =>
      rcases Nat.lt_trichotomy u P.tasks.length with hlt | heq | hgt
      · rw [List.getElem?_append_left hlt] at hu
        rw [if_neg (by omega), List.append_nil]
        exact h.path u i r hu
      · subst heq
        rw [List.getElem?_concat_length] at hu
        obtain ⟨rfl, rfl⟩ := Prod.mk.inj (Option.some.inj hu)
        rw [h.unknown (Nat.le_refl _), if_pos rfl, List.nil_append]
        exact (main j).sync_path M c P.state
      · rw [List.getElem?_eq_none (by simp; omega)] at hu
        cases hu
    | answered ht => exact hset ht (.ask (.nil _)) u i r hu
    | resumed ht => exact hset ht (Prog.sync_path M c _ _) u i r hu
  · cases ha with
    | started j =>
      rcases List.mem_append.1 he with he | he
      · have hlt := h.known e he
        simp only [List.length_append, List.length_singleton]
        omega
      · obtain ⟨_, _, rfl⟩ := List.mem_map.1 he
        simp
    | answered ht =>
      simpa using hknown (List.getElem?_eq_some_iff.1 ht).1 e he
    | resumed ht =>
      simpa using hknown (List.getElem?_eq_some_iff.1 ht).1 e he

theorem Traced.step {P : Pool S J σ} (h : Traced main P) (e : Turn J χ) :
    Traced main (step M main P e) := by
  rcases step_cases M main P e with heq | ⟨c, t, l, ha⟩
  · rw [heq]
    exact h
  · exact ha.traced h

theorem traced_init (s : σ) : Traced main ({ state := s } : Pool S J σ) := by
  refine ⟨fun t j p h => ?_, fun e he => ?_⟩
  · simp at h
  · cases he

theorem sync_follows {X : Type} {f : σ → X} {eff : Entry S → X → X} (hf : Follows M f eff)
    (c : χ) (p : Prog S α) (s : σ) :
    f (p.sync M c s).2.2 = (p.sync M c s).1.foldl (fun x e => eff e x) (f s) := by
  induction p generalizing s with
  | act a k ih =>
    rw [Prog.sync]
    dsimp only
    rw [ih, List.foldl_cons, hf.act]
  | _ => rfl

/-- The part of the state is what the log makes of it. -/
theorem Advance.follows {X : Type} {f : σ → X} {eff : Entry S → X → X} (hf : Follows M f eff)
    {c : χ} {P P' : Pool S J σ} {t : ℕ} {l : List (Entry S)} (ha : Advance M main c P t l P') :
    f P'.state = l.foldl (fun x e => eff e x) (f P.state) := by
  cases ha with
  | started j => exact sync_follows hf c _ _
  | answered ht => exact hf.serve c _ _
  | resumed ht => exact sync_follows hf c _ _

theorem step_follows {X : Type} {f : σ → X} {eff : Entry S → X → X} (hf : Follows M f eff) {x : X}
    {P : Pool S J σ} (h : f P.state = P.log.foldl (fun x e => eff e.2 x) x) (e : Turn J χ) :
    f (step M main P e).state = (step M main P e).log.foldl (fun x e => eff e.2 x) x := by
  rcases step_cases M main P e with heq | ⟨c, t, l, ha⟩
  · rw [heq]
    exact h
  · rw [ha.follows hf, ha.log, List.foldl_append, h, tag, List.foldl_map]

end Pool

end Atradio.Lib
