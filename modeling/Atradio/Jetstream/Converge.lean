import Atradio.Jetstream.Cursor
import Atradio.Jetstream.Sequential

/-! # Convergence of a record

Several hosts deliver the commits of a record, and their handlers run concurrently. The
row of the record is what the executed statements make of it, in the order of their
execution. -/

namespace Atradio.Jetstream
open Atradio.Lib

/-! ### Statements in the order of deliveries -/

section Ordered

variable {γ : Type}

/-- A statement comes after those of the deliveries of other commits that were earlier.
`number t` is the commit that delivery `t` has a statement for. -/
def Ordered (number : ℕ → Option ℕ) (l : List (ℕ × γ)) : Prop :=
  ∀ pre t y post, l = pre ++ (t, y) :: post → ∀ n, number t = some n →
    ∀ t' < t, ∀ n', number t' = some n' → n' ≠ n → ∃ y', (t', y') ∈ pre

variable {number : ℕ → Option ℕ} {l : List (ℕ × γ)}

theorem Ordered.append_one (h : Ordered number l) {t : ℕ} {y : γ}
    (ht : ∀ n, number t = some n → ∀ t' < t, ∀ n', number t' = some n' → n' ≠ n →
      ∃ y', (t', y') ∈ l) : Ordered number (l ++ [(t, y)]) := by
  intro pre u x post hl
  cases post using List.reverseRecOn with
  | nil =>
    obtain ⟨rfl, hx⟩ := List.append_inj' hl rfl
    obtain ⟨rfl, rfl⟩ := Prod.mk.inj (List.cons.inj hx).1
    exact ht
  | append_singleton post z =>
    rw [← List.cons_append, ← List.append_assoc] at hl
    exact h pre u x post (List.append_inj' hl rfl).1

theorem Ordered.mem_post (h : Ordered number l) (hnodup : (l.map Prod.fst).Nodup)
    {pre post : List (ℕ × γ)} {t t' n n' : ℕ} {y y' : γ} (hl : l = pre ++ (t, y) :: post)
    (hlt : t < t') (hn : number t = some n) (hn' : number t' = some n') (hne : n ≠ n')
    (hmem : (t', y') ∈ l) : (t', y') ∈ post := by
  have hmem' := hmem
  rw [hl] at hmem'
  rcases List.mem_append.1 hmem' with hpre | hrest
  · -- then the earlier delivery would have two statements
    obtain ⟨a, b, rfl⟩ := List.append_of_mem hpre
    have hsplit : l = a ++ (t', y') :: (b ++ (t, y) :: post) := by
      rw [hl, List.append_assoc, List.cons_append]
    obtain ⟨x, hx⟩ := h _ _ _ _ hsplit n' hn' t hlt n hn hne
    rw [hsplit, List.map_append, List.nodup_append] at hnodup
    refine (hnodup.2.2 t (List.mem_map_of_mem hx) t ?_ rfl).elim
    simp
  · rcases List.mem_cons.1 hrest with heq | hpost
    · cases heq
      exact (Nat.lt_irrefl _ hlt).elim
    · exact hpost

end Ordered

/-! ### The statements on a row -/

variable (parseDate : String → Option ℤ) (k : TableName × String)

def onRow (ch : (TableName × String) × Change) : Option Change :=
  if ch.1 = k then some ch.2 else none

def rowSel (e : Entry jetstream) : Option Change := (mirrorSel e).bind (onRow k)

/-- The statements on the row that have been executed, each with its task. -/
def Process.changes (P : Process) : List (ℕ × Change) :=
  P.log.filterMap fun e => (rowSel k e.2).map fun ch => (e.1, ch)

def Job.change : Job → Option Change
  | .message _ _ evt => if evt.kind = .commit then (changeOf parseDate evt).bind (onRow k) else none
  | _ => none

def Job.number (j : Job) : Option ℕ :=
  match j with
  | .message _ n _ => (j.change parseDate k).map fun _ => n
  | _ => none

def Process.number (P : Process) (t : ℕ) : Option ℕ :=
  (P.tasks[t]?).bind fun x => x.1.number parseDate k

/-- A statement on the row is executed only after those of all deliveries of other commits
that were earlier. -/
def InOrder (P : Process) : Turn Job Choice → Prop
  | .answer t _ => ∀ j q cont, P.tasks[t]? = some (j, .ask q cont) → q.change.map Prod.fst = some k →
      ∀ n, P.number parseDate k t = some n → ∀ t' < t, ∀ n', P.number parseDate k t' = some n' →
        n' ≠ n → ∃ ch, (t', ch) ∈ P.changes k
  | _ => True

variable {parseDate k}

theorem entryEffect_eq (e : Entry jetstream) (o : Option Row) :
    entryEffect k e o = match rowSel k e with
      | some ch => ch.apply o
      | none => o := by
  cases e with
  | got q r =>
    simp only [entryEffect, rowSel, mirrorSel, effectAt]
    cases Req.change q with
    | none => rfl
    | some ch =>
      obtain ⟨k', c⟩ := ch
      by_cases hk : k' = k <;> simp [onRow, hk]
  | _ => rfl

theorem foldl_changes (l : List (ℕ × Entry jetstream)) (o : Option Row) :
    l.foldl (fun x e => entryEffect k e.2 x) o =
      (l.filterMap fun e => (rowSel k e.2).map fun ch => (e.1, ch)).foldl
        (fun x ch => ch.2.apply x) o := by
  induction l generalizing o with
  | nil => rfl
  | cons e l ih =>
    rw [List.foldl_cons, ih, entryEffect_eq, List.filterMap_cons]
    cases rowSel k e.2 <;> rfl

theorem run_changes (w : World) (es : List (Turn Job Choice)) :
    (run (Process.step parseDate) (Process.init w) es).state.db.row k.1 k.2 =
      ((run (Process.step parseDate) (Process.init w) es).changes k).foldl
        (fun x ch => ch.2.apply x) (w.db.row k.1 k.2) := by
  have hinv : (run (Process.step parseDate) (Process.init w) es).state.db.row k.1 k.2 =
      (run (Process.step parseDate) (Process.init w) es).log.foldl
        (fun x e => entryEffect k e.2 x) (w.db.row k.1 k.2) :=
    run_kept (I := fun P : Process => P.state.db.row k.1 k.2 =
        P.log.foldl (fun x e => entryEffect k e.2 x) (w.db.row k.1 k.2))
      (fun _ e h => Pool.step_follows (row_follows k.1 k.2) h e) rfl es
  rw [hinv]
  exact foldl_changes _ _

theorem rowSel_indexing (evt : JetstreamEvent) : OfIndexing (rowSel k) evt := by
  have hn : Narrow (rowSel k) := ⟨fun _ _ _ => rfl, fun q r hq => by
    change (Req.change q).bind (onRow k) = none
    rw [hq]
    rfl, fun _ => rfl⟩
  exact ⟨fun _ _ => rfl, fun _ => rfl, hn.forward (fun _ _ => rfl) (fun _ _ _ => rfl) evt⟩

theorem processCommit_change (evt : JetstreamEvent) :
    Yields (rowSel k) (processCommit parseDate evt) ((changeOf parseDate evt).bind (onRow k)).toList := by
  have hw : Watches (rowSel k) (onRow k) none :=
    ⟨fun _ _ _ => rfl, fun _ _ _ => rfl, fun _ _ => rfl, fun _ => rfl⟩
  have h := processCommit_watched parseDate hw evt
  rw [Option.toList_none, Bool.cond_self, List.append_nil] at h
  exact h

theorem silent_change {p : Task} (hp : Yields (rowSel k) p []) {l : List (Entry jetstream)} {q : Task}
    (h : Path p l q) : l.filterMap (rowSel k) = [] := List.prefix_nil.1 (hp.along l q h)

/-- A task executes its job's statement at most once. -/
theorem task_changes {j : Job} {l : List (Entry jetstream)} {p : Task}
    (h : Path (main parseDate j) l p) :
    l.filterMap (rowSel k) <+: (j.change parseDate k).toList := by
  have hact : ∀ a : Act, Yields (rowSel k) (perform a) [] := fun a => yields_perform fun _ => rfl
  have hask : ∀ q : Req, q.change = none → Yields (rowSel k) (await q) [] := by
    intro q hq
    refine yields_await (fun r => ?_) rfl
    change ((Req.change q).bind (onRow k)).toList = []
    rw [hq]
    rfl
  cases j with
  | message host n evt =>
    simp only [Job.change]
    split
    · exact handler_along (rowSel_indexing evt) (processCommit_change evt) ‹_› h
    · rename_i hk
      have hsilent : Yields (rowSel k) (handleEvent parseDate evt) [] := by
        unfold handleEvent
        refine (hact _).after fun _ => ?_
        rw [if_neg hk]
        exact yields_pure _
      rw [silent_change hsilent h]
      exact List.nil_prefix
  | connect host =>
    have hsilent : Yields (rowSel k) (connect host) [] := (hact _).after fun _ => hact _
    rw [silent_change hsilent h]
    exact List.nil_prefix
  | load =>
    have hsilent : Yields (rowSel k) loadCursor [] := by
      refine (hask _ rfl).after fun row => ?_
      cases row with
      | none => exact yields_pure _
      | some row =>
        dsimp only
        split
        · exact hact _
        · exact yields_pure _
    rw [silent_change hsilent h]
    exact List.nil_prefix
  | tick =>
    have hpersist : Yields (rowSel k) persistCursor [] := by
      refine (hact _).after fun cursor => ?_
      split
      · exact yields_pure _
      · exact (hact _).after fun now => hask _ rfl
    rw [silent_change (hpersist.tryCatch_silent (yields_pure _)) h]
    exact List.nil_prefix

/-! ### The invariant of a run -/

theorem changes_of_task (P : Process) (t : ℕ) :
    (P.changes k).filterMap (fun x => if x.1 = t then some x.2 else none) =
      (P.logOf t).filterMap (rowSel k) := by
  unfold Process.changes Pool.logOf
  induction P.log with
  | nil => rfl
  | cons e l ih =>
    simp only [List.filterMap_cons]
    by_cases ht : e.1 = t
    · cases hsel : rowSel k e.2 <;> simp [ht, hsel, ih]
    · cases hsel : rowSel k e.2 <;> simp [ht, ih]

theorem mem_changes {P : Process} {t : ℕ} {ch : Change} :
    (t, ch) ∈ P.changes k ↔ ch ∈ (P.logOf t).filterMap (rowSel k) := by
  rw [← changes_of_task, List.mem_filterMap]
  constructor
  · intro h
    exact ⟨(t, ch), h, if_pos rfl⟩
  · rintro ⟨⟨t', ch'⟩, hmem, hif⟩
    split at hif
    · cases hif
      subst t
      exact hmem
    · cases hif

theorem change_of_mem {P : Process} (hP : Pool.Traced (main parseDate) P) {t : ℕ} {ch : Change}
    (h : (t, ch) ∈ P.changes k) :
    ∃ j p, P.tasks[t]? = some (j, p) ∧ j.change parseDate k = some ch := by
  rw [mem_changes] at h
  cases ht : P.tasks[t]? with
  | none =>
    have hlen : P.tasks.length ≤ t := by simpa using ht
    rw [hP.unknown hlen] at h
    cases h
  | some jp =>
    obtain ⟨j, p⟩ := jp
    have hmem := (task_changes (hP.path t j p ht)).subset h
    exact ⟨j, p, rfl, by simpa using hmem⟩

theorem changes_nodup {P : Process} (hP : Pool.Traced (main parseDate) P) :
    ((P.changes k).map Prod.fst).Nodup := by
  rw [List.nodup_iff_count_le_one]
  intro t
  have hcount : ((P.changes k).map Prod.fst).count t =
      ((P.changes k).filterMap fun x => if x.1 = t then some x.2 else none).length := by
    induction P.changes k with
    | nil => rfl
    | cons x l ih =>
      by_cases ht : x.1 = t
      · simp [ht, ih]
      · simp [ht, ih]
  rw [hcount, changes_of_task]
  cases ht : P.tasks[t]? with
  | none =>
    have hlen : P.tasks.length ≤ t := by simpa using ht
    rw [hP.unknown hlen]
    exact Nat.zero_le _
  | some jp =>
    refine (task_changes (hP.path t jp.1 jp.2 ht)).length_le.trans ?_
    cases jp.1.change parseDate k <;> simp

theorem number_stable {c : Choice} {P P' : Process} {u : ℕ} {l : List (Entry jetstream)}
    (ha : Pool.Advance machine (main parseDate) c P u l P') {t : ℕ} (ht : t < P.tasks.length) :
    P'.number parseDate k t = P.number parseDate k t := by
  obtain ⟨⟨j, p⟩, hj⟩ : ∃ x, P.tasks[t]? = some x := ⟨_, List.getElem?_eq_getElem ht⟩
  obtain ⟨p', hj'⟩ := ha.job hj
  unfold Process.number
  rw [hj, hj']
  rfl

theorem changes_advance {P P' : Process} {t : ℕ} {l : List (Entry jetstream)}
    (h : P'.log = P.log ++ Pool.tag t l) :
    P'.changes k = P.changes k ++ (l.filterMap (rowSel k)).map fun ch => (t, ch) := by
  unfold Process.changes
  rw [h, List.filterMap_append, Pool.tag, List.filterMap_map, List.map_filterMap]
  rfl

theorem changes_known {P : Process} (hP : Pool.Traced (main parseDate) P) {x : ℕ × Change}
    (hx : x ∈ P.changes k) : x.1 < P.tasks.length := by
  obtain ⟨e, he, hsel⟩ := List.mem_filterMap.1 hx
  obtain ⟨ch, _, rfl⟩ := Option.map_eq_some_iff.1 hsel
  exact hP.known e he

/-- The old statements, seen after the turn. -/
theorem ordered_advance {P P' : Process} (hP : Pool.Traced (main parseDate) P)
    (hord : Ordered (P.number parseDate k) (P.changes k)) {c : Choice} {t : ℕ}
    {l : List (Entry jetstream)} (ha : Pool.Advance machine (main parseDate) c P t l P') :
    Ordered (P'.number parseDate k) (P.changes k) := by
  intro pre u y post hl n hn u' hlt n' hn' hne
  have hu : u < P.tasks.length :=
    changes_known hP (hl ▸ List.mem_append_right _ (List.mem_cons_self ..) : (u, y) ∈ P.changes k)
  rw [number_stable ha hu] at hn
  rw [number_stable ha (hlt.trans hu)] at hn'
  exact hord pre u y post hl n hn u' hlt n' hn' hne

/-- Between two awaits no statement is executed. -/
theorem ordered_did {P P' : Process} (hP : Pool.Traced (main parseDate) P)
    (hord : Ordered (P.number parseDate k) (P.changes k)) {c : Choice} {t : ℕ}
    {l : List (Entry jetstream)} (ha : Pool.Advance machine (main parseDate) c P t l P')
    (hdid : ∀ e ∈ l, ∃ a r, e = .did a r) :
    Ordered (P'.number parseDate k) (P'.changes k) := by
  have hnone : l.filterMap (rowSel k) = [] := by
    rw [List.filterMap_eq_nil_iff]
    intro e he
    obtain ⟨a, r, rfl⟩ := hdid e he
    rfl
  rw [changes_advance ha.log, hnone, List.map_nil, List.append_nil]
  exact ordered_advance hP hord ha

theorem rowSel_answer {q : jetstream.Req} {r : jetstream.Ans q} {ch : Change}
    (h : rowSel k (Entry.answer q (some r)) = some ch) : q.change.map Prod.fst = some k := by
  obtain ⟨⟨k', ch'⟩, hq, hon⟩ := Option.bind_eq_some_iff.1 h
  have hq' : q.change = some (k', ch') := hq
  rw [hq']
  unfold onRow at hon
  split at hon
  · rename_i hk
    exact congrArg some hk
  · cases hon

theorem ordered_step {P : Process} (hP : Pool.Traced (main parseDate) P)
    (hord : Ordered (P.number parseDate k) (P.changes k)) {e : Turn Job Choice}
    (hin : InOrder parseDate k P e) :
    Ordered ((P.step parseDate e).number parseDate k) ((P.step parseDate e).changes k) := by
  have hstop (h : P.step parseDate e = P) :
      Ordered ((P.step parseDate e).number parseDate k) ((P.step parseDate e).changes k) := by
    rw [h]
    exact hord
  cases e with
  | start j c =>
    have ha : Pool.Advance machine (main parseDate) c P _ _ (P.step parseDate (.start j c)) :=
      .started j
    exact ordered_did hP hord ha (Prog.sync_did _ _ _ _)
  | resume t c =>
    cases ht : P.tasks[t]? with
    | none => exact hstop (by simp only [Process.step, Pool.step, ht])
    | some jp =>
      have ha : Pool.Advance machine (main parseDate) c P t (jp.2.sync machine c P.state).1
          (P.step parseDate (.resume t c)) := by
        simp only [Process.step, Pool.step, ht]
        exact .resumed ht
      exact ordered_did hP hord ha (Prog.sync_did _ _ _ _)
  | answer t c =>
    cases ht : P.tasks[t]? with
    | none => exact hstop (by simp only [Process.step, Pool.step, ht])
    | some jp =>
      obtain ⟨j, p⟩ := jp
      cases p with
      | ask q cont =>
        have ha : Pool.Advance machine (main parseDate) c P t
            [.answer q (machine.serve c q P.state).1] (P.step parseDate (.answer t c)) := by
          simp only [Process.step, Pool.step, ht]
          exact .answered ht
        have hlt : t < P.tasks.length := (List.getElem?_eq_some_iff.1 ht).1
        have hold := ordered_advance hP hord ha
        rw [changes_advance ha.log]
        cases hr : (machine.serve c q P.state).1 with
        | none =>
          rw [Entry.answer, List.filterMap_cons_none rfl, List.filterMap_nil, List.map_nil,
            List.append_nil]
          exact hold
        | some r =>
          cases hsel : rowSel k (Entry.answer q (some r)) with
          | none =>
            rw [List.filterMap_cons_none hsel, List.filterMap_nil, List.map_nil, List.append_nil]
            exact hold
          | some ch =>
            rw [List.filterMap_cons_some hsel, List.filterMap_nil, List.map_singleton]
            refine hold.append_one fun n hn t' hlt' n' hn' hne => ?_
            rw [number_stable ha hlt] at hn
            rw [number_stable ha (hlt'.trans hlt)] at hn'
            exact hin j q cont ht (rowSel_answer hsel) n hn t' hlt' n' hn' hne
      | _ => exact hstop (by simp only [Process.step, Pool.step, ht])

theorem run_ordered {w : World} {es : List (Turn Job Choice)}
    (h : AllSteps (Process.step parseDate) (InOrder parseDate k) (Process.init w) es) :
    Ordered ((run (Process.step parseDate) (Process.init w) es).number parseDate k)
      ((run (Process.step parseDate) (Process.init w) es).changes k) := by
  have hinv := run_invariant (I := fun P : Process => Pool.Traced (main parseDate) P ∧
      Ordered (P.number parseDate k) (P.changes k))
    (fun P e hI hin => ⟨hI.1.step e, ordered_step hI.1 hI.2 hin⟩)
    ⟨Pool.traced_init w, fun pre t y post hl => by cases pre <;> cases hl⟩ h
  exact hinv.2

/-! ### Histories -/

/-- Every host delivers the commits `H` of the record, in their order. -/
structure Delivers (table : TableName) (did : RepoDid) (rkey : String) (H : List Commit)
    (hosts : List String) (P : Process) : Prop where
  copy : ∀ (t : ℕ) host n evt p, P.tasks[t]? = some (Job.message host n evt, p) →
    (commitOn table did rkey evt).isSome → host ∈ hosts ∧ evt.kind = .commit ∧ H[n]? = evt.commit
  every : ∀ host ∈ hosts, ∀ n < H.length, ∃ (t : ℕ) (evt : JetstreamEvent) (p : Task),
    P.tasks[t]? = some (Job.message host n evt, p) ∧ (commitOn table did rkey evt).isSome
  order : ∀ host (t t' : ℕ) n n' evt evt' p p', P.tasks[t]? = some (Job.message host n evt, p) →
    (commitOn table did rkey evt).isSome → P.tasks[t']? = some (Job.message host n' evt', p') →
    (commitOn table did rkey evt').isSome → n < n' → t < t'

def finalRow (parseDate : String → Option ℤ) (table : TableName) (did : RepoDid) (rkey : String)
    (H : List Commit) : Option Row :=
  H.getLast?.bind fun c => if c.operation = .delete then none
    else image parseDate table did rkey (some c)

/-- The last commit is a delete, or has a row. -/
def Settles (parseDate : String → Option ℤ) (table : TableName) (did : RepoDid) (rkey : String)
    (H : List Commit) : Prop :=
  ∀ c ∈ H.getLast?, c.operation ≠ .delete → (image parseDate table did rkey (some c)).isSome

/-- The versions since the record was last deleted have the row of the last one. -/
def Unchanged (parseDate : String → Option ℤ) (table : TableName) (did : RepoDid) (rkey : String)
    (H : List Commit) : Prop :=
  ∀ (n : ℕ) (c : Commit), H[n]? = some c →
    (∀ (m : ℕ) (c' : Commit), n ≤ m → H[m]? = some c' → c'.operation ≠ .delete) →
    (image parseDate table did rkey (some c)).isSome →
    image parseDate table did rkey (some c) = finalRow parseDate table did rkey H

section Record

variable {table : TableName} {did : RepoDid} {rkey : String}

def statementOf (parseDate : String → Option ℤ) (table : TableName) (did : RepoDid)
    (rkey : String) (c : Commit) : Option Change :=
  if c.operation = .delete then some .remove
  else (image parseDate table did rkey (some c)).map (changeTo table)

theorem change_on {evt : JetstreamEvent} (hk : evt.kind = .commit) {c : Commit}
    (h : commitOn table did rkey evt = some c) (host : String) (n : ℕ) :
    (Job.message host n evt).change parseDate (table, atUri did.did table.nsid rkey) =
      statementOf parseDate table did rkey c := by
  obtain ⟨hc, rfl, ht, rfl⟩ := commitOn_eq_some.1 h
  unfold statementOf image
  simp only [Job.change, if_pos hk, changeOf_eq parseDate hc ht]
  split
  · exact if_pos rfl
  · rw [Option.bind_map, Option.bind_some]
    cases rowOf parseDate table evt.did c (atUri evt.did.did table.nsid c.rkey) with
    | none => rfl
    | some r => exact if_pos rfl

theorem on_of_change {j : Job} {ch : Change}
    (h : j.change parseDate (table, atUri did.did table.nsid rkey) = some ch) :
    ∃ host n evt, j = .message host n evt ∧ evt.kind = .commit ∧
      (commitOn table did rkey evt).isSome := by
  cases j with
  | message host n evt =>
    simp only [Job.change] at h
    split at h
    · rename_i hk
      refine ⟨host, n, evt, rfl, hk, ?_⟩
      rw [Option.isSome_iff_ne_none]
      intro hnone
      obtain ⟨⟨⟨t, u⟩, ch'⟩, hch, hon⟩ := Option.bind_eq_some_iff.1 h
      unfold onRow at hon
      split at hon
      · rename_i hkey
        obtain ⟨rfl, rfl⟩ := Prod.mk.inj hkey
        obtain ⟨c, hc, ht, hu⟩ := changeOf_key parseDate hch
        rw [ht] at hu
        obtain ⟨hd, hr⟩ := atUri_inj hu
        rw [commitOn_eq_some.2 ⟨hc, hd.symm, ht, hr.symm⟩] at hnone
        cases hnone
      · cases hon
    · cases h
  | _ => cases h

/-- All rows of the record differ in no column that an upsert keeps. -/
theorem foldl_kept (l : List (ℕ × Change))
    (hl : ∀ x ∈ l, ∃ c : Commit, c.rkey = rkey ∧ statementOf parseDate table did rkey c = some x.2) :
    ∀ r ∈ l.foldl (fun o x => x.2.apply o) none,
      r.kept = (table, atUri did.did table.nsid rkey, did.did, rkey) := by
  have hput : ∀ (c : Commit) (r : Row), c.rkey = rkey →
      (statementOf parseDate table did rkey c = some (.put r) ∨
        statementOf parseDate table did rkey c = some (.putNew r)) →
      r.kept = (table, atUri did.did table.nsid rkey, did.did, rkey) := by
    intro c r hc h
    unfold statementOf at h
    split at h
    · rcases h with h | h <;> cases h
    · rw [← hc]
      cases hr : image parseDate table did rkey (some c) with
      | none =>
        rw [hr] at h
        rcases h with h | h <;> cases h
      | some r' =>
        rw [hr] at h
        have hrr : r' = r := by
          unfold changeTo at h
          split at h <;> rcases h with h | h <;> cases h <;> rfl
        subst hrr
        rw [hc]
        rw [← hc] at hr
        exact hc ▸ rowOf_kept hr
  induction l using List.reverseRecOn with
  | nil =>
    intro r hr
    cases hr
  | append_singleton l x ih =>
    intro r hr
    rw [List.foldl_append, List.foldl_cons, List.foldl_nil] at hr
    have ih := ih fun y hy => hl y (List.mem_append_left _ hy)
    obtain ⟨c, hc, hst⟩ := hl x (by simp)
    generalize l.foldl (fun o x => x.2.apply o) none = o at hr ih
    cases hx : x.2 with
    | remove =>
      rw [hx] at hr
      cases hr
    | put r' =>
      rw [hx] at hr hst
      have hkept := hput c r' hc (Or.inl hst)
      cases o with
      | none =>
        cases hr
        exact hkept
      | some old =>
        have hr : r'.over old = r := Option.some.inj hr
        subst hr
        rw [Row.over_of_kept (hkept.trans (ih old rfl).symm)]
        exact hkept
    | putNew r' =>
      rw [hx] at hr hst
      cases o with
      | none =>
        cases hr
        exact hput c _ hc (Or.inr hst)
      | some old =>
        have hr : old = r := Option.some.inj hr
        subst hr
        exact ih old rfl

theorem foldl_inserted {r : Row} (l : List (ℕ × Change))
    (hl : ∀ pre t ch post, l = pre ++ (t, ch) :: post → (∀ x ∈ post, x.2 ≠ .remove) →
      ch = .remove ∨ ch = .putNew r) :
    l.foldl (fun o x => x.2.apply o) none = none ∨
      l.foldl (fun o x => x.2.apply o) none = some r := by
  induction l using List.reverseRecOn with
  | nil => exact Or.inl rfl
  | append_singleton l x ih =>
    rw [List.foldl_append, List.foldl_cons, List.foldl_nil]
    obtain ⟨t, ch⟩ := x
    rcases hl l t ch [] rfl (fun x hx => by cases hx) with rfl | rfl
    · exact Or.inl rfl
    · have hrest := ih fun pre u ch post heq hpost => by
        refine hl pre u ch (post ++ [(t, .putNew r)]) ?_ fun x hx => ?_
        · rw [heq, List.append_assoc, List.cons_append]
        · rcases List.mem_append.1 hx with hx | hx
          · exact hpost x hx
          · obtain rfl := List.mem_singleton.1 hx
            exact fun h => by cases h
      rcases hrest with h | h <;> rw [h] <;> exact Or.inr rfl

/-! ### Convergence -/

theorem delivered_statement {H : List Commit} {hosts : List String} {P : Process}
    (hP : Pool.Traced (main parseDate) P) (hdel : Delivers table did rkey H hosts P)
    (hdone : P.Handled) {host : String} (hhost : host ∈ hosts) {n : ℕ} {c : Commit}
    (hc : H[n]? = some c) {ch : Change} (hst : statementOf parseDate table did rkey c = some ch) :
    ∃ t evt p, P.tasks[t]? = some (Job.message host n evt, p) ∧
      (commitOn table did rkey evt).isSome ∧
      P.number parseDate (table, atUri did.did table.nsid rkey) t = some n ∧
      (t, ch) ∈ P.changes (table, atUri did.did table.nsid rkey) := by
  obtain ⟨t, evt, p, ht, hon⟩ := hdel.every host hhost n (List.getElem?_eq_some_iff.1 hc).1
  obtain ⟨_, hk, hH⟩ := hdel.copy t host n evt p ht hon
  obtain ⟨c', hc'⟩ := Option.isSome_iff_exists.1 hon
  have hcc : c' = c := by
    rw [(commitOn_eq_some.1 hc').1, hc] at hH
    exact (Option.some.inj hH).symm
  subst hcc
  have hchange : (Job.message host n evt).change parseDate
      (table, atUri did.did table.nsid rkey) = some ch := (change_on hk hc' host n).trans hst
  refine ⟨t, evt, p, ht, hon, ?_, ?_⟩
  · simp only [Process.number, ht, Option.bind_some, Job.number, hchange, Option.map_some]
  · have hpath : Path (handleEvent parseDate evt) (P.logOf t) p := hP.path t _ p ht
    have hsel := indexed_selects (@rowSel_indexing (table, atUri did.did table.nsid rkey) evt)
      (processCommit_change evt) hk hpath
      (indexed_of_past hk hpath (hdone t host n evt p ht hk))
    rw [mem_changes, hsel]
    simp only [Job.change, if_pos hk] at hchange
    rw [hchange]
    exact List.mem_singleton_self ch

theorem executed_statement {H : List Commit} {hosts : List String} {P : Process}
    (hP : Pool.Traced (main parseDate) P) (hdel : Delivers table did rkey H hosts P) {t : ℕ}
    {ch : Change} (hmem : (t, ch) ∈ P.changes (table, atUri did.did table.nsid rkey)) :
    ∃ host n evt p c, P.tasks[t]? = some (Job.message host n evt, p) ∧
      (commitOn table did rkey evt).isSome ∧ host ∈ hosts ∧ H[n]? = some c ∧ c.rkey = rkey ∧
      P.number parseDate (table, atUri did.did table.nsid rkey) t = some n ∧
      statementOf parseDate table did rkey c = some ch := by
  obtain ⟨j, p, ht, hchange⟩ := change_of_mem hP hmem
  obtain ⟨host, n, evt, rfl, hk, hon⟩ := on_of_change hchange
  obtain ⟨hhost, _, hH⟩ := hdel.copy t host n evt p ht hon
  obtain ⟨c, hc⟩ := Option.isSome_iff_exists.1 hon
  rw [(commitOn_eq_some.1 hc).1] at hH
  refine ⟨host, n, evt, p, c, ht, hon, hhost, hH, (commitOn_eq_some.1 hc).2.2.2, ?_, ?_⟩
  · simp only [Process.number, ht, Option.bind_some, Job.number, hchange, Option.map_some]
  · rw [← change_on hk hc host n]
    exact hchange

section Delivered

variable {H : List Commit} {hosts : List String} {P : Process}
  (hP : Pool.Traced (main parseDate) P) (hdel : Delivers table did rkey H hosts P)

include hP hdel

theorem nothing_executed (hH : H = []) :
    P.changes (table, atUri did.did table.nsid rkey) = [] := by
  rw [List.eq_nil_iff_forall_not_mem]
  rintro ⟨t, ch⟩ hmem
  obtain ⟨_, _, _, _, _, _, _, _, hc, _⟩ := executed_statement hP hdel hmem
  rw [hH] at hc
  cases hc

variable (hdone : P.Handled)
  (hord : Ordered (P.number parseDate (table, atUri did.did table.nsid rkey))
    (P.changes (table, atUri did.did table.nsid rkey)))

include hdone hord

/-- A later commit with a statement is executed later. -/
theorem later_executed {pre post : List (ℕ × Change)} {t : ℕ} {ch : Change}
    (hl : P.changes (table, atUri did.did table.nsid rkey) = pre ++ (t, ch) :: post) {n m : ℕ}
    (hn : P.number parseDate (table, atUri did.did table.nsid rkey) t = some n) {c : Commit}
    {ch' : Change} (hlt : n < m) (hc : H[m]? = some c)
    (hst : statementOf parseDate table did rkey c = some ch') : ∃ t', (t', ch') ∈ post := by
  have hmem : (t, ch) ∈ P.changes (table, atUri did.did table.nsid rkey) := by
    rw [hl]
    exact List.mem_append_right _ (List.mem_cons_self ..)
  obtain ⟨host, n', evt, p, _, ht, hon, hhost, _, _, hn', _⟩ := executed_statement hP hdel hmem
  rw [hn] at hn'
  obtain rfl := Option.some.inj hn'
  obtain ⟨t', evt', p', ht', hon', hm, hmem'⟩ := delivered_statement hP hdel hdone hhost hc hst
  have htt := hdel.order host t t' n m evt evt' p p' ht hon ht' hon' hlt
  exact ⟨t', hord.mem_post (changes_nodup hP) hl htt hn hm (Nat.ne_of_lt hlt) hmem'⟩

/-- The last statement executed is that of the last commit. -/
theorem last_executed (hhosts : hosts ≠ []) {c : Commit} (hH : H.getLast? = some c) {ch : Change}
    (hst : statementOf parseDate table did rkey c = some ch) :
    c.rkey = rkey ∧
      ∃ pre t, P.changes (table, atUri did.did table.nsid rkey) = pre ++ [(t, ch)] := by
  have hc : H[H.length - 1]? = some c := by rw [← hH, List.getLast?_eq_getElem?]
  obtain ⟨host, hhost⟩ := List.exists_mem_of_ne_nil hosts hhosts
  obtain ⟨_, _, _, _, _, _, hmem⟩ := delivered_statement hP hdel hdone hhost hc hst
  obtain ⟨pre, ⟨t, chl⟩, hl⟩ : ∃ pre x, P.changes (table, atUri did.did table.nsid rkey) =
      pre ++ [x] :=
    ⟨_, _, (List.dropLast_append_getLast (List.ne_nil_of_mem hmem)).symm⟩
  have hlmem : (t, chl) ∈ P.changes (table, atUri did.did table.nsid rkey) := by
    rw [hl]
    exact List.mem_append_right _ (List.mem_singleton_self _)
  obtain ⟨_, n, _, _, cn, _, _, _, hcn, hrkey, hn, hstn⟩ := executed_statement hP hdel hlmem
  have hnlast : n = H.length - 1 := by
    by_contra hne
    have hlen := (List.getElem?_eq_some_iff.1 hcn).1
    obtain ⟨_, hnil⟩ := later_executed hP hdel hdone hord hl hn
      (by omega : n < H.length - 1) hc hst
    cases hnil
  subst hnlast
  rw [hc] at hcn
  obtain rfl := Option.some.inj hcn
  rw [hst] at hstn
  obtain rfl := Option.some.inj hstn
  exact ⟨hrkey, pre, t, hl⟩

/-- Reactions are inserted: what was inserted since the last removal is the final row. -/
theorem reaction_inserted (htable : table = .reactions) {r : Row}
    (hfinal : finalRow parseDate table did rkey H = some r)
    (hreact : Unchanged parseDate table did rkey H) :
    (P.changes (table, atUri did.did table.nsid rkey)).foldl (fun o x => x.2.apply o) none = none ∨
      (P.changes (table, atUri did.did table.nsid rkey)).foldl (fun o x => x.2.apply o) none =
        some r := by
  refine foldl_inserted _ fun pre u ch post hl hpost => ?_
  have hmem : (u, ch) ∈ P.changes (table, atUri did.did table.nsid rkey) := by
    rw [hl]
    exact List.mem_append_right _ (List.mem_cons_self ..)
  obtain ⟨_, m, _, _, c, _, _, _, hc, _, hm, hst⟩ := executed_statement hP hdel hmem
  unfold statementOf at hst
  by_cases hop : c.operation = .delete
  · rw [if_pos hop] at hst
    exact Or.inl (Option.some.inj hst).symm
  · rw [if_neg hop] at hst
    obtain ⟨r', hr', rfl⟩ := Option.map_eq_some_iff.1 hst
    -- no removal is executed after it, so no commit from it on is a delete
    have hsame := hreact m c hc (fun i ci hi hci hdelete => by
      rcases Nat.eq_or_lt_of_le hi with rfl | hlt
      · rw [hc] at hci
        obtain rfl := Option.some.inj hci
        exact hop hdelete
      · have hremove : statementOf parseDate table did rkey ci = some .remove := by
          rw [statementOf, if_pos hdelete]
        obtain ⟨t', ht'⟩ := later_executed hP hdel hdone hord hl hm hlt hci hremove
        exact hpost _ ht' rfl) (by rw [hr']; rfl)
    rw [hr', hfinal] at hsame
    obtain rfl := Option.some.inj hsame
    exact Or.inr (if_pos htable)

end Delivered

theorem statement_of_settles {H : List Commit} (h : Settles parseDate table did rkey H) {c : Commit}
    (hH : H.getLast? = some c) : ∃ ch, statementOf parseDate table did rkey c = some ch := by
  unfold statementOf
  by_cases hop : c.operation = .delete
  · exact ⟨_, if_pos hop⟩
  · obtain ⟨r, hr⟩ := Option.isSome_iff_exists.1 (h c hH hop)
    exact ⟨changeTo table r, by rw [if_neg hop, hr]; rfl⟩

/-- When the statements are executed in the order of the deliveries, the row is that of
the last commit. -/
theorem converges (parseDate : String → Option ℤ) {w : World} {es : List (Turn Job Choice)}
    {H : List Commit} {hosts : List String} (hhosts : hosts ≠ [])
    (hempty : w.db.row table (atUri did.did table.nsid rkey) = none)
    (hdel : Delivers table did rkey H hosts (run (Process.step parseDate) (Process.init w) es))
    (hdone : (run (Process.step parseDate) (Process.init w) es).Handled)
    (hlast : Settles parseDate table did rkey H)
    (hreact : table = .reactions → Unchanged parseDate table did rkey H)
    (hin : AllSteps (Process.step parseDate)
      (InOrder parseDate (table, atUri did.did table.nsid rkey)) (Process.init w) es) :
    (run (Process.step parseDate) (Process.init w) es).state.db.row table
        (atUri did.did table.nsid rkey) = finalRow parseDate table did rkey H := by
  have hrow := @run_changes parseDate (table, atUri did.did table.nsid rkey) w es
  have hP : Pool.Traced (main parseDate) (run (Process.step parseDate) (Process.init w) es) :=
    run_traced w es
  have hord := run_ordered hin
  generalize run (Process.step parseDate) (Process.init w) es = P at *
  dsimp only at hrow
  rw [hempty] at hrow
  rw [hrow]
  cases hH : H.getLast? with
  | none =>
    rw [nothing_executed hP hdel (List.getLast?_eq_none_iff.1 hH), finalRow, hH]
    rfl
  | some c =>
    obtain ⟨ch, hst⟩ := statement_of_settles hlast hH
    obtain ⟨hrkey, pre, t, hl⟩ := last_executed hP hdel hdone hord hhosts hH hst
    have hfinal : finalRow parseDate table did rkey H =
        if c.operation = .delete then none else image parseDate table did rkey (some c) := by
      unfold finalRow
      rw [hH]
      rfl
    unfold statementOf at hst
    by_cases hop : c.operation = .delete
    · rw [if_pos hop] at hst
      obtain rfl := Option.some.inj hst
      rw [hfinal, if_pos hop, hl, List.foldl_append]
      rfl
    · rw [if_neg hop] at hst hfinal
      obtain ⟨r, hr, rfl⟩ := Option.map_eq_some_iff.1 hst
      rw [hr] at hfinal
      rw [hfinal]
      by_cases htable : table = .reactions
      · -- the last statement inserts, so that there is a row
        rcases reaction_inserted hP hdel hdone hord htable hfinal (hreact htable) with h | h
        · rw [hl, List.foldl_append, List.foldl_cons, List.foldl_nil] at h
          unfold changeTo at h
          rw [if_pos htable] at h
          cases hpre : pre.foldl (fun o (x : ℕ × Change) => x.2.apply o) none with
          | none =>
            rw [hpre] at h
            cases h
          | some old =>
            rw [hpre] at h
            cases h
        · exact h
      · rw [hl, List.foldl_append, List.foldl_cons, List.foldl_nil]
        have hkept := @foldl_kept parseDate table did rkey pre fun x hx => by
            have hxmem : (x.1, x.2) ∈ P.changes (table, atUri did.did table.nsid rkey) := by
              rw [hl]
              exact List.mem_append_left _ hx
            obtain ⟨_, _, _, _, cx, _, _, _, _, hrk, _, hstx⟩ := executed_statement hP hdel hxmem
            exact ⟨cx, hrk, hstx⟩
        have hnew : r.kept = (table, atUri did.did table.nsid rkey, did.did, c.rkey) :=
          rowOf_kept hr
        rw [hrkey] at hnew
        unfold changeTo
        rw [if_neg htable]
        cases hpre : pre.foldl (fun o (x : ℕ × Change) => x.2.apply o) none with
        | none => rfl
        | some old => exact congrArg some (Row.over_of_kept (hnew.trans (hkept old hpre).symm))

end Record

/-! ### A deletion that overtakes -/

/-- A commit of a favorite; only a creation has a record. -/
def favoriteCommit (operation : Operation) : Commit :=
  { operation, collection := NSID.favorite, rkey := "3kfav", cid := some "bafy"
    record := some (.obj
      [("station", .obj [("stationId", .str "tunein:s1"), ("name", .str "One"),
          ("streamUrl", .str "http://one"), ("source", .str "tunein")]),
        ("createdAt", .str "1970-01-01T00:00:00Z")]) }

def favoriteEvent (operation : Operation) : JetstreamEvent :=
  { did := alice, timeUs := 1, kind := .commit
    commit := some (favoriteCommit operation) }

/-- The turns that take the handler of a favorite's creation, task `t`, to its end. -/
def finishFavorite (t : ℕ) : List (Turn Job Choice) :=
  [.answer t {}, .resume t {}, .answer t {}, .resume t {}, .answer t {}, .resume t {},
    .answer t {}, .resume t {}, .answer t {}, .resume t {}]

/-- A favorite is created and deleted, and the deletion is executed first. -/
def overtaken : List (Turn Job Choice) :=
  [.start (.message "jetstream1" 0 (favoriteEvent .create)) {},
    .start (.message "jetstream1" 1 (favoriteEvent .delete)) {}, .answer 1 {}, .resume 1 {},
    .answer 1 {}, .resume 1 {}] ++ finishFavorite 0

theorem deletion_overtakes :
    ¬ ∀ es (H : List Commit) (hosts : List String) (table : TableName) (did : RepoDid) rkey,
      hosts ≠ [] →
      Delivers table did rkey H hosts (run (Process.step epochDate) (Process.init {}) es) →
      (run (Process.step epochDate) (Process.init {}) es).Handled →
      Settles epochDate table did rkey H →
      (run (Process.step epochDate) (Process.init {}) es).state.db.row table
        (atUri did.did table.nsid rkey) = finalRow epochDate table did rkey H := by
  intro h
  have htasks : (run (Process.step epochDate) (Process.init {}) overtaken).tasks =
      [(.message "jetstream1" 0 (favoriteEvent .create), .pure ()),
        (.message "jetstream1" 1 (favoriteEvent .delete), .pure ())] := rfl
  have hrow := h overtaken [favoriteCommit .create, favoriteCommit .delete] ["jetstream1"]
    .favorites ⟨"did:plc:alice", by decide⟩ "3kfav" (by simp) ?_ ?_ ?_
  · exact absurd hrow (by decide)
  · refine ⟨fun t host n evt p ht hon => ?_, fun host hhost n hn => ?_,
      fun host t t' n n' evt evt' p p' ht hon ht' hon' hlt => ?_⟩
    · rw [htasks] at ht
      match t with
      | 0 =>
        cases ht
        exact ⟨List.mem_singleton_self _, rfl, rfl⟩
      | 1 =>
        cases ht
        exact ⟨List.mem_singleton_self _, rfl, rfl⟩
      | t + 2 => cases ht
    · obtain rfl := List.mem_singleton.1 hhost
      rw [htasks]
      match n with
      | 0 => exact ⟨0, favoriteEvent .create, _, rfl, by decide⟩
      | 1 => exact ⟨1, favoriteEvent .delete, _, rfl, by decide⟩
      | n + 2 => exact absurd hn (by simp)
    · rw [htasks] at ht ht'
      match t, t' with
      | 0, 0 =>
        cases ht
        cases ht'
        omega
      | 0, t' + 1 => exact Nat.succ_pos _
      | 1, 0 =>
        cases ht
        cases ht'
        omega
      | 1, 1 =>
        cases ht
        cases ht'
        omega
      | 1, t' + 2 => cases ht'
      | t + 2, _ => cases ht
  · intro t host n evt p ht hk
    rw [htasks] at ht
    match t with
    | 0 =>
      cases ht
      exact ⟨Or.inl rfl, rfl⟩
    | 1 =>
      cases ht
      exact ⟨Or.inl rfl, rfl⟩
    | t + 2 => cases ht
  · intro c hc hop
    obtain rfl := Option.some.inj hc
    exact (hop rfl).elim

/-- A favorite that is created, delivered by one host. -/
def createdOnce : List (Turn Job Choice) :=
  .start (.message "jetstream1" 0 (favoriteEvent .create)) {} :: finishFavorite 0

theorem converges_created :
    (run (Process.step epochDate) (Process.init {}) createdOnce).state.db.row .favorites
        (atUri "did:plc:alice" NSID.favorite "3kfav") =
      finalRow epochDate .favorites ⟨"did:plc:alice", by decide⟩ "3kfav" [favoriteCommit .create] := by
  have htasks : (run (Process.step epochDate) (Process.init {}) createdOnce).tasks =
      [(.message "jetstream1" 0 (favoriteEvent .create), .pure ())] := rfl
  have hin : ∀ P c, InOrder epochDate (.favorites, atUri "did:plc:alice" NSID.favorite "3kfav") P
      (.answer 0 c) := fun P c j q cont _ _ n _ t' ht' => absurd ht' (Nat.not_lt_zero t')
  refine @converges .favorites ⟨"did:plc:alice", by decide⟩ "3kfav" epochDate {} createdOnce
    [favoriteCommit .create] ["jetstream1"] (by simp) rfl ?_ ?_ ?_ (fun h => by cases h) ?_
  · refine ⟨fun t host n evt p ht hon => ?_, fun host hhost n hn => ?_,
      fun host t t' n n' evt evt' p p' ht hon ht' hon' hlt => ?_⟩
    · rw [htasks] at ht
      match t with
      | 0 =>
        cases ht
        exact ⟨List.mem_singleton_self _, rfl, rfl⟩
      | t + 1 => cases ht
    · obtain rfl := List.mem_singleton.1 hhost
      rw [htasks]
      match n with
      | 0 => exact ⟨0, favoriteEvent .create, _, rfl, by decide⟩
      | n + 1 => exact absurd hn (by simp)
    · rw [htasks] at ht ht'
      match t, t' with
      | 0, 0 =>
        cases ht
        cases ht'
        omega
      | 0, t' + 1 => exact Nat.succ_pos _
      | t + 1, _ => cases ht
  · intro t host n evt p ht hk
    rw [htasks] at ht
    match t with
    | 0 =>
      cases ht
      exact ⟨Or.inl rfl, rfl⟩
    | t + 1 => cases ht
  · intro c hc hop
    obtain rfl := Option.some.inj hc
    decide
  · exact ⟨trivial, hin _ _, trivial, hin _ _, trivial, hin _ _, trivial, hin _ _, trivial, hin _ _,
      trivial, trivial⟩

end Atradio.Jetstream
