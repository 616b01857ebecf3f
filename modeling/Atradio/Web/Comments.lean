import Mathlib.Data.Int.Notation
import Atradio.Lib.Run
import Atradio.Lib.Table

/-! # Deleting comments (`CommentsPanel.tsx`)

The panel shows what the server lists and what came in since, less the comments being deleted. A
deletion edits the lists before the agent has answered. -/

namespace Atradio.Web.Comments
open Atradio.Lib

/-- `content` is what is shown of a comment besides its time. -/
structure CommentView (β : Type) where
  uri : String
  createdAt : String
  content : β

variable {β : Type}

inductive LiveEvent (β : Type) where
  | comment (comment : CommentView β)
  | reaction

/-- A call of `performDelete` that awaits the agent, and what was shown under its uri before. -/
structure Deletion (β : Type) where
  ticket : ℕ
  comment : CommentView β
  shown : Option (CommentView β)

def Deletion.uri (t : Deletion β) : String := t.comment.uri

/-- `succeeded` are the uris of the deletions that have gone through. -/
structure State (β : Type) where
  data : List (CommentView β)
  locals : List (CommentView β)
  deleted : List String
  editingUri : Option String
  confirmTarget : Option (CommentView β)
  started : ℕ
  pending : Table (@Deletion.ticket β)
  succeeded : List String

inductive Event (β : Type) where
  | refetched (items : List (CommentView β))
  | live (event : LiveEvent β)
  /-- The composer has posted a comment. -/
  | posted (comment : CommentView β)
  | editing (uri : Option String)
  /-- The composer has saved an edit. -/
  | edited (comment : CommentView β)
  | confirming (comment : Option (CommentView β))
  | performDelete (signedIn : Bool) (comment : CommentView β)
  | answered (ticket : ℕ) (ok : Bool)

def State.init (data locals : List (CommentView β)) : State β where
  data
  locals
  deleted := []
  editingUri := none
  confirmTarget := none
  started := 0
  pending := Table.empty
  succeeded := []

/-! ### The list -/

/-- The map `byUri` before the deleted ones are taken out. -/
def copies (s : State β) : Table (@CommentView.uri β) :=
  s.locals.foldl Table.put (s.data.foldl Table.put Table.empty)

def byUri (s : State β) : Table (@CommentView.uri β) := s.deleted.foldl Table.delete (copies s)

section Panel

-- `getTime` of the date that a text reads as, none for `NaN`
variable (getTime : String → Option ℤ)

/-- The comparator does not ask for `b` first; `NaN` counts as zero. -/
def newerFirst (a b : CommentView β) : Bool :=
  match getTime a.createdAt, getTime b.createdAt with
  | some ta, some tb => tb - ta ≤ 0
  | _, _ => true

def comments (s : State β) : List (CommentView β) := (byUri s).rows.mergeSort (newerFirst getTime)

/-! ### Steps -/

/-- `prev.some((x) => x.uri === c.uri) ? prev : [c, ...prev]` -/
def addLocal (s : State β) (c : CommentView β) : State β :=
  if s.locals.any fun x => x.uri = c.uri then s else { s with locals := c :: s.locals }

def upsertLocal (s : State β) (c : CommentView β) : State β :=
  { s with locals := c :: s.locals.filter fun x => x.uri ≠ c.uri }

def performDelete (s : State β) (signedIn : Bool) (comment : CommentView β) : State β :=
  let uri := comment.uri
  if !signedIn || uri = "" then { s with confirmTarget := none }
  else
    { s with
      confirmTarget := none
      deleted := if uri ∈ s.deleted then s.deleted else s.deleted ++ [uri]
      locals := s.locals.filter fun x => x.uri ≠ uri
      editingUri := if s.editingUri = some uri then none else s.editingUri
      started := s.started + 1
      pending := s.pending.put ⟨s.started, comment, (byUri s).get uri⟩ }

def resume (s : State β) (t : Deletion β) (ok : Bool) : State β :=
  if ok then
    { s with pending := s.pending.delete t.ticket, succeeded := t.uri :: s.succeeded }
  else
    { s with
      pending := s.pending.delete t.ticket
      deleted := s.deleted.filter fun uri => uri ≠ t.uri }

def step (s : State β) : Event β → State β
  | .refetched items => { s with data := items }
  | .live (.comment c) => addLocal s c
  | .live .reaction => s
  | .posted c => addLocal s c
  | .editing uri => { s with editingUri := uri }
  | .edited c => upsertLocal { s with editingUri := none } c
  | .confirming comment => { s with confirmTarget := comment }
  | .performDelete signedIn comment => performDelete s signedIn comment
  | .answered ticket ok =>
    match s.pending.get ticket with
    | none => s
    | some t => resume s t ok

/-! ### What a deletion may change -/

def Event.deletes (s : State β) : Event β → Option String
  | .performDelete _ comment => some comment.uri
  | .answered ticket _ => (s.pending.get ticket).map Deletion.uri
  | _ => none

structure Keeps (s : State β) (e : Event β) : Prop where
  restored : ∀ ticket t, e = .answered ticket false → s.pending.get ticket = some t →
    ∀ c, t.shown = some c → c ∈ comments getTime (step s e)
  -- whatever the server lists next
  hidden : ∀ uri ∈ (step s e).succeeded, ∀ items,
    ∀ c ∈ comments getTime { step s e with data := items }, c.uri ≠ uri
  others : ∀ uri, e.deletes s = some uri → ∀ c : CommentView β, c.uri ≠ uri →
    (c ∈ comments getTime (step s e) ↔ c ∈ comments getTime s)

/-- When a deletion fails, the comment is still in the lists as it was shown, and no deletion of it
has succeeded; when one succeeds, none has failed since it began. -/
def Undisturbed (s : State β) : Event β → Prop
  | .answered ticket ok => ∀ t, s.pending.get ticket = some t →
    if ok then t.uri ∈ s.deleted
    else (∀ c, t.shown = some c → (copies s).get t.uri = some c) ∧ t.uri ∉ s.succeeded
  | _ => True

/-! ### What is shown -/

variable {getTime}

theorem get_byUri (s : State β) (uri : String) :
    (byUri s).get uri = if uri ∈ s.deleted then none else (copies s).get uri :=
  Table.get_foldl_delete s.deleted (copies s) uri

theorem mem_comments (s : State β) (c : CommentView β) : c ∈ comments getTime s ↔
    c.uri ∉ s.deleted ∧ (copies s).get c.uri = some c := by
  have hperm := List.mergeSort_perm (byUri s).rows (newerFirst getTime)
  rw [comments, hperm.mem_iff, Table.mem_rows, get_byUri]
  by_cases h : c.uri ∈ s.deleted
  · simp [h]
  · simp [h]

theorem hidden_iff (s : State β) (comment : CommentView β) :
    (∀ items, ∀ c ∈ comments getTime { s with data := items }, c.uri ≠ comment.uri) ↔
      comment.uri ∈ s.deleted := by
  constructor
  · intro h
    by_contra hdeleted
    have hlisted : ∃ c, (([comment].foldl Table.put Table.empty : Table (@CommentView.uri β)).get
        comment.uri) = some c := ⟨comment, Table.get_put_self _ comment⟩
    obtain ⟨c, hc⟩ := Table.exists_get_foldl_put s.locals hlisted
    have huri : c.uri = comment.uri := Table.key_of_get hc
    have hmem : c ∈ comments getTime { s with data := [comment] } := by
      rw [mem_comments, huri]
      exact ⟨hdeleted, hc⟩
    exact h [comment] c hmem huri
  · intro hdeleted items c hc huri
    rw [mem_comments, huri] at hc
    exact hc.1 hdeleted

theorem performDelete_others (s : State β) (signedIn : Bool) {comment c : CommentView β}
    (hne : c.uri ≠ comment.uri) :
    c ∈ comments getTime (performDelete s signedIn comment) ↔ c ∈ comments getTime s := by
  rw [mem_comments, mem_comments]
  unfold performDelete
  dsimp only
  split
  · rfl
  · have hcopies : (copies { s with locals := s.locals.filter fun x => x.uri ≠ comment.uri }).get
        c.uri = (copies s).get c.uri := by
      refine Table.get_foldl_put_filter _ s.locals (fun x _ hx => ?_) rfl
      rw [hx]
      exact decide_eq_true hne
    have hdeleted : c.uri ∈ (if comment.uri ∈ s.deleted then s.deleted
        else s.deleted ++ [comment.uri]) ↔ c.uri ∈ s.deleted := by
      split
      · rfl
      · simp [hne]
    rw [← hcopies]
    exact and_congr_left' (not_congr hdeleted)

theorem resume_others (s : State β) (t : Deletion β) (ok : Bool) {c : CommentView β}
    (hne : c.uri ≠ t.uri) :
    c ∈ comments getTime (resume s t ok) ↔ c ∈ comments getTime s := by
  rw [mem_comments, mem_comments]
  cases ok with
  | true => rfl
  | false => simp [resume, copies, hne]

/-! ### Runs -/

def Hides (s : State β) : Prop := ∀ uri ∈ s.succeeded, uri ∈ s.deleted

theorem deleted_performDelete (s : State β) (signedIn : Bool) (comment : CommentView β)
    {uri : String} (h : uri ∈ s.deleted) : uri ∈ (performDelete s signedIn comment).deleted := by
  unfold performDelete
  dsimp only
  split
  · exact h
  · dsimp only
    split
    · exact h
    · exact List.mem_append_left _ h

theorem succeeded_performDelete (s : State β) (signedIn : Bool) (comment : CommentView β) :
    (performDelete s signedIn comment).succeeded = s.succeeded := by
  unfold performDelete
  dsimp only
  split <;> rfl

theorem addLocal_hides {s : State β} (h : Hides s) (c : CommentView β) : Hides (addLocal s c) := by
  unfold addLocal
  split <;> exact h

/-- The end of a deletion keeps the deleted ones out exactly if it undoes none of them. -/
theorem resume_hides {s : State β} (h : Hides s) (t : Deletion β) (ok : Bool) :
    Hides (resume s t ok) ↔ if ok then t.uri ∈ s.deleted else t.uri ∉ s.succeeded := by
  cases ok with
  | true =>
    have hcons : Hides (resume s t true) ↔ t.uri ∈ s.deleted ∧ Hides s := List.forall_mem_cons
    rw [hcons, if_pos rfl]
    exact and_iff_left h
  | false =>
    rw [if_neg Bool.false_ne_true]
    constructor
    · intro hhides hmem
      simpa [resume] using hhides t.uri hmem
    · intro hnot uri huri
      refine List.mem_filter.2 ⟨h uri huri, decide_eq_true ?_⟩
      rintro rfl
      exact hnot huri

theorem hides_step {s : State β} (h : Hides s) {e : Event β} (he : Undisturbed s e) :
    Hides (step s e) := by
  cases e with
  | refetched items => exact h
  | live event =>
    cases event with
    | comment c => exact addLocal_hides h c
    | reaction => exact h
  | posted c => exact addLocal_hides h c
  | editing uri => exact h
  | edited c => exact h
  | confirming comment => exact h
  | performDelete signedIn comment =>
    intro uri huri
    rw [step, succeeded_performDelete] at huri
    exact deleted_performDelete s signedIn comment (h uri huri)
  | answered ticket ok =>
    rw [step]
    cases hget : s.pending.get ticket with
    | none => exact h
    | some t =>
      have ht := he t hget
      refine (resume_hides h t ok).2 ?_
      cases ok with
      | true => exact ht
      | false => exact ht.2

/-- A deletion in flight has kept what was shown of its own comment. -/
def Names (s : State β) : Prop :=
  ∀ t ∈ s.pending.rows, ∀ c, t.shown = some c → c.uri = t.uri

theorem names_step {s : State β} (h : Names s) (e : Event β) : Names (step s e) := by
  cases e with
  | refetched items => exact h
  | live event =>
    cases event with
    | comment c =>
      rw [step, addLocal]
      split <;> exact h
    | reaction => exact h
  | posted c =>
    rw [step, addLocal]
    split <;> exact h
  | editing uri => exact h
  | edited c => exact h
  | confirming comment => exact h
  | performDelete signedIn comment =>
    rw [step, performDelete]
    split
    · exact h
    · intro t ht c hc
      rcases (Table.mem_put _ _ t).1 ht with rfl | ht
      · exact Table.key_of_get hc
      · exact h t ht.1 c hc
  | answered ticket ok =>
    rw [step]
    cases hget : s.pending.get ticket with
    | none => exact h
    | some t =>
      have hrows : ∀ u ∈ (resume s t ok).pending.rows, u ∈ s.pending.rows := by
        cases ok <;> exact fun u hu => ((Table.mem_delete _ _ u).1 hu).1
      exact fun u hu => h u (hrows u hu)

theorem restored_iff (s : State β) {t : Deletion β} {c : CommentView β} (huri : c.uri = t.uri) :
    c ∈ comments getTime (resume s t false) ↔ (copies s).get t.uri = some c := by
  rw [mem_comments, huri]
  have hout : t.uri ∉ (resume s t false).deleted := by simp [resume]
  exact and_iff_right hout

theorem keeps_iff_undisturbed {s : State β} (h : Hides s ∧ Names s) (e : Event β) :
    Keeps getTime s e ↔ Undisturbed s e := by
  have hkeep : Hides (step s e) → ∀ uri ∈ (step s e).succeeded, ∀ items,
      ∀ c ∈ comments getTime { step s e with data := items }, c.uri ≠ uri := by
    rintro hhides uri huri items c hc rfl
    exact ((mem_comments _ c).1 hc).1 (hhides _ huri)
  constructor
  · intro hkeeps
    cases e with
    | answered ticket ok =>
      intro t hget
      have hstep : step s (.answered ticket ok) = resume s t ok := by rw [step, hget]
      cases ok with
      | true =>
        have hhidden := hkeeps.hidden t.uri
        rw [hstep] at hhidden
        exact (hidden_iff (resume s t true) t.comment).1 (hhidden (List.mem_cons_self ..))
      | false =>
        refine ⟨fun c hc => ?_, fun hmem => ?_⟩
        · have hback := hkeeps.restored ticket t rfl hget c hc
          rw [hstep] at hback
          exact (restored_iff s (h.2 t ((Table.get_eq_some _ _ _).1 hget).1 c hc)).1 hback
        · have hhidden := hkeeps.hidden t.uri
          rw [hstep] at hhidden
          have hdeleted := (hidden_iff (resume s t false) t.comment).1 (hhidden hmem)
          simp [resume, Deletion.uri] at hdeleted
    | _ => trivial
  · intro he
    refine ⟨?_, hkeep (hides_step h.1 he), ?_⟩
    · rintro ticket t rfl hget c hc
      have hshown := (he t hget).1 c hc
      rw [step, hget]
      exact (restored_iff s (Table.key_of_get hshown)).2 hshown
    · intro uri huri c hne
      cases e with
      | performDelete signedIn comment =>
        obtain rfl := Option.some.inj huri
        exact performDelete_others s signedIn hne
      | answered ticket ok =>
        obtain ⟨t, hget, rfl⟩ := Option.map_eq_some_iff.1 huri
        rw [step, hget]
        exact resume_others s t ok hne
      | _ => cases huri

end Panel

/-- A failed deletion shows the comment as it was and a deletion that has succeeded hides it for
good, in every interleaving, exactly when no step of it is disturbed. -/
theorem deletions_keep_iff (getTime : String → Option ℤ) (data locals : List (CommentView β))
    (es : List (Event β)) :
    AllSteps step (Keeps getTime) (State.init data locals) es ↔
      AllSteps step Undisturbed (State.init data locals) es :=
  allSteps_iff_of_step (I := fun s => Hides s ∧ Names s) (fun _ e h => keeps_iff_undisturbed h e)
    (fun _ e h he => ⟨hides_step h.1 he, names_step h.2 e⟩) ⟨nofun, nofun⟩

/-- A comment that came in over the live stream is not on the server's page yet. -/
def fresh : CommentView String := ⟨"at://did:plc:a/fm.atradio.comment/1", "2026-01-01", "hi"⟩

theorem fresh_lost : ¬ AllSteps step (Keeps fun _ => some 1767225600000) (State.init [] [])
    [.live (.comment fresh), .performDelete true fresh, .answered 0 false] := by
  rintro ⟨-, -, hkeeps, -⟩
  have hback := hkeeps.restored 0 _ rfl rfl fresh rfl
  exact Option.some_ne_none fresh ((mem_comments _ fresh).1 hback).2.symm

end Atradio.Web.Comments
