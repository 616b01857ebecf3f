import Mathlib.Tactic.SplitIfs
import Atradio.Live.Bus

/-! # What a stream gets

What happens on the emitter of a process does not depend on who listens, so a stream gets what
happens for its station while it is open: each event once, in order, and nothing else. Two names
are the emitter's own: a stream for one of them is told of the other streams. -/

namespace Atradio.Live
open Atradio.Lib Atradio.Lib.EventStream

variable {E P : Type}

inductive Happening (E : Type) where
  | emitted (stationId : String) (e : E)
  | added (stationId : String)
  | removed (stationId : String)

/-- What the handler of a station is called with. -/
def hears (stationId : String) : Happening E → Option (Argument E)
  | .emitted s e => if s = stationId then some (.event e) else none
  | .added s => if stationId = "newListener" then some (.name s) else none
  | .removed s => if stationId = "removeListener" then some (.name s) else none

variable (cfg : Config E P)

/-- What the process `p` emits for a message that reaches `q`. -/
def taken (p q : ℕ) : Option (String × E) → List (Happening E)
  | some m => if q = p then [.emitted m.1 m.2] else []
  | none => []

/-- What a step lets happen on the emitter of a process. -/
def happens (w : World P) (p : ℕ) : Event E P → List (Happening E)
  | .get q s => if q = p ∧ s ≠ "" then [.added s] else []
  | .close c =>
    match w.conns[c]? with
    | some k => if k.process = p ∧ k.closed = false then [.removed k.stationId] else []
    | none => []
  | .publishLive q s e => if cfg.redis = false ∧ q = p then [.emitted s e] else []
  | .message q => taken p q ((w.inbox q).head?.bind cfg.decode)
  | _ => []

def happenings (p : ℕ) : World P → List (Event E P) → List (Happening E)
  | _, [] => []
  | w, e :: es => happens cfg w p e ++
      happenings p (step cfg w e) es

def closes (c : ℕ) : Event E P → Bool
  | .close c' => c' = c
  | _ => false

/-- What the `EventSource` of a client has of a text. -/
def received (text : List Char) : List (List Char) :=
  (run Parser.char {} text).messages.map Message.data

/-- One stream gets these messages, and comments between them. -/
def Gets (k k' : Conn) (xs : List (List Char)) : Prop :=
  ∃ bs : List Block, k' = k.hear (bs.flatMap Block.text) ∧ (∀ b ∈ bs, b.OneLine) ∧
    bs.filterMap Block.message = xs

theorem Conn.hear_nil (k : Conn) : k.hear [] = k := by simp [Conn.hear]

theorem Gets.refl (k : Conn) : Gets k k [] := ⟨[], k.hear_nil.symm, by simp, rfl⟩

theorem Gets.trans {k k' k'' : Conn} {xs ys : List (List Char)} (h : Gets k k' xs)
    (h' : Gets k' k'' ys) : Gets k k'' (xs ++ ys) := by
  obtain ⟨bs, rfl, hbs, rfl⟩ := h
  obtain ⟨bs', rfl, hbs', rfl⟩ := h'
  refine ⟨bs ++ bs', by simp [Conn.hear], fun b hb => ?_, by simp⟩
  rcases List.mem_append.1 hb with hb | hb
  · exact hbs b hb
  · exact hbs' b hb

theorem Gets.shape {k k' : Conn} {xs : List (List Char)} (h : Gets k k' xs) :
    k'.shape = k.shape := by
  obtain ⟨bs, rfl, -⟩ := h
  rfl

theorem gets_block (k : Conn) {b : Block} (hb : b.OneLine) :
    Gets k (k.hear b.text) b.message.toList := by
  refine ⟨[b], by simp, by simpa using hb, ?_⟩
  cases hm : b.message <;> simp [hm]

/-- The handlers that a call runs are those of the open streams, also while a stream is added. -/
theorem call_heard (hjson : ∀ x, OneLine (cfg.stringify x)) {w w' : World P} (hw : Wired w) {c : ℕ}
    {k : Conn} (hk : w.conns[c]? = some k) (hk' : w'.conns[c]? = some k)
    (hlist : w'.listeners = w.listeners) (hopen : k.closed = false) (p : ℕ) (name : String)
    (x : Argument E) :
    ∃ k', (w'.call cfg p name x).conns[c]? = some k' ∧
      Gets k k' (if k.process = p ∧ k.stationId = name then [cfg.stringify x] else []) := by
  have hsame : w'.listening p name = w.listening p name := by
    rw [World.listening, hlist, World.listening]
  have hmem : c ∈ (w'.listening p name).map Listener.conn ↔
      k.process = p ∧ k.stationId = name := by
    rw [hsame, hw.mem_listening, hk]
    simp [Conn.shape, hopen]
  rw [call_conns cfg w' p name x (hsame ▸ hw.conn_nodup p name), hk', Option.map_some]
  refine ⟨_, rfl, ?_⟩
  by_cases h : k.process = p ∧ k.stationId = name
  · rw [if_pos (hmem.2 h), if_pos h]
    exact gets_block k (b := .data (cfg.stringify x)) (hjson x)
  · rw [if_neg (fun hc => h (hmem.1 hc)), if_neg h]
    exact Gets.refl k

theorem emitted_heard (s s' : String) (e : E) :
    (([.emitted s e] : List (Happening E)).filterMap (hears s')).map cfg.stringify =
      if s = s' then [cfg.stringify (.event e)] else [] := by
  by_cases hs : s = s' <;> simp [hears, hs]

theorem added_heard (s s' : String) :
    (([.added s] : List (Happening E)).filterMap (hears s')).map cfg.stringify =
      if s' = "newListener" then [cfg.stringify (.name s)] else [] := by
  by_cases hs : s' = "newListener" <;> simp [hears, hs]

theorem removed_heard (s s' : String) :
    (([.removed s] : List (Happening E)).filterMap (hears s')).map cfg.stringify =
      if s' = "removeListener" then [cfg.stringify (.name s)] else [] := by
  by_cases hs : s' = "removeListener" <;> simp [hears, hs]

theorem step_heard (hjson : ∀ x, OneLine (cfg.stringify x)) {w : World P} (hw : Wired w) {c : ℕ}
    {k : Conn} (hk : w.conns[c]? = some k) (hopen : k.closed = false) {e : Event E P}
    (he : closes c e = false) :
    ∃ k', (step cfg w e).conns[c]? = some k' ∧
      Gets k k' (((happens cfg w k.process e).filterMap (hears k.stationId)).map
        cfg.stringify) := by
  have hsilent : ∃ k', w.conns[c]? = some k' ∧ Gets k k' [] := ⟨k, hk, Gets.refl k⟩
  cases e with
  | get p s =>
    simp only [step, getLive, happens]
    by_cases hs : s = ""
    · rw [if_pos hs, if_neg (fun h => h.2 hs)]
      exact hsilent
    · have hlt : c < w.conns.length := (List.getElem?_eq_some_iff.1 hk).1
      have hkept : (w.connected p s).conns[c]? = some k :=
        (List.getElem?_append_left hlt).trans hk
      obtain ⟨k', hk', hgets⟩ := call_heard cfg hjson hw hk hkept rfl hopen p
        "newListener" (.name s)
      rw [if_neg hs]
      refine ⟨k', hk', ?_⟩
      by_cases hp : p = k.process
      · rw [if_pos ⟨hp, hs⟩, added_heard]
        simpa only [hp, true_and] using hgets
      · rw [if_neg (fun h => hp h.1)]
        rwa [if_neg (fun h => hp h.1.symm)] at hgets
  | close c' =>
    have hc : ¬ c' = c := by simpa [closes] using he
    simp only [step, onClose, happens]
    cases hk' : w.conns[c']? with
    | none => exact hsilent
    | some k' =>
      dsimp only
      cases hclosed : k'.closed with
      | true =>
        rw [if_pos rfl, if_neg (fun h => Bool.false_ne_true h.2.symm)]
        exact hsilent
      | false =>
        have hkept : (w.conns.modify c' fun k => { k with closed := true })[c]? = some k := by
          rw [List.getElem?_modify, hk]
          simp [hc]
        obtain ⟨k'', hk'', hgets⟩ := call_heard cfg hjson (wired_closed hw hk') hkept hkept rfl
          hopen k'.process "removeListener" (.name k'.stationId)
        rw [if_neg Bool.false_ne_true]
        refine ⟨k'', hk'', ?_⟩
        by_cases hp : k'.process = k.process
        · rw [if_pos ⟨hp, rfl⟩, removed_heard]
          simpa only [hp, true_and] using hgets
        · rw [if_neg (fun h => hp h.1)]
          rwa [if_neg (fun h => hp h.1.symm)] at hgets
  | heartbeat c' =>
    simp only [step, heartbeat, happens]
    cases hk' : w.conns[c']? with
    | none => exact hsilent
    | some k' =>
      dsimp only
      split
      · exact hsilent
      · rw [write_conn, hk, Option.map_some]
        refine ⟨_, rfl, ?_⟩
        by_cases hc : c = c'
        · rw [if_pos hc]
          exact gets_block k (b := .comment " ping".toList) ⟨by decide, by decide⟩
        · rw [if_neg hc]
          exact Gets.refl k
  | publishLive p s x =>
    simp only [step, happens]
    cases hredis : cfg.redis with
    | true =>
      rw [publishLive, if_pos hredis, if_neg (fun h => Bool.false_ne_true h.1.symm)]
      exact hsilent
    | false =>
      obtain ⟨k', hk', hgets⟩ := call_heard cfg hjson hw hk hk rfl hopen p s (.event x)
      refine ⟨k', (publishLive_direct cfg hredis w p s x).1 ▸ hk', ?_⟩
      by_cases hp : p = k.process
      · rw [if_pos ⟨rfl, hp⟩, emitted_heard]
        simpa only [hp, true_and, eq_comm (a := s)] using hgets
      · rw [if_neg (fun h => hp h.2)]
        rwa [if_neg (fun h => hp h.1.symm)] at hgets
  | accepted p =>
    simp only [step, happens]
    cases w.outbox p <;> exact hsilent
  | message p =>
    simp only [step, happens]
    cases hin : w.inbox p with
    | nil => exact hsilent
    | cons payload rest =>
      dsimp only
      rw [List.head?_cons, Option.bind_some, onMessage_eq]
      cases hm : cfg.decode payload with
      | none => exact hsilent
      | some m =>
        have hrest : { w with inbox := Function.update w.inbox p rest }.conns[c]? = some k := hk
        obtain ⟨k', hk', hgets⟩ := call_heard cfg hjson hw hk hrest rfl hopen p m.1 (.event m.2)
        refine ⟨k', hk', ?_⟩
        rw [taken]
        by_cases hp : p = k.process
        · rw [if_pos hp, emitted_heard]
          simpa only [hp, true_and, eq_comm (a := m.1)] using hgets
        · rw [if_neg hp]
          rwa [if_neg (fun h => hp h.1.symm)] at hgets
  | failed p => exact hsilent
  | foreign payload => exact hsilent
  | ready p => exact hsilent
  | lost p => exact hsilent

theorem wired_step {w : World P} (hw : Wired w) (e : Event E P) :
    Wired (step cfg w e) := by
  cases e with
  | get p s => exact wired_getLive cfg hw p s
  | close c =>
    simp only [step, onClose]
    cases hk : w.conns[c]? with
    | none => exact hw
    | some k =>
      dsimp only
      split
      · exact hw
      · exact (wired_closed hw hk).call cfg _ _ _
  | heartbeat c =>
    simp only [step, heartbeat]
    cases w.conns[c]? with
    | none => exact hw
    | some k =>
      dsimp only
      split
      · exact hw
      · exact hw.congr (fun c' => write_shape w c c' _) rfl
  | publishLive p s x =>
    simp only [step]
    cases hredis : cfg.redis with
    | true =>
      rw [publishLive, if_pos hredis]
      exact hw.congr (fun _ => rfl) rfl
    | false =>
      obtain ⟨hconns, hlist⟩ := publishLive_direct cfg hredis w p s x
      have hcall := hw.call cfg p s (.event x)
      exact hcall.congr (fun c => congrArg (fun l => Option.map Conn.shape l[c]?) hconns)
        (hlist.trans (call_kept cfg w p s _).2.1.symm)
  | accepted p =>
    simp only [step]
    cases w.outbox p <;> exact hw.congr (fun _ => rfl) rfl
  | message p =>
    simp only [step]
    cases w.inbox p with
    | nil => exact hw
    | cons payload rest =>
      simp only [onMessage_eq]
      have hrest : Wired { w with inbox := Function.update w.inbox p rest } :=
        hw.congr (fun _ => rfl) rfl
      cases cfg.decode payload with
      | none => exact hrest
      | some m => exact hrest.call cfg p m.1 _
  | failed p => exact hw.congr (fun _ => rfl) rfl
  | foreign payload => exact hw.congr (fun _ => rfl) rfl
  | ready p => exact hw.congr (fun _ => rfl) rfl
  | lost p => exact hw.congr (fun _ => rfl) rfl

/-- While a stream is open it gets what happens for its station. -/
theorem run_heard (hjson : ∀ x, OneLine (cfg.stringify x)) {c : ℕ} (es : List (Event E P))
    (hes : ∀ e ∈ es, closes c e = false) {w : World P} (hw : Wired w) {k : Conn}
    (hk : w.conns[c]? = some k) (hopen : k.closed = false) :
    ∃ k', (run (step cfg) w es).conns[c]? = some k' ∧
      Gets k k' (((happenings cfg k.process w es).filterMap
        (hears k.stationId)).map cfg.stringify) := by
  induction es generalizing w k with
  | nil => exact ⟨k, hk, Gets.refl k⟩
  | cons e es ih =>
    obtain ⟨he, hrest⟩ := List.forall_mem_cons.1 hes
    obtain ⟨k', hk', hgets⟩ := step_heard cfg hjson hw hk hopen he
    obtain ⟨hp, hs, hc⟩ : k'.process = k.process ∧ k'.stationId = k.stationId ∧
        k'.closed = k.closed := by simpa [Conn.shape] using hgets.shape
    obtain ⟨k'', hk'', hgets'⟩ := ih hrest (wired_step cfg hw e) hk' (hc.trans hopen)
    rw [hp, hs] at hgets'
    refine ⟨k'', hk'', ?_⟩
    rw [happenings, List.filterMap_append, List.map_append]
    exact hgets.trans hgets'

/-! ### A closed stream -/

theorem call_deaf {w w' : World P} (hw : Wired w) {c : ℕ} {k : Conn} (hk : w.conns[c]? = some k)
    (hk' : w'.conns[c]? = some k) (hlist : w'.listeners = w.listeners) (hclosed : k.closed = true)
    (p : ℕ) (name : String) (x : Argument E) :
    (w'.call cfg p name x).conns[c]? = some k := by
  have hsame : w'.listening p name = w.listening p name := by
    rw [World.listening, hlist, World.listening]
  have hmem : c ∉ (w'.listening p name).map Listener.conn := by
    rw [hsame, hw.mem_listening, hk]
    simp [Conn.shape, hclosed]
  rw [call_conns cfg w' p name x (hsame ▸ hw.conn_nodup p name), hk', Option.map_some, if_neg hmem]

theorem step_closed {w : World P} (hw : Wired w) {c : ℕ} {k : Conn} (hk : w.conns[c]? = some k)
    (hclosed : k.closed = true) (e : Event E P) :
    (step cfg w e).conns[c]? = some k := by
  cases e with
  | get p s =>
    simp only [step, getLive]
    split
    · exact hk
    · have hlt : c < w.conns.length := (List.getElem?_eq_some_iff.1 hk).1
      have hkept : (w.connected p s).conns[c]? = some k :=
        (List.getElem?_append_left hlt).trans hk
      exact call_deaf cfg hw hk hkept rfl hclosed p "newListener" _
  | close c' =>
    simp only [step, onClose]
    cases hk' : w.conns[c']? with
    | none => exact hk
    | some k' =>
      dsimp only
      split
      · exact hk
      next hne =>
        have hc : ¬ c' = c := by
          rintro rfl
          rw [hk, Option.some.injEq] at hk'
          exact hne (hk' ▸ hclosed)
        have hkept : (w.conns.modify c' fun k => { k with closed := true })[c]? = some k := by
          rw [List.getElem?_modify, hk]
          simp [hc]
        exact call_deaf cfg (wired_closed hw hk') hkept hkept rfl hclosed _ _ _
  | heartbeat c' =>
    simp only [step, heartbeat]
    cases hk' : w.conns[c']? with
    | none => exact hk
    | some k' =>
      dsimp only
      split
      · exact hk
      next hne =>
        have hc : ¬ c = c' := by
          rintro rfl
          rw [hk, Option.some.injEq] at hk'
          exact hne (hk' ▸ hclosed)
        rw [write_conn, hk, Option.map_some, if_neg hc]
  | publishLive p s x =>
    simp only [step]
    cases hredis : cfg.redis with
    | true =>
      rw [publishLive, if_pos hredis]
      exact hk
    | false =>
      exact (publishLive_direct cfg hredis w p s x).1 ▸
        call_deaf cfg hw hk hk rfl hclosed p s (.event x)
  | accepted p =>
    simp only [step]
    cases w.outbox p <;> exact hk
  | message p =>
    simp only [step]
    cases w.inbox p with
    | nil => exact hk
    | cons payload rest =>
      simp only [onMessage_eq]
      cases cfg.decode payload with
      | none => exact hk
      | some m =>
        have hrest : { w with inbox := Function.update w.inbox p rest }.conns[c]? = some k := hk
        exact call_deaf cfg hw hk hrest rfl hclosed p m.1 (.event m.2)
  | failed p => exact hk
  | foreign payload => exact hk
  | ready p => exact hk
  | lost p => exact hk

theorem run_closed (es : List (Event E P)) {w : World P} (hw : Wired w) {c : ℕ} {k : Conn}
    (hk : w.conns[c]? = some k) (hclosed : k.closed = true) :
    (run (step cfg) w es).conns[c]? = some k := by
  induction es generalizing w with
  | nil => exact hk
  | cons e es ih => exact ih (wired_step cfg hw e) (step_closed cfg hw hk hclosed e)

theorem onClose_conn {w : World P} (hw : Wired w) {c : ℕ} {k : Conn} (hk : w.conns[c]? = some k)
    (hopen : k.closed = false) :
    (onClose cfg w c).conns[c]? = some { k with closed := true } := by
  have hkept : (w.conns.modify c fun k => { k with closed := true })[c]? =
      some { k with closed := true } := by
    rw [List.getElem?_modify, hk]
    simp
  simp only [onClose, hk, hopen, Bool.false_eq_true, if_false]
  exact call_deaf cfg (wired_closed hw hk) hkept hkept rfl rfl _ _ _

/-! ### The whole life of a stream -/

theorem received_block {k k' : Conn} {xs : List (List Char)} (h : Gets k k' xs)
    (hk : k.written = Block.text (.comment " connected".toList)) : received k'.written = xs := by
  obtain ⟨bs, rfl, hbs, rfl⟩ := h
  have hconnected : (Block.comment " connected".toList).OneLine := ⟨by decide, by decide⟩
  have hall := messages_of_blocks Parser.Idle.init (.comment " connected".toList :: bs)
    (List.forall_mem_cons.2 ⟨hconnected, hbs⟩)
  have hmessage : (Block.comment " connected".toList :: bs).filterMap Block.message =
      bs.filterMap Block.message := rfl
  rw [received, Conn.hear, hk, ← List.flatMap_cons, hall, hmessage, List.nil_append, List.map_map]
  exact List.map_id _

theorem getLive_conn {w : World P} (hw : Wired w) {p : ℕ} {s : String} (hs : s ≠ "") :
    (getLive cfg w p s).conns[w.conns.length]? =
      some { process := p, stationId := s, written := ": connected\n\n".toList } := by
  have hlisten : (w.connected p s).listening p "newListener" = w.listening p "newListener" := rfl
  have hmem : w.conns.length ∉ (w.listening p "newListener").map Listener.conn := by
    rw [hw.mem_listening, List.getElem?_eq_none (Nat.le_refl _)]
    simp
  rw [getLive, if_neg hs, subscribeLive]
  dsimp only
  rw [call_conns cfg _ p "newListener" _ (hlisten ▸ hw.conn_nodup p "newListener"), hlisten,
    World.connected, List.getElem?_concat_length, Option.map_some, if_neg hmem]

theorem wired_run {w : World P} (hw : Wired w) (es : List (Event E P)) :
    Wired (run (step cfg) w es) :=
  run_kept (I := Wired) (fun _ e hw => wired_step cfg hw e) hw es

def upToClose (c : ℕ) (es : List (Event E P)) : List (Event E P) :=
  es.takeWhile fun e => ! closes c e

theorem upToClose_cases (c : ℕ) (es : List (Event E P)) :
    (∀ e ∈ upToClose c es, closes c e = false) ∧
      (es = upToClose c es ∨ ∃ rest, es = upToClose c es ++ .close c :: rest) := by
  induction es with
  | nil => exact ⟨List.forall_mem_nil _, Or.inl rfl⟩
  | cons e es ih =>
    cases he : closes c e with
    | true =>
      have hnil : upToClose c (e :: es) = [] := by simp [upToClose, he]
      have hclose : e = .close c := by
        cases e with
        | close c' => rw [show c' = c by simpa [closes] using he]
        | _ => cases he
      rw [hnil, hclose]
      exact ⟨List.forall_mem_nil _, Or.inr ⟨es, rfl⟩⟩
    | false =>
      have hcons : upToClose c (e :: es) = e :: upToClose c es := by simp [upToClose, he]
      obtain ⟨hall, heq | ⟨rest, heq⟩⟩ := ih
      · rw [hcons, ← heq]
        exact ⟨List.forall_mem_cons.2 ⟨he, heq ▸ hall⟩, Or.inl rfl⟩
      · rw [hcons]
        exact ⟨List.forall_mem_cons.2 ⟨he, hall⟩, Or.inr ⟨rest, congrArg (e :: ·) heq⟩⟩

/-- A stream is given what happens for its station from its request until it is closed. -/
theorem run_stream (hjson : ∀ x, OneLine (cfg.stringify x)) {w : World P} (hw : Wired w) (p : ℕ)
    {s : String} (hs : s ≠ "") (es : List (Event E P)) :
    ∃ k, (run (step cfg) (getLive cfg w p s) es).conns[
        w.conns.length]? = some k ∧ k.process = p ∧ k.stationId = s ∧
      received k.written = ((happenings cfg p (getLive cfg w p s)
        (upToClose w.conns.length es)).filterMap (hears s)).map cfg.stringify := by
  have hw' := wired_getLive cfg hw p s
  obtain ⟨hall, hes⟩ := upToClose_cases w.conns.length es
  obtain ⟨k, hk, hgets⟩ := run_heard cfg hjson
    (upToClose w.conns.length es) hall hw' (getLive_conn cfg hw hs) rfl
  have hrecv := received_block hgets rfl
  obtain ⟨hp, hst, hopen⟩ : k.process = p ∧ k.stationId = s ∧ k.closed = false := by
    simpa [Conn.shape] using hgets.shape
  rcases hes with heq | ⟨rest, heq⟩
  · rw [← heq] at hk hrecv
    exact ⟨k, hk, hp, hst, by rw [hrecv, ← heq]⟩
  · have hclosed := onClose_conn cfg (wired_run cfg hw' _) hk hopen
    rw [heq, run_append, run_cons]
    have hlater := run_closed cfg rest
      (wired_step cfg (wired_run cfg hw' _) (.close w.conns.length)) hclosed rfl
    refine ⟨_, hlater, hp, hst, ?_⟩
    rw [← heq]
    exact hrecv

/-- At any time of any run, what the client of `/live/:stationId` has read of its stream are the
events that were emitted for the station in its process since the request, each once and in their
order, until the stream is closed. Only the stations `newListener` and `removeListener` are also
told which streams come and go. What has arrived of the text gives the first of them. -/
theorem live_stream_exact (hjson : ∀ x, OneLine (cfg.stringify x)) (before : List (Event E P))
    (p : ℕ) (s : String) (hs : s ≠ "") (es : List (Event E P)) :
    let w := run (step cfg) {} before
    ∃ k, (run (step cfg) {} (before ++ .get p s :: es)).conns[w.conns.length]? = some k ∧
      k.stationId = s ∧
      received k.written = ((happenings cfg p (getLive cfg w p s)
        (upToClose w.conns.length es)).filterMap (hears s)).map cfg.stringify ∧
      ∀ text, text <+: k.written → received text <+: received k.written := by
  dsimp only
  obtain ⟨k, hk, -, hst, hrecv⟩ := run_stream cfg hjson (wired_run cfg wired_init before) p hs es
  refine ⟨k, ?_, hst, hrecv, ?_⟩
  · rw [run_append, run_cons]
    exact hk
  · rintro text ⟨rest, hrest⟩
    rw [← hrest, received, received, run_append]
    exact (run_messages _ rest).map _

/-- The escapes of a JSON string that keep it on one line. -/
def jsonChar (c : Char) : List Char :=
  if c = '\n' then "\\n".toList
  else if c = '\r' then "\\r".toList
  else if c = '"' then "\\\"".toList
  else if c = '\\' then "\\\\".toList
  else [c]

theorem jsonChar_line (c : Char) : OneLine (jsonChar c) := by
  rw [jsonChar]
  split_ifs with hn hr
  · decide
  · decide
  · decide
  · decide
  · exact ⟨fun h => hn (List.mem_singleton.1 h).symm, fun h => hr (List.mem_singleton.1 h).symm⟩

/-- A bus whose events are truth values. -/
def flags (redis : Bool) : Config Bool (String × Bool) where
  redis
  stringify
    | .event true => "true".toList
    | .event false => "false".toList
    | .name s => '"' :: s.toList.flatMap jsonChar ++ ['"']
  encode := id
  decode := some

theorem flags_line (redis : Bool) (x : Argument Bool) : OneLine ((flags redis).stringify x) := by
  cases x with
  | event e =>
    have htrue : OneLine "true".toList := by decide
    have hfalse : OneLine "false".toList := by decide
    cases e with
    | true => exact htrue
    | false => exact hfalse
  | name s =>
    have hname : OneLine (s.toList.flatMap jsonChar) := by
      constructor <;> rw [List.mem_flatMap] <;> rintro ⟨c, -, hc⟩
      · exact (jsonChar_line c).1 hc
      · exact (jsonChar_line c).2 hc
    exact oneLine_append (oneLine_append (l := ['"']) (by decide) hname) (by decide)

/-- A stream of `newListener` hears of a stream that comes; the other one gets the event of its
station, and none after it is closed. -/
theorem live_stream_exact_opened :
    ∃ k k', let conns := (run (step (flags false)) {} [.get 0 "newListener", .get 0 "rb:1",
        .publishLive 0 "rb:2" true, .publishLive 0 "rb:1" true, .close 1,
        .publishLive 0 "rb:1" false]).conns
      conns[0]? = some k ∧ received k.written = ["\"rb:1\"".toList] ∧
        conns[1]? = some k' ∧ received k'.written = ["true".toList] := by
  obtain ⟨k, hk, -, hrecv, -⟩ := live_stream_exact (flags false) (flags_line false) [] 0
    "newListener" (by decide) [.get 0 "rb:1", .publishLive 0 "rb:2" true,
      .publishLive 0 "rb:1" true, .close 1, .publishLive 0 "rb:1" false]
  obtain ⟨k', hk', -, hrecv', -⟩ := live_stream_exact (flags false) (flags_line false)
    [.get 0 "newListener"] 0 "rb:1" (by decide) [.publishLive 0 "rb:2" true,
      .publishLive 0 "rb:1" true, .close 1, .publishLive 0 "rb:1" false]
  exact ⟨k, k', hk, hrecv, hk', hrecv'⟩

end Atradio.Live
