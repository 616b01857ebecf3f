import Atradio.Connect.Merged
import Atradio.Connect.Relay

/-! # Frames on the socket of a replaced connection

The object of a connection is known by its socket and the number of its hello. A number is used up
when its hello completes, so an object that left the registry does not return. -/

namespace Atradio.Connect.Hub
open Atradio.Lib

section Identity

variable {P : Payload} {I : Type}

/-- Registered objects were registered before, under the same keys, or come from `mint`; new hellos
get new numbers. -/
structure Issues (mint : Did → LocalConn P → Prop) (h h' : Hub P I) : Prop where
  entries : ∀ did e', e' ∈ (h'.localMap did).rows →
    (∃ e ∈ (h.localMap did).rows, e.same e' = true ∧ e.deviceId = e'.deviceId) ∨ mint did e'
  hellos : ∀ ws, (h.socks ws).hellos ≤ (h'.socks ws).hellos
  verifying : ∀ ws v, v ∈ (h'.socks ws).verifying → v ∈ (h.socks ws).verifying ∨
    (h.socks ws).hellos ≤ v.1 ∧ v.1 < (h'.socks ws).hellos

abbrev Keeps (h h' : Hub P I) : Prop := Issues (fun _ _ => False) h h'

variable {mint : Did → LocalConn P → Prop} {h h' h'' : Hub P I}

theorem same_refl (c : LocalConn P) : c.same c = true := (LocalConn.same_iff c c).2 ⟨rfl, rfl⟩

theorem same_symm {c c' : LocalConn P} (hs : c.same c' = true) : c'.same c = true := by
  obtain ⟨hws, hhello⟩ := (LocalConn.same_iff c c').1 hs
  exact (LocalConn.same_iff c' c).2 ⟨hws.symm, hhello.symm⟩

theorem same_trans {c c' c'' : LocalConn P} (hs : c.same c' = true) (hs' : c'.same c'' = true) :
    c.same c'' = true := by
  obtain ⟨hws, hhello⟩ := (LocalConn.same_iff c c').1 hs
  obtain ⟨hws', hhello'⟩ := (LocalConn.same_iff c' c'').1 hs'
  exact (LocalConn.same_iff c c'').2 ⟨hws.trans hws', hhello.trans hhello'⟩

theorem SameLocal.keeps (a : SameLocal h h') : Keeps h h' := by
  refine ⟨fun did e' he' => .inl ⟨e', ?_, same_refl e', rfl⟩, fun ws => ?_, fun ws v hv => .inl ?_⟩
  · rw [a.localMap] at he'
    exact he'
  · rw [a.socks]
  · rw [a.socks] at hv
    exact hv

theorem Issues.any (a : Keeps h h') : Issues mint h h' :=
  ⟨fun did e he => (a.entries did e he).imp_right False.elim, a.hellos, a.verifying⟩

/-- A hello that is being verified was there before, or its number is new. -/
theorem Issues.verifying_trans {mint' : Did → LocalConn P → Prop} (a : Issues mint h h')
    (b : Issues mint' h' h'') (ws : SockId) (v : ℕ × Option (HelloDevice P))
    (hv : v ∈ (h''.socks ws).verifying) : v ∈ (h.socks ws).verifying ∨
      (h.socks ws).hellos ≤ v.1 ∧ v.1 < (h''.socks ws).hellos := by
  rcases b.verifying ws v hv with hv | ⟨hle, hlt⟩
  · rcases a.verifying ws v hv with hv | ⟨hle, hlt⟩
    · exact .inl hv
    · exact .inr ⟨hle, lt_of_lt_of_le hlt (b.hellos ws)⟩
  · exact .inr ⟨(a.hellos ws).trans hle, hlt⟩

theorem Issues.trans (a : Keeps h h') (b : Issues mint h' h'') : Issues mint h h'' := by
  refine ⟨fun did e'' he'' => ?_, fun ws => (a.hellos ws).trans (b.hellos ws), a.verifying_trans b⟩
  rcases b.entries did e'' he'' with ⟨e', he', hsame', hid'⟩ | hmint
  · obtain ⟨e, he, hsame, hid⟩ := (a.entries did e' he').resolve_right id
    exact .inl ⟨e, he, same_trans hsame hsame', hid.trans hid'⟩
  · exact .inr hmint

/-- What follows may change but the registered objects. -/
theorem Issues.then (a : Issues mint h h') (b : Keeps h' h'')
    (hlocal : ∀ did, h''.localMap did = h'.localMap did) : Issues mint h h'' := by
  refine ⟨fun did e he => ?_, fun ws => (a.hellos ws).trans (b.hellos ws), a.verifying_trans b⟩
  rw [hlocal] at he
  exact a.entries did e he

theorem Issues.trans_regs (a : Issues mint h h') (b : SameRegs h' h'') : Issues mint h h'' :=
  a.then b.toLocal.keeps b.localMap

theorem setSock_issues (h : Hub P I) (ws : SockId) {s : Sock P}
    (hhellos : (h.socks ws).hellos ≤ s.hellos)
    (hverifying : ∀ v ∈ s.verifying, v ∈ (h.socks ws).verifying ∨
      (h.socks ws).hellos ≤ v.1 ∧ v.1 < s.hellos) : Keeps h (h.setSock ws s) := by
  refine ⟨fun did e he => .inl ⟨e, he, same_refl e, rfl⟩, fun ws' => ?_, fun ws' v hv => ?_⟩
  · by_cases hw : ws' = ws
    · rw [hw, setSock_same]
      exact hhellos
    · rw [setSock_ne h s hw]
  · by_cases hw : ws' = ws
    · rw [hw, setSock_same] at hv ⊢
      exact hverifying v hv
    · rw [setSock_ne h s hw] at hv
      exact .inl hv

/-- Any change of a socket that starts and ends no hello. -/
theorem keepSock_keeps (h : Hub P I) (ws : SockId) {s : Sock P}
    (hhellos : s.hellos = (h.socks ws).hellos) (hverifying : s.verifying = (h.socks ws).verifying) :
    Keeps h (h.setSock ws s) :=
  setSock_issues h ws hhellos.ge fun _ hv => .inl (hverifying ▸ hv)

theorem onHello_keeps (h : Hub P I) (ws : SockId) (device : Option (HelloDevice P)) :
    Keeps h (h.onHello ws device) := by
  refine setSock_issues h ws (Nat.le_succ _) fun v hv => ?_
  rcases List.mem_cons.1 hv with rfl | hv
  · exact .inr ⟨le_refl _, Nat.lt_succ_self _⟩
  · exact .inl hv

theorem awaited_keeps (h : Hub P I) (ws : SockId) (hello : ℕ) : Keeps h (h.awaited ws hello) :=
  setSock_issues h ws (le_refl _) fun _ hv => .inl (List.mem_of_mem_filter hv)

theorem close_keeps (h : Hub P I) (ws : SockId) (code : ℕ) (reason : String) :
    Keeps h (h.close ws code reason) := by
  unfold close
  split
  · have hset : Keeps h (h.setSock ws { h.socks ws with readyState := .closing }) :=
      keepSock_keeps h ws rfl rfl
    exact hset.trans_regs (effect_view _ _).toSameRegs
  · exact (SameLocal.refl h).keeps

theorem terminate_keeps (h : Hub P I) (ws : SockId) : Keeps h (h.terminate ws) := by
  unfold terminate
  split
  · exact keepSock_keeps h ws rfl rfl
  · exact (SameLocal.refl h).keeps

theorem terminateAll_keeps (h : Hub P I) (conns : List (LocalConn P)) :
    Keeps h (h.terminateAll conns) := by
  induction conns generalizing h with
  | nil => exact (SameLocal.refl h).keeps
  | cons c conns ih => exact (terminate_keeps h c.ws).trans (ih _)

/-- Entries may change but for their identity, and go. -/
theorem keeps_of_entries (hsocks : h'.socks = h.socks)
    (hentries : ∀ did e', e' ∈ (h'.localMap did).rows →
      ∃ e ∈ (h.localMap did).rows, e.same e' = true ∧ e.deviceId = e'.deviceId) : Keeps h h' := by
  refine ⟨fun did e' he' => .inl (hentries did e' he'), fun ws => ?_, fun ws v hv => .inl ?_⟩
  · rw [hsocks]
  · rw [hsocks] at hv
    exact hv

theorem putSame_keeps (h : Hub P I) {did : Did} {e c : LocalConn P}
    (he : (h.localMap did).get c.deviceId = some e) (hsame : e.same c = true) :
    Keeps h (h.setLocalMap did ((h.localMap did).put c)) := by
  obtain ⟨hmem, hid⟩ := ((h.localMap did).get_eq_some _ _).1 he
  refine keeps_of_entries rfl fun d x hx => ?_
  rw [setLocalMap_localMap] at hx
  split at hx
  · rename_i hd
    rcases (Table.mem_put _ _ _).1 hx with rfl | hx
    · exact ⟨e, hd ▸ hmem, hsame, hid⟩
    · exact ⟨x, hd ▸ hx.1, same_refl x, rfl⟩
  · exact ⟨x, hx, same_refl x, rfl⟩

theorem store_keeps (h : Hub P I) (conn : LocalConn P) : Keeps h (h.store conn) := by
  have hclosure : Keeps h (h.storeClosure conn) := by
    unfold storeClosure
    split
    · split
      · exact keepSock_keeps h conn.ws rfl rfl
      · exact (SameLocal.refl h).keeps
    · exact (SameLocal.refl h).keeps
  refine hclosure.trans ?_
  unfold store storeRegistry
  split
  · rename_i e he
    split
    · exact putSame_keeps _ he (same_trans ‹_› ((LocalConn.same_iff _ _).2 ⟨rfl, rfl⟩))
    · exact (SameLocal.refl _).keeps
  · exact (SameLocal.refl _).keeps

theorem markAlive_keeps (h : Hub P I) (conn : LocalConn P) : Keeps h (h.markAlive conn) := by
  unfold markAlive
  split
  · rename_i e he
    split
    · have hid : e.deviceId = conn.deviceId := (((h.localMap conn.did).get_eq_some _ _).1 he).2
      rw [← hid] at he
      exact putSame_keeps h (c := { e with alive := true }) he
        ((LocalConn.same_iff _ _).2 ⟨rfl, rfl⟩)
    · exact (SameLocal.refl h).keeps
  · exact (SameLocal.refl h).keeps

theorem removeConn_keeps (h : Hub P I) (conn : LocalConn P) : Keeps h (h.removeConn conn).hub := by
  unfold removeConn
  split
  · exact (SameLocal.refl h).keeps
  · have hdeleted : Keeps h (h.deleteLocal conn.did conn.deviceId) := by
      refine keeps_of_entries (deleteLocal_rest h _ _).1 fun did e he => ⟨e, ?_, same_refl e, rfl⟩
      rw [deleteLocal_localMap] at he
      split at he
      · rename_i hd
        rw [hd]
        exact ((Table.mem_delete _ _ _).1 he).1
      · exact he
    exact (hdeleted.trans_regs (publish_view _ _).toSameRegs).trans_regs
      (broadcast_reconcile_regs _ conn.did)

theorem onTick_keeps (h : Hub P I) (now : ℕ) : Keeps h (h.onTick now).hub := by
  have hcleared (g : Hub P I) : Keeps g g.clearAlive := by
    refine keeps_of_entries rfl fun did e he => ?_
    rw [clearAlive_localMap] at he
    obtain ⟨c, hc, rfl⟩ := List.mem_map.1 he
    exact ⟨c, hc, (LocalConn.same_iff _ _).2 ⟨rfl, rfl⟩, rfl⟩
  exact ((terminateAll_keeps h _).trans (hcleared _)).trans (heartbeat_local h.pingAll now).keeps

theorem register_issues (h : Hub P I) (conn : LocalConn P) :
    Issues (fun did e => did = conn.did ∧ e = conn) h (h.register conn) := by
  have hmade : Keeps h (h.makeLocalMap conn.did) :=
    (makeLocalMap_view h conn.did).toSameRegs.toLocal.keeps
  have hreplaced : Keeps (h.makeLocalMap conn.did) ((h.makeLocalMap conn.did).replacePrior conn) := by
    unfold replacePrior
    split
    · split
      · exact (SameLocal.refl _).keeps
      · exact close_keeps _ _ _ _
    · exact (SameLocal.refl _).keeps
  have hput (g : Hub P I) : Issues (fun did e => did = conn.did ∧ e = conn) g
      (g.setLocalMap conn.did ((g.localMap conn.did).put conn)) := by
    refine ⟨fun did e he => ?_, fun _ => le_refl _, fun _ _ => .inl⟩
    rw [setLocalMap_localMap] at he
    split at he
    · rename_i hd
      rcases (Table.mem_put _ _ _).1 he with rfl | he
      · exact .inr ⟨hd, rfl⟩
      · exact .inl ⟨e, hd ▸ he.1, same_refl e, rfl⟩
    · exact .inl ⟨e, he, same_refl e, rfl⟩
  exact (hmade.trans hreplaced).trans (hput _)

theorem helloDone_keeps (h : Hub P I) (ws : SockId) (conn : Option (LocalConn P)) :
    Keeps h (h.helloDone ws conn) := keepSock_keeps h ws rfl rfl

theorem uncaught_issues {o : Outcome P I} (a : Issues mint h o.hub) : Issues mint h o.uncaught := by
  cases o with
  | ok h' => exact a
  | error h' => exact ⟨a.entries, a.hellos, a.verifying⟩

theorem message_keeps (h : Hub P I) (ws : SockId) (msg : Frame P) :
    Keeps h (h.onMessage ws msg).hub := by
  have hrefl : Keeps h h := (SameLocal.refl h).keeps
  unfold onMessage
  cases (h.socks ws).conn with
  | none =>
    cases msg with
    | hello device => exact onHello_keeps h ws device
    | state | command | bye | other => exact hrefl
  | some conn =>
    cases msg with
    | state state => exact (store_keeps h _).trans_regs (handleState_regs h conn state)
    | command target cmd => exact (handleCommand_view h conn target cmd).toSameRegs.toLocal.keeps
    | bye => exact close_keeps h ws 1000 "bye"
    | hello | other => exact hrefl

/-- The completion of a hello registers its own object only, and uses its number up. -/
theorem verified_issues {h : Hub P I} {ws : SockId} {hello : ℕ} {device : HelloDevice P}
    (hlookup : (h.socks ws).verifying.lookup hello = some (some device)) (now : ℕ) (did : Did) :
    Issues (fun d e => d = did ∧ e = helloConn now ws hello did device) (h.awaited ws hello)
        (h.onVerified now ws hello did).hub ∧
      ∀ d, (h.onVerified now ws hello did).hub.localMap d =
        ((h.awaited ws hello).register (helloConn now ws hello did device)).localMap d := by
  have hregs := onHelloVerified_regs (h.awaited ws hello) now ws hello did device
  have hissues := (register_issues (h.awaited ws hello)
    (helloConn now ws hello did device)).trans_regs hregs
  unfold onVerified
  rw [hlookup]
  dsimp only [Option.map_some]
  cases ho : (h.awaited ws hello).onHelloVerified now ws hello did (some device) with
  | error h' =>
    rw [ho] at hissues hregs
    exact ⟨hissues, hregs.localMap⟩
  | ok h' =>
    rw [ho] at hissues hregs
    exact ⟨hissues.then (helloDone_keeps h' ws _) fun _ => rfl, hregs.localMap⟩

/-! ### Runs -/

/-- The number is used up. -/
def Spent (h : Hub P I) (ws : SockId) (n : ℕ) : Prop :=
  n < (h.socks ws).hellos ∧ ∀ v ∈ (h.socks ws).verifying, v.1 ≠ n

structure Numbered (h : Hub P I) : Prop where
  verifying : ∀ ws, ∀ v ∈ (h.socks ws).verifying, v.1 < (h.socks ws).hellos
  spent : ∀ did, ∀ e ∈ (h.localMap did).rows, Spent h e.ws e.hello
  unique : ∀ d d' e e', e ∈ (h.localMap d).rows → e' ∈ (h.localMap d').rows → e.same e' = true →
    d = d' ∧ e.deviceId = e'.deviceId

/-- The object is not registered, and its number is used up. -/
def Gone (h : Hub P I) (c : LocalConn P) : Prop :=
  Spent h c.ws c.hello ∧ ∀ did, ∀ e ∈ (h.localMap did).rows, e.same c = false

theorem Issues.spent (a : Issues mint h h') {ws : SockId} {n : ℕ} (hs : Spent h ws n) :
    Spent h' ws n := by
  refine ⟨lt_of_lt_of_le hs.1 (a.hellos ws), fun v hv hn => ?_⟩
  rcases a.verifying ws v hv with hv | ⟨hle, -⟩
  · exact hs.2 v hv hn
  · exact absurd (hn ▸ hle) (Nat.not_le_of_lt hs.1)

theorem Spent.same {c c' : LocalConn P} (hs : Spent h c.ws c.hello) (hsame : c.same c' = true) :
    Spent h c'.ws c'.hello := by
  obtain ⟨hws, hhello⟩ := (LocalConn.same_iff c c').1 hsame
  exact hws ▸ hhello ▸ hs

theorem Keeps.numbered (a : Keeps h h') (hn : Numbered h) : Numbered h' := by
  have hold (did : Did) (e' : LocalConn P) (he' : e' ∈ (h'.localMap did).rows) :=
    (a.entries did e' he').resolve_right id
  refine ⟨fun ws v hv => ?_, fun did e' he' => ?_, fun d d' x x' hx hx' hsame => ?_⟩
  · rcases a.verifying ws v hv with hv | ⟨-, hlt⟩
    · exact lt_of_lt_of_le (hn.verifying ws v hv) (a.hellos ws)
    · exact hlt
  · obtain ⟨e, he, hsame, -⟩ := hold did e' he'
    exact a.spent ((hn.spent did e he).same hsame)
  · obtain ⟨e, he, hes, hid⟩ := hold d x hx
    obtain ⟨e', he', hes', hid'⟩ := hold d' x' hx'
    obtain ⟨hd, hids⟩ := hn.unique d d' e e' he he'
      (same_trans hes (same_trans hsame (same_symm hes')))
    exact ⟨hd, hid.symm.trans (hids.trans hid')⟩

/-- A new object takes a number that none of the others has. -/
theorem Issues.numbered {did : Did} {conn : LocalConn P}
    (a : Issues (fun d e => d = did ∧ e = conn) h h') (hn : Numbered h)
    (hspent : Spent h conn.ws conn.hello)
    (hnew : ∀ d, ∀ e ∈ (h.localMap d).rows, e.same conn = false) : Numbered h' := by
  refine ⟨fun ws v hv => ?_, fun d e' he' => ?_, fun d d' x x' hx hx' hsame => ?_⟩
  · rcases a.verifying ws v hv with hv | ⟨-, hlt⟩
    · exact lt_of_lt_of_le (hn.verifying ws v hv) (a.hellos ws)
    · exact hlt
  · rcases a.entries d e' he' with ⟨e, he, hsame, -⟩ | ⟨-, rfl⟩
    · exact a.spent ((hn.spent d e he).same hsame)
    · exact a.spent hspent
  · rcases a.entries d x hx with ⟨e, he, hes, hid⟩ | ⟨rfl, rfl⟩
    · rcases a.entries d' x' hx' with ⟨e', he', hes', hid'⟩ | ⟨-, rfl⟩
      · obtain ⟨hd, hids⟩ := hn.unique d d' e e' he he'
          (same_trans hes (same_trans hsame (same_symm hes')))
        exact ⟨hd, hid.symm.trans (hids.trans hid')⟩
      · cases (hnew d e he).symm.trans (same_trans hes hsame)
    · rcases a.entries d' x' hx' with ⟨e', he', hes', -⟩ | ⟨rfl, rfl⟩
      · cases (hnew d' e' he').symm.trans (same_trans hes' (same_symm hsame))
      · exact ⟨rfl, rfl⟩

theorem Issues.gone (a : Issues mint h h') {c : LocalConn P} (hg : Gone h c)
    (hmint : ∀ did e, mint did e → e.same c = false) : Gone h' c := by
  refine ⟨a.spent hg.1, fun did e' he' => ?_⟩
  cases hsame : e'.same c with
  | false => rfl
  | true =>
    rcases a.entries did e' he' with ⟨e, he, hold, -⟩ | hnew
    · exact (same_trans hold hsame).symm.trans (hg.2 did e he)
    · exact hsame.symm.trans (hmint did e' hnew)

/-- An event registers nobody anew, or the object of a hello that awaits verification. -/
def Steps (h h' : Hub P I) : Prop :=
  Keeps h h' ∨ ∃ now ws hello did device, (hello, some device) ∈ (h.socks ws).verifying ∧
    Issues (fun d e => d = did ∧ e = helloConn now ws hello did device) (h.awaited ws hello) h'

theorem awaited_spent {h : Hub P I} (hn : Numbered h) {ws : SockId} {hello : ℕ}
    {device : Option (HelloDevice P)} (hv : (hello, device) ∈ (h.socks ws).verifying) :
    Spent (h.awaited ws hello) ws hello := by
  unfold Spent awaited
  rw [setSock_same]
  exact ⟨hn.verifying ws _ hv, fun v hv => of_decide_eq_true (List.mem_filter.1 hv).2⟩

theorem Steps.numbered (s : Steps h h') (hn : Numbered h) : Numbered h' := by
  rcases s with hk | ⟨now, ws, hello, did, device, hv, hi⟩
  · exact hk.numbered hn
  · refine hi.numbered ((awaited_keeps h ws hello).numbered hn) (awaited_spent hn hv) fun d e he => ?_
    cases hsame : e.same (helloConn now ws hello did device) with
    | false => rfl
    | true => exact absurd rfl (((hn.spent d e he).same hsame).2 _ hv)

theorem Steps.gone (s : Steps h h') {c : LocalConn P} (hg : Gone h c) : Gone h' c := by
  rcases s with hk | ⟨now, ws, hello, did, device, hv, hi⟩
  · exact hk.gone hg fun _ _ => False.elim
  · refine hi.gone ((awaited_keeps h ws hello).gone hg fun _ _ => False.elim) ?_
    rintro d e ⟨-, rfl⟩
    cases hsame : (helloConn now ws hello did device).same c with
    | false => rfl
    | true => exact absurd rfl ((hg.1.same (same_symm hsame)).2 _ hv)

/-- Only a completed hello registers anybody. -/
theorem keeps_handle [DecidableEq I] (h : Hub P I) {i : Input P I}
    (hi : ∀ ws hello did, i.event ≠ .verified ws hello did) : Keeps h (h.handle i) := by
  obtain ⟨now, event⟩ := i
  have hrefl : Keeps h h := (SameLocal.refl h).keeps
  cases event with
  | frame ws msg =>
    simp only [handle]
    split
    · exact hrefl
    · exact uncaught_issues (message_keeps h ws msg)
  | verified ws hello did => exact (hi ws hello did rfl).elim
  | rejected ws hello message =>
    simp only [handle, onRejected]
    split
    · exact hrefl
    · have hsent := (send_view (h.awaited ws hello) ws (.error "AuthFailed" message)).toSameRegs
      have hclosed := ((awaited_keeps h ws hello).trans_regs hsent).trans
        (close_keeps _ ws 4001 "auth failed")
      exact hclosed.trans (helloDone_keeps _ ws none)
  | helloTimeout ws =>
    simp only [handle, onHelloTimeout]
    split
    · have hset : Keeps h (h.setSock ws { h.socks ws with helloTimer := false }) :=
        keepSock_keeps h ws rfl rfl
      split
      · exact hset.trans (close_keeps _ ws 4008 "hello timeout")
      · exact hset
    · exact hrefl
  | pong ws =>
    simp only [handle, onPong]
    split
    · exact hrefl
    · exact markAlive_keeps h _
  | closing ws => exact terminate_keeps h ws
  | close ws =>
    simp only [handle]
    split
    · exact hrefl
    · have hset : Keeps h
          (h.setSock ws { h.socks ws with readyState := .closed, helloTimer := false }) :=
        keepSock_keeps h ws rfl rfl
      refine uncaught_issues ?_
      unfold onClose
      dsimp only
      split
      · exact hset
      · exact hset.trans (removeConn_keeps _ _)
  | tick => exact uncaught_issues (onTick_keeps h now)
  | relay msg => exact (onRelay_local h now msg).keeps

theorem verified_keeps {h : Hub P I} {ws : SockId} {hello : ℕ}
    (hlookup : ∀ device, (h.socks ws).verifying.lookup hello ≠ some (some device)) (now : ℕ)
    (did : Did) : Keeps h (h.onVerified now ws hello did).hub := by
  unfold onVerified
  cases hv : (h.socks ws).verifying.lookup hello with
  | none => exact (SameLocal.refl h).keeps
  | some device =>
    cases device with
    | none => exact awaited_keeps h ws hello
    | some device => exact (hlookup device hv).elim

theorem steps_handle [DecidableEq I] (h : Hub P I) (i : Input P I) : Steps h (h.handle i) := by
  by_cases hi : ∃ ws hello did, i.event = .verified ws hello did
  · obtain ⟨now, event⟩ := i
    obtain ⟨ws, hello, did, rfl⟩ := hi
    simp only [handle]
    by_cases hdevice : ∃ device, (h.socks ws).verifying.lookup hello = some (some device)
    · obtain ⟨device, hlookup⟩ := hdevice
      exact .inr ⟨now, ws, hello, did, device, mem_of_lookup hlookup,
        uncaught_issues (verified_issues hlookup now did).1⟩
    · exact .inl (uncaught_issues (verified_keeps (fun device hd => hdevice ⟨device, hd⟩) now did))
  · exact .inl (keeps_handle h fun ws hello did he => hi ⟨ws, hello, did, he⟩)

theorem numbered_init (id : I) (redis : Bool) : Numbered (init id redis : Hub P I) := by
  refine ⟨fun _ _ hv => ?_, fun _ _ he => ?_, fun _ _ _ _ he => ?_⟩
  · cases hv
  · cases he
  · cases he

section Run

variable [DecidableEq I]

theorem Numbered.step (hn : Numbered h) (i : Input P I) : Numbered (h.step i) := by
  have h0 : Numbered { h with out := [] } := ⟨hn.verifying, hn.spent, hn.unique⟩
  unfold Hub.step
  split
  · exact h0
  · exact (steps_handle _ i).numbered h0

theorem Gone.step {c : LocalConn P} (hg : Gone h c) (i : Input P I) : Gone (h.step i) c := by
  have h0 : Gone { h with out := [] } c := hg
  unfold Hub.step
  split
  · exact h0
  · exact (steps_handle _ i).gone h0

theorem numbered_run (id : I) (redis : Bool) (es : List (Input P I)) :
    Numbered (run step (init id redis) es) :=
  run_kept (I := Numbered) (fun _ i hn => hn.step i) (numbered_init id redis) es

theorem gone_run {c : LocalConn P} (hg : Gone h c) (es : List (Input P I)) :
    Gone (run step h es) c :=
  run_kept (I := (Gone · c)) (fun _ i hg => hg.step i) hg es

omit [DecidableEq I] in
/-- The event completes a hello on another socket for the account and the device of a registered
connection. -/
def Replaces (h : Hub P I) (i : Input P I) (c : LocalConn P) : Prop :=
  h.crashed = false ∧ ∃ ws hello did device, i.event = .verified ws hello did ∧
    (h.socks ws).verifying.lookup hello = some (some device) ∧
    (h.localMap did).get device.id = some c ∧ ws ≠ c.ws

omit [DecidableEq I] in
/-- The same on any socket, the connection's own included. -/
def Displaces (h : Hub P I) (i : Input P I) (c : LocalConn P) : Prop :=
  h.crashed = false ∧ ∃ ws hello did device, i.event = .verified ws hello did ∧
    (h.socks ws).verifying.lookup hello = some (some device) ∧
    (h.localMap did).get device.id = some c

omit [DecidableEq I] in
theorem Replaces.displaces {i : Input P I} {c : LocalConn P} (hr : Replaces h i c) :
    Displaces h i c := by
  obtain ⟨hrunning, ws, hello, did, device, hevent, hlookup, hget, -⟩ := hr
  exact ⟨hrunning, ws, hello, did, device, hevent, hlookup, hget⟩

theorem gone_of_displaces (hn : Numbered h) {i : Input P I} {c : LocalConn P}
    (hr : Displaces h i c) : Gone (h.step i) c := by
  obtain ⟨now, event⟩ := i
  obtain ⟨hrunning, ws, hello, did, device, rfl, hlookup, hget⟩ := hr
  have h0 : Numbered { h with out := [] } := ⟨hn.verifying, hn.spent, hn.unique⟩
  obtain ⟨hi, hlocal⟩ := verified_issues (h := { h with out := [] }) hlookup now did
  obtain ⟨hc, hid⟩ := ((h.localMap did).get_eq_some _ _).1 hget
  -- the number of a registered object is used up, that of the hello is not
  have hother : (helloConn now ws hello did device).same c = false := by
    have hv : (hello, some device) ∈ (h.socks ws).verifying := mem_of_lookup hlookup
    cases hsame : (helloConn now ws hello did device).same c with
    | false => rfl
    | true => exact absurd rfl (((hn.spent did c hc).same (same_symm hsame)).2 _ hv)
  have hgone : Gone (Hub.onVerified { h with out := [] } now ws hello did).hub c := by
    have ha := awaited_keeps { h with out := [] } ws hello
    refine ⟨hi.spent (ha.spent (h0.spent did c hc)), fun d e' he' => ?_⟩
    cases hsame : e'.same c with
    | false => rfl
    | true =>
      rcases hi.entries d e' he' with ⟨e, he, hold, hids⟩ | ⟨-, rfl⟩
      · -- an entry like the old one has its key, which is the new one's
        obtain ⟨rfl, hkey⟩ := hn.unique d did e c he hc (same_trans hold hsame)
        have hd : d = (helloConn now ws hello d device).did := rfl
        rw [hlocal, register_localMap, if_pos hd] at he'
        have hnew := (Table.mem_put _ (helloConn now ws hello d device) e').1 he'
        rcases hnew with rfl | ⟨-, hne⟩
        · exact hsame.symm.trans hother
        · exact absurd (hids.symm.trans (hkey.trans hid)) hne
      · exact hsame.symm.trans hother
  unfold Hub.step
  rw [if_neg (by rw [hrunning]; exact Bool.false_ne_true)]
  simp only [handle]
  cases ho : Hub.onVerified { h with out := [] } now ws hello did with
  | ok h' =>
    rw [ho] at hgone
    exact hgone
  | error h' =>
    rw [ho] at hgone
    exact hgone

end Run

end Identity

/-! ### What a frame does -/

variable {I : Type} {h h' : Hub protocol I}

/-- No entry, no presence value, no message on the relay, no roster and no command. -/
structure Inert (h h' : Hub protocol I) : Prop where
  localMap : ∀ did, h'.localMap did = h.localMap did
  remoteMap : ∀ did, h'.remoteMap did = h.remoteMap did
  presence : ∀ did, h'.lastPlaying did = h.lastPlaying did
  published : published h'.out = []
  rosters : ∀ ws devices, Effect.sent ws (.devices devices) ∉ h'.out
  commands : ∀ ws src cmd, Effect.sent ws (.command src cmd) ∉ h'.out

theorem SameView.inert (a : SameView h h') (hout : h'.out = []) : Inert h h' := by
  refine ⟨a.localMap, a.remoteMap, a.lastPlaying, ?_, fun ws devices => ?_, fun ws src cmd => ?_⟩
  · rw [hout]
    rfl
  · rw [hout]
    exact List.not_mem_nil
  · rw [hout]
    exact List.not_mem_nil

/-- The sockets of the registered devices of an account are closing. -/
def Unreachable (h : Hub protocol I) (did : Did) : Prop :=
  ∀ e ∈ (h.localMap did).rows, (h.socks e.ws).readyState ≠ .open

theorem send_out {ws : SockId} (hws : (h.socks ws).readyState ≠ .open) (msg : ServerMsg protocol) :
    h.send ws msg = h := if_neg hws

theorem sendAll_silent {msgs : List (SockId × ServerMsg protocol)}
    (hmsgs : ∀ m ∈ msgs, (h.socks m.1).readyState ≠ .open) : h.sendAll msgs = h := by
  unfold sendAll
  induction msgs with
  | nil => rfl
  | cons m msgs ih =>
    rw [List.foldl_cons, send_out (hmsgs m (List.mem_cons_self ..))]
    exact ih fun m' hm' => hmsgs m' (List.mem_cons_of_mem _ hm')

theorem SameRegs.unreachable (a : SameRegs h h') {did : Did} (hu : Unreachable h did) :
    Unreachable h' did := by
  unfold Unreachable
  rw [a.localMap, a.socks]
  exact hu

/-- Nothing is sent to sockets that are closing. -/
theorem broadcast_silent {did : Did} (hu : Unreachable h did) :
    ((h.broadcastRoster did).reconcilePresence did).hub.out = h.out := by
  have hroster : h.broadcastRoster did = h.makeMaps did := by
    refine sendAll_silent fun m hm => ?_
    obtain ⟨c, hc, rfl⟩ := List.mem_map.1 hm
    rw [(makeMaps_view h did).socks]
    exact hu c hc
  have hpresence (g : Hub protocol I) (hg : Unreachable g did) (now : Bool) :
      g.sendPresence did now = g := by
    refine sendAll_silent fun m hm => ?_
    obtain ⟨c, hc, rfl⟩ := List.mem_map.1 hm
    exact hg c hc
  have hmade := (makeMaps_view h did).toSameRegs.trans
    (makeMaps_view (h.makeMaps did) did).toSameRegs
  have hset := hmade.trans (setLastPlaying_regs _ did (((h.makeMaps did).makeMaps did).sees did))
  have hquiet := hset.unreachable hu
  have hout : (((h.makeMaps did).makeMaps did).setLastPlaying did
      (((h.makeMaps did).makeMaps did).sees did)).out = h.out :=
    (makeMaps_out _ did).trans (makeMaps_out h did)
  rw [hroster]
  unfold reconcilePresence
  dsimp only
  rw [anyPlaying_sees]
  dsimp only
  generalize ((h.makeMaps did).makeMaps did).setLastPlaying did
    (((h.makeMaps did).makeMaps did).sees did) = g at *
  split
  · split
    · exact hout
    · rw [hpresence g hquiet]
      exact hout
    · rename_i owner howner
      have howned : owner ∈ (g.localMap did).rows := by
        unfold cleanupOwner at howner
        split at howner
        · cases howner
        · obtain ⟨d, -, hget⟩ := Option.map_eq_some_iff.1 howner
          exact (((g.localMap did).get_eq_some _ _).1 hget).1
      rw [send_out (hquiet owner howned), hpresence g hquiet]
      exact hout
  · rw [hpresence g hquiet]
    exact hout

theorem send_mem {e : Effect protocol I} (he : e ∈ h.out) (ws : SockId) (msg : ServerMsg protocol) :
    e ∈ (h.send ws msg).out := by
  unfold send
  split
  · exact List.mem_append_left _ he
  · exact he

theorem sendAll_mem {e : Effect protocol I} (he : e ∈ h.out)
    (msgs : List (SockId × ServerMsg protocol)) : e ∈ (h.sendAll msgs).out := by
  induction msgs generalizing h with
  | nil => exact he
  | cons m msgs ih => exact ih (send_mem he m.1 m.2)

theorem mem_sendAll {msgs : List (SockId × ServerMsg protocol)} {m : SockId × ServerMsg protocol}
    (hm : m ∈ msgs) (hopen : (h.socks m.1).readyState = .open) :
    Effect.sent m.1 m.2 ∈ (h.sendAll msgs).out := by
  induction msgs generalizing h with
  | nil => cases hm
  | cons n msgs ih =>
    rcases List.mem_cons.1 hm with rfl | hm
    · have hsent : Effect.sent m.1 m.2 ∈ (h.send m.1 m.2).out := by
        unfold send
        rw [if_pos hopen]
        exact List.mem_append_right _ (List.mem_singleton_self _)
      exact sendAll_mem hsent msgs
    · refine ih hm ?_
      rw [(send_view h n.1 n.2).socks]
      exact hopen

theorem reconcile_mem (did : Did) {e : Effect protocol I} (he : e ∈ h.out) :
    e ∈ (h.reconcilePresence did).hub.out := by
  have hmade (b : Bool) : e ∈ ((h.makeMaps did).setLastPlaying did b).out := by
    show e ∈ (h.makeMaps did).out
    rw [makeMaps_out]
    exact he
  unfold reconcilePresence
  dsimp only
  rw [anyPlaying_sees]
  dsimp only
  split
  · split
    · exact hmade _
    · exact sendAll_mem (hmade _) _
    · exact sendAll_mem (send_mem (hmade _) _ _) _
  · exact sendAll_mem (hmade _) _

/-- A registered device with an open socket is sent the roster. -/
theorem roster_sent {did : Did} {c : LocalConn protocol} (hc : c ∈ (h.localMap did).rows)
    (hopen : (h.socks c.ws).readyState = .open) :
    ∃ devices, Effect.sent c.ws (.devices devices) ∈
      ((h.broadcastRoster did).reconcilePresence did).hub.out := by
  refine ⟨(h.roster did).map fun d => toDeviceInfo d c.deviceId, reconcile_mem did ?_⟩
  have hm : (c.ws, ServerMsg.devices ((h.roster did).map fun d => toDeviceInfo d c.deviceId)) ∈
      (h.localMap did).rows.map fun conn => (conn.ws, ServerMsg.devices
        ((h.roster did).map fun d => toDeviceInfo d conn.deviceId)) :=
    List.mem_map.2 ⟨c, hc, rfl⟩
  refine mem_sendAll hm ?_
  rw [(makeMaps_view h did).socks]
  exact hopen

theorem uncaught_inert {o : Outcome protocol I} : Inert h o.uncaught ↔ Inert h o.hub := by
  cases o with
  | ok h' => exact Iff.rfl
  | error h' =>
    exact ⟨fun hi => ⟨hi.localMap, hi.remoteMap, hi.presence, hi.published, hi.rosters, hi.commands⟩,
      fun hi => ⟨hi.localMap, hi.remoteMap, hi.presence, hi.published, hi.rosters, hi.commands⟩⟩

/-- A state frame of an unregistered connection is passed on like any other. -/
theorem state_inert_iff (hf : Follows h) (hout : h.out = []) {conn : LocalConn protocol}
    (hr : h.registered conn = false) (state : protocol.State) :
    Inert h (h.handleState conn state).hub ↔ h.redis = false ∧ Unreachable h conn.did := by
  have hstore : h.store { conn with state := state } = h.storeClosure { conn with state := state } :=
    store_unregistered hr
  obtain ⟨hlocal, hremote, hlast, hstored⟩ := storeClosure_rest h { conn with state := state }
  have hstill := storeClosure_still h { conn with state := state }
  have hproc := storeClosure_proc h { conn with state := state }
  have hsocks := storeClosure_socks h { conn with state := state }
  unfold handleState
  dsimp only
  rw [hstore]
  generalize h.storeClosure { conn with state := state } = g at *
  have hlocal' (did : Did) : g.localMap did = h.localMap did := congrArg
    (fun r => (JsMap.find r did).getD Table.empty) hlocal
  have hremote' (did : Did) : g.remoteMap did = h.remoteMap did := congrArg
    (fun r => (JsMap.find r did).getD Table.empty) hremote
  constructor
  · intro hi
    constructor
    · by_contra hredis
      have hg : g.redis = true := hproc.redis.trans (Bool.not_eq_false _ ▸ hredis)
      have hpublished := hi.published
      rw [broadcast_published, publish_published hg] at hpublished
      exact absurd hpublished (by simp)
    · intro e he hopen
      have hv := publish_view g (.update g.instanceId { conn with state := state })
      rw [← hlocal', ← hv.localMap] at he
      rw [← hsocks, ← congrFun hv.socks e.ws] at hopen
      obtain ⟨devices, hsent⟩ := roster_sent he hopen
      exact hi.rosters e.ws devices hsent
  · rintro ⟨hredis, hu⟩
    have hg : g.redis = false := hproc.redis.trans hredis
    have hquiet : g.publish (.update g.instanceId { conn with state := state }.toWireDevice) = g :=
      if_neg (by rw [hg]; exact Bool.false_ne_true)
    have hug : Unreachable g conn.did := by
      intro e he
      rw [hlocal'] at he
      rw [hsocks]
      exact hu e he
    rw [hquiet]
    have ht := broadcast_tells g conn.did
    have hnothing : ((g.broadcastRoster conn.did).reconcilePresence conn.did).hub.out = [] :=
      (broadcast_silent hug).trans (hstored.trans hout)
    refine ⟨fun did => (ht.regs.localMap did).trans (hlocal' did),
      fun did => (ht.regs.remoteMap did).trans (hremote' did), fun did => ?_, ?_, fun ws devices => ?_,
      fun ws src cmd => ?_⟩
    · rw [ht.last]
      split
      · rename_i hd
        rw [hd, (hstill conn.did).1]
        exact (hf conn.did).symm
      · exact (hstill did).2
    · rw [hnothing]
      rfl
    · rw [hnothing]
      exact List.not_mem_nil
    · rw [hnothing]
      exact List.not_mem_nil

/-- The command is addressed to the device itself, to one whose socket is closing, or to none here
and there is no relay. -/
def Undelivered (h : Hub protocol I) (conn : LocalConn protocol) (target : String) : Prop :=
  target = conn.deviceId ∨
    match (h.localMap conn.did).get target with
    | some e => (h.socks e.ws).readyState ≠ .open
    | none => h.redis = false

theorem command_inert_iff (hout : h.out = []) (conn : LocalConn protocol) (target : String)
    (cmd : Command) : Inert h (h.handleCommand conn target cmd) ↔ Undelivered h conn target := by
  have hview := handleCommand_view h conn target cmd
  have hmade := makeLocalMap_view h conn.did
  have hmadeOut : (h.makeLocalMap conn.did).out = [] := (makeLocalMap_out h conn.did).trans hout
  unfold Undelivered
  unfold handleCommand at hview ⊢
  by_cases hself : target = conn.deviceId
  · rw [if_pos hself]
    exact iff_of_true ((SameView.refl h).inert hout) (.inl hself)
  · rw [if_neg hself] at hview ⊢
    unfold deliverCommand at hview ⊢
    dsimp only at hview ⊢
    rw [hmade.localMap] at hview ⊢
    cases hget : (h.localMap conn.did).get target with
    | some e =>
      rw [hget] at hview
      dsimp only at hview ⊢
      constructor
      · intro hi
        refine .inr fun hopen => hi.commands e.ws conn.deviceId cmd ?_
        rw [← congrFun hmade.socks e.ws] at hopen
        unfold send
        rw [if_pos hopen]
        exact List.mem_append_right _ (List.mem_singleton_self _)
      · intro hcond
        refine hview.inert ?_
        rw [send_out]
        · exact hmadeOut
        · rw [hmade.socks]
          exact hcond.resolve_left hself
    | none =>
      rw [hget] at hview
      dsimp only at hview ⊢
      constructor
      · intro hi
        refine .inr ?_
        by_contra hredis
        have hrelay : (h.makeLocalMap conn.did).redis = true :=
          hmade.redis.trans (Bool.not_eq_false _ ▸ hredis)
        have hpublished := hi.published
        rw [publish_published hrelay] at hpublished
        exact absurd hpublished (by simp)
      · intro hcond
        refine hview.inert ?_
        have hredis : (h.makeLocalMap conn.did).redis = false :=
          hmade.redis.trans (hcond.resolve_left hself)
        unfold publish
        rw [if_neg (by rw [hredis]; exact Bool.false_ne_true)]
        exact hmadeOut

/-! ### After the replacement -/

variable [DecidableEq I]

omit [DecidableEq I] in
theorem unregistered_of_gone {c conn : LocalConn protocol} (hg : Gone h c)
    (hsame : conn.same c = true) : h.registered conn = false := by
  unfold registered
  cases hget : (h.localMap conn.did).get conn.deviceId with
  | none => rfl
  | some e =>
    have he := (((h.localMap conn.did).get_eq_some _ _).1 hget).1
    cases hold : e.same conn with
    | false => exact hold
    | true => cases (hg.2 conn.did e he).symm.trans (same_trans hold hsame)

/-- On the socket of a replaced connection a state frame does nothing where there is neither a relay
nor a device of the account to tell, a command frame where it is not delivered. -/
theorem superseded_inert_iff (id : I) (redis : Bool) (es fs : List (Input protocol I))
    (i : Input protocol I) (c : LocalConn protocol)
    (hr : Replaces (run step (init id redis) es) i c) :
    let h := run step (init id redis) (es ++ i :: fs)
    h.crashed = false → (h.socks c.ws).readyState ≠ .closed →
    ∀ conn, (h.socks c.ws).conn = some conn → conn.same c = true →
      (∀ now state, Inert h (h.step ⟨now, .frame c.ws (.state state)⟩) ↔
        h.redis = false ∧ Unreachable h conn.did) ∧
      ∀ now target cmd, Inert h (h.step ⟨now, .frame c.ws (.command target cmd)⟩) ↔
        Undelivered h conn target := by
  intro h hrunning hopen conn hconn hsame
  have hg : Gone h c := by
    have hstep := gone_of_displaces (numbered_run id redis es) hr.displaces
    have hrun : h = run step ((run step (init id redis) es).step i) fs := by
      rw [← run_cons, ← run_append]
    rw [hrun]
    exact gone_run hstep fs
  have hf : Follows h := follows_run id redis (es ++ i :: fs)
  have hregistered := unregistered_of_gone hg hsame
  have hclear {g : Hub protocol I} : Inert h g ↔ Inert { h with out := [] } g :=
    ⟨fun hi => ⟨hi.localMap, hi.remoteMap, hi.presence, hi.published, hi.rosters, hi.commands⟩,
      fun hi => ⟨hi.localMap, hi.remoteMap, hi.presence, hi.published, hi.rosters, hi.commands⟩⟩
  have hstep (now : ℕ) (msg : Frame protocol) : h.step ⟨now, .frame c.ws msg⟩ =
      (Hub.onMessage { h with out := [] } c.ws msg).uncaught := by
    unfold Hub.step
    rw [if_neg (by rw [hrunning]; exact Bool.false_ne_true)]
    exact if_neg hopen
  constructor
  · intro now state
    rw [hstep, hclear, uncaught_inert]
    unfold onMessage
    dsimp only
    rw [hconn]
    exact state_inert_iff (h := { h with out := [] }) hf rfl hregistered state
  · intro now target cmd
    rw [hstep, hclear, uncaught_inert]
    unfold onMessage
    dsimp only
    rw [hconn]
    exact command_inert_iff (h := { h with out := [] }) rfl conn target cmd

/-- Device "A" is connected, and a new socket says hello for it. -/
def reconnects : List (Input protocol Unit) :=
  [⟨0, .frame 0 (.hello (some (sampleDevice "A" false)))⟩, ⟨1, .verified 0 0 "did:a"⟩,
   ⟨2, .frame 1 (.hello (some (sampleDevice "A" false)))⟩]

def replacing : Input protocol Unit := ⟨3, .verified 1 0 "did:a"⟩

def replaced : LocalConn protocol := helloConn 1 0 0 "did:a" (sampleDevice "A" false)

theorem reconnects_replaces : Replaces (run step (init () false) reconnects) replacing replaced :=
  ⟨rfl, 1, 0, "did:a", sampleDevice "A" false, rfl, rfl, rfl, by decide⟩

/-- The new connection is about to go down too, and there is no relay. -/
theorem closing_inert :
    let h := run step (init () false) (reconnects ++ replacing :: [⟨4, .closing 1⟩])
    Inert h (h.step ⟨5, .frame 0 (.state (sampleDevice "A" true).state)⟩) := by
  refine ((superseded_inert_iff () false reconnects [⟨4, .closing 1⟩] replacing replaced
    reconnects_replaces rfl (by decide) replaced rfl (same_refl _)).1 5 _).2 ⟨rfl, fun e he => ?_⟩
  rw [List.mem_singleton.1 he]
  decide

/-- The new connection is sent the state of the old one. -/
theorem superseded_told :
    ¬ ∀ (es fs : List (Input protocol Unit)) (i : Input protocol Unit) (c : LocalConn protocol),
      Replaces (run step (init () false) es) i c →
      let h := run step (init () false) (es ++ i :: fs)
      h.crashed = false → (h.socks c.ws).readyState ≠ .closed →
      ∀ conn, (h.socks c.ws).conn = some conn → conn.same c = true →
        ∀ now state, Inert h (h.step ⟨now, .frame c.ws (.state state)⟩) := by
  intro h
  have hinert := h reconnects [] replacing replaced reconnects_replaces rfl (by decide) replaced rfl
    (same_refl _) 4 (sampleDevice "A" true).state
  exact hinert.rosters 1 _ (List.mem_of_getElem? (i := 0) rfl)

end Atradio.Connect.Hub
