import Atradio.Connect.Views

/-! # The connection objects

Every connection object is made by a hello, for the verified account on the socket that
asked. Handlers assign to its `state` and `alive` only, so whatever does not depend on
these and holds when a verification completes holds of every object the hub knows. In the
same way the devices that await verification are those the hello frames carried. -/

namespace Atradio.Connect.Hub
open Atradio.Lib

variable {P : Payload} {I : Type}

/-- Every connection is found on its own socket and under its own DID, and is in `Q`; every
device that awaits verification is in `D`. -/
structure Held (Q : LocalConn P → Prop) (D : Option (HelloDevice P) → Prop) (h : Hub P I) :
    Prop where
  own : ∀ ws c, (h.socks ws).conn = some c → c.ws = ws ∧ Q c
  filed : ∀ did c, c ∈ (h.localMap did).rows → c.did = did ∧ Q c
  pending : ∀ ws v, v ∈ (h.socks ws).verifying → D v.2

/-- `Q` is about the account, the device and the socket of a connection. -/
structure Stable (Q : LocalConn P → Prop) : Prop where
  state : ∀ c state, Q c → Q { c with state := state }
  alive : ∀ c alive, Q c → Q { c with alive := alive }

/-- A hello frame carries a device in `D`, and a verification makes an object in `Q`. -/
def HeldGuard (Q : LocalConn P → Prop) (D : Option (HelloDevice P) → Prop) (i : Input P I) : Prop :=
  match i.event with
  | .frame _ (.hello device) => D device
  | .verified ws hello did => ∀ device, Q (helloConn i.now ws hello did device)
  | _ => True

variable {Q : LocalConn P → Prop} {D : Option (HelloDevice P) → Prop}

theorem Held.weaken {Q' : LocalConn P → Prop}
    {D' : Option (HelloDevice P) → Prop} {h : Hub P I} (hh : Held Q D h)
    (hQ : ∀ c, Q c → Q' c) (hD : ∀ device, D device → D' device) : Held Q' D' h :=
  ⟨fun ws c hc => ⟨(hh.own ws c hc).1, hQ c (hh.own ws c hc).2⟩,
    fun did c hc => ⟨(hh.filed did c hc).1, hQ c (hh.filed did c hc).2⟩,
    fun ws v hv => hD v.2 (hh.pending ws v hv)⟩

theorem Held.clear {h : Hub P I} (hh : Held Q D h) : Held Q D { h with out := [] } :=
  ⟨hh.own, hh.filed, hh.pending⟩

theorem SameLocal.held {h h' : Hub P I} (a : SameLocal h h') (hh : Held Q D h) : Held Q D h' := by
  refine ⟨?_, fun did c hc => ?_, ?_⟩
  · rw [a.socks]
    exact hh.own
  · rw [a.localMap] at hc
    exact hh.filed did c hc
  · rw [a.socks]
    exact hh.pending

theorem Held.setSock {h : Hub P I} (hh : Held Q D h) (ws : SockId) {s : Sock P}
    (hconn : ∀ c, s.conn = some c → c.ws = ws ∧ Q c) (hpend : ∀ v ∈ s.verifying, D v.2) :
    Held Q D (h.setSock ws s) := by
  refine ⟨fun ws' c hc => ?_, hh.filed, fun ws' v hv => ?_⟩
  · by_cases hw : ws' = ws
    · subst hw
      simp only [Hub.setSock, ite_true] at hc
      exact hconn c hc
    · simp only [Hub.setSock, hw, ite_false] at hc
      exact hh.own ws' c hc
  · by_cases hw : ws' = ws
    · subst hw
      simp only [Hub.setSock, ite_true] at hv
      exact hpend v hv
    · simp only [Hub.setSock, hw, ite_false] at hv
      exact hh.pending ws' v hv

theorem Held.keepSock {h : Hub P I} (hh : Held Q D h) (ws : SockId) {s : Sock P}
    (hconn : s.conn = (h.socks ws).conn) (hpend : ∀ v ∈ s.verifying, D v.2) :
    Held Q D (h.setSock ws s) :=
  hh.setSock ws (fun c hc => hh.own ws c (hconn ▸ hc)) hpend

theorem Held.close {h : Hub P I} (hh : Held Q D h) (ws : SockId) (code : ℕ) (reason : String) :
    Held Q D (h.close ws code reason) := by
  unfold Hub.close
  split
  · exact (effect_view _ _).toSameRegs.toLocal.held (hh.keepSock ws rfl (hh.pending ws))
  · exact hh

theorem Held.terminate {h : Hub P I} (hh : Held Q D h) (ws : SockId) : Held Q D (h.terminate ws) := by
  unfold Hub.terminate
  split
  · exact hh.keepSock ws rfl (hh.pending ws)
  · exact hh

theorem Held.setLocalMap {h : Hub P I} (hh : Held Q D h) (did : Did) {m : LocalMap P}
    (hm : ∀ c ∈ m.rows, c.did = did ∧ Q c) : Held Q D (h.setLocalMap did m) := by
  refine ⟨hh.own, fun d c hc => ?_, hh.pending⟩
  rw [setLocalMap_localMap] at hc
  split at hc
  · rename_i hd
    rw [hd]
    exact hm c hc
  · exact hh.filed d c hc

theorem Held.putLocal {h : Hub P I} (hh : Held Q D h) {conn : LocalConn P} (hq : Q conn) :
    Held Q D (h.setLocalMap conn.did ((h.localMap conn.did).put conn)) := by
  refine hh.setLocalMap conn.did fun c hc => ?_
  rcases (Table.mem_put _ _ _).1 hc with rfl | hc
  · exact ⟨rfl, hq⟩
  · exact hh.filed conn.did c hc.1

theorem Held.store {h : Hub P I} (hh : Held Q D h) (hQ : Stable Q) {conn : LocalConn P}
    (hq : Q conn) : Held Q D (h.store conn) := by
  have h1 : Held Q D (h.storeClosure conn) := by
    unfold storeClosure
    split
    · split
      · refine hh.setSock conn.ws (fun c hc => ?_) (hh.pending conn.ws)
        obtain rfl := Option.some.inj hc
        exact ⟨rfl, hq⟩
      · exact hh
    · exact hh
  unfold Hub.store storeRegistry
  split
  · rename_i c _
    split
    · exact h1.putLocal (hQ.alive conn c.alive hq)
    · exact h1
  · exact h1

theorem Held.markAlive {h : Hub P I} (hh : Held Q D h) (hQ : Stable Q) (conn : LocalConn P) :
    Held Q D (h.markAlive conn) := by
  unfold Hub.markAlive
  cases he : (h.localMap conn.did).get conn.deviceId with
  | none => exact hh
  | some e =>
    have hmem := hh.filed conn.did e ((Table.get_eq_some _ _ _).1 he).1
    dsimp only
    split
    · refine hh.setLocalMap conn.did fun c hc => ?_
      rcases (Table.mem_put _ _ _).1 hc with rfl | hc
      · exact ⟨hmem.1, hQ.alive e true hmem.2⟩
      · exact hh.filed conn.did c hc.1
    · exact hh

theorem Held.deleteLocal {h : Hub P I} (hh : Held Q D h) (did : Did) (id : P.Id) :
    Held Q D (h.deleteLocal did id) := by
  have hsocks := (deleteLocal_rest h did id).1
  refine ⟨?_, fun d c hc => ?_, ?_⟩
  · rw [hsocks]
    exact hh.own
  · rw [deleteLocal_localMap] at hc
    split at hc
    · rename_i hd
      rw [hd]
      exact hh.filed did c ((Table.mem_delete _ _ _).1 hc).1
    · exact hh.filed d c hc
  · rw [hsocks]
    exact hh.pending

theorem Held.register {h : Hub P I} (hh : Held Q D h) {conn : LocalConn P} (hq : Q conn) :
    Held Q D (h.register conn) := by
  have h1 : Held Q D (h.makeLocalMap conn.did) :=
    (makeLocalMap_view h conn.did).toSameRegs.toLocal.held hh
  have h2 : Held Q D ((h.makeLocalMap conn.did).replacePrior conn) := by
    unfold replacePrior
    split
    · split
      · exact h1
      · exact h1.close _ _ _
    · exact h1
  exact h2.putLocal hq

theorem Held.removeConn {h : Hub P I} (hh : Held Q D h) (conn : LocalConn P) :
    Held Q D (h.removeConn conn).hub := by
  unfold Hub.removeConn
  split
  · exact hh
  · have h1 := hh.deleteLocal conn.did conn.deviceId
    exact (broadcast_reconcile_regs _ conn.did).toLocal.held
      ((publish_view _ _).toSameRegs.toLocal.held h1)

theorem Held.pingAll {h : Hub P I} (hh : Held Q D h) (hQ : Stable Q) : Held Q D h.pingAll := by
  have hterm : ∀ (conns : List (LocalConn P)) (g : Hub P I), Held Q D g →
      Held Q D (g.terminateAll conns) := by
    intro conns
    induction conns with
    | nil => exact fun _ hg => hg
    | cons c conns ih => exact fun g hg => ih _ (hg.terminate c.ws)
  have h1 := hterm (h.localReg.rows.flatMap fun e => e.2.rows.filter fun c => !c.alive) h hh
  refine ⟨h1.own, fun did c hc => ?_, h1.pending⟩
  unfold Hub.pingAll at hc
  rw [clearAlive_localMap] at hc
  obtain ⟨c0, hc0, rfl⟩ := List.mem_map.1 hc
  have hf := h1.filed did c0 hc0
  exact ⟨hf.1, hQ.alive c0 false hf.2⟩

theorem Held.uncaught {o : Outcome P I} (ho : Held Q D o.hub) : Held Q D o.uncaught := by
  cases o with
  | ok h => exact ho
  | error h => exact ⟨ho.own, ho.filed, ho.pending⟩

theorem Held.message {h : Hub P I} (hh : Held Q D h) (hQ : Stable Q) (ws : SockId) (msg : Frame P)
    (hD : ∀ device, msg = .hello device → D device) :
    Held Q D (h.onMessage ws msg).hub := by
  unfold onMessage
  cases hconn : (h.socks ws).conn with
  | none =>
    cases msg with
    | hello device =>
      refine hh.keepSock ws rfl fun v hv => ?_
      rcases List.mem_cons.1 hv with rfl | hv
      · exact hD device rfl
      · exact hh.pending ws v hv
    | _ => exact hh
  | some conn =>
    cases msg with
    | state state =>
      have hs : Held Q D (h.store { conn with state := state }) :=
        hh.store hQ (hQ.state conn state (hh.own ws conn hconn).2)
      exact (handleState_regs h conn state).toLocal.held hs
    | command target cmd =>
      exact (handleCommand_view h conn target cmd).toSameRegs.toLocal.held hh
    | bye => exact hh.close ws 1000 "bye"
    | _ => exact hh

theorem Held.awaited {h : Hub P I} (hh : Held Q D h) (ws : SockId) (hello : ℕ) :
    Held Q D (h.awaited ws hello) :=
  hh.keepSock ws rfl fun v hv => hh.pending ws v (List.mem_filter.1 hv).1

theorem Held.verified {h : Hub P I} (hh : Held Q D h) (now : ℕ) (ws : SockId) (hello : ℕ) (did : Did)
    (hq : ∀ device, Q (helloConn now ws hello did device)) :
    Held Q D (h.onVerified now ws hello did).hub := by
  unfold onVerified
  cases hv : (h.socks ws).verifying.lookup hello with
  | none => exact hh
  | some device =>
    have ha := hh.awaited ws hello
    cases device with
    | none => exact ha
    | some device =>
      have hqc := hq device
      have hr := (onHelloVerified_regs (h.awaited ws hello) now ws hello did device).toLocal.held
        (ha.register hqc)
      dsimp only
      cases ho : (h.awaited ws hello).onHelloVerified now ws hello did (some device) with
      | error h' =>
        rw [ho] at hr
        exact hr
      | ok h' =>
        rw [ho] at hr
        refine hr.setSock ws (fun c hc => ?_) (hr.pending ws)
        obtain rfl := Option.some.inj hc
        exact ⟨rfl, hqc⟩

theorem Held.handle [DecidableEq I] {h : Hub P I} (hh : Held Q D h) (hQ : Stable Q) (i : Input P I)
    (hg : HeldGuard Q D i) : Held Q D (handle h i) := by
  obtain ⟨now, event⟩ := i
  cases event with
  | frame ws msg =>
    simp only [Hub.handle]
    split
    · exact hh
    · refine (hh.message hQ ws msg fun device hmsg => ?_).uncaught
      subst hmsg
      exact hg
  | verified ws hello did => exact (hh.verified now ws hello did hg).uncaught
  | rejected ws hello message =>
    simp only [Hub.handle, onRejected]
    split
    · exact hh
    · have ha := hh.awaited ws hello
      have hs := (send_view (h.awaited ws hello) ws
        (.error "AuthFailed" message)).toSameRegs.toLocal.held ha
      have hc := hs.close ws 4001 "auth failed"
      exact hc.setSock ws (fun c hnone => by cases hnone) (hc.pending ws)
  | helloTimeout ws =>
    simp only [Hub.handle, onHelloTimeout]
    split
    · have hk : Held Q D (h.setSock ws { h.socks ws with helloTimer := false }) :=
        hh.keepSock ws rfl (hh.pending ws)
      split
      · exact hk.close ws 4008 "hello timeout"
      · exact hk
    · exact hh
  | pong ws =>
    simp only [Hub.handle, onPong]
    split
    · exact hh
    · exact hh.markAlive hQ _
  | closing ws => exact hh.terminate ws
  | close ws =>
    simp only [Hub.handle]
    split
    · exact hh
    · refine Held.uncaught ?_
      have hk : Held Q D (h.setSock ws
          { h.socks ws with readyState := .closed, helloTimer := false }) :=
        hh.keepSock ws rfl (hh.pending ws)
      unfold onClose
      dsimp only
      split
      · exact hk
      · exact hk.removeConn _
  | tick => exact ((heartbeat_local h.pingAll now).held (hh.pingAll hQ)).uncaught
  | relay msg => exact (onRelay_local h now msg).held hh

theorem held_init (id : I) (redis : Bool) : Held Q D (init id redis : Hub P I) := by
  refine ⟨fun ws c hc => ?_, fun did c hc => ?_, fun ws v hv => ?_⟩
  · cases hc
  · cases hc
  · cases hv

theorem Held.step [DecidableEq I] {h : Hub P I} (hh : Held Q D h) (hQ : Stable Q) (i : Input P I)
    (hg : HeldGuard Q D i) : Held Q D (step h i) := by
  unfold Hub.step
  split
  · exact hh.clear
  · exact hh.clear.handle hQ i hg

end Atradio.Connect.Hub
