import Atradio.Connect.Server

/-! # What each hub function leaves unchanged

A handler is judged by the maps it leaves for each DID, the sockets, and the effects it
adds. Creating a missing empty map is invisible here, and most functions only add
effects: they keep the view (`SameView`). -/

namespace Atradio.Connect.Hub
open Atradio.Lib

variable {P : Payload} {I : Type}

/-- Same registered devices, sockets and process. -/
structure SameRegs (h h' : Hub P I) : Prop where
  localMap : ∀ did, h'.localMap did = h.localMap did
  remoteMap : ∀ did, h'.remoteMap did = h.remoteMap did
  socks : h'.socks = h.socks
  instanceId : h'.instanceId = h.instanceId
  redis : h'.redis = h.redis
  crashed : h'.crashed = h.crashed

structure SameView (h h' : Hub P I) : Prop extends SameRegs h h' where
  lastPlaying : ∀ did, h'.lastPlaying did = h.lastPlaying did

/-- Same local registry and sockets: all that relay messages and timers leave alone. -/
structure SameLocal (h h' : Hub P I) : Prop where
  localMap : ∀ did, h'.localMap did = h.localMap did
  socks : h'.socks = h.socks
  instanceId : h'.instanceId = h.instanceId
  redis : h'.redis = h.redis

theorem SameLocal.refl (h : Hub P I) : SameLocal h h := ⟨fun _ => rfl, rfl, rfl, rfl⟩

theorem SameLocal.trans {h h' h'' : Hub P I} (a : SameLocal h h') (b : SameLocal h' h'') :
    SameLocal h h'' :=
  ⟨fun d => (b.localMap d).trans (a.localMap d), b.socks.trans a.socks,
    b.instanceId.trans a.instanceId, b.redis.trans a.redis⟩

theorem SameRegs.toLocal {h h' : Hub P I} (a : SameRegs h h') : SameLocal h h' :=
  ⟨a.localMap, a.socks, a.instanceId, a.redis⟩

theorem SameRegs.refl (h : Hub P I) : SameRegs h h :=
  ⟨fun _ => rfl, fun _ => rfl, rfl, rfl, rfl, rfl⟩

theorem SameRegs.trans {h h' h'' : Hub P I} (a : SameRegs h h') (b : SameRegs h' h'') :
    SameRegs h h'' :=
  ⟨fun d => (b.localMap d).trans (a.localMap d), fun d => (b.remoteMap d).trans (a.remoteMap d),
    b.socks.trans a.socks, b.instanceId.trans a.instanceId, b.redis.trans a.redis,
    b.crashed.trans a.crashed⟩

theorem SameView.refl (h : Hub P I) : SameView h h := ⟨.refl h, fun _ => rfl⟩

theorem SameView.trans {h h' h'' : Hub P I} (a : SameView h h') (b : SameView h' h'') :
    SameView h h'' :=
  ⟨a.toSameRegs.trans b.toSameRegs, fun d => (b.lastPlaying d).trans (a.lastPlaying d)⟩

/-! ### Effects and sockets -/

theorem effect_view (h : Hub P I) (e : Effect P I) : SameView h (h.effect e) :=
  ⟨⟨fun _ => rfl, fun _ => rfl, rfl, rfl, rfl, rfl⟩, fun _ => rfl⟩

theorem send_view (h : Hub P I) (ws : SockId) (msg : ServerMsg P) : SameView h (h.send ws msg) := by
  unfold send
  split
  · exact effect_view h _
  · exact .refl h

theorem publish_view (h : Hub P I) (msg : RelayMsg P I) : SameView h (h.publish msg) := by
  unfold publish
  split
  · exact effect_view h _
  · exact .refl h

theorem sendAll_view (h : Hub P I) (msgs : List (SockId × ServerMsg P)) :
    SameView h (h.sendAll msgs) := by
  unfold sendAll
  induction msgs generalizing h with
  | nil => exact .refl h
  | cons m msgs ih => exact (send_view h m.1 m.2).trans (ih (h.send m.1 m.2))

/-! ### Maps -/

theorem makeLocalMap_view (h : Hub P I) (did : Did) : SameView h (h.makeLocalMap did) := by
  unfold makeLocalMap
  cases hd : JsMap.find h.localReg did with
  | some m => exact .refl h
  | none =>
    refine ⟨⟨fun d => ?_, fun _ => rfl, rfl, rfl, rfl, rfl⟩, fun _ => rfl⟩
    by_cases hdd : d = did
    · simp [localMap, JsMap.find_set, hdd, hd]
    · simp [localMap, JsMap.find_set, hdd]

theorem makeRemoteMap_view (h : Hub P I) (did : Did) : SameView h (h.makeRemoteMap did) := by
  unfold makeRemoteMap
  cases hd : JsMap.find h.remoteReg did with
  | some m => exact .refl h
  | none =>
    refine ⟨⟨fun _ => rfl, fun d => ?_, rfl, rfl, rfl, rfl⟩, fun _ => rfl⟩
    by_cases hdd : d = did
    · simp [remoteMap, JsMap.find_set, hdd, hd]
    · simp [remoteMap, JsMap.find_set, hdd]

theorem makeMaps_view (h : Hub P I) (did : Did) : SameView h (h.makeMaps did) :=
  (makeRemoteMap_view h did).trans (makeLocalMap_view _ did)

theorem setLocalMap_localMap (h : Hub P I) (did d : Did) (m : LocalMap P) :
    (h.setLocalMap did m).localMap d = if d = did then m else h.localMap d := by
  simp only [localMap, setLocalMap, JsMap.find_set]
  split <;> rfl

theorem setRemoteMap_remoteMap (h : Hub P I) (did d : Did) (m : RemoteMap P I) :
    (h.setRemoteMap did m).remoteMap d = if d = did then m else h.remoteMap d := by
  simp only [remoteMap, setRemoteMap, JsMap.find_set]
  split <;> rfl

theorem setLastPlaying_lastPlaying (h : Hub P I) (did d : Did) (b : Bool) :
    (h.setLastPlaying did b).lastPlaying d = if d = did then b else h.lastPlaying d := by
  simp only [lastPlaying, setLastPlaying, JsMap.find_set]
  split <;> rfl

theorem deleteLocal_localMap (h : Hub P I) (did d : Did) (id : P.Id) :
    (h.deleteLocal did id).localMap d =
      if d = did then (h.localMap did).delete id else h.localMap d := by
  unfold deleteLocal
  dsimp only
  split
  · rename_i hs
    rw [Table.size_eq_zero] at hs
    rw [hs]
    simp only [localMap, JsMap.find_delete]
    split <;> rfl
  · exact setLocalMap_localMap h did d _

theorem deleteLocal_rest (h : Hub P I) (did : Did) (id : P.Id) :
    (h.deleteLocal did id).socks = h.socks ∧
      (∀ d, (h.deleteLocal did id).remoteMap d = h.remoteMap d) ∧
      (∀ d, (h.deleteLocal did id).lastPlaying d = h.lastPlaying d) ∧
      (h.deleteLocal did id).out = h.out := by
  unfold deleteLocal
  dsimp only
  split <;> exact ⟨rfl, fun _ => rfl, fun _ => rfl, rfl⟩

theorem makeMaps_out (h : Hub P I) (did : Did) : (h.makeMaps did).out = h.out := by
  have hr : (h.makeRemoteMap did).out = h.out := by
    unfold makeRemoteMap
    split <;> rfl
  unfold makeMaps makeLocalMap
  split <;> exact hr

theorem roster_congr {h h' : Hub P I} {did : Did} (hl : h'.localMap did = h.localMap did)
    (hr : h'.remoteMap did = h.remoteMap did) : h'.roster did = h.roster did := by
  unfold roster
  rw [hl, hr]

theorem SameRegs.roster {h h' : Hub P I} (a : SameRegs h h') (did : Did) :
    h'.roster did = h.roster did := roster_congr (a.localMap did) (a.remoteMap did)

theorem SameRegs.anyPlaying {h h' : Hub P I} (a : SameRegs h h') (did : Did) :
    h'.anyPlaying did = h.anyPlaying did := by
  unfold Hub.anyPlaying
  rw [a.roster did]

/-! ### Broadcasts -/

theorem broadcastRoster_view (h : Hub P I) (did : Did) : SameView h (h.broadcastRoster did) :=
  (makeMaps_view h did).trans (sendAll_view _ _)

theorem sendPresence_view (h : Hub P I) (did : Did) (now : Bool) :
    SameView h (h.sendPresence did now) := sendAll_view _ _

theorem setLastPlaying_regs (h : Hub P I) (did : Did) (b : Bool) :
    SameRegs h (h.setLastPlaying did b) :=
  ⟨fun _ => rfl, fun _ => rfl, rfl, rfl, rfl, rfl⟩

theorem reconcilePresence_regs (h : Hub P I) (did : Did) :
    SameRegs h (h.reconcilePresence did).hub := by
  have hm := (makeMaps_view h did).toSameRegs
  unfold reconcilePresence
  dsimp only
  split
  · exact hm
  · rename_i now _
    have hs := hm.trans (setLastPlaying_regs (h.makeMaps did) did now)
    split
    · split
      · exact hs
      · exact hs.trans (sendPresence_view _ _ _).toSameRegs
      · exact hs.trans ((send_view _ _ _).trans (sendPresence_view _ _ _)).toSameRegs
    · exact hs.trans (sendPresence_view _ _ _).toSameRegs

theorem deliverCommand_view (h : Hub P I) (did : Did) (target src : P.Id) (cmd : P.Cmd) :
    SameView h (h.deliverCommand did target src cmd).1 := by
  unfold deliverCommand
  dsimp only
  split
  · exact makeLocalMap_view h did
  · exact (makeLocalMap_view h did).trans (send_view _ _ _)

theorem handleCommand_view (h : Hub P I) (conn : LocalConn P) (target : P.Id) (cmd : P.Cmd) :
    SameView h (h.handleCommand conn target cmd) := by
  unfold handleCommand
  split
  · exact .refl h
  · have hd := deliverCommand_view h conn.did target conn.deviceId cmd
    split
    · rename_i h' heq
      rw [heq] at hd
      exact hd
    · rename_i h' heq
      rw [heq] at hd
      exact hd.trans (publish_view _ _)

/-! ### The process -/

/-- Same process: what no handler changes but an uncaught throw. -/
structure SameProc (h h' : Hub P I) : Prop where
  instanceId : h'.instanceId = h.instanceId
  redis : h'.redis = h.redis
  crashed : h'.crashed = h.crashed

theorem SameProc.refl (h : Hub P I) : SameProc h h := ⟨rfl, rfl, rfl⟩

theorem SameProc.trans {h h' h'' : Hub P I} (a : SameProc h h') (b : SameProc h' h'') :
    SameProc h h'' :=
  ⟨b.instanceId.trans a.instanceId, b.redis.trans a.redis, b.crashed.trans a.crashed⟩

theorem SameRegs.toProc {h h' : Hub P I} (a : SameRegs h h') : SameProc h h' :=
  ⟨a.instanceId, a.redis, a.crashed⟩

theorem close_proc (h : Hub P I) (ws : SockId) (code : ℕ) (reason : String) :
    SameProc h (h.close ws code reason) := by
  unfold close
  split <;> exact ⟨rfl, rfl, rfl⟩

theorem storeClosure_proc (h : Hub P I) (conn : LocalConn P) :
    SameProc h (h.storeClosure conn) := by
  unfold storeClosure
  split
  · split <;> exact ⟨rfl, rfl, rfl⟩
  · exact .refl h

theorem store_proc (h : Hub P I) (conn : LocalConn P) : SameProc h (h.store conn) := by
  refine (storeClosure_proc h conn).trans ?_
  unfold store storeRegistry
  split
  · split <;> exact ⟨rfl, rfl, rfl⟩
  · exact ⟨rfl, rfl, rfl⟩

theorem markAlive_proc (h : Hub P I) (conn : LocalConn P) : SameProc h (h.markAlive conn) := by
  unfold markAlive
  split
  · split <;> exact ⟨rfl, rfl, rfl⟩
  · exact .refl h

theorem terminateAll_proc (h : Hub P I) (conns : List (LocalConn P)) :
    SameProc h (h.terminateAll conns) := by
  induction conns generalizing h with
  | nil => exact .refl h
  | cons c conns ih =>
    have h1 : SameProc h (h.terminate c.ws) := by
      unfold terminate
      split <;> exact ⟨rfl, rfl, rfl⟩
    exact h1.trans (ih _)

theorem terminateAll_local (h : Hub P I) (conns : List (LocalConn P)) :
    (h.terminateAll conns).localReg = h.localReg ∧ (h.terminateAll conns).out = h.out ∧
      (h.terminateAll conns).remoteReg = h.remoteReg := by
  induction conns generalizing h with
  | nil => exact ⟨rfl, rfl, rfl⟩
  | cons c conns ih =>
    have h1 : (h.terminate c.ws).localReg = h.localReg ∧ (h.terminate c.ws).out = h.out ∧
        (h.terminate c.ws).remoteReg = h.remoteReg := by
      unfold terminate
      split <;> exact ⟨rfl, rfl, rfl⟩
    obtain ⟨a1, a2, a3⟩ := ih (h.terminate c.ws)
    exact ⟨a1.trans h1.1, a2.trans h1.2.1, a3.trans h1.2.2⟩

theorem deleteLocal_proc (h : Hub P I) (did : Did) (id : P.Id) :
    SameProc h (h.deleteLocal did id) := by
  unfold deleteLocal
  dsimp only
  split <;> exact ⟨rfl, rfl, rfl⟩

/-! ### Assignments to a connection -/

theorem LocalConn.same_ws {a b : LocalConn P} (h : a.same b = true) : a.ws = b.ws := by
  simp only [LocalConn.same, Bool.decide_and, Bool.and_eq_true, decide_eq_true_eq] at h
  exact h.1

theorem storeClosure_socks (h : Hub P I) (conn : LocalConn P) (ws : SockId) :
    ((h.storeClosure conn).socks ws).readyState = (h.socks ws).readyState := by
  unfold storeClosure
  split
  · split
    · simp only [setSock]
      split
      · rename_i hw
        rw [hw]
      · rfl
    · rfl
  · rfl

theorem store_registered {h : Hub P I} {conn e : LocalConn P}
    (he : (h.localMap conn.did).get conn.deviceId = some e) (hsame : e.same conn = true) :
    h.store conn = (h.storeClosure conn).setLocalMap conn.did
      ((h.localMap conn.did).put { conn with alive := e.alive }) := by
  have hl : (h.storeClosure conn).localMap conn.did = h.localMap conn.did := by
    unfold storeClosure
    split
    · split <;> rfl
    · rfl
  unfold store storeRegistry
  rw [hl, he]
  dsimp only
  rw [if_pos hsame]

theorem store_unregistered {h : Hub P I} {conn : LocalConn P}
    (hr : h.registered conn = false) : h.store conn = h.storeClosure conn := by
  have hl : (h.storeClosure conn).localMap conn.did = h.localMap conn.did := by
    unfold storeClosure
    split
    · split <;> rfl
    · rfl
  unfold registered at hr
  unfold store storeRegistry
  rw [hl]
  cases he : (h.localMap conn.did).get conn.deviceId with
  | none => rfl
  | some e =>
    rw [he] at hr
    dsimp only at hr ⊢
    rw [hr, if_neg (by decide)]

theorem storeClosure_rest (h : Hub P I) (conn : LocalConn P) :
    (h.storeClosure conn).localReg = h.localReg ∧
      (h.storeClosure conn).remoteReg = h.remoteReg ∧
      (h.storeClosure conn).lastAnyPlaying = h.lastAnyPlaying ∧
      (h.storeClosure conn).out = h.out := by
  unfold storeClosure
  split
  · split <;> exact ⟨rfl, rfl, rfl, rfl⟩
  · exact ⟨rfl, rfl, rfl, rfl⟩

theorem onClose_conn {h : Hub P I} {ws : SockId} {conn : LocalConn P}
    (hconn : (h.socks ws).conn = some conn) :
    h.onClose ws = (h.setSock ws
      { h.socks ws with readyState := .closed, helloTimer := false }).removeConn conn := by
  unfold onClose
  dsimp only
  split
  · rename_i hnone
    rw [hconn] at hnone
    cases hnone
  · rename_i c hsome
    rw [hconn] at hsome
    cases hsome
    rfl

/-! ### Registration -/

theorem close_localMap (h : Hub P I) (ws : SockId) (code : ℕ) (reason : String) (did : Did) :
    (h.close ws code reason).localMap did = h.localMap did := by
  unfold close
  split <;> rfl

/-- Closing handshakes: nothing about a socket changes but its `readyState`, and that
does not become closed. -/
def SameConns (h h' : Hub P I) : Prop :=
  ∀ ws, (h'.socks ws).conn = (h.socks ws).conn ∧
    ((h'.socks ws).readyState = .closed ↔ (h.socks ws).readyState = .closed)

theorem close_conns (h : Hub P I) (ws : SockId) (code : ℕ) (reason : String) :
    SameConns h (h.close ws code reason) := by
  intro ws'
  unfold close
  split
  · rename_i hopen
    by_cases hw : ws' = ws
    · subst hw
      simp [effect, setSock, hopen]
    · simp [effect, setSock, hw]
  · exact ⟨rfl, Iff.rfl⟩

theorem replacePrior_localMap (h : Hub P I) (conn : LocalConn P) (did : Did) :
    (h.replacePrior conn).localMap did = h.localMap did := by
  unfold replacePrior
  split
  · split
    · rfl
    · exact close_localMap h _ _ _ did
  · rfl

theorem replacePrior_conns (h : Hub P I) (conn : LocalConn P) :
    SameConns h (h.replacePrior conn) := by
  unfold replacePrior
  split
  · split
    · exact fun _ => ⟨rfl, Iff.rfl⟩
    · exact close_conns h _ _ _
  · exact fun _ => ⟨rfl, Iff.rfl⟩

theorem register_localMap (h : Hub P I) (conn : LocalConn P) (did : Did) :
    (h.register conn).localMap did =
      if did = conn.did then (h.localMap conn.did).put conn else h.localMap did := by
  rw [register, setLocalMap_localMap, replacePrior_localMap, replacePrior_localMap,
    (makeLocalMap_view h conn.did).localMap, (makeLocalMap_view h conn.did).localMap]

theorem register_conns (h : Hub P I) (conn : LocalConn P) : SameConns h (h.register conn) := by
  intro ws
  rw [← (makeLocalMap_view h conn.did).socks]
  exact replacePrior_conns (h.makeLocalMap conn.did) conn ws

theorem register_remoteMap (h : Hub P I) (conn : LocalConn P) (did : Did) :
    (h.register conn).remoteMap did = h.remoteMap did := by
  have hp : ∀ g : Hub P I, (g.replacePrior conn).remoteMap did = g.remoteMap did := by
    intro g
    unfold replacePrior
    split
    · split
      · rfl
      · unfold close
        split <;> rfl
    · rfl
  exact (hp _).trans ((makeLocalMap_view h conn.did).remoteMap did)

theorem announce_view (h : Hub P I) (conn : LocalConn P) : SameView h (h.announce conn) := by
  have hs := (makeMaps_view h conn.did).trans
    (send_view _ conn.ws (.welcome conn.did conn.deviceId))
  exact hs.trans ((publish_view _ _).trans (broadcastRoster_view _ _))

theorem greet_regs (h : Hub P I) (conn : LocalConn P) (wasEmpty : Bool) :
    SameRegs h (h.greet conn wasEmpty).hub := by
  unfold greet
  cases hp : h.anyPlaying conn.did with
  | none => exact .refl h
  | some playing =>
    have hs := (setLastPlaying_regs h conn.did playing).trans
      (send_view _ conn.ws (.presence playing false)).toSameRegs
    dsimp only
    split
    · split
      · exact hs
      · split
        · exact hs.trans (send_view _ _ _).toSameRegs
        · exact hs
    · exact hs

theorem register_proc (h : Hub P I) (conn : LocalConn P) : SameProc h (h.register conn) := by
  have h1 := (makeLocalMap_view h conn.did).toSameRegs.toProc
  have h2 : SameProc h ((h.makeLocalMap conn.did).replacePrior conn) := by
    refine h1.trans ?_
    unfold replacePrior
    split
    · split
      · exact .refl _
      · exact close_proc _ _ _ _
    · exact .refl _
  exact h2.trans ⟨rfl, rfl, rfl⟩

/-- After the registration `onHello` changes presence values and sends frames. -/
theorem onHelloVerified_regs (h : Hub P I) (now : ℕ) (ws : SockId) (hello : ℕ) (did : Did)
    (device : HelloDevice P) :
    SameRegs (h.register (helloConn now ws hello did device))
      (h.onHelloVerified now ws hello did (some device)).hub := by
  unfold onHelloVerified
  dsimp only
  generalize helloConn now ws hello did device = conn
  exact (announce_view (h.register conn) conn).toSameRegs.trans (greet_regs _ conn _)

/-! ### Relay messages and timers -/

theorem broadcast_reconcile_regs (h : Hub P I) (did : Did) :
    SameRegs h ((h.broadcastRoster did).reconcilePresence did).hub :=
  (broadcastRoster_view h did).toSameRegs.trans (reconcilePresence_regs _ did)

theorem handleState_regs (h : Hub P I) (conn : LocalConn P) (state : P.State) :
    SameRegs (h.store { conn with state := state }) (h.handleState conn state).hub := by
  unfold handleState
  dsimp only
  generalize h.store { conn with state := state } = h1
  exact (publish_view h1 _).toSameRegs.trans (broadcast_reconcile_regs _ conn.did)

theorem setRemoteMap_local (h : Hub P I) (did : Did) (m : RemoteMap P I) :
    SameLocal h (h.setRemoteMap did m) := ⟨fun _ => rfl, rfl, rfl, rfl⟩

theorem dropStale_local (h : Hub P I) (now : ℕ) (did : Did) (m : RemoteMap P I) :
    SameLocal h (h.dropStale now did m) := by
  unfold dropStale
  split <;> exact ⟨fun _ => rfl, rfl, rfl, rfl⟩

theorem dropStale_remoteMap (h : Hub P I) (now : ℕ) (did d : Did) (m : RemoteMap P I) :
    (h.dropStale now did m).remoteMap d = if d = did then fresh now m else h.remoteMap d := by
  unfold dropStale
  split
  · rename_i hs
    rw [Table.size_eq_zero] at hs
    simp only [remoteMap, JsMap.find_delete, hs]
    split <;> rfl
  · exact setRemoteMap_remoteMap h did d _

theorem dropStale_rest (h : Hub P I) (now : ℕ) (did : Did) (m : RemoteMap P I) :
    (h.dropStale now did m).crashed = h.crashed ∧ (h.dropStale now did m).out = h.out ∧
      ∀ d, (h.dropStale now did m).lastPlaying d = h.lastPlaying d := by
  unfold dropStale
  split <;> exact ⟨rfl, rfl, fun _ => rfl⟩

theorem pruneRemote_local (h : Hub P I) (now : ℕ) (did : Did) :
    SameLocal h (h.pruneRemote now did).hub := by
  unfold pruneRemote
  cases JsMap.find h.remoteReg did with
  | none => exact .refl h
  | some m =>
    have hset := dropStale_local h now did m
    dsimp only
    split
    · exact hset
    · exact hset.trans (broadcast_reconcile_regs _ did).toLocal

theorem sweepRemote_local (now fuel pos : ℕ) (h : Hub P I) :
    SameLocal h (sweepRemote now fuel pos h).hub := by
  induction fuel generalizing pos h with
  | zero => exact .refl h
  | succ fuel ih =>
    unfold sweepRemote
    cases hrow : h.remoteReg.rows[pos]? with
    | none => exact .refl h
    | some e =>
      have hp := pruneRemote_local h now e.1
      dsimp only
      cases hres : h.pruneRemote now e.1 with
      | error h' =>
        rw [hres] at hp
        exact hp
      | ok h' =>
        rw [hres] at hp
        exact hp.trans (ih _ h')

theorem clearAlive_localMap (h : Hub P I) (did : Did) :
    h.clearAlive.localMap did =
      (h.localMap did).mapRows (fun c => { c with alive := false }) fun _ => rfl := by
  simp only [localMap, clearAlive, JsMap.find_mapVals]
  cases JsMap.find h.localReg did <;> rfl

theorem publishAll_view (h : Hub P I) (conns : List (LocalConn P)) :
    SameView h (conns.foldl (fun h c => h.publish (.update h.instanceId c.toWireDevice)) h) := by
  induction conns generalizing h with
  | nil => exact .refl h
  | cons c conns ih => exact (publish_view h _).trans (ih _)

theorem heartbeat_local (h : Hub P I) (now : ℕ) :
    SameLocal h (h.heartbeatRemotePresence now).hub := by
  unfold heartbeatRemotePresence
  exact (publishAll_view h _).toSameRegs.toLocal.trans (sweepRemote_local _ _ _ _)

theorem onRelay_local [DecidableEq I] (h : Hub P I) (now : ℕ) (msg : RelayMsg P I) :
    SameLocal h (h.onRelay now msg).hub := by
  cases msg with
  | command inst did target src cmd =>
    simp only [onRelay]
    split
    · exact .refl h
    · exact (deliverCommand_view h did target src cmd).toSameRegs.toLocal
  | leave inst did deviceId =>
    simp only [onRelay]
    split
    · exact .refl h
    · split
      · exact .refl h
      · split
        · exact .refl h
        · exact (setRemoteMap_local h did _).trans (broadcast_reconcile_regs _ did).toLocal
  | join inst d | update inst d =>
    simp only [onRelay]
    split
    · exact .refl h
    · exact (setRemoteMap_local h d.did _).trans (broadcast_reconcile_regs _ d.did).toLocal

end Atradio.Connect.Hub
