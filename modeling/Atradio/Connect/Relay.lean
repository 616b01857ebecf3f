import Atradio.Lib.Replica
import Atradio.Connect.Total

/-! # Rosters across instances

Instances tell each other about their devices over Redis: what one publishes reaches every
instance, its own messages in order, those of several publishers in any order. For each
pair of instances the remote entries of the one that originate at the other are a
replica of its registry. The replicas of several publishers share one map keyed by
deviceId, so they stay in step only as long as no two publishers write the same key:
`onRelay` overwrites and deletes without looking at `origin` (`NetGuard`). -/

namespace Atradio.Connect
open Atradio.Lib

section Data

variable {P : Payload} {I : Type}

def RelayMsg.sender : RelayMsg P I → I
  | .join inst _ | .update inst _ | .leave inst _ _ | .command inst _ _ _ _ => inst

/-- What a message says about a device, found under its DID and deviceId. -/
def RelayMsg.change : RelayMsg P I → Option (Change (Did × P.Id) (WireDevice P))
  | .join _ d | .update _ d => some (.set (d.did, d.deviceId) d)
  | .leave _ did deviceId => some (.clear (did, deviceId))
  | .command .. => none

def changes (msgs : List (RelayMsg P I)) : List (Change (Did × P.Id) (WireDevice P)) :=
  msgs.filterMap RelayMsg.change

def published (out : List (Effect P I)) : List (RelayMsg P I) :=
  out.filterMap fun
    | .published msg => some msg
    | _ => none

end Data

namespace Hub

variable {P : Payload} {I : Type}

def devices (h : Hub P I) (k : Did × P.Id) : Option (WireDevice P) :=
  ((h.localMap k.1).get k.2).map fun c => c.toWireDevice

/-- What the instance has heard of the devices connected to `p`. -/
def heard [DecidableEq I] (h : Hub P I) (p : I) (k : Did × P.Id) : Option (WireDevice P) :=
  (((h.remoteMap k.1).get k.2).filter fun d => d.origin = p).map fun d => d.toWireDevice

def Filed (h : Hub P I) : Prop := ∀ did c, c ∈ (h.localMap did).rows → c.did = did

/-! ### What is published -/

theorem published_effect (h : Hub P I) (e : Effect P I) :
    published (h.effect e).out = published h.out ++ published [e] := by
  simp [effect, published]

theorem send_published (h : Hub P I) (ws : SockId) (msg : ServerMsg P) :
    published (h.send ws msg).out = published h.out := by
  unfold send
  split
  · rw [published_effect]
    exact List.append_nil _
  · rfl

theorem close_published (h : Hub P I) (ws : SockId) (code : ℕ) (reason : String) :
    published (h.close ws code reason).out = published h.out := by
  unfold close
  split
  · rw [published_effect]
    exact List.append_nil _
  · rfl

theorem publish_published {h : Hub P I} (hr : h.redis = true) (msg : RelayMsg P I) :
    published (h.publish msg).out = published h.out ++ [msg] := by
  unfold publish
  rw [if_pos hr, published_effect]
  rfl

theorem sendAll_published (h : Hub P I) (msgs : List (SockId × ServerMsg P)) :
    published (h.sendAll msgs).out = published h.out := by
  unfold sendAll
  induction msgs generalizing h with
  | nil => rfl
  | cons m msgs ih => rw [List.foldl_cons, ih, send_published]

theorem makeLocalMap_out (h : Hub P I) (did : Did) : (h.makeLocalMap did).out = h.out := by
  unfold makeLocalMap
  split <;> rfl

theorem broadcastRoster_published (h : Hub P I) (did : Did) :
    published (h.broadcastRoster did).out = published h.out := by
  unfold broadcastRoster
  dsimp only
  rw [sendAll_published, makeMaps_out]

theorem reconcile_published (h : Hub P I) (did : Did) :
    published (h.reconcilePresence did).hub.out = published h.out := by
  have hm : ∀ b, published ((h.makeMaps did).setLastPlaying did b).out = published h.out := by
    intro b
    show published (h.makeMaps did).out = _
    rw [makeMaps_out]
  unfold reconcilePresence
  dsimp only
  split
  · rw [Outcome.hub_error, makeMaps_out]
  · split
    · split
      · exact hm _
      · rw [Outcome.hub_ok, sendPresence, sendAll_published, hm]
      · rw [Outcome.hub_ok, sendPresence, sendAll_published, send_published, hm]
    · rw [Outcome.hub_ok, sendPresence, sendAll_published, hm]

theorem broadcast_published (h : Hub P I) (did : Did) :
    published ((h.broadcastRoster did).reconcilePresence did).hub.out = published h.out := by
  rw [reconcile_published, broadcastRoster_published]

theorem greet_published (h : Hub P I) (conn : LocalConn P) (wasEmpty : Bool) :
    published (h.greet conn wasEmpty).hub.out = published h.out := by
  have hs : ∀ b, published ((h.setLastPlaying conn.did b).send conn.ws (.presence b false)).out =
      published h.out := fun b => send_published _ _ _
  unfold greet
  split
  · rfl
  · dsimp only
    split
    · split
      · exact hs _
      · rw [Outcome.hub_ok]
        split
        · rw [send_published, hs]
        · exact hs _
    · exact hs _

theorem deliverCommand_published (h : Hub P I) (did : Did) (target src : P.Id) (cmd : P.Cmd) :
    published (h.deliverCommand did target src cmd).1.out = published h.out := by
  unfold deliverCommand
  dsimp only
  split
  · rw [makeLocalMap_out]
  · rw [send_published, makeLocalMap_out]

theorem register_published (h : Hub P I) (conn : LocalConn P) :
    published (h.register conn).out = published h.out := by
  have hp : published ((h.makeLocalMap conn.did).replacePrior conn).out = published h.out := by
    unfold replacePrior
    split
    · split
      · rw [makeLocalMap_out]
      · rw [close_published, makeLocalMap_out]
    · rw [makeLocalMap_out]
  exact hp

theorem sweep_published (now fuel pos : ℕ) (h : Hub P I) :
    published (sweepRemote now fuel pos h).hub.out = published h.out := by
  induction fuel generalizing pos h with
  | zero => rfl
  | succ fuel ih =>
    unfold sweepRemote
    cases hrow : h.remoteReg.rows[pos]? with
    | none => rfl
    | some e =>
      have hp : published (h.pruneRemote now e.1).hub.out = published h.out := by
        unfold pruneRemote
        cases JsMap.find h.remoteReg e.1 with
        | none => rfl
        | some m =>
          obtain ⟨_, hout, _⟩ := dropStale_rest h now e.1 m
          dsimp only
          split
          · rw [Outcome.hub_ok, hout]
          · rw [broadcast_published, hout]
      dsimp only
      cases hres : h.pruneRemote now e.1 with
      | error h' =>
        rw [hres] at hp
        exact hp
      | ok h' =>
        rw [hres] at hp
        exact (ih _ h').trans hp

/-! ### Published messages mirror the registry -/

/-- The instance went from `h` to `h'`, and the messages it published tell what changed. -/
structure Mirrors (h h' : Hub P I) (msgs : List (RelayMsg P I)) : Prop where
  published : Connect.published h'.out = Connect.published h.out ++ msgs
  devices : h'.devices = Change.applyAll h.devices (changes msgs)
  signed : ∀ m ∈ msgs, m.sender = h.instanceId
  instanceId : h'.instanceId = h.instanceId
  redis : h'.redis = h.redis
  filed : Filed h → Filed h'

theorem Mirrors.trans {h h' h'' : Hub P I} {ms ns : List (RelayMsg P I)} (a : Mirrors h h' ms)
    (b : Mirrors h' h'' ns) : Mirrors h h'' (ms ++ ns) := by
  refine ⟨?_, ?_, fun m hm => ?_, b.instanceId.trans a.instanceId, b.redis.trans a.redis,
    fun hf => b.filed (a.filed hf)⟩
  · rw [b.published, a.published, List.append_assoc]
  · rw [b.devices, a.devices, changes, changes, changes, List.filterMap_append,
      Change.applyAll_append]
  · rcases List.mem_append.1 hm with hm | hm
    · exact a.signed m hm
    · exact (b.signed m hm).trans a.instanceId

theorem mirrors_nil {h h' : Hub P I} (hl : ∀ did, h'.localMap did = h.localMap did)
    (hproc : SameProc h h') (hp : Connect.published h'.out = Connect.published h.out) :
    Mirrors h h' [] := by
  refine ⟨?_, ?_, fun m hm => (List.not_mem_nil hm).elim, hproc.instanceId, hproc.redis,
    fun hf did c hc => ?_⟩
  · rw [hp, List.append_nil]
  · funext k
    unfold Hub.devices
    rw [hl]
    rfl
  · rw [hl] at hc
    exact hf did c hc

theorem Mirrors.refl (h : Hub P I) : Mirrors h h [] := mirrors_nil (fun _ => rfl) (.refl h) rfl

theorem SameRegs.mirrors {h h' : Hub P I} (a : SameRegs h h')
    (hp : Connect.published h'.out = Connect.published h.out) : Mirrors h h' [] :=
  mirrors_nil a.localMap a.toProc hp

theorem mirrors_put {h h' : Hub P I} {x : LocalConn P} {msg : RelayMsg P I}
    (hmaps : ∀ did, h'.localMap did =
      if did = x.did then (h.localMap x.did).put x else h.localMap did)
    (hproc : SameProc h h') (hp : Connect.published h'.out = Connect.published h.out ++ [msg])
    (hmsg : msg.change = some (.set (x.did, x.deviceId) x.toWireDevice))
    (hsender : msg.sender = h.instanceId) : Mirrors h h' [msg] := by
  refine ⟨hp, ?_, fun m hm => ?_, hproc.instanceId, hproc.redis, fun hf did c hc => ?_⟩
  · funext k
    obtain ⟨did, id⟩ := k
    simp only [changes, List.filterMap_cons, List.filterMap_nil, hmsg, Change.applyAll,
      List.foldl_cons, List.foldl_nil, Change.apply, Change.key, Change.value, Hub.devices, hmaps]
    by_cases hd : did = x.did
    · subst hd
      rw [if_pos rfl, Table.get_put]
      by_cases hid : id = x.deviceId
      · simp [hid]
      · simp [hid]
    · simp [hd]
  · rw [List.mem_singleton.1 hm, hsender]
  · rw [hmaps] at hc
    split at hc
    · rename_i hd
      rcases (Table.mem_put _ _ _).1 hc with rfl | hc
      · exact hd.symm
      · exact (hf _ c hc.1).trans hd.symm
    · exact hf did c hc

theorem mirrors_delete {h h' : Hub P I} {did : Did} {id : P.Id} {msg : RelayMsg P I}
    (hmaps : ∀ d, h'.localMap d = if d = did then (h.localMap did).delete id else h.localMap d)
    (hproc : SameProc h h') (hp : Connect.published h'.out = Connect.published h.out ++ [msg])
    (hmsg : msg.change = some (.clear (did, id))) (hsender : msg.sender = h.instanceId) :
    Mirrors h h' [msg] := by
  refine ⟨hp, ?_, fun m hm => ?_, hproc.instanceId, hproc.redis, fun hf d c hc => ?_⟩
  · funext k
    obtain ⟨d, i⟩ := k
    simp only [changes, List.filterMap_cons, List.filterMap_nil, hmsg, Change.applyAll,
      List.foldl_cons, List.foldl_nil, Change.apply, Change.key, Change.value, Hub.devices, hmaps]
    by_cases hd : d = did
    · subst hd
      rw [if_pos rfl, Table.get_delete]
      by_cases hi : i = id
      · simp [hi]
      · simp [hi]
    · simp [hd]
  · rw [List.mem_singleton.1 hm, hsender]
  · rw [hmaps] at hc
    split at hc
    · rename_i hd
      exact (hf _ c ((Table.mem_delete _ _ _).1 hc).1).trans hd.symm
    · exact hf d c hc

theorem broadcast_mirrors (h : Hub P I) (did : Did) :
    Mirrors h ((h.broadcastRoster did).reconcilePresence did).hub [] :=
  (broadcast_reconcile_regs h did).mirrors (broadcast_published h did)

theorem state_mirrors {h : Hub P I} (hr : h.redis = true) (conn : LocalConn P) (state : P.State)
    (hreg : h.registered conn = true) :
    Mirrors h (h.handleState conn state).hub
      [.update h.instanceId { conn with state := state }.toWireDevice] := by
  have hproc := store_proc h { conn with state := state }
  unfold registered at hreg
  cases he : (h.localMap conn.did).get conn.deviceId with
  | none =>
    rw [he] at hreg
    cases hreg
  | some e =>
    rw [he] at hreg
    obtain ⟨hloc, _, _, hout⟩ := storeClosure_rest h { conn with state := state }
    have hstore := @store_registered P I h { conn with state := state } e he hreg
    have hmaps : ∀ did, (h.store { conn with state := state }).localMap did =
        if did = conn.did then
          (h.localMap conn.did).put { conn with state := state, alive := e.alive }
        else h.localMap did := by
      intro did
      rw [hstore, setLocalMap_localMap]
      unfold localMap
      rw [hloc]
    have hsout : (h.store { conn with state := state }).out = h.out := by
      rw [hstore]
      exact hout
    have hname : (h.store { conn with state := state }).instanceId = h.instanceId :=
      hproc.instanceId
    unfold handleState
    dsimp only
    rw [hname]
    generalize h.store { conn with state := state } = g at *
    have hv := publish_view g (.update h.instanceId { conn with state := state }.toWireDevice)
    have hp := publish_published (hproc.redis.trans hr)
      (.update h.instanceId { conn with state := state }.toWireDevice)
    rw [hsout] at hp
    have hput := mirrors_put (x := { conn with state := state, alive := e.alive })
      (fun did => (hv.localMap did).trans (hmaps did)) (hproc.trans hv.toSameRegs.toProc) hp rfl
      rfl
    exact hput.trans (broadcast_mirrors _ conn.did)

theorem remove_mirrors {h : Hub P I} (hr : h.redis = true) (conn : LocalConn P) :
    ∃ msgs, Mirrors h (h.removeConn conn).hub msgs := by
  unfold removeConn
  split
  · exact ⟨[], .refl h⟩
  · have hproc := deleteLocal_proc h conn.did conn.deviceId
    have hmaps := fun d => deleteLocal_localMap h conn.did d conn.deviceId
    obtain ⟨_, _, _, hout⟩ := deleteLocal_rest h conn.did conn.deviceId
    dsimp only
    generalize h.deleteLocal conn.did conn.deviceId = g at *
    have hv := publish_view g (.leave g.instanceId conn.did conn.deviceId)
    have hp := publish_published (hproc.redis.trans hr)
      (.leave g.instanceId conn.did conn.deviceId)
    rw [hout] at hp
    have hdel := mirrors_delete (fun d => (hv.localMap d).trans (hmaps d))
      (hproc.trans hv.toSameRegs.toProc) hp rfl hproc.instanceId
    exact ⟨_, hdel.trans (broadcast_mirrors _ conn.did)⟩

theorem hello_mirrors {h : Hub P I} (hr : h.redis = true) (now : ℕ) (ws : SockId) (hello : ℕ)
    (did : Did) (device : HelloDevice P) :
    ∃ msgs, Mirrors h (h.onHelloVerified now ws hello did (some device)).hub msgs := by
  have hdid : (helloConn now ws hello did device).did = did := rfl
  unfold onHelloVerified
  dsimp only
  generalize helloConn now ws hello did device = conn at *
  subst hdid
  have hproc := register_proc h conn
  have hmaps := register_localMap h conn
  have hp := register_published h conn
  generalize (decide (((h.register conn).roster conn.did).length = 1)) = wasEmpty
  generalize h.register conn = g at *
  have hann : Connect.published (g.announce conn).out =
      Connect.published h.out ++ [.join g.instanceId conn.toWireDevice] := by
    have hm := (makeMaps_view g conn.did).trans
      (send_view _ conn.ws (.welcome conn.did conn.deviceId))
    unfold announce
    dsimp only
    rw [broadcastRoster_published, publish_published (hm.redis.trans (hproc.redis.trans hr)),
      send_published, makeMaps_out, hp, hm.instanceId]
  have hv := (announce_view g conn).toSameRegs
  have hput := mirrors_put (fun d => (hv.localMap d).trans (hmaps d)) (hproc.trans hv.toProc) hann
    rfl hproc.instanceId
  exact ⟨_, hput.trans ((greet_regs _ conn wasEmpty).mirrors (greet_published _ conn wasEmpty))⟩

/-! ### The heartbeat -/

theorem publishAll_published {h : Hub P I} (hr : h.redis = true) (conns : List (LocalConn P)) :
    Connect.published
        (conns.foldl (fun h c => h.publish (.update h.instanceId c.toWireDevice)) h).out =
      Connect.published h.out ++ conns.map fun c => .update h.instanceId c.toWireDevice := by
  induction conns generalizing h with
  | nil => simp
  | cons c conns ih =>
    have hv := publish_view h (.update h.instanceId c.toWireDevice)
    rw [List.foldl_cons, ih (hv.redis.trans hr), publish_published hr, hv.instanceId]
    simp

/-- The heartbeat says of every device what was last said of it. -/
theorem publishAll_mirrors {h : Hub P I} (hr : h.redis = true) (hf : Filed h)
    (conns : List (LocalConn P)) (hconns : ∀ c ∈ conns, ∃ did, c ∈ (h.localMap did).rows) :
    Mirrors h (conns.foldl (fun h c => h.publish (.update h.instanceId c.toWireDevice)) h)
      (conns.map fun c => .update h.instanceId c.toWireDevice) := by
  have hv := (publishAll_view h conns).toSameRegs
  refine ⟨publishAll_published hr conns, ?_, fun m hm => ?_, hv.instanceId, hv.redis,
    fun _ did c hc => ?_⟩
  · rw [Change.applyAll_idle]
    · funext k
      unfold Hub.devices
      rw [hv.localMap]
    · intro ch hch
      obtain ⟨m, hm, hmch⟩ := List.mem_filterMap.1 hch
      obtain ⟨c, hc, rfl⟩ := List.mem_map.1 hm
      obtain rfl := Option.some.inj hmch
      obtain ⟨did, hmem⟩ := hconns c hc
      have hcd : c.did = did := hf did c hmem
      have hget := ((h.localMap did).mem_rows c).1 hmem
      show ((h.localMap c.did).get c.deviceId).map _ = _
      rw [hcd, hget]
      rfl
  · obtain ⟨c, _, rfl⟩ := List.mem_map.1 hm
    rfl
  · rw [hv.localMap] at hc
    exact hf did c hc

theorem pingAll_mirrors (h : Hub P I) : Mirrors h h.pingAll [] := by
  unfold pingAll
  generalize (h.localReg.rows.flatMap fun e => e.2.rows.filter fun c => !c.alive) = conns
  obtain ⟨hloc, hout, _⟩ := terminateAll_local h conns
  have hproc := terminateAll_proc h conns
  have hl : ∀ did, (h.terminateAll conns).localMap did = h.localMap did := fun did => by
    unfold localMap
    rw [hloc]
  generalize h.terminateAll conns = g at *
  refine ⟨?_, ?_, fun m hm => (List.not_mem_nil hm).elim, hproc.instanceId, hproc.redis,
    fun hf did c hc => ?_⟩
  · show Connect.published g.out = _
    rw [hout, List.append_nil]
  · funext k
    unfold Hub.devices
    rw [clearAlive_localMap, Table.get_mapRows, hl, Option.map_map]
    rfl
  · rw [clearAlive_localMap, hl] at hc
    obtain ⟨c0, hc0, rfl⟩ := List.mem_map.1 hc
    exact hf did c0 hc0

theorem tick_mirrors {h : Hub P I} (hr : h.redis = true) (hf : Filed h) (now : ℕ) :
    ∃ msgs, Mirrors h (h.onTick now).hub msgs := by
  have hping := pingAll_mirrors h
  unfold onTick heartbeatRemotePresence
  generalize h.pingAll = g at *
  have hconns : ∀ c ∈ g.localReg.rows.flatMap (fun e => e.2.rows),
      ∃ did, c ∈ (g.localMap did).rows := by
    intro c hc
    obtain ⟨e, he, hce⟩ := List.mem_flatMap.1 hc
    refine ⟨e.1, ?_⟩
    have hget := (g.localReg.mem_rows e).1 he
    show c ∈ (((g.localReg.get e.1).map Prod.snd).getD Table.empty).rows
    rw [hget]
    exact hce
  have hpub := publishAll_mirrors (hping.redis.trans hr) (hping.filed hf) _ hconns
  dsimp only
  generalize (g.localReg.rows.flatMap fun e => e.2.rows).foldl
    (fun h c => h.publish (.update h.instanceId c.toWireDevice)) g = k at *
  have hsweep : Mirrors k (sweepRemote now (2 * k.remoteReg.size) 0 k).hub [] := by
    have hl := sweepRemote_local now (2 * k.remoteReg.size) 0 k
    refine ⟨?_, ?_, fun m hm => (List.not_mem_nil hm).elim, hl.instanceId, hl.redis,
      fun hf did c hc => ?_⟩
    · rw [sweep_published, List.append_nil]
    · funext x
      unfold Hub.devices
      rw [hl.localMap]
      rfl
    · rw [hl.localMap] at hc
      exact hf did c hc
  exact ⟨_, hping.trans (hpub.trans hsweep)⟩

/-! ### Events of one instance -/

theorem Mirrors.uncaught {h : Hub P I} {o : Outcome P I} {msgs : List (RelayMsg P I)}
    (a : Mirrors h o.hub msgs) : Mirrors h o.uncaught msgs := by
  cases o with
  | ok h' => exact a
  | error h' => exact ⟨a.published, a.devices, a.signed, a.instanceId, a.redis, a.filed⟩

theorem setSock_mirrors (h : Hub P I) (ws : SockId) (s : Sock P) : Mirrors h (h.setSock ws s) [] :=
  mirrors_nil (fun _ => rfl) ⟨rfl, rfl, rfl⟩ rfl

theorem close_mirrors (h : Hub P I) (ws : SockId) (code : ℕ) (reason : String) :
    Mirrors h (h.close ws code reason) [] :=
  mirrors_nil (close_localMap h ws code reason) (close_proc h ws code reason)
    (close_published h ws code reason)

theorem markAlive_mirrors (h : Hub P I) (conn : LocalConn P) : Mirrors h (h.markAlive conn) [] := by
  have hproc := markAlive_proc h conn
  have hout : (h.markAlive conn).out = h.out := by
    unfold markAlive
    split
    · split <;> rfl
    · rfl
  have hmaps : ∀ did, (h.markAlive conn).localMap did = h.localMap did ∨
      ∃ e, (h.localMap did).get e.deviceId = some e ∧
        (h.markAlive conn).localMap did = (h.localMap did).put { e with alive := true } := by
    intro did
    unfold markAlive
    cases he : (h.localMap conn.did).get conn.deviceId with
    | none => exact Or.inl rfl
    | some e =>
      dsimp only
      split
      · rw [setLocalMap_localMap]
        split
        · rename_i hd
          subst hd
          exact Or.inr ⟨e, by rw [Table.key_of_get he, he], rfl⟩
        · exact Or.inl rfl
      · exact Or.inl rfl
  refine ⟨?_, ?_, fun m hm => (List.not_mem_nil hm).elim, hproc.instanceId, hproc.redis,
    fun hf did c hc => ?_⟩
  · rw [hout, List.append_nil]
  · funext k
    unfold Hub.devices
    rcases hmaps k.1 with hm | ⟨e, he, hm⟩
    · rw [hm]
      rfl
    · rw [hm, Table.get_put]
      split
      · rename_i hk
        show some e.toWireDevice = ((h.localMap k.1).get k.2).map fun c => c.toWireDevice
        rw [hk, he]
        rfl
      · rfl
  · rcases hmaps did with hm | ⟨e, he, hm⟩
    · rw [hm] at hc
      exact hf did c hc
    · rw [hm] at hc
      rcases (Table.mem_put _ _ _).1 hc with rfl | hc
      · exact hf did e ((Table.get_eq_some _ _ _).1 he).1
      · exact hf did c hc.1

theorem handleCommand_mirrors {h : Hub P I} (hr : h.redis = true) (conn : LocalConn P)
    (target : P.Id) (cmd : P.Cmd) : ∃ msgs, Mirrors h (h.handleCommand conn target cmd) msgs := by
  unfold handleCommand
  split
  · exact ⟨[], .refl h⟩
  · have hd := (deliverCommand_view h conn.did target conn.deviceId cmd).toSameRegs.mirrors
      (deliverCommand_published h conn.did target conn.deviceId cmd)
    split
    · rename_i h1 heq
      rw [heq] at hd
      exact ⟨_, hd⟩
    · rename_i h1 heq
      rw [heq] at hd
      have hv := (publish_view h1 (.command h1.instanceId conn.did target conn.deviceId cmd)).toSameRegs
      refine ⟨_, hd.trans (?_ : Mirrors h1 _ [.command h1.instanceId conn.did target conn.deviceId cmd])⟩
      refine ⟨publish_published (hd.redis.trans hr) _, ?_, fun m hm => ?_, hv.instanceId, hv.redis,
        fun hf did c hc => ?_⟩
      · funext k
        unfold Hub.devices
        rw [hv.localMap]
        rfl
      · rw [List.mem_singleton.1 hm]
        rfl
      · rw [hv.localMap] at hc
        exact hf did c hc

theorem relay_mirrors [DecidableEq I] (h : Hub P I) (now : ℕ) (msg : RelayMsg P I) :
    Mirrors h (h.onRelay now msg).hub [] := by
  have hl := onRelay_local h now msg
  have hp : Connect.published (h.onRelay now msg).hub.out = Connect.published h.out := by
    cases msg with
    | command inst did target src cmd =>
      simp only [onRelay]
      split
      · rfl
      · exact deliverCommand_published h did target src cmd
    | leave inst did deviceId =>
      simp only [onRelay]
      split
      · rfl
      · split
        · rfl
        · split
          · rfl
          · exact broadcast_published _ did
    | join inst d | update inst d =>
      simp only [onRelay]
      split
      · rfl
      · exact broadcast_published _ d.did
  refine ⟨?_, ?_, fun m hm => (List.not_mem_nil hm).elim, hl.instanceId, hl.redis,
    fun hf did c hc => ?_⟩
  · rw [hp, List.append_nil]
  · funext k
    unfold Hub.devices
    rw [hl.localMap]
    rfl
  · rw [hl.localMap] at hc
    exact hf did c hc

/-- A state frame speaks for the device registered under its id. -/
def StateGuard (h : Hub P I) (i : Input P I) : Prop :=
  match i.event with
  | .frame ws (.state _) =>
    (h.socks ws).readyState ≠ .closed → ∀ conn, (h.socks ws).conn = some conn →
      h.registered conn = true
  | _ => True

theorem handle_mirrors [DecidableEq I] {h : Hub P I} (hr : h.redis = true) (hf : Filed h)
    (i : Input P I) (hguard : StateGuard h i) : ∃ msgs, Mirrors h (handle h i) msgs := by
  obtain ⟨now, event⟩ := i
  cases event with
  | frame ws msg =>
    simp only [handle]
    split
    · exact ⟨[], .refl h⟩
    · rename_i hopen
      unfold onMessage
      cases hconn : (h.socks ws).conn with
      | none =>
        cases msg with
        | hello device => exact ⟨[], setSock_mirrors h ws _⟩
        | _ => exact ⟨[], .refl h⟩
      | some conn =>
        cases msg with
        | state state =>
          exact ⟨_, (state_mirrors hr conn state (hguard hopen conn hconn)).uncaught⟩
        | command target cmd => exact handleCommand_mirrors hr conn target cmd
        | bye => exact ⟨[], close_mirrors h ws 1000 "bye"⟩
        | _ => exact ⟨[], .refl h⟩
  | verified ws hello did =>
    simp only [handle]
    unfold onVerified
    cases hv : (h.socks ws).verifying.lookup hello with
    | none => exact ⟨[], .refl h⟩
    | some device =>
      have ha : Mirrors h (h.awaited ws hello) [] := setSock_mirrors h ws _
      cases device with
      | none => exact ⟨[], (ha : Mirrors h (Outcome.hub (.error (h.awaited ws hello))) []).uncaught⟩
      | some device =>
        obtain ⟨msgs, hm⟩ := hello_mirrors (ha.redis.trans hr) now ws hello did device
        refine ⟨[] ++ msgs ++ [], ?_⟩
        dsimp only
        cases ho : (h.awaited ws hello).onHelloVerified now ws hello did (some device) with
        | error h' =>
          rw [ho] at hm
          have hm' : Mirrors h (Outcome.hub (.error h')) ([] ++ msgs) := ha.trans hm
          rw [List.append_nil]
          exact hm'.uncaught
        | ok h' =>
          rw [ho] at hm
          exact (ha.trans hm).trans (setSock_mirrors h' ws _)
  | rejected ws hello message =>
    simp only [handle, onRejected]
    split
    · exact ⟨[], .refl h⟩
    · have hs := (send_view (h.awaited ws hello) ws (.error "AuthFailed" message)).toSameRegs.mirrors
        (send_published _ _ _)
      exact ⟨_, (setSock_mirrors h ws _).trans (hs.trans ((close_mirrors _ ws 4001 "auth failed").trans
        (setSock_mirrors _ ws _)))⟩
  | helloTimeout ws =>
    simp only [handle, onHelloTimeout]
    split
    · split
      · exact ⟨_, (setSock_mirrors h ws _).trans (close_mirrors _ ws 4008 "hello timeout")⟩
      · exact ⟨_, setSock_mirrors h ws _⟩
    · exact ⟨[], .refl h⟩
  | pong ws =>
    simp only [handle, onPong]
    split
    · exact ⟨[], .refl h⟩
    · exact ⟨[], markAlive_mirrors h _⟩
  | closing ws =>
    simp only [handle, terminate]
    split
    · exact ⟨[], setSock_mirrors h ws _⟩
    · exact ⟨[], .refl h⟩
  | close ws =>
    simp only [handle]
    split
    · exact ⟨[], .refl h⟩
    · unfold onClose
      dsimp only
      have hs := setSock_mirrors h ws { h.socks ws with readyState := .closed, helloTimer := false }
      split
      · exact ⟨_, hs⟩
      · rename_i conn _
        obtain ⟨msgs, hm⟩ := remove_mirrors (hs.redis.trans hr) conn
        exact ⟨_, (hs.trans hm).uncaught⟩
  | tick =>
    obtain ⟨msgs, hm⟩ := tick_mirrors hr hf now
    exact ⟨msgs, hm.uncaught⟩
  | relay msg => exact ⟨[], relay_mirrors h now msg⟩

/-! ### Remote devices -/

def remotes (h : Hub P I) (k : Did × P.Id) : Option (RemoteDevice P I) :=
  (h.remoteMap k.1).get k.2

theorem SameRegs.remotes {h h' : Hub P I} (a : SameRegs h h') : h'.remotes = h.remotes := by
  funext k
  unfold Hub.remotes
  rw [a.remoteMap]

/-- What a message of another instance makes of the entry it is about. -/
def received (now : ℕ) (msg : RelayMsg P I) :
    Option ((Did × P.Id) × Option (RemoteDevice P I)) :=
  msg.change.map fun c => (c.key, c.value.map fun d => { d with origin := msg.sender, lastSeen := now })

theorem relay_remotes [DecidableEq I] {h : Hub P I} {msg : RelayMsg P I}
    (hother : msg.sender ≠ h.instanceId) (now : ℕ) (k : Did × P.Id) :
    (h.onRelay now msg).hub.remotes k =
      match received now msg with
      | some (key, d) => if k = key then d else h.remotes k
      | none => h.remotes k := by
  obtain ⟨kd, ki⟩ := k
  have hset : ∀ (did : Did) (m : RemoteMap P I),
      (((h.setRemoteMap did m).broadcastRoster did).reconcilePresence did).hub.remotes (kd, ki) =
        if kd = did then m.get ki else h.remotes (kd, ki) := by
    intro did m
    rw [(broadcast_reconcile_regs _ did).remotes]
    unfold Hub.remotes
    rw [setRemoteMap_remoteMap]
    split <;> rfl
  cases msg with
  | command inst did target src cmd =>
    have hne : inst ≠ h.instanceId := hother
    simp only [onRelay, if_neg hne, Outcome.hub_ok]
    exact congrFun (deliverCommand_view h did target src cmd).toSameRegs.remotes _
  | leave inst did deviceId =>
    have hrec : @received P I now (.leave inst did deviceId) = some ((did, deviceId), none) := rfl
    have hne : inst ≠ h.instanceId := hother
    rw [hrec]
    simp only [onRelay, if_neg hne, Prod.mk.injEq]
    have hnone : (h.remoteMap did).get deviceId = none →
        h.remotes (kd, ki) = if kd = did ∧ ki = deviceId then none else h.remotes (kd, ki) := by
      intro hn
      split
      · rename_i hk
        unfold Hub.remotes
        rw [hk.1, hk.2, hn]
      · rfl
    cases hf : JsMap.find h.remoteReg did with
    | none =>
      refine hnone ?_
      unfold remoteMap
      rw [hf]
      rfl
    | some m =>
      have hm : h.remoteMap did = m := by simp [remoteMap, hf]
      dsimp only
      cases hg : m.get deviceId with
      | none => exact hnone (hm ▸ hg)
      | some e =>
        dsimp only
        rw [hset, Table.get_delete]
        by_cases hd : kd = did
        · subst hd
          unfold Hub.remotes
          rw [hm]
          simp
        · simp [hd]
  | join inst d | update inst d =>
    have hne : inst ≠ h.instanceId := hother
    simp only [onRelay, if_neg hne]
    rw [hset, Table.get_put]
    simp only [received, RelayMsg.change, Option.map_some, Change.key, Change.value, Prod.mk.injEq]
    by_cases hd : kd = d.did
    · subst hd
      by_cases hi : ki = d.deviceId
      · simp [hi, RelayMsg.sender]
      · simp [hi, Hub.remotes]
    · simp [hd]

/-- The replica of the sender follows the message, the others keep what they have unless it
is about a device of theirs. -/
theorem relay_heard [DecidableEq I] {h : Hub P I} {msg : RelayMsg P I}
    (hother : msg.sender ≠ h.instanceId) (now : ℕ)
    (hown : ∀ c, msg.change = some c → ∀ e, h.remotes c.key = some e → e.origin = msg.sender)
    (a : I) :
    (h.onRelay now msg).hub.heard a =
      if a = msg.sender then Change.applyAll (h.heard a) (changes [msg]) else h.heard a := by
  funext k
  have hr := relay_remotes hother now k
  have hheard : ∀ g : Hub P I, g.heard a k =
      ((g.remotes k).filter fun d => d.origin = a).map fun d => d.toWireDevice := fun _ => rfl
  rw [hheard, hr]
  cases hc : msg.change with
  | none =>
    simp only [received, hc, Option.map_none, changes, List.filterMap_cons, List.filterMap_nil,
      Change.applyAll, List.foldl_nil, ite_self]
    rfl
  | some c =>
    simp only [received, hc, Option.map_some, changes, List.filterMap_cons, List.filterMap_nil,
      Change.applyAll, List.foldl_cons, List.foldl_nil]
    by_cases hk : k = c.key
    · subst hk
      rw [if_pos rfl]
      split
      · rename_i ha
        unfold Change.apply
        rw [if_pos rfl]
        cases c.value with
        | none => rfl
        | some d =>
          have hpass : decide (msg.sender = a) = true := decide_eq_true ha.symm
          simp [Option.filter, hpass]
      · rename_i ha
        have hout : ∀ o : Option (RemoteDevice P I), (∀ e, o = some e → e.origin = msg.sender) →
            (o.filter fun d => d.origin = a) = none := by
          intro o ho
          cases o with
          | none => rfl
          | some e =>
            have hne : ¬ e.origin = a := fun he => ha (he.symm.trans (ho e rfl))
            simp [Option.filter, hne]
        have h1 := hout (c.value.map fun d => { d with origin := msg.sender, lastSeen := now }) (by
          intro e he
          obtain ⟨d, _, rfl⟩ := Option.map_eq_some_iff.1 he
          rfl)
        rw [h1, hheard, hout _ (hown c hc)]
    · rw [if_neg hk]
      split
      · unfold Change.apply
        rw [if_neg hk, hheard]
      · rw [hheard]

def Stale (now : ℕ) (d : RemoteDevice P I) : Prop := d.lastSeen + REMOTE_TTL_MS < now

/-- Nothing happens to the remote entries but that stale ones may go. -/
def Ages (now : ℕ) (h h' : Hub P I) : Prop :=
  ∀ k, h'.remotes k = h.remotes k ∨ ∃ d, h.remotes k = some d ∧ Stale now d ∧ h'.remotes k = none

theorem Ages.trans {now : ℕ} {h h' h'' : Hub P I} (a : Ages now h h') (b : Ages now h' h'') :
    Ages now h h'' := by
  intro k
  rcases a k with ha | ⟨d, hd, hs, hn⟩
  · rw [← ha]
    exact b k
  · rcases b k with hb | ⟨d', hd', _, _⟩
    · exact Or.inr ⟨d, hd, hs, hb.trans hn⟩
    · rw [hn] at hd'
      cases hd'

theorem ages_of_remotes {now : ℕ} {h h' : Hub P I} (hr : h'.remotes = h.remotes) :
    Ages now h h' := fun k => Or.inl (by rw [hr])

theorem pruneRemote_ages (now : ℕ) (h : Hub P I) (did : Did) :
    Ages now h (h.pruneRemote now did).hub := by
  unfold pruneRemote
  cases hf : JsMap.find h.remoteReg did with
  | none => exact ages_of_remotes rfl
  | some m =>
    have hm : h.remoteMap did = m := by simp [remoteMap, hf]
    have hdrop : Ages now h (h.dropStale now did m) := by
      intro k
      unfold Hub.remotes
      rw [dropStale_remoteMap]
      split
      · rename_i hd
        rw [hd, hm, fresh, Table.get_filter]
        cases hg : m.get k.2 with
        | none => exact Or.inl rfl
        | some d =>
          by_cases hs : d.lastSeen + REMOTE_TTL_MS < now
          · exact Or.inr ⟨d, rfl, hs, by simp [Option.filter, hs]⟩
          · exact Or.inl (by simp [Option.filter, hs])
      · exact Or.inl rfl
    dsimp only
    split
    · exact hdrop
    · exact hdrop.trans (ages_of_remotes (broadcast_reconcile_regs _ did).remotes)

theorem sweep_ages (now fuel pos : ℕ) (h : Hub P I) :
    Ages now h (sweepRemote now fuel pos h).hub := by
  induction fuel generalizing pos h with
  | zero => exact ages_of_remotes rfl
  | succ fuel ih =>
    unfold sweepRemote
    cases h.remoteReg.rows[pos]? with
    | none => exact ages_of_remotes rfl
    | some e =>
      have hp := pruneRemote_ages now h e.1
      dsimp only
      cases hres : h.pruneRemote now e.1 with
      | error h' =>
        rw [hres] at hp
        exact hp
      | ok h' =>
        rw [hres] at hp
        exact hp.trans (ih _ h')

theorem tick_ages (now : ℕ) (h : Hub P I) : Ages now h (h.onTick now).hub := by
  unfold onTick heartbeatRemotePresence pingAll
  obtain ⟨_, _, hrem⟩ := terminateAll_local h
    (h.localReg.rows.flatMap fun e => e.2.rows.filter fun c => !c.alive)
  generalize h.terminateAll (h.localReg.rows.flatMap fun e => e.2.rows.filter fun c => !c.alive)
    = g at *
  have hg : Ages now h g.clearAlive := ages_of_remotes (by
    funext k
    show ((JsMap.find g.remoteReg k.1).getD _).get _ = _
    rw [hrem]
    rfl)
  dsimp only
  have hp := (publishAll_view g.clearAlive
    (g.clearAlive.localReg.rows.flatMap fun e => e.2.rows)).toSameRegs.remotes
  exact hg.trans ((ages_of_remotes hp).trans (sweep_ages _ _ _ _))

theorem uncaught_remotes (o : Outcome P I) : o.uncaught.remotes = o.hub.remotes := by
  cases o <;> rfl

theorem Ages.uncaught {now : ℕ} {h : Hub P I} {o : Outcome P I} (a : Ages now h o.hub) :
    Ages now h o.uncaught := by
  intro k
  rw [uncaught_remotes]
  exact a k

theorem close_remotes (h : Hub P I) (ws : SockId) (code : ℕ) (reason : String) :
    (h.close ws code reason).remotes = h.remotes := by
  unfold close
  split <;> rfl

theorem store_remotes (h : Hub P I) (conn : LocalConn P) :
    (h.store conn).remotes = h.remotes := by
  obtain ⟨_, hrem, _, _⟩ := storeClosure_rest h conn
  have hc : (h.storeClosure conn).remotes = h.remotes := by
    unfold Hub.remotes remoteMap
    rw [hrem]
  unfold store storeRegistry
  split
  · split <;> exact hc
  · exact hc

theorem removeConn_remotes (h : Hub P I) (conn : LocalConn P) :
    (h.removeConn conn).hub.remotes = h.remotes := by
  obtain ⟨_, hrem, _, _⟩ := deleteLocal_rest h conn.did conn.deviceId
  unfold removeConn
  split
  · rfl
  · dsimp only
    rw [(broadcast_reconcile_regs _ conn.did).remotes, (publish_view _ _).toSameRegs.remotes]
    unfold Hub.remotes
    simp only [hrem]

theorem onVerified_remotes (h : Hub P I) (now : ℕ) (ws : SockId) (hello : ℕ) (did : Did) :
    (h.onVerified now ws hello did).hub.remotes = h.remotes := by
  unfold onVerified
  cases (h.socks ws).verifying.lookup hello with
  | none => rfl
  | some device =>
    cases device with
    | none => rfl
    | some device =>
      have hr := (onHelloVerified_regs (h.awaited ws hello) now ws hello did device).remotes
      have hreg : ((h.awaited ws hello).register (helloConn now ws hello did device)).remotes =
          h.remotes := by
        funext k
        unfold Hub.remotes
        rw [register_remoteMap]
        rfl
      dsimp only
      cases ho : (h.awaited ws hello).onHelloVerified now ws hello did (some device) with
      | error h' =>
        rw [ho] at hr
        exact hr.trans hreg
      | ok h' =>
        rw [ho] at hr
        exact hr.trans hreg

/-- Only ticks and messages of other instances change the remote entries. -/
theorem handle_remotes [DecidableEq I] (h : Hub P I) (i : Input P I) (hlocal : Local i)
    (htick : i.event ≠ .tick) : (handle h i).remotes = h.remotes := by
  obtain ⟨now, event⟩ := i
  cases event with
  | frame ws msg =>
    simp only [handle]
    split
    · rfl
    · rw [uncaught_remotes]
      unfold onMessage
      cases (h.socks ws).conn with
      | none => cases msg <;> rfl
      | some conn =>
        cases msg with
        | state state => exact (handleState_regs h conn state).remotes.trans (store_remotes h _)
        | command target cmd => exact (handleCommand_view h conn target cmd).toSameRegs.remotes
        | bye => exact close_remotes h ws 1000 "bye"
        | _ => rfl
  | verified ws hello did =>
    simp only [handle]
    rw [uncaught_remotes, onVerified_remotes]
  | rejected ws hello message =>
    simp only [handle, onRejected]
    split
    · rfl
    · have hs := (send_view (h.awaited ws hello) ws (.error "AuthFailed" message)).toSameRegs.remotes
      exact (close_remotes _ ws 4001 "auth failed").trans hs
  | helloTimeout ws =>
    simp only [handle, onHelloTimeout]
    split
    · split
      · exact close_remotes _ ws 4008 "hello timeout"
      · rfl
    · rfl
  | pong ws =>
    simp only [handle, onPong, markAlive]
    split
    · rfl
    · split
      · split <;> rfl
      · rfl
  | closing ws =>
    simp only [handle, terminate]
    split <;> rfl
  | close ws =>
    simp only [handle]
    split
    · rfl
    · rw [uncaught_remotes]
      unfold onClose
      dsimp only
      split
      · rfl
      · exact removeConn_remotes _ _
  | tick => exact (htick rfl).elim
  | relay msg => exact (hlocal msg rfl).elim

end Hub

end Atradio.Connect
