import Atradio.Connect.Total

/-! # Hubs that agree for an account

The account `d` owns the sockets `mine`. Two hubs agree for the account if its three map
entries are the same and its sockets are and were sent the same (`Agree`). A handler
that works for `d` takes agreeing hubs to agreeing hubs, any other leaves a hub that
agrees with the one it got. -/

namespace Atradio.Connect.Hub
open Atradio.Lib

variable {I : Type} {d : Did} {mine : SockId → Prop}

def sentTo (ws : SockId) (out : List (Effect protocol I)) : List (ServerMsg protocol) :=
  out.filterMap fun
    | .sent ws' msg => if ws' = ws then some msg else none
    | _ => none

structure Agree (d : Did) (mine : SockId → Prop) (h g : Hub protocol I) : Prop where
  localReg : JsMap.find h.localReg d = JsMap.find g.localReg d
  remoteReg : JsMap.find h.remoteReg d = JsMap.find g.remoteReg d
  last : JsMap.find h.lastAnyPlaying d = JsMap.find g.lastAnyPlaying d
  socks : ∀ ws, mine ws → h.socks ws = g.socks ws
  sent : ∀ ws, mine ws → sentTo ws h.out = sentTo ws g.out
  instanceId : h.instanceId = g.instanceId
  redis : h.redis = g.redis
  crashed : h.crashed = g.crashed

theorem Agree.refl (h : Hub protocol I) : Agree d mine h h :=
  ⟨rfl, rfl, rfl, fun _ _ => rfl, fun _ _ => rfl, rfl, rfl, rfl⟩

theorem Agree.symm {h g : Hub protocol I} (a : Agree d mine h g) : Agree d mine g h :=
  ⟨a.localReg.symm, a.remoteReg.symm, a.last.symm, fun ws hw => (a.socks ws hw).symm,
    fun ws hw => (a.sent ws hw).symm, a.instanceId.symm, a.redis.symm, a.crashed.symm⟩

theorem Agree.trans {h g k : Hub protocol I} (a : Agree d mine h g) (b : Agree d mine g k) :
    Agree d mine h k :=
  ⟨a.localReg.trans b.localReg, a.remoteReg.trans b.remoteReg, a.last.trans b.last,
    fun ws hw => (a.socks ws hw).trans (b.socks ws hw),
    fun ws hw => (a.sent ws hw).trans (b.sent ws hw), a.instanceId.trans b.instanceId,
    a.redis.trans b.redis, a.crashed.trans b.crashed⟩

/-- Changes on either side that leave the other account alone. -/
theorem Agree.frame {h g h' g' : Hub protocol I} (a : Agree d mine h g) (b : Agree d mine h' h)
    (c : Agree d mine g' g) : Agree d mine h' g' := b.trans (a.trans c.symm)

theorem Agree.localMap {h g : Hub protocol I} (a : Agree d mine h g) :
    h.localMap d = g.localMap d := by
  unfold Hub.localMap
  rw [a.localReg]

theorem Agree.remoteMap {h g : Hub protocol I} (a : Agree d mine h g) :
    h.remoteMap d = g.remoteMap d := by
  unfold Hub.remoteMap
  rw [a.remoteReg]

theorem Agree.roster {h g : Hub protocol I} (a : Agree d mine h g) : h.roster d = g.roster d :=
  roster_congr a.localMap a.remoteMap

theorem Agree.anyPlaying {h g : Hub protocol I} (a : Agree d mine h g) :
    h.anyPlaying d = g.anyPlaying d := by
  unfold Hub.anyPlaying
  rw [a.roster]

theorem Agree.lastPlaying {h g : Hub protocol I} (a : Agree d mine h g) :
    h.lastPlaying d = g.lastPlaying d := by
  unfold Hub.lastPlaying
  rw [a.last]

theorem Agree.cleanupOwner {h g : Hub protocol I} (a : Agree d mine h g) :
    h.cleanupOwner d = g.cleanupOwner d := by
  unfold Hub.cleanupOwner
  rw [a.roster, a.localMap]

/-! ### Sockets and effects -/

theorem sentTo_effect (h : Hub protocol I) (e : Effect protocol I) (ws : SockId) :
    sentTo ws (h.effect e).out = sentTo ws h.out ++ sentTo ws [e] := by
  simp [effect, sentTo]

theorem Agree.setSock {h g : Hub protocol I} (a : Agree d mine h g) (ws : SockId)
    {s t : Sock protocol} (hs : mine ws → s = t) :
    Agree d mine (h.setSock ws s) (g.setSock ws t) := by
  refine ⟨a.localReg, a.remoteReg, a.last, fun ws' hw => ?_, a.sent, a.instanceId, a.redis,
    a.crashed⟩
  simp only [Hub.setSock]
  split
  · rename_i heq
    exact hs (heq ▸ hw)
  · exact a.socks ws' hw

theorem setSock_frame (h : Hub protocol I) {ws : SockId} (hw : ¬ mine ws) (s : Sock protocol) :
    Agree d mine (h.setSock ws s) h := by
  refine ⟨rfl, rfl, rfl, fun ws' hw' => ?_, fun _ _ => rfl, rfl, rfl, rfl⟩
  simp only [Hub.setSock]
  split
  · rename_i heq
    exact (hw (heq ▸ hw')).elim
  · rfl

theorem Agree.effect {h g : Hub protocol I} (a : Agree d mine h g) (e : Effect protocol I) :
    Agree d mine (h.effect e) (g.effect e) := by
  refine ⟨a.localReg, a.remoteReg, a.last, a.socks, fun ws hw => ?_, a.instanceId, a.redis,
    a.crashed⟩
  rw [sentTo_effect, sentTo_effect, a.sent ws hw]

theorem effect_frame (h : Hub protocol I) {e : Effect protocol I}
    (he : ∀ ws, mine ws → sentTo ws [e] = []) : Agree d mine (h.effect e) h := by
  refine ⟨rfl, rfl, rfl, fun _ _ => rfl, fun ws hw => ?_, rfl, rfl, rfl⟩
  rw [sentTo_effect, he ws hw, List.append_nil]

theorem send_frame (h : Hub protocol I) {ws : SockId} (hw : ¬ mine ws) (msg : ServerMsg protocol) :
    Agree d mine (h.send ws msg) h := by
  unfold send
  split
  · refine effect_frame h fun ws' hw' => ?_
    have hne : ws ≠ ws' := fun heq => hw (heq ▸ hw')
    simp [sentTo, hne]
  · exact .refl h

theorem Agree.send {h g : Hub protocol I} (a : Agree d mine h g) (ws : SockId)
    (msg : ServerMsg protocol) : Agree d mine (h.send ws msg) (g.send ws msg) := by
  by_cases hw : mine ws
  · unfold Hub.send
    rw [a.socks ws hw]
    split
    · exact a.effect _
    · exact a
  · exact a.frame (send_frame h hw msg) (send_frame g hw msg)

theorem close_frame (h : Hub protocol I) {ws : SockId} (hw : ¬ mine ws) (code : ℕ)
    (reason : String) : Agree d mine (h.close ws code reason) h := by
  unfold close
  split
  · exact (effect_frame _ fun _ _ => rfl).trans (setSock_frame h hw _)
  · exact .refl h

theorem Agree.close {h g : Hub protocol I} (a : Agree d mine h g) (ws : SockId) (code : ℕ)
    (reason : String) : Agree d mine (h.close ws code reason) (g.close ws code reason) := by
  by_cases hw : mine ws
  · unfold Hub.close
    rw [a.socks ws hw]
    split
    · exact (a.setSock ws fun _ => rfl).effect _
    · exact a
  · exact a.frame (close_frame h hw code reason) (close_frame g hw code reason)

theorem terminate_frame (h : Hub protocol I) {ws : SockId} (hw : ¬ mine ws) :
    Agree d mine (h.terminate ws) h := by
  unfold terminate
  split
  · exact setSock_frame h hw _
  · exact .refl h

theorem Agree.terminate {h g : Hub protocol I} (a : Agree d mine h g) (ws : SockId) :
    Agree d mine (h.terminate ws) (g.terminate ws) := by
  by_cases hw : mine ws
  · unfold Hub.terminate
    rw [a.socks ws hw]
    split
    · exact a.setSock ws fun _ => rfl
    · exact a
  · exact a.frame (terminate_frame h hw) (terminate_frame g hw)

theorem publish_frame (h : Hub protocol I) (msg : RelayMsg protocol I) :
    Agree d mine (h.publish msg) h := by
  unfold publish
  split
  · exact effect_frame h fun _ _ => rfl
  · exact .refl h

theorem Agree.sendAll {h g : Hub protocol I} (a : Agree d mine h g)
    (msgs : List (SockId × ServerMsg protocol)) :
    Agree d mine (h.sendAll msgs) (g.sendAll msgs) := by
  unfold Hub.sendAll
  induction msgs generalizing h g with
  | nil => exact a
  | cons m msgs ih => exact ih (a.send m.1 m.2)

theorem sendAll_frame (h : Hub protocol I) {msgs : List (SockId × ServerMsg protocol)}
    (hm : ∀ m ∈ msgs, ¬ mine m.1) : Agree d mine (h.sendAll msgs) h := by
  unfold sendAll
  induction msgs generalizing h with
  | nil => exact .refl h
  | cons m msgs ih =>
    have hrest := ih (h.send m.1 m.2) fun m' hm' => hm m' (List.mem_cons_of_mem _ hm')
    exact hrest.trans (send_frame h (hm m (List.mem_cons_self ..)) m.2)

/-! ### Maps -/

theorem Agree.setLocalMap {h g : Hub protocol I} (a : Agree d mine h g) (m : LocalMap protocol) :
    Agree d mine (h.setLocalMap d m) (g.setLocalMap d m) := by
  refine ⟨?_, a.remoteReg, a.last, a.socks, a.sent, a.instanceId, a.redis, a.crashed⟩
  simp [Hub.setLocalMap, JsMap.find_set]

theorem setLocalMap_frame (h : Hub protocol I) {did : Did} (hd : did ≠ d) (m : LocalMap protocol) :
    Agree d mine (h.setLocalMap did m) h := by
  refine ⟨?_, rfl, rfl, fun _ _ => rfl, fun _ _ => rfl, rfl, rfl, rfl⟩
  simp [Hub.setLocalMap, JsMap.find_set, Ne.symm hd]

theorem Agree.setRemoteMap {h g : Hub protocol I} (a : Agree d mine h g)
    (m : RemoteMap protocol I) : Agree d mine (h.setRemoteMap d m) (g.setRemoteMap d m) := by
  refine ⟨a.localReg, ?_, a.last, a.socks, a.sent, a.instanceId, a.redis, a.crashed⟩
  simp [Hub.setRemoteMap, JsMap.find_set]

theorem setRemoteMap_frame (h : Hub protocol I) {did : Did} (hd : did ≠ d)
    (m : RemoteMap protocol I) : Agree d mine (h.setRemoteMap did m) h := by
  refine ⟨rfl, ?_, rfl, fun _ _ => rfl, fun _ _ => rfl, rfl, rfl, rfl⟩
  simp [Hub.setRemoteMap, JsMap.find_set, Ne.symm hd]

theorem Agree.setLastPlaying {h g : Hub protocol I} (a : Agree d mine h g) (b : Bool) :
    Agree d mine (h.setLastPlaying d b) (g.setLastPlaying d b) := by
  refine ⟨a.localReg, a.remoteReg, ?_, a.socks, a.sent, a.instanceId, a.redis, a.crashed⟩
  simp [Hub.setLastPlaying, JsMap.find_set]

theorem setLastPlaying_frame (h : Hub protocol I) {did : Did} (hd : did ≠ d) (b : Bool) :
    Agree d mine (h.setLastPlaying did b) h := by
  refine ⟨rfl, rfl, ?_, fun _ _ => rfl, fun _ _ => rfl, rfl, rfl, rfl⟩
  simp [Hub.setLastPlaying, JsMap.find_set, Ne.symm hd]

theorem Agree.makeLocalMap {h g : Hub protocol I} (a : Agree d mine h g) :
    Agree d mine (h.makeLocalMap d) (g.makeLocalMap d) := by
  unfold Hub.makeLocalMap
  rw [a.localReg]
  split
  · exact a
  · exact a.setLocalMap Table.empty

theorem makeLocalMap_frame (h : Hub protocol I) {did : Did} (hd : did ≠ d) :
    Agree d mine (h.makeLocalMap did) h := by
  unfold Hub.makeLocalMap
  split
  · exact .refl h
  · exact setLocalMap_frame h hd Table.empty

theorem Agree.makeMaps {h g : Hub protocol I} (a : Agree d mine h g) :
    Agree d mine (h.makeMaps d) (g.makeMaps d) := by
  have hr : Agree d mine (h.makeRemoteMap d) (g.makeRemoteMap d) := by
    unfold makeRemoteMap
    rw [a.remoteReg]
    split
    · exact a
    · exact a.setRemoteMap Table.empty
  exact hr.makeLocalMap

theorem makeMaps_frame (h : Hub protocol I) {did : Did} (hd : did ≠ d) :
    Agree d mine (h.makeMaps did) h := by
  have hr : Agree d mine (h.makeRemoteMap did) h := by
    unfold makeRemoteMap
    split
    · exact .refl h
    · exact setRemoteMap_frame h hd Table.empty
  exact (makeLocalMap_frame _ hd).trans hr

theorem Agree.deleteLocal {h g : Hub protocol I} (a : Agree d mine h g) (id : String) :
    Agree d mine (h.deleteLocal d id) (g.deleteLocal d id) := by
  unfold Hub.deleteLocal
  rw [a.localMap]
  dsimp only
  split
  · refine ⟨?_, a.remoteReg, a.last, a.socks, a.sent, a.instanceId, a.redis, a.crashed⟩
    simp [JsMap.find_delete]
  · exact a.setLocalMap _

theorem deleteLocal_frame (h : Hub protocol I) {did : Did} (hd : did ≠ d) (id : String) :
    Agree d mine (h.deleteLocal did id) h := by
  unfold Hub.deleteLocal
  dsimp only
  split
  · refine ⟨?_, rfl, rfl, fun _ _ => rfl, fun _ _ => rfl, rfl, rfl, rfl⟩
    simp [JsMap.find_delete, Ne.symm hd]
  · exact setLocalMap_frame h hd _

/-! ### Broadcasts -/

theorem Agree.broadcastRoster {h g : Hub protocol I} (a : Agree d mine h g) :
    Agree d mine (h.broadcastRoster d) (g.broadcastRoster d) := by
  unfold Hub.broadcastRoster
  rw [a.roster, a.localMap]
  exact a.makeMaps.sendAll _

theorem broadcastRoster_frame (h : Hub protocol I) {did : Did} (hd : did ≠ d)
    (hrows : ∀ c ∈ (h.localMap did).rows, ¬ mine c.ws) :
    Agree d mine (h.broadcastRoster did) h := by
  refine (sendAll_frame _ fun m hm => ?_).trans (makeMaps_frame h hd)
  obtain ⟨c, hc, rfl⟩ := List.mem_map.1 hm
  exact hrows c hc

theorem Agree.sendPresence {h g : Hub protocol I} (a : Agree d mine h g) (now : Bool) :
    Agree d mine (h.sendPresence d now) (g.sendPresence d now) := by
  unfold Hub.sendPresence
  rw [a.localMap]
  exact a.sendAll _

theorem sendPresence_frame (h : Hub protocol I) {did : Did} (now : Bool)
    (hrows : ∀ c ∈ (h.localMap did).rows, ¬ mine c.ws) :
    Agree d mine (h.sendPresence did now) h := by
  refine sendAll_frame h fun m hm => ?_
  obtain ⟨c, hc, rfl⟩ := List.mem_map.1 hm
  exact hrows c hc

theorem Agree.reconcile {h g : Hub protocol I} (a : Agree d mine h g) :
    Agree d mine (h.reconcilePresence d).hub (g.reconcilePresence d).hub := by
  have hm := a.makeMaps
  unfold reconcilePresence
  dsimp only
  rw [hm.anyPlaying, hm.lastPlaying]
  cases (g.makeMaps d).anyPlaying d with
  | none => exact hm
  | some now =>
    have hl := hm.setLastPlaying now
    dsimp only
    rw [hl.cleanupOwner]
    split
    · cases (Hub.setLastPlaying (g.makeMaps d) d now).cleanupOwner d with
      | none => exact hl
      | some owner =>
        cases owner with
        | none => exact hl.sendPresence now
        | some owner => exact (hl.send owner.ws _).sendPresence now
    · exact hl.sendPresence now

theorem reconcile_frame (h : Hub protocol I) {did : Did} (hd : did ≠ d)
    (hrows : ∀ c ∈ (h.localMap did).rows, ¬ mine c.ws) :
    Agree d mine (h.reconcilePresence did).hub h := by
  have hm : Agree d mine (h.makeMaps did) h := makeMaps_frame h hd
  unfold reconcilePresence
  dsimp only
  cases (h.makeMaps did).anyPlaying did with
  | none => exact hm
  | some now =>
    have hl := (setLastPlaying_frame (h.makeMaps did) hd now).trans hm
    have hrows' : ∀ c ∈ (((h.makeMaps did).setLastPlaying did now).localMap did).rows,
        ¬ mine c.ws := by
      rw [(setLastPlaying_regs _ did now).localMap, (makeMaps_view h did).localMap]
      exact hrows
    dsimp only
    split
    · cases ho : ((h.makeMaps did).setLastPlaying did now).cleanupOwner did with
      | none => exact hl
      | some owner =>
        cases owner with
        | none => exact (sendPresence_frame _ now hrows').trans hl
        | some owner =>
          -- the owner is one of the account's own devices
          have howner : ¬ mine owner.ws := by
            unfold cleanupOwner at ho
            split at ho
            · cases ho
            · obtain ⟨o, _, hget⟩ := Option.map_eq_some_iff.1 ho
              exact hrows' owner ((Table.get_eq_some _ _ _).1 hget).1
          have hrows2 : ∀ c ∈ ((((h.makeMaps did).setLastPlaying did now).send owner.ws
              (.presence false true)).localMap did).rows, ¬ mine c.ws := by
            rw [(send_view _ owner.ws _).localMap]
            exact hrows'
          exact (sendPresence_frame _ now hrows2).trans ((send_frame _ howner _).trans hl)
    · exact (sendPresence_frame _ now hrows').trans hl

theorem Agree.broadcast {h g : Hub protocol I} (a : Agree d mine h g) :
    Agree d mine ((h.broadcastRoster d).reconcilePresence d).hub
      ((g.broadcastRoster d).reconcilePresence d).hub := a.broadcastRoster.reconcile

theorem broadcast_frame (h : Hub protocol I) {did : Did} (hd : did ≠ d)
    (hrows : ∀ c ∈ (h.localMap did).rows, ¬ mine c.ws) :
    Agree d mine ((h.broadcastRoster did).reconcilePresence did).hub h := by
  have hrows' : ∀ c ∈ ((h.broadcastRoster did).localMap did).rows, ¬ mine c.ws := by
    rw [(broadcastRoster_view h did).localMap]
    exact hrows
  exact (reconcile_frame _ hd hrows').trans (broadcastRoster_frame h hd hrows)

theorem Agree.deliverCommand {h g : Hub protocol I} (a : Agree d mine h g) (target src : String)
    (cmd : Command) :
    Agree d mine (h.deliverCommand d target src cmd).1 (g.deliverCommand d target src cmd).1 ∧
      (h.deliverCommand d target src cmd).2 = (g.deliverCommand d target src cmd).2 := by
  have hm := a.makeLocalMap
  unfold Hub.deliverCommand
  dsimp only
  rw [hm.localMap]
  cases ((g.makeLocalMap d).localMap d).get target with
  | none => exact ⟨hm, rfl⟩
  | some conn => exact ⟨hm.send conn.ws _, rfl⟩

theorem deliverCommand_frame (h : Hub protocol I) {did : Did} (hd : did ≠ d)
    (hrows : ∀ c ∈ (h.localMap did).rows, ¬ mine c.ws) (target src : String) (cmd : Command) :
    Agree d mine (h.deliverCommand did target src cmd).1 h := by
  have hm : Agree d mine (h.makeLocalMap did) h := makeLocalMap_frame h hd
  unfold Hub.deliverCommand
  dsimp only
  rw [(makeLocalMap_view h did).localMap]
  cases hg : (h.localMap did).get target with
  | none => exact hm
  | some conn =>
    exact (send_frame _ (hrows conn ((Table.get_eq_some _ _ _).1 hg).1) _).trans hm

/-! ### Client messages -/

theorem Agree.store {h g : Hub protocol I} (a : Agree d mine h g) {conn : LocalConn protocol}
    (hd : conn.did = d) (hw : mine conn.ws) : Agree d mine (h.store conn) (g.store conn) := by
  have hc : Agree d mine (h.storeClosure conn) (g.storeClosure conn) := by
    unfold storeClosure
    rw [a.socks conn.ws hw]
    split
    · split
      · exact a.setSock conn.ws fun _ => rfl
      · exact a
    · exact a
  unfold Hub.store storeRegistry
  rw [hd, hc.localMap]
  split
  · split
    · exact hc.setLocalMap _
    · exact hc
  · exact hc

theorem store_frame (h : Hub protocol I) {conn : LocalConn protocol} (hd : conn.did ≠ d)
    (hw : ¬ mine conn.ws) : Agree d mine (h.store conn) h := by
  have hc : Agree d mine (h.storeClosure conn) h := by
    unfold storeClosure
    split
    · split
      · exact setSock_frame h hw _
      · exact .refl h
    · exact .refl h
  unfold Hub.store storeRegistry
  split
  · split
    · exact (setLocalMap_frame _ hd _).trans hc
    · exact hc
  · exact hc

theorem Agree.markAlive {h g : Hub protocol I} (a : Agree d mine h g) {conn : LocalConn protocol}
    (hd : conn.did = d) : Agree d mine (h.markAlive conn) (g.markAlive conn) := by
  unfold Hub.markAlive
  rw [hd, a.localMap]
  split
  · split
    · exact a.setLocalMap _
    · exact a
  · exact a

theorem markAlive_frame (h : Hub protocol I) {conn : LocalConn protocol} (hd : conn.did ≠ d) :
    Agree d mine (h.markAlive conn) h := by
  unfold Hub.markAlive
  split
  · split
    · exact setLocalMap_frame h hd _
    · exact .refl h
  · exact .refl h

theorem Agree.publish {h g : Hub protocol I} (a : Agree d mine h g) (m n : RelayMsg protocol I) :
    Agree d mine (h.publish m) (g.publish n) := a.frame (publish_frame h m) (publish_frame g n)

theorem Agree.handleState {h g : Hub protocol I} (a : Agree d mine h g)
    {conn : LocalConn protocol} (hd : conn.did = d) (hw : mine conn.ws) (state : PlaybackState) :
    Agree d mine (h.handleState conn state).hub (g.handleState conn state).hub := by
  have hs : Agree d mine (h.store { conn with state := state })
      (g.store { conn with state := state }) := a.store hd hw
  unfold Hub.handleState
  dsimp only
  generalize h.store { conn with state := state } = h1 at *
  generalize g.store { conn with state := state } = g1 at *
  rw [hd]
  exact (hs.publish _ _).broadcast

theorem handleState_frame (h : Hub protocol I) {conn : LocalConn protocol} (hd : conn.did ≠ d)
    (hw : ¬ mine conn.ws) (state : PlaybackState)
    (hrows : ∀ c ∈ (h.localMap conn.did).rows, ¬ mine c.ws) :
    Agree d mine (h.handleState conn state).hub h := by
  have hs : Agree d mine (h.store { conn with state := state }) h := store_frame h hd hw
  have hrows' : ∀ c ∈ ((h.store { conn with state := state }).localMap conn.did).rows,
      ¬ mine c.ws := by
    obtain ⟨hloc, _, _, _⟩ := storeClosure_rest h { conn with state := state }
    have hl : (h.storeClosure { conn with state := state }).localMap conn.did =
        h.localMap conn.did := by
      unfold localMap
      rw [hloc]
    unfold Hub.store storeRegistry
    split
    · split
      · intro c hc
        rw [setLocalMap_localMap, if_pos rfl] at hc
        rcases (Table.mem_put _ _ _).1 hc with rfl | hc
        · exact hw
        · exact hrows c (hl ▸ hc.1)
      · rw [hl]
        exact hrows
    · rw [hl]
      exact hrows
  unfold Hub.handleState
  dsimp only
  have hv := publish_view (h.store { conn with state := state })
    (.update (h.store { conn with state := state }).instanceId
      { conn with state := state }.toWireDevice)
  exact (broadcast_frame _ hd ((hv.localMap conn.did).symm ▸ hrows')).trans
    ((publish_frame _ _).trans hs)

theorem Agree.handleCommand {h g : Hub protocol I} (a : Agree d mine h g)
    {conn : LocalConn protocol} (hd : conn.did = d) (target : String) (cmd : Command) :
    Agree d mine (h.handleCommand conn target cmd) (g.handleCommand conn target cmd) := by
  obtain ⟨hdel, hlanded⟩ := a.deliverCommand target conn.deviceId cmd
  unfold Hub.handleCommand
  rw [hd]
  split
  · exact a
  · cases hh : h.deliverCommand d target conn.deviceId cmd with
    | mk h1 b1 =>
      cases hg : g.deliverCommand d target conn.deviceId cmd with
      | mk g1 b2 =>
        rw [hh, hg] at hdel hlanded
        obtain rfl : b1 = b2 := hlanded
        cases b1 with
        | true => exact hdel
        | false => exact hdel.publish _ _

theorem handleCommand_frame (h : Hub protocol I) {conn : LocalConn protocol} (hd : conn.did ≠ d)
    (hrows : ∀ c ∈ (h.localMap conn.did).rows, ¬ mine c.ws) (target : String) (cmd : Command) :
    Agree d mine (h.handleCommand conn target cmd) h := by
  have hdel : Agree d mine (h.deliverCommand conn.did target conn.deviceId cmd).1 h :=
    deliverCommand_frame h hd hrows target conn.deviceId cmd
  unfold Hub.handleCommand
  split
  · exact .refl h
  · cases hh : h.deliverCommand conn.did target conn.deviceId cmd with
    | mk h1 b1 =>
      rw [hh] at hdel
      cases b1 with
      | true => exact hdel
      | false => exact (publish_frame _ _).trans hdel

theorem Agree.registered {h g : Hub protocol I} (a : Agree d mine h g)
    {conn : LocalConn protocol} (hd : conn.did = d) : h.registered conn = g.registered conn := by
  unfold Hub.registered
  rw [hd, a.localMap]

theorem Agree.removeConn {h g : Hub protocol I} (a : Agree d mine h g)
    {conn : LocalConn protocol} (hd : conn.did = d) :
    Agree d mine (h.removeConn conn).hub (g.removeConn conn).hub := by
  unfold Hub.removeConn
  rw [a.registered hd, hd]
  split
  · exact a
  · exact ((a.deleteLocal conn.deviceId).publish _ _).broadcast

theorem removeConn_frame (h : Hub protocol I) {conn : LocalConn protocol} (hd : conn.did ≠ d)
    (hrows : ∀ c ∈ (h.localMap conn.did).rows, ¬ mine c.ws) :
    Agree d mine (h.removeConn conn).hub h := by
  unfold Hub.removeConn
  split
  · exact .refl h
  · dsimp only
    have hrows' : ∀ c ∈ ((h.deleteLocal conn.did conn.deviceId).localMap conn.did).rows,
        ¬ mine c.ws := by
      intro c hc
      rw [deleteLocal_localMap, if_pos rfl] at hc
      exact hrows c ((Table.mem_delete _ _ _).1 hc).1
    have hv := publish_view (h.deleteLocal conn.did conn.deviceId)
      (.leave (h.deleteLocal conn.did conn.deviceId).instanceId conn.did conn.deviceId)
    exact (broadcast_frame _ hd ((hv.localMap conn.did).symm ▸ hrows')).trans
      ((publish_frame _ _).trans (deleteLocal_frame h hd conn.deviceId))

/-! ### Hellos -/

theorem Agree.register {h g : Hub protocol I} (a : Agree d mine h g) {conn : LocalConn protocol}
    (hd : conn.did = d) : Agree d mine (h.register conn) (g.register conn) := by
  have hm := a.makeLocalMap
  have hp : Agree d mine ((h.makeLocalMap d).replacePrior conn)
      ((g.makeLocalMap d).replacePrior conn) := by
    unfold replacePrior
    rw [hd, hm.localMap]
    split
    · split
      · exact hm
      · exact hm.close _ _ _
    · exact hm
  unfold Hub.register
  dsimp only
  rw [hd, hp.localMap]
  exact hp.setLocalMap _

theorem register_frame (h : Hub protocol I) {conn : LocalConn protocol} (hd : conn.did ≠ d)
    (hrows : ∀ c ∈ (h.localMap conn.did).rows, ¬ mine c.ws) :
    Agree d mine (h.register conn) h := by
  have hm : Agree d mine (h.makeLocalMap conn.did) h := makeLocalMap_frame h hd
  have hp : Agree d mine ((h.makeLocalMap conn.did).replacePrior conn) h := by
    unfold replacePrior
    rw [(makeLocalMap_view h conn.did).localMap]
    cases hg : (h.localMap conn.did).get conn.deviceId with
    | none => exact hm
    | some prior =>
      have hprior := hrows prior ((Table.get_eq_some _ _ _).1 hg).1
      dsimp only
      split
      · exact hm
      · exact (close_frame _ hprior 4002 "replaced").trans hm
  exact (setLocalMap_frame _ hd _).trans hp

theorem Agree.announce {h g : Hub protocol I} (a : Agree d mine h g) {conn : LocalConn protocol}
    (hd : conn.did = d) : Agree d mine (h.announce conn) (g.announce conn) := by
  unfold Hub.announce
  dsimp only
  rw [hd]
  exact ((a.makeMaps.send conn.ws _).publish _ _).broadcastRoster

theorem announce_frame (h : Hub protocol I) {conn : LocalConn protocol} (hd : conn.did ≠ d)
    (hw : ¬ mine conn.ws) (hrows : ∀ c ∈ (h.localMap conn.did).rows, ¬ mine c.ws) :
    Agree d mine (h.announce conn) h := by
  have hm : Agree d mine (h.makeMaps conn.did) h := makeMaps_frame h hd
  have hs := (send_frame (h.makeMaps conn.did) hw (.welcome conn.did conn.deviceId)).trans hm
  have hv := ((makeMaps_view h conn.did).trans
    (send_view _ conn.ws (.welcome conn.did conn.deviceId))).trans (publish_view _
      (.join ((h.makeMaps conn.did).send conn.ws (.welcome conn.did conn.deviceId)).instanceId
        conn.toWireDevice))
  exact (broadcastRoster_frame _ hd ((hv.localMap conn.did).symm ▸ hrows)).trans
    ((publish_frame _ _).trans hs)

theorem greet_ok (h : Hub protocol I) (conn : LocalConn protocol) (wasEmpty : Bool) :
    h.greet conn wasEmpty = .ok (h.greet conn wasEmpty).hub := by
  obtain ⟨h', ho⟩ := (sound_protocol h).greet total_protocol conn trivial wasEmpty
  rw [ho]
  rfl

theorem Agree.greet {h g : Hub protocol I} (a : Agree d mine h g) {conn : LocalConn protocol}
    (hd : conn.did = d) (wasEmpty : Bool) :
    Agree d mine (h.greet conn wasEmpty).hub (g.greet conn wasEmpty).hub := by
  unfold Hub.greet
  rw [hd, a.anyPlaying]
  cases g.anyPlaying d with
  | none => exact a
  | some playing =>
    have hs := (a.setLastPlaying playing).send conn.ws (.presence playing false)
    dsimp only
    split
    · split
      · exact hs.send conn.ws _
      · exact hs
    · exact hs

theorem greet_frame (h : Hub protocol I) {conn : LocalConn protocol} (hd : conn.did ≠ d)
    (hw : ¬ mine conn.ws) (wasEmpty : Bool) : Agree d mine (h.greet conn wasEmpty).hub h := by
  unfold Hub.greet
  cases h.anyPlaying conn.did with
  | none => exact .refl h
  | some playing =>
    have hs := (send_frame (h.setLastPlaying conn.did playing) hw
      (.presence playing false)).trans (setLastPlaying_frame h hd playing)
    dsimp only
    split
    · split
      · exact (send_frame _ hw _).trans hs
      · exact hs
    · exact hs

theorem Agree.helloVerified {h g : Hub protocol I} (a : Agree d mine h g) (now : ℕ) (ws : SockId)
    (hello : ℕ) (device : HelloDevice protocol) :
    Agree d mine (h.onHelloVerified now ws hello d (some device)).hub
      (g.onHelloVerified now ws hello d (some device)).hub := by
  have hdid : (helloConn now ws hello d device).did = d := rfl
  unfold onHelloVerified
  dsimp only
  generalize helloConn now ws hello d device = conn at *
  have hr := a.register hdid
  rw [hr.roster]
  exact (hr.announce hdid).greet hdid _

theorem helloVerified_frame (h : Hub protocol I) {did : Did} (hd : did ≠ d) {ws : SockId}
    (hw : ¬ mine ws) (now hello : ℕ) (device : HelloDevice protocol)
    (hrows : ∀ c ∈ (h.localMap did).rows, ¬ mine c.ws) :
    Agree d mine (h.onHelloVerified now ws hello did (some device)).hub h := by
  have hdid : (helloConn now ws hello did device).did = did := rfl
  have hws : (helloConn now ws hello did device).ws = ws := rfl
  unfold onHelloVerified
  dsimp only
  generalize helloConn now ws hello did device = conn at *
  subst hdid hws
  have hrows' : ∀ c ∈ ((h.register conn).localMap conn.did).rows, ¬ mine c.ws := by
    intro c hc
    rw [register_localMap, if_pos rfl] at hc
    rcases (Table.mem_put _ _ _).1 hc with rfl | hc
    · exact hw
    · exact hrows c hc.1
  exact (greet_frame _ hd hw _).trans
    ((announce_frame _ hd hw hrows').trans (register_frame h hd hrows))

theorem helloVerified_ok (h : Hub protocol I) (now : ℕ) (ws : SockId) (hello : ℕ) (did : Did)
    (device : HelloDevice protocol) :
    h.onHelloVerified now ws hello did (some device) =
      .ok (h.onHelloVerified now ws hello did (some device)).hub := by
  unfold onHelloVerified
  dsimp only
  exact greet_ok _ _ _

end Atradio.Connect.Hub
