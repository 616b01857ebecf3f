import Atradio.Connect.Presence

/-! # Presence with devices on other instances

`lastAnyPlaying` follows the merged roster through every event. -/

namespace Atradio.Connect.Hub
open Atradio.Lib

variable {I : Type}

def Follows (h : Hub protocol I) : Prop := ∀ did, h.lastPlaying did = h.sees did

/-- Nothing is seen or remembered otherwise of an account. -/
def Still (h h' : Hub protocol I) (did : Did) : Prop :=
  h'.sees did = h.sees did ∧ h'.lastPlaying did = h.lastPlaying did

variable {h h' : Hub protocol I}

theorem Follows.still (hf : Follows h) (hs : ∀ did, Still h h' did) : Follows h' := fun did =>
  (hs did).2.trans ((hf did).trans (hs did).1.symm)

theorem SameView.still (a : SameView h h') (did : Did) : Still h h' did :=
  ⟨a.toSameRegs.sees did, a.lastPlaying did⟩

/-- A roster is made of what the registered devices say on the wire. -/
theorem roster_wires {did : Did}
    (hlocal : (h'.localMap did).rows.map (fun c => c.toWireDevice) =
      (h.localMap did).rows.map fun c => c.toWireDevice)
    (hremote : h'.remoteMap did = h.remoteMap did) : h'.roster did = h.roster did := by
  have hput (m : Table fun d : WireDevice protocol => d.deviceId) (cs : List (LocalConn protocol)) :
      cs.foldl (fun m c => m.put c.toWireDevice) m =
        (cs.map fun c => c.toWireDevice).foldl (fun m d => m.put d) m :=
    List.foldl_map.symm
  unfold roster
  dsimp only
  rw [hremote, hput, hput, hlocal]

theorem still_of_wires {did : Did}
    (hlocal : (h'.localMap did).rows.map (fun c => c.toWireDevice) =
      (h.localMap did).rows.map fun c => c.toWireDevice)
    (hremote : h'.remoteMap did = h.remoteMap did)
    (hlast : h'.lastPlaying did = h.lastPlaying did) : Still h h' did := by
  refine ⟨?_, hlast⟩
  unfold sees
  rw [roster_wires hlocal hremote]

theorem still_of_maps {did : Did} (hlocal : h'.localMap did = h.localMap did)
    (hremote : h'.remoteMap did = h.remoteMap did)
    (hlast : h'.lastPlaying did = h.lastPlaying did) : Still h h' did :=
  still_of_wires (by rw [hlocal]) hremote hlast

theorem setSock_still (h : Hub protocol I) (ws : SockId) (s : Sock protocol) (did : Did) :
    Still h (h.setSock ws s) did := ⟨rfl, rfl⟩

theorem close_still (h : Hub protocol I) (ws : SockId) (code : ℕ) (reason : String) (did : Did) :
    Still h (h.close ws code reason) did := by
  unfold close
  split <;> exact ⟨rfl, rfl⟩

theorem terminate_still (h : Hub protocol I) (ws : SockId) (did : Did) :
    Still h (h.terminate ws) did := by
  unfold terminate
  split <;> exact ⟨rfl, rfl⟩

theorem Still.trans {h'' : Hub protocol I} {did : Did} (a : Still h h' did) (b : Still h' h'' did) :
    Still h h'' did := ⟨b.1.trans a.1, b.2.trans a.2⟩

/-! ### After a change -/

/-- Presence is brought up to date for the account that has changed. -/
theorem broadcast_follows {did : Did} (hf : ∀ d, d ≠ did → h.lastPlaying d = h.sees d) :
    Follows ((h.broadcastRoster did).reconcilePresence did).hub := by
  have ht := broadcast_tells h did
  intro d
  rw [ht.last, ht.regs.sees]
  split
  · rename_i hd
    rw [hd]
  · exact hf d ‹_›

theorem Follows.but (hf : Follows h) {did : Did} (hs : ∀ d, d ≠ did → Still h h' d) :
    ∀ d, d ≠ did → h'.lastPlaying d = h'.sees d := fun d hd =>
  (hs d hd).2.trans ((hf d).trans (hs d hd).1.symm)

theorem storeClosure_still (h : Hub protocol I) (conn : LocalConn protocol) (did : Did) :
    Still h (h.storeClosure conn) did := by
  unfold storeClosure
  split
  · split <;> exact ⟨rfl, rfl⟩
  · exact ⟨rfl, rfl⟩

theorem setLocalMap_still (h : Hub protocol I) {did d : Did} (hd : d ≠ did) (m : LocalMap protocol) :
    Still h (h.setLocalMap did m) d := by
  refine still_of_maps ?_ rfl rfl
  rw [setLocalMap_localMap, if_neg hd]

theorem store_still (h : Hub protocol I) (conn : LocalConn protocol) {d : Did} (hd : d ≠ conn.did) :
    Still h (h.store conn) d := by
  refine (storeClosure_still h conn d).trans ?_
  unfold store storeRegistry
  split
  · split
    · exact setLocalMap_still _ hd _
    · exact ⟨rfl, rfl⟩
  · exact ⟨rfl, rfl⟩

theorem Follows.handleState (hf : Follows h) (conn : LocalConn protocol)
    (state : protocol.State) : Follows (h.handleState conn state).hub := by
  unfold Hub.handleState
  dsimp only
  refine broadcast_follows (hf.but fun d hd => ?_)
  exact (store_still h { conn with state := state } hd).trans ((publish_view _ _).still d)

theorem Follows.removeConn (hf : Follows h) (conn : LocalConn protocol) :
    Follows (h.removeConn conn).hub := by
  unfold Hub.removeConn
  split
  · exact hf
  · dsimp only
    refine broadcast_follows (hf.but fun d hd => ?_)
    have hdeleted : Still h (h.deleteLocal conn.did conn.deviceId) d := by
      refine still_of_maps ?_ ?_ ?_
      · rw [deleteLocal_localMap, if_neg hd]
      · unfold deleteLocal
        dsimp only
        split <;> rfl
      · unfold deleteLocal
        dsimp only
        split <;> rfl
    exact hdeleted.trans ((publish_view _ _).still d)

theorem Follows.greet {conn : LocalConn protocol} (hf : ∀ d, d ≠ conn.did → h.lastPlaying d = h.sees d)
    (wasEmpty : Bool) : Follows (h.greet conn wasEmpty).hub := by
  have hset : Follows ((h.setLastPlaying conn.did (h.sees conn.did)).send conn.ws
      (.presence (h.sees conn.did) false)) := by
    have hv := send_view (h.setLastPlaying conn.did (h.sees conn.did)) conn.ws
      (.presence (h.sees conn.did) false)
    intro d
    rw [hv.lastPlaying, hv.toSameRegs.sees, setLastPlaying_lastPlaying]
    split
    · rename_i hd
      rw [hd]
      rfl
    · exact hf d ‹_›
  unfold Hub.greet
  rw [anyPlaying_sees]
  dsimp only
  split
  · split
    · exact hset.still fun d => (send_view _ _ _).still d
    · exact hset
  · exact hset

theorem register_still (h : Hub protocol I) (conn : LocalConn protocol) {d : Did}
    (hd : d ≠ conn.did) : Still h (h.register conn) d := by
  have hmade := (makeLocalMap_view h conn.did).still d
  have hreplaced : Still (h.makeLocalMap conn.did) ((h.makeLocalMap conn.did).replacePrior conn) d := by
    unfold replacePrior
    split
    · split
      · exact ⟨rfl, rfl⟩
      · exact close_still _ _ _ _ d
    · exact ⟨rfl, rfl⟩
  exact (hmade.trans hreplaced).trans (setLocalMap_still _ hd _)

theorem Follows.onHelloVerified (hf : Follows h) (now : ℕ) (ws : SockId) (hello : ℕ) (did : Did)
    (device : Option (HelloDevice protocol)) :
    Follows (h.onHelloVerified now ws hello did device).hub := by
  unfold Hub.onHelloVerified
  cases device with
  | none => exact hf
  | some device =>
    refine Follows.greet (hf.but fun d hd => ?_) _
    exact (register_still h (helloConn now ws hello did device) hd).trans
      ((announce_view _ _).still d)

theorem Follows.uncaught {o : Outcome protocol I} (hf : Follows o.hub) : Follows o.uncaught := by
  cases o with
  | ok h => exact hf
  | error h => exact hf

theorem Follows.onVerified (hf : Follows h) (now : ℕ) (ws : SockId) (hello : ℕ) (did : Did) :
    Follows (h.onVerified now ws hello did).hub := by
  unfold Hub.onVerified
  cases ((h.socks ws).verifying.lookup hello) with
  | none => exact hf
  | some device =>
    have hverified : Follows ((h.awaited ws hello).onHelloVerified now ws hello did device).hub :=
      Follows.onHelloVerified (h := h.awaited ws hello) hf now ws hello did device
    dsimp only
    cases ho : (h.awaited ws hello).onHelloVerified now ws hello did device with
    | ok h' =>
      rw [ho] at hverified
      exact hverified
    | error h' =>
      rw [ho] at hverified
      exact hverified

/-! ### Liveness and relay -/

theorem putSame_wires {t : LocalMap protocol} {e c : LocalConn protocol} (he : e ∈ t.rows)
    (hc : c.toWireDevice = e.toWireDevice) :
    (t.put c).rows.map (fun c => c.toWireDevice) = t.rows.map fun c => c.toWireDevice := by
  obtain ⟨pre, post, hrows⟩ := List.append_of_mem he
  have hid : e.deviceId = c.deviceId := congrArg WireDevice.deviceId hc.symm
  rw [Table.rows_put_split hrows hid, hrows, List.map_append, List.map_append, List.map_cons,
    List.map_cons, hc]

theorem markAlive_still (h : Hub protocol I) (conn : LocalConn protocol) (did : Did) :
    Still h (h.markAlive conn) did := by
  unfold markAlive
  split
  · rename_i e he
    split
    · by_cases hd : did = conn.did
      · subst hd
        refine still_of_wires ?_ rfl rfl
        rw [setLocalMap_localMap, if_pos rfl]
        have hmem := ((h.localMap conn.did).get_eq_some _ _).1 he
        exact putSame_wires hmem.1 rfl
      · exact setLocalMap_still h hd _
    · exact ⟨rfl, rfl⟩
  · exact ⟨rfl, rfl⟩

theorem pingAll_still (h : Hub protocol I) (did : Did) : Still h h.pingAll did := by
  have hterminated (conns : List (LocalConn protocol)) (g : Hub protocol I) :
      Still g (g.terminateAll conns) did := by
    induction conns generalizing g with
    | nil => exact ⟨rfl, rfl⟩
    | cons c conns ih => exact (terminate_still g c.ws did).trans (ih _)
  refine (hterminated _ h).trans (still_of_wires ?_ rfl rfl)
  unfold pingAll
  rw [clearAlive_localMap, Table.mapRows, List.map_map]
  rfl

theorem Follows.pruneRemote (hf : Follows h) (now : ℕ) (did : Did) :
    (∃ h', h.pruneRemote now did = .ok h') ∧ Follows (h.pruneRemote now did).hub := by
  unfold Hub.pruneRemote
  cases hm : JsMap.find h.remoteReg did with
  | none => exact ⟨⟨h, rfl⟩, hf⟩
  | some m =>
    have hremote : h.remoteMap did = m := by
      unfold remoteMap
      rw [hm]
      rfl
    have hother (d : Did) (hd : d ≠ did) : Still h (h.dropStale now did m) d := by
      refine still_of_maps ((dropStale_local h now did m).localMap d) ?_
        ((dropStale_rest h now did m).2.2 d)
      rw [dropStale_remoteMap, if_neg hd]
    dsimp only
    split
    · rename_i hsize
      refine ⟨⟨_, rfl⟩, hf.still fun d => ?_⟩
      by_cases hd : d = did
      · subst hd
        -- a filter that keeps the size keeps the rows
        have hrows : (fresh now m).rows = m.rows :=
          List.Sublist.eq_of_length List.filter_sublist hsize
        refine still_of_maps ((dropStale_local h now d m).localMap d) ?_
          ((dropStale_rest h now d m).2.2 d)
        rw [Outcome.hub_ok, dropStale_remoteMap, if_pos rfl, hremote]
        exact Table.ext hrows
      · exact hother d hd
    · exact ⟨(broadcast_tells _ did).ok, broadcast_follows (hf.but hother)⟩

theorem Follows.sweepRemote (hf : Follows h) (now fuel pos : ℕ) :
    Follows (sweepRemote now fuel pos h).hub := by
  induction fuel generalizing pos h with
  | zero => exact hf
  | succ fuel ih =>
    unfold Hub.sweepRemote
    cases h.remoteReg.rows[pos]? with
    | none => exact hf
    | some e =>
      obtain ⟨⟨h', ho⟩, hpruned⟩ := hf.pruneRemote now e.1
      dsimp only
      rw [ho] at hpruned ⊢
      exact ih hpruned _

theorem Follows.onTick (hf : Follows h) (now : ℕ) : Follows (h.onTick now).hub := by
  unfold Hub.onTick heartbeatRemotePresence
  refine Follows.sweepRemote ?_ _ _ _
  exact hf.still fun d => (pingAll_still h d).trans ((publishAll_view _ _).still d)

section Relay

variable [DecidableEq I]

theorem Follows.onRelay (hf : Follows h) (now : ℕ) (msg : RelayMsg protocol I) :
    Follows (h.onRelay now msg).hub := by
  have hset (did : Did) (m : RemoteMap protocol I) :
      Follows (((h.setRemoteMap did m).broadcastRoster did).reconcilePresence did).hub := by
    refine broadcast_follows (hf.but fun d hd => still_of_maps rfl ?_ rfl)
    rw [setRemoteMap_remoteMap, if_neg hd]
  cases msg with
  | command inst did target src cmd =>
    simp only [Hub.onRelay]
    split
    · exact hf
    · exact hf.still ((deliverCommand_view h did target src cmd).still)
  | leave inst did deviceId =>
    simp only [Hub.onRelay]
    split
    · exact hf
    · split
      · exact hf
      · split
        · exact hf
        · exact hset did _
  | join inst d | update inst d =>
    simp only [Hub.onRelay]
    split
    · exact hf
    · exact hset d.did _

omit [DecidableEq I] in
theorem Follows.message (hf : Follows h) (ws : SockId) (msg : Frame protocol) :
    Follows (h.onMessage ws msg).hub := by
  unfold onMessage
  cases (h.socks ws).conn with
  | none =>
    cases msg with
    | hello device => exact hf.still fun d => setSock_still _ _ _ d
    | state | command | bye | other => exact hf
  | some conn =>
    cases msg with
    | state state => exact hf.handleState conn state
    | command target cmd => exact hf.still ((handleCommand_view h conn target cmd).still)
    | bye => exact hf.still fun d => close_still _ _ _ _ d
    | hello | other => exact hf

theorem Follows.handle (hf : Follows h) (i : Input protocol I) : Follows (h.handle i) := by
  obtain ⟨now, event⟩ := i
  cases event with
  | frame ws msg =>
    simp only [Hub.handle]
    split
    · exact hf
    · exact (hf.message ws msg).uncaught
  | verified ws hello did => exact (hf.onVerified now ws hello did).uncaught
  | rejected ws hello message =>
    simp only [Hub.handle, onRejected]
    split
    · exact hf
    · refine hf.still fun d => ?_
      have hsent := (send_view (h.awaited ws hello) ws (.error "AuthFailed" message)).still d
      exact hsent.trans (close_still _ _ _ _ d)
  | helloTimeout ws =>
    simp only [Hub.handle, onHelloTimeout]
    split
    · split
      · exact hf.still fun d => close_still _ _ _ _ d
      · exact hf
    · exact hf
  | pong ws =>
    simp only [Hub.handle, onPong]
    split
    · exact hf
    · exact hf.still fun d => markAlive_still h _ d
  | closing ws => exact hf.still fun d => terminate_still h ws d
  | close ws =>
    simp only [Hub.handle]
    split
    · exact hf
    · refine Follows.uncaught ?_
      unfold onClose
      dsimp only
      split
      · exact hf
      · exact Follows.removeConn (h := h.setSock ws _) hf _
  | tick => exact (hf.onTick now).uncaught
  | relay msg => exact hf.onRelay now msg

theorem Follows.step (hf : Follows h) (i : Input protocol I) : Follows (h.step i) := by
  unfold Hub.step
  split
  · exact hf
  · exact Follows.handle (h := { h with out := [] }) hf i

/-- The remembered presence is what the merged roster says, in every reachable state. -/
theorem follows_run (id : I) (redis : Bool) (es : List (Input protocol I)) :
    Follows (run step (init id redis) es) :=
  run_kept (I := Follows) (fun _ i hf => hf.step i) (fun _ => rfl) es

end Relay

end Atradio.Connect.Hub
