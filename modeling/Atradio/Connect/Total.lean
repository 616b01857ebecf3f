import Atradio.Connect.Registry

/-! # When no handler throws

The hub reads `state.playing` of every device of an account and compares device ids. If
these operations are defined on every device it was ever handed (`Total` on the devices
that satisfy `Ok`, and `Sound` states hold no others), no handler throws. -/

namespace Atradio.Connect
open Atradio.Lib

variable {P : Payload} {I : Type}

/-- Reading `playing` and comparing ids is defined on the devices in `Ok`. -/
structure Total (Ok : WireDevice P → Prop) : Prop where
  playing : ∀ d, Ok d → (P.playing d.state).isSome
  less : ∀ a b, Ok a → Ok b → (P.less a.deviceId b.deviceId).isSome

theorem somePlaying_isSome {Ok : WireDevice P → Prop} (ht : Total Ok) (ds : List (WireDevice P))
    (hds : ∀ d ∈ ds, Ok d) : (somePlaying ds).isSome := by
  induction ds with
  | nil => rfl
  | cons d ds ih =>
    obtain ⟨b, hb⟩ := Option.isSome_iff_exists.1 (ht.playing d (hds d (List.mem_cons_self ..)))
    have htail := ih fun e he => hds e (List.mem_cons_of_mem _ he)
    cases b with
    | true => simp [somePlaying, hb]
    | false => simpa [somePlaying, hb] using htail

theorem lowest_mem (a : WireDevice P) (ds : List (WireDevice P)) {d : WireDevice P}
    (h : lowest a ds = some d) : d ∈ a :: ds := by
  induction ds generalizing a with
  | nil =>
    obtain rfl := Option.some.inj h
    exact List.mem_cons_self ..
  | cons b ds ih =>
    unfold lowest at h
    split at h
    · cases h
    · rcases List.mem_cons.1 (ih a h) with hd | hd
      · exact hd ▸ List.mem_cons_self ..
      · exact List.mem_cons_of_mem _ (List.mem_cons_of_mem _ hd)
    · exact List.mem_cons_of_mem _ (ih b h)

theorem lowest_isSome {Ok : WireDevice P → Prop} (ht : Total Ok) (a : WireDevice P)
    (ds : List (WireDevice P)) (ha : Ok a) (hds : ∀ d ∈ ds, Ok d) : (lowest a ds).isSome := by
  induction ds generalizing a with
  | nil => rfl
  | cons b ds ih =>
    have hb := hds b (List.mem_cons_self ..)
    have htail : ∀ d ∈ ds, Ok d := fun d hd => hds d (List.mem_cons_of_mem _ hd)
    obtain ⟨r, hr⟩ := Option.isSome_iff_exists.1 (ht.less a b ha hb)
    unfold lowest
    rw [hr]
    cases r with
    | true => exact ih a ha htail
    | false => exact ih b hb htail

namespace Hub

/-! ### The roster -/

theorem mem_roster {h : Hub P I} {did : Did} {d : WireDevice P} (hd : d ∈ h.roster did) :
    (∃ c ∈ (h.localMap did).rows, d = c.toWireDevice) ∨
      ∃ r ∈ (h.remoteMap did).rows, d = r.toWireDevice := by
  unfold roster at hd
  rw [List.mem_insertionSort] at hd
  rcases Table.mem_foldl_put (fun c : LocalConn P => c.toWireDevice) _ _ hd with h' | h'
  · rcases Table.mem_foldl_put (fun r : RemoteDevice P I => r.toWireDevice) _ _ h' with h'' | h''
    · exact (List.not_mem_nil h'').elim
    · exact Or.inr h''
  · exact Or.inl h'

structure Sound (Ok : WireDevice P → Prop) (h : Hub P I) : Prop where
  conns : ∀ ws c, (h.socks ws).conn = some c → Ok c.toWireDevice
  locals : ∀ did c, c ∈ (h.localMap did).rows → Ok c.toWireDevice
  remotes : ∀ did d, d ∈ (h.remoteMap did).rows → Ok d.toWireDevice

variable {Ok : WireDevice P → Prop}

theorem Sound.roster {h : Hub P I} (hs : Sound Ok h) (did : Did) : ∀ d ∈ h.roster did, Ok d := by
  intro d hd
  rcases mem_roster hd with ⟨c, hc, rfl⟩ | ⟨r, hr, rfl⟩
  · exact hs.locals did c hc
  · exact hs.remotes did r hr

theorem SameRegs.sound {h h' : Hub P I} (a : SameRegs h h') (hs : Sound Ok h) : Sound Ok h' := by
  refine ⟨?_, fun did c hc => ?_, fun did d hd => ?_⟩
  · rw [a.socks]
    exact hs.conns
  · rw [a.localMap] at hc
    exact hs.locals did c hc
  · rw [a.remoteMap] at hd
    exact hs.remotes did d hd

theorem Sound.anyPlaying {h : Hub P I} (hs : Sound Ok h) (ht : Total Ok) (did : Did) :
    ∃ now, h.anyPlaying did = some now :=
  Option.isSome_iff_exists.1 (somePlaying_isSome ht _ (hs.roster did))

theorem Sound.cleanupOwner {h : Hub P I} (hs : Sound Ok h) (ht : Total Ok) (did : Did) :
    ∃ owner, h.cleanupOwner did = some owner := by
  have hr := hs.roster did
  unfold Hub.cleanupOwner
  cases hros : h.roster did with
  | nil => exact ⟨none, rfl⟩
  | cons d ds =>
    rw [hros] at hr
    obtain ⟨o, ho⟩ := Option.isSome_iff_exists.1 (lowest_isSome ht d ds
      (hr d (List.mem_cons_self ..)) fun e he => hr e (List.mem_cons_of_mem _ he))
    exact ⟨(h.localMap did).get o.deviceId, by simp [ho]⟩

/-! ### Handlers return -/

theorem Sound.reconcile {h : Hub P I} (hs : Sound Ok h) (ht : Total Ok) (did : Did) :
    ∃ h', h.reconcilePresence did = .ok h' := by
  have hm : Sound Ok (h.makeMaps did) := (makeMaps_view h did).toSameRegs.sound hs
  obtain ⟨now, hnow⟩ := hm.anyPlaying ht did
  have hl : Sound Ok ((h.makeMaps did).setLastPlaying did now) :=
    (setLastPlaying_regs _ did now).sound hm
  obtain ⟨owner, howner⟩ := hl.cleanupOwner ht did
  unfold reconcilePresence
  dsimp only
  rw [hnow]
  dsimp only
  rw [howner]
  split
  · cases owner <;> exact ⟨_, rfl⟩
  · exact ⟨_, rfl⟩

theorem Sound.broadcast_reconcile {h : Hub P I} (hs : Sound Ok h) (ht : Total Ok) (did : Did) :
    ∃ h', (h.broadcastRoster did).reconcilePresence did = .ok h' :=
  ((broadcastRoster_view h did).toSameRegs.sound hs).reconcile ht did

theorem Sound.greet {h : Hub P I} (hs : Sound Ok h) (ht : Total Ok) (conn : LocalConn P)
    (hc : Ok conn.toWireDevice) (wasEmpty : Bool) : ∃ h', h.greet conn wasEmpty = .ok h' := by
  obtain ⟨now, hnow⟩ := hs.anyPlaying ht conn.did
  obtain ⟨own, hown⟩ := Option.isSome_iff_exists.1 (ht.playing _ hc)
  unfold Hub.greet
  rw [hnow]
  dsimp only
  rw [hown]
  split <;> exact ⟨_, rfl⟩

/-! ### Sound states stay sound -/

theorem Sound.setSock {h : Hub P I} (hs : Sound Ok h) (ws : SockId) {s : Sock P}
    (hconn : ∀ c, s.conn = some c → Ok c.toWireDevice) : Sound Ok (h.setSock ws s) := by
  refine ⟨fun ws' c hc => ?_, hs.locals, hs.remotes⟩
  by_cases hw : ws' = ws
  · subst hw
    rw [setSock_same] at hc
    exact hconn c hc
  · rw [setSock_ne h s hw] at hc
    exact hs.conns ws' c hc

theorem Sound.keepSock {h : Hub P I} (hs : Sound Ok h) (ws : SockId) {s : Sock P}
    (hconn : s.conn = (h.socks ws).conn) : Sound Ok (h.setSock ws s) :=
  hs.setSock ws fun c hc => hs.conns ws c (hconn ▸ hc)

theorem Sound.close {h : Hub P I} (hs : Sound Ok h) (ws : SockId) (code : ℕ) (reason : String) :
    Sound Ok (h.close ws code reason) := by
  unfold Hub.close
  split
  · exact (effect_view _ _).toSameRegs.sound (hs.keepSock ws rfl)
  · exact hs

theorem Sound.setLocalMap {h : Hub P I} (hs : Sound Ok h) (did : Did) {m : LocalMap P}
    (hm : ∀ c ∈ m.rows, Ok c.toWireDevice) : Sound Ok (h.setLocalMap did m) := by
  refine ⟨hs.conns, fun d c hc => ?_, hs.remotes⟩
  rw [setLocalMap_localMap] at hc
  split at hc
  · exact hm c hc
  · exact hs.locals d c hc

theorem Sound.putLocal {h : Hub P I} (hs : Sound Ok h) (did : Did) (conn : LocalConn P)
    (hc : Ok conn.toWireDevice) :
    Sound Ok (h.setLocalMap did ((h.localMap did).put conn)) := by
  refine hs.setLocalMap did fun c hmem => ?_
  rcases (Table.mem_put _ _ _).1 hmem with rfl | hmem
  · exact hc
  · exact hs.locals did c hmem.1

theorem Sound.store {h : Hub P I} (hs : Sound Ok h) (conn : LocalConn P)
    (hc : Ok conn.toWireDevice) : Sound Ok (h.store conn) := by
  have h1 : Sound Ok (h.storeClosure conn) := by
    unfold storeClosure
    split
    · split
      · refine hs.setSock _ fun c hcc => ?_
        obtain rfl := Option.some.inj hcc
        exact hc
      · exact hs
    · exact hs
  unfold Hub.store storeRegistry
  split
  · split
    · exact h1.putLocal _ _ hc
    · exact h1
  · exact h1

theorem Sound.markAlive {h : Hub P I} (hs : Sound Ok h) (conn : LocalConn P) :
    Sound Ok (h.markAlive conn) := by
  unfold Hub.markAlive
  split
  · rename_i c hc
    split
    · exact hs.putLocal _ _ (hs.locals _ c ((Table.get_eq_some _ _ _).1 hc).1)
    · exact hs
  · exact hs

theorem Sound.deleteLocal {h : Hub P I} (hs : Sound Ok h) (did : Did) (id : P.Id) :
    Sound Ok (h.deleteLocal did id) := by
  obtain ⟨hsocks, hremote, _⟩ := deleteLocal_rest h did id
  refine ⟨?_, fun d c hc => ?_, fun d r hr => ?_⟩
  · rw [hsocks]
    exact hs.conns
  · rw [deleteLocal_localMap] at hc
    split at hc
    · exact hs.locals did c ((Table.mem_delete _ _ _).1 hc).1
    · exact hs.locals d c hc
  · rw [hremote] at hr
    exact hs.remotes d r hr

theorem Sound.setRemoteMap {h : Hub P I} (hs : Sound Ok h) (did : Did) {m : RemoteMap P I}
    (hm : ∀ d ∈ m.rows, Ok d.toWireDevice) : Sound Ok (h.setRemoteMap did m) := by
  refine ⟨hs.conns, hs.locals, fun d r hr => ?_⟩
  rw [setRemoteMap_remoteMap] at hr
  split at hr
  · exact hm r hr
  · exact hs.remotes d r hr

theorem Sound.register {h : Hub P I} (hs : Sound Ok h) (conn : LocalConn P)
    (hc : Ok conn.toWireDevice) : Sound Ok (h.register conn) := by
  have h1 : Sound Ok (h.makeLocalMap conn.did) := (makeLocalMap_view h _).toSameRegs.sound hs
  have h2 : Sound Ok ((h.makeLocalMap conn.did).replacePrior conn) := by
    unfold replacePrior
    split
    · split
      · exact h1
      · exact h1.close _ _ _
    · exact h1
  exact h2.putLocal conn.did conn hc

theorem Sound.terminateAll {h : Hub P I} (hs : Sound Ok h) (conns : List (LocalConn P)) :
    Sound Ok (h.terminateAll conns) := by
  induction conns generalizing h with
  | nil => exact hs
  | cons c conns ih =>
    have h1 : Sound Ok (h.terminate c.ws) := by
      unfold terminate
      split
      · exact hs.keepSock c.ws rfl
      · exact hs
    exact ih h1

theorem Sound.clearAlive {h : Hub P I} (hs : Sound Ok h) : Sound Ok h.clearAlive := by
  refine ⟨hs.conns, fun did c hc => ?_, hs.remotes⟩
  rw [clearAlive_localMap] at hc
  obtain ⟨c0, hc0, rfl⟩ := List.mem_map.1 hc
  exact hs.locals did c0 hc0

/-! ### Events -/

/-- The call returns, in a sound state of the running process. -/
def Returns (Ok : WireDevice P → Prop) (h : Hub P I) (o : Outcome P I) : Prop :=
  ∃ h', o = .ok h' ∧ Sound Ok h' ∧ h'.crashed = h.crashed

theorem Sound.returns {h h' : Hub P I} {o : Outcome P I} (hs : Sound Ok h) (ho : o = .ok h')
    (hr : SameRegs h o.hub) : Returns Ok h o := by
  rw [ho, Outcome.hub_ok] at hr
  exact ⟨h', ho, hr.sound hs, hr.crashed⟩

theorem Sound.broadcast_returns {h : Hub P I} (hs : Sound Ok h) (ht : Total Ok) (did : Did) :
    Returns Ok h ((h.broadcastRoster did).reconcilePresence did) := by
  obtain ⟨h', ho⟩ := hs.broadcast_reconcile ht did
  exact hs.returns ho (broadcast_reconcile_regs h did)

theorem Sound.state_returns {h : Hub P I} (hs : Sound Ok h) (ht : Total Ok) (conn : LocalConn P)
    (state : P.State) (hc : Ok { conn.toWireDevice with state := state }) :
    Returns Ok (h.store { conn with state := state }) (h.handleState conn state) := by
  have h1 : Sound Ok (h.store { conn with state := state }) := hs.store _ hc
  unfold handleState
  dsimp only
  generalize h.store { conn with state := state } = g at h1 ⊢
  have hp := publish_view g (.update g.instanceId { conn with state := state }.toWireDevice)
  obtain ⟨h', ho, hs', hcr⟩ := (hp.toSameRegs.sound h1).broadcast_returns ht conn.did
  exact ⟨h', ho, hs', hcr.trans hp.crashed⟩

theorem Sound.remove_returns {h : Hub P I} (hs : Sound Ok h) (ht : Total Ok)
    (conn : LocalConn P) : Returns Ok h (h.removeConn conn) := by
  unfold removeConn
  split
  · exact ⟨h, rfl, hs, rfl⟩
  · have h1 := hs.deleteLocal conn.did conn.deviceId
    have hc1 := (deleteLocal_proc h conn.did conn.deviceId).crashed
    dsimp only
    generalize h.deleteLocal conn.did conn.deviceId = g at h1 hc1 ⊢
    have hp := publish_view g (.leave g.instanceId conn.did conn.deviceId)
    obtain ⟨h', ho, hs', hcr⟩ := (hp.toSameRegs.sound h1).broadcast_returns ht conn.did
    exact ⟨h', ho, hs', hcr.trans (hp.crashed.trans hc1)⟩

theorem Sound.hello_returns {h : Hub P I} (hs : Sound Ok h) (ht : Total Ok) (now : ℕ)
    (ws : SockId) (hello : ℕ) (did : Did) (device : HelloDevice P)
    (hc : Ok (helloConn now ws hello did device).toWireDevice) :
    Returns Ok (h.register (helloConn now ws hello did device))
      (h.onHelloVerified now ws hello did (some device)) := by
  have h1 := hs.register (helloConn now ws hello did device) hc
  have hr := onHelloVerified_regs h now ws hello did device
  have ha := (announce_view (h.register (helloConn now ws hello did device))
    (helloConn now ws hello did device)).toSameRegs.sound h1
  obtain ⟨h', ho⟩ := ha.greet ht (helloConn now ws hello did device) hc
    (decide (((h.register (helloConn now ws hello did device)).roster did).length = 1))
  exact h1.returns ho hr

theorem Sound.prune_returns {h : Hub P I} (hs : Sound Ok h) (ht : Total Ok) (now : ℕ)
    (did : Did) : Returns Ok h (h.pruneRemote now did) := by
  unfold pruneRemote
  cases hf : JsMap.find h.remoteReg did with
  | none => exact ⟨h, rfl, hs, rfl⟩
  | some m =>
    have hm : h.remoteMap did = m := by simp [remoteMap, hf]
    have h1 : Sound Ok (h.dropStale now did m) := by
      have hl := dropStale_local h now did m
      refine ⟨?_, fun d c hc => ?_, fun d r hr => ?_⟩
      · rw [hl.socks]
        exact hs.conns
      · rw [hl.localMap] at hc
        exact hs.locals d c hc
      · rw [dropStale_remoteMap] at hr
        split at hr
        · exact hs.remotes did r (hm ▸ (Table.mem_filter _ _ _).1 hr |>.1)
        · exact hs.remotes d r hr
    have hc1 := (dropStale_rest h now did m).1
    dsimp only
    split
    · exact ⟨_, rfl, h1, hc1⟩
    · obtain ⟨h', ho, hs', hcr⟩ := h1.broadcast_returns ht did
      exact ⟨h', ho, hs', hcr.trans hc1⟩

theorem Sound.sweep_returns {h : Hub P I} (hs : Sound Ok h) (ht : Total Ok) (now fuel pos : ℕ) :
    Returns Ok h (sweepRemote now fuel pos h) := by
  induction fuel generalizing pos h with
  | zero => exact ⟨h, rfl, hs, rfl⟩
  | succ fuel ih =>
    unfold sweepRemote
    cases h.remoteReg.rows[pos]? with
    | none => exact ⟨h, rfl, hs, rfl⟩
    | some e =>
      obtain ⟨h1, ho1, hs1, hc1⟩ := hs.prune_returns ht now e.1
      dsimp only
      rw [ho1]
      obtain ⟨h', ho, hs', hcr⟩ := ih hs1 (if (fresh now e.2).size = 0 then pos else pos + 1)
      exact ⟨h', ho, hs', hcr.trans hc1⟩

theorem Sound.tick_returns {h : Hub P I} (hs : Sound Ok h) (ht : Total Ok) (now : ℕ) :
    Returns Ok h (h.onTick now) := by
  have h1 : Sound Ok h.pingAll := (hs.terminateAll _).clearAlive
  have hcr : h.pingAll.crashed = h.crashed := (terminateAll_proc h _).crashed
  unfold onTick heartbeatRemotePresence
  generalize h.pingAll = g at h1 hcr ⊢
  dsimp only
  have hp := publishAll_view g (g.localReg.rows.flatMap fun e => e.2.rows)
  obtain ⟨h', ho, hs', hc'⟩ := (hp.toSameRegs.sound h1).sweep_returns ht now _ 0
  exact ⟨h', ho, hs', hc'.trans (hp.crashed.trans hcr)⟩

/-- The devices an event hands to the hub satisfy `Ok`. -/
def SoundInput (Ok : WireDevice P → Prop) (h : Hub P I) (i : Input P I) : Prop :=
  match i.event with
  | .frame ws (.state state) =>
    ∀ conn, (h.socks ws).conn = some conn → Ok { conn.toWireDevice with state := state }
  | .verified ws hello did =>
    ∀ device, (h.socks ws).verifying.lookup hello = some device →
      ∃ d, device = some d ∧ Ok (helloConn i.now ws hello did d).toWireDevice
  | .relay (.join _ d) | .relay (.update _ d) => Ok d
  | _ => True

theorem Sound.message_returns {h : Hub P I} (hs : Sound Ok h) (ht : Total Ok) (ws : SockId)
    (msg : Frame P)
    (hin : ∀ state, msg = .state state → ∀ conn, (h.socks ws).conn = some conn →
      Ok { conn.toWireDevice with state := state }) : Returns Ok h (h.onMessage ws msg) := by
  unfold onMessage
  cases hconn : (h.socks ws).conn with
  | none =>
    cases msg with
    | hello device => exact ⟨_, rfl, hs.keepSock ws rfl, rfl⟩
    | _ => exact ⟨h, rfl, hs, rfl⟩
  | some conn =>
    cases msg with
    | state state =>
      obtain ⟨h', ho, hs', hcr⟩ := hs.state_returns ht conn state (hin state rfl conn hconn)
      refine ⟨h', ho, hs', hcr.trans ?_⟩
      exact (store_proc h { conn with state := state }).crashed
    | command target cmd =>
      have hv := handleCommand_view h conn target cmd
      exact ⟨_, rfl, hv.toSameRegs.sound hs, hv.crashed⟩
    | bye => exact ⟨_, rfl, hs.close ws 1000 "bye", (close_proc h ws 1000 "bye").crashed⟩
    | _ => exact ⟨h, rfl, hs, rfl⟩

theorem Sound.verified_returns {h : Hub P I} (hs : Sound Ok h) (ht : Total Ok) (now : ℕ)
    (ws : SockId) (hello : ℕ) (did : Did)
    (hin : ∀ device, (h.socks ws).verifying.lookup hello = some device →
      ∃ d, device = some d ∧ Ok (helloConn now ws hello did d).toWireDevice) :
    Returns Ok h (h.onVerified now ws hello did) := by
  unfold onVerified
  cases hv : (h.socks ws).verifying.lookup hello with
  | none => exact ⟨h, rfl, hs, rfl⟩
  | some device =>
    obtain ⟨d, rfl, hd⟩ := hin device hv
    have ha : Sound Ok (h.awaited ws hello) := hs.keepSock ws rfl
    obtain ⟨h', ho, hs', hcr⟩ := ha.hello_returns ht now ws hello did d hd
    dsimp only
    rw [ho]
    refine ⟨_, rfl, ?_, hcr.trans (register_proc _ _).crashed⟩
    refine hs'.setSock ws fun c hc => ?_
    obtain rfl := Option.some.inj hc
    exact hd

theorem Sound.relay_returns [DecidableEq I] {h : Hub P I} (hs : Sound Ok h) (ht : Total Ok)
    (now : ℕ) (msg : RelayMsg P I)
    (hin : ∀ inst d, msg = .join inst d ∨ msg = .update inst d → Ok d) :
    Returns Ok h (h.onRelay now msg) := by
  have hput : ∀ (did : Did) (m : RemoteMap P I), (∀ d ∈ m.rows, Ok d.toWireDevice) →
      Returns Ok h (((h.setRemoteMap did m).broadcastRoster did).reconcilePresence did) := by
    intro did m hm
    obtain ⟨h', ho, hs', hcr⟩ := (hs.setRemoteMap did hm).broadcast_returns ht did
    exact ⟨h', ho, hs', hcr⟩
  cases msg with
  | command inst did target src cmd =>
    simp only [onRelay]
    split
    · exact ⟨h, rfl, hs, rfl⟩
    · have hv := deliverCommand_view h did target src cmd
      exact ⟨_, rfl, hv.toSameRegs.sound hs, hv.crashed⟩
  | leave inst did deviceId =>
    simp only [onRelay]
    split
    · exact ⟨h, rfl, hs, rfl⟩
    · split
      · exact ⟨h, rfl, hs, rfl⟩
      · rename_i m hm
        split
        · exact ⟨h, rfl, hs, rfl⟩
        · refine hput did _ fun d hd => hs.remotes did d ?_
          have hrm : h.remoteMap did = m := by simp [remoteMap, hm]
          rw [hrm]
          exact ((Table.mem_delete _ _ _).1 hd).1
  | join inst d | update inst d =>
    simp only [onRelay]
    split
    · exact ⟨h, rfl, hs, rfl⟩
    · refine hput d.did _ fun r hr => ?_
      rcases (Table.mem_put _ _ _).1 hr with rfl | hr
      · exact hin inst d (by simp)
      · exact hs.remotes d.did r hr.1

theorem Sound.handle [DecidableEq I] {h : Hub P I} (hs : Sound Ok h) (ht : Total Ok)
    (i : Input P I) (hin : SoundInput Ok h i) :
    Sound Ok (handle h i) ∧ (handle h i).crashed = h.crashed := by
  have hret : ∀ o : Outcome P I, Returns Ok h o →
      Sound Ok o.uncaught ∧ o.uncaught.crashed = h.crashed := by
    rintro o ⟨h', rfl, hs', hcr⟩
    exact ⟨hs', hcr⟩
  obtain ⟨now, event⟩ := i
  cases event with
  | frame ws msg =>
    simp only [Hub.handle]
    split
    · exact ⟨hs, rfl⟩
    · refine hret _ (hs.message_returns ht ws msg ?_)
      rintro state rfl
      exact hin
  | verified ws hello did => exact hret _ (hs.verified_returns ht now ws hello did hin)
  | rejected ws hello message =>
    simp only [Hub.handle, onRejected]
    split
    · exact ⟨hs, rfl⟩
    · have ha : Sound Ok (h.awaited ws hello) := hs.keepSock ws rfl
      have hv := send_view (h.awaited ws hello) ws (.error "AuthFailed" message)
      have hr := (hv.toSameRegs.sound ha).close ws 4001 "auth failed"
      refine ⟨hr.setSock ws fun c hc => ?_,
        (close_proc _ ws 4001 "auth failed").crashed.trans hv.crashed⟩
      cases hc
  | helloTimeout ws =>
    simp only [Hub.handle, onHelloTimeout]
    split
    · have hk : Sound Ok (h.setSock ws { h.socks ws with helloTimer := false }) :=
        hs.keepSock ws rfl
      split
      · exact ⟨hk.close ws 4008 "hello timeout", (close_proc _ ws 4008 "hello timeout").crashed⟩
      · exact ⟨hk, rfl⟩
    · exact ⟨hs, rfl⟩
  | pong ws =>
    simp only [Hub.handle, onPong]
    split
    · exact ⟨hs, rfl⟩
    · exact ⟨hs.markAlive _, (markAlive_proc h _).crashed⟩
  | closing ws =>
    simp only [Hub.handle, terminate]
    split
    · exact ⟨hs.keepSock ws rfl, rfl⟩
    · exact ⟨hs, rfl⟩
  | close ws =>
    simp only [Hub.handle]
    split
    · exact ⟨hs, rfl⟩
    · refine hret _ ?_
      unfold onClose
      dsimp only
      have hk : Sound Ok (h.setSock ws
          { h.socks ws with readyState := .closed, helloTimer := false }) := hs.keepSock ws rfl
      split
      · exact ⟨_, rfl, hk, rfl⟩
      · exact hk.remove_returns ht _
  | tick => exact hret _ (hs.tick_returns ht now)
  | relay msg =>
    have hm : ∀ inst d, msg = .join inst d ∨ msg = .update inst d → Ok d := by
      rintro inst d (rfl | rfl) <;> exact hin
    obtain ⟨h', ho, hs', hcr⟩ := hs.relay_returns ht now msg hm
    simp only [Hub.handle]
    rw [ho]
    exact ⟨hs', hcr⟩

theorem sound_init (id : I) (redis : Bool) :
    Sound Ok ({ instanceId := id, redis := redis } : Hub P I) := by
  refine ⟨fun ws c hc => ?_, fun did c hc => ?_, fun did d hd => ?_⟩
  · cases hc
  · cases hc
  · cases hd

/-- With the declared types nothing throws. -/
theorem total_protocol : Total fun _ : WireDevice protocol => True :=
  ⟨fun _ _ => rfl, fun _ _ _ _ => rfl⟩

theorem sound_protocol (h : Hub protocol I) : Sound (fun _ => True) h :=
  ⟨fun _ _ _ => trivial, fun _ _ _ => trivial, fun _ _ _ => trivial⟩

theorem Sound.step [DecidableEq I] {h : Hub P I} (hs : Sound Ok h ∧ h.crashed = false)
    (ht : Total Ok) (i : Input P I) (hin : SoundInput Ok h i) :
    Sound Ok (step h i) ∧ (step h i).crashed = false := by
  obtain ⟨hs, hcr⟩ := hs
  have h0 : Sound Ok ({ h with out := [] } : Hub P I) := ⟨hs.conns, hs.locals, hs.remotes⟩
  unfold Hub.step
  rw [if_neg (by simp [hcr])]
  exact ⟨(h0.handle ht i hin).1, (h0.handle ht i hin).2.trans hcr⟩

end Hub

end Atradio.Connect
