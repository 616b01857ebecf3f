import Atradio.Connect.Conns
import Atradio.Connect.Merged
import Atradio.Connect.Network

/-! # Whose duty the cleanup is

Several instances serve the devices of one account. They know the same devices, each with
the states it has been told, so they name the same owner of the cleanup, and only the
instance the owner is connected to can send it the frame. -/

namespace Atradio.Connect
open Atradio.Lib

variable {I : Type}

namespace Hub

/-- The socket of a device of the account. -/
def seat (h : Hub protocol I) (did : Did) (id : String) : Option SockId :=
  ((h.localMap did).get id).map fun c => c.ws

def told (h : Hub protocol I) (k : Did × String) : Option (WireDevice protocol) :=
  (h.remotes k).map fun d => d.toWireDevice

def entry (h : Hub protocol I) (k : Did × String) : Option (WireDevice protocol) :=
  (h.devices k).or (h.told k)

/-- A step of an instance that hears `heard`, as far as the devices of the account go: they stay
where they are, the messages published tell what has changed, and the cleanup is asked for
when the last device seen playing has stopped. -/
structure Notes (h h' : Hub protocol I) (did : Did)
    (heard : List (Change (Did × String) (WireDevice protocol))) : Prop where
  running : h'.crashed = false
  seats : ∀ id, h'.seat did id = h.seat did id
  ready : ∀ ws, (h'.socks ws).readyState = (h.socks ws).readyState
  devices : h'.devices = Change.applyAll h.devices (changes (published h'.out))
  updates : ∀ msg ∈ published h'.out, ∃ d, msg = .update h.instanceId d ∧ d.did = did ∧
    (h.seat did d.deviceId).isSome
  told : h'.told = Change.applyAll h.told heard
  cleanups : Hub.cleanups h'.out = if h.sees did && !h'.sees did then h'.addressee did else []

/-! ### The process -/

section Process

variable {P : Payload}

theorem uncaught_process (o : Outcome P I) :
    o.uncaught.instanceId = o.hub.instanceId ∧ o.uncaught.redis = o.hub.redis := by
  cases o with
  | ok h => exact ⟨rfl, rfl⟩
  | error h => exact ⟨rfl, rfl⟩

theorem state_process (h : Hub P I) (conn : LocalConn P) (state : P.State) :
    (h.handleState conn state).hub.instanceId = h.instanceId ∧
      (h.handleState conn state).hub.redis = h.redis := by
  have hstore := store_proc h { conn with state := state }
  have hregs := handleState_regs h conn state
  exact ⟨hregs.instanceId.trans hstore.instanceId, hregs.redis.trans hstore.redis⟩

theorem message_process (h : Hub P I) (ws : SockId) (state : P.State) :
    (h.onMessage ws (.state state)).hub.instanceId = h.instanceId ∧
      (h.onMessage ws (.state state)).hub.redis = h.redis := by
  unfold onMessage
  cases (h.socks ws).conn with
  | none => exact ⟨rfl, rfl⟩
  | some conn => exact state_process h conn state

theorem handle_process [DecidableEq I] {h : Hub P I} (hr : h.redis = true) (hf : Filed h) (i : Input P I) :
    (h.handle i).instanceId = h.instanceId ∧ (h.handle i).redis = h.redis := by
  by_cases hguard : StateGuard h i
  · obtain ⟨_, hm⟩ := handle_mirrors hr hf i hguard
    exact ⟨hm.instanceId, hm.redis⟩
  · obtain ⟨now, event⟩ := i
    cases event with
    | frame ws msg =>
      cases msg with
      | state state =>
        simp only [Hub.handle]
        split
        · exact ⟨rfl, rfl⟩
        · obtain ⟨hname, hredis⟩ := uncaught_process (h.onMessage ws (.state state))
          obtain ⟨hname', hredis'⟩ := message_process h ws state
          exact ⟨hname.trans hname', hredis.trans hredis'⟩
      | _ => exact (hguard trivial).elim
    | _ => exact (hguard trivial).elim

theorem step_process [DecidableEq I] {h : Hub P I} (hr : h.redis = true) (hf : Filed h) (i : Input P I) :
    (h.step i).instanceId = h.instanceId ∧ (h.step i).redis = h.redis := by
  unfold Hub.step
  split
  · exact ⟨rfl, rfl⟩
  · exact handle_process (h := { h with out := [] }) hr hf i

end Process

/-! ### The roster -/

theorem mem_roster_entry (h : Hub protocol I) (did : Did) (d : WireDevice protocol) :
    d ∈ h.roster did ↔ h.entry (did, d.deviceId) = some d := by
  have hget : (((h.localMap did).rows.foldl (fun m c => m.put c.toWireDevice)
      ((h.remoteMap did).rows.foldl (fun m d => m.put d.toWireDevice)
        (Table.empty : Table fun d : WireDevice protocol => d.deviceId)))).get d.deviceId =
      h.entry (did, d.deviceId) := by
    rw [Table.get_foldl_put (fun c : LocalConn protocol => c.toWireDevice) fun _ => rfl,
      Table.get_foldl_put (fun d : RemoteDevice protocol I => d.toWireDevice) fun _ => rfl,
      Table.get_empty, Option.or_none]
    rfl
  unfold roster
  rw [List.mem_insertionSort, Table.mem_rows]
  exact Eq.congr_left hget

theorem entry_key {h : Hub protocol I} {did : Did} {id : String} {d : WireDevice protocol}
    (hd : h.entry (did, id) = some d) : d.deviceId = id := by
  unfold entry devices told remotes at hd
  rcases Option.or_eq_some_iff.1 hd with hd | ⟨_, hd⟩
  · obtain ⟨c, hc, rfl⟩ := Option.map_eq_some_iff.1 hd
    exact ((Table.get_eq_some _ _ _).1 hc).2
  · obtain ⟨e, he, rfl⟩ := Option.map_eq_some_iff.1 hd
    exact ((Table.get_eq_some _ _ _).1 he).2

theorem sees_iff (h : Hub protocol I) (did : Did) :
    h.sees did = true ↔ ∃ id d, h.entry (did, id) = some d ∧ d.state.playing = true := by
  unfold sees
  rw [List.any_eq_true]
  constructor
  · intro hd
    obtain ⟨d, hd, hp⟩ := hd
    exact ⟨d.deviceId, d, (mem_roster_entry h did d).1 hd, hp⟩
  · intro hd
    obtain ⟨id, d, hd, hp⟩ := hd
    have hid : d.deviceId = id := entry_key hd
    exact ⟨d, (mem_roster_entry h did d).2 (hid ▸ hd), hp⟩

theorem seat_isSome (h : Hub protocol I) (did : Did) (id : String) :
    (h.seat did id).isSome = (h.devices (did, id)).isSome := by
  unfold seat devices
  rw [Option.isSome_map, Option.isSome_map]

theorem SameRegs.devices {h h' : Hub protocol I} (a : SameRegs h h') : h'.devices = h.devices := by
  funext k
  unfold Hub.devices
  rw [a.localMap]

theorem SameRegs.seat {h h' : Hub protocol I} (a : SameRegs h h') (did : Did) (id : String) :
    h'.seat did id = h.seat did id := by
  unfold Hub.seat
  rw [a.localMap]

theorem SameRegs.told {h h' : Hub protocol I} (a : SameRegs h h') : h'.told = h.told := by
  funext k
  unfold Hub.told
  rw [a.remotes]

/-! ### One instance -/

section Instance

variable {h : Hub protocol I} {did : Did}

/-- Presence is reconciled after a change: what is asked for depends on what was seen before
and is seen now. -/
theorem broadcast_stopped {k : Hub protocol I} (hlast : k.lastPlaying did = h.sees did)
    (hout : Hub.cleanups k.out = []) {o : Outcome protocol I}
    (ho : o = (k.broadcastRoster did).reconcilePresence did) :
    (∃ h', o = .ok h') ∧
      Hub.cleanups o.hub.out =
        if h.sees did && !o.hub.sees did then o.hub.addressee did else [] := by
  subst ho
  have ht := broadcast_tells k did
  refine ⟨ht.ok, ?_⟩
  rw [ht.cleanups, hout, List.nil_append, ht.regs.sees, ht.regs.addressee]
  unfold asked
  rw [hlast]

theorem seat_put {h' : Hub protocol I} {x e : LocalConn protocol}
    (hmaps : ∀ d, h'.localMap d = if d = x.did then (h.localMap x.did).put x else h.localMap d)
    (he : (h.localMap x.did).get x.deviceId = some e) (hws : e.ws = x.ws) (did : Did) (id : String) :
    h'.seat did id = h.seat did id := by
  unfold seat
  rw [hmaps]
  split
  · rename_i hd
    subst hd
    rw [Table.get_put]
    split
    · rename_i hid
      subst hid
      rw [he, Option.map_some, Option.map_some, hws]
    · rfl
  · rfl

theorem store_quiet (h : Hub protocol I) (conn : LocalConn protocol) :
    (h.store conn).lastAnyPlaying = h.lastAnyPlaying ∧ (h.store conn).out = h.out := by
  obtain ⟨_, _, hlast, hout⟩ := storeClosure_rest h conn
  unfold store storeRegistry
  split
  · split
    · exact ⟨hlast, hout⟩
    · exact ⟨hlast, hout⟩
  · exact ⟨hlast, hout⟩

theorem state_stopped (hf : Follows h) (hout : h.out = []) (conn : LocalConn protocol)
    (state : PlaybackState) :
    (∃ h', h.handleState conn state = .ok h') ∧
      Hub.cleanups (h.handleState conn state).hub.out =
        if h.sees conn.did && !(h.handleState conn state).hub.sees conn.did then
          (h.handleState conn state).hub.addressee conn.did
        else [] := by
  obtain ⟨hlast, hsout⟩ := store_quiet h { conn with state := state }
  have hafter (k : Hub protocol I) (hk : k.lastPlaying conn.did = h.sees conn.did)
      (hkout : Hub.cleanups k.out = []) := broadcast_stopped hk hkout rfl
  unfold handleState
  dsimp only
  refine hafter _ ?_ ?_
  · rw [(publish_view _ _).lastPlaying, ← hf conn.did]
    unfold lastPlaying
    rw [hlast]
  · rw [publish_cleanups, hsout, hout]
    rfl

theorem state_seats {conn e : LocalConn protocol}
    (he : (h.localMap conn.did).get conn.deviceId = some e) (hsame : e.same conn = true)
    (state : PlaybackState) (did : Did) (id : String) :
    (h.handleState conn state).hub.seat did id = h.seat did id := by
  have hstore := @store_registered protocol I h { conn with state := state } e he hsame
  have hloc := (storeClosure_rest h { conn with state := state }).1
  rw [(handleState_regs h conn state).seat, hstore]
  refine seat_put (x := { conn with state := state, alive := e.alive }) (fun d => ?_) he
    (LocalConn.same_ws hsame) did id
  rw [setLocalMap_localMap]
  unfold localMap
  rw [hloc]

theorem state_ready (h : Hub protocol I) (conn : LocalConn protocol) (state : PlaybackState)
    (ws : SockId) :
    ((h.handleState conn state).hub.socks ws).readyState = (h.socks ws).readyState := by
  have hclosure := storeClosure_socks h { conn with state := state } ws
  rw [(handleState_regs h conn state).socks]
  unfold store storeRegistry
  split
  · split
    · exact hclosure
    · exact hclosure
  · exact hclosure

theorem registered_seat {conn : LocalConn protocol} (hreg : h.registered conn = true) :
    ∃ e, (h.localMap conn.did).get conn.deviceId = some e ∧ e.same conn = true := by
  unfold registered at hreg
  cases he : (h.localMap conn.did).get conn.deviceId with
  | none =>
    rw [he] at hreg
    cases hreg
  | some e =>
    rw [he] at hreg
    exact ⟨e, rfl, hreg⟩

theorem state_notes (hc : h.crashed = false) (hr : h.redis = true) (hf : Follows h)
    (hout : h.out = []) {conn : LocalConn protocol} (hreg : h.registered conn = true)
    (state : PlaybackState) : Notes h (h.handleState conn state).hub conn.did [] := by
  obtain ⟨e, he, hsame⟩ := registered_seat hreg
  have hm := state_mirrors hr conn state hreg
  have hregs := handleState_regs h conn state
  have hpublished : published (h.handleState conn state).hub.out =
      [.update h.instanceId { conn with state := state }.toWireDevice] := by
    rw [hm.published, hout]
    rfl
  refine ⟨?_, state_seats he hsame state conn.did, state_ready h conn state, ?_,
    fun msg hmsg => ?_, ?_, (state_stopped hf hout conn state).2⟩
  · rw [hregs.crashed, (store_proc h _).crashed, hc]
  · rw [hpublished]
    exact hm.devices
  · rw [hpublished] at hmsg
    refine ⟨_, List.mem_singleton.1 hmsg, rfl, ?_⟩
    show (((h.localMap conn.did).get conn.deviceId).map _).isSome = true
    rw [he]
    rfl
  · have hremotes : (h.handleState conn state).hub.remotes = h.remotes :=
      hregs.remotes.trans (store_remotes h _)
    funext k
    unfold told
    rw [hremotes]
    rfl

theorem SameRegs.notes {h' : Hub protocol I} (a : SameRegs h h') (hc : h.crashed = false)
    (hout : h'.out = []) : Notes h h' did [] := by
  refine ⟨a.crashed.trans hc, a.seat did, fun ws => by rw [a.socks], ?_, fun msg hmsg => ?_,
    a.told, ?_⟩
  · rw [hout]
    exact a.devices
  · rw [hout] at hmsg
    cases hmsg
  · rw [hout, a.sees]
    cases h.sees did <;> rfl

theorem update_notes [DecidableEq I] (hc : h.crashed = false) (hf : Follows h) (hout : h.out = [])
    {p : I} (hp : p ≠ h.instanceId) (now : ℕ) (d : WireDevice protocol) :
    Notes h (h.onRelay now (.update p d)).hub d.did [.set (d.did, d.deviceId) d] ∧
      published (h.onRelay now (.update p d)).hub.out = [] := by
  have hl := onRelay_local h now (.update p d)
  have hpublished : published (h.onRelay now (.update p d)).hub.out = [] := by
    have hm := relay_mirrors h now (.update p d)
    rw [hm.published, hout]
    rfl
  have htold : (h.onRelay now (.update p d)).hub.told =
      Change.applyAll h.told [.set (d.did, d.deviceId) d] := by
    funext k
    have hother : (RelayMsg.update p d).sender ≠ h.instanceId := hp
    unfold told
    rw [relay_remotes hother now k]
    show Option.map _ (if k = (d.did, d.deviceId) then _ else _) =
      if k = (d.did, d.deviceId) then some d else h.told k
    split
    · rfl
    · rfl
  have hset : h.onRelay now (.update p d) = ((h.setRemoteMap d.did
      ((h.remoteMap d.did).put { d with origin := p, lastSeen := now })).broadcastRoster
        d.did).reconcilePresence d.did := if_neg hp
  have hnone : Hub.cleanups h.out = [] := by rw [hout]; rfl
  refine ⟨⟨?_, fun id => ?_, fun ws => by rw [hl.socks], ?_, fun msg hmsg => ?_, htold, ?_⟩,
    hpublished⟩
  · rw [hset, (broadcast_tells _ d.did).regs.crashed]
    exact hc
  · unfold seat
    rw [hl.localMap]
  · rw [hpublished]
    funext k
    show ((_ : LocalMap protocol).get k.2).map _ = ((h.localMap k.1).get k.2).map _
    rw [hl.localMap]
  · rw [hpublished] at hmsg
    cases hmsg
  · exact (broadcast_stopped (k := h.setRemoteMap d.did _) (hf d.did) hnone hset).2

end Instance

end Hub

namespace Net
open Hub

variable [DecidableEq I]

/-- The cleanup frames a step sends, each with its instance. -/
def cleanups (N : Net I) : NetEvent I → List (I × SockId)
  | .event p i _ => (Hub.cleanups ((N.hubs p).step i).out).map fun ws => (p, ws)
  | .deliver p r now =>
    match N.chan p r with
    | [] => []
    | msg :: _ => (Hub.cleanups ((N.hubs r).step ⟨now, .relay msg⟩).out).map fun ws => (r, ws)

def Hosts (N : Net I) (did : Did) (p : I) (id : String) : Prop := ((N.hubs p).seat did id).isSome

/-- The device with the lowest id of the account, its instance and its socket. -/
structure Owner (N : Net I) (did : Did) (o : I) (id : String) (ws : SockId) : Prop where
  hosted : (N.hubs o).seat did id = some ws
  lowest : ∀ p id', N.Hosts did p id' → stringLess id' id = false

/-- All instances run and know which devices of the account are connected elsewhere. Only new
states of these are on the way, and they end with what the device has said last. -/
structure Announced (did : Did) (N : Net I) : Prop where
  running : ∀ p, (N.hubs p).crashed = false
  connected : ∀ p id ws, (N.hubs p).seat did id = some ws →
    ((N.hubs p).socks ws).readyState = .open
  apart : ∀ p q id, N.Hosts did p id → N.Hosts did q id → p = q
  known : ∀ r id, ((N.hubs r).told (did, id)).isSome ↔ ∃ p, p ≠ r ∧ N.Hosts did p id
  underway : ∀ p r msg, msg ∈ N.chan p r →
    ∃ d, msg = .update p d ∧ d.did = did ∧ N.Hosts did p d.deviceId
  inSync : ∀ p r id, p ≠ r → N.Hosts did p id →
    Change.applyAll (N.hubs r).told (changes (N.chan p r)) (did, id) = (N.hubs p).devices (did, id)

/-- A state frame of a connected device of the account, or a delivery. -/
def StateOrDelivery (did : Did) (N : Net I) : NetEvent I → Prop
  | .event p i _ => ∃ ws state conn, i.event = .frame ws (.state state) ∧
    ((N.hubs p).socks ws).conn = some conn ∧ conn.did = did ∧ (N.hubs p).registered conn = true
  | .deliver _ _ _ => True

def Playing (N : Net I) (did : Did) : Prop := ∃ p, plays ((N.hubs p).localMap did) = true

/-- What holds of the instances in every run. -/
structure Served (N : Net I) : Prop where
  names : ∀ p, (N.hubs p).instanceId = p
  redis : ∀ p, (N.hubs p).redis = true
  follows : ∀ p, Follows (N.hubs p)
  held : ∀ p, Held (fun _ => True) (fun _ => True) (N.hubs p)

/-- What a step does that sends the cleanup frames `sent`: nothing, or an instance handles a
state frame, or it hears of the state of a device. -/
inductive Turn (did : Did) (N N' : Net I) : List (I × SockId) → Prop
  | idle (hsame : N' = N) : Turn did N N' []
  | speaks (p : I) (hnotes : Notes (N.hubs p) (N'.hubs p) did [])
      (hother : ∀ q, q ≠ p → N'.hubs q = N.hubs q)
      (hchan : ∀ q s, N'.chan q s =
        if q = p then N.chan q s ++ published (N'.hubs p).out else N.chan q s) :
      Turn did N N' ((Hub.cleanups (N'.hubs p).out).map fun ws => (p, ws))
  | hears (p r : I) (d : WireDevice protocol)
      (hnotes : Notes (N.hubs r) (N'.hubs r) did
        (if p = r then [] else [.set (did, d.deviceId) d]))
      (hother : ∀ q, q ≠ r → N'.hubs q = N.hubs q)
      (hquiet : published (N'.hubs r).out = [])
      (hhead : N.chan p r = .update p d :: N'.chan p r)
      (hchan : ∀ q s, ¬ (q = p ∧ s = r) → N'.chan q s = N.chan q s) :
      Turn did N N' ((Hub.cleanups (N'.hubs r).out).map fun ws => (r, ws))

/-! ### All runs -/

theorem Served.handle {N : Net I} (hN : Served N) (p : I) (i : Input protocol I) :
    Served (N.handle p i) := by
  have hguard : HeldGuard (fun _ => True) (fun _ => True) i := by
    obtain ⟨now, event⟩ := i
    cases event with
    | frame ws msg => cases msg <;> trivial
    | verified ws hello did => exact fun _ => trivial
    | _ => trivial
  have hstable : Stable (fun _ : LocalConn protocol => True) := ⟨fun _ _ _ => trivial, fun _ _ _ => trivial⟩
  have hfiled : Filed (N.hubs p) := fun did c hc => ((hN.held p).filed did c hc).1
  obtain ⟨hname, hredis⟩ := step_process (hN.redis p) hfiled i
  have hp : (N.handle p i).hubs p = (N.hubs p).step i := handle_hub N p i
  have hall {Q : I → Hub protocol I → Prop} (hstep : Q p ((N.hubs p).step i))
      (hothers : ∀ q, Q q (N.hubs q)) (q : I) : Q q ((N.handle p i).hubs q) := by
    by_cases hq : q = p
    · subst hq
      rwa [hp]
    · rw [handle_other N i hq]
      exact hothers q
  exact ⟨hall (Q := fun q h => h.instanceId = q) (hname.trans (hN.names p)) hN.names,
    hall (Q := fun _ h => h.redis = true) (hredis.trans (hN.redis p)) hN.redis,
    hall (Q := fun _ h => Follows h) ((hN.follows p).step i) hN.follows,
    hall (Q := fun _ h => Held _ _ h) ((hN.held p).step hstable i hguard) hN.held⟩

theorem Served.step {N : Net I} (hN : Served N) (e : NetEvent I) : Served (N.step e) := by
  cases e with
  | event p i _ => exact hN.handle p i
  | deliver p r now =>
    unfold Net.step
    dsimp only
    split
    · exact hN
    · exact Served.handle (N := N.take p r _) ⟨hN.names, hN.redis, hN.follows, hN.held⟩ r _

theorem served_run (es : List (NetEvent I)) : Served (run step (init : Net I) es) :=
  run_kept (fun _ e hN => hN.step e)
    ⟨fun _ => rfl, fun _ => rfl, fun _ _ => rfl, fun p => held_init p true⟩ es

/-! ### One step -/

section Step

variable {N : Net I} {did : Did}

theorem event_turn (hs : Served N) (ha : Announced did N) {p : I} {i : Input protocol I}
    {hlocal : Local i} (hg : StateOrDelivery did N (.event p i hlocal)) :
    Turn did N (N.handle p i) (N.cleanups (.event p i hlocal)) := by
  obtain ⟨ws, state, conn, hevent, hconn, hdid, hreg⟩ := hg
  obtain ⟨now, event⟩ := i
  subst hevent hdid
  have hc := ha.running p
  have hopen : ((N.hubs p).socks ws).readyState ≠ .closed := by
    obtain ⟨e, he, hsame⟩ := registered_seat hreg
    have hseat : (N.hubs p).seat conn.did conn.deviceId = some e.ws := by
      unfold seat
      rw [he]
      rfl
    have hready := ha.connected p conn.deviceId e.ws hseat
    rw [LocalConn.same_ws hsame, ((hs.held p).own ws conn hconn).1] at hready
    rw [hready]
    exact fun h => by cases h
  have hnotes := state_notes (h := { N.hubs p with out := [] }) hc (hs.redis p) (hs.follows p) rfl
    hreg state
  obtain ⟨h', hok⟩ := (state_stopped (h := { N.hubs p with out := [] }) (hs.follows p) rfl conn
    state).1
  have hstep : (N.hubs p).step ⟨now, .frame ws (.state state)⟩ =
      (Hub.handleState { N.hubs p with out := [] } conn state).hub := by
    rw [step_eq hc]
    simp only [Hub.handle]
    rw [if_neg hopen]
    unfold onMessage
    dsimp only
    rw [hconn]
    dsimp only
    rw [hok]
    rfl
  rw [← hstep] at hnotes
  have hhub := handle_hub N p ⟨now, .frame ws (.state state)⟩
  have hturn : Turn conn.did N (N.handle p ⟨now, .frame ws (.state state)⟩)
      ((Hub.cleanups ((N.handle p ⟨now, .frame ws (.state state)⟩).hubs p).out).map
        fun ws => (p, ws)) := by
    refine .speaks p ?_ (fun q hq => handle_other N _ hq) fun q s => ?_
    · rw [hhub]
      exact ⟨hnotes.running, hnotes.seats, hnotes.ready, hnotes.devices, hnotes.updates,
        hnotes.told, hnotes.cleanups⟩
    · split
      · rename_i hq
        subst hq
        rw [handle_sent, hhub]
      · rename_i hq
        exact handle_chan N _ hq s
  rw [hhub] at hturn
  exact hturn

theorem relay_notes {h : Hub protocol I} (hc : h.crashed = false) (hf : Follows h) (now : ℕ) (p : I)
    {d : WireDevice protocol} (hd : d.did = did) :
    Notes h (h.step ⟨now, .relay (.update p d)⟩) did
        (if p = h.instanceId then [] else [.set (did, d.deviceId) d]) ∧
      published (h.step ⟨now, .relay (.update p d)⟩).out = [] := by
  rw [step_relay hc]
  split
  · rename_i hp
    have hown : (RelayMsg.update p d).sender = ({ h with out := [] } : Hub protocol I).instanceId := hp
    rw [own_message hown]
    have hsame : SameRegs h { h with out := [] } := ⟨fun _ => rfl, fun _ => rfl, rfl, rfl, rfl, rfl⟩
    exact ⟨hsame.notes hc rfl, rfl⟩
  · rename_i hp
    subst hd
    obtain ⟨hn, hquiet⟩ := update_notes (h := { h with out := [] }) hc hf rfl hp now d
    exact ⟨⟨hn.running, hn.seats, hn.ready, hn.devices, hn.updates, hn.told, hn.cleanups⟩, hquiet⟩

theorem deliver_turn (hs : Served N) (ha : Announced did N) (p r : I) (now : ℕ) :
    Turn did N (N.step (.deliver p r now)) (N.cleanups (.deliver p r now)) := by
  unfold Net.step cleanups
  dsimp only
  cases hchan : N.chan p r with
  | nil => exact .idle rfl
  | cons msg rest =>
    obtain ⟨d, rfl, hd, _⟩ := ha.underway p r msg (hchan ▸ List.mem_cons_self ..)
    obtain ⟨hnotes, hquiet⟩ := relay_notes (ha.running r) (hs.follows r) now p hd
    rw [hs.names r] at hnotes
    dsimp only
    have hhub : ((N.take p r rest).handle r ⟨now, .relay (.update p d)⟩).hubs r =
        (N.hubs r).step ⟨now, .relay (.update p d)⟩ := if_pos rfl
    have hch (q s : I) : ((N.take p r rest).handle r ⟨now, .relay (.update p d)⟩).chan q s =
        if q = p ∧ s = r then rest else N.chan q s := take_chan hquiet q s
    have hturn : Turn did N ((N.take p r rest).handle r ⟨now, .relay (.update p d)⟩)
        ((Hub.cleanups (((N.take p r rest).handle r ⟨now, .relay (.update p d)⟩).hubs r).out).map
          fun ws => (r, ws)) := by
      refine .hears p r d ?_ (fun q hq => handle_other _ _ hq) ?_ ?_
        fun q s hqs => (hch q s).trans (if_neg hqs)
      · rwa [hhub]
      · rwa [hhub]
      · rw [hch, if_pos ⟨rfl, rfl⟩, hchan]
    rw [hhub] at hturn
    exact hturn

theorem step_turn (hs : Served N) (ha : Announced did N) {e : NetEvent I}
    (hg : StateOrDelivery did N e) : Turn did N (N.step e) (N.cleanups e) := by
  cases e with
  | event p i _ => exact event_turn hs ha hg
  | deliver p r now => exact deliver_turn hs ha p r now

/-! ### The devices stay announced -/

theorem Turn.seats {N' : Net I} {sent : List (I × SockId)} (ht : Turn did N N' sent) (p : I)
    (id : String) : (N'.hubs p).seat did id = (N.hubs p).seat did id := by
  have hmoved {r : I} {heard} (hnotes : Notes (N.hubs r) (N'.hubs r) did heard)
      (hother : ∀ q, q ≠ r → N'.hubs q = N.hubs q) :
      (N'.hubs p).seat did id = (N.hubs p).seat did id := by
    by_cases hp : p = r
    · subst hp
      exact hnotes.seats id
    · rw [hother p hp]
  cases ht with
  | idle hsame => rw [hsame]
  | speaks r hnotes hother _ => exact hmoved hnotes hother
  | hears q r d hnotes hother _ _ _ => exact hmoved hnotes hother

theorem Turn.hosts {N' : Net I} {sent : List (I × SockId)} (ht : Turn did N N' sent) (p : I)
    (id : String) : N'.Hosts did p id ↔ N.Hosts did p id := by
  unfold Hosts
  rw [ht.seats]

theorem Announced.speaks {N' : Net I} (ha : Announced did N) (hs : Served N) {p : I}
    (hnotes : Notes (N.hubs p) (N'.hubs p) did []) (hother : ∀ q, q ≠ p → N'.hubs q = N.hubs q)
    (hchan : ∀ q s, N'.chan q s =
      if q = p then N.chan q s ++ published (N'.hubs p).out else N.chan q s)
    (hhosts : ∀ q id, N'.Hosts did q id ↔ N.Hosts did q id) :
    (∀ r id, ((N'.hubs r).told (did, id)).isSome ↔ ∃ q, q ≠ r ∧ N'.Hosts did q id) ∧
      (∀ q r msg, msg ∈ N'.chan q r →
        ∃ d, msg = .update q d ∧ d.did = did ∧ N'.Hosts did q d.deviceId) ∧
      ∀ q r id, q ≠ r → N'.Hosts did q id →
        Change.applyAll (N'.hubs r).told (changes (N'.chan q r)) (did, id) =
          (N'.hubs q).devices (did, id) := by
  have htold (r : I) : (N'.hubs r).told = (N.hubs r).told := by
    by_cases hr : r = p
    · subst hr
      exact hnotes.told
    · rw [hother r hr]
  refine ⟨fun r id => ?_, fun q r msg hmsg => ?_, fun q r id hqr hid => ?_⟩
  · rw [htold, ha.known r id]
    simp only [hhosts]
  · rw [hchan] at hmsg
    simp only [hhosts]
    split at hmsg
    · rename_i hq
      subst hq
      rcases List.mem_append.1 hmsg with hmsg | hmsg
      · exact ha.underway q r msg hmsg
      · obtain ⟨d, hd, hdid, hseat⟩ := hnotes.updates msg hmsg
        exact ⟨d, hs.names q ▸ hd, hdid, hseat⟩
    · exact ha.underway q r msg hmsg
  · have hsync := ha.inSync q r id hqr ((hhosts q id).1 hid)
    rw [htold, hchan]
    by_cases hq : q = p
    · subst hq
      rw [if_pos rfl, changes_append, Change.applyAll_append, hnotes.devices]
      exact Change.applyAll_congr hsync _
    · rw [if_neg hq, hother q hq]
      exact hsync

theorem Announced.hears {N' : Net I} (ha : Announced did N) {p r : I} {d : WireDevice protocol}
    (hnotes : Notes (N.hubs r) (N'.hubs r) did (if p = r then [] else [.set (did, d.deviceId) d]))
    (hother : ∀ q, q ≠ r → N'.hubs q = N.hubs q) (hquiet : published (N'.hubs r).out = [])
    (hhead : N.chan p r = .update p d :: N'.chan p r)
    (hchan : ∀ q s, ¬ (q = p ∧ s = r) → N'.chan q s = N.chan q s)
    (hhosts : ∀ q id, N'.Hosts did q id ↔ N.Hosts did q id) :
    (∀ s id, ((N'.hubs s).told (did, id)).isSome ↔ ∃ q, q ≠ s ∧ N'.Hosts did q id) ∧
      (∀ q s msg, msg ∈ N'.chan q s →
        ∃ d, msg = .update q d ∧ d.did = did ∧ N'.Hosts did q d.deviceId) ∧
      ∀ q s id, q ≠ s → N'.Hosts did q id →
        Change.applyAll (N'.hubs s).told (changes (N'.chan q s)) (did, id) =
          (N'.hubs q).devices (did, id) := by
  obtain ⟨d', hd', hdid, hhosted⟩ := ha.underway p r (.update p d) (hhead ▸ List.mem_cons_self ..)
  cases hd'
  have hdevices (q : I) : (N'.hubs q).devices = (N.hubs q).devices := by
    by_cases hq : q = r
    · subst hq
      rw [hnotes.devices, hquiet]
      rfl
    · rw [hother q hq]
  -- only the row of the device itself is written
  have htold (s : I) (id : String) : (N'.hubs s).told (did, id) =
      if s = r ∧ p ≠ r ∧ id = d.deviceId then some d else (N.hubs s).told (did, id) := by
    by_cases hs : s = r
    · subst hs
      rw [hnotes.told]
      by_cases hp : p = s
      · rw [if_pos hp, if_neg fun h => h.2.1 hp]
        rfl
      · rw [if_neg hp]
        show (if (did, id) = (did, d.deviceId) then some d else _) = _
        by_cases hid : id = d.deviceId
        · rw [if_pos (by rw [hid]), if_pos ⟨rfl, hp, hid⟩]
        · rw [if_neg fun h => hid (Prod.mk.inj h).2, if_neg fun h => hid h.2.2]
    · rw [hother s hs, if_neg fun h => hs h.1]
  refine ⟨fun s id => ?_, fun q s msg hmsg => ?_, fun q s id hqs hid => ?_⟩
  · rw [htold]
    simp only [hhosts]
    split
    · rename_i hrow
      obtain ⟨rfl, hp, rfl⟩ := hrow
      exact iff_of_true rfl ⟨p, hp, hhosted⟩
    · exact ha.known s id
  · simp only [hhosts]
    by_cases hqs : q = p ∧ s = r
    · obtain ⟨rfl, rfl⟩ := hqs
      exact ha.underway q s msg (hhead ▸ List.mem_cons_of_mem _ hmsg)
    · rw [hchan q s hqs] at hmsg
      exact ha.underway q s msg hmsg
  · have hid := (hhosts q id).1 hid
    have hsync := ha.inSync q s id hqs hid
    rw [hdevices]
    by_cases hps : q = p ∧ s = r
    · obtain ⟨rfl, rfl⟩ := hps
      rw [hhead] at hsync
      rw [hnotes.told, if_neg hqs]
      have hkey : (did, d.deviceId) = (d.did, d.deviceId) := by rw [hdid]
      rw [hkey]
      exact hsync
    · rw [hchan q s hps]
      refine (Change.applyAll_congr ?_ _).trans hsync
      rw [htold, if_neg]
      rintro ⟨rfl, _, rfl⟩
      exact hps ⟨ha.apart q p _ hid hhosted, rfl⟩

theorem Announced.turn {N' : Net I} {sent : List (I × SockId)} (ha : Announced did N) (hs : Served N)
    (ht : Turn did N N' sent) : Announced did N' := by
  have hmoved {r : I} {heard} (hnotes : Notes (N.hubs r) (N'.hubs r) did heard)
      (hother : ∀ q, q ≠ r → N'.hubs q = N.hubs q) :
      (∀ p, (N'.hubs p).crashed = false) ∧
        (∀ p id ws, (N'.hubs p).seat did id = some ws →
          ((N'.hubs p).socks ws).readyState = .open) ∧
        ∀ p q id, N'.Hosts did p id → N'.Hosts did q id → p = q := by
    refine ⟨fun p => ?_, fun p id ws hseat => ?_, fun p q id hp hq => ?_⟩
    · by_cases hp : p = r
      · rw [hp]
        exact hnotes.running
      · rw [hother p hp]
        exact ha.running p
    · rw [ht.seats] at hseat
      have hopen := ha.connected p id ws hseat
      by_cases hp : p = r
      · subst hp
        rw [hnotes.ready]
        exact hopen
      · rw [hother p hp]
        exact hopen
    · exact ha.apart p q id ((ht.hosts p id).1 hp) ((ht.hosts q id).1 hq)
  cases ht with
  | idle hsame => exact hsame ▸ ha
  | speaks p hnotes hother hchan =>
    obtain ⟨hrun, hopen, hapart⟩ := hmoved hnotes hother
    obtain ⟨hknown, hunder, hsync⟩ := ha.speaks hs hnotes hother hchan
      (Turn.speaks p hnotes hother hchan).hosts
    exact ⟨hrun, hopen, hapart, hknown, hunder, hsync⟩
  | hears p r d hnotes hother hquiet hhead hchan =>
    obtain ⟨hrun, hopen, hapart⟩ := hmoved hnotes hother
    obtain ⟨hknown, hunder, hsync⟩ := ha.hears hnotes hother hquiet hhead hchan
      (Turn.hears p r d hnotes hother hquiet hhead hchan).hosts
    exact ⟨hrun, hopen, hapart, hknown, hunder, hsync⟩

/-! ### The owner -/

omit [DecidableEq I] in
theorem owner_congr {N' : Net I} (hseats : ∀ p id, (N'.hubs p).seat did id = (N.hubs p).seat did id)
    {o : I} {id : String} {ws : SockId} (ho : Owner N' did o id ws) : Owner N did o id ws := by
  refine ⟨(hseats o id).symm.trans ho.hosted, fun p id' hp => ho.lowest p id' ?_⟩
  unfold Hosts
  rw [hseats]
  exact hp

theorem Announced.entry (ha : Announced did N) (q : I) (id : String) :
    ((N.hubs q).entry (did, id)).isSome ↔ ∃ p, N.Hosts did p id := by
  have hhere : ((N.hubs q).devices (did, id)).isSome ↔ N.Hosts did q id := by
    unfold Hosts
    rw [seat_isSome]
  unfold Hub.entry
  rw [Option.isSome_or, Bool.or_eq_true, hhere, ha.known q id]
  constructor
  · intro h
    rcases h with h | ⟨p, _, hp⟩
    · exact ⟨q, h⟩
    · exact ⟨p, hp⟩
  · intro h
    obtain ⟨p, hp⟩ := h
    by_cases hq : p = q
    · exact Or.inl (hq ▸ hp)
    · exact Or.inr ⟨p, hq, hp⟩

/-- Every instance names the same device. -/
theorem Announced.cleanupOwner (ha : Announced did N) (q : I) {p₀ : I} {id₀ : String}
    (h₀ : N.Hosts did p₀ id₀) :
    ∃ id, (N.hubs q).cleanupOwner did = some (((N.hubs q).localMap did).get id) ∧
      (∃ p, N.Hosts did p id) ∧ ∀ p id', N.Hosts did p id' → stringLess id' id = false := by
  have hrow (p : I) (id : String) (hp : N.Hosts did p id) :
      ∃ x ∈ (N.hubs q).roster did, x.deviceId = id := by
    obtain ⟨x, hx⟩ := Option.isSome_iff_exists.1 ((ha.entry q id).2 ⟨p, hp⟩)
    have hid := entry_key hx
    exact ⟨x, (mem_roster_entry _ did x).2 (hid ▸ hx), hid⟩
  unfold Hub.cleanupOwner
  cases hroster : (N.hubs q).roster did with
  | nil =>
    obtain ⟨x, hx, _⟩ := hrow p₀ id₀ h₀
    rw [hroster] at hx
    cases hx
  | cons d ds =>
    obtain ⟨m, hm⟩ := Option.isSome_iff_exists.1
      (lowest_isSome total_protocol d ds trivial fun _ _ => trivial)
    have hleast := lowest_least d ds hm
    have hmem := lowest_mem d ds hm
    rw [← hroster] at hleast hmem
    dsimp only
    rw [hm]
    refine ⟨m.deviceId, rfl, ?_, fun p id' hp => ?_⟩
    · rw [← ha.entry q, (mem_roster_entry _ did m).1 hmem]
      rfl
    · obtain ⟨x, hx, rfl⟩ := hrow p id' hp
      exact hleast x hx

theorem Announced.owner (ha : Announced did N) {p₀ : I} {id₀ : String} (h₀ : N.Hosts did p₀ id₀) :
    ∃ o id ws, Owner N did o id ws := by
  obtain ⟨id, _, ⟨o, ho⟩, hlowest⟩ := ha.cleanupOwner p₀ h₀
  obtain ⟨ws, hws⟩ := Option.isSome_iff_exists.1 ho
  exact ⟨o, id, ws, hws, hlowest⟩

omit [DecidableEq I] in
theorem Owner.hosts {o : I} {id : String} {ws : SockId} (ho : Owner N did o id ws) :
    N.Hosts did o id := by
  unfold Hosts
  rw [ho.hosted]
  rfl

theorem Announced.addressee (ha : Announced did N) {o : I} {id : String} {ws : SockId}
    (ho : Owner N did o id ws) (q : I) :
    (N.hubs q).addressee did = if q = o then [ws] else [] := by
  obtain ⟨id', howner, ⟨p, hp⟩, hlowest⟩ := ha.cleanupOwner q ho.hosts
  obtain rfl : id' = id := stringLess_antisymm (ho.lowest p id' hp) (hlowest o id ho.hosts)
  unfold Hub.addressee
  rw [howner]
  split
  · rename_i c hget
    have hseat : (N.hubs q).seat did id' = some c.ws := by
      unfold seat
      rw [Option.some.inj hget]
      rfl
    have hhosts : N.Hosts did q id' := by
      unfold Hosts
      rw [hseat]
      rfl
    obtain rfl : q = o := ha.apart q o id' hhosts ho.hosts
    have hws : c.ws = ws := Option.some.inj (hseat.symm.trans ho.hosted)
    rw [hws, if_pos (ha.connected q id' ws ho.hosted), if_pos rfl]
  · rename_i hnone
    rw [if_neg]
    intro hq
    obtain ⟨c, hc, _⟩ := Option.map_eq_some_iff.1 ho.hosted
    exact hnone c (by rw [hq, hc])

/-- Only the owner's instance sends the frame, to the owner, and it does when it no longer sees a
device playing. -/
theorem Turn.sent_eq {N' : Net I} {sent : List (I × SockId)} (ht : Turn did N N' sent)
    (ha' : Announced did N') {o : I} {id : String} {ws : SockId} (ho : Owner N' did o id ws) :
    sent = if (N.hubs o).sees did && !(N'.hubs o).sees did then [(o, ws)] else [] := by
  have hmoved {r : I} {heard} (hnotes : Notes (N.hubs r) (N'.hubs r) did heard)
      (hother : ∀ q, q ≠ r → N'.hubs q = N.hubs q) :
      ((Hub.cleanups (N'.hubs r).out).map fun ws => (r, ws)) =
        if (N.hubs o).sees did && !(N'.hubs o).sees did then [(o, ws)] else [] := by
    rw [hnotes.cleanups, ha'.addressee ho]
    by_cases hr : r = o
    · subst hr
      rw [if_pos rfl]
      split
      · rfl
      · rfl
    · rw [if_neg hr, ite_self, hother o (Ne.symm hr)]
      cases (N.hubs o).sees did <;> rfl
  cases ht with
  | idle hsame =>
    rw [hsame]
    cases (N.hubs o).sees did <;> rfl
  | speaks p hnotes hother _ => exact hmoved hnotes hother
  | hears p r d hnotes hother _ _ _ => exact hmoved hnotes hother

theorem Turn.seen {N' : Net I} {sent : List (I × SockId)} (ht : Turn did N N' sent) {q : I}
    {ws : SockId} (hsent : (q, ws) ∈ sent) : (N.hubs q).sees did = true := by
  have hmoved {r : I} {heard} (hnotes : Notes (N.hubs r) (N'.hubs r) did heard)
      (hmem : (q, ws) ∈ (Hub.cleanups (N'.hubs r).out).map fun ws => (r, ws)) :
      (N.hubs q).sees did = true := by
    obtain ⟨ws', hws, hq⟩ := List.mem_map.1 hmem
    obtain rfl : r = q := (Prod.mk.inj hq).1
    rw [hnotes.cleanups] at hws
    split at hws
    · rename_i hcond
      exact (Bool.and_eq_true_iff.1 hcond).1
    · cases hws
  cases ht with
  | idle => cases hsent
  | speaks p hnotes _ _ => exact hmoved hnotes hsent
  | hears p r d hnotes _ _ _ _ => exact hmoved hnotes hsent

theorem Announced.hosts_of_sees (ha : Announced did N) {q : I} (hs : (N.hubs q).sees did = true) :
    ∃ p id, N.Hosts did p id := by
  obtain ⟨id, d, hd, _⟩ := (sees_iff _ did).1 hs
  obtain ⟨p, hp⟩ := (ha.entry q id).1 (by rw [hd]; rfl)
  exact ⟨p, id, hp⟩

/-! ### What is on the way arrives -/

/-- The instance sees a device playing, or a message that one plays is on the way to it. -/
def Coming (did : Did) (o : I) (N : Net I) : Prop :=
  (N.hubs o).sees did = true ∨
    ∃ p d, p ≠ o ∧ .update p d ∈ N.chan p o ∧ d.state.playing = true

omit [DecidableEq I] in
theorem Announced.sees_told (ha : Announced did N) {p o : I} (hp : p ≠ o) {d : WireDevice protocol}
    {id : String} (hhosts : N.Hosts did p id) (htold : (N.hubs o).told (did, id) = some d)
    (hplay : d.state.playing = true) : (N.hubs o).sees did = true := by
  have hnone : (N.hubs o).devices (did, id) = none := by
    rw [← Option.not_isSome_iff_eq_none, ← seat_isSome]
    exact fun ho => hp (ha.apart p o id hhosts ho)
  refine (sees_iff _ did).2 ⟨id, d, ?_, hplay⟩
  unfold Hub.entry
  rw [hnone]
  exact htold

omit [DecidableEq I] in
theorem Playing.device (h : N.Playing did) :
    ∃ p id d, (N.hubs p).devices (did, id) = some d ∧ d.state.playing = true := by
  obtain ⟨p, hp⟩ := h
  obtain ⟨c, hc, hplay⟩ := (plays_eq_true _).1 hp
  refine ⟨p, c.deviceId, c.toWireDevice, ?_, hplay⟩
  unfold devices
  rw [((N.hubs p).localMap did).mem_rows c |>.1 hc]
  rfl

omit [DecidableEq I] in
theorem playing_of_device {p : I} {id : String} {d : WireDevice protocol}
    (hd : (N.hubs p).devices (did, id) = some d) (hplay : d.state.playing = true) :
    N.Playing did := by
  obtain ⟨c, hc, rfl⟩ := Option.map_eq_some_iff.1 hd
  exact ⟨p, (plays_eq_true _).2 ⟨c, ((Table.get_eq_some _ _ _).1 hc).1, hplay⟩⟩

theorem Announced.coming (ha : Announced did N) (o : I) (h : N.Playing did) : Coming did o N := by
  obtain ⟨p, id, d, hd, hplay⟩ := h.device
  have hhosts : N.Hosts did p id := by
    unfold Hosts
    rw [seat_isSome, hd]
    rfl
  by_cases hp : p = o
  · subst hp
    refine Or.inl ((sees_iff _ did).2 ⟨id, d, ?_, hplay⟩)
    unfold Hub.entry
    rw [hd]
    rfl
  · have hsync := ha.inSync p o id hp hhosts
    rw [hd] at hsync
    rcases Change.applyAll_value hsync with htold | hset
    · exact Or.inl (ha.sees_told hp hhosts htold hplay)
    · obtain ⟨msg, hmsg, hchange⟩ := List.mem_filterMap.1 hset
      obtain ⟨d', rfl, _, _⟩ := ha.underway p o msg hmsg
      cases hchange
      exact Or.inr ⟨p, d, hp, hmsg, hplay⟩

theorem Turn.coming {N' : Net I} {sent : List (I × SockId)} (ht : Turn did N N' sent)
    (ha : Announced did N) (ha' : Announced did N') {o p : I} {d : WireDevice protocol} (hp : p ≠ o)
    (hmsg : .update p d ∈ N.chan p o) (hplay : d.state.playing = true) : Coming did o N' := by
  have hosts := ht.hosts
  cases ht with
  | idle hsame =>
    rw [hsame]
    exact Or.inr ⟨p, d, hp, hmsg, hplay⟩
  | speaks q hnotes hother hchan =>
    refine Or.inr ⟨p, d, hp, ?_, hplay⟩
    rw [hchan]
    split
    · exact List.mem_append_left _ hmsg
    · exact hmsg
  | hears q r d' hnotes hother hquiet hhead hchan =>
    by_cases hpr : p = q ∧ o = r
    · obtain ⟨rfl, rfl⟩ := hpr
      rw [hhead] at hmsg
      rcases List.mem_cons.1 hmsg with hd | hrest
      · cases hd
        obtain ⟨_, he, _, hhosts⟩ := ha.underway p o (.update p d) (hhead ▸ List.mem_cons_self ..)
        cases he
        refine Or.inl (ha'.sees_told hp ((hosts p d.deviceId).2 hhosts) ?_ hplay)
        rw [hnotes.told, if_neg hp]
        exact if_pos rfl
      · exact Or.inr ⟨p, d, hp, hrest, hplay⟩
    · refine Or.inr ⟨p, d, hp, ?_, hplay⟩
      rw [hchan p o hpr]
      exact hmsg

omit [DecidableEq I] in
theorem Announced.settled (ha : Announced did N) (hempty : ∀ p r, N.chan p r = []) {o : I}
    (hs : (N.hubs o).sees did = true) : N.Playing did := by
  obtain ⟨id, d, hd, hplay⟩ := (sees_iff _ did).1 hs
  unfold Hub.entry at hd
  rcases Option.or_eq_some_iff.1 hd with hd | ⟨_, hd⟩
  · exact playing_of_device hd hplay
  · obtain ⟨p, hp, hhosts⟩ := (ha.known o id).1 (by rw [hd]; rfl)
    have hsync := ha.inSync p o id hp hhosts
    rw [hempty p o] at hsync
    exact playing_of_device (hsync.symm.trans hd) hplay

end Step

/-! ### Runs -/

section Runs

variable {did : Did}

/-- The instances go on as they were `N₀`: the devices are the same. -/
structure Lasts (did : Did) (N₀ N : Net I) : Prop where
  served : Served N
  announced : Announced did N
  seats : ∀ p id, (N.hubs p).seat did id = (N₀.hubs p).seat did id

theorem Lasts.next {N₀ N : Net I} (hl : Lasts did N₀ N) {e : NetEvent I}
    (hg : StateOrDelivery did N e) : Lasts did N₀ (N.step e) :=
  have ht := step_turn hl.served hl.announced hg
  ⟨hl.served.step e, hl.announced.turn hl.served ht, fun p id => (ht.seats p id).trans (hl.seats p id)⟩

theorem Lasts.after {N₀ N : Net I} (hl : Lasts did N₀ N) {es : List (NetEvent I)}
    (hes : AllSteps step (StateOrDelivery did) N es) : Lasts did N₀ (run step N es) :=
  run_invariant (fun _ _ hl hg => hl.next hg) hl hes

theorem Lasts.seen {N₀ N : Net I} (hl : Lasts did N₀ N) {o : I} {es : List (NetEvent I)}
    (hes : AllSteps step (StateOrDelivery did) N es) (hc : Coming did o N)
    (hempty : ∀ p r, (run step N es).chan p r = []) :
    ∃ fs gs, es = fs ++ gs ∧ ((run step N fs).hubs o).sees did = true := by
  induction es generalizing N with
  | nil =>
    rcases hc with hs | ⟨p, d, _, hmsg, _⟩
    · exact ⟨[], [], rfl, hs⟩
    · rw [show N.chan p o = [] from hempty p o] at hmsg
      cases hmsg
  | cons e es ih =>
    rcases hc with hs | ⟨p, d, hp, hmsg, hplay⟩
    · exact ⟨[], e :: es, rfl, hs⟩
    · have hnext := hl.next hes.1
      have ht := step_turn hl.served hl.announced hes.1
      have hc := ht.coming hl.announced hnext.announced hp hmsg hplay
      obtain ⟨fs, gs, rfl, hs⟩ := ih hnext hes.2 hc hempty
      exact ⟨e :: fs, gs, rfl, hs⟩

/-- The instances from `N` on have one owner of the cleanup. A frame with cleanup is only ever sent by
its instance, to it; and when all is delivered and nothing plays any more, the frame was sent
in the step that ended the last moment at which that instance saw a device playing. -/
theorem cleanup_duty (did : Did) (es₀ es : List (NetEvent I))
    (ha : Announced did (run step init es₀))
    (hes : AllSteps step (StateOrDelivery did) (run step init es₀) es) :
    let N := run step (init : Net I) es₀
    (∀ es₁ e es₂, es = es₁ ++ e :: es₂ → ∀ q ws, (q, ws) ∈ (run step N es₁).cleanups e →
        ∃ id, Owner N did q id ws) ∧
      ((∀ p r, (run step N es).chan p r = []) → ¬ (run step N es).Playing did →
        (∃ es₁ es₂, es = es₁ ++ es₂ ∧ (run step N es₁).Playing did) →
        ∃ o id ws, Owner N did o id ws ∧ ∃ es₁ e es₂, es = es₁ ++ e :: es₂ ∧
          ((run step N es₁).hubs o).sees did = true ∧
          (∀ fs gs, es₂ = fs ++ gs → ((run step N (es₁ ++ e :: fs)).hubs o).sees did = false) ∧
          (run step N es₁).cleanups e = [(o, ws)]) := by
  intro N
  have hstart : Lasts did N N := ⟨served_run es₀, ha, fun _ _ => rfl⟩
  have hsplit (es₁ : List (NetEvent I)) (e : NetEvent I) (es₂ : List (NetEvent I))
      (h : es = es₁ ++ e :: es₂) :
      Lasts did N (run step N es₁) ∧ StateOrDelivery did (run step N es₁) e := by
    rw [h, allSteps_append] at hes
    exact ⟨hstart.after hes.1, hes.2.1⟩
  constructor
  · intro es₁ e es₂ h q ws hsent
    obtain ⟨hl, hg⟩ := hsplit es₁ e es₂ h
    have ht := step_turn hl.served hl.announced hg
    have hnext := hl.next hg
    obtain ⟨p, id, hhosts⟩ := hl.announced.hosts_of_sees (ht.seen hsent)
    obtain ⟨o, id, ws', ho⟩ := hnext.announced.owner ((ht.hosts p id).2 hhosts)
    rw [ht.sent_eq hnext.announced ho] at hsent
    split at hsent
    · obtain ⟨rfl, rfl⟩ := Prod.mk.inj (List.mem_singleton.1 hsent)
      exact ⟨id, owner_congr hnext.seats ho⟩
    · cases hsent
  · intro hempty hstopped hplayed
    obtain ⟨es₁, es₂, hes₁, hplaying⟩ := hplayed
    have hsuffix : AllSteps step (StateOrDelivery did) N es₁ ∧
        AllSteps step (StateOrDelivery did) (run step N es₁) es₂ := by
      rw [hes₁, allSteps_append] at hes
      exact hes
    have hl := hstart.after hsuffix.1
    obtain ⟨p, id, d, hd, _⟩ := hplaying.device
    have hhosts : (run step N es₁).Hosts did p id := by
      unfold Hosts
      rw [seat_isSome, hd]
      rfl
    obtain ⟨o, id, ws, ho⟩ := hl.announced.owner hhosts
    have howner := owner_congr hl.seats ho
    -- the instance comes to see it
    obtain ⟨fs, gs, hfs, hsees⟩ := hl.seen hsuffix.2 (hl.announced.coming o hplaying) (by
      rw [← run_append, ← hes₁]
      exact hempty)
    have hseen : ∃ fs gs, es = fs ++ gs ∧ ((run step N fs).hubs o).sees did = true :=
      ⟨es₁ ++ fs, gs, by rw [hes₁, hfs, List.append_assoc], by rw [run_append]; exact hsees⟩
    have hend : ¬ ((run step N es).hubs o).sees did = true :=
      fun hs => hstopped ((hstart.after hes).announced.settled hempty hs)
    -- the last time it does
    obtain ⟨es₁, e, es₂, hlast, hsees, hnever⟩ :=
      run_last (Q := fun M : Net I => (M.hubs o).sees did = true) hseen hend
    refine ⟨o, id, ws, howner, es₁, e, es₂, hlast, hsees,
      fun fs gs h => Bool.eq_false_iff.2 (hnever fs gs h), ?_⟩
    obtain ⟨hl, hg⟩ := hsplit es₁ e es₂ hlast
    have hnext := hl.next hg
    have hafter : (((run step N es₁).step e).hubs o).sees did = false := by
      have h := hnever [] es₂ rfl
      rw [run_append] at h
      exact Bool.eq_false_iff.2 h
    rw [(step_turn hl.served hl.announced hg).sent_eq hnext.announced
      (owner_congr (fun p id => (hnext.seats p id).symm) howner), hsees, hafter]
    rfl

end Runs

/-! ### A device stops on another instance -/

theorem NetInv.announced {N : Net I} (hN : NetInv N) {did : Did} (hempty : ∀ p r, N.chan p r = [])
    (hopen : ∀ p, ∀ c ∈ ((N.hubs p).localMap did).rows, ((N.hubs p).socks c.ws).readyState = .open)
    (hapart : ∀ p q, ∀ c ∈ ((N.hubs p).localMap did).rows, ∀ c' ∈ ((N.hubs q).localMap did).rows,
      c.deviceId = c'.deviceId → p = q) : Announced did N := by
  have hagrees (r : I) : RosterAgrees N r := hN.agrees fun p => hempty p r
  have hrow {p : I} {id : String} (h : N.Hosts did p id) :
      ∃ c, ((N.hubs p).localMap did).get id = some c := by
    unfold Hosts seat at h
    rw [Option.isSome_map] at h
    exact Option.isSome_iff_exists.1 h
  refine ⟨hN.running, fun p id ws hseat => ?_, fun p q id hp hq => ?_, fun r id => ?_,
    fun p r msg hmsg => ?_, fun p r id hpr hp => ?_⟩
  · obtain ⟨c, hc, rfl⟩ := Option.map_eq_some_iff.1 hseat
    exact hopen p c ((Table.get_eq_some _ _ _).1 hc).1
  · obtain ⟨c, hc⟩ := hrow hp
    obtain ⟨c', hc'⟩ := hrow hq
    obtain ⟨hmem, hid⟩ := (Table.get_eq_some _ _ _).1 hc
    obtain ⟨hmem', hid'⟩ := (Table.get_eq_some _ _ _).1 hc'
    exact hapart p q c hmem c' hmem' (hid.trans hid'.symm)
  · unfold told remotes
    rw [Option.isSome_map, Option.isSome_iff_exists]
    constructor
    · intro h
      obtain ⟨d, hd⟩ := h
      obtain ⟨p, hp, c, hc, _⟩ := (hagrees r did id d.toWireDevice).1 ⟨d, hd, rfl⟩
      refine ⟨p, hp, ?_⟩
      unfold Hosts seat
      rw [hc]
      rfl
    · intro h
      obtain ⟨p, hp, hhosts⟩ := h
      obtain ⟨c, hc⟩ := hrow hhosts
      obtain ⟨d, hd, _⟩ := (hagrees r did id c.toWireDevice).2 ⟨p, hp, c, hc, rfl⟩
      exact ⟨d, hd⟩
  · rw [hempty] at hmsg
    cases hmsg
  · obtain ⟨c, hc⟩ := hrow hp
    obtain ⟨d, hd, hw⟩ := (hagrees r did id c.toWireDevice).2 ⟨p, hpr, c, hc, rfl⟩
    rw [hempty]
    show ((N.hubs r).remotes (did, id)).map _ = (((N.hubs p).localMap did).get id).map _
    unfold remotes
    rw [hd, hc, Option.map_some, Option.map_some, hw]

/-- Device "B" plays on instance 0, device "A" is connected to instance 1. -/
def shared : List (NetEvent (Fin 2)) :=
  [.event 0 ⟨0, .frame 0 (.hello (some (sampleDevice "B" true)))⟩ (fun _ h => by cases h),
   .event 0 ⟨0, .verified 0 0 "did:a"⟩ (fun _ h => by cases h),
   .event 1 ⟨1, .frame 0 (.hello (some (sampleDevice "A" false)))⟩ (fun _ h => by cases h),
   .event 1 ⟨1, .verified 0 0 "did:a"⟩ (fun _ h => by cases h)] ++
    deliverAll 2 [(0, 0), (0, 1), (1, 1), (1, 0)]

def stops : List (NetEvent (Fin 2)) :=
  .event 0 ⟨3, .frame 0 (.state (sampleDevice "B" false).state)⟩ (fun _ h => by cases h) ::
    deliverAll 4 [(0, 0), (0, 1)]

theorem shared_announced : Announced "did:a" (run step init shared) := by
  have hN : NetInv (run step init shared) := by
    refine run_invariant netInv_step netInv_init (?_ : AllSteps step NetGuard init shared)
    simp only [shared, deliverAll, List.cons_append, List.nil_append, List.map_cons, List.map_nil,
      AllSteps]
    refine ⟨⟨trivial, trivial⟩, ⟨trivial, fun hnone => by cases hnone⟩, ⟨trivial, trivial⟩,
      ⟨trivial, fun hnone => by cases hnone⟩, fun _ _ hne => (hne rfl).elim, ?_,
      fun _ _ hne => (hne rfl).elim, ?_, trivial⟩
    · intro msg hmsg _ c hc d hd
      cases hmsg
      cases hc
      cases hd
    · intro msg hmsg _ c hc d hd
      cases hmsg
      cases hc
      cases hd
  have hlen : ∀ p r, ((run step init shared).chan p r).length = 0 := by decide +kernel
  have hopen : ∀ p, ∀ c ∈ (((run step init shared).hubs p).localMap "did:a").rows,
      (((run step init shared).hubs p).socks c.ws).readyState = .open := by decide +kernel
  have hapart : ∀ p q, ∀ c ∈ (((run step init shared).hubs p).localMap "did:a").rows,
      ∀ c' ∈ (((run step init shared).hubs q).localMap "did:a").rows,
        c.deviceId = c'.deviceId → p = q := by decide +kernel
  exact hN.announced (fun p r => List.length_eq_zero_iff.1 (hlen p r)) hopen hapart

/-- "A" is asked to clean up. -/
theorem stopped_cleaned : ∃ o id ws, Owner (run step init shared) "did:a" o id ws ∧
    ∃ es₁ e es₂, stops = es₁ ++ e :: es₂ ∧
      ((run step (run step init shared) es₁).hubs o).sees "did:a" = true ∧
      (∀ fs gs, es₂ = fs ++ gs →
        ((run step (run step init shared) (es₁ ++ e :: fs)).hubs o).sees "did:a" = false) ∧
      (run step (run step init shared) es₁).cleanups e = [(o, ws)] := by
  have hsteps : AllSteps step (StateOrDelivery "did:a") (run step init shared) stops := by
    refine ⟨⟨0, _, helloConn 0 0 0 "did:a" (sampleDevice "B" true), rfl, rfl, rfl, rfl⟩, trivial, trivial,
      trivial⟩
  have hlen : ∀ p r, ((run step (run step init shared) stops).chan p r).length = 0 := by
    decide +kernel
  have hquiet : ∀ p, plays (((run step (run step init shared) stops).hubs p).localMap "did:a") =
      false := by decide +kernel
  refine (cleanup_duty "did:a" shared stops shared_announced hsteps).2
    (fun p r => List.length_eq_zero_iff.1 (hlen p r)) (fun h => ?_)
    ⟨[], stops, rfl, 0, by decide +kernel⟩
  obtain ⟨p, hp⟩ := h
  rw [hquiet p] at hp
  cases hp

end Net

end Atradio.Connect
