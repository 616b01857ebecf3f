import Atradio.Connect.Total

/-! # Presence cleanup

One instance without relay. `lastAnyPlaying` follows the registry (`Tracked`), so an event
that stops an account's playback is noticed. It is answered by a cleanup frame unless the
addressee cannot be reached, or the event is a hello: that one only cleans up after a lone
session (`CleanupGuard`). -/

namespace Atradio.Connect.Hub
open Atradio.Lib

variable {I : Type}

def plays (m : LocalMap protocol) : Bool := m.rows.any fun c => c.state.playing

def cleanups (out : List (Effect protocol I)) : List SockId :=
  out.filterMap fun
    | .sent ws (.presence _ true) => some ws
    | _ => none

def account (h : Hub protocol I) (i : Input protocol I) : Option Did :=
  match i.event with
  | .verified _ _ did => some did
  | .frame ws _ | .close ws => (h.socks ws).conn.map fun c => c.did
  | _ => none

/-- An event about the account `acc` led from `h` to `h'`: if it stopped the playback of an
account that still has devices, one of them was sent the only cleanup frame; and no
cleanup frame went out while a device of `acc` played. -/
structure Cleaned (h h' : Hub protocol I) (acc : Option Did) : Prop where
  once : ∀ did, plays (h.localMap did) = true → plays (h'.localMap did) = false →
    (h'.localMap did).rows ≠ [] → ∃ c ∈ (h'.localMap did).rows, cleanups h'.out = [c.ws]
  silent : cleanups h'.out ≠ [] → ∃ did, acc = some did ∧ plays (h'.localMap did) = false

def Lowest (m : LocalMap protocol) (c : LocalConn protocol) : Prop :=
  c ∈ m.rows ∧ ∀ c' ∈ m.rows, stringLess c'.deviceId c.deviceId = false

def OnlyPlaying (m : LocalMap protocol) (id : String) : Prop :=
  plays m = true ∧ ∀ c ∈ m.rows, c.state.playing = true → c.deviceId = id

/-- When the event stops the only playing device of an account: a hello that does so under
the id of that device finds no other device and its own socket open; for a state frame
or a close, the remaining device with the lowest id has an open socket. -/
def CleanupGuard (h : Hub protocol I) (i : Input protocol I) : Prop :=
  h.crashed = false →
  match i.event with
  | .verified ws hello did =>
    ∀ device, (h.socks ws).verifying.lookup hello = some (some device) →
      device.state.playing = false → OnlyPlaying (h.localMap did) device.id →
      (∀ c ∈ (h.localMap did).rows, c.deviceId = device.id) ∧ (h.socks ws).readyState = .open
  | .frame ws (.state state) =>
    (h.socks ws).readyState ≠ .closed → ∀ conn, (h.socks ws).conn = some conn →
      h.registered conn = true → state.playing = false →
      OnlyPlaying (h.localMap conn.did) conn.deviceId →
      ∀ c, Lowest (h.localMap conn.did) c → (h.socks c.ws).readyState = .open
  | .close ws =>
    (h.socks ws).readyState ≠ .closed → ∀ conn, (h.socks ws).conn = some conn →
      h.registered conn = true → OnlyPlaying (h.localMap conn.did) conn.deviceId →
      ∀ c, Lowest ((h.localMap conn.did).delete conn.deviceId) c →
        c.ws ≠ ws ∧ (h.socks c.ws).readyState = .open
  | _ => True

/-- The registry alone decides: no remote devices, and `lastAnyPlaying` is up to date. -/
structure Tracked (h : Hub protocol I) : Prop where
  remote : ∀ did, h.remoteMap did = Table.empty
  last : ∀ did, h.lastPlaying did = plays (h.localMap did)

/-! ### The roster -/

theorem plays_eq_false (m : LocalMap protocol) :
    plays m = false ↔ ∀ c ∈ m.rows, c.state.playing = false := by
  simp [plays]

theorem plays_eq_true (m : LocalMap protocol) :
    plays m = true ↔ ∃ c ∈ m.rows, c.state.playing = true := by
  simp [plays]

theorem roster_rows {h : Hub protocol I} {did : Did} (hr : h.remoteMap did = Table.empty) :
    h.roster did = ((h.localMap did).rows.map fun c => c.toWireDevice).insertionSort
      fun a b => a.connectedAt ≤ b.connectedAt := by
  have hnodup := (h.localMap did).nodup
  have hput := Table.rows_foldl_put (fun c : LocalConn protocol => c.toWireDevice)
    (h.localMap did).rows (Table.empty : Table fun d : WireDevice protocol => d.deviceId) hnodup
    fun _ _ u hu => by cases hu
  unfold roster
  rw [hr]
  show (Table.rows _).insertionSort _ = _
  rw [Table.rows_empty, List.foldl_nil, hput]
  rfl

theorem mem_roster_iff {h : Hub protocol I} {did : Did} (hr : h.remoteMap did = Table.empty)
    (d : WireDevice protocol) :
    d ∈ h.roster did ↔ ∃ c ∈ (h.localMap did).rows, c.toWireDevice = d := by
  rw [roster_rows hr, List.mem_insertionSort, List.mem_map]

theorem somePlaying_eq (ds : List (WireDevice protocol)) :
    somePlaying ds = some (ds.any fun d => d.state.playing) := by
  induction ds with
  | nil => rfl
  | cons d ds ih =>
    have hd : protocol.playing d.state = some d.state.playing := rfl
    unfold somePlaying
    rw [hd, ih, List.any_cons]
    cases d.state.playing <;> rfl

theorem anyPlaying_eq {h : Hub protocol I} {did : Did} (hr : h.remoteMap did = Table.empty) :
    h.anyPlaying did = some (plays (h.localMap did)) := by
  unfold anyPlaying
  rw [somePlaying_eq, Option.some.injEq, Bool.eq_iff_iff, List.any_eq_true, plays_eq_true]
  constructor
  · intro hd
    obtain ⟨d, hd, hp⟩ := hd
    obtain ⟨c, hc, rfl⟩ := (mem_roster_iff hr d).1 hd
    exact ⟨c, hc, hp⟩
  · intro hc
    obtain ⟨c, hc, hp⟩ := hc
    exact ⟨c.toWireDevice, (mem_roster_iff hr _).2 ⟨c, hc, rfl⟩, hp⟩

theorem lowest_least (a : WireDevice protocol) (ds : List (WireDevice protocol))
    {d : WireDevice protocol} (h : lowest a ds = some d) :
    ∀ x ∈ a :: ds, stringLess x.deviceId d.deviceId = false := by
  induction ds generalizing a with
  | nil =>
    obtain rfl := Option.some.inj h
    intro x hx
    rw [List.mem_singleton.1 hx]
    exact stringLess_irrefl _
  | cons b ds ih =>
    have hless : protocol.less a.deviceId b.deviceId = some (stringLess a.deviceId b.deviceId) :=
      rfl
    unfold lowest at h
    rw [hless] at h
    intro x hx
    cases hab : stringLess a.deviceId b.deviceId with
    | true =>
      rw [hab] at h
      have hmin := ih a h
      have ha := hmin a (List.mem_cons_self ..)
      rcases List.mem_cons.1 hx with rfl | hx
      · exact ha
      rcases List.mem_cons.1 hx with rfl | hx
      · cases hxd : stringLess x.deviceId d.deviceId with
        | false => rfl
        | true =>
          rw [stringLess_trans hab hxd] at ha
          cases ha
      · exact hmin x (List.mem_cons_of_mem _ hx)
    | false =>
      rw [hab] at h
      have hmin := ih b h
      have hb := hmin b (List.mem_cons_self ..)
      rcases List.mem_cons.1 hx with rfl | hx
      · cases hxd : stringLess x.deviceId d.deviceId with
        | false => rfl
        | true =>
          -- otherwise `b` is below `x`, hence below `d`
          by_cases hxb : x.deviceId = b.deviceId
          · rw [hxb, hb] at hxd
            cases hxd
          · rw [stringLess_trans (stringLess_of_false hab hxb) hxd] at hb
            cases hb
      · exact hmin x hx

theorem Lowest.unique {m : LocalMap protocol} {c c' : LocalConn protocol} (hc : Lowest m c)
    (hc' : Lowest m c') : c = c' := by
  have hid : c.deviceId = c'.deviceId := stringLess_antisymm (hc'.2 c hc.1) (hc.2 c' hc'.1)
  exact Table.eq_of_key hc.1 hc'.1 hid

theorem cleanupOwner_lowest {h : Hub protocol I} {did : Did}
    (hr : h.remoteMap did = Table.empty) (hne : (h.localMap did).rows ≠ []) :
    ∃ c, Lowest (h.localMap did) c ∧ h.cleanupOwner did = some (some c) := by
  unfold cleanupOwner
  cases hros : h.roster did with
  | nil =>
    obtain ⟨c, hc⟩ := List.exists_mem_of_ne_nil _ hne
    have hmem := (mem_roster_iff hr _).2 ⟨c, hc, rfl⟩
    rw [hros] at hmem
    cases hmem
  | cons d ds =>
    obtain ⟨o, ho⟩ := Option.isSome_iff_exists.1
      (lowest_isSome total_protocol d ds trivial fun _ _ => trivial)
    have hleast := lowest_least d ds ho
    rw [← hros] at hleast
    obtain ⟨c, hc, rfl⟩ := (mem_roster_iff hr o).1 (hros ▸ lowest_mem d ds ho)
    refine ⟨c, ⟨hc, fun c' hc' => hleast _ ((mem_roster_iff hr _).2 ⟨c', hc', rfl⟩)⟩, ?_⟩
    dsimp only
    rw [ho, Option.map_some, ((h.localMap did).mem_rows c).1 hc]

/-! ### Cleanup frames -/

theorem cleanups_effect (h : Hub protocol I) (e : Effect protocol I) :
    cleanups (h.effect e).out = cleanups h.out ++ cleanups [e] := by
  simp [effect, cleanups]

theorem send_cleanup (h : Hub protocol I) (ws : SockId) (b : Bool) :
    cleanups (h.send ws (.presence b true)).out =
      cleanups h.out ++ if (h.socks ws).readyState = .open then [ws] else [] := by
  unfold send
  split
  · rw [cleanups_effect]
    rfl
  · rw [List.append_nil]

def CleanupMsg : ServerMsg protocol → Bool
  | .presence _ true => true
  | _ => false

theorem send_cleanups (h : Hub protocol I) (ws : SockId) {msg : ServerMsg protocol}
    (hmsg : CleanupMsg msg = false) : cleanups (h.send ws msg).out = cleanups h.out := by
  have hnil : cleanups [(.sent ws msg : Effect protocol I)] = [] := by
    cases msg with
    | presence now cleanup =>
      cases cleanup with
      | false => rfl
      | true => cases hmsg
    | _ => rfl
  unfold send
  split
  · rw [cleanups_effect, hnil, List.append_nil]
  · rfl

theorem publish_cleanups (h : Hub protocol I) (msg : RelayMsg protocol I) :
    cleanups (h.publish msg).out = cleanups h.out := by
  unfold publish
  split
  · rw [cleanups_effect]
    exact List.append_nil _
  · rfl

theorem sendAll_cleanups (h : Hub protocol I) (msgs : List (SockId × ServerMsg protocol))
    (hmsgs : ∀ m ∈ msgs, CleanupMsg m.2 = false) :
    cleanups (h.sendAll msgs).out = cleanups h.out := by
  unfold sendAll
  induction msgs generalizing h with
  | nil => rfl
  | cons m msgs ih =>
    rw [List.foldl_cons, ih _ fun m' hm' => hmsgs m' (List.mem_cons_of_mem _ hm')]
    exact send_cleanups h m.1 (hmsgs m (List.mem_cons_self ..))

theorem broadcastRoster_cleanups (h : Hub protocol I) (did : Did) :
    cleanups (h.broadcastRoster did).out = cleanups h.out := by
  have hm := sendAll_cleanups (h.makeMaps did) ((h.localMap did).rows.map fun conn =>
    (conn.ws, .devices ((h.roster did).map fun d => toDeviceInfo d conn.deviceId)))
    fun m hm => by
      obtain ⟨c, _, rfl⟩ := List.mem_map.1 hm
      rfl
  rw [makeMaps_out] at hm
  exact hm

theorem sendPresence_cleanups (h : Hub protocol I) (did : Did) (now : Bool) :
    cleanups (h.sendPresence did now).out = cleanups h.out :=
  sendAll_cleanups h _ fun m hm => by
    obtain ⟨c, _, rfl⟩ := List.mem_map.1 hm
    rfl

theorem close_cleanups (h : Hub protocol I) (ws : SockId) (code : ℕ) (reason : String) :
    cleanups (h.close ws code reason).out = cleanups h.out := by
  unfold close
  split
  · rw [cleanups_effect]
    exact List.append_nil _
  · rfl

/-! ### Presence after a change of the registry -/

def addressee (h : Hub protocol I) (did : Did) : List SockId :=
  match h.cleanupOwner did with
  | some (some owner) => if (h.socks owner.ws).readyState = .open then [owner.ws] else []
  | _ => []

/-- Whether a device of the roster plays. -/
def sees (h : Hub protocol I) (did : Did) : Bool := (h.roster did).any fun d => d.state.playing

theorem anyPlaying_sees (h : Hub protocol I) (did : Did) : h.anyPlaying did = some (h.sees did) :=
  somePlaying_eq _

theorem SameRegs.sees {h h' : Hub protocol I} (a : SameRegs h h') (did : Did) :
    h'.sees did = h.sees did := by
  unfold Hub.sees
  rw [a.roster]

/-- The call keeps the registries, brings `lastAnyPlaying` of `did` up to date and sends the
cleanup frames `sent`. -/
structure Tells (h : Hub protocol I) (did : Did) (sent : List SockId)
    (o : Outcome protocol I) : Prop where
  ok : ∃ h', o = .ok h'
  regs : SameRegs h o.hub
  last : ∀ d, o.hub.lastPlaying d = if d = did then h.sees did else h.lastPlaying d
  cleanups : cleanups o.hub.out = Hub.cleanups h.out ++ sent

theorem SameView.tells {h h' : Hub protocol I} (a : SameView h h')
    (hc : Hub.cleanups h'.out = Hub.cleanups h.out) {did : Did} {sent : List SockId}
    {o : Outcome protocol I} (ht : Tells h' did sent o) : Tells h did sent o := by
  refine ⟨ht.ok, a.toSameRegs.trans ht.regs, fun d => ?_, hc ▸ ht.cleanups⟩
  rw [ht.last, a.toSameRegs.sees, a.lastPlaying]

theorem SameRegs.addressee {h h' : Hub protocol I} (a : SameRegs h h') (did : Did) :
    h'.addressee did = h.addressee did := by
  unfold Hub.addressee cleanupOwner
  rw [a.roster, a.localMap, a.socks]

/-- What `reconcilePresence` asks for: the cleanup where playback has stopped. -/
def asked (h : Hub protocol I) (did : Did) : List SockId :=
  if h.lastPlaying did && !h.sees did then h.addressee did else []

theorem SameView.asked {h h' : Hub protocol I} (a : SameView h h') (did : Did) :
    h'.asked did = h.asked did := by
  unfold Hub.asked
  rw [a.lastPlaying, a.toSameRegs.sees, a.toSameRegs.addressee]

theorem reconcile_tells (h : Hub protocol I) (did : Did) :
    Tells h did (h.asked did) (h.reconcilePresence did) := by
  have hm := makeMaps_view h did
  have hs := hm.toSameRegs.trans (setLastPlaying_regs (h.makeMaps did) did (h.sees did))
  have hany : (h.makeMaps did).anyPlaying did = some (h.sees did) := by
    rw [hm.toSameRegs.anyPlaying, anyPlaying_sees]
  have hlast : ∀ d, ((h.makeMaps did).setLastPlaying did (h.sees did)).lastPlaying d =
      if d = did then h.sees did else h.lastPlaying d := by
    intro d
    rw [setLastPlaying_lastPlaying, hm.lastPlaying]
  have hout : ((h.makeMaps did).setLastPlaying did (h.sees did)).out = h.out :=
    makeMaps_out h did
  have haddr := hs.addressee did
  unfold reconcilePresence asked
  dsimp only
  rw [hany, hm.lastPlaying]
  dsimp only
  generalize (h.makeMaps did).setLastPlaying did (h.sees did) = g at *
  -- every branch ends with the presence frames
  have hrep : ∀ (g' : Hub protocol I) (sent : List SockId), SameView g g' →
      Hub.cleanups g'.out = Hub.cleanups h.out ++ sent →
      Tells h did sent (.ok (g'.sendPresence did (h.sees did))) := by
    intro g' sent hv hc
    have hp := hv.trans (sendPresence_view g' did (h.sees did))
    refine ⟨⟨_, rfl⟩, hs.trans hp.toSameRegs, fun d => (hp.lastPlaying d).trans (hlast d), ?_⟩
    exact (sendPresence_cleanups g' did _).trans hc
  split
  · rename_i hcond
    rw [← haddr]
    unfold addressee
    obtain ⟨owner, howner⟩ := (sound_protocol g).cleanupOwner total_protocol did
    rw [howner]
    cases owner with
    | none => exact hrep g [] (.refl g) (by rw [hout, List.append_nil])
    | some owner => exact hrep _ _ (send_view _ _ _) (by rw [send_cleanup, hout])
  · exact hrep g [] (.refl g) (by rw [hout, List.append_nil])

theorem broadcast_tells (h : Hub protocol I) (did : Did) :
    Tells h did (h.asked did) ((h.broadcastRoster did).reconcilePresence did) := by
  have hv := broadcastRoster_view h did
  have ht := reconcile_tells (h.broadcastRoster did) did
  rw [hv.asked] at ht
  exact hv.tells (broadcastRoster_cleanups h did) ht

/-- The same where no device is connected elsewhere. -/
structure Reports (h : Hub protocol I) (did : Did) (sent : List SockId)
    (o : Outcome protocol I) : Prop where
  ok : ∃ h', o = .ok h'
  regs : SameRegs h o.hub
  last : ∀ d, o.hub.lastPlaying d = if d = did then plays (h.localMap did) else h.lastPlaying d
  cleanups : cleanups o.hub.out = Hub.cleanups h.out ++ sent

theorem SameView.reports {h h' : Hub protocol I} (a : SameView h h')
    (hc : Hub.cleanups h'.out = Hub.cleanups h.out) {did : Did} {sent : List SockId}
    {o : Outcome protocol I} (hr : Reports h' did sent o) : Reports h did sent o := by
  refine ⟨hr.ok, a.toSameRegs.trans hr.regs, fun d => ?_, hc ▸ hr.cleanups⟩
  rw [hr.last, a.localMap, a.lastPlaying]

theorem broadcast_reports {h : Hub protocol I} {did : Did}
    (hr : h.remoteMap did = Table.empty) :
    Reports h did (if h.lastPlaying did && !plays (h.localMap did) then h.addressee did else [])
      ((h.broadcastRoster did).reconcilePresence did) := by
  have hsees : h.sees did = plays (h.localMap did) :=
    Option.some.inj ((h.anyPlaying_sees did).symm.trans (anyPlaying_eq hr))
  have ht := broadcast_tells h did
  unfold asked at ht
  rw [hsees] at ht
  exact ⟨ht.ok, ht.regs, fun d => hsees ▸ ht.last d, ht.cleanups⟩

theorem publish_reports {h : Hub protocol I} {did : Did} (msg : RelayMsg protocol I)
    (hr : h.remoteMap did = Table.empty) :
    Reports h did (if h.lastPlaying did && !plays (h.localMap did) then h.addressee did else [])
      (((h.publish msg).broadcastRoster did).reconcilePresence did) := by
  have hv := publish_view h msg
  have hrep := broadcast_reports ((hv.remoteMap did).trans hr)
  rw [hv.lastPlaying, hv.localMap, hv.toSameRegs.addressee] at hrep
  exact hv.reports (publish_cleanups h msg) hrep

theorem addressee_iff {h : Hub protocol I} {did : Did} (hr : h.remoteMap did = Table.empty)
    (hne : (h.localMap did).rows ≠ []) :
    (∃ c ∈ (h.localMap did).rows, h.addressee did = [c.ws]) ↔
      ∀ c, Lowest (h.localMap did) c → (h.socks c.ws).readyState = .open := by
  obtain ⟨o, ho, howner⟩ := cleanupOwner_lowest hr hne
  unfold addressee
  rw [howner]
  dsimp only
  constructor
  · intro hex c hc
    obtain ⟨c', _, hsent⟩ := hex
    rw [hc.unique ho]
    by_cases hopen : (h.socks o.ws).readyState = .open
    · exact hopen
    · rw [if_neg hopen] at hsent
      cases hsent
  · intro hall
    exact ⟨o, ho.1, if_pos (hall o ho)⟩

/-! ### What an event does -/

structure Quiet (h h' : Hub protocol I) : Prop where
  plays : ∀ d, Hub.plays (h'.localMap d) = Hub.plays (h.localMap d)
  remote : (∀ d, h.remoteMap d = Table.empty) → ∀ d, h'.remoteMap d = Table.empty
  last : ∀ d, h'.lastPlaying d = h.lastPlaying d
  cleanups : Hub.cleanups h'.out = Hub.cleanups h.out

theorem Quiet.refl (h : Hub protocol I) : Quiet h h := ⟨fun _ => rfl, id, fun _ => rfl, rfl⟩

theorem Quiet.trans {h h' h'' : Hub protocol I} (a : Quiet h h') (b : Quiet h' h'') :
    Quiet h h'' :=
  ⟨fun d => (b.plays d).trans (a.plays d), fun hr => b.remote (a.remote hr),
    fun d => (b.last d).trans (a.last d), b.cleanups.trans a.cleanups⟩

theorem SameView.quiet {h h' : Hub protocol I} (a : SameView h h')
    (hc : Hub.cleanups h'.out = Hub.cleanups h.out) : Quiet h h' := by
  refine ⟨fun d => ?_, fun hr d => ?_, a.lastPlaying, hc⟩
  · rw [a.localMap]
  · rw [a.remoteMap, hr]

theorem Quiet.tracked {h h' : Hub protocol I} (a : Quiet h h') (ht : Tracked h) : Tracked h' := by
  refine ⟨a.remote ht.remote, fun d => ?_⟩
  rw [a.last, ht.last, a.plays]

theorem Quiet.cleaned {h h' : Hub protocol I} (a : Quiet h h') (hout : h.out = [])
    (acc : Option Did) : Cleaned h h' acc := by
  have hnil : Hub.cleanups h'.out = [] := by
    rw [a.cleanups, hout]
    rfl
  refine ⟨fun d hp hn _ => ?_, fun hne => (hne hnil).elim⟩
  rw [a.plays, hp] at hn
  cases hn

/-- An event that gives the account `did` the devices `m`. -/
theorem cleaned_iff {h h' : Hub protocol I} {did : Did} {m : LocalMap protocol}
    {sent : List SockId} (hmaps : ∀ d, h'.localMap d = if d = did then m else h.localMap d)
    (hsent : cleanups h'.out = sent) (hsilent : sent ≠ [] → plays m = false) :
    Cleaned h h' (some did) ↔ (plays (h.localMap did) = true → plays m = false → m.rows ≠ [] →
      ∃ c ∈ m.rows, sent = [c.ws]) := by
  have hm : h'.localMap did = m := by rw [hmaps, if_pos rfl]
  constructor
  · intro hc hp hn hne
    have h1 := hc.once did hp
    rw [hm, hsent] at h1
    exact h1 hn hne
  · intro hc
    refine ⟨fun d hp hn hne => ?_, fun hne => ⟨did, rfl, ?_⟩⟩
    · by_cases hd : d = did
      · subst hd
        rw [hm] at hn hne ⊢
        rw [hsent]
        exact hc hp hn hne
      · rw [hmaps, if_neg hd, hp] at hn
        cases hn
    · rw [hm]
      exact hsilent (hsent ▸ hne)

theorem tracked_of_change {h h' : Hub protocol I} {did : Did} {m : LocalMap protocol}
    (ht : Tracked h) (hmaps : ∀ d, h'.localMap d = if d = did then m else h.localMap d)
    (hremote : ∀ d, h'.remoteMap d = h.remoteMap d)
    (hlast : ∀ d, h'.lastPlaying d = if d = did then plays m else h.lastPlaying d) :
    Tracked h' := by
  refine ⟨fun d => (hremote d).trans (ht.remote d), fun d => ?_⟩
  rw [hlast, hmaps]
  split
  · rfl
  · exact ht.last d

/-- A handler that gave `did` the devices `m` and reconciled: it is exact if and only if
the owner can be reached, in case the playback stopped. -/
theorem reports_cleaned_iff {h g : Hub protocol I} {did : Did} {m : LocalMap protocol}
    {o : Outcome protocol I} (ht : Tracked h) (hout : h.out = [])
    (hmaps : ∀ d, g.localMap d = if d = did then m else h.localMap d)
    (hremote : ∀ d, g.remoteMap d = h.remoteMap d)
    (hlast : ∀ d, g.lastPlaying d = h.lastPlaying d) (hgout : g.out = h.out)
    (hrep : Reports g did
      (if g.lastPlaying did && !plays (g.localMap did) then g.addressee did else []) o) :
    Tracked o.hub ∧ (Cleaned h o.hub (some did) ↔
      (plays (h.localMap did) = true → plays m = false →
        ∀ c, Lowest m c → (g.socks c.ws).readyState = .open)) := by
  have hm : g.localMap did = m := by rw [hmaps, if_pos rfl]
  have hmaps' : ∀ d, o.hub.localMap d = if d = did then m else h.localMap d := fun d =>
    (hrep.regs.localMap d).trans (hmaps d)
  have hsent : cleanups o.hub.out =
      if plays (h.localMap did) && !plays m then g.addressee did else [] := by
    rw [hrep.cleanups, hgout, hout, hm, hlast, ht.last]
    rfl
  refine ⟨tracked_of_change ht hmaps' (fun d => (hrep.regs.remoteMap d).trans (hremote d))
    fun d => ?_, ?_⟩
  · rw [hrep.last, hm, hlast]
  rw [cleaned_iff hmaps' hsent fun hne => by
    cases hp : plays m with
    | false => rfl
    | true =>
      rw [hp, Bool.not_true, Bool.and_false] at hne
      exact (hne rfl).elim]
  refine forall_congr' fun hp => forall_congr' fun hn => ?_
  rw [hp, hn]
  have haddr := addressee_iff ((hremote did).trans (ht.remote did))
  rw [hm] at haddr
  constructor
  · intro hc c hlow
    have hne : m.rows ≠ [] := List.ne_nil_of_mem hlow.1
    exact (haddr hne).1 (hc hne) c hlow
  · intro hall hne
    exact (haddr hne).2 hall

/-! ### State frames -/

theorem plays_put (m : LocalMap protocol) (x : LocalConn protocol) :
    plays (m.put x) = false ↔
      x.state.playing = false ∧ ∀ c ∈ m.rows, c.state.playing = true → c.deviceId = x.deviceId := by
  rw [plays_eq_false]
  constructor
  · intro h
    refine ⟨h x ((m.mem_put x x).2 (Or.inl rfl)), fun c hc hp => ?_⟩
    by_cases hid : c.deviceId = x.deviceId
    · exact hid
    · rw [h c ((m.mem_put x c).2 (Or.inr ⟨hc, hid⟩))] at hp
      cases hp
  · intro h c hc
    rcases (m.mem_put x c).1 hc with rfl | hc
    · exact h.1
    · cases hp : c.state.playing with
      | false => rfl
      | true => exact (hc.2 (h.2 c hc.1 hp)).elim

theorem plays_delete (m : LocalMap protocol) (id : String) :
    plays (m.delete id) = false ↔ ∀ c ∈ m.rows, c.state.playing = true → c.deviceId = id := by
  rw [plays_eq_false]
  constructor
  · intro h c hc hp
    by_cases hid : c.deviceId = id
    · exact hid
    · rw [h c ((m.mem_delete id c).2 ⟨hc, hid⟩)] at hp
      cases hp
  · intro h c hc
    have hc := (m.mem_delete id c).1 hc
    cases hp : c.state.playing with
    | false => rfl
    | true => exact (hc.2 (h c hc.1 hp)).elim

theorem lowest_put {m : LocalMap protocol} {e x : LocalConn protocol}
    (he : m.get x.deviceId = some e) (hws : e.ws = x.ws) {c : LocalConn protocol}
    (hc : Lowest m c) : ∃ c', Lowest (m.put x) c' ∧ c'.ws = c.ws := by
  have hmem := (m.get_eq_some _ _).1 he
  have hids : ∀ u ∈ (m.put x).rows, ∃ v ∈ m.rows, v.deviceId = u.deviceId := by
    intro u hu
    rcases (m.mem_put x u).1 hu with rfl | hu
    · exact ⟨e, hmem⟩
    · exact ⟨u, hu.1, rfl⟩
  have hmin : ∀ u ∈ (m.put x).rows, stringLess u.deviceId c.deviceId = false := by
    intro u hu
    obtain ⟨v, hv, hvu⟩ := hids u hu
    rw [← hvu]
    exact hc.2 v hv
  by_cases hid : c.deviceId = x.deviceId
  · have hmem := (m.get_eq_some x.deviceId e).1 he
    have hce : e = c := Table.eq_of_key hmem.1 hc.1 (hmem.2.trans hid.symm)
    refine ⟨x, ⟨(m.mem_put x x).2 (Or.inl rfl), hid ▸ hmin⟩, ?_⟩
    rw [← hce, hws]
  · exact ⟨c, ⟨(m.mem_put x c).2 (Or.inr ⟨hc.1, hid⟩), hmin⟩, rfl⟩

theorem lowest_of_put {m : LocalMap protocol} {e x : LocalConn protocol}
    (he : m.get x.deviceId = some e) (hws : e.ws = x.ws) {c' : LocalConn protocol}
    (hc' : Lowest (m.put x) c') : ∃ c, Lowest m c ∧ c.ws = c'.ws := by
  have hmem := (m.get_eq_some _ _).1 he
  have hmin : ∀ u ∈ m.rows, stringLess u.deviceId c'.deviceId = false := by
    intro u hu
    by_cases hid : u.deviceId = x.deviceId
    · rw [hid]
      exact hc'.2 x ((m.mem_put x x).2 (Or.inl rfl))
    · exact hc'.2 u ((m.mem_put x u).2 (Or.inr ⟨hu, hid⟩))
  rcases (m.mem_put x c').1 hc'.1 with rfl | hold
  · exact ⟨e, ⟨hmem.1, hmem.2 ▸ hmin⟩, hws⟩
  · exact ⟨c', ⟨hold.1, hmin⟩, rfl⟩

/-- The state of a connection that is not registered changes nothing. -/
theorem unregistered_quiet {h : Hub protocol I} (ht : Tracked h) {conn : LocalConn protocol}
    (hreg : h.registered conn = false) (state : PlaybackState) :
    (∃ h', h.handleState conn state = .ok h') ∧ Quiet h (h.handleState conn state).hub := by
  obtain ⟨hloc, hrem, hlast, hsout⟩ := storeClosure_rest h { conn with state := state }
  have hstore := @store_unregistered protocol I h { conn with state := state } hreg
  unfold handleState
  dsimp only
  rw [hstore]
  generalize h.storeClosure { conn with state := state } = g at *
  have hmap : ∀ d, g.localMap d = h.localMap d := fun d => by unfold localMap; rw [hloc]
  have hrm : ∀ d, g.remoteMap d = h.remoteMap d := fun d => by unfold remoteMap; rw [hrem]
  have hlp : ∀ d, g.lastPlaying d = h.lastPlaying d := fun d => by
    unfold lastPlaying
    rw [hlast]
  have hrep := publish_reports (.update g.instanceId { conn with state := state }.toWireDevice)
    ((hrm conn.did).trans (ht.remote conn.did))
  -- the account plays exactly if it did, so no frame is due
  have hcond : (g.lastPlaying conn.did && !plays (g.localMap conn.did)) = false := by
    rw [hlp, ht.last, hmap]
    cases plays (h.localMap conn.did) <;> rfl
  rw [hcond] at hrep
  refine ⟨hrep.ok, fun d => ?_, fun hr d => ?_, fun d => ?_, ?_⟩
  · rw [hrep.regs.localMap, hmap]
  · rw [hrep.regs.remoteMap, hrm, hr]
  · rw [hrep.last, hmap, hlp]
    split
    · rename_i hd
      rw [hd, ht.last]
    · rfl
  · rw [hrep.cleanups, hsout]
    exact List.append_nil _

theorem state_cleaned_iff {h : Hub protocol I} (ht : Tracked h) (hout : h.out = [])
    (conn : LocalConn protocol) (state : PlaybackState) :
    (∃ h', h.handleState conn state = .ok h') ∧ Tracked (h.handleState conn state).hub ∧
      (Cleaned h (h.handleState conn state).hub (some conn.did) ↔
        (h.registered conn = true → state.playing = false →
          OnlyPlaying (h.localMap conn.did) conn.deviceId →
          ∀ c, Lowest (h.localMap conn.did) c → (h.socks c.ws).readyState = .open)) := by
  obtain ⟨hloc, hrem, hlast, hsout⟩ := storeClosure_rest h { conn with state := state }
  have hsocks := storeClosure_socks h { conn with state := state }
  cases hreg : h.registered conn with
  | false =>
    obtain ⟨hok, hq⟩ := unregistered_quiet ht hreg state
    exact ⟨hok, hq.tracked ht, iff_of_true (hq.cleaned hout _) fun hf => by cases hf⟩
  | true =>
    unfold registered at hreg
    cases he : (h.localMap conn.did).get conn.deviceId with
    | none =>
      rw [he] at hreg
      cases hreg
    | some e =>
      rw [he] at hreg
      have hws : e.ws = conn.ws := (LocalConn.same_ws hreg)
      have hstore := @store_registered protocol I h { conn with state := state } e he hreg
      unfold handleState
      dsimp only at hstore hsocks ⊢
      generalize hx : ({ conn with state := state, alive := e.alive } : LocalConn protocol) = x
        at hstore
      have hxid : x.deviceId = conn.deviceId := by rw [← hx]
      have hxws : x.ws = conn.ws := by rw [← hx]
      have hxst : x.state = state := by rw [← hx]
      rw [hstore]
      generalize h.storeClosure { conn with state := state } = g at *
      have hmaps : ∀ d, (g.setLocalMap conn.did ((h.localMap conn.did).put x)).localMap d =
          if d = conn.did then (h.localMap conn.did).put x else h.localMap d := by
        intro d
        rw [setLocalMap_localMap]
        unfold localMap
        rw [hloc]
      have hrm : ∀ d, (g.setLocalMap conn.did ((h.localMap conn.did).put x)).remoteMap d =
          h.remoteMap d := fun d => by
        show (JsMap.find g.remoteReg d).getD _ = _
        rw [hrem]
        rfl
      have hlp : ∀ d, (g.setLocalMap conn.did ((h.localMap conn.did).put x)).lastPlaying d =
          h.lastPlaying d := fun d => by
        show (JsMap.find g.lastAnyPlaying d).getD _ = _
        rw [hlast]
        rfl
      have hrep := publish_reports
        (.update (g.setLocalMap conn.did ((h.localMap conn.did).put x)).instanceId
          { conn with state := state }.toWireDevice) ((hrm conn.did).trans (ht.remote conn.did))
      obtain ⟨htr, hiff⟩ := reports_cleaned_iff ht hout hmaps hrm hlp hsout hrep
      refine ⟨hrep.ok, htr, hiff.trans ?_⟩
      rw [plays_put, hxst, hxid]
      have heget : (h.localMap conn.did).get x.deviceId = some e := hxid ▸ he
      have hews : e.ws = x.ws := hws.trans hxws.symm
      constructor
      · intro hall _ hst honly c hc
        obtain ⟨c', hc', hcw⟩ := lowest_put heget hews hc
        have hopen := hall honly.1 ⟨hst, honly.2⟩ c' hc'
        rw [← hcw, ← hsocks]
        exact hopen
      · intro hall hp hn c' hc'
        obtain ⟨c, hc, hcw⟩ := lowest_of_put heget hews hc'
        have hopen := hall rfl hn.1 ⟨hp, hn.2⟩ c hc
        rw [← hsocks, hcw] at hopen
        exact hopen

/-! ### Close events -/

theorem close_cleaned_iff {h : Hub protocol I} (ht : Tracked h) (hout : h.out = []) {ws : SockId}
    {conn : LocalConn protocol} (hconn : (h.socks ws).conn = some conn) :
    (∃ h', h.onClose ws = .ok h') ∧ Tracked (h.onClose ws).hub ∧
      (Cleaned h (h.onClose ws).hub (some conn.did) ↔
        (h.registered conn = true → OnlyPlaying (h.localMap conn.did) conn.deviceId →
          ∀ c, Lowest ((h.localMap conn.did).delete conn.deviceId) c →
            c.ws ≠ ws ∧ (h.socks c.ws).readyState = .open)) := by
  have hsock : ∀ ws', (((h.setSock ws
      { h.socks ws with readyState := .closed, helloTimer := false }).socks ws').readyState = .open ↔
        ws' ≠ ws ∧ (h.socks ws').readyState = .open) := by
    intro ws'
    by_cases hw : ws' = ws
    · simp [setSock, hw]
    · simp [setSock, hw]
  have hreg : (h.setSock ws { h.socks ws with readyState := .closed, helloTimer := false }).registered
      conn = h.registered conn := rfl
  rw [onClose_conn hconn]
  have hq : Quiet h (h.setSock ws
      { h.socks ws with readyState := .closed, helloTimer := false }) :=
    ⟨fun _ => rfl, id, fun _ => rfl, rfl⟩
  unfold removeConn
  rw [hreg]
  cases h.registered conn with
  | false =>
    exact ⟨⟨_, rfl⟩, hq.tracked ht, iff_of_true (hq.cleaned hout _) fun hf => by cases hf⟩
  | true =>
    rw [if_neg (by decide)]
    have hmaps : ∀ d, ((h.setSock ws
        { h.socks ws with readyState := .closed, helloTimer := false }).deleteLocal conn.did
          conn.deviceId).localMap d =
        if d = conn.did then (h.localMap conn.did).delete conn.deviceId else h.localMap d :=
      fun d => deleteLocal_localMap _ conn.did d conn.deviceId
    obtain ⟨hsocks, hrm, hlp, hdout⟩ := deleteLocal_rest (h.setSock ws
      { h.socks ws with readyState := .closed, helloTimer := false }) conn.did conn.deviceId
    have hrm' := fun d => (hrm d).trans (show _ = h.remoteMap d from rfl)
    have hlp' := fun d => (hlp d).trans (show _ = h.lastPlaying d from rfl)
    generalize (h.setSock ws
      { h.socks ws with readyState := .closed, helloTimer := false }).deleteLocal conn.did
        conn.deviceId = g at *
    have hrep := publish_reports (.leave g.instanceId conn.did conn.deviceId)
      ((hrm' conn.did).trans (ht.remote conn.did))
    obtain ⟨htr, hiff⟩ := reports_cleaned_iff ht hout hmaps hrm' hlp' hdout hrep
    refine ⟨hrep.ok, htr, hiff.trans ?_⟩
    rw [plays_delete]
    constructor
    · intro hall _ honly c hc
      have hopen := hall honly.1 honly.2 c hc
      rw [hsocks] at hopen
      exact (hsock c.ws).1 hopen
    · intro hall hp hn c hc
      rw [hsocks]
      exact (hsock c.ws).2 (hall rfl ⟨hp, hn⟩ c hc)

/-! ### Hellos -/

theorem greet_reports {h : Hub protocol I} {conn : LocalConn protocol} (wasEmpty : Bool)
    (hr : h.remoteMap conn.did = Table.empty) :
    Reports h conn.did
      (if wasEmpty && (!conn.state.playing && !plays (h.localMap conn.did)) then
        (if (h.socks conn.ws).readyState = .open then [conn.ws] else []) else [])
      (h.greet conn wasEmpty) := by
  have hs := (setLastPlaying_regs h conn.did (plays (h.localMap conn.did))).trans
    (send_view _ conn.ws (.presence (plays (h.localMap conn.did)) false)).toSameRegs
  have hlast : ∀ d, ((h.setLastPlaying conn.did (plays (h.localMap conn.did))).send conn.ws
      (.presence (plays (h.localMap conn.did)) false)).lastPlaying d =
      if d = conn.did then plays (h.localMap conn.did) else h.lastPlaying d := by
    intro d
    rw [(send_view _ _ _).lastPlaying, setLastPlaying_lastPlaying]
  have hsilent : CleanupMsg (.presence (plays (h.localMap conn.did)) false) = false := rfl
  have hout := send_cleanups (h.setLastPlaying conn.did (plays (h.localMap conn.did))) conn.ws
    hsilent
  unfold greet
  rw [anyPlaying_eq hr]
  dsimp only
  generalize (h.setLastPlaying conn.did (plays (h.localMap conn.did))).send conn.ws
    (.presence (plays (h.localMap conn.did)) false) = g at *
  have hquiet : Reports h conn.did [] (.ok g) :=
    ⟨⟨g, rfl⟩, hs, hlast, hout.trans (List.append_nil _).symm⟩
  cases wasEmpty with
  | false => exact hquiet
  | true =>
    rw [if_pos rfl, Bool.true_and]
    split
    · have hv := send_view g conn.ws (.presence false true)
      refine ⟨⟨_, rfl⟩, hs.trans hv.toSameRegs, fun d => (hv.lastPlaying d).trans (hlast d), ?_⟩
      show cleanups (g.send conn.ws (.presence false true)).out = _
      rw [send_cleanup, hout, hs.socks]
      rfl
    · exact hquiet

/-- The registry of a hello, and all that it leaves alone. -/
theorem register_rest (h : Hub protocol I) (conn : LocalConn protocol) :
    (∀ d, (h.register conn).remoteMap d = h.remoteMap d) ∧
      (∀ d, (h.register conn).lastPlaying d = h.lastPlaying d) ∧
      cleanups (h.register conn).out = cleanups h.out ∧
      ((h.register conn).socks conn.ws).readyState = (h.socks conn.ws).readyState := by
  have hm := makeLocalMap_view h conn.did
  have hmout : (h.makeLocalMap conn.did).out = h.out := by
    unfold makeLocalMap
    split <;> rfl
  have hp : ∀ g : Hub protocol I, (∀ d, (g.replacePrior conn).remoteMap d = g.remoteMap d) ∧
      (∀ d, (g.replacePrior conn).lastPlaying d = g.lastPlaying d) ∧
      cleanups (g.replacePrior conn).out = cleanups g.out ∧
      ((g.replacePrior conn).socks conn.ws).readyState = (g.socks conn.ws).readyState := by
    intro g
    unfold replacePrior
    split
    · rename_i prior _
      split
      · exact ⟨fun _ => rfl, fun _ => rfl, rfl, rfl⟩
      · rename_i hne
        refine ⟨?_, ?_, close_cleanups g _ _ _, ?_⟩
        · unfold close
          split <;> exact fun _ => rfl
        · unfold close
          split <;> exact fun _ => rfl
        · unfold close
          split
          · simp [effect, setSock, Ne.symm hne]
          · rfl
    · exact ⟨fun _ => rfl, fun _ => rfl, rfl, rfl⟩
  obtain ⟨h1, h2, h3, h4⟩ := hp (h.makeLocalMap conn.did)
  refine ⟨fun d => (h1 d).trans (hm.remoteMap d), fun d => (h2 d).trans (hm.lastPlaying d),
    h3.trans (by rw [hmout]), h4.trans (by rw [hm.socks])⟩

theorem announce_cleanups (h : Hub protocol I) (conn : LocalConn protocol) :
    cleanups (h.announce conn).out = cleanups h.out := by
  unfold announce
  dsimp only
  rw [broadcastRoster_cleanups, publish_cleanups, send_cleanups _ _ rfl, makeMaps_out]

theorem put_length (m : LocalMap protocol) (x : LocalConn protocol) :
    (m.put x).rows.length = 1 ↔ ∀ c ∈ m.rows, c.deviceId = x.deviceId := by
  have hx : x ∈ (m.put x).rows := (m.mem_put x x).2 (Or.inl rfl)
  constructor
  · intro hlen c hc
    obtain ⟨a, ha⟩ := List.length_eq_one_iff.1 hlen
    by_cases hid : c.deviceId = x.deviceId
    · exact hid
    · have hca : c ∈ (m.put x).rows := (m.mem_put x c).2 (Or.inr ⟨hc, hid⟩)
      rw [ha, List.mem_singleton] at hx hca
      rw [hca, hx]
  · intro hall
    have hone : ∀ u ∈ (m.put x).rows, u = x := by
      intro u hu
      rcases (m.mem_put x u).1 hu with h | h
      · exact h
      · exact (h.2 (hall u h.1)).elim
    have hnodup := (m.put x).nodup
    cases hrows : (m.put x).rows with
    | nil =>
      rw [hrows] at hx
      cases hx
    | cons a l =>
      cases l with
      | nil => rfl
      | cons b l =>
        rw [hrows] at hone hnodup
        have hab : a = b := (hone a (by simp)).trans (hone b (by simp)).symm
        subst hab
        simp at hnodup

theorem hello_cleaned_iff {h : Hub protocol I} (ht : Tracked h) (hout : h.out = []) (now : ℕ)
    {ws : SockId} {hello : ℕ} (did : Did) {device : HelloDevice protocol}
    (hv : (h.socks ws).verifying.lookup hello = some (some device)) :
    (∃ h', h.onVerified now ws hello did = .ok h') ∧
      Tracked (h.onVerified now ws hello did).hub ∧
      (Cleaned h (h.onVerified now ws hello did).hub (some did) ↔
        (device.state.playing = false → OnlyPlaying (h.localMap did) device.id →
          (∀ c ∈ (h.localMap did).rows, c.deviceId = device.id) ∧
            (h.socks ws).readyState = .open)) := by
  have haw : ((h.awaited ws hello).socks ws).readyState = (h.socks ws).readyState := by
    simp [awaited, setSock]
  have hid : (helloConn now ws hello did device).deviceId = device.id := rfl
  have hst : (helloConn now ws hello did device).state = device.state := rfl
  have hdid : (helloConn now ws hello did device).did = did := rfl
  have hws : (helloConn now ws hello did device).ws = ws := rfl
  unfold onVerified
  rw [hv]
  dsimp only
  unfold onHelloVerified
  dsimp only [Option.map_some]
  generalize helloConn now ws hello did device = conn at *
  subst hdid
  obtain ⟨hrm, hlp, hcl, hopen⟩ := register_rest (h.awaited ws hello) conn
  have hmaps := register_localMap (h.awaited ws hello) conn
  generalize hg : (h.awaited ws hello).register conn = g at *
  have hm : g.localMap conn.did = (h.localMap conn.did).put conn := by
    rw [hmaps, if_pos rfl]
    rfl
  have hlen : decide ((g.roster conn.did).length = 1) =
      decide (((h.localMap conn.did).put conn).rows.length = 1) := by
    rw [roster_rows ((hrm _).trans (ht.remote _)), List.length_insertionSort, List.length_map, hm]
  rw [hlen]
  have ha := announce_view g conn
  have hrep := @greet_reports I (g.announce conn) conn
    (decide (((h.localMap conn.did).put conn).rows.length = 1))
    ((ha.remoteMap _).trans ((hrm _).trans (ht.remote _)))
  have hrep := ha.reports (announce_cleanups g conn) hrep
  rw [ha.localMap, ha.socks, hm, hst, hopen, hws, haw] at hrep
  obtain ⟨h', ho⟩ := hrep.ok
  rw [ho] at hrep ⊢
  have hmaps' : ∀ d, (h'.helloDone ws (some conn)).localMap d =
      if d = conn.did then (h.localMap conn.did).put conn else h.localMap d := fun d =>
    (hrep.regs.localMap d).trans (hmaps d)
  have hnil : cleanups (h.awaited ws hello).out = [] := by
    show cleanups h.out = []
    rw [hout]
    rfl
  have hsent : cleanups (h'.helloDone ws (some conn)).out = _ := hrep.cleanups
  rw [hcl, hnil, List.nil_append] at hsent
  refine ⟨⟨_, rfl⟩, ?_, ?_⟩
  · refine tracked_of_change ht hmaps' (fun d => (hrep.regs.remoteMap d).trans (hrm d)) fun d => ?_
    rw [← hm]
    exact (hrep.last d).trans (by rw [hlp]; rfl)
  show Cleaned h (h'.helloDone ws (some conn)) (some conn.did) ↔ _
  rw [cleaned_iff hmaps' hsent fun hne => by
    cases hp : plays ((h.localMap conn.did).put conn) with
    | false => rfl
    | true =>
      rw [hp, Bool.not_true, Bool.and_false, Bool.and_false] at hne
      exact (hne rfl).elim]
  rw [plays_put, hid, hst]
  have hx : conn ∈ ((h.localMap conn.did).put conn).rows :=
    ((h.localMap conn.did).mem_put conn conn).2 (Or.inl rfl)
  have hone := put_length (h.localMap conn.did) conn
  rw [hid] at hone
  constructor
  · intro hall hown honly
    obtain ⟨c, _, hc⟩ := hall honly.1 ⟨hown, honly.2⟩ (List.ne_nil_of_mem hx)
    have hp := (plays_put (h.localMap conn.did) conn).2 ⟨hst ▸ hown, hid ▸ honly.2⟩
    rw [hp, hown, Bool.not_false, Bool.and_true, Bool.and_true] at hc
    split at hc
    · rename_i hlen1
      split at hc
      · rename_i hopen1
        exact ⟨hone.1 (of_decide_eq_true hlen1), hopen1⟩
      · cases hc
    · cases hc
  · intro hall hp hn _
    obtain ⟨hids, hopen1⟩ := hall hn.1 ⟨hp, hn.2⟩
    have hnp := (plays_put (h.localMap conn.did) conn).2 ⟨hst ▸ hn.1, hid ▸ hn.2⟩
    refine ⟨conn, hx, ?_⟩
    rw [hnp, hn.1, hopen1, hws, decide_eq_true (hone.2 hids)]
    rfl

/-! ### Every event -/

theorem plays_markAlive (h : Hub protocol I) (conn : LocalConn protocol) (d : Did) :
    plays ((h.markAlive conn).localMap d) = plays (h.localMap d) := by
  unfold markAlive
  cases he : (h.localMap conn.did).get conn.deviceId with
  | none => rfl
  | some e =>
    dsimp only
    split
    · rw [setLocalMap_localMap]
      split
      · rename_i hd
        rw [hd, Bool.eq_iff_iff, plays_eq_true, plays_eq_true]
        have hmem := ((h.localMap conn.did).get_eq_some _ _).1 he
        constructor
        · intro hex
          obtain ⟨c, hc, hp⟩ := hex
          rcases (Table.mem_put _ _ _).1 hc with rfl | hc
          · exact ⟨e, hmem.1, hp⟩
          · exact ⟨c, hc.1, hp⟩
        · intro hex
          obtain ⟨c, hc, hp⟩ := hex
          by_cases hid : c.deviceId = e.deviceId
          · have hce : c = e := Table.eq_of_key hc hmem.1 hid
            exact ⟨_, (Table.mem_put _ _ _).2 (Or.inl rfl), hce ▸ hp⟩
          · exact ⟨c, (Table.mem_put _ _ _).2 (Or.inr ⟨hc, hid⟩), hp⟩
      · rfl
    · rfl

theorem markAlive_quiet (h : Hub protocol I) (conn : LocalConn protocol) :
    Quiet h (h.markAlive conn) := by
  refine ⟨plays_markAlive h conn, ?_, ?_, ?_⟩
  all_goals
    unfold markAlive
    split
    · split
      · first | exact id | exact fun _ => rfl | rfl
      · first | exact id | exact fun _ => rfl | rfl
    · first | exact id | exact fun _ => rfl | rfl

theorem setSock_quiet (h : Hub protocol I) (ws : SockId) (s : Sock protocol) :
    Quiet h (h.setSock ws s) := ⟨fun _ => rfl, id, fun _ => rfl, rfl⟩

theorem close_quiet (h : Hub protocol I) (ws : SockId) (code : ℕ) (reason : String) :
    Quiet h (h.close ws code reason) := by
  unfold close
  split
  · refine (setSock_quiet h ws _).trans ((effect_view _ _).quiet ?_)
    rw [cleanups_effect]
    exact List.append_nil _
  · exact .refl h

theorem terminate_quiet (h : Hub protocol I) (ws : SockId) : Quiet h (h.terminate ws) := by
  unfold terminate
  split
  · exact setSock_quiet h ws _
  · exact .refl h

theorem pingAll_quiet (h : Hub protocol I) : Quiet h h.pingAll := by
  have hterm : ∀ (conns : List (LocalConn protocol)) (g : Hub protocol I),
      Quiet g (g.terminateAll conns) := by
    intro conns
    induction conns with
    | nil => exact .refl
    | cons c conns ih => exact fun g => (terminate_quiet g c.ws).trans (ih _)
  have hclear : ∀ g : Hub protocol I, Quiet g g.clearAlive := by
    intro g
    refine ⟨fun d => ?_, id, fun _ => rfl, rfl⟩
    rw [clearAlive_localMap]
    simp [plays, Table.mapRows, Function.comp_def]
  exact (hterm _ h).trans (hclear _)

theorem sweep_quiet (now fuel pos : ℕ) {h : Hub protocol I}
    (hr : ∀ d, h.remoteMap d = Table.empty) :
    (∃ h', sweepRemote now fuel pos h = .ok h') ∧ Quiet h (sweepRemote now fuel pos h).hub := by
  induction fuel generalizing pos h with
  | zero => exact ⟨⟨h, rfl⟩, .refl h⟩
  | succ fuel ih =>
    unfold sweepRemote
    cases h.remoteReg.rows[pos]? with
    | none => exact ⟨⟨h, rfl⟩, .refl h⟩
    | some e =>
      obtain ⟨did, m⟩ := e
      have hprune : ∃ h1, h.pruneRemote now did = .ok h1 ∧ Quiet h h1 := by
        unfold pruneRemote
        cases hf : JsMap.find h.remoteReg did with
        | none => exact ⟨h, rfl, .refl h⟩
        | some m' =>
          have hm' : m' = Table.empty := by
            have hd := hr did
            unfold remoteMap at hd
            rw [hf] at hd
            exact hd
          subst hm'
          obtain ⟨_, hdout, hdlast⟩ := dropStale_rest h now did Table.empty
          refine ⟨h.dropStale now did Table.empty, if_pos rfl, fun d => ?_, fun _ d => ?_, hdlast, ?_⟩
          · rw [(dropStale_local h now did _).localMap]
          · rw [dropStale_remoteMap]
            split
            · rfl
            · exact hr d
          · rw [hdout]
      obtain ⟨h1, ho, hq⟩ := hprune
      dsimp only
      rw [ho]
      have hrest := @ih (if (fresh now m).size = 0 then pos else pos + 1) h1 (hq.remote hr)
      exact ⟨hrest.1, hq.trans hrest.2⟩

theorem tick_quiet {h : Hub protocol I} (hr : ∀ d, h.remoteMap d = Table.empty) (now : ℕ) :
    Quiet h (h.onTick now).uncaught := by
  have hp := pingAll_quiet h
  have hpub : ∀ (conns : List (LocalConn protocol)) (g : Hub protocol I), Quiet g
      (conns.foldl (fun h c => h.publish (.update h.instanceId c.toWireDevice)) g) := by
    intro conns
    induction conns with
    | nil => exact .refl
    | cons c conns ih =>
      exact fun g => ((publish_view g _).quiet (publish_cleanups g _)).trans (ih _)
  unfold onTick heartbeatRemotePresence
  dsimp only
  have hq := hp.trans (hpub (h.pingAll.localReg.rows.flatMap fun e => e.2.rows) h.pingAll)
  generalize (h.pingAll.localReg.rows.flatMap fun e => e.2.rows).foldl
    (fun h c => h.publish (.update h.instanceId c.toWireDevice)) h.pingAll = g at hq ⊢
  obtain ⟨⟨h', ho⟩, hsw⟩ := sweep_quiet now (2 * g.remoteReg.size) 0 (hq.remote hr)
  rw [ho] at hsw ⊢
  exact hq.trans hsw

theorem deliverCommand_cleanups (h : Hub protocol I) (did : Did) (target src : String)
    (cmd : Command) :
    cleanups (h.deliverCommand did target src cmd).1.out = cleanups h.out := by
  have hm : (h.makeLocalMap did).out = h.out := by
    unfold makeLocalMap
    split <;> rfl
  unfold deliverCommand
  dsimp only
  split
  · rw [hm]
  · rw [send_cleanups _ _ rfl, hm]

theorem handleCommand_quiet (h : Hub protocol I) (conn : LocalConn protocol) (target : String)
    (cmd : Command) : Quiet h (h.handleCommand conn target cmd) := by
  refine (handleCommand_view h conn target cmd).quiet ?_
  have hd := deliverCommand_cleanups h conn.did target conn.deviceId cmd
  unfold handleCommand
  split
  · rfl
  · split
    · rename_i h1 heq
      rw [heq] at hd
      exact hd
    · rename_i h1 heq
      rw [heq] at hd
      rw [publish_cleanups, hd]

theorem onRejected_quiet (h : Hub protocol I) (ws : SockId) (hello : ℕ) (message : String) :
    Quiet h (h.onRejected ws hello message) := by
  unfold onRejected
  split
  · exact .refl h
  · have hsend := (send_view (h.awaited ws hello) ws (.error "AuthFailed" message)).quiet
      (send_cleanups _ _ rfl)
    exact (setSock_quiet h ws _).trans
      (hsend.trans ((close_quiet _ ws 4001 "auth failed").trans (setSock_quiet _ ws _)))

theorem onHelloTimeout_quiet (h : Hub protocol I) (ws : SockId) :
    Quiet h (h.onHelloTimeout ws) := by
  unfold onHelloTimeout
  split
  · dsimp only
    split
    · exact (setSock_quiet h ws _).trans (close_quiet _ ws 4008 "hello timeout")
    · exact setSock_quiet h ws _
  · exact .refl h

/-- An event is exact if nothing changes and its guard asks for nothing. -/
theorem Quiet.iff {h h' : Hub protocol I} (a : Quiet h h') (ht : Tracked h) (hout : h.out = [])
    (acc : Option Did) {guard : Prop} (hg : guard) :
    Tracked h' ∧ (Cleaned h h' acc ↔ guard) :=
  ⟨a.tracked ht, iff_of_true (a.cleaned hout acc) hg⟩

theorem message_cleaned_iff {h : Hub protocol I} (ht : Tracked h) (hout : h.out = [])
    (hc : h.crashed = false) (now : ℕ) (ws : SockId) (msg : Frame protocol)
    (hopen : (h.socks ws).readyState ≠ .closed) :
    Tracked (h.onMessage ws msg).uncaught ∧
      (Cleaned h (h.onMessage ws msg).uncaught (account h ⟨now, .frame ws msg⟩) ↔
        CleanupGuard h ⟨now, .frame ws msg⟩) := by
  unfold onMessage
  cases hconn : (h.socks ws).conn with
  | none =>
    have hguard : CleanupGuard h ⟨now, .frame ws msg⟩ := by
      intro _
      cases msg with
      | state state =>
        intro _ conn hsome
        rw [hconn] at hsome
        cases hsome
      | _ => trivial
    cases msg with
    | hello device => exact (setSock_quiet h ws _).iff ht hout _ hguard
    | _ => exact (Quiet.refl h).iff ht hout _ hguard
  | some conn =>
    have hacc : account h ⟨now, .frame ws msg⟩ = some conn.did := by
      show (h.socks ws).conn.map _ = _
      rw [hconn]
      rfl
    rw [hacc]
    cases msg with
    | state state =>
      obtain ⟨⟨h', ho⟩, htr, hiff⟩ := state_cleaned_iff ht hout conn state
      rw [ho] at htr hiff
      dsimp only
      rw [ho]
      refine ⟨htr, hiff.trans ?_⟩
      constructor
      · intro hall _ _ conn' hsome
        rw [hconn] at hsome
        obtain rfl := Option.some.inj hsome
        exact hall
      · exact fun hall => hall hc hopen conn hconn
    | command target cmd =>
      exact (handleCommand_quiet h conn target cmd).iff ht hout _ fun _ => trivial
    | bye => exact (close_quiet h ws 1000 "bye").iff ht hout _ fun _ => trivial
    | _ => exact (Quiet.refl h).iff ht hout _ fun _ => trivial

theorem Cleaned.clear {h h' : Hub protocol I} {acc : Option Did} :
    Cleaned { h with out := [] } h' acc ↔ Cleaned h h' acc :=
  ⟨fun hc => ⟨hc.once, hc.silent⟩, fun hc => ⟨hc.once, hc.silent⟩⟩

theorem CleanupGuard.clear {h : Hub protocol I} {i : Input protocol I} :
    CleanupGuard { h with out := [] } i ↔ CleanupGuard h i := Iff.rfl

section

variable [DecidableEq I]

theorem verified_cleaned_iff {h : Hub protocol I} (ht : Tracked h) (hout : h.out = [])
    (hc : h.crashed = false) (now : ℕ) (ws : SockId) (hello : ℕ) (did : Did) :
    Tracked (handle h ⟨now, .verified ws hello did⟩) ∧
      (Cleaned h (handle h ⟨now, .verified ws hello did⟩)
        (account h ⟨now, .verified ws hello did⟩) ↔
          CleanupGuard h ⟨now, .verified ws hello did⟩) := by
  simp only [handle]
  cases hv : (h.socks ws).verifying.lookup hello with
  | none =>
    have hguard : CleanupGuard h ⟨now, .verified ws hello did⟩ := by
      intro _ device hsome
      rw [hv] at hsome
      cases hsome
    unfold onVerified
    rw [hv]
    exact (Quiet.refl h).iff ht hout _ hguard
  | some device =>
    cases device with
    | none =>
      have hguard : CleanupGuard h ⟨now, .verified ws hello did⟩ := by
        intro _ device hsome
        rw [hv] at hsome
        cases hsome
      have hq : Quiet h { h.awaited ws hello with crashed := true } :=
        ⟨fun _ => rfl, id, fun _ => rfl, rfl⟩
      unfold onVerified
      rw [hv]
      exact hq.iff ht hout _ hguard
    | some device =>
      obtain ⟨⟨h', ho⟩, htr, hiff⟩ := hello_cleaned_iff ht hout now did hv
      rw [ho] at htr hiff ⊢
      refine ⟨htr, hiff.trans ?_⟩
      constructor
      · intro hall _ device' hsome
        rw [hv] at hsome
        obtain rfl := Option.some.inj (Option.some.inj hsome)
        exact hall
      · exact fun hall => hall hc device hv

theorem closed_cleaned_iff {h : Hub protocol I} (ht : Tracked h) (hout : h.out = [])
    (hc : h.crashed = false) (now : ℕ) (ws : SockId) :
    Tracked (handle h ⟨now, .close ws⟩) ∧
      (Cleaned h (handle h ⟨now, .close ws⟩) (account h ⟨now, .close ws⟩) ↔
        CleanupGuard h ⟨now, .close ws⟩) := by
  simp only [handle]
  split
  · rename_i hclosed
    exact (Quiet.refl h).iff ht hout _ fun _ hne => (hne hclosed).elim
  · rename_i hopen
    cases hconn : (h.socks ws).conn with
    | none =>
      have hguard : CleanupGuard h ⟨now, .close ws⟩ := by
        intro _ _ conn hsome
        rw [hconn] at hsome
        cases hsome
      have hq : Quiet h (h.onClose ws).uncaught := by
        unfold onClose
        dsimp only
        split
        · exact setSock_quiet h ws _
        · rename_i conn hsome
          rw [hconn] at hsome
          cases hsome
      exact hq.iff ht hout _ hguard
    | some conn =>
      have hacc : account h ⟨now, .close ws⟩ = some conn.did := by
        show (h.socks ws).conn.map _ = _
        rw [hconn]
        rfl
      obtain ⟨⟨h', ho⟩, htr, hiff⟩ := close_cleaned_iff ht hout hconn
      rw [ho] at htr hiff ⊢
      rw [hacc]
      refine ⟨htr, hiff.trans ?_⟩
      constructor
      · intro hall _ _ conn' hsome
        rw [hconn] at hsome
        obtain rfl := Option.some.inj hsome
        exact hall
      · exact fun hall => hall hc hopen conn hconn

theorem handle_cleaned_iff {h : Hub protocol I} (ht : Tracked h) (hout : h.out = [])
    (hc : h.crashed = false) (i : Input protocol I) (hlocal : Local i) :
    Tracked (handle h i) ∧ (Cleaned h (handle h i) (account h i) ↔ CleanupGuard h i) := by
  obtain ⟨now, event⟩ := i
  cases event with
  | frame ws msg =>
    simp only [handle]
    split
    · rename_i hclosed
      refine (Quiet.refl h).iff ht hout _ fun _ => ?_
      cases msg with
      | state state => exact fun hne => (hne hclosed).elim
      | _ => trivial
    · rename_i hopen
      exact message_cleaned_iff ht hout hc now ws msg hopen
  | verified ws hello did => exact verified_cleaned_iff ht hout hc now ws hello did
  | rejected ws hello message =>
    exact (onRejected_quiet h ws hello message).iff ht hout _ fun _ => trivial
  | helloTimeout ws => exact (onHelloTimeout_quiet h ws).iff ht hout _ fun _ => trivial
  | pong ws =>
    refine Quiet.iff ?_ ht hout _ fun _ => trivial
    simp only [handle, onPong]
    split
    · exact .refl h
    · exact markAlive_quiet h _
  | closing ws => exact (terminate_quiet h ws).iff ht hout _ fun _ => trivial
  | close ws => exact closed_cleaned_iff ht hout hc now ws
  | tick => exact (tick_quiet ht.remote now).iff ht hout _ fun _ => trivial
  | relay msg => exact (hlocal msg rfl).elim

theorem step_cleaned_iff {h : Hub protocol I} (ht : Tracked h) (i : Input protocol I)
    (hlocal : Local i) :
    Tracked (step h i) ∧ (Cleaned h (step h i) (account h i) ↔ CleanupGuard h i) := by
  have ht0 : Tracked ({ h with out := [] } : Hub protocol I) := ⟨ht.remote, ht.last⟩
  rw [← Cleaned.clear, ← CleanupGuard.clear]
  unfold step
  split
  · rename_i hcrashed
    refine (Quiet.refl ({ h with out := [] } : Hub protocol I)).iff ht0 rfl _ fun hc => ?_
    rw [hcrashed] at hc
    cases hc
  · rename_i hcrashed
    exact handle_cleaned_iff ht0 rfl (Bool.eq_false_of_not_eq_true hcrashed) i hlocal

/-- The events of a run are exact if and only if they all are as `CleanupGuard` says. -/
theorem cleanup_exact_iff (id : I) (es : List (Input protocol I)) (hlocal : ∀ i ∈ es, Local i) :
    AllSteps step (fun h i => Cleaned h (step h i) (account h i)) (init id false) es ↔
      AllSteps step CleanupGuard (init id false) es := by
  have hinit : Tracked (init id false : Hub protocol I) := ⟨fun _ => rfl, fun _ => rfl⟩
  exact allSteps_iff_of_invariant (G := fun _ i => Local i)
    (fun h i ht hl => (step_cleaned_iff ht i hl).1)
    (fun h i ht hl => (step_cleaned_iff ht i hl).2) hinit (allSteps_of_forall hlocal)

end

/-- Device "A" plays, "B" does not, and a new socket says hello. -/
def twoDevices : List (Input protocol Unit) :=
  [⟨0, .frame 0 (.hello (some (sampleDevice "A" true)))⟩, ⟨1, .verified 0 0 "did:a"⟩,
   ⟨2, .frame 1 (.hello (some (sampleDevice "B" false)))⟩, ⟨3, .verified 1 0 "did:a"⟩,
   ⟨4, .frame 2 (.hello (some (sampleDevice "A" false)))⟩]

/-- The new socket takes the place of "A" without playing: no device is told to clean up. -/
theorem cleanup_missed :
    ¬ ∀ es : List (Input protocol Unit), (∀ i ∈ es, Local i) →
      AllSteps step (fun h i => Cleaned h (step h i) (account h i)) (init () false) es := by
  intro h
  have hlocal : ∀ i ∈ twoDevices ++ [⟨5, .verified 2 0 "did:a"⟩], Local i := by
    intro i hi
    simp only [twoDevices, List.cons_append, List.nil_append, List.mem_cons, List.not_mem_nil,
      or_false] at hi
    rcases hi with rfl | rfl | rfl | rfl | rfl | rfl <;> exact fun msg hm => by cases hm
  have hlast := ((allSteps_append _ _ _ _ _).1 (h _ hlocal)).2.1
  have hplayed : plays ((run step (init () false) twoDevices).localMap "did:a") = true := by decide
  have hstopped : plays ((step (run step (init () false) twoDevices)
      ⟨5, .verified 2 0 "did:a"⟩).localMap "did:a") = false := by decide
  have hrows : ((step (run step (init () false) twoDevices)
      ⟨5, .verified 2 0 "did:a"⟩).localMap "did:a").rows.length ≠ 0 := by decide
  have hnone : cleanups (step (run step (init () false) twoDevices)
      ⟨5, .verified 2 0 "did:a"⟩).out = [] := by decide
  obtain ⟨c, _, hc⟩ := hlast.once "did:a" hplayed hstopped
    fun hnil => hrows (List.length_eq_zero_iff.2 hnil)
  rw [hnone] at hc
  cases hc

/-- The same device stops by a state frame. -/
def stopsPlaying : List (Input protocol Unit) :=
  [⟨0, .frame 0 (.hello (some (sampleDevice "A" true)))⟩, ⟨1, .verified 0 0 "did:a"⟩,
   ⟨2, .frame 0 (.state (sampleDevice "A" false).state)⟩]

theorem cleanup_sent :
    AllSteps step (fun h i => Cleaned h (step h i) (account h i)) (init () false) stopsPlaying := by
  have hlocal : ∀ i ∈ stopsPlaying, Local i := by
    intro i hi
    simp only [stopsPlaying, List.mem_cons, List.not_mem_nil, or_false] at hi
    rcases hi with rfl | rfl | rfl <;> exact fun msg hm => by cases hm
  refine (cleanup_exact_iff () stopsPlaying hlocal).2 ⟨fun _ => trivial, ?_, ?_, trivial⟩
  · intro _ device hdevice hpaused
    cases hdevice
    cases hpaused
  · intro _ _ conn hconn _ _ _ c hlow
    cases hconn
    rw [List.mem_singleton.1 hlow.1]
    rfl

end Atradio.Connect.Hub
