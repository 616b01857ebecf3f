import Atradio.Connect.Swept

/-! # What the local registry holds

`localMap` stores an empty map for an account it has not heard of, so every read of it counts. A
handler that reads it at its end leaves the account in the registry, with or without a device. -/

namespace Atradio.Connect.Hub
open Atradio.Lib

variable {I : Type} {h g : Hub protocol I}

/-- Some device of the account is registered. -/
def Kept (h : Hub protocol I) (did : Did) : Prop := (h.localMap did).rows ≠ []

/-- The registry knows the accounts that have a device registered, and no others. -/
structure Tidy (h : Hub protocol I) : Prop where
  keys : ∀ did, (JsMap.find h.localReg did).isSome ↔ Kept h did
  maps : ∀ e ∈ h.localReg.rows, e.2.rows ≠ []

/-- No empty map is stored for the account. -/
def TidyAt (h : Hub protocol I) (did : Did) : Prop :=
  ∀ m, JsMap.find h.localReg did = some m → m.rows ≠ []

theorem tidy_iff (h : Hub protocol I) : Tidy h ↔ ∀ did, TidyAt h did := by
  have hrow (e : Did × LocalMap protocol) :
      e ∈ h.localReg.rows ↔ JsMap.find h.localReg e.1 = some e.2 := by
    unfold JsMap.find
    rw [h.localReg.mem_rows e]
    constructor
    · intro hget
      rw [hget]
      rfl
    · intro hget
      obtain ⟨e', he', hsnd⟩ := Option.map_eq_some_iff.1 hget
      rw [he', Option.some.injEq]
      exact Prod.ext (Table.key_of_get he') hsnd
  constructor
  · intro ht did m hm
    exact ht.maps (did, m) ((hrow (did, m)).2 hm)
  · intro ht
    refine ⟨fun did => ?_, fun e he => ht e.1 e.2 ((hrow e).1 he)⟩
    have hat := ht did
    unfold Kept localMap
    unfold TidyAt at hat
    cases hf : JsMap.find h.localReg did with
    | none => exact iff_of_false Bool.false_ne_true fun hne => hne rfl
    | some m => exact iff_of_true rfl (hat m hf)

theorem TidyAt.congr {did : Did} (hfind : JsMap.find g.localReg did = JsMap.find h.localReg did) :
    TidyAt g did ↔ TidyAt h did := by
  unfold TidyAt
  rw [hfind]

theorem tidy_congr (hreg : g.localReg = h.localReg) : Tidy g ↔ Tidy h := by
  rw [tidy_iff, tidy_iff]
  exact forall_congr' fun did => TidyAt.congr (by rw [hreg])

/-! ### Reading the registry -/

theorem makeLocalMap_find (h : Hub protocol I) (did d : Did) :
    JsMap.find (h.makeLocalMap did).localReg d =
      if d = did then some (h.localMap did) else JsMap.find h.localReg d := by
  unfold makeLocalMap localMap
  cases hf : JsMap.find h.localReg did with
  | none => exact JsMap.find_set _ _ _ _
  | some m =>
    dsimp only
    by_cases hd : d = did
    · rw [if_pos hd, hd, hf]
      rfl
    · rw [if_neg hd]

theorem send_localReg (h : Hub protocol I) (ws : SockId) (msg : ServerMsg protocol) :
    (h.send ws msg).localReg = h.localReg := by
  unfold send
  split <;> rfl

theorem sendAll_localReg (h : Hub protocol I) (msgs : List (SockId × ServerMsg protocol)) :
    (h.sendAll msgs).localReg = h.localReg := by
  unfold sendAll
  induction msgs generalizing h with
  | nil => rfl
  | cons m msgs ih => exact (ih _).trans (send_localReg h m.1 m.2)

theorem publish_localReg (h : Hub protocol I) (msg : RelayMsg protocol I) :
    (h.publish msg).localReg = h.localReg := by
  unfold publish
  split <;> rfl

theorem makeMaps_find (h : Hub protocol I) (did d : Did) :
    JsMap.find (h.makeMaps did).localReg d =
      if d = did then some (h.localMap did) else JsMap.find h.localReg d := by
  have hremote : (h.makeRemoteMap did).localReg = h.localReg := by
    unfold makeRemoteMap
    split <;> rfl
  unfold makeMaps
  rw [makeLocalMap_find, localMap, localMap, hremote]

theorem broadcast_find (h : Hub protocol I) (did d : Did) :
    JsMap.find ((h.broadcastRoster did).reconcilePresence did).hub.localReg d =
      if d = did then some (h.localMap did) else JsMap.find h.localReg d := by
  have hroster : (h.broadcastRoster did).localReg = (h.makeMaps did).localReg :=
    sendAll_localReg _ _
  have hmap : (h.broadcastRoster did).localMap did = h.localMap did := by
    unfold localMap
    rw [hroster, makeMaps_find, if_pos rfl]
    rfl
  have hreconcile (k : Hub protocol I) :
      (k.reconcilePresence did).hub.localReg = (k.makeMaps did).localReg := by
    have hs (g : Hub protocol I) (now : Bool) : (g.sendPresence did now).localReg = g.localReg :=
      sendAll_localReg g _
    unfold reconcilePresence
    dsimp only
    split
    · rfl
    · split
      · split
        · rfl
        · exact hs _ _
        · exact (hs _ _).trans (send_localReg _ _ _)
      · exact hs _ _
  rw [hreconcile, makeMaps_find, hmap, hroster, makeMaps_find]
  split <;> rfl

/-- After a read the account is in the registry. -/
theorem tidy_made {k : Hub protocol I} {did : Did} (hk : Tidy k)
    (hfind : ∀ d, JsMap.find g.localReg d =
      if d = did then some (k.localMap did) else JsMap.find k.localReg d) :
    Tidy g ↔ Kept k did := by
  rw [tidy_iff] at hk ⊢
  constructor
  · intro hg
    exact hg did (k.localMap did) ((hfind did).trans (if_pos rfl))
  · intro hkept d m hm
    rw [hfind] at hm
    split at hm
    · obtain rfl := Option.some.inj hm
      exact hkept
    · exact hk d m hm

/-! ### Changes of the registry -/

theorem Tidy.setLocalMap (ht : Tidy h) {did : Did} {m : LocalMap protocol} (hm : m.rows ≠ []) :
    Tidy (h.setLocalMap did m) := by
  rw [tidy_iff] at ht ⊢
  intro d m' hm'
  have hfind : JsMap.find (h.setLocalMap did m).localReg d =
      if d = did then some m else JsMap.find h.localReg d := JsMap.find_set _ _ _ _
  rw [hfind] at hm'
  split at hm'
  · obtain rfl := Option.some.inj hm'
    exact hm
  · exact ht d m' hm'

theorem put_rows_ne (t : LocalMap protocol) (c : LocalConn protocol) : (t.put c).rows ≠ [] :=
  List.ne_nil_of_mem ((Table.mem_put t c c).2 (.inl rfl))

theorem Tidy.deleteLocal (ht : Tidy h) (did : Did) (id : String) : Tidy (h.deleteLocal did id) := by
  unfold Hub.deleteLocal
  dsimp only
  split
  · rw [tidy_iff] at ht ⊢
    intro d m hm
    have hfind : JsMap.find (h.localReg.delete did) d =
        if d = did then none else JsMap.find h.localReg d := JsMap.find_delete _ _ _
    rw [hfind] at hm
    split at hm
    · cases hm
    · exact ht d m hm
  · rename_i hsize
    exact ht.setLocalMap fun hnil => hsize (congrArg List.length hnil)

theorem store_tidy (ht : Tidy h) (conn : LocalConn protocol) :
    Tidy (h.store conn) ∧ ∀ did, Kept (h.store conn) did ↔ Kept h did := by
  obtain ⟨hreg, -⟩ := storeClosure_rest h conn
  have hclosure : Tidy (h.storeClosure conn) := (tidy_congr hreg).2 ht
  have hmap (did : Did) : (h.storeClosure conn).localMap did = h.localMap did := by
    unfold localMap
    rw [hreg]
  unfold store storeRegistry
  split
  · rename_i c hc
    split
    · refine ⟨hclosure.setLocalMap (put_rows_ne _ _), fun did => ?_⟩
      unfold Kept
      rw [setLocalMap_localMap]
      split
      · rename_i hd
        rw [hmap] at hc
        have hold : (h.localMap did).rows ≠ [] := by
          rw [hd]
          exact List.ne_nil_of_mem (((h.localMap conn.did).get_eq_some _ _).1 hc).1
        exact iff_of_true (put_rows_ne _ _) hold
      · rw [hmap]
    · refine ⟨hclosure, fun did => ?_⟩
      unfold Kept
      rw [hmap]
  · refine ⟨hclosure, fun did => ?_⟩
    unfold Kept
    rw [hmap]

/-! ### One event -/

theorem published_tidy_iff {k : Hub protocol I} (hk : Tidy k) (msg : RelayMsg protocol I) (did : Did) :
    Tidy (((k.publish msg).broadcastRoster did).reconcilePresence did).hub ↔ Kept k did := by
  have hreg := publish_localReg k msg
  have hpublished : Tidy (k.publish msg) := (tidy_congr hreg).2 hk
  rw [tidy_made hpublished (broadcast_find (k.publish msg) did)]
  unfold Kept localMap
  rw [hreg]

theorem state_tidy_iff (ht : Tidy h) (conn : LocalConn protocol) (state : PlaybackState) :
    Tidy (h.handleState conn state).hub ↔ Kept h conn.did := by
  obtain ⟨hstored, hkept⟩ := store_tidy ht { conn with state := state }
  unfold handleState
  dsimp only
  rw [published_tidy_iff hstored, hkept]

theorem command_tidy_iff (ht : Tidy h) (conn : LocalConn protocol) (target : String) (cmd : Command) :
    Tidy (h.handleCommand conn target cmd) ↔ (target ≠ conn.deviceId → Kept h conn.did) := by
  have hdelivered : (h.deliverCommand conn.did target conn.deviceId cmd).1.localReg =
      (h.makeLocalMap conn.did).localReg := by
    unfold deliverCommand
    dsimp only
    split
    · rfl
    · exact send_localReg _ _ _
  unfold handleCommand
  split
  · rename_i hself
    exact iff_of_true ht fun hother => (hother hself).elim
  · rename_i hother
    have hmade := tidy_made (g := h.makeLocalMap conn.did) ht (makeLocalMap_find h conn.did)
    rw [forall_prop_of_true hother, ← hmade]
    cases hd : h.deliverCommand conn.did target conn.deviceId cmd with
    | mk k landed =>
      rw [hd] at hdelivered
      cases landed with
      | true => exact tidy_congr hdelivered
      | false => exact tidy_congr ((publish_localReg _ _).trans hdelivered)

theorem remove_tidy_iff (ht : Tidy h) (conn : LocalConn protocol) :
    Tidy (h.removeConn conn).hub ↔ (h.registered conn = true →
      ∃ e ∈ (h.localMap conn.did).rows, e.deviceId ≠ conn.deviceId) := by
  unfold removeConn
  cases hr : h.registered conn with
  | false => exact iff_of_true ht fun hreg => by cases hreg
  | true =>
    have hdeleted := ht.deleteLocal conn.did conn.deviceId
    rw [forall_prop_of_true rfl]
    dsimp only
    rw [Bool.not_true, if_neg Bool.false_ne_true, published_tidy_iff hdeleted]
    unfold Kept
    rw [deleteLocal_localMap, if_pos rfl]
    constructor
    · intro hrows
      obtain ⟨e, he⟩ := List.exists_mem_of_ne_nil _ hrows
      exact ⟨e, (Table.mem_delete _ _ _).1 he⟩
    · rintro ⟨e, he⟩
      exact List.ne_nil_of_mem ((Table.mem_delete _ _ _).2 he)

theorem relayed_tidy_iff (ht : Tidy h) (did : Did) (m : RemoteMap protocol I) :
    Tidy (((h.setRemoteMap did m).broadcastRoster did).reconcilePresence did).hub ↔ Kept h did := by
  have hset : Tidy (h.setRemoteMap did m) := (tidy_congr (g := h.setRemoteMap did m) (h := h) rfl).2 ht
  exact tidy_made (k := h.setRemoteMap did m) hset (broadcast_find (h.setRemoteMap did m) did)

theorem replacePrior_localReg (h : Hub protocol I) (conn : LocalConn protocol) :
    (h.replacePrior conn).localReg = h.localReg := by
  unfold replacePrior
  split
  · split
    · rfl
    · unfold close
      split <;> rfl
  · rfl

/-- The account of a registered device has it, whatever it had before. -/
theorem register_tidy (ht : Tidy h) (conn : LocalConn protocol) :
    Tidy (h.register conn) ∧ Kept (h.register conn) conn.did := by
  have hmade : ∀ d, d ≠ conn.did → TidyAt ((h.makeLocalMap conn.did).replacePrior conn) d := by
    intro d hd
    have hfind : JsMap.find ((h.makeLocalMap conn.did).replacePrior conn).localReg d =
        JsMap.find h.localReg d := by
      rw [replacePrior_localReg, makeLocalMap_find, if_neg hd]
    exact (TidyAt.congr hfind).2 ((tidy_iff h).1 ht d)
  have hput (k : Hub protocol I) (hk : ∀ d, d ≠ conn.did → TidyAt k d) :
      Tidy (k.setLocalMap conn.did ((k.localMap conn.did).put conn)) := by
    rw [tidy_iff]
    intro d
    by_cases hd : d = conn.did
    · intro m hm
      have hfind := JsMap.find_set k.localReg conn.did d ((k.localMap conn.did).put conn)
      rw [if_pos hd] at hfind
      obtain rfl := Option.some.inj (hfind.symm.trans hm)
      exact put_rows_ne _ _
    · refine (TidyAt.congr ?_).2 (hk d hd)
      exact (JsMap.find_set _ _ _ _).trans (if_neg hd)
  refine ⟨hput _ hmade, ?_⟩
  unfold Kept
  rw [register_localMap, if_pos rfl]
  exact put_rows_ne _ _

theorem makeMaps_tidy (ht : Tidy h) {did : Did} (hkept : Kept h did) :
    Tidy (h.makeMaps did) ∧ Kept (h.makeMaps did) did := by
  refine ⟨(tidy_made ht (makeMaps_find h did)).2 hkept, ?_⟩
  unfold Kept localMap
  rw [makeMaps_find, if_pos rfl]
  exact hkept

theorem announce_tidy (ht : Tidy h) {conn : LocalConn protocol} (hkept : Kept h conn.did) :
    Tidy (h.announce conn) := by
  obtain ⟨hmade, hdevice⟩ := makeMaps_tidy ht hkept
  unfold announce
  dsimp only
  have hsent : (((h.makeMaps conn.did).send conn.ws (.welcome conn.did conn.deviceId)).publish
      (.join ((h.makeMaps conn.did).send conn.ws
        (.welcome conn.did conn.deviceId)).instanceId conn.toWireDevice)).localReg =
      (h.makeMaps conn.did).localReg :=
    (publish_localReg _ _).trans (send_localReg _ _ _)
  have hjoined := (tidy_congr hsent).2 hmade
  refine (tidy_congr (sendAll_localReg _ _)).2 (makeMaps_tidy hjoined ?_).1
  unfold Kept localMap
  rw [hsent]
  exact hdevice

theorem greet_localReg (h : Hub protocol I) (conn : LocalConn protocol) (wasEmpty : Bool) :
    (h.greet conn wasEmpty).hub.localReg = h.localReg := by
  unfold greet
  split
  · rfl
  · dsimp only
    split
    · rw [Outcome.hub_ok]
      split
      · exact (send_localReg _ _ _).trans (send_localReg _ _ _)
      · exact send_localReg _ _ _
    · exact send_localReg _ _ _

theorem hello_tidy (ht : Tidy h) (now : ℕ) (ws : SockId) (hello : ℕ) (did : Did)
    (device : Option (HelloDevice protocol)) :
    Tidy (h.onHelloVerified now ws hello did device).hub := by
  unfold onHelloVerified
  cases device with
  | none => exact ht
  | some device =>
    dsimp only
    obtain ⟨htidy, hkept⟩ := register_tidy ht (helloConn now ws hello did device)
    exact (tidy_congr (greet_localReg _ _ _)).2 (announce_tidy htidy hkept)

theorem verified_tidy (ht : Tidy h) (now : ℕ) (ws : SockId) (hello : ℕ) (did : Did) :
    Tidy (h.onVerified now ws hello did).hub := by
  unfold onVerified
  split
  · exact ht
  · rename_i device _
    have hawaited : Tidy (h.awaited ws hello) :=
      (tidy_congr (g := h.awaited ws hello) (h := h) rfl).2 ht
    have hverified := hello_tidy hawaited now ws hello did device
    cases ho : (h.awaited ws hello).onHelloVerified now ws hello did device with
    | ok h' =>
      rw [ho] at hverified
      exact (tidy_congr (g := h'.helloDone ws _) (h := h') rfl).2 hverified
    | error h' =>
      rw [ho] at hverified
      exact hverified

/-! ### The timer -/

theorem prune_find (h : Hub protocol I) (now : ℕ) (did d : Did) :
    JsMap.find (h.pruneRemote now did).hub.localReg d =
      if d = did ∧ loses now (did, h.remoteMap did) then some (h.localMap did)
      else JsMap.find h.localReg d := by
  unfold pruneRemote
  cases hf : JsMap.find h.remoteReg did with
  | none =>
    have hempty : loses now (did, h.remoteMap did) = false := by
      unfold remoteMap
      rw [hf]
      rfl
    rw [hempty, if_neg fun hd => Bool.false_ne_true hd.2]
    rfl
  | some m =>
    have hm : h.remoteMap did = m := by
      unfold remoteMap
      rw [hf]
      rfl
    have hreg : (h.dropStale now did m).localReg = h.localReg := by
      unfold dropStale
      split <;> rfl
    rw [hm]
    dsimp only
    split
    · rename_i hsize
      rw [(fresh_size_eq_iff now (did, m)).1 hsize, if_neg fun hd => Bool.false_ne_true hd.2]
      exact congrArg (fun r => JsMap.find r d) hreg
    · rename_i hsize
      have hlost : loses now (did, m) = true := loses_of_size_ne hsize
      rw [broadcast_find, hlost, localMap, hreg]
      simp only [and_true]
      rfl

theorem prune_remoteMap (h : Hub protocol I) (now : ℕ) (did : Did) :
    (h.pruneRemote now did).hub.remoteMap did = fresh now (h.remoteMap did) := by
  unfold pruneRemote
  cases hf : JsMap.find h.remoteReg did with
  | none =>
    have hm : h.remoteMap did = Table.empty := by
      unfold remoteMap
      rw [hf]
      rfl
    rw [Outcome.hub_ok, hm]
    exact Table.ext rfl
  | some m =>
    have hm : h.remoteMap did = m := by
      unfold remoteMap
      rw [hf]
      rfl
    have hdropped : (h.dropStale now did m).remoteMap did = fresh now m := by
      rw [dropStale_remoteMap, if_pos rfl]
    rw [hm]
    dsimp only
    split
    · exact hdropped
    · exact ((broadcast_reconcile_regs _ did).remoteMap did).trans hdropped

/-- The second visit of an account loses nothing. -/
theorem pruneTwice_find (h : Hub protocol I) (now : ℕ) (d : Did) :
    JsMap.find (pruneTwice now d h).localReg d =
      if loses now (d, h.remoteMap d) then some (h.localMap d) else JsMap.find h.localReg d := by
  have hagain : loses now (d, (h.pruneRemote now d).hub.remoteMap d) = false := by
    refine (fresh_size_eq_iff now _).1 ?_
    rw [prune_remoteMap, fresh_fresh]
  unfold pruneTwice
  rw [prune_find, if_neg fun hd => Bool.false_ne_true (hagain.symm.trans hd.2), prune_find]
  simp only [true_and]

theorem sweep_find (h : Hub protocol I) (now : ℕ) (d : Did) :
    JsMap.find (sweepRemote now (2 * h.remoteReg.size) 0 h).hub.localReg d =
      if loses now (d, h.remoteMap d) then some (h.localMap d) else JsMap.find h.localReg d := by
  have hagree : Agree d (fun _ => False) (sweepRemote now (2 * h.remoteReg.size) 0 h).hub
      (pruneTwice now d h) := sweep_all h now fun _ _ _ _ => id
  rw [hagree.localReg, pruneTwice_find]

theorem pingAll_tidy_iff (h : Hub protocol I) :
    (Tidy h.pingAll ↔ Tidy h) ∧ (∀ did, Kept h.pingAll did ↔ Kept h did) ∧
      h.pingAll.remoteReg = h.remoteReg := by
  obtain ⟨hlocal, -, hremote⟩ := terminateAll_local h
    (h.localReg.rows.flatMap fun e => e.2.rows.filter fun c => !c.alive)
  have hfind (did : Did) : JsMap.find h.pingAll.localReg did =
      (JsMap.find h.localReg did).map fun m =>
        m.mapRows (fun c => { c with alive := false }) fun _ => rfl := by
    unfold pingAll clearAlive
    rw [JsMap.find_mapVals, hlocal]
  refine ⟨?_, fun did => ?_, hremote⟩
  · rw [tidy_iff, tidy_iff]
    refine forall_congr' fun did => ?_
    unfold TidyAt
    rw [hfind]
    cases JsMap.find h.localReg did with
    | none => exact Iff.rfl
    | some m => simp [Table.mapRows]
  · unfold Kept localMap
    rw [hfind]
    cases JsMap.find h.localReg did with
    | none => exact Iff.rfl
    | some m => simp [Table.mapRows]

theorem tick_tidy_iff (ht : Tidy h) (now : ℕ) :
    Tidy (h.onTick now).hub ↔ ∀ did, loses now (did, h.remoteMap did) = true → Kept h did := by
  obtain ⟨hping, hkept, hremote⟩ := pingAll_tidy_iff h
  obtain ⟨hrest, -⟩ := reannounce_rest h.pingAll
  have hreg : h.pingAll.reannounce.localReg = h.pingAll.localReg := by
    have hcleared := congrArg (fun k : Hub protocol I => k.localReg) hrest
    exact hcleared
  have hreg' : h.pingAll.reannounce.remoteReg = h.remoteReg := by
    have hcleared := congrArg (fun k : Hub protocol I => k.remoteReg) hrest
    exact hcleared.trans hremote
  have htidy : ∀ did, TidyAt h.pingAll.reannounce did :=
    (tidy_iff _).1 ((tidy_congr hreg).2 (hping.2 ht))
  have hfind (did : Did) : JsMap.find (h.onTick now).hub.localReg did =
      if loses now (did, h.remoteMap did) then some (h.pingAll.localMap did)
      else JsMap.find h.pingAll.reannounce.localReg did := by
    have hsweep := sweep_find h.pingAll.reannounce now did
    have hmap : h.pingAll.reannounce.remoteMap did = h.remoteMap did := by
      unfold remoteMap
      rw [hreg']
    have hlocal : h.pingAll.reannounce.localMap did = h.pingAll.localMap did := by
      unfold localMap
      rw [hreg]
    rw [hmap, hlocal] at hsweep
    exact hsweep
  rw [tidy_iff]
  refine forall_congr' fun did => ?_
  unfold TidyAt
  rw [hfind]
  cases hlost : loses now (did, h.remoteMap did) with
  | false =>
    rw [if_neg Bool.false_ne_true]
    exact iff_of_true (htidy did) fun hd => by cases hd
  | true =>
    rw [if_pos rfl, ← hkept did]
    exact ⟨fun hm _ => hm _ rfl, fun hd m hm => Option.some.inj hm ▸ hd rfl⟩

/-! ### Events -/

section Events

variable [DecidableEq I]

omit [DecidableEq I] in
/-- What a frame of the connection must find: a state is broadcast, a command looked up. -/
def FrameKept (h : Hub protocol I) (c : LocalConn protocol) : Frame protocol → Prop
  | .state _ => Kept h c.did
  | .command target _ => target ≠ c.deviceId → Kept h c.did
  | _ => True

omit [DecidableEq I] in
/-- What a message of another instance must find. A `leave` is broadcast only for a known device. -/
def RelayKept (h : Hub protocol I) : RelayMsg protocol I → Prop
  | .command inst did _ _ _ => inst ≠ h.instanceId → Kept h did
  | .leave inst did id => inst ≠ h.instanceId → (h.remotes (did, id)).isSome → Kept h did
  | .join inst d => inst ≠ h.instanceId → Kept h d.did
  | .update inst d => inst ≠ h.instanceId → Kept h d.did

omit [DecidableEq I] in
/-- Whenever the registry is read for an account at the end of an event, a device of the account is
registered: another one than the device that closes. -/
def ReleaseGuard (h : Hub protocol I) (i : Input protocol I) : Prop :=
  h.crashed = false →
  match i.event with
  | .frame ws msg => (h.socks ws).readyState ≠ .closed →
    ∀ c, (h.socks ws).conn = some c → FrameKept h c msg
  | .close ws => (h.socks ws).readyState ≠ .closed →
    ∀ c, (h.socks ws).conn = some c → h.registered c = true →
      ∃ e ∈ (h.localMap c.did).rows, e.deviceId ≠ c.deviceId
  | .tick => ∀ did, loses i.now (did, h.remoteMap did) = true → Kept h did
  | .relay msg => RelayKept h msg
  | _ => True

omit [DecidableEq I] in
theorem uncaught_localReg (o : Outcome protocol I) : o.uncaught.localReg = o.hub.localReg := by
  cases o <;> rfl

omit [DecidableEq I] in
theorem message_tidy_iff (ht : Tidy h) (ws : SockId) (msg : Frame protocol) :
    Tidy (h.onMessage ws msg).hub ↔ ∀ c, (h.socks ws).conn = some c → FrameKept h c msg := by
  unfold onMessage
  cases (h.socks ws).conn with
  | none =>
    refine iff_of_true ?_ fun c hc => by cases hc
    cases msg with
    | hello device => exact (tidy_congr (g := h.onHello ws device) (h := h) rfl).2 ht
    | state | command | bye | other => exact ht
  | some conn =>
    have hconn {p : LocalConn protocol → Prop} :
        (∀ c, some conn = some c → p c) ↔ p conn :=
      ⟨fun hc => hc conn rfl, fun hp c hc => Option.some.inj hc ▸ hp⟩
    rw [hconn]
    cases msg with
    | state state => exact state_tidy_iff ht conn state
    | command target cmd => exact command_tidy_iff ht conn target cmd
    | bye =>
      refine iff_of_true ((tidy_congr ?_).2 ht) trivial
      rw [Outcome.hub_ok]
      unfold close
      split <;> rfl
    | hello | other => exact iff_of_true ht trivial

theorem relay_tidy_iff (ht : Tidy h) (now : ℕ) (msg : RelayMsg protocol I) :
    Tidy (h.onRelay now msg).hub ↔ RelayKept h msg := by
  cases msg with
  | command inst did target src cmd =>
    simp only [onRelay, RelayKept]
    split
    · rename_i hown
      exact iff_of_true ht fun hother => (hother hown).elim
    · rename_i hother
      have hdelivered : (h.deliverCommand did target src cmd).1.localReg =
          (h.makeLocalMap did).localReg := by
        unfold deliverCommand
        dsimp only
        split
        · rfl
        · exact send_localReg _ _ _
      rw [forall_prop_of_true hother, Outcome.hub_ok, tidy_congr hdelivered]
      exact tidy_made ht (makeLocalMap_find h did)
  | leave inst did deviceId =>
    have hremotes : h.remotes (did, deviceId) =
        ((JsMap.find h.remoteReg did).getD Table.empty).get deviceId := rfl
    simp only [onRelay, RelayKept]
    split
    · rename_i hown
      exact iff_of_true ht fun hother => (hother hown).elim
    · rename_i hother
      rw [forall_prop_of_true hother, hremotes]
      cases JsMap.find h.remoteReg did with
      | none => exact iff_of_true ht fun hsome => by cases hsome
      | some m =>
        dsimp only [Option.getD_some]
        cases m.get deviceId with
        | none => exact iff_of_true ht fun hsome => by cases hsome
        | some d =>
          have hreset := relayed_tidy_iff ht did (m.delete deviceId)
          exact hreset.trans ⟨fun hkept _ => hkept, fun hkept => hkept rfl⟩
  | join inst d | update inst d =>
    simp only [onRelay, RelayKept]
    split
    · rename_i hown
      exact iff_of_true ht fun hother => (hother hown).elim
    · rename_i hother
      rw [forall_prop_of_true hother]
      exact relayed_tidy_iff ht d.did _

omit [DecidableEq I] in
theorem onClose_tidy_iff (ht : Tidy h) (ws : SockId) :
    Tidy (h.onClose ws).hub ↔ ∀ c, (h.socks ws).conn = some c → h.registered c = true →
      ∃ e ∈ (h.localMap c.did).rows, e.deviceId ≠ c.deviceId := by
  have hremoved (k : Hub protocol I) (hreg : k.localReg = h.localReg) (conn : LocalConn protocol) :
      Tidy (k.removeConn conn).hub ↔ (h.registered conn = true →
        ∃ e ∈ (h.localMap conn.did).rows, e.deviceId ≠ conn.deviceId) := by
    have hk := remove_tidy_iff ((tidy_congr hreg).2 ht) conn
    unfold registered localMap at hk ⊢
    rw [hreg] at hk
    exact hk
  unfold onClose
  dsimp only
  split
  · rename_i hnone
    refine iff_of_true ?_ fun c hc => by rw [hnone] at hc; cases hc
    exact (tidy_congr (g := h.setSock ws _) (h := h) rfl).2 ht
  · rename_i conn hconn
    rw [hremoved (h.setSock ws _) rfl conn, hconn]
    exact ⟨fun hkept c hc => Option.some.inj hc ▸ hkept, fun hkept => hkept conn rfl⟩

theorem step_tidy_iff (ht : Tidy h) (i : Input protocol I) : Tidy (h.step i) ↔ ReleaseGuard h i := by
  have h0 : Tidy { h with out := [] } :=
    (tidy_congr (g := { h with out := [] }) (h := h) rfl).2 ht
  obtain ⟨now, event⟩ := i
  unfold step ReleaseGuard
  by_cases hcrashed : h.crashed = true
  · rw [if_pos hcrashed]
    exact iff_of_true h0 fun hrunning => by rw [hcrashed] at hrunning; cases hrunning
  rw [if_neg hcrashed, forall_prop_of_true (Bool.eq_false_iff.2 hcrashed)]
  cases event with
  | frame ws msg =>
    simp only [handle]
    split
    · rename_i hclosed
      exact iff_of_true h0 fun hopen => (hopen hclosed).elim
    · rename_i hopen
      rw [forall_prop_of_true hopen, tidy_congr (uncaught_localReg _)]
      exact message_tidy_iff h0 ws msg
  | verified ws hello did =>
    refine iff_of_true ?_ trivial
    simp only [handle]
    rw [tidy_congr (uncaught_localReg _)]
    exact verified_tidy h0 now ws hello did
  | rejected ws hello message =>
    refine iff_of_true ?_ trivial
    simp only [handle, onRejected]
    split
    · exact h0
    · refine (tidy_congr ?_).2 h0
      have hsent := send_localReg (Hub.awaited { h with out := [] } ws hello) ws
        (.error "AuthFailed" message)
      refine Eq.trans ?_ hsent
      unfold helloDone onHelloRejected close
      split <;> rfl
  | helloTimeout ws =>
    refine iff_of_true ((tidy_congr ?_).2 h0) trivial
    simp only [handle, onHelloTimeout, close]
    split
    · split
      · split <;> rfl
      · rfl
    · rfl
  | pong ws =>
    refine iff_of_true ?_ trivial
    simp only [handle, onPong, markAlive]
    split
    · exact h0
    · split
      · split
        · exact h0.setLocalMap (put_rows_ne _ _)
        · exact h0
      · exact h0
  | closing ws =>
    refine iff_of_true ((tidy_congr ?_).2 h0) trivial
    simp only [handle, terminate]
    split <;> rfl
  | close ws =>
    simp only [handle]
    split
    · rename_i hclosed
      exact iff_of_true h0 fun hopen => (hopen hclosed).elim
    · rename_i hopen
      rw [forall_prop_of_true hopen, tidy_congr (uncaught_localReg _)]
      exact onClose_tidy_iff h0 ws
  | tick =>
    simp only [handle]
    rw [tidy_congr (uncaught_localReg _)]
    exact tick_tidy_iff h0 now
  | relay msg => exact relay_tidy_iff h0 now msg

/-- The registry is tidy after every event of a run if and only if every event meets the guard. -/
theorem released_iff (id : I) (redis : Bool) (es : List (Input protocol I)) :
    AllSteps step (fun h i => Tidy (h.step i)) (init id redis) es ↔
      AllSteps step ReleaseGuard (init id redis) es := by
  have hinit : Tidy (init id redis : Hub protocol I) := by
    rw [tidy_iff]
    intro did m hm
    cases hm
  have hall : ∀ h : Hub protocol I, Tidy h →
      (AllSteps step (fun h i => Tidy (h.step i)) h es ↔ AllSteps step ReleaseGuard h es) := by
    induction es with
    | nil => exact fun _ _ => Iff.rfl
    | cons i es ih =>
      intro h ht
      constructor
      · rintro ⟨hi, hes⟩
        exact ⟨(step_tidy_iff ht i).1 hi, (ih _ hi).1 hes⟩
      · rintro ⟨hi, hes⟩
        have hstep := (step_tidy_iff ht i).2 hi
        exact ⟨hstep, (ih _ hstep).2 hes⟩
  exact hall _ hinit

/-- The only device of an account connects and closes. -/
def lastDevice : List (Input protocol Unit) :=
  [⟨0, .frame 0 (.hello (some (sampleDevice "A" false)))⟩, ⟨1, .verified 0 0 "did:a"⟩, ⟨2, .close 0⟩]

/-- The account stays in the registry. -/
theorem lastDevice_kept : ¬ ∀ es : List (Input protocol Unit), Tidy (run step (init () false) es) := by
  intro h
  have hkeys := (h lastDevice).keys "did:a"
  have hsome : (JsMap.find (run step (init () false) lastDevice).localReg "did:a").isSome = true := by
    decide +kernel
  have hempty : ((run step (init () false) lastDevice).localMap "did:a").rows.length = 0 := by
    decide +kernel
  exact hkeys.1 hsome (List.length_eq_zero_iff.1 hempty)

end Events

end Atradio.Connect.Hub
