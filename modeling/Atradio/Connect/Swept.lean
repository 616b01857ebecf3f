import Atradio.Connect.Relay
import Atradio.Connect.Sweep

/-! # What the sweep of the remote registry leaves

The loop over `remote.keys()` visits keys that its own rebroadcasts insert again. Such a key
holds an empty map, and the second visit takes it away. -/

namespace Atradio.Connect.Hub
open Atradio.Lib

variable {I : Type}

/-- The loop itself, from position `pos` of the map: it ends when the iterator finds no key. -/
inductive Sweeps (now : ℕ) : ℕ → Hub protocol I → Hub protocol I → Prop
  | done {pos : ℕ} {h : Hub protocol I} (hend : h.remoteReg.rows[pos]? = none) : Sweeps now pos h h
  | visit {pos : ℕ} {h h₁ h' : Hub protocol I} {did : Did} {m : RemoteMap protocol I}
    (hat : h.remoteReg.rows[pos]? = some (did, m)) (hpruned : h.pruneRemote now did = .ok h₁)
    (hrest : Sweeps now (if (fresh now m).size = 0 then pos else pos + 1) h₁ h') :
    Sweeps now pos h h'

theorem Sweeps.unique {now pos : ℕ} {h g g' : Hub protocol I} (hs : Sweeps now pos h g)
    (hs' : Sweeps now pos h g') : g = g' := by
  induction hs with
  | done hend =>
    cases hs' with
    | done _ => rfl
    | visit hat _ _ => cases hend.symm.trans hat
  | visit hat hpruned _ ih =>
    cases hs' with
    | done hend => cases hend.symm.trans hat
    | visit hat' hpruned' hrest' =>
      cases hat.symm.trans hat'
      cases hpruned.symm.trans hpruned'
      exact ih hrest'

/-- A row with what the sweep leaves of it. -/
def kept (now : ℕ) (e : Did × RemoteMap protocol I) : Option (Did × RemoteMap protocol I) :=
  if (fresh now e.2).size = 0 then none else some (e.1, fresh now e.2)

def loses (now : ℕ) (e : Did × RemoteMap protocol I) : Bool :=
  e.2.rows.any fun d => d.lastSeen + REMOTE_TTL_MS < now

theorem fresh_size_eq_iff (now : ℕ) (e : Did × RemoteMap protocol I) :
    (fresh now e.2).size = e.2.size ↔ loses now e = false := by
  unfold fresh loses Table.size Table.filter
  rw [List.length_filter_eq_length_iff]
  simp

theorem loses_of_size_ne {now : ℕ} {e : Did × RemoteMap protocol I}
    (h : ¬ (fresh now e.2).size = e.2.size) : loses now e = true := by
  by_contra hkeeps
  exact h ((fresh_size_eq_iff now e).2 (Bool.eq_false_iff.2 hkeeps))

/-! ### Effects are only added -/

def prepend (o : List (Effect protocol I)) (h : Hub protocol I) : Hub protocol I :=
  { h with out := o ++ h.out }

variable (o : List (Effect protocol I)) (h : Hub protocol I)

theorem send_prepend (ws : SockId) (msg : ServerMsg protocol) :
    (h.prepend o).send ws msg = (h.send ws msg).prepend o := by
  unfold send
  show (if (h.socks ws).readyState = .open then _ else _) = _
  split
  · unfold effect prepend
    simp only [List.append_assoc]
  · rfl

theorem sendAll_prepend (msgs : List (SockId × ServerMsg protocol)) :
    (h.prepend o).sendAll msgs = (h.sendAll msgs).prepend o := by
  unfold sendAll
  induction msgs generalizing h with
  | nil => rfl
  | cons m msgs ih => rw [List.foldl_cons, List.foldl_cons, send_prepend, ih]

theorem makeMaps_prepend (did : Did) : (h.prepend o).makeMaps did = (h.makeMaps did).prepend o := by
  have hremote : (h.prepend o).makeRemoteMap did = (h.makeRemoteMap did).prepend o := by
    have hreg : (h.prepend o).remoteReg = h.remoteReg := rfl
    unfold makeRemoteMap
    rw [hreg]
    cases JsMap.find h.remoteReg did <;> rfl
  unfold makeMaps
  rw [hremote]
  generalize h.makeRemoteMap did = g
  have hreg : (g.prepend o).localReg = g.localReg := rfl
  unfold makeLocalMap
  rw [hreg]
  cases JsMap.find g.localReg did <;> rfl

theorem reconcile_prepend (did : Did) :
    ((h.prepend o).reconcilePresence did).hub = (h.reconcilePresence did).hub.prepend o := by
  unfold reconcilePresence
  dsimp only
  rw [makeMaps_prepend]
  generalize h.makeMaps did = g
  have hplaying : (g.prepend o).anyPlaying did = g.anyPlaying did := rfl
  rw [hplaying]
  cases g.anyPlaying did with
  | none => rfl
  | some now =>
    have hset : (g.prepend o).setLastPlaying did now = (g.setLastPlaying did now).prepend o := rfl
    have hpresence (k : Hub protocol I) :
        (k.prepend o).sendPresence did now = (k.sendPresence did now).prepend o :=
      sendAll_prepend o k _
    dsimp only
    rw [hset]
    show Outcome.hub (if (g.lastPlaying did && !now) = true then _ else _) = _
    split
    · have howner : ((g.setLastPlaying did now).prepend o).cleanupOwner did =
          (g.setLastPlaying did now).cleanupOwner did := rfl
      rw [howner]
      cases (g.setLastPlaying did now).cleanupOwner did with
      | none => rfl
      | some owner =>
        cases owner with
        | none => exact hpresence _
        | some owner =>
          dsimp only
          rw [Outcome.hub_ok, Outcome.hub_ok, send_prepend, hpresence]
    · exact hpresence _

theorem broadcast_prepend (did : Did) :
    (((h.prepend o).broadcastRoster did).reconcilePresence did).hub =
      ((h.broadcastRoster did).reconcilePresence did).hub.prepend o := by
  have hroster : (h.prepend o).broadcastRoster did = (h.broadcastRoster did).prepend o := by
    unfold broadcastRoster
    dsimp only
    rw [makeMaps_prepend, sendAll_prepend]
    rfl
  rw [hroster, reconcile_prepend]

/-! ### One account -/

/-- The effects of one rebroadcast for an account, without its stale devices. -/
def rebroadcast (now : ℕ) (e : Did × RemoteMap protocol I) : List (Effect protocol I) :=
  ((({ h with out := [] }.dropStale now e.1 e.2).broadcastRoster e.1).reconcilePresence e.1).hub.out

variable {h}

theorem prune_out {did : Did} {m : RemoteMap protocol I}
    (hf : JsMap.find h.remoteReg did = some m) (now : ℕ) :
    (h.pruneRemote now did).hub.out =
      h.out ++ if loses now (did, m) then h.rebroadcast now (did, m) else [] := by
  have hdrop : h.dropStale now did m = ({ h with out := [] }.dropStale now did m).prepend h.out := by
    unfold dropStale prepend
    split
    · simp only [List.append_nil]
    · simp only [setRemoteMap, List.append_nil]
  unfold pruneRemote
  rw [hf]
  dsimp only
  split
  · rename_i hsize
    have hlost : loses now (did, m) = false := (fresh_size_eq_iff now (did, m)).1 hsize
    rw [hlost, Outcome.hub_ok, (dropStale_rest h now did m).2.1]
    exact (List.append_nil _).symm
  · rename_i hsize
    have hlost : loses now (did, m) = true := loses_of_size_ne hsize
    rw [hlost, if_pos rfl, hdrop, broadcast_prepend]
    rfl

theorem rebroadcast_congr {g : Hub protocol I} {d : Did}
    (a : Agree d (fun _ => True) { h with out := [] } { g with out := [] }) (now : ℕ)
    (m : RemoteMap protocol I) (ws : SockId) :
    sentTo ws (h.rebroadcast now (d, m)) = sentTo ws (g.rebroadcast now (d, m)) :=
  (a.dropStale now m).broadcast.sent ws trivial

/-- Pruning one account changes nothing for another. -/
theorem prune_others (h : Hub protocol I) {did d : Did} (hd : did ≠ d) (now : ℕ) :
    Agree d (fun _ => True) { (h.pruneRemote now did).hub with out := [] } { h with out := [] } := by
  have hframe : Agree d (fun _ => False) (h.pruneRemote now did).hub h :=
    pruneRemote_frame h hd now fun _ _ => id
  have hsocks := (pruneRemote_local h now did).socks
  exact ⟨hframe.localReg, hframe.remoteReg, hframe.last, fun ws _ => congrFun hsocks ws,
    fun _ _ => rfl, hframe.instanceId, hframe.redis, hframe.crashed⟩

/-- The messages of the rebroadcasts for those of the accounts that lose a device. -/
def rebroadcasts (h : Hub protocol I) (now : ℕ) (ws : SockId)
    (es : List (Did × RemoteMap protocol I)) : List (ServerMsg protocol) :=
  (es.filter (loses now)).flatMap fun e => sentTo ws (h.rebroadcast now e)

theorem rebroadcasts_prune (h : Hub protocol I) {did : Did} (now : ℕ) (ws : SockId)
    {es : List (Did × RemoteMap protocol I)} (hes : did ∉ es.map Prod.fst) :
    (h.pruneRemote now did).hub.rebroadcasts now ws es = h.rebroadcasts now ws es := by
  refine congrArg List.flatten (List.map_congr_left fun e he => ?_)
  have hd : did ≠ e.1 := fun hd => hes (hd ▸ List.mem_map_of_mem (List.mem_filter.1 he).1)
  exact rebroadcast_congr (prune_others h hd now) now e.2 ws

theorem rebroadcasts_cons (h : Hub protocol I) (now : ℕ) (ws : SockId)
    (e : Did × RemoteMap protocol I) (es : List (Did × RemoteMap protocol I)) :
    h.rebroadcasts now ws (e :: es) =
      sentTo ws (if loses now e then h.rebroadcast now e else []) ++ h.rebroadcasts now ws es := by
  unfold rebroadcasts
  cases hlost : loses now e with
  | true => rw [List.filter_cons_of_pos hlost, List.flatMap_cons, if_pos rfl]
  | false =>
    rw [List.filter_cons_of_neg (Bool.eq_false_iff.1 hlost), if_neg Bool.false_ne_true]
    rfl

theorem rebroadcasts_empty (h : Hub protocol I) (now : ℕ) (ws : SockId) (did : Did)
    (es : List (Did × RemoteMap protocol I)) :
    h.rebroadcasts now ws (es ++ [(did, Table.empty)]) = h.rebroadcasts now ws es := by
  unfold rebroadcasts
  rw [List.filter_append]
  have hkeeps : [(did, (Table.empty : RemoteMap protocol I))].filter (loses now) = [] := rfl
  rw [hkeeps, List.append_nil]

theorem sentTo_append (ws : SockId) (es fs : List (Effect protocol I)) :
    sentTo ws (es ++ fs) = sentTo ws es ++ sentTo ws fs := List.filterMap_append

/-! ### The loop -/

/-- With no key left the loop is over, whatever its fuel. -/
theorem sweep_end (now fuel : ℕ) {h : Hub protocol I} {pos : ℕ}
    (hrows : h.remoteReg.rows.length = pos) :
    sweepRemote now fuel pos h = .ok h ∧ Sweeps now pos h h := by
  have hend : h.remoteReg.rows[pos]? = none := by
    rw [List.getElem?_eq_none_iff]
    omega
  refine ⟨?_, .done hend⟩
  cases fuel with
  | zero => rfl
  | succ fuel => rw [sweepRemote, hend]

/-- The keys still to come are `ps`, those before them have been visited. -/
theorem sweep_settles (now fuel : ℕ) {h : Hub protocol I} {pos : ℕ}
    {pre ps : List (Did × RemoteMap protocol I)} (hrows : h.remoteReg.rows = pre ++ ps)
    (hpos : pre.length = pos) (hfuel : (ps.map visits).sum ≤ fuel) :
    Sweeps now pos h (sweepRemote now fuel pos h).hub ∧
      (sweepRemote now fuel pos h).hub.remoteReg.rows = pre ++ ps.filterMap (kept now) ∧
      ∀ ws, sentTo ws (sweepRemote now fuel pos h).hub.out =
        sentTo ws h.out ++ h.rebroadcasts now ws ps := by
  have hnil {h : Hub protocol I} {pos fuel : ℕ} {pre : List (Did × RemoteMap protocol I)}
      (hrows : h.remoteReg.rows = pre ++ []) (hpos : pre.length = pos) :
      Sweeps now pos h (sweepRemote now fuel pos h).hub ∧
        (sweepRemote now fuel pos h).hub.remoteReg.rows = pre ++ [].filterMap (kept now) ∧
        ∀ ws, sentTo ws (sweepRemote now fuel pos h).hub.out =
          sentTo ws h.out ++ h.rebroadcasts now ws [] := by
    rw [List.append_nil] at hrows
    obtain ⟨hstop, hsweeps⟩ := sweep_end now fuel (hrows ▸ hpos)
    rw [hstop, Outcome.hub_ok]
    refine ⟨hsweeps, ?_, fun ws => (List.append_nil _).symm⟩
    rw [List.filterMap_nil, List.append_nil]
    exact hrows
  induction fuel generalizing h pos pre ps with
  | zero =>
    cases ps with
    | nil => exact hnil hrows hpos
    | cons e post =>
      have hv := visits_pos e
      simp only [List.map_cons, List.sum_cons] at hfuel
      omega
  | succ fuel ih =>
    cases ps with
    | nil => exact hnil hrows hpos
    | cons e post =>
      obtain ⟨did, m⟩ := e
      have hat : h.remoteReg.rows[pos]? = some (did, m) := by
        rw [hrows, ← hpos, List.getElem?_append_right (le_refl _), Nat.sub_self]
        rfl
      obtain ⟨hpre, hpost⟩ := nodup_post hrows
      dsimp only at hpre hpost
      have hout := prune_out (find_row hrows) now
      have hvisit {g : Hub protocol I}
          (hrest : Sweeps now (if (fresh now m).size = 0 then pos else pos + 1)
            (h.pruneRemote now did).hub g) : Sweeps now pos h g :=
        .visit hat (pruneRemote_ok h now did) hrest
      have hsent (ws : SockId) (qs : List (ServerMsg protocol))
          (hqs : qs = h.rebroadcasts now ws post) :
          sentTo ws (h.pruneRemote now did).hub.out ++ qs =
            sentTo ws h.out ++ h.rebroadcasts now ws ((did, m) :: post) := by
        rw [hout, sentTo_append, rebroadcasts_cons, hqs, List.append_assoc]
      rw [sweep_at hat]
      simp only [List.map_cons, List.sum_cons] at hfuel
      rcases visit_cases hrows now with ⟨hv, hfresh, hone⟩ | ⟨hv, hfresh, hone⟩ | ⟨hv, hfresh, hone⟩
      · have hkept : kept now (did, m) = none := if_pos hfresh
        rw [if_pos hfresh] at hvisit ⊢
        rw [List.filterMap_cons_none hkept]
        obtain ⟨hsweeps, hleft, hmsgs⟩ := ih hone hpos (by omega)
        refine ⟨hvisit hsweeps, hleft, fun ws => ?_⟩
        rw [hmsgs]
        exact hsent ws _ (rebroadcasts_prune h now ws hpost)
      · have hkept : kept now (did, m) = none := if_pos hfresh
        rw [if_pos hfresh] at hvisit ⊢
        rw [List.filterMap_cons_none hkept]
        -- the broadcast has put an empty map back, at the end
        have hsum := visits_back post did
        obtain ⟨hsweeps, hleft, hmsgs⟩ := ih hone hpos (by omega)
        have hempty : kept now (did, (Table.empty : RemoteMap protocol I)) = none := rfl
        refine ⟨hvisit hsweeps, ?_, fun ws => ?_⟩
        · rw [hleft, List.filterMap_append, List.filterMap_cons_none hempty, List.filterMap_nil,
            List.append_nil]
        · rw [hmsgs, rebroadcasts_empty]
          exact hsent ws _ (rebroadcasts_prune h now ws hpost)
      · have hkept : kept now (did, m) = some (did, fresh now m) := if_neg hfresh
        rw [if_neg hfresh] at hvisit ⊢
        rw [List.filterMap_cons_some hkept]
        have hnext : (pre ++ [(did, fresh now m)]).length = pos + 1 := by
          rw [List.length_append, hpos]
          rfl
        obtain ⟨hsweeps, hleft, hmsgs⟩ := ih hone hnext (by omega)
        refine ⟨hvisit hsweeps, ?_, fun ws => ?_⟩
        · rw [hleft, List.append_assoc]
          rfl
        · rw [hmsgs]
          exact hsent ws _ (rebroadcasts_prune h now ws hpost)

theorem kept_eq_some {now : ℕ} {e v : Did × RemoteMap protocol I} :
    kept now e = some v ↔ (fresh now e.2).size ≠ 0 ∧ v = (e.1, fresh now e.2) := by
  unfold kept
  split
  · rename_i hfresh
    exact ⟨(fun hk => by cases hk), fun hk => (hk.1 hfresh).elim⟩
  · rename_i hfresh
    exact ⟨fun hk => ⟨hfresh, (Option.some.inj hk).symm⟩, fun hk => congrArg some hk.2.symm⟩

/-- The sweep leaves of every account what is fresh. -/
theorem kept_remoteMap {now : ℕ} {g : Hub protocol I}
    (hleft : g.remoteReg.rows = h.remoteReg.rows.filterMap (kept now)) (did : Did) :
    g.remoteMap did = fresh now (h.remoteMap did) := by
  have hrow (v : Did × RemoteMap protocol I) : v ∈ g.remoteReg.rows ↔
      ∃ e ∈ h.remoteReg.rows, (fresh now e.2).size ≠ 0 ∧ v = (e.1, fresh now e.2) := by
    rw [hleft, List.mem_filterMap]
    simp only [kept_eq_some]
  unfold remoteMap JsMap.find
  cases hf : h.remoteReg.get did with
  | none =>
    have hnone : g.remoteReg.get did = none := by
      refine (g.remoteReg.get_eq_none did).2 fun v hv => ?_
      obtain ⟨e, he, -, rfl⟩ := (hrow v).1 hv
      exact (h.remoteReg.get_eq_none did).1 hf e he
    rw [hnone]
    exact Table.ext rfl
  | some e =>
    obtain ⟨he, hdid⟩ := (h.remoteReg.get_eq_some _ _).1 hf
    by_cases hfresh : (fresh now e.2).size = 0
    · have hnone : g.remoteReg.get did = none := by
        refine (g.remoteReg.get_eq_none did).2 fun v hv hkey => ?_
        obtain ⟨e', he', hne, rfl⟩ := (hrow v).1 hv
        have hsame : e' = e := Table.eq_of_key he' he (hkey.trans hdid.symm)
        exact hne (hsame ▸ hfresh)
      rw [hnone]
      exact ((Table.size_eq_zero _).1 hfresh).symm
    · have hsome : g.remoteReg.get did = some (e.1, fresh now e.2) :=
        (g.remoteReg.get_eq_some _ _).2 ⟨(hrow _).2 ⟨e, he, hfresh, rfl⟩, hdid⟩
      rw [hsome]
      rfl

theorem fresh_get (now : ℕ) (m : RemoteMap protocol I) (id : String) (d : RemoteDevice protocol I) :
    (fresh now m).get id = some d ↔ m.get id = some d ∧ ¬ Stale now d := by
  unfold fresh Stale
  rw [Table.get_filter, Option.filter_eq_some_iff]
  simp

/-- The devices of this instance, announced again before the sweep. -/
def reannounce (h : Hub protocol I) : Hub protocol I :=
  (h.localReg.rows.flatMap fun e => e.2.rows).foldl
    (fun h c => h.publish (.update h.instanceId c.toWireDevice)) h

theorem reannounce_rest (h : Hub protocol I) :
    { h.reannounce with out := [] } = { h with out := [] } ∧
      ∀ ws, sentTo ws h.reannounce.out = sentTo ws h.out := by
  have hone (g : Hub protocol I) (msg : RelayMsg protocol I) :
      { g.publish msg with out := [] } = { g with out := [] } ∧
        ∀ ws, sentTo ws (g.publish msg).out = sentTo ws g.out := by
    unfold publish
    split
    · refine ⟨rfl, fun ws => ?_⟩
      rw [sentTo_effect]
      exact List.append_nil _
    · exact ⟨rfl, fun _ => rfl⟩
  have hall (conns : List (LocalConn protocol)) (g : Hub protocol I) :
      { conns.foldl (fun h c => h.publish (.update h.instanceId c.toWireDevice)) g with out := [] } =
          { g with out := [] } ∧
        ∀ ws, sentTo ws (conns.foldl
          (fun h c => h.publish (.update h.instanceId c.toWireDevice)) g).out = sentTo ws g.out := by
    induction conns generalizing g with
    | nil => exact ⟨rfl, fun _ => rfl⟩
    | cons c conns ih =>
      obtain ⟨hrest, hsent⟩ := hone g (.update g.instanceId c.toWireDevice)
      obtain ⟨hrests, hsents⟩ := ih (g.publish (.update g.instanceId c.toWireDevice))
      exact ⟨hrests.trans hrest, fun ws => (hsents ws).trans (hsent ws)⟩
  exact hall _ h

/-- The loop ends. Of the remote devices it leaves those heard of within the TTL, and no account
without any; each account that has lost a device is rebroadcast once, in the order of the map. -/
theorem sweep_exact (h : Hub protocol I) (now : ℕ) :
    ∃ h', h.heartbeatRemotePresence now = .ok h' ∧ (∀ g, Sweeps now 0 h.reannounce g ↔ g = h') ∧
      (∀ k d, h'.remotes k = some d ↔ h.remotes k = some d ∧ ¬ Stale now d) ∧
      (∀ e ∈ h'.remoteReg.rows, e.2.rows ≠ []) ∧
      ∀ ws, sentTo ws h'.out = sentTo ws h.out ++ h.rebroadcasts now ws h.remoteReg.rows := by
  obtain ⟨hrest, hsent⟩ := reannounce_rest h
  have hreg : h.reannounce.remoteReg = h.remoteReg := by
    have hcleared := congrArg (fun k : Hub protocol I => k.remoteReg) hrest
    exact hcleared
  have hvisits (rows : List (Did × RemoteMap protocol I)) : (rows.map visits).sum ≤ 2 * rows.length := by
    induction rows with
    | nil => exact Nat.zero_le _
    | cons e rows ih =>
      have hv : visits e ≤ 2 := by
        unfold visits
        split <;> omega
      simp only [List.map_cons, List.sum_cons, List.length_cons]
      omega
  have hstart : h.reannounce.remoteReg.rows = [] ++ h.reannounce.remoteReg.rows := rfl
  have hpos : ([] : List (Did × RemoteMap protocol I)).length = 0 := rfl
  obtain ⟨hsweeps, hleft, hmsgs⟩ := sweep_settles now (2 * h.reannounce.remoteReg.size) hstart hpos
    (hvisits _)
  obtain ⟨h', ho, -, -⟩ := (sound_protocol h.reannounce).sweep_returns total_protocol now
    (2 * h.reannounce.remoteReg.size) 0
  have hrun : h.heartbeatRemotePresence now = .ok h' := ho
  rw [ho, Outcome.hub_ok] at hsweeps hleft hmsgs
  rw [List.nil_append, hreg] at hleft
  refine ⟨h', hrun, fun g => ⟨fun hs => hs.unique hsweeps, fun hg => hg ▸ hsweeps⟩, fun k d => ?_,
    fun e he => ?_, fun ws => ?_⟩
  · unfold Hub.remotes
    rw [kept_remoteMap hleft, fresh_get]
  · rw [hleft] at he
    obtain ⟨e', -, hkept⟩ := List.mem_filterMap.1 he
    obtain ⟨hne, rfl⟩ := kept_eq_some.1 hkept
    exact fun hnil => hne (congrArg List.length hnil)
  · have hsame (e : Did × RemoteMap protocol I) :
        h.reannounce.rebroadcast now e = h.rebroadcast now e := by
      unfold rebroadcast
      rw [hrest]
    rw [hmsgs, hsent, hreg]
    unfold rebroadcasts
    simp only [hsame]

end Atradio.Connect.Hub
