import Mathlib.Algebra.GroupWithZero.Nat
import Atradio.Connect.Conns
import Atradio.Connect.Agree

/-! # The timer, seen by one account

All accounts share the timer: the liveness ping walks over every connection and the sweep
over `remote.keys()`. For one account the ping asks its own connections, and the sweep
amounts to pruning its own entry, up to the empty map that a broadcast may leave for the
same sweep to find (`sweep_agree`). -/

namespace Atradio.Connect.Hub
open Atradio.Lib

variable {I : Type} {d : Did} {mine : SockId → Prop} {D : Option (HelloDevice protocol) → Prop}

/-! ### Pruning one account -/

theorem pruneRemote_ok (h : Hub protocol I) (now : ℕ) (did : Did) :
    h.pruneRemote now did = .ok (h.pruneRemote now did).hub := by
  obtain ⟨h', ho, _⟩ := (sound_protocol h).prune_returns total_protocol now did
  rw [ho]
  rfl

theorem Agree.dropStale {h g : Hub protocol I} (a : Agree d mine h g) (now : ℕ)
    (m : RemoteMap protocol I) : Agree d mine (h.dropStale now d m) (g.dropStale now d m) := by
  unfold Hub.dropStale
  split
  · refine ⟨a.localReg, ?_, a.last, a.socks, a.sent, a.instanceId, a.redis, a.crashed⟩
    simp [JsMap.find_delete]
  · exact a.setRemoteMap _

theorem dropStale_frame (h : Hub protocol I) {did : Did} (hd : did ≠ d) (now : ℕ)
    (m : RemoteMap protocol I) : Agree d mine (h.dropStale now did m) h := by
  unfold Hub.dropStale
  split
  · refine ⟨rfl, ?_, rfl, fun _ _ => rfl, fun _ _ => rfl, rfl, rfl, rfl⟩
    simp [JsMap.find_delete, Ne.symm hd]
  · exact setRemoteMap_frame h hd _

theorem Agree.pruneRemote {h g : Hub protocol I} (a : Agree d mine h g) (now : ℕ) :
    Agree d mine (h.pruneRemote now d).hub (g.pruneRemote now d).hub := by
  unfold Hub.pruneRemote
  rw [a.remoteReg]
  cases JsMap.find g.remoteReg d with
  | none => exact a
  | some m =>
    have hs := a.dropStale now m
    dsimp only
    split
    · exact hs
    · exact hs.broadcast

theorem pruneRemote_frame (h : Hub protocol I) {did : Did} (hd : did ≠ d) (now : ℕ)
    (hrows : ∀ c ∈ (h.localMap did).rows, ¬ mine c.ws) :
    Agree d mine (h.pruneRemote now did).hub h := by
  unfold Hub.pruneRemote
  cases JsMap.find h.remoteReg did with
  | none => exact .refl h
  | some m =>
    have hs : Agree d mine (h.dropStale now did m) h := dropStale_frame h hd now m
    have hl := (dropStale_local h now did m).localMap did
    dsimp only
    split
    · exact hs
    · exact (broadcast_frame _ hd (hl.symm ▸ hrows)).trans hs

/-- The second call meets the empty map that the first one may leave behind. -/
def pruneTwice (now : ℕ) (did : Did) (h : Hub protocol I) : Hub protocol I :=
  ((h.pruneRemote now did).hub.pruneRemote now did).hub

theorem Agree.pruneTwice {h g : Hub protocol I} (a : Agree d mine h g) (now : ℕ) :
    Agree d mine (pruneTwice now d h) (pruneTwice now d g) := (a.pruneRemote now).pruneRemote now

/-! ### The rows of `remote` during the sweep -/

theorem send_remoteReg (h : Hub protocol I) (ws : SockId) (msg : ServerMsg protocol) :
    (h.send ws msg).remoteReg = h.remoteReg := by
  unfold send
  split <;> rfl

theorem sendAll_remoteReg (h : Hub protocol I) (msgs : List (SockId × ServerMsg protocol)) :
    (h.sendAll msgs).remoteReg = h.remoteReg := by
  unfold sendAll
  induction msgs generalizing h with
  | nil => rfl
  | cons m msgs ih => exact (ih _).trans (send_remoteReg h m.1 m.2)

theorem makeMaps_remoteReg (h : Hub protocol I) (did : Did) :
    (h.makeMaps did).remoteReg = (h.makeRemoteMap did).remoteReg := by
  unfold makeMaps makeLocalMap
  split <;> rfl

theorem makeRemoteMap_present {h : Hub protocol I} {did : Did} {m : RemoteMap protocol I}
    (hf : JsMap.find h.remoteReg did = some m) : h.makeRemoteMap did = h := by
  unfold makeRemoteMap
  rw [hf]

theorem makeRemoteMap_find (h : Hub protocol I) (did : Did) :
    JsMap.find (h.makeRemoteMap did).remoteReg did = some (h.remoteMap did) := by
  unfold makeRemoteMap remoteMap
  cases hf : JsMap.find h.remoteReg did with
  | none => exact (JsMap.find_set _ _ _ _).trans (if_pos rfl)
  | some m => exact hf

theorem reconcile_remoteReg (h : Hub protocol I) (did : Did) :
    (h.reconcilePresence did).hub.remoteReg = (h.makeRemoteMap did).remoteReg := by
  have hm := makeMaps_remoteReg h did
  have hs : ∀ (g : Hub protocol I) (now : Bool), (g.sendPresence did now).remoteReg =
      g.remoteReg := fun g now => sendAll_remoteReg g _
  unfold reconcilePresence
  dsimp only
  cases (h.makeMaps did).anyPlaying did with
  | none => exact hm
  | some now =>
    dsimp only
    split
    · cases ((h.makeMaps did).setLastPlaying did now).cleanupOwner did with
      | none => exact hm
      | some owner =>
        cases owner with
        | none => exact (hs _ now).trans hm
        | some owner => exact (hs _ now).trans ((send_remoteReg _ owner.ws _).trans hm)
    · exact (hs _ now).trans hm

theorem broadcast_remoteReg (h : Hub protocol I) (did : Did) :
    ((h.broadcastRoster did).reconcilePresence did).hub.remoteReg =
      (h.makeRemoteMap did).remoteReg := by
  have hb : (h.broadcastRoster did).remoteReg = (h.makeRemoteMap did).remoteReg :=
    (sendAll_remoteReg _ _).trans (makeMaps_remoteReg h did)
  have hfind : JsMap.find (h.broadcastRoster did).remoteReg did = some (h.remoteMap did) := by
    rw [hb, makeRemoteMap_find]
  rw [reconcile_remoteReg, makeRemoteMap_present hfind, hb]

theorem find_row {h : Hub protocol I} {did : Did} {m : RemoteMap protocol I}
    {pre post : List (Did × RemoteMap protocol I)}
    (hrows : h.remoteReg.rows = pre ++ (did, m) :: post) :
    JsMap.find h.remoteReg did = some m := by
  unfold JsMap.find
  rw [(h.remoteReg.get_eq_some did (did, m)).2 ⟨by simp [hrows], rfl⟩]
  rfl

/-- One pruning of a row: an empty map goes, a map that gets empty moves to the end, any
other stays. -/
theorem prune_rows {h : Hub protocol I} {did : Did} {m : RemoteMap protocol I}
    {pre post : List (Did × RemoteMap protocol I)}
    (hrows : h.remoteReg.rows = pre ++ (did, m) :: post) (now : ℕ) :
    (h.pruneRemote now did).hub.remoteReg.rows =
      if m.size = 0 then pre ++ post
      else if (fresh now m).size = 0 then pre ++ post ++ [(did, Table.empty)]
      else pre ++ (did, fresh now m) :: post := by
  have hf := find_row hrows
  unfold Hub.pruneRemote
  rw [hf]
  dsimp only
  have hdel := Table.rows_delete_split (k := did) hrows rfl
  have hset := Table.rows_put_split (v := (did, fresh now m)) hrows rfl
  by_cases hm : m.size = 0
  · have hfresh : (fresh now m).size = 0 := by
      rw [Table.size_eq_zero] at hm
      rw [hm]
      rfl
    rw [if_pos hm, if_pos (hfresh.trans hm.symm)]
    unfold dropStale
    rw [if_pos hfresh]
    exact hdel
  · rw [if_neg hm]
    by_cases hfresh : (fresh now m).size = 0
    · have hdrop : (h.dropStale now did m).remoteReg = h.remoteReg.delete did := by
        unfold dropStale
        rw [if_pos hfresh]
      have hnone : JsMap.find (h.dropStale now did m).remoteReg did = none := by
        rw [hdrop, JsMap.find_delete, if_pos rfl]
      rw [if_pos hfresh, if_neg (by omega), broadcast_remoteReg]
      unfold makeRemoteMap
      rw [hnone]
      show (Table.put (h.dropStale now did m).remoteReg (did, Table.empty)).rows = _
      rw [hdrop, Table.rows_put_new, hdel]
      intro u hu
      exact ((Table.mem_delete _ _ _).1 hu).2
    · have hdrop : (h.dropStale now did m).remoteReg = JsMap.set h.remoteReg did (fresh now m) := by
        unfold dropStale
        rw [if_neg hfresh]
        rfl
      rw [if_neg hfresh]
      split
      · rw [Outcome.hub_ok, hdrop]
        exact hset
      · rw [broadcast_remoteReg]
        unfold makeRemoteMap
        rw [hdrop, JsMap.find_set, if_pos rfl]
        dsimp only
        rw [hdrop]
        exact hset

def visits (e : Did × RemoteMap protocol I) : ℕ := if e.2.size = 0 then 1 else 2

theorem visits_pos (e : Did × RemoteMap protocol I) : 0 < visits e := by
  unfold visits
  split <;> omega

/-- What a visit leaves of the rows: nothing of an empty map, an empty map at the end for one that
has lost all its devices, and any other where it was. -/
theorem visit_cases {h : Hub protocol I} {did : Did} {m : RemoteMap protocol I}
    {pre post : List (Did × RemoteMap protocol I)}
    (hrows : h.remoteReg.rows = pre ++ (did, m) :: post) (now : ℕ) :
    visits (did, m) = 1 ∧ (fresh now m).size = 0 ∧
        (h.pruneRemote now did).hub.remoteReg.rows = pre ++ post ∨
      visits (did, m) = 2 ∧ (fresh now m).size = 0 ∧
        (h.pruneRemote now did).hub.remoteReg.rows = pre ++ (post ++ [(did, Table.empty)]) ∨
      visits (did, m) = 2 ∧ (fresh now m).size ≠ 0 ∧
        (h.pruneRemote now did).hub.remoteReg.rows = pre ++ [(did, fresh now m)] ++ post := by
  have hone := prune_rows hrows now
  unfold visits
  by_cases hm : m.size = 0
  · rw [if_pos hm] at hone
    have hfresh : (fresh now m).size = 0 := by
      rw [Table.size_eq_zero] at hm
      rw [hm]
      rfl
    exact .inl ⟨if_pos hm, hfresh, hone⟩
  · rw [if_neg hm] at hone
    by_cases hfresh : (fresh now m).size = 0
    · rw [if_pos hfresh, List.append_assoc] at hone
      exact .inr (.inl ⟨if_neg hm, hfresh, hone⟩)
    · rw [if_neg hfresh, List.append_cons] at hone
      exact .inr (.inr ⟨if_neg hm, hfresh, hone⟩)

/-- The map that is put back at the end takes one more visit. -/
theorem visits_back (post : List (Did × RemoteMap protocol I)) (did : Did) :
    ((post ++ [(did, Table.empty)]).map visits).sum = (post.map (visits (I := I))).sum + 1 := by
  simp [visits]

theorem fresh_fresh (now : ℕ) (m : RemoteMap protocol I) :
    fresh now (fresh now m) = fresh now m := by
  apply Table.ext
  simp [fresh, Table.filter, List.filter_filter]

theorem find_of_rows {h : Hub protocol I} {l : List (Did × RemoteMap protocol I)} {did : Did}
    (hrows : h.remoteReg.rows = l) (hn : did ∉ l.map Prod.fst) :
    JsMap.find h.remoteReg did = none := by
  unfold JsMap.find
  rw [(h.remoteReg.get_eq_none did).2 fun v hv hk => hn (hk ▸ List.mem_map_of_mem (hrows ▸ hv))]
  rfl

theorem prune_absent {h : Hub protocol I} {did : Did}
    (hn : JsMap.find h.remoteReg did = none) (now : ℕ) : (h.pruneRemote now did).hub = h := by
  unfold Hub.pruneRemote
  rw [hn]
  rfl

theorem prune_again {h : Hub protocol I} {did : Did} {m : RemoteMap protocol I} (now : ℕ)
    (hf : JsMap.find h.remoteReg did = some m) (hfresh : fresh now m = m) (hne : m.size ≠ 0) :
    Agree did mine (h.pruneRemote now did).hub h := by
  unfold Hub.pruneRemote
  rw [hf]
  dsimp only
  rw [hfresh, if_pos rfl]
  unfold dropStale
  rw [hfresh, if_neg hne]
  refine ⟨rfl, ?_, rfl, fun _ _ => rfl, fun _ _ => rfl, rfl, rfl, rfl⟩
  show JsMap.find (JsMap.set h.remoteReg did m) did = _
  rw [JsMap.find_set, if_pos rfl, hf]

/-! ### The sweep -/

theorem nodup_post {h : Hub protocol I} {e : Did × RemoteMap protocol I}
    {pre post : List (Did × RemoteMap protocol I)} (hrows : h.remoteReg.rows = pre ++ e :: post) :
    e.1 ∉ pre.map Prod.fst ∧ e.1 ∉ post.map Prod.fst := by
  have hn := h.remoteReg.nodup
  rw [hrows, List.map_append, List.map_cons, List.nodup_append] at hn
  obtain ⟨_, hcons, hdisj⟩ := hn
  exact ⟨fun hpre => hdisj e.1 hpre e.1 (List.mem_cons_self ..) rfl, (List.nodup_cons.1 hcons).1⟩

theorem split_at {α : Type} {l : List α} {pos : ℕ} {e : α} (hat : l[pos]? = some e) :
    ∃ pre post, l = pre ++ e :: post ∧ pre.length = pos ∧ l.drop pos = e :: post := by
  obtain ⟨hlt, hget⟩ := List.getElem?_eq_some_iff.1 hat
  have hdrop : l.drop pos = e :: l.drop (pos + 1) := by rw [List.drop_eq_getElem_cons hlt, hget]
  refine ⟨l.take pos, l.drop (pos + 1), ?_, ?_, hdrop⟩
  · rw [← hdrop, List.take_append_drop]
  · rw [List.length_take]
    omega

theorem sweep_at {h : Hub protocol I} {pos : ℕ} {did : Did} {m : RemoteMap protocol I}
    (hat : h.remoteReg.rows[pos]? = some (did, m)) (now fuel : ℕ) :
    sweepRemote now (fuel + 1) pos h =
      sweepRemote now fuel (if (fresh now m).size = 0 then pos else pos + 1)
        (h.pruneRemote now did).hub := by
  rw [sweepRemote, hat]
  dsimp only
  rw [pruneRemote_ok]
  rfl

theorem sweep_other {h : Hub protocol I} {did : Did} (hd : did ≠ d) (now : ℕ)
    (hmine : ∀ c ∈ (h.localMap did).rows, ¬ mine c.ws)
    {ps qs : List (Did × RemoteMap protocol I)}
    (hin : d ∈ ps.map Prod.fst ↔ d ∈ qs.map Prod.fst) :
    Agree d mine
      (if d ∈ ps.map Prod.fst then pruneTwice now d (h.pruneRemote now did).hub
        else (h.pruneRemote now did).hub)
      (if d ∈ qs.map Prod.fst then pruneTwice now d h else h) := by
  have hf : Agree d mine (h.pruneRemote now did).hub h := pruneRemote_frame h hd now hmine
  by_cases hq : d ∈ qs.map Prod.fst
  · rw [if_pos (hin.2 hq), if_pos hq]
    exact hf.pruneTwice now
  · rw [if_neg fun hp => hq (hin.1 hp), if_neg hq]
    exact hf

/-- The sweep prunes `d` if it is still to come, and touches nothing of it otherwise. -/
theorem sweep_agree (now fuel : ℕ) {h : Hub protocol I} {pos : ℕ}
    {ps : List (Did × RemoteMap protocol I)} (hdrop : h.remoteReg.rows.drop pos = ps)
    (hfuel : (ps.map visits).sum ≤ fuel)
    (hmine : ∀ did, did ≠ d → ∀ c ∈ (h.localMap did).rows, ¬ mine c.ws) :
    Agree d mine (sweepRemote now fuel pos h).hub
      (if d ∈ ps.map Prod.fst then pruneTwice now d h else h) := by
  induction fuel generalizing h pos ps with
  | zero =>
    cases ps with
    | nil => exact .refl h
    | cons e post =>
      have hv := visits_pos e
      simp only [List.map_cons, List.sum_cons] at hfuel
      omega
  | succ fuel ih =>
    cases hat : h.remoteReg.rows[pos]? with
    | none =>
      have hnil : ps = [] := by
        rw [← hdrop]
        exact List.drop_eq_nil_of_le (List.getElem?_eq_none_iff.1 hat)
      subst hnil
      rw [sweepRemote, hat]
      exact .refl h
    | some e =>
      obtain ⟨did, m⟩ := e
      obtain ⟨pre, post, hrows, hlen, hps⟩ := split_at hat
      rw [hdrop] at hps
      subst hps
      obtain ⟨hpre, hpost⟩ := nodup_post hrows
      dsimp only at hpre hpost
      have hmine1 : ∀ did', did' ≠ d →
          ∀ c ∈ ((h.pruneRemote now did).hub.localMap did').rows, ¬ mine c.ws := by
        intro did' hd'
        rw [(pruneRemote_local h now did).localMap]
        exact hmine did' hd'
      rw [sweep_at hat]
      simp only [List.map_cons, List.sum_cons] at hfuel
      rcases visit_cases hrows now with ⟨hv, hfresh, hone⟩ | ⟨hv, hfresh, hone⟩ | ⟨hv, hfresh, hone⟩
      · rw [if_pos hfresh]
        have hnext : (h.pruneRemote now did).hub.remoteReg.rows.drop pos = post := by
          rw [hone, ← hlen, List.drop_left]
        refine (ih hnext (by omega) hmine1).trans ?_
        by_cases hd : did = d
        · subst hd
          have habs : JsMap.find (h.pruneRemote now did).hub.remoteReg did = none :=
            find_of_rows hone (by simp [hpre, hpost])
          rw [if_neg hpost, if_pos (by simp), pruneTwice, prune_absent habs]
          exact .refl _
        · exact sweep_other hd now (hmine did hd) (by simp [Ne.symm hd])
      · rw [if_pos hfresh]
        have hnext : (h.pruneRemote now did).hub.remoteReg.rows.drop pos =
            post ++ [(did, Table.empty)] := by
          rw [hone, ← hlen, List.drop_left]
        have hsum := visits_back post did
        refine (ih hnext (by omega) hmine1).trans ?_
        by_cases hd : did = d
        · subst hd
          rw [if_pos (by simp), if_pos (by simp), pruneTwice]
          rw [← List.append_assoc] at hone
          have habs : JsMap.find
              ((h.pruneRemote now did).hub.pruneRemote now did).hub.remoteReg did = none :=
            find_of_rows (prune_rows hone now) (by simp [hpre, hpost])
          rw [prune_absent habs]
          exact .refl _
        · exact sweep_other hd now (hmine did hd) (by simp [Ne.symm hd])
      · rw [if_neg hfresh]
        have hnext : (h.pruneRemote now did).hub.remoteReg.rows.drop (pos + 1) = post := by
          rw [hone, ← hlen]
          simp
        refine (ih hnext (by omega) hmine1).trans ?_
        by_cases hd : did = d
        · subst hd
          rw [← List.append_cons] at hone
          have hfind : JsMap.find (h.pruneRemote now did).hub.remoteReg did =
              some (fresh now m) := find_row hone
          rw [if_neg hpost, if_pos (by simp)]
          exact (prune_again now hfind (fresh_fresh now m) hfresh).symm
        · exact sweep_other hd now (hmine did hd) (by simp [Ne.symm hd])

theorem sweep_all (h : Hub protocol I) (now : ℕ)
    (hmine : ∀ did, did ≠ d → ∀ c ∈ (h.localMap did).rows, ¬ mine c.ws) :
    Agree d mine (sweepRemote now (2 * h.remoteReg.size) 0 h).hub (pruneTwice now d h) := by
  have hsum : ∀ rows : List (Did × RemoteMap protocol I),
      (rows.map visits).sum ≤ 2 * rows.length := by
    intro rows
    induction rows with
    | nil => exact Nat.zero_le _
    | cons e rows ih =>
      have hv : visits e ≤ 2 := by
        unfold visits
        split <;> omega
      simp only [List.map_cons, List.sum_cons, List.length_cons]
      omega
  have hdrop : h.remoteReg.rows.drop 0 = h.remoteReg.rows := rfl
  have hs := sweep_agree now (2 * h.remoteReg.size) hdrop (hsum _) hmine
  split at hs
  · exact hs
  · rename_i hn
    have habs : JsMap.find h.remoteReg d = none := find_of_rows rfl hn
    rw [pruneTwice, prune_absent habs, prune_absent habs]
    exact hs

/-! ### The timer -/

theorem terminateAll_socks (h : Hub protocol I) (conns : List (LocalConn protocol)) (ws : SockId) :
    (h.terminateAll conns).socks ws =
      if ∃ c ∈ conns, c.ws = ws then (h.terminate ws).socks ws else h.socks ws := by
  unfold terminateAll
  induction conns generalizing h with
  | nil => simp
  | cons c conns ih =>
    rw [List.foldl_cons, ih]
    by_cases hc : c.ws = ws
    · subst hc
      have hex : ∃ c' ∈ c :: conns, c'.ws = c.ws := ⟨c, List.mem_cons_self .., rfl⟩
      rw [if_pos hex]
      have htwice : ((h.terminate c.ws).terminate c.ws).socks c.ws =
          (h.terminate c.ws).socks c.ws := by
        unfold terminate
        split
        · simp [Hub.setSock]
        · rfl
      rw [htwice, ite_self]
    · have hsame : (h.terminate c.ws).socks ws = h.socks ws := by
        unfold terminate
        split
        · simp [Hub.setSock, Ne.symm hc]
        · rfl
      have hsame' : ((h.terminate c.ws).terminate ws).socks ws = (h.terminate ws).socks ws := by
        unfold terminate at hsame ⊢
        rw [hsame]
        split
        · simp [Hub.setSock]
        · exact hsame
      have hex : (∃ c' ∈ c :: conns, c'.ws = ws) ↔ ∃ c' ∈ conns, c'.ws = ws := by
        simp [hc]
      simp only [hsame, hsame', hex]

theorem terminateAll_last (h : Hub protocol I) (conns : List (LocalConn protocol)) :
    (h.terminateAll conns).lastAnyPlaying = h.lastAnyPlaying := by
  induction conns generalizing h with
  | nil => rfl
  | cons c conns ih =>
    have hone : (h.terminate c.ws).lastAnyPlaying = h.lastAnyPlaying := by
      unfold terminate
      split <;> rfl
    exact (ih _).trans hone

/-- The objects the hub knows belong to `d` where they belong to its sockets. -/
abbrev Owned (d : Did) (mine : SockId → Prop) (D : Option (HelloDevice protocol) → Prop)
    (h : Hub protocol I) : Prop := Held (fun c => c.did = d ↔ mine c.ws) D h

theorem Held.others {h : Hub protocol I} (hh : Owned d mine D h) {did : Did} (hd : did ≠ d) :
    ∀ c ∈ (h.localMap did).rows, ¬ mine c.ws := by
  intro c hc hw
  obtain ⟨hdid, hq⟩ := hh.filed did c hc
  exact hd (hdid.symm.trans (hq.2 hw))

theorem mem_conns {h : Hub protocol I} (p : LocalConn protocol → Bool) (c : LocalConn protocol) :
    c ∈ (h.localReg.rows.flatMap fun e => e.2.rows.filter p) ↔
      ∃ did, c ∈ (h.localMap did).rows ∧ p c := by
  simp only [List.mem_flatMap, List.mem_filter]
  constructor
  · rintro ⟨e, he, hc, hp⟩
    refine ⟨e.1, ?_, hp⟩
    unfold Hub.localMap JsMap.find
    rw [(h.localReg.mem_rows e).1 he]
    exact hc
  · rintro ⟨did, hc, hp⟩
    unfold Hub.localMap JsMap.find at hc
    cases hg : h.localReg.get did with
    | none =>
      rw [hg] at hc
      cases hc
    | some e =>
      rw [hg] at hc
      exact ⟨e, ((Table.get_eq_some _ _ _).1 hg).1, hc, hp⟩

theorem Held.pinged {h : Hub protocol I} (hh : Owned d mine D h) {ws : SockId} (hw : mine ws) :
    (∃ c ∈ h.localReg.rows.flatMap fun e => e.2.rows.filter fun c => !c.alive, c.ws = ws) ↔
      ∃ c ∈ (h.localMap d).rows, c.alive = false ∧ c.ws = ws := by
  constructor
  · rintro ⟨c, hc, rfl⟩
    obtain ⟨did, hc, halive⟩ := (mem_conns _ c).1 hc
    obtain ⟨hdid, hq⟩ := hh.filed did c hc
    obtain rfl : did = d := hdid.symm.trans (hq.2 hw)
    exact ⟨c, hc, by simpa using halive, rfl⟩
  · rintro ⟨c, hc, halive, rfl⟩
    exact ⟨c, (mem_conns _ c).2 ⟨d, hc, by simpa using halive⟩, rfl⟩

theorem Agree.pingAll {h g : Hub protocol I} (a : Agree d mine h g) (hh : Owned d mine D h)
    (hg : Owned d mine D g) : Agree d mine h.pingAll g.pingAll := by
  have hsocks : ∀ ws, mine ws → h.pingAll.socks ws = g.pingAll.socks ws := by
    intro ws hw
    show (h.terminateAll _).socks ws = (g.terminateAll _).socks ws
    rw [terminateAll_socks, terminateAll_socks]
    simp only [hh.pinged hw, hg.pinged hw, a.localMap, a.socks ws hw,
      (a.terminate ws).socks ws hw]
  unfold Hub.pingAll at hsocks ⊢
  generalize (h.localReg.rows.flatMap fun e => e.2.rows.filter fun c => !c.alive) = ch at *
  generalize (g.localReg.rows.flatMap fun e => e.2.rows.filter fun c => !c.alive) = cg at *
  obtain ⟨hl, ho, hr⟩ := terminateAll_local h ch
  obtain ⟨gl, go, gr⟩ := terminateAll_local g cg
  have hp := terminateAll_proc h ch
  have gp := terminateAll_proc g cg
  refine ⟨?_, ?_, ?_, hsocks, fun ws hw => ?_, ?_, ?_, ?_⟩
  · simp only [clearAlive, JsMap.find_mapVals, hl, gl, a.localReg]
  · simp only [clearAlive, hr, gr, a.remoteReg]
  · simp only [clearAlive, terminateAll_last, a.last]
  · simp only [clearAlive, ho, go, a.sent ws hw]
  · exact hp.instanceId.trans (a.instanceId.trans gp.instanceId.symm)
  · exact hp.redis.trans (a.redis.trans gp.redis.symm)
  · exact hp.crashed.trans (a.crashed.trans gp.crashed.symm)

theorem publishAll_frame (h : Hub protocol I) (conns : List (LocalConn protocol)) :
    Agree d mine (conns.foldl (fun h c => h.publish (.update h.instanceId c.toWireDevice)) h) h := by
  induction conns generalizing h with
  | nil => exact .refl h
  | cons c conns ih => exact (ih _).trans (publish_frame h _)

theorem Agree.heartbeat {h g : Hub protocol I} (a : Agree d mine h g) (hh : Owned d mine D h)
    (hg : Owned d mine D g) (now : ℕ) :
    Agree d mine (h.heartbeatRemotePresence now).hub (g.heartbeatRemotePresence now).hub := by
  have hsweep : ∀ k : Hub protocol I, Owned d mine D k →
      Agree d mine (k.heartbeatRemotePresence now).hub (Hub.pruneTwice now d k) := by
    intro k hk
    have hv := publishAll_view k (k.localReg.rows.flatMap fun e => e.2.rows)
    have hf : Agree d mine (List.foldl (fun h c => h.publish (.update h.instanceId c.toWireDevice))
        k (k.localReg.rows.flatMap fun e => e.2.rows)) k := publishAll_frame k _
    exact (sweep_all _ now fun did hd => (hv.toSameRegs.toLocal.held hk).others hd).trans
      (hf.pruneTwice now)
  exact (hsweep h hh).trans ((a.pruneTwice now).trans (hsweep g hg).symm)

theorem Agree.tick {h g : Hub protocol I} (a : Agree d mine h g) (hh : Owned d mine D h)
    (hg : Owned d mine D g) (now : ℕ) :
    Agree d mine (h.onTick now).hub (g.onTick now).hub := by
  have hstable : Stable fun c : LocalConn protocol => c.did = d ↔ mine c.ws :=
    ⟨fun _ _ hq => hq, fun _ _ hq => hq⟩
  exact (a.pingAll hh hg).heartbeat (hh.pingAll hstable) (hg.pingAll hstable) now

end Atradio.Connect.Hub
