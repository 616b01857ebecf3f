import Mathlib.Data.Fintype.EquivFin
import Atradio.Lib.Unwinding
import Atradio.Connect.Sweep

/-! # Account isolation

What the sockets of an account are sent depends on their own events, the clock and the
relay messages about the account. -/

namespace Atradio.Connect

def RelayMsg.did {P : Payload} {I : Type} : RelayMsg P I → Did
  | .join _ d | .update _ d => d.did
  | .leave _ did _ | .command _ did _ _ _ => did

namespace Hub
open Atradio.Lib

variable {I : Type} {d : Did} {mine : SockId → Prop} {D : Option (HelloDevice protocol) → Prop}

/-! ### Relay messages -/

theorem Agree.onRelay [DecidableEq I] {h g : Hub protocol I} (a : Agree d mine h g) (now : ℕ)
    {msg : RelayMsg protocol I} (hd : msg.did = d) :
    Agree d mine (h.onRelay now msg).hub (g.onRelay now msg).hub := by
  cases msg with
  | command inst did target src cmd =>
    obtain rfl : did = d := hd
    simp only [Hub.onRelay, a.instanceId]
    split
    · exact a
    · exact (a.deliverCommand target src cmd).1
  | leave inst did deviceId =>
    obtain rfl : did = d := hd
    simp only [Hub.onRelay, a.instanceId, a.remoteReg]
    split
    · exact a
    · split
      · exact a
      · split
        · exact a
        · exact (a.setRemoteMap _).broadcast
  | join inst r | update inst r =>
    obtain rfl : r.did = d := hd
    simp only [Hub.onRelay, a.instanceId, a.remoteMap]
    split
    · exact a
    · exact (a.setRemoteMap _).broadcast

theorem setRemote_frame (h : Hub protocol I) {did : Did} (hd : did ≠ d)
    (hrows : ∀ c ∈ (h.localMap did).rows, ¬ mine c.ws) (m : RemoteMap protocol I) :
    Agree d mine (((h.setRemoteMap did m).broadcastRoster did).reconcilePresence did).hub h := by
  have hl := (setRemoteMap_local h did m).localMap did
  have hb : Agree d mine (((h.setRemoteMap did m).broadcastRoster did).reconcilePresence did).hub
      (h.setRemoteMap did m) := broadcast_frame _ hd (hl.symm ▸ hrows)
  exact hb.trans (setRemoteMap_frame h hd m)

theorem onRelay_frame [DecidableEq I] (h : Hub protocol I) (now : ℕ)
    {msg : RelayMsg protocol I} (hd : msg.did ≠ d)
    (hrows : ∀ c ∈ (h.localMap msg.did).rows, ¬ mine c.ws) :
    Agree d mine (h.onRelay now msg).hub h := by
  cases msg with
  | command inst did target src cmd =>
    simp only [Hub.onRelay]
    split
    · exact .refl h
    · exact deliverCommand_frame h hd hrows target src cmd
  | leave inst did deviceId =>
    simp only [Hub.onRelay]
    split
    · exact .refl h
    · split
      · exact .refl h
      · split
        · exact .refl h
        · exact setRemote_frame h hd hrows _
  | join inst r | update inst r =>
    simp only [Hub.onRelay]
    split
    · exact .refl h
    · exact setRemote_frame h hd hrows _

/-! ### Events -/

theorem Agree.uncaught {h g : Hub protocol I} {o o' : Outcome protocol I}
    (ho : Returns (fun _ => True) h o) (ho' : Returns (fun _ => True) g o')
    (a : Agree d mine o.hub o'.hub) : Agree d mine o.uncaught o'.uncaught := by
  obtain ⟨h', rfl, _, _⟩ := ho
  obtain ⟨g', rfl, _, _⟩ := ho'
  exact a

theorem uncaught_frame {h : Hub protocol I} {o : Outcome protocol I}
    (ho : Returns (fun _ => True) h o) (a : Agree d mine o.hub h) : Agree d mine o.uncaught h := by
  obtain ⟨h', rfl, _, _⟩ := ho
  exact a

theorem message_ok (h : Hub protocol I) (ws : SockId) (msg : Frame protocol) :
    Returns (fun _ => True) h (h.onMessage ws msg) :=
  (sound_protocol h).message_returns total_protocol ws msg fun _ _ _ _ => trivial

theorem Agree.message {h g : Hub protocol I} (a : Agree d mine h g) (hh : Owned d mine D h)
    {ws : SockId} (hw : mine ws) (msg : Frame protocol) :
    Agree d mine (h.onMessage ws msg).hub (g.onMessage ws msg).hub := by
  have hs := a.socks ws hw
  unfold onMessage
  rw [← hs]
  cases hc : (h.socks ws).conn with
  | none =>
    cases msg with
    | hello device =>
      refine a.setSock ws fun _ => ?_
      rw [hs]
    | _ => exact a
  | some conn =>
    obtain ⟨rfl, hq⟩ := hh.own ws conn hc
    have hd := hq.2 hw
    cases msg with
    | state state => exact a.handleState hd hw state
    | command target cmd => exact a.handleCommand hd target cmd
    | bye => exact a.close conn.ws 1000 "bye"
    | _ => exact a

theorem message_frame {h : Hub protocol I} (hh : Owned d mine D h) {ws : SockId} (hw : ¬ mine ws)
    (msg : Frame protocol) : Agree d mine (h.onMessage ws msg).hub h := by
  unfold onMessage
  cases hc : (h.socks ws).conn with
  | none =>
    cases msg with
    | hello device => exact setSock_frame h hw _
    | _ => exact .refl h
  | some conn =>
    obtain ⟨rfl, hq⟩ := hh.own ws conn hc
    have hd : conn.did ≠ d := fun hd => hw (hq.1 hd)
    cases msg with
    | state state => exact handleState_frame h hd hw state (hh.others hd)
    | command target cmd => exact handleCommand_frame h hd (hh.others hd) target cmd
    | bye => exact close_frame h hw 1000 "bye"
    | _ => exact .refl h

/-- The hello frame whose verification completes had a device. -/
def Ready (h : Hub protocol I) : Event protocol I → Prop
  | .verified ws hello _ => (h.socks ws).verifying.lookup hello ≠ some none
  | _ => True

theorem Held.ready {h : Hub protocol I} (hh : Owned d mine (fun device => device ≠ none) h)
    (e : Event protocol I) : Ready h e := by
  cases e with
  | verified ws hello did => exact fun hv => hh.pending ws _ (mem_of_lookup hv) rfl
  | _ => trivial

theorem verified_ok {h : Hub protocol I} (now : ℕ) {ws : SockId} {hello : ℕ} {did : Did}
    (hready : Ready h (.verified ws hello did)) :
    Returns (fun _ => True) h (h.onVerified now ws hello did) := by
  refine (sound_protocol h).verified_returns total_protocol now ws hello did fun device hv => ?_
  cases device with
  | none => exact (hready hv).elim
  | some device => exact ⟨device, rfl, trivial⟩

theorem Agree.verified {h g : Hub protocol I} (a : Agree d mine h g) (now : ℕ) {ws : SockId}
    (hw : mine ws) {hello : ℕ} (hready : Ready h (.verified ws hello d)) :
    Agree d mine (h.onVerified now ws hello d).hub (g.onVerified now ws hello d).hub := by
  have hs := a.socks ws hw
  unfold onVerified
  rw [← hs]
  cases hv : (h.socks ws).verifying.lookup hello with
  | none => exact a
  | some device =>
    cases device with
    | none => exact (hready hv).elim
    | some device =>
      have ha : Agree d mine (h.awaited ws hello) (g.awaited ws hello) := by
        refine a.setSock ws fun _ => ?_
        rw [hs]
      have hver := ha.helloVerified now ws hello device
      dsimp only
      rw [helloVerified_ok (h.awaited ws hello), helloVerified_ok (g.awaited ws hello)]
      refine hver.setSock ws fun _ => ?_
      rw [hver.socks ws hw]

theorem verified_frame {h : Hub protocol I} (hh : Owned d mine D h) (now : ℕ) {ws : SockId}
    (hw : ¬ mine ws) {hello : ℕ} {did : Did} (hd : did ≠ d)
    (hready : Ready h (.verified ws hello did)) :
    Agree d mine (h.onVerified now ws hello did).hub h := by
  unfold onVerified
  cases hv : (h.socks ws).verifying.lookup hello with
  | none => exact .refl h
  | some device =>
    cases device with
    | none => exact (hready hv).elim
    | some device =>
      have ha : Agree d mine (h.awaited ws hello) h := setSock_frame h hw _
      have hver : Agree d mine ((h.awaited ws hello).onHelloVerified now ws hello did
          (some device)).hub (h.awaited ws hello) :=
        helloVerified_frame _ hd hw now hello device ((hh.awaited ws hello).others hd)
      dsimp only
      rw [helloVerified_ok]
      exact (setSock_frame _ hw _).trans (hver.trans ha)

theorem Agree.rejected {h g : Hub protocol I} (a : Agree d mine h g) {ws : SockId} (hw : mine ws)
    (hello : ℕ) (message : String) :
    Agree d mine (h.onRejected ws hello message) (g.onRejected ws hello message) := by
  have hs := a.socks ws hw
  unfold onRejected
  rw [← hs]
  split
  · exact a
  · have ha : Agree d mine (h.awaited ws hello) (g.awaited ws hello) := by
      refine a.setSock ws fun _ => ?_
      rw [hs]
    have hr := (ha.send ws (.error "AuthFailed" message)).close ws 4001 "auth failed"
    refine hr.setSock ws fun _ => ?_
    rw [onHelloRejected, onHelloRejected, hr.socks ws hw]

theorem rejected_frame (h : Hub protocol I) {ws : SockId} (hw : ¬ mine ws) (hello : ℕ)
    (message : String) : Agree d mine (h.onRejected ws hello message) h := by
  unfold onRejected
  split
  · exact .refl h
  · have ha : Agree d mine (h.awaited ws hello) h := setSock_frame h hw _
    have hr := (close_frame _ hw 4001 "auth failed").trans
      ((send_frame _ hw (.error "AuthFailed" message)).trans ha)
    exact (setSock_frame _ hw _).trans hr

theorem Agree.timeout {h g : Hub protocol I} (a : Agree d mine h g) {ws : SockId} (hw : mine ws) :
    Agree d mine (h.onHelloTimeout ws) (g.onHelloTimeout ws) := by
  unfold onHelloTimeout
  rw [a.socks ws hw]
  split
  · have hk : Agree d mine (h.setSock ws { g.socks ws with helloTimer := false })
        (g.setSock ws { g.socks ws with helloTimer := false }) := a.setSock ws fun _ => rfl
    have hw' := hk.socks ws hw
    dsimp only
    rw [hw']
    split
    · exact hk.close ws 4008 "hello timeout"
    · exact hk
  · exact a

theorem timeout_frame (h : Hub protocol I) {ws : SockId} (hw : ¬ mine ws) :
    Agree d mine (h.onHelloTimeout ws) h := by
  unfold onHelloTimeout
  split
  · have hk : Agree d mine (h.setSock ws { h.socks ws with helloTimer := false }) h :=
      setSock_frame h hw _
    dsimp only
    split
    · exact (close_frame _ hw 4008 "hello timeout").trans hk
    · exact hk
  · exact .refl h

theorem onClose_ok (h : Hub protocol I) (ws : SockId) :
    Returns (fun _ => True) h (h.onClose ws) := by
  unfold onClose
  dsimp only
  split
  · exact ⟨_, rfl, sound_protocol _, rfl⟩
  · rename_i conn _
    obtain ⟨h', ho, hs, hcr⟩ := (sound_protocol (h.setSock ws { h.socks ws with
      readyState := .closed, helloTimer := false })).remove_returns total_protocol conn
    exact ⟨h', ho, hs, hcr⟩

theorem Agree.onClose {h g : Hub protocol I} (a : Agree d mine h g) (hh : Owned d mine D h)
    {ws : SockId} (hw : mine ws) : Agree d mine (h.onClose ws).hub (g.onClose ws).hub := by
  have hs := a.socks ws hw
  unfold Hub.onClose
  dsimp only
  rw [← hs]
  have hk : Agree d mine
      (h.setSock ws { h.socks ws with readyState := .closed, helloTimer := false })
      (g.setSock ws { h.socks ws with readyState := .closed, helloTimer := false }) :=
    a.setSock ws fun _ => rfl
  generalize h.setSock ws { h.socks ws with readyState := .closed, helloTimer := false } = h1 at *
  generalize g.setSock ws { h.socks ws with readyState := .closed, helloTimer := false } = g1 at *
  cases hc : (h.socks ws).conn with
  | none => exact hk
  | some conn =>
    obtain ⟨hws, hq⟩ := hh.own ws conn hc
    exact hk.removeConn (hq.2 (hws ▸ hw))

theorem onClose_frame {h : Hub protocol I} (hh : Owned d mine D h) {ws : SockId} (hw : ¬ mine ws) :
    Agree d mine (h.onClose ws).hub h := by
  unfold Hub.onClose
  dsimp only
  have hk : Agree d mine (h.setSock ws { h.socks ws with
      readyState := .closed, helloTimer := false }) h := setSock_frame h hw _
  have hl : (h.setSock ws { h.socks ws with
      readyState := .closed, helloTimer := false }).localMap = h.localMap := rfl
  generalize h.setSock ws { h.socks ws with readyState := .closed, helloTimer := false } = h1 at *
  cases hc : (h.socks ws).conn with
  | none => exact hk
  | some conn =>
    obtain ⟨hws, hq⟩ := hh.own ws conn hc
    have hd : conn.did ≠ d := fun hd => hw (hws ▸ hq.1 hd)
    have hrows := hl ▸ hh.others hd
    exact (removeConn_frame _ hd hrows).trans hk

theorem Agree.onPong {h g : Hub protocol I} (a : Agree d mine h g) (hh : Owned d mine D h)
    {ws : SockId} (hw : mine ws) : Agree d mine (h.onPong ws) (g.onPong ws) := by
  unfold Hub.onPong
  rw [← a.socks ws hw]
  cases hc : (h.socks ws).conn with
  | none => exact a
  | some conn =>
    obtain ⟨hws, hq⟩ := hh.own ws conn hc
    exact a.markAlive (hq.2 (hws ▸ hw))

theorem onPong_frame {h : Hub protocol I} (hh : Owned d mine D h) {ws : SockId} (hw : ¬ mine ws) :
    Agree d mine (h.onPong ws) h := by
  unfold Hub.onPong
  cases hc : (h.socks ws).conn with
  | none => exact .refl h
  | some conn =>
    obtain ⟨hws, hq⟩ := hh.own ws conn hc
    exact markAlive_frame h fun hd => hw (hws ▸ hq.1 hd)

theorem onTick_ok (h : Hub protocol I) (now : ℕ) : Returns (fun _ => True) h (h.onTick now) :=
  (sound_protocol h).tick_returns total_protocol now

/-- The events an account takes part in: those of its sockets, the timer, and the relay
messages about it. -/
def Concerns (d : Did) (mine : SockId → Prop) : Event protocol I → Prop
  | .frame ws _ | .verified ws _ _ | .rejected ws _ _ | .helloTimeout ws | .pong ws
  | .closing ws | .close ws => mine ws
  | .tick => True
  | .relay msg => msg.did = d

/-- A token of `d` is presented on the sockets of `d` and on no others. -/
def Belongs (d : Did) (mine : SockId → Prop) : Event protocol I → Prop
  | .verified ws _ did => did = d ↔ mine ws
  | _ => True

theorem Agree.handle [DecidableEq I] {h g : Hub protocol I} (a : Agree d mine h g)
    (hh : Owned d mine (fun device => device ≠ none) h)
    (hg : Owned d mine (fun device => device ≠ none) g) {i : Input protocol I}
    (hi : Concerns d mine i.event) (hb : Belongs d mine i.event) :
    Agree d mine (h.handle i) (g.handle i) := by
  obtain ⟨now, event⟩ := i
  have hready := hh.ready event
  have hready' := hg.ready event
  cases event with
  | frame ws msg =>
    have hs := a.socks ws hi
    simp only [Hub.handle, hs]
    split
    · exact a
    · exact Agree.uncaught (message_ok h ws msg) (message_ok g ws msg) (a.message hh hi msg)
  | verified ws hello did =>
    obtain rfl : did = d := hb.2 hi
    exact Agree.uncaught (verified_ok now hready) (verified_ok now hready')
      (a.verified now hi hready)
  | rejected ws hello message => exact a.rejected hi hello message
  | helloTimeout ws => exact a.timeout hi
  | pong ws => exact a.onPong hh hi
  | closing ws => exact a.terminate ws
  | close ws =>
    have hs := a.socks ws hi
    simp only [Hub.handle, hs]
    split
    · exact a
    · exact Agree.uncaught (onClose_ok h ws) (onClose_ok g ws) (a.onClose hh hi)
  | tick => exact Agree.uncaught (onTick_ok h now) (onTick_ok g now) (a.tick hh hg now)
  | relay msg => exact a.onRelay now hi

theorem handle_frame [DecidableEq I] {h : Hub protocol I} (hh : Owned d mine D h)
    {i : Input protocol I} (hi : ¬ Concerns d mine i.event) (hb : Belongs d mine i.event)
    (hready : Ready h i.event) : Agree d mine (h.handle i) h := by
  obtain ⟨now, event⟩ := i
  cases event with
  | frame ws msg =>
    simp only [Hub.handle]
    split
    · exact .refl h
    · exact uncaught_frame (message_ok h ws msg) (message_frame hh hi msg)
  | verified ws hello did =>
    exact uncaught_frame (verified_ok now hready)
      (verified_frame hh now hi (fun hd => hi (hb.1 hd)) hready)
  | rejected ws hello message => exact rejected_frame h hi hello message
  | helloTimeout ws => exact timeout_frame h hi
  | pong ws => exact onPong_frame hh hi
  | closing ws => exact terminate_frame h hi
  | close ws =>
    simp only [Hub.handle]
    split
    · exact .refl h
    · exact uncaught_frame (onClose_ok h ws) (onClose_frame hh hi)
  | tick => exact (hi trivial).elim
  | relay msg => exact onRelay_frame h now hi (hh.others hi)

/-! ### Sockets without an account -/

/-- What a socket may be sent before a token of it is verified. -/
def IsError (msg : ServerMsg protocol) : Prop := ∃ code message, msg = .error code message

theorem sentTo_close (h : Hub protocol I) (ws : SockId) (code : ℕ) (reason : String) :
    ∀ ws', sentTo ws' (h.close ws code reason).out = sentTo ws' h.out := by
  intro ws'
  unfold close
  split
  · rw [sentTo_effect]
    exact List.append_nil _
  · rfl

theorem rejected_errors (h : Hub protocol I) (ws : SockId) (hello : ℕ) (message : String)
    (hout : h.out = []) : ∀ msg ∈ sentTo ws (h.onRejected ws hello message).out, IsError msg := by
  intro msg hmsg
  unfold onRejected at hmsg
  split at hmsg
  · rw [hout] at hmsg
    cases hmsg
  · have hsent : msg ∈ sentTo ws (((h.awaited ws hello).send ws (.error "AuthFailed" message)).close
        ws 4001 "auth failed").out := hmsg
    rw [sentTo_close] at hsent
    have h0 : (h.awaited ws hello).out = [] := hout
    unfold send at hsent
    split at hsent
    · rw [sentTo_effect, h0] at hsent
      simp only [sentTo, List.filterMap_nil, List.nil_append, List.filterMap_cons, ite_true,
        List.mem_singleton] at hsent
      exact ⟨_, _, hsent⟩
    · rw [h0] at hsent
      cases hsent

/-- The socket `ws` has no object, and no object is of the account `d`. -/
abbrev Unowned (d : Did) (ws : SockId) (h : Hub protocol I) : Prop :=
  Held (fun c => c.did ≠ d ∧ c.ws ≠ ws) (fun _ => True) h

theorem Held.owned {ws : SockId} {h : Hub protocol I} (hh : Unowned d ws h) :
    Owned d (fun ws' => ws' = ws) (fun _ => True) h :=
  hh.weaken (fun _ hq => ⟨fun hd => (hq.1 hd).elim, fun hw => (hq.2 hw).elim⟩) fun _ hd => hd

def Foreign (d : Did) (ws : SockId) : Event protocol I → Prop
  | .verified ws' _ did => did ≠ d ∧ ws' ≠ ws
  | .relay msg => msg.did ≠ d
  | _ => True

theorem tick_unowned {ws : SockId} {h : Hub protocol I} (hh : Unowned d ws h) (now : ℕ) :
    sentTo ws (h.onTick now).uncaught.out = sentTo ws h.out := by
  have hstable : Stable fun c : LocalConn protocol => c.did ≠ d ∧ c.ws ≠ ws :=
    ⟨fun _ _ hq => hq, fun _ _ hq => hq⟩
  have hping := hh.pingAll hstable
  have hout : h.pingAll.out = h.out := (terminateAll_local h _).2.1
  obtain ⟨k', ho, -, -⟩ := onTick_ok h now
  rw [ho, ← hout]
  have hk : k' = (h.onTick now).hub := by rw [ho]; rfl
  show sentTo ws k'.out = _
  rw [hk]
  unfold onTick heartbeatRemotePresence
  generalize h.pingAll = g at hping ⊢
  dsimp only
  have hv := publishAll_view g (g.localReg.rows.flatMap fun e => e.2.rows)
  have hf : ∀ d', Agree d' (fun ws' => ws' = ws)
      (List.foldl (fun h c => h.publish (.update h.instanceId c.toWireDevice))
        g (g.localReg.rows.flatMap fun e => e.2.rows)) g := fun d' => publishAll_frame g _
  generalize List.foldl (fun h c => h.publish (.update h.instanceId c.toWireDevice))
    g (g.localReg.rows.flatMap fun e => e.2.rows) = k at hv hf ⊢
  -- seen by an account without remote devices, the sweep does nothing
  obtain ⟨d', hd'⟩ := Infinite.exists_notMem_finset (k.remoteReg.rows.map Prod.fst).toFinset
  have habs : JsMap.find k.remoteReg d' = none := find_of_rows rfl (by simpa using hd')
  have hmine : ∀ did, did ≠ d' → ∀ c ∈ (k.localMap did).rows, ¬ c.ws = ws := by
    intro did _ c hc
    rw [hv.localMap] at hc
    exact (hping.filed did c hc).2.2
  have hs : Agree d' (fun ws' => ws' = ws) (sweepRemote now (2 * k.remoteReg.size) 0 k).hub
      (pruneTwice now d' k) := sweep_all k now hmine
  rw [pruneTwice, prune_absent habs, prune_absent habs] at hs
  exact (hs.trans (hf d')).sent ws rfl

theorem unverified_sent [DecidableEq I] {ws : SockId} {h : Hub protocol I} (hh : Unowned d ws h)
    (hout : h.out = []) {i : Input protocol I} (hi : Foreign d ws i.event) :
    ∀ msg ∈ sentTo ws (h.handle i).out, IsError msg := by
  have hnone : (h.socks ws).conn = none := by
    cases hc : (h.socks ws).conn with
    | none => rfl
    | some c => exact ((hh.own ws c hc).2.2 (hh.own ws c hc).1).elim
  have hnil : sentTo ws h.out = [] := by rw [hout]; rfl
  have hquiet : sentTo ws (h.handle i).out = sentTo ws h.out →
      ∀ msg ∈ sentTo ws (h.handle i).out, IsError msg := by
    intro heq msg hmsg
    rw [heq, hnil] at hmsg
    cases hmsg
  have hframe : ¬ Concerns d (fun ws' => ws' = ws) i.event →
      Belongs d (fun ws' => ws' = ws) i.event → Ready h i.event →
      ∀ msg ∈ sentTo ws (h.handle i).out, IsError msg :=
    fun hc hb hr => hquiet ((handle_frame hh.owned hc hb hr).sent ws rfl)
  obtain ⟨now, event⟩ := i
  cases event with
  | frame ws' msg =>
    by_cases hw : ws' = ws
    · subst hw
      refine hquiet ?_
      simp only [Hub.handle, onMessage, hnone]
      split
      · rfl
      · cases msg <;> rfl
    · exact hframe hw trivial trivial
  | verified ws' hello did =>
    obtain ⟨hd, hw⟩ := hi
    by_cases hv : (h.socks ws').verifying.lookup hello = some none
    · refine hquiet ?_
      simp only [Hub.handle, onVerified, hv]
      rfl
    · exact hframe hw ⟨fun h' => (hd h').elim, fun h' => (hw h').elim⟩ hv
  | rejected ws' hello message =>
    by_cases hw : ws' = ws
    · subst hw
      exact rejected_errors h ws' hello message hout
    · exact hframe hw trivial trivial
  | helloTimeout ws' =>
    by_cases hw : ws' = ws
    · subst hw
      refine hquiet ?_
      simp only [Hub.handle, onHelloTimeout]
      split
      · split
        · rw [sentTo_close]
          rfl
        · rfl
      · rfl
    · exact hframe hw trivial trivial
  | pong ws' =>
    by_cases hw : ws' = ws
    · subst hw
      refine hquiet ?_
      simp only [Hub.handle, Hub.onPong, hnone]
    · exact hframe hw trivial trivial
  | closing ws' =>
    by_cases hw : ws' = ws
    · refine hquiet ?_
      simp only [Hub.handle, terminate]
      split <;> rfl
    · exact hframe hw trivial trivial
  | close ws' =>
    by_cases hw : ws' = ws
    · subst hw
      refine hquiet ?_
      simp only [Hub.handle]
      split
      · rfl
      · simp only [Hub.onClose, hnone]
        rfl
    · exact hframe hw trivial trivial
  | tick => exact hquiet (tick_unowned hh now)
  | relay msg => exact hframe hi trivial trivial

theorem Agree.clear {h g : Hub protocol I} (a : Agree d mine h g) :
    Agree d mine { h with out := [] } { g with out := [] } :=
  ⟨a.localReg, a.remoteReg, a.last, a.socks, fun _ _ => rfl, a.instanceId, a.redis, a.crashed⟩

theorem Agree.step [DecidableEq I] {h g : Hub protocol I}
    (a : Agree d mine { h with out := [] } { g with out := [] })
    (hh : Owned d mine (fun device => device ≠ none) h)
    (hg : Owned d mine (fun device => device ≠ none) g) {i : Input protocol I}
    (hi : Concerns d mine i.event) (hb : Belongs d mine i.event) :
    Agree d mine (h.step i) (g.step i) := by
  have hcr : h.crashed = g.crashed := a.crashed
  unfold Hub.step
  by_cases hg' : g.crashed
  · rw [if_pos hg', if_pos (hcr.trans hg')]
    exact a
  · rw [if_neg hg', if_neg (hcr ▸ hg')]
    exact a.handle hh.clear hg.clear hi hb

theorem step_frame [DecidableEq I] {h : Hub protocol I}
    (hh : Owned d mine (fun device => device ≠ none) h) {i : Input protocol I}
    (hi : ¬ Concerns d mine i.event) (hb : Belongs d mine i.event) :
    Agree d mine (h.step i) { h with out := [] } := by
  unfold Hub.step
  split
  · exact .refl _
  · exact handle_frame hh.clear hi hb (hh.clear.ready i.event)

/-! ### Runs of several instances -/

variable [DecidableEq I]

def stepAt (N : I → Hub protocol I) (e : I × Input protocol I) : I → Hub protocol I :=
  fun q => if q = e.1 then (N q).step e.2 else N q

def sentAt (p : I) (ws : SockId) (N : I → Hub protocol I) (e : I × Input protocol I) :
    List (ServerMsg protocol) :=
  if e.1 = p then sentTo ws ((N p).step e.2).out else []

/-- The frames sent to the socket `ws` of instance `p` in a run; `redis` says which
instances have a relay. -/
def inbox (redis : I → Bool) (p : I) (ws : SockId) (es : List (I × Input protocol I)) :
    List (ServerMsg protocol) :=
  trace stepAt (sentAt p ws) (fun q => init q (redis q)) es

def verifiedAs (d : Did) (es : List (I × Input protocol I)) (p : I) (ws : SockId) : Bool :=
  es.any fun e =>
    match e.2.event with
    | .verified ws' _ did => e.1 = p ∧ ws' = ws ∧ did = d
    | _ => false

theorem verifiedAs_iff (d : Did) (es : List (I × Input protocol I)) (p : I) (ws : SockId) :
    verifiedAs d es p ws = true ↔ ∃ now hello, (p, ⟨now, .verified ws hello d⟩) ∈ es := by
  unfold verifiedAs
  rw [List.any_eq_true]
  constructor
  · rintro ⟨⟨q, now, event⟩, he, hv⟩
    cases event with
    | verified ws' hello did =>
      obtain ⟨rfl, rfl, rfl⟩ := of_decide_eq_true hv
      exact ⟨now, hello, he⟩
    | _ => cases hv
  · rintro ⟨now, hello, he⟩
    exact ⟨_, he, by simp⟩

/-- The events a run has for `d`: those of the sockets verified as `d`, the timers, and
the relay messages about `d`. -/
def concerns (d : Did) (es : List (I × Input protocol I)) (e : I × Input protocol I) : Bool :=
  match e.2.event with
  | .frame ws _ | .verified ws _ _ | .rejected ws _ _ | .helloTimeout ws | .pong ws
  | .closing ws | .close ws => verifiedAs d es e.1 ws
  | .tick => true
  | .relay msg => msg.did = d

theorem concerns_iff (d : Did) (es : List (I × Input protocol I)) (e : I × Input protocol I) :
    concerns d es e = true ↔ Concerns d (fun ws => verifiedAs d es e.1 ws = true) e.2.event := by
  obtain ⟨p, now, event⟩ := e
  cases event <;> simp [concerns, Concerns]

def WellFormed (es : List (I × Input protocol I)) : Prop :=
  ∀ e ∈ es, ∀ ws, e.2.event ≠ .frame ws (.hello none)

def OneAccount (es : List (I × Input protocol I)) : Prop :=
  ∀ p ws did did', verifiedAs did es p ws → verifiedAs did' es p ws → did = did'

/-- What the events of a run satisfy, given the sockets of `d`. -/
def EventGuard (d : Did) (mine : I → SockId → Prop) (e : I × Input protocol I) : Prop :=
  (∀ ws, e.2.event ≠ .frame ws (.hello none)) ∧ Belongs d (mine e.1) e.2.event

omit [DecidableEq I] in
theorem EventGuard.held {d : Did} {mine : I → SockId → Prop} {e : I × Input protocol I}
    (hg : EventGuard d mine e) :
    HeldGuard (fun c => c.did = d ↔ mine e.1 c.ws) (fun device => device ≠ none) e.2 := by
  obtain ⟨p, now, event⟩ := e
  obtain ⟨hwell, hb⟩ := hg
  cases event with
  | frame ws msg =>
    cases msg with
    | hello device =>
      intro hnone
      subst hnone
      exact hwell ws rfl
    | _ => trivial
  | verified ws hello did => exact fun _ => hb
  | _ => trivial

/-- The hubs unwind for the account: related states agree for it at every instance. -/
theorem isolation_unwinds (d : Did) (mine : I → SockId → Prop) {p : I} {ws : SockId}
    (hws : mine p ws) {seen : I × Input protocol I → Prop}
    (hseen : ∀ e, seen e ↔ Concerns d (mine e.1) e.2.event) :
    Unwinds stepAt (sentAt p ws) seen
      (fun N => ∀ q, Owned d (mine q) (fun device => device ≠ none) (N q)) (EventGuard d mine)
      (fun N M => ∀ q, Agree d (mine q) { N q with out := [] } { M q with out := [] }) := by
  have hstable : ∀ q, Stable fun c : LocalConn protocol => c.did = d ↔ mine q c.ws :=
    fun _ => ⟨fun _ _ hq => hq, fun _ _ hq => hq⟩
  refine ⟨fun N e hN hg q => ?_, fun N M e hN hM hr hg hv => ⟨fun q => ?_, ?_⟩,
    fun N M e hN hr hg hv => ⟨fun q => ?_, ?_⟩⟩
  · unfold stepAt
    by_cases hq : q = e.1
    · subst hq
      rw [if_pos rfl]
      exact (hN e.1).step (hstable e.1) e.2 hg.held
    · rw [if_neg hq]
      exact hN q
  · unfold stepAt
    by_cases hq : q = e.1
    · subst hq
      rw [if_pos rfl, if_pos rfl]
      exact ((hr e.1).step (hN e.1) (hM e.1) ((hseen e).1 hv) hg.2).clear
    · rw [if_neg hq, if_neg hq]
      exact hr q
  · unfold sentAt
    by_cases hp : e.1 = p
    · subst hp
      rw [if_pos rfl, if_pos rfl]
      exact ((hr e.1).step (hN e.1) (hM e.1) ((hseen e).1 hv) hg.2).sent ws hws
    · rw [if_neg hp, if_neg hp]
  · unfold stepAt
    by_cases hq : q = e.1
    · subst hq
      rw [if_pos rfl]
      exact (step_frame (hN e.1) (fun hc => hv ((hseen e).2 hc)) hg.2).clear.trans (hr e.1)
    · rw [if_neg hq]
      exact hr q
  · unfold sentAt
    by_cases hp : e.1 = p
    · subst hp
      rw [if_pos rfl]
      exact (step_frame (hN e.1) (fun hc => hv ((hseen e).2 hc)) hg.2).sent ws hws
    · rw [if_neg hp]

theorem verified_mem_concerns {d : Did} {es : List (I × Input protocol I)} (p : I) (ws : SockId) :
    verifiedAs d es p ws = true ↔ verifiedAs d (es.filter (concerns d es)) p ws = true := by
  rw [verifiedAs_iff, verifiedAs_iff]
  refine exists_congr fun now => exists_congr fun hello => ?_
  rw [List.mem_filter]
  refine ⟨fun he => ⟨he, ?_⟩, And.left⟩
  exact (verifiedAs_iff d es p ws).2 ⟨now, hello, he⟩

theorem eventGuard_of {d : Did} {es : List (I × Input protocol I)} (hwell : WellFormed es)
    (hone : OneAccount es) : ∀ e ∈ es, EventGuard d (fun p ws => verifiedAs d es p ws = true) e := by
  rintro ⟨p, now, event⟩ he
  refine ⟨hwell _ he, ?_⟩
  cases event with
  | verified ws hello did =>
    have hdid : verifiedAs did es p ws = true := (verifiedAs_iff did es p ws).2 ⟨now, hello, he⟩
    exact ⟨fun hd => hd ▸ hdid, fun hd => hone p ws did d hdid hd⟩
  | _ => trivial

theorem unverified_inbox (redis : I → Bool) {es : List (I × Input protocol I)} {p : I}
    {ws : SockId} (hun : ∀ did, verifiedAs did es p ws = false) :
    ∀ msg ∈ inbox redis p ws es, IsError msg := by
  -- an account that the run never names owns no object
  obtain ⟨d, hd⟩ := Infinite.exists_notMem_finset (es.map fun e => match e.2.event with
    | .verified _ _ did => did
    | .relay msg => msg.did
    | _ => "").toFinset
  have hne : ∀ e ∈ es, (match e.2.event with
      | .verified _ _ did => did
      | .relay msg => msg.did
      | _ => "") ≠ d := by
    intro e he heq
    exact hd (List.mem_toFinset.2 (List.mem_map.2 ⟨e, he, heq⟩))
  have hforeign : ∀ e ∈ es, e.1 = p → Foreign d ws e.2.event := by
    rintro ⟨q, now, event⟩ he rfl
    have hdid := hne _ he
    cases event with
    | verified ws' hello did =>
      refine ⟨hdid, ?_⟩
      rintro rfl
      have hv : verifiedAs did es q ws' = true := (verifiedAs_iff did es q ws').2 ⟨now, hello, he⟩
      rw [hun did] at hv
      cases hv
    | relay msg => exact hdid
    | _ => trivial
  have hstable : Stable fun c : LocalConn protocol => c.did ≠ d ∧ c.ws ≠ ws :=
    ⟨fun _ _ hq => hq, fun _ _ hq => hq⟩
  refine @forall_mem_trace _ _ _ stepAt (sentAt p ws) (fun N => Unowned d ws (N p))
    (fun e => e.1 = p → Foreign d ws e.2.event) IsError ?_ ?_ _ _ (held_init p (redis p)) hforeign
  · intro N e hN hg
    unfold stepAt
    by_cases hp : p = e.1
    · rw [if_pos hp]
      refine hN.step hstable e.2 ?_
      have hf := hg hp.symm
      obtain ⟨q, now, event⟩ := e
      cases event with
      | frame ws' msg => cases msg <;> trivial
      | verified ws' hello did => exact fun _ => hf
      | _ => trivial
    · rw [if_neg hp]
      exact hN
  · intro N e hN hg
    unfold sentAt
    by_cases hp : e.1 = p
    · rw [if_pos hp]
      unfold Hub.step
      split
      · intro msg hmsg
        cases hmsg
      · exact unverified_sent hN.clear rfl (hg hp)
    · rw [if_neg hp]
      intro msg hmsg
      cases hmsg

/-- The sockets of `d` are sent the same in any two runs that have the same events for
`d`, and a socket on which no token is verified is sent errors only. -/
theorem accounts_isolated (redis : I → Bool) (d : Did) :
    (∀ es fs : List (I × Input protocol I), WellFormed es → WellFormed fs →
      OneAccount es → OneAccount fs → es.filter (concerns d es) = fs.filter (concerns d fs) →
      ∀ p ws, verifiedAs d es p ws = true → inbox redis p ws es = inbox redis p ws fs) ∧
    ∀ (es : List (I × Input protocol I)) (p : I) (ws : SockId),
      (∀ did, verifiedAs did es p ws = false) → ∀ msg ∈ inbox redis p ws es, IsError msg := by
  refine ⟨fun es fs hes hfs hone hone' hsame p ws hws => ?_,
    fun es p ws hun => unverified_inbox redis hun⟩
  have hmine : verifiedAs d fs = verifiedAs d es := by
    funext q ws'
    rw [Bool.eq_iff_iff, verified_mem_concerns, ← hsame, ← verified_mem_concerns]
  have hconcerns : concerns d fs = concerns d es := by
    unfold concerns
    rw [hmine]
  have hguard := eventGuard_of hes hone (d := d)
  have hguard' := eventGuard_of hfs hone' (d := d)
  rw [hmine] at hguard'
  have hu := isolation_unwinds d (fun q ws => verifiedAs d es q ws = true) hws (concerns_iff d es)
  refine hu.noninterference (fun q => held_init q (redis q)) (fun q => .refl _) hguard hguard' ?_
  rw [hconcerns] at hsame
  simpa only [Bool.decide_eq_true] using hsame

def alone : List (Fin 1 × Input protocol (Fin 1)) :=
  [(0, ⟨1, .frame 0 (.hello (some (sampleDevice "A" true)))⟩), (0, ⟨1, .verified 0 0 "did:a"⟩),
   (0, ⟨4, .tick⟩)]

/-- Another account with the same device id, and a visitor without an account. -/
def crowd : List (Fin 1 × Input protocol (Fin 1)) :=
  [(0, ⟨1, .frame 0 (.hello (some (sampleDevice "A" true)))⟩), (0, ⟨1, .verified 0 0 "did:a"⟩),
   (0, ⟨2, .frame 1 (.hello (some (sampleDevice "A" false)))⟩), (0, ⟨2, .verified 1 0 "did:b"⟩),
   (0, ⟨3, .frame 2 (.hello (some (sampleDevice "A" false)))⟩), (0, ⟨3, .rejected 2 0 "expired"⟩),
   (0, ⟨4, .tick⟩), (0, ⟨5, .close 1⟩)]

theorem accounts_isolated_crowd :
    inbox (fun _ => true) 0 0 crowd = inbox (fun _ => true) 0 0 alone ∧
      (inbox (fun _ => true) 0 0 crowd).length = 3 ∧
      (∀ msg ∈ inbox (fun _ => true) 0 2 crowd, IsError msg) ∧
      (inbox (fun _ => true) 0 2 crowd).length = 1 := by
  obtain ⟨h1, h2⟩ := accounts_isolated (fun _ : Fin 1 => true) "did:a"
  have hone : ∀ es : List (Fin 1 × Input protocol (Fin 1)),
      (∀ ws did, verifiedAs did es 0 ws = true →
        (ws = 0 ∧ did = "did:a") ∨ (ws = 1 ∧ did = "did:b")) → OneAccount es := by
    intro es h p ws did did' hd hd'
    obtain rfl := Subsingleton.elim p 0
    rcases h ws did hd with ⟨rfl, rfl⟩ | ⟨rfl, rfl⟩ <;>
      rcases h _ did' hd' with ⟨_, rfl⟩ | ⟨_, rfl⟩ <;> simp_all
  refine ⟨h1 crowd alone ?_ ?_ (hone crowd ?_) (hone alone ?_) ?_ 0 0 (by decide), by decide,
    h2 crowd 0 2 ?_, by decide⟩
  · simp [WellFormed, crowd]
  · simp [WellFormed, alone]
  · intro ws did hv
    obtain ⟨now, hello, he⟩ := (verifiedAs_iff did crowd 0 ws).1 hv
    simp [crowd] at he
    tauto
  · intro ws did hv
    obtain ⟨now, hello, he⟩ := (verifiedAs_iff did alone 0 ws).1 hv
    simp [alone] at he
    tauto
  · rfl
  · simp [verifiedAs, crowd]

end Hub

end Atradio.Connect
