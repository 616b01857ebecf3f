import Mathlib.Data.List.Induction
import Atradio.Connect.Superseded

/-! # Where a command goes

A command is handed over on the instance it was sent to, or published; every instance that
hears of it looks the target up among its own devices at that moment. -/

namespace Atradio.Connect
open Atradio.Lib

variable {P : Payload} {I : Type}

/-- Neither a command frame nor a command for the other instances. -/
def Plain : Effect P I → Prop
  | .sent _ (.command ..) => False
  | .published (.command ..) => False
  | _ => True

/-- The command frames of an event. -/
def passes (out : List (Effect P I)) : List (SockId × P.Id × P.Cmd) :=
  out.filterMap fun
    | .sent ws (.command src cmd) => some (ws, src, cmd)
    | _ => none

theorem plain_passes {out : List (Effect P I)} (hp : ∀ e ∈ out, Plain e) : passes out = [] := by
  refine List.filterMap_eq_nil_iff.2 fun e he => ?_
  have hplain := hp e he
  cases e with
  | sent ws msg =>
    cases msg with
    | command src cmd => exact hplain.elim
    | welcome | devices | presence | error => rfl
  | closing | published => rfl

theorem plain_published {out : List (Effect P I)} (hp : ∀ e ∈ out, Plain e) {p : I} {did : Did}
    {target src : P.Id} {cmd : P.Cmd} : .command p did target src cmd ∉ published out := by
  intro hmem
  obtain ⟨e, he, hmsg⟩ := List.mem_filterMap.1 hmem
  have hplain := hp e he
  cases e with
  | published msg =>
    cases hmsg
    exact hplain
  | sent | closing => cases hmsg

namespace Hub

/-- What an event adds to its effects is plain. -/
def Plainly (h h' : Hub P I) : Prop := ∀ e ∈ h'.out, e ∈ h.out ∨ Plain e

variable {h h' h'' : Hub P I}

theorem Plainly.refl (h : Hub P I) : Plainly h h := fun _ => .inl

theorem Plainly.trans (a : Plainly h h') (b : Plainly h' h'') : Plainly h h'' := fun e he =>
  (b e he).elim (a e) .inr

theorem plainly_of_out (hout : h'.out = h.out) : Plainly h h' := fun _ he => .inl (hout ▸ he)

theorem effect_plainly (h : Hub P I) {e : Effect P I} (he : Plain e) : Plainly h (h.effect e) := by
  intro e' he'
  rcases List.mem_append.1 he' with hold | hnew
  · exact .inl hold
  · rw [List.mem_singleton.1 hnew]
    exact .inr he

theorem send_plainly (h : Hub P I) (ws : SockId) {msg : ServerMsg P}
    (hmsg : Plain (.sent ws msg : Effect P I)) : Plainly h (h.send ws msg) := by
  unfold send
  split
  · exact effect_plainly h hmsg
  · exact .refl h

theorem presence_plainly (h : Hub P I) (ws : SockId) (now cleanup : Bool) :
    Plainly h (h.send ws (.presence now cleanup)) := send_plainly h ws trivial

theorem sendAll_plainly (h : Hub P I) {msgs : List (SockId × ServerMsg P)}
    (hmsgs : ∀ m ∈ msgs, Plain (.sent m.1 m.2 : Effect P I)) : Plainly h (h.sendAll msgs) := by
  unfold sendAll
  induction msgs generalizing h with
  | nil => exact .refl h
  | cons m msgs ih =>
    have hsent := send_plainly h m.1 (hmsgs m (List.mem_cons_self ..))
    exact hsent.trans (ih _ fun m' hm' => hmsgs m' (List.mem_cons_of_mem _ hm'))

theorem close_plainly (h : Hub P I) (ws : SockId) (code : ℕ) (reason : String) :
    Plainly h (h.close ws code reason) := by
  unfold close
  split
  · have hclosing : Plain (.closing ws code reason : Effect P I) := trivial
    exact effect_plainly (h.setSock ws _) hclosing
  · exact .refl h

theorem publish_plainly (h : Hub P I) {msg : RelayMsg P I} (hmsg : Plain (.published msg)) :
    Plainly h (h.publish msg) := by
  unfold publish
  split
  · exact effect_plainly h hmsg
  · exact .refl h

theorem broadcastRoster_plainly (h : Hub P I) (did : Did) : Plainly h (h.broadcastRoster did) := by
  refine (plainly_of_out (makeMaps_out h did)).trans (sendAll_plainly _ fun m hm => ?_)
  obtain ⟨c, -, rfl⟩ := List.mem_map.1 hm
  trivial

theorem sendPresence_plainly (h : Hub P I) (did : Did) (now : Bool) :
    Plainly h (h.sendPresence did now) := by
  refine sendAll_plainly h fun m hm => ?_
  obtain ⟨c, -, rfl⟩ := List.mem_map.1 hm
  trivial

theorem reconcile_plainly (h : Hub P I) (did : Did) : Plainly h (h.reconcilePresence did).hub := by
  have hset (b : Bool) : Plainly h ((h.makeMaps did).setLastPlaying did b) :=
    plainly_of_out (makeMaps_out h did)
  unfold reconcilePresence
  dsimp only
  split
  · exact plainly_of_out (makeMaps_out h did)
  · split
    · split
      · exact hset _
      · exact (hset _).trans (sendPresence_plainly _ did _)
      · rename_i owner _
        exact ((hset _).trans (presence_plainly _ owner.ws false true)).trans
          (sendPresence_plainly _ did _)
    · exact (hset _).trans (sendPresence_plainly _ did _)

theorem broadcast_plainly (h : Hub P I) (did : Did) :
    Plainly h ((h.broadcastRoster did).reconcilePresence did).hub :=
  (broadcastRoster_plainly h did).trans (reconcile_plainly _ did)

theorem register_plainly (h : Hub P I) (conn : LocalConn P) : Plainly h (h.register conn) := by
  have hmade := plainly_of_out (makeLocalMap_out h conn.did)
  have hreplaced : Plainly (h.makeLocalMap conn.did)
      ((h.makeLocalMap conn.did).replacePrior conn) := by
    unfold replacePrior
    split
    · split
      · exact .refl _
      · exact close_plainly _ _ _ _
    · exact .refl _
  exact hmade.trans hreplaced

theorem greet_plainly (h : Hub P I) (conn : LocalConn P) (wasEmpty : Bool) :
    Plainly h (h.greet conn wasEmpty).hub := by
  unfold greet
  split
  · exact .refl h
  · rename_i playing _
    have hset : Plainly h (h.setLastPlaying conn.did playing) := plainly_of_out rfl
    have hsent := hset.trans (presence_plainly _ conn.ws playing false)
    dsimp only
    split
    · split
      · exact hsent
      · rw [Outcome.hub_ok]
        split
        · exact hsent.trans (presence_plainly _ conn.ws false true)
        · exact hsent
    · exact hsent

theorem announce_plainly (h : Hub P I) (conn : LocalConn P) : Plainly h (h.announce conn) := by
  have hmade := plainly_of_out (makeMaps_out h conn.did)
  have hwelcome : Plainly (h.makeMaps conn.did)
      ((h.makeMaps conn.did).send conn.ws (.welcome conn.did conn.deviceId)) :=
    send_plainly _ conn.ws trivial
  refine ((hmade.trans hwelcome).trans ?_).trans (broadcastRoster_plainly _ conn.did)
  exact publish_plainly _ trivial

theorem onHelloVerified_plainly (h : Hub P I) (now : ℕ) (ws : SockId) (hello : ℕ) (did : Did)
    (device : Option (HelloDevice P)) :
    Plainly h (h.onHelloVerified now ws hello did device).hub := by
  unfold onHelloVerified
  split
  · exact .refl h
  · exact ((register_plainly h _).trans (announce_plainly _ _)).trans (greet_plainly _ _ _)

theorem handleState_plainly (h : Hub P I) (conn : LocalConn P) (state : P.State) :
    Plainly h (h.handleState conn state).hub := by
  have hstore : Plainly h (h.store { conn with state := state }) := by
    refine plainly_of_out ?_
    unfold store storeRegistry
    obtain ⟨-, -, -, hout⟩ := storeClosure_rest h { conn with state := state }
    split
    · split <;> exact hout
    · exact hout
  unfold handleState
  dsimp only
  refine (hstore.trans ?_).trans (broadcast_plainly _ conn.did)
  exact publish_plainly _ trivial

theorem removeConn_plainly (h : Hub P I) (conn : LocalConn P) :
    Plainly h (h.removeConn conn).hub := by
  unfold removeConn
  split
  · exact .refl h
  · obtain ⟨-, -, -, hout⟩ := deleteLocal_rest h conn.did conn.deviceId
    refine ((plainly_of_out hout).trans ?_).trans (broadcast_plainly _ conn.did)
    exact publish_plainly _ trivial

theorem pruneRemote_plainly (h : Hub P I) (now : ℕ) (did : Did) :
    Plainly h (h.pruneRemote now did).hub := by
  unfold pruneRemote
  split
  · exact .refl h
  · rename_i m _
    obtain ⟨-, hout, -⟩ := dropStale_rest h now did m
    dsimp only
    split
    · exact plainly_of_out hout
    · exact (plainly_of_out hout).trans (broadcast_plainly _ did)

theorem sweep_plainly (now fuel pos : ℕ) (h : Hub P I) :
    Plainly h (sweepRemote now fuel pos h).hub := by
  induction fuel generalizing pos h with
  | zero => exact .refl h
  | succ fuel ih =>
    unfold sweepRemote
    cases h.remoteReg.rows[pos]? with
    | none => exact .refl h
    | some e =>
      have hpruned := pruneRemote_plainly h now e.1
      dsimp only
      cases ho : h.pruneRemote now e.1 with
      | error h' =>
        rw [ho] at hpruned
        exact hpruned
      | ok h' =>
        rw [ho] at hpruned
        exact hpruned.trans (ih _ h')

theorem onTick_plainly (h : Hub P I) (now : ℕ) : Plainly h (h.onTick now).hub := by
  have hpublished (conns : List (LocalConn P)) (g : Hub P I) : Plainly g
      (conns.foldl (fun h c => h.publish (.update h.instanceId c.toWireDevice)) g) := by
    induction conns generalizing g with
    | nil => exact .refl g
    | cons c conns ih =>
      have hone : Plainly g (g.publish (.update g.instanceId c.toWireDevice)) :=
        publish_plainly g trivial
      exact hone.trans (ih _)
  have hping : Plainly h h.pingAll := plainly_of_out (terminateAll_local h _).2.1
  exact (hping.trans (hpublished _ _)).trans (sweep_plainly now _ 0 _)

/-- What a step does with a command: hand it to the device found under the target, or publish it. -/
inductive Routed (h : Hub P I) : Event P I → List (Effect P I) → Prop
  | plain {event : Event P I} {out : List (Effect P I)} (hout : ∀ e ∈ out, Plain e) :
    Routed h event out
  | landed {ws : SockId} {conn c : LocalConn P} {target : P.Id} (cmd : P.Cmd)
    (hconn : (h.socks ws).conn = some conn) (hother : target ≠ conn.deviceId)
    (hc : (h.localMap conn.did).get target = some c) :
    Routed h (.frame ws (.command target cmd)) [.sent c.ws (.command conn.deviceId cmd)]
  | relayed {ws : SockId} {conn : LocalConn P} {target : P.Id} (cmd : P.Cmd)
    (hconn : (h.socks ws).conn = some conn) (hother : target ≠ conn.deviceId) :
    Routed h (.frame ws (.command target cmd))
      [.published (.command h.instanceId conn.did target conn.deviceId cmd)]
  | heard {p : I} {did : Did} {target src : P.Id} {c : LocalConn P} (cmd : P.Cmd)
    (hc : (h.localMap did).get target = some c) :
    Routed h (.relay (.command p did target src cmd)) [.sent c.ws (.command src cmd)]

theorem routed_of_plainly {event : Event P I} (hout : h.out = []) (a : Plainly h h') :
    Routed h event h'.out := by
  refine .plain fun e he => (a e he).resolve_left fun hold => ?_
  rw [hout] at hold
  exact List.not_mem_nil hold

/-- A delivery sends at most the one frame. -/
theorem deliverCommand_out (hout : h.out = []) (did : Did) (target src : P.Id) (cmd : P.Cmd) :
    ((h.deliverCommand did target src cmd).2 = false ∧
      (h.deliverCommand did target src cmd).1.out = []) ∨
    (h.deliverCommand did target src cmd).2 = true ∧
      ((h.deliverCommand did target src cmd).1.out = [] ∨
        ∃ c, (h.localMap did).get target = some c ∧
          (h.deliverCommand did target src cmd).1.out = [.sent c.ws (.command src cmd)]) := by
  have hmade : (h.makeLocalMap did).out = [] := (makeLocalMap_out h did).trans hout
  unfold deliverCommand
  dsimp only
  rw [(makeLocalMap_view h did).localMap]
  cases hget : (h.localMap did).get target with
  | none => exact .inl ⟨rfl, hmade⟩
  | some c =>
    refine .inr ⟨rfl, ?_⟩
    dsimp only
    unfold send
    split
    · refine .inr ⟨c, rfl, ?_⟩
      unfold effect
      rw [hmade]
      rfl
    · exact .inl hmade

theorem handleCommand_routed (hout : h.out = []) {ws : SockId} {conn : LocalConn P}
    (hconn : (h.socks ws).conn = some conn) (target : P.Id) (cmd : P.Cmd) :
    Routed h (.frame ws (.command target cmd)) (h.handleCommand conn target cmd).out := by
  have hnone : Routed h (.frame ws (.command target cmd)) [] :=
    .plain fun _ he => (List.not_mem_nil he).elim
  have hdelivered := deliverCommand_out hout conn.did target conn.deviceId cmd
  have hproc := (deliverCommand_view h conn.did target conn.deviceId cmd).toSameRegs
  unfold handleCommand
  split
  · rw [hout]
    exact hnone
  · rename_i hother
    cases hd : h.deliverCommand conn.did target conn.deviceId cmd with
    | mk g landed =>
      rw [hd] at hdelivered hproc
      cases landed with
      | true =>
        obtain ⟨-, hempty | ⟨c, hc, hsent⟩⟩ := hdelivered.resolve_left fun hd => by cases hd.1
        · dsimp only at hempty ⊢
          rw [hempty]
          exact hnone
        · dsimp only at hsent ⊢
          rw [hsent]
          exact .landed cmd hconn hother hc
      | false =>
        obtain ⟨-, hempty⟩ := hdelivered.resolve_right fun hd => by cases hd.1
        dsimp only at hempty hproc ⊢
        unfold publish
        split
        · unfold effect
          rw [hempty, hproc.instanceId]
          exact .relayed cmd hconn hother
        · rw [hempty]
          exact hnone

variable [DecidableEq I]

theorem onRelay_routed (hout : h.out = []) (now : ℕ) (msg : RelayMsg P I) :
    Routed h (.relay msg) (h.onRelay now msg).hub.out := by
  have hself (event : Event P I) : Routed h event h.out := routed_of_plainly hout (.refl h)
  have hset (event : Event P I) (did : Did) (m : RemoteMap P I) :
      Routed h event (((h.setRemoteMap did m).broadcastRoster did).reconcilePresence did).hub.out :=
    routed_of_plainly hout (broadcast_plainly (h.setRemoteMap did m) did)
  cases msg with
  | command inst did target src cmd =>
    simp only [onRelay]
    split
    · exact hself _
    · rw [Outcome.hub_ok]
      rcases deliverCommand_out hout did target src cmd with ⟨-, hempty⟩ | ⟨-, hempty | ⟨c, hc, hsent⟩⟩
      · rw [hempty]
        exact .plain fun _ he => (List.not_mem_nil he).elim
      · rw [hempty]
        exact .plain fun _ he => (List.not_mem_nil he).elim
      · rw [hsent]
        exact .heard cmd hc
  | leave inst did deviceId =>
    simp only [onRelay]
    split
    · exact hself _
    · split
      · exact hself _
      · split
        · exact hself _
        · exact hset _ did _
  | join inst d | update inst d =>
    simp only [onRelay]
    split
    · exact hself _
    · exact hset _ d.did _

omit [DecidableEq I] in
theorem message_routed (hout : h.out = []) (ws : SockId) (msg : Frame P) :
    Routed h (.frame ws msg) (h.onMessage ws msg).hub.out := by
  have hself (event : Event P I) : Routed h event h.out := routed_of_plainly hout (.refl h)
  unfold onMessage
  cases hconn : (h.socks ws).conn with
  | none =>
    cases msg with
    | hello device => exact hself _
    | state | command | bye | other => exact hself _
  | some conn =>
    cases msg with
    | state state => exact routed_of_plainly hout (handleState_plainly h conn state)
    | command target cmd => exact handleCommand_routed hout hconn target cmd
    | bye => exact routed_of_plainly hout (close_plainly h ws 1000 "bye")
    | hello | other => exact hself _

theorem handle_routed (hout : h.out = []) (i : Input P I) : Routed h i.event (h.handle i).out := by
  obtain ⟨now, event⟩ := i
  have hself (event : Event P I) : Routed h event h.out := routed_of_plainly hout (.refl h)
  have huncaught (o : Outcome P I) : o.uncaught.out = o.hub.out := by cases o <;> rfl
  cases event with
  | frame ws msg =>
    simp only [handle]
    split
    · exact hself _
    · rw [huncaught]
      exact message_routed hout ws msg
  | verified ws hello did =>
    simp only [handle, onVerified]
    split
    · exact hself _
    · rename_i device _
      have hverified := onHelloVerified_plainly (h.awaited ws hello) now ws hello did device
      cases ho : (h.awaited ws hello).onHelloVerified now ws hello did device with
      | ok h' =>
        rw [ho] at hverified
        exact routed_of_plainly hout hverified
      | error h' =>
        rw [ho] at hverified
        exact routed_of_plainly hout hverified
  | rejected ws hello message =>
    simp only [handle, onRejected]
    split
    · exact hself _
    · have hsent : Plainly (h.awaited ws hello)
          ((h.awaited ws hello).send ws (.error "AuthFailed" message)) := send_plainly _ ws trivial
      exact routed_of_plainly hout (hsent.trans (close_plainly _ ws 4001 "auth failed"))
  | helloTimeout ws =>
    simp only [handle, onHelloTimeout]
    split
    · split
      · exact routed_of_plainly hout (close_plainly (h.setSock ws _) ws 4008 "hello timeout")
      · exact hself _
    · exact hself _
  | pong ws =>
    simp only [handle, onPong, markAlive]
    split
    · exact hself _
    · split
      · split <;> exact hself _
      · exact hself _
  | closing ws =>
    simp only [handle, terminate]
    split <;> exact hself _
  | close ws =>
    simp only [handle]
    split
    · exact hself _
    · rw [huncaught]
      unfold onClose
      dsimp only
      split
      · exact hself _
      · exact routed_of_plainly hout (removeConn_plainly (h.setSock ws _) _)
  | tick =>
    simp only [handle]
    rw [huncaught]
    exact routed_of_plainly hout (onTick_plainly h now)
  | relay msg => exact onRelay_routed hout now msg

omit [DecidableEq I] in
theorem Routed.of_clear {event : Event P I} {out : List (Effect P I)}
    (hr : Routed { h with out := [] } event out) : Routed h event out := by
  cases hr with
  | plain hout => exact .plain hout
  | landed cmd hconn hother hc => exact .landed cmd hconn hother hc
  | relayed cmd hconn hother => exact .relayed cmd hconn hother
  | heard cmd hc => exact .heard cmd hc

theorem step_routed (h : Hub P I) (i : Input P I) : Routed h i.event (h.step i).out := by
  unfold step
  split
  · exact .plain fun _ he => (List.not_mem_nil he).elim
  · exact (handle_routed (h := { h with out := [] }) rfl i).of_clear

/-! ### Who is connected -/

/-- The event completes a hello for the device. -/
def Enters (h : Hub P I) (i : Input P I) (did : Did) (id : P.Id) : Prop :=
  ∃ ws hello device, i.event = .verified ws hello did ∧
    (h.socks ws).verifying.lookup hello = some (some device) ∧ device.id = id

omit [DecidableEq I] in
theorem Issues.connected {mint : Did → LocalConn P → Prop} (a : Issues mint h h') {did : Did}
    {id : P.Id} (hin : ((h'.localMap did).get id).isSome) :
    ((h.localMap did).get id).isSome ∨ ∃ e, mint did e ∧ e.deviceId = id := by
  obtain ⟨e', he'⟩ := Option.isSome_iff_exists.1 hin
  obtain ⟨hmem', hid'⟩ := ((h'.localMap did).get_eq_some _ _).1 he'
  rcases a.entries did e' hmem' with ⟨e, hmem, -, hid⟩ | hmint
  · refine .inl (Option.isSome_iff_exists.2 ⟨e, ?_⟩)
    exact ((h.localMap did).get_eq_some _ _).2 ⟨hmem, hid.trans hid'⟩
  · exact .inr ⟨e', hmint, hid'⟩

theorem handle_connected (h : Hub P I) (i : Input P I) {did : Did} {id : P.Id}
    (hin : (((h.handle i).localMap did).get id).isSome) :
    ((h.localMap did).get id).isSome ∨ Enters h i did id := by
  have hnone : ¬ ∃ e : LocalConn P, False ∧ e.deviceId = id := by
    rintro ⟨_, hmint, _⟩
    exact hmint
  by_cases hi : ∃ ws hello did', i.event = .verified ws hello did'
  · obtain ⟨now, event⟩ := i
    obtain ⟨ws, hello, did', rfl⟩ := hi
    simp only [handle] at hin
    by_cases hdevice : ∃ device, (h.socks ws).verifying.lookup hello = some (some device)
    · obtain ⟨device, hlookup⟩ := hdevice
      have hissues := uncaught_issues (verified_issues hlookup now did').1
      rcases hissues.connected hin with hold | ⟨e, ⟨rfl, rfl⟩, hid⟩
      · exact .inl hold
      · exact .inr ⟨ws, hello, device, rfl, hlookup, hid⟩
    · have hkeeps := uncaught_issues
        (verified_keeps (fun device hd => hdevice ⟨device, hd⟩) now did')
      exact .inl ((hkeeps.connected hin).resolve_right hnone)
  · have hkeeps := keeps_handle h fun ws hello did' he => hi ⟨ws, hello, did', he⟩
    exact .inl ((hkeeps.connected hin).resolve_right hnone)

theorem step_connected (h : Hub P I) (i : Input P I) {did : Did} {id : P.Id}
    (hin : (((h.step i).localMap did).get id).isSome) :
    ((h.localMap did).get id).isSome ∨ Enters h i did id := by
  unfold step at hin
  split at hin
  · exact .inl hin
  · exact handle_connected { h with out := [] } i hin

end Hub

/-! ### The relay channel -/

/-- A message on the channel, with the number of the step whose event it is due to. -/
structure Post (I : Type) where
  cause : ℕ
  msg : RelayMsg protocol I

/-- A command frame: the step whose event it is due to, the step it was sent in and where. -/
structure Passed (I : Type) where
  cause : ℕ
  step : ℕ
  place : I
  ws : SockId
  src : String
  cmd : Command

/-- The instances and the channel they share. Every message is handed to an instance at most once,
in any order; `taken` are the messages handed over so far. -/
structure Bus (I : Type) where
  hubs : I → Hub protocol I
  posts : List (Post I) := []
  taken : List (I × ℕ) := []
  passed : List (Passed I) := []
  steps : ℕ := 0

inductive BusEvent (I : Type) where
  | event (p : I) (i : Input protocol I) (hlocal : Local i)
  | deliver (r : I) (n now : ℕ)

/-- A command as the device sent it. -/
structure Order (I : Type) where
  place : I
  did : Did
  target : String
  src : String
  cmd : Command

namespace Bus
open Hub

variable {I : Type} [DecidableEq I]

def handle (B : Bus I) (cause : ℕ) (p : I) (i : Input protocol I) : Bus I :=
  let h := (B.hubs p).step i
  { hubs := fun q => if q = p then h else B.hubs q
    posts := B.posts ++ (published h.out).map fun msg => ⟨cause, msg⟩
    taken := B.taken
    passed := B.passed ++ (passes h.out).map fun m => ⟨cause, B.steps, p, m.1, m.2.1, m.2.2⟩
    steps := B.steps + 1 }

def step (B : Bus I) : BusEvent I → Bus I
  | .event p i _ => B.handle B.steps p i
  | .deliver r n now =>
    match B.posts[n]? with
    | none => { B with steps := B.steps + 1 }
    | some post =>
      if (r, n) ∈ B.taken then { B with steps := B.steps + 1 }
      else { B with taken := (r, n) :: B.taken }.handle post.cause r ⟨now, .relay post.msg⟩

def init : Bus I := { hubs := fun p => Hub.init p true }

/-- The state in which step `k` of the run is taken. -/
def before (es : List (BusEvent I)) (k : ℕ) : Bus I := run step init (es.take k)

omit [DecidableEq I] in
def order (B : Bus I) : BusEvent I → Option (Order I)
  | .event p ⟨_, .frame ws (.command target cmd)⟩ _ =>
    ((B.hubs p).socks ws).conn.map fun conn => ⟨p, conn.did, target, conn.deviceId, cmd⟩
  | _ => none

/-- Step `k` of the run handles the frame of the command. -/
def Ordered (es : List (BusEvent I)) (k : ℕ) (o : Order I) : Prop :=
  ∃ e, es[k]? = some e ∧ (before es k).order e = some o

/-- Step `k` of the run connects the device at the instance. -/
def Connects (es : List (BusEvent I)) (k : ℕ) (r : I) (did : Did) (id : String) : Prop :=
  ∃ i hlocal, es[k]? = some (.event r i hlocal) ∧ Enters ((before es k).hubs r) i did id

def Connected (B : Bus I) (r : I) (did : Did) (id : String) : Prop :=
  (((B.hubs r).localMap did).get id).isSome

/-- A device of an account is connected on at most one instance. -/
def OnePlace (B : Bus I) : Prop :=
  ∀ did id p q, B.Connected p did id → B.Connected q did id → p = q

/-! ### Steps of a run -/

theorem before_snoc {es : List (BusEvent I)} (e : BusEvent I) {k : ℕ} (hk : k ≤ es.length) :
    before (es ++ [e]) k = before es k := by
  unfold before
  rw [List.take_append_of_le_length hk]

theorem before_length (es : List (BusEvent I)) (e : BusEvent I) :
    before (es ++ [e]) es.length = run step init es := by
  unfold before
  rw [List.take_left]

theorem Ordered.lt {es : List (BusEvent I)} {k : ℕ} {o : Order I} (ho : Ordered es k o) :
    k < es.length := by
  obtain ⟨e, he, -⟩ := ho
  exact (List.getElem?_eq_some_iff.1 he).1

theorem Ordered.unique {es : List (BusEvent I)} {k : ℕ} {o o' : Order I} (ho : Ordered es k o)
    (ho' : Ordered es k o') : o = o' := by
  obtain ⟨e, he, horder⟩ := ho
  obtain ⟨e', he', horder'⟩ := ho'
  obtain rfl := Option.some.inj (he.symm.trans he')
  exact Option.some.inj (horder.symm.trans horder')

theorem ordered_snoc {es : List (BusEvent I)} (e : BusEvent I) {k : ℕ} (hk : k < es.length)
    {o : Order I} : Ordered (es ++ [e]) k o ↔ Ordered es k o := by
  unfold Ordered
  rw [before_snoc e hk.le, List.getElem?_append_left hk]

theorem Connects.snoc {es : List (BusEvent I)} {k : ℕ} {r : I} {did : Did} {id : String}
    (hc : Connects es k r did id) (e : BusEvent I) : Connects (es ++ [e]) k r did id := by
  obtain ⟨i, hlocal, he, henters⟩ := hc
  have hk : k < es.length := (List.getElem?_eq_some_iff.1 he).1
  refine ⟨i, hlocal, ?_, ?_⟩
  · rw [List.getElem?_append_left hk]
    exact he
  · rw [before_snoc e hk.le]
    exact henters

theorem Connects.lt {es : List (BusEvent I)} {k : ℕ} {r : I} {did : Did} {id : String}
    (hc : Connects es k r did id) : k < es.length := by
  obtain ⟨i, hlocal, he, -⟩ := hc
  exact (List.getElem?_eq_some_iff.1 he).1

/-- The frame went to the device that was the command's target at that moment. -/
def Lands (es : List (BusEvent I)) (f : Passed I) (o : Order I) : Prop :=
  Ordered es f.cause o ∧ o.target ≠ o.src ∧ f.src = o.src ∧ f.cmd = o.cmd ∧ f.step < es.length ∧
    ∃ c, (((before es f.step).hubs f.place).localMap o.did).get o.target = some c ∧ c.ws = f.ws

theorem Lands.snoc {es : List (BusEvent I)} {f : Passed I} {o : Order I} (hl : Lands es f o)
    (e : BusEvent I) : Lands (es ++ [e]) f o := by
  obtain ⟨ho, hother, hsrc, hcmd, hstep, hc⟩ := hl
  refine ⟨(ordered_snoc e ho.lt).2 ho, hother, hsrc, hcmd, ?_, ?_⟩
  · rw [List.length_append]
    omega
  · rw [before_snoc e hstep.le]
    exact hc

def Post.Carries (a : Post I) (did : Did) (target src : String) (cmd : Command) : Prop :=
  ∃ p, a.msg = .command p did target src cmd

def Post.IsCommand (a : Post I) : Prop := ∃ did target src cmd, Post.Carries a did target src cmd

/-- What holds after the steps `es`. -/
structure BusInv (es : List (BusEvent I)) (B : Bus I) : Prop where
  steps : B.steps = es.length
  posted : ∀ a ∈ B.posts, ∀ did target src cmd, Post.Carries a did target src cmd →
    target ≠ src ∧ ∃ p, Ordered es a.cause ⟨p, did, target, src, cmd⟩
  once : ∀ (n m : ℕ) (a b : Post I), B.posts[n]? = some a → B.posts[m]? = some b →
    a.cause = b.cause → Post.IsCommand a → Post.IsCommand b → n = m
  landed : ∀ f ∈ B.passed, ∃ o, Lands es f o
  source : ∀ f ∈ B.passed, ∀ (n : ℕ) (a : Post I), B.posts[n]? = some a → a.cause = f.cause →
    Post.IsCommand a → (f.place, n) ∈ B.taken
  distinct : B.passed.Pairwise fun f g => f.step < g.step ∧ (f.cause = g.cause → f.place ≠ g.place)
  away : AllSteps step (fun B _ => B.OnePlace) init es → ∀ f ∈ B.passed, ∀ o, Ordered es f.cause o →
    ∀ r, r ≠ f.place → B.Connected r o.did o.target →
      ∃ k, f.step < k ∧ Connects es k r o.did o.target
  between : AllSteps step (fun B _ => B.OnePlace) init es → B.passed.Pairwise fun f g =>
    f.cause = g.cause → ∀ o, Ordered es f.cause o →
      ∃ k, f.step < k ∧ k < g.step ∧ Connects es k g.place o.did o.target

variable {es : List (BusEvent I)} {e : BusEvent I} {B B' : Bus I}

/-- Who is connected after a step was so before, or has connected in it. -/
def Joins (es : List (BusEvent I)) (e : BusEvent I) (B B' : Bus I) : Prop :=
  ∀ r did id, B'.Connected r did id →
    B.Connected r did id ∨ Connects (es ++ [e]) es.length r did id

theorem BusInv.away_snoc (hB : BusInv es B) (hjoins : Joins es e B B')
    (hone : AllSteps step (fun B _ => B.OnePlace) init (es ++ [e])) {f : Passed I}
    (hf : f ∈ B.passed) {o : Order I} (ho : Ordered (es ++ [e]) f.cause o) {r : I}
    (hr : r ≠ f.place) (hin : B'.Connected r o.did o.target) :
    ∃ k, f.step < k ∧ Connects (es ++ [e]) k r o.did o.target := by
  have hone' := ((allSteps_append step _ init es [e]).1 hone).1
  obtain ⟨o', hland⟩ := hB.landed f hf
  have hold : Ordered es f.cause o := (ordered_snoc e hland.1.lt).1 ho
  rcases hjoins r o.did o.target hin with hin | hconnects
  · obtain ⟨k, hk, hconnects⟩ := hB.away hone' f hf o hold r hr hin
    exact ⟨k, hk, hconnects.snoc e⟩
  · obtain ⟨-, -, -, -, hstep, -⟩ := hland
    exact ⟨es.length, hstep, hconnects⟩

theorem BusInv.between_snoc (hB : BusInv es B)
    (hone : AllSteps step (fun B _ => B.OnePlace) init (es ++ [e])) :
    B.passed.Pairwise fun f g => f.cause = g.cause → ∀ o, Ordered (es ++ [e]) f.cause o →
      ∃ k, f.step < k ∧ k < g.step ∧ Connects (es ++ [e]) k g.place o.did o.target := by
  have hone' := ((allSteps_append step _ init es [e]).1 hone).1
  refine (hB.between hone').imp_of_mem fun {f g} hf _ hfg hcause o ho => ?_
  obtain ⟨o', hland⟩ := hB.landed f hf
  obtain ⟨k, hlt, hlt', hconnects⟩ := hfg hcause o ((ordered_snoc e hland.1.lt).1 ho)
  exact ⟨k, hlt, hlt', hconnects.snoc e⟩

/-- A step that passes nothing on and posts at most a command of its own. -/
theorem BusInv.posts (hB : BusInv es B) (hjoins : Joins es e B B')
    (hsteps : B'.steps = B.steps + 1) (htaken : ∀ x ∈ B.taken, x ∈ B'.taken)
    (hpassed : B'.passed = B.passed) {new : List (Post I)} (hposts : B'.posts = B.posts ++ new)
    (hnew : ∀ a ∈ new, ∀ did target src cmd, Post.Carries a did target src cmd →
      new = [a] ∧ a.cause = es.length ∧ target ≠ src ∧
        ∃ p, Ordered (es ++ [e]) es.length ⟨p, did, target, src, cmd⟩) :
    BusInv (es ++ [e]) B' := by
  have hlength : (es ++ [e]).length = es.length + 1 := List.length_append
  -- a new command is due to this step, and the only one
  have hfresh (n : ℕ) (a : Post I) (ha : B'.posts[n]? = some a)
      (hcmd : Post.IsCommand a) :
      (B.posts[n]? = some a ∧ a.cause < es.length) ∨ n = B.posts.length ∧ a.cause = es.length := by
    obtain ⟨did, target, src, cmd, hcarries⟩ := hcmd
    rw [hposts] at ha
    by_cases hn : n < B.posts.length
    · rw [List.getElem?_append_left hn] at ha
      obtain ⟨-, p, ho⟩ := hB.posted a (List.mem_of_getElem? ha) did target src cmd hcarries
      exact .inl ⟨ha, ho.lt⟩
    · rw [List.getElem?_append_right (by omega)] at ha
      obtain ⟨hsingle, hcause, -⟩ := hnew a (List.mem_of_getElem? ha) did target src cmd hcarries
      rw [hsingle] at ha
      have hlt : n - B.posts.length < 1 := (List.getElem?_eq_some_iff.1 ha).1
      exact .inr ⟨by omega, hcause⟩
  refine ⟨?_, fun a ha did target src cmd hcarries => ?_, fun n m a b ha hb hcause hac hbc => ?_,
    fun f hf => ?_, fun f hf n a ha hcause hac => ?_, ?_, fun hone f hf o ho r hr hin => ?_,
    fun hone => ?_⟩
  · rw [hsteps, hB.steps, hlength]
  · rw [hposts] at ha
    rcases List.mem_append.1 ha with ha | ha
    · obtain ⟨hother, p, ho⟩ := hB.posted a ha did target src cmd hcarries
      exact ⟨hother, p, (ordered_snoc e ho.lt).2 ho⟩
    · obtain ⟨-, hcause, hother, p, ho⟩ := hnew a ha did target src cmd hcarries
      exact ⟨hother, p, hcause ▸ ho⟩
  · rcases hfresh n a ha hac with ⟨ha', hlt⟩ | ⟨hn, hnow⟩
    · rcases hfresh m b hb hbc with ⟨hb', hlt'⟩ | ⟨hm, hnow⟩
      · exact hB.once n m a b ha' hb' hcause hac hbc
      · omega
    · rcases hfresh m b hb hbc with ⟨hb', hlt'⟩ | ⟨hm, hnow'⟩
      · omega
      · omega
  · rw [hpassed] at hf
    obtain ⟨o, hland⟩ := hB.landed f hf
    exact ⟨o, hland.snoc e⟩
  · rw [hpassed] at hf
    obtain ⟨o, hland⟩ := hB.landed f hf
    have hlt := hland.1.lt
    rcases hfresh n a ha hac with ⟨ha', -⟩ | ⟨-, hnow⟩
    · exact htaken _ (hB.source f hf n a ha' hcause hac)
    · omega
  · rw [hpassed]
    exact hB.distinct
  · rw [hpassed] at hf
    exact hB.away_snoc hjoins hone hf ho hr hin
  · rw [hpassed]
    exact hB.between_snoc hone

/-- A step that passes a command on. -/
theorem BusInv.passes (hB : BusInv es B) (hrun : B = run step init es) (hjoins : Joins es e B B')
    (hsteps : B'.steps = B.steps + 1) (htaken : ∀ x ∈ B.taken, x ∈ B'.taken)
    (hposts : B'.posts = B.posts) {f : Passed I} (hpassed : B'.passed = B.passed ++ [f])
    (hstep : f.step = es.length) {o : Order I} (hland : Lands (es ++ [e]) f o)
    (hstay : ∀ r, r ≠ f.place → ∀ did id, B'.Connected r did id → B.Connected r did id)
    (hplace : ∀ g ∈ B.passed, g.cause = f.cause → g.place ≠ f.place)
    (hsource : ∀ (n : ℕ) (a : Post I), B.posts[n]? = some a → a.cause = f.cause →
      Post.IsCommand a → (f.place, n) ∈ B'.taken) :
    BusInv (es ++ [e]) B' := by
  have hlength : (es ++ [e]).length = es.length + 1 := List.length_append
  have hhere : B.Connected f.place o.did o.target := by
    obtain ⟨-, -, -, -, -, c, hc, -⟩ := hland
    rw [hstep, before_length, ← hrun] at hc
    exact Option.isSome_iff_exists.2 ⟨c, hc⟩
  have hearlier (g : Passed I) (hg : g ∈ B.passed) : g.step < f.step := by
    obtain ⟨o', -, -, -, -, hlt, -⟩ := hB.landed g hg
    omega
  refine ⟨?_, fun a ha did target src cmd hcarries => ?_, ?_, fun g hg => ?_,
    fun g hg n a ha hcause hac => ?_, ?_, fun hone g hg o' ho' r hr hin => ?_, fun hone => ?_⟩
  · rw [hsteps, hB.steps, hlength]
  · rw [hposts] at ha
    obtain ⟨hother, p, ho⟩ := hB.posted a ha did target src cmd hcarries
    exact ⟨hother, p, (ordered_snoc e ho.lt).2 ho⟩
  · rw [hposts]
    exact hB.once
  · rw [hpassed] at hg
    rcases List.mem_append.1 hg with hg | hg
    · obtain ⟨o', hland'⟩ := hB.landed g hg
      exact ⟨o', hland'.snoc e⟩
    · rw [List.mem_singleton.1 hg]
      exact ⟨o, hland⟩
  · rw [hposts] at ha
    rw [hpassed] at hg
    rcases List.mem_append.1 hg with hg | hg
    · exact htaken _ (hB.source g hg n a ha hcause hac)
    · rw [List.mem_singleton.1 hg] at hcause ⊢
      exact hsource n a ha hcause hac
  · rw [hpassed]
    refine List.pairwise_append.2 ⟨hB.distinct, List.pairwise_singleton _ _, fun g hg f' hf' => ?_⟩
    rw [List.mem_singleton.1 hf']
    exact ⟨hearlier g hg, hplace g hg⟩
  · rw [hpassed] at hg
    rcases List.mem_append.1 hg with hg | hg
    · exact hB.away_snoc hjoins hone hg ho' hr hin
    · -- the target is here, so at this moment it is nowhere else
      rw [List.mem_singleton.1 hg] at ho' hr ⊢
      obtain rfl := hland.1.unique ho'
      have hplaced : B.OnePlace := by
        rw [hrun]
        exact (((allSteps_append step _ init es [e]).1 hone).2).1
      exact (hr (hplaced _ _ _ _ (hstay r hr _ _ hin) hhere)).elim
  · rw [hpassed]
    refine List.pairwise_append.2 ⟨hB.between_snoc hone, List.pairwise_singleton _ _,
      fun g hg f' hf' hcause o' ho' => ?_⟩
    rw [List.mem_singleton.1 hf'] at hcause ⊢
    have hone' := ((allSteps_append step _ init es [e]).1 hone).1
    obtain ⟨o₁, hland₁⟩ := hB.landed g hg
    obtain rfl : o = o' := hland.1.unique (hcause ▸ ho')
    obtain ⟨k, hk, hconnects⟩ := hB.away hone' g hg o ((ordered_snoc e hland₁.1.lt).1 ho') f.place
      (fun heq => hplace g hg hcause heq.symm) hhere
    exact ⟨k, hk, hstep ▸ hconnects.lt, hconnects.snoc e⟩

theorem handle_connected {cause : ℕ} {p : I} {i : Input protocol I} {r : I} {did : Did}
    {id : String} (hin : (B.handle cause p i).Connected r did id) :
    B.Connected r did id ∨ r = p ∧ Enters (B.hubs p) i did id := by
  unfold Connected at hin ⊢
  by_cases hr : r = p
  · subst hr
    have hhub : (B.handle cause r i).hubs r = (B.hubs r).step i := if_pos rfl
    rw [hhub] at hin
    exact (step_connected (B.hubs r) i hin).imp_right fun henters => ⟨rfl, henters⟩
  · have hhub : (B.handle cause p i).hubs r = B.hubs r := if_neg hr
    rw [hhub] at hin
    exact .inl hin

omit [DecidableEq I] in
theorem last_event (es : List (BusEvent I)) (e : BusEvent I) : (es ++ [e])[es.length]? = some e := by
  rw [List.getElem?_append_right (le_refl _), Nat.sub_self]
  rfl

omit [DecidableEq I] in
theorem published_plain {out : List (Effect protocol I)} (hout : ∀ e ∈ out, Plain e) (cause : ℕ)
    {a : Post I} (ha : a ∈ (published out).map fun msg => Post.mk cause msg) {did : Did}
    {target src : String} {cmd : Command} : ¬ Post.Carries a did target src cmd := by
  rintro ⟨q, hmsg⟩
  obtain ⟨msg, hmem, rfl⟩ := List.mem_map.1 ha
  dsimp only at hmsg
  subst hmsg
  exact plain_published hout hmem

theorem BusInv.event (hB : BusInv es (run step init es)) (p : I) (i : Input protocol I)
    (hlocal : Local i) :
    BusInv (es ++ [.event p i hlocal]) (step (run step init es) (.event p i hlocal)) := by
  have hbefore := before_length es (.event p i hlocal)
  have hlast := last_event es (.event p i hlocal)
  generalize hrun : run step init es = B at *
  have hjoins : Joins es (.event p i hlocal) B (B.handle B.steps p i) := fun r did id hin => by
    refine (handle_connected hin).imp_right fun h => ?_
    obtain ⟨hr, henters⟩ := h
    refine ⟨i, hlocal, ?_, ?_⟩
    · rw [hr]
      exact hlast
    · rw [hbefore, hr]
      exact henters
  have hstay (r : I) (hr : r ≠ p) (did : Did) (id : String)
      (hin : (B.handle B.steps p i).Connected r did id) : B.Connected r did id :=
    (handle_connected hin).resolve_right fun h => hr h.1
  have hrouted := step_routed (B.hubs p) i
  show BusInv _ (B.handle B.steps p i)
  generalize hout : ((B.hubs p).step i).out = out at hrouted
  have hposts : (B.handle B.steps p i).posts =
      B.posts ++ (published out).map fun msg => ⟨B.steps, msg⟩ := by rw [← hout]; rfl
  have hpassed : (B.handle B.steps p i).passed =
      B.passed ++ (Connect.passes out).map fun m => ⟨B.steps, B.steps, p, m.1, m.2.1, m.2.2⟩ := by
    rw [← hout]; rfl
  obtain ⟨now, event⟩ := i
  dsimp only at hrouted
  cases hrouted with
  | plain hplain =>
    rw [plain_passes hplain] at hpassed
    refine hB.posts hjoins rfl (fun _ => id) (hpassed.trans (List.append_nil _)) hposts ?_
    intro a ha did target src cmd hcarries
    exact (published_plain hplain B.steps ha hcarries).elim
  | @landed ws conn c target cmd hconn hother hc =>
    have horder : Ordered (es ++ [.event p ⟨now, .frame ws (.command target cmd)⟩ hlocal]) B.steps
        ⟨p, conn.did, target, conn.deviceId, cmd⟩ := by
      rw [hB.steps]
      refine ⟨_, hlast, ?_⟩
      rw [hbefore]
      exact congrArg (Option.map _) hconn
    refine hB.passes hrun.symm hjoins rfl (fun _ => id) (hposts.trans (List.append_nil _)) hpassed
      hB.steps ⟨horder, hother, rfl, rfl, ?_, c, ?_, rfl⟩ hstay (fun g hg hcause => ?_)
      fun n a ha hcause hcmd => ?_
    · rw [List.length_append, hB.steps]
      exact Nat.lt_succ_self _
    · dsimp only
      rw [hB.steps, hbefore]
      exact hc
    · obtain ⟨o, hland⟩ := hB.landed g hg
      have hlt := hland.1.lt
      rw [hcause, ← hB.steps] at hlt
      exact (lt_irrefl _ hlt).elim
    · obtain ⟨did, target, src, cmd, hcarries⟩ := hcmd
      obtain ⟨-, q, ho⟩ := hB.posted a (List.mem_of_getElem? ha) did target src cmd hcarries
      have hlt := ho.lt
      rw [hcause, ← hB.steps] at hlt
      exact (lt_irrefl _ hlt).elim
  | @relayed ws conn target cmd hconn hother =>
    refine hB.posts hjoins rfl (fun _ => id) (hpassed.trans (List.append_nil _)) hposts ?_
    intro a ha did target' src cmd' hcarries
    obtain rfl := List.mem_singleton.1 ha
    obtain ⟨q, hmsg⟩ := hcarries
    cases hmsg
    refine ⟨rfl, hB.steps, hother, p, _, hlast, ?_⟩
    rw [hbefore]
    exact congrArg (Option.map _) hconn
  | heard cmd hc => exact (hlocal _ rfl).elim

theorem BusInv.deliver (hB : BusInv es (run step init es)) (r : I) (n now : ℕ) :
    BusInv (es ++ [.deliver r n now]) (step (run step init es) (.deliver r n now)) := by
  have hbefore := before_length es (.deliver r n now)
  generalize hrun : run step init es = B at *
  have hidle : BusInv (es ++ [.deliver r n now]) { B with steps := B.steps + 1 } := by
    refine hB.posts (fun _ _ _ hin => .inl hin) rfl (fun _ => id) rfl (List.append_nil _).symm ?_
    intro a ha
    exact (List.not_mem_nil ha).elim
  cases hn : B.posts[n]? with
  | none =>
    have hstep : step B (.deliver r n now) = { B with steps := B.steps + 1 } := by
      simp only [step, hn]
    rw [hstep]
    exact hidle
  | some post =>
    obtain ⟨cause, msg⟩ := post
    by_cases hfresh : (r, n) ∈ B.taken
    · have hstep : step B (.deliver r n now) = { B with steps := B.steps + 1 } := by
        simp only [step, hn]
        exact if_pos hfresh
      rw [hstep]
      exact hidle
    · have hstep : step B (.deliver r n now) =
          { B with taken := (r, n) :: B.taken }.handle cause r ⟨now, .relay msg⟩ := by
        simp only [step, hn]
        exact if_neg hfresh
      rw [hstep]
      have hstay (r' : I) (did : Did) (id : String)
          (hin : ({ B with taken := (r, n) :: B.taken }.handle cause r
            ⟨now, .relay msg⟩).Connected r' did id) : B.Connected r' did id := by
        refine (handle_connected hin).resolve_right fun h => ?_
        obtain ⟨-, ws, hello, device, hevent, -⟩ := h
        cases hevent
      have htaken : ∀ x ∈ B.taken, x ∈ (r, n) :: B.taken := fun _ => List.mem_cons_of_mem _
      have hrouted := step_routed (B.hubs r) ⟨now, .relay msg⟩
      generalize hout : ((B.hubs r).step ⟨now, .relay msg⟩).out = out at hrouted
      have hposts : ({ B with taken := (r, n) :: B.taken }.handle cause r
          ⟨now, .relay msg⟩).posts =
          B.posts ++ (published out).map fun msg => ⟨cause, msg⟩ := by rw [← hout]; rfl
      have hpassed : ({ B with taken := (r, n) :: B.taken }.handle cause r
          ⟨now, .relay msg⟩).passed = B.passed ++ (Connect.passes out).map
            fun m => ⟨cause, B.steps, r, m.1, m.2.1, m.2.2⟩ := by rw [← hout]; rfl
      dsimp only at hrouted
      cases hrouted with
      | plain hplain =>
        rw [plain_passes hplain] at hpassed
        refine hB.posts (fun r' did id hin => .inl (hstay r' did id hin)) rfl htaken
          (hpassed.trans (List.append_nil _)) hposts ?_
        intro a ha did target src cmd hcarries
        exact (published_plain hplain cause ha hcarries).elim
      | @heard q did target src c cmd hc =>
        have hcarries : Post.Carries (⟨cause, .command q did target src cmd⟩ : Post I)
            did target src cmd := ⟨q, rfl⟩
        obtain ⟨hother, p, ho⟩ := hB.posted _ (List.mem_of_getElem? hn) did target src cmd hcarries
        -- a message of the same command is this one
        have hsame (m : ℕ) (a : Post I) (ha : B.posts[m]? = some a) (hcause : a.cause = cause)
            (hcmd : Post.IsCommand a) : m = n :=
          hB.once m n a _ ha hn hcause hcmd ⟨did, target, src, cmd, hcarries⟩
        refine hB.passes hrun.symm (fun r' did id hin => .inl (hstay r' did id hin)) rfl htaken
          (hposts.trans (List.append_nil _)) hpassed hB.steps
          ⟨(ordered_snoc _ ho.lt).2 ho, hother, rfl, rfl, ?_, c, ?_, rfl⟩
          (fun r' _ => hstay r') (fun g hg hcause hplace => ?_) fun m a ha hcause hcmd => ?_
        · rw [List.length_append, hB.steps]
          exact Nat.lt_succ_self _
        · dsimp only
          rw [hB.steps, hbefore]
          exact hc
        · have htook := hB.source g hg n _ hn hcause.symm ⟨did, target, src, cmd, hcarries⟩
          rw [hplace] at htook
          exact hfresh htook
        · rw [hsame m a ha hcause hcmd]
          exact List.mem_cons_self ..

theorem busInv_run (es : List (BusEvent I)) : BusInv es (run step init es) := by
  induction es using List.reverseRecOn with
  | nil =>
    refine ⟨rfl, fun _ ha => ?_, fun _ _ _ _ ha => ?_, fun _ hf => ?_, fun _ hf => ?_,
      List.Pairwise.nil, fun _ _ hf => ?_, fun _ => List.Pairwise.nil⟩
    · cases ha
    · cases ha
    · cases hf
    · cases hf
    · cases hf
  | append_singleton es e ih =>
    rw [run_append, run_cons, run_nil]
    cases e with
    | event p i hlocal => exact ih.event p i hlocal
    | deliver r n now => exact ih.deliver r n now

/-- Every command frame is due to a command frame of a device, and goes to the device that is its
target at that moment. An instance sends at most one for each command, and a second instance sends
one only after the target has connected there since the first was sent. -/
theorem commands_routed (es : List (BusEvent I)) :
    (∀ f ∈ (run step init es).passed, ∃ o, Lands es f o) ∧
      (run step init es).passed.Pairwise fun f g => f.cause = g.cause → f.place ≠ g.place ∧
        (AllSteps step (fun B _ => B.OnePlace) init es → ∀ o, Ordered es f.cause o →
          ∃ k, f.step < k ∧ k < g.step ∧ Connects es k g.place o.did o.target) := by
  have hB := busInv_run es
  refine ⟨hB.landed, ?_⟩
  by_cases hone : AllSteps step (fun B _ => B.OnePlace) init es
  · refine (hB.distinct.and (hB.between hone)).imp fun hfg hcause => ?_
    exact ⟨hfg.1.2 hcause, fun _ => hfg.2 hcause⟩
  · exact hB.distinct.imp fun hfg hcause => ⟨hfg.2 hcause, fun h => (hone h).elim⟩

/-- It is enough to look at the devices in the registries. -/
def Apart (B : Bus I) : Prop :=
  ∀ p q, p ≠ q → ∀ m ∈ (B.hubs p).localReg.rows, ∀ c ∈ m.2.rows,
    (((B.hubs q).localMap m.1).get c.deviceId).isSome = false

theorem Apart.onePlace (ha : B.Apart) : B.OnePlace := by
  intro did id p q hp hq
  by_contra hne
  obtain ⟨c, hc⟩ := Option.isSome_iff_exists.1 hp
  obtain ⟨hmem, hid⟩ := (((B.hubs p).localMap did).get_eq_some _ _).1 hc
  unfold Hub.localMap JsMap.find at hmem
  cases hm : (B.hubs p).localReg.get did with
  | none =>
    rw [hm] at hmem
    cases hmem
  | some m =>
    rw [hm] at hmem
    obtain ⟨hrow, hdid⟩ := (Table.get_eq_some _ _ _).1 hm
    have hout := ha p q hne m hrow c hmem
    rw [hdid, hid] at hout
    exact Bool.false_ne_true (hout.symm.trans hq)

theorem mod_three_lt (n : ℕ) : n % 3 < 3 := Nat.mod_lt n (by decide)

def place (n : ℕ) : Fin 3 := ⟨n % 3, mod_three_lt n⟩

theorem local_frame (now : ℕ) (ws : SockId) (msg : Frame protocol) :
    Local (⟨now, .frame ws msg⟩ : Input protocol (Fin 3)) := fun _ h => by cases h

theorem local_verified (now : ℕ) (ws : SockId) (hello : ℕ) (did : Did) :
    Local (⟨now, .verified ws hello did⟩ : Input protocol (Fin 3)) := fun _ h => by cases h

theorem local_close (now : ℕ) (ws : SockId) :
    Local (⟨now, .close ws⟩ : Input protocol (Fin 3)) := fun _ h => by cases h

/-- A device connects at an instance. -/
def joining (p : Fin 3) (now : ℕ) (id : String) : List (BusEvent (Fin 3)) :=
  [.event p ⟨now, .frame 0 (.hello (some (sampleDevice id false)))⟩ (local_frame _ _ _),
   .event p ⟨now, .verified 0 0 "did:a"⟩ (local_verified _ _ _ _)]

/-- "A" commands "B", which moves while the command is on its way. -/
def moved : List (BusEvent (Fin 3)) :=
  joining (place 0) 1 "A" ++ joining (place 1) 2 "B" ++
    [.deliver (place 1) 0 2, .deliver (place 2) 0 2, .deliver (place 0) 1 2, .deliver (place 2) 1 2,
     .event (place 0) ⟨3, .frame 0 (.command "B" .play)⟩ (local_frame _ _ _),
     .deliver (place 1) 2 3, .event (place 1) ⟨4, .close 0⟩ (local_close _ _)] ++
    joining (place 2) 5 "B" ++ [.deliver (place 2) 2 6]

instance decidableApart (B : Bus (Fin 3)) : Decidable B.Apart := by
  unfold Apart
  infer_instance

theorem moved_onePlace : AllSteps step (fun B _ => B.OnePlace) init moved :=
  allSteps_of_invariant (G := fun B _ => B.Apart) (I := fun _ => True) (fun _ _ _ _ => trivial)
    (fun _ _ _ ha => ha.onePlace) trivial (by decide +kernel)

/-- The second frame is due to the target's having connected where it is sent. -/
theorem moved_connects : ∃ (o : Order (Fin 3)) (k : ℕ), Connects moved k 2 o.did o.target := by
  obtain ⟨hlands, hrouted⟩ := commands_routed moved
  obtain ⟨hlength, hcause, hplace⟩ : ∃ h : 1 < (run step init moved).passed.length,
      (run step init moved).passed[0].cause = (run step init moved).passed[1].cause ∧
        (run step init moved).passed[1].place = 2 := by decide +kernel
  obtain ⟨o, ho, -⟩ := hlands _ (List.getElem_mem (lt_trans Nat.zero_lt_one hlength))
  have hpair := List.pairwise_iff_getElem.1 hrouted 0 1 (lt_trans Nat.zero_lt_one hlength) hlength
    Nat.zero_lt_one hcause
  obtain ⟨k, -, -, hk⟩ := hpair.2 moved_onePlace o ho
  exact ⟨o, k, hplace ▸ hk⟩

/-- The device is sent the command twice, once where it was and once where it went. -/
theorem moved_twice :
    ¬ ∀ es : List (BusEvent (Fin 3)), AllSteps step (fun B _ => B.OnePlace) init es →
      (run step init es).passed.Pairwise fun f g => f.cause ≠ g.cause := by
  intro h
  have hnot : ¬ (run step init moved).passed.Pairwise fun f g => f.cause ≠ g.cause := by
    decide +kernel
  exact hnot (h moved moved_onePlace)

end Bus

end Atradio.Connect
