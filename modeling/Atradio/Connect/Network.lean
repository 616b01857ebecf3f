import Atradio.Connect.Relay

/-! # The instances together

Every instance handles its own events; what it publishes is put on its channels, from
which the receivers take one message at a time. -/

namespace Atradio.Connect
open Atradio.Lib Hub

/-- The instances, and what each has still to receive from each. -/
structure Net (I : Type) where
  hubs : I → Hub protocol I
  chan : I → I → List (RelayMsg protocol I)

inductive NetEvent (I : Type) where
  | event (p : I) (i : Input protocol I) (hlocal : Local i)
  | deliver (p r : I) (now : ℕ)

namespace Net

variable {I : Type} [DecidableEq I]

def handle (N : Net I) (p : I) (i : Input protocol I) : Net I :=
  let h := (N.hubs p).step i
  { hubs := fun q => if q = p then h else N.hubs q
    chan := fun q r => if q = p then N.chan q r ++ published h.out else N.chan q r }

def take (N : Net I) (p r : I) (rest : List (RelayMsg protocol I)) : Net I :=
  { N with chan := fun q s => if q = p ∧ s = r then rest else N.chan q s }

def step (N : Net I) : NetEvent I → Net I
  | .event p i _ => N.handle p i
  | .deliver p r now =>
    match N.chan p r with
    | [] => N
    | msg :: rest => (N.take p r rest).handle r ⟨now, .relay msg⟩

def init : Net I := { hubs := fun p => Hub.init p true, chan := fun _ _ => [] }

def RosterAgrees (N : Net I) (r : I) : Prop :=
  ∀ did id w, (∃ d, ((N.hubs r).remoteMap did).get id = some d ∧ d.toWireDevice = w) ↔
    ∃ p, p ≠ r ∧ ∃ c, ((N.hubs p).localMap did).get id = some c ∧ c.toWireDevice = w

/-- A message about a device finds no entry of it that originates elsewhere; a tick drops a
device only while a message about it is on the way; a state frame comes from a
registered connection; and hellos are well-formed. -/
def NetGuard (N : Net I) : NetEvent I → Prop
  | .event p i _ => StateGuard (N.hubs p) i ∧
    match i.event with
    | .verified ws hello _ => ((N.hubs p).socks ws).verifying.lookup hello ≠ some none
    | .tick => ∀ k d, (N.hubs p).remotes k = some d → Stale i.now d →
      ∃ c ∈ changes (N.chan d.origin p), c.key = k
    | _ => True
  | .deliver p r _ => ∀ msg, (N.chan p r).head? = some msg → p ≠ r →
    ∀ c, msg.change = some c → ∀ d, (N.hubs r).remotes c.key = some d → d.origin = p

structure NetInv (N : Net I) : Prop where
  names : ∀ p, (N.hubs p).instanceId = p
  redis : ∀ p, (N.hubs p).redis = true
  running : ∀ p, (N.hubs p).crashed = false
  filed : ∀ p, Filed (N.hubs p)
  signed : ∀ p r msg, msg ∈ N.chan p r → msg.sender = p
  foreign : ∀ r k d, (N.hubs r).remotes k = some d → d.origin ≠ r
  inSync : ∀ p r, p ≠ r → InSync ((N.hubs r).heard p) (changes (N.chan p r)) (N.hubs p).devices

/-! ### One instance -/

theorem step_running {h : Hub protocol I} (hc : h.crashed = false) (i : Input protocol I)
    (hverified : ∀ ws hello did, i.event = .verified ws hello did →
      (h.socks ws).verifying.lookup hello ≠ some none) : (h.step i).crashed = false := by
  refine (Sound.step ⟨sound_protocol h, hc⟩ total_protocol i ?_).2
  obtain ⟨now, event⟩ := i
  cases event with
  | frame ws msg =>
    cases msg with
    | state state => exact fun _ _ => trivial
    | _ => trivial
  | verified ws hello did =>
    intro device hdevice
    cases device with
    | none => exact (hverified ws hello did rfl hdevice).elim
    | some d => exact ⟨d, rfl, trivial⟩
  | relay msg => cases msg <;> trivial
  | _ => trivial

theorem step_eq {h : Hub protocol I} (hc : h.crashed = false) (i : Input protocol I) :
    h.step i = Hub.handle { h with out := [] } i := by
  unfold Hub.step
  rw [if_neg (by simp [hc])]

theorem step_mirrors {h : Hub protocol I} (hc : h.crashed = false) (hr : h.redis = true)
    (hf : Filed h) (i : Input protocol I) (hguard : StateGuard h i) :
    Mirrors { h with out := [] } (h.step i) (published (h.step i).out) := by
  obtain ⟨msgs, hm⟩ := handle_mirrors (h := { h with out := [] }) hr hf i hguard
  rw [← step_eq hc] at hm
  have hp : published (h.step i).out = msgs := hm.published
  rw [hp]
  exact hm

theorem step_relay {h : Hub protocol I} (hc : h.crashed = false) (now : ℕ)
    (msg : RelayMsg protocol I) :
    h.step ⟨now, .relay msg⟩ = (onRelay { h with out := [] } now msg).hub := step_eq hc _

theorem own_message {h : Hub protocol I} {msg : RelayMsg protocol I}
    (hown : msg.sender = h.instanceId) (now : ℕ) : h.onRelay now msg = .ok h := by
  cases msg <;> exact if_pos hown

/-- Entries that go away on their own are missed by nobody, if a message about them is on
the way. -/
theorem heard_of_ages {now : ℕ} {h h' : Hub protocol I} {a : I}
    {pending : List (Change (Did × String) (WireDevice protocol))} (hages : Ages now h h')
    (hguard : ∀ k d, h.remotes k = some d → Stale now d → d.origin = a → ∃ c ∈ pending, c.key = k) :
    ∀ k, h'.heard a k = h.heard a k ∨ ∃ c ∈ pending, c.key = k := by
  intro k
  have hheard : ∀ g : Hub protocol I, g.heard a k =
      ((g.remotes k).filter fun d => d.origin = a).map fun d => d.toWireDevice := fun _ => rfl
  cases hages k with
  | inl hk =>
    refine Or.inl ?_
    rw [hheard, hheard, hk]
  | inr hk =>
    obtain ⟨d, hd, hs, hn⟩ := hk
    by_cases ha : d.origin = a
    · exact Or.inr (hguard k d hd hs ha)
    · refine Or.inl ?_
      rw [hheard, hheard, hn, hd]
      simp [Option.filter, ha]

theorem step_ages {h : Hub protocol I} (hc : h.crashed = false) (i : Input protocol I)
    (hlocal : Local i) : Ages i.now h (h.step i) ∧
      (i.event ≠ .tick → (h.step i).remotes = h.remotes) := by
  rw [step_eq hc]
  by_cases ht : i.event = .tick
  · obtain ⟨now, event⟩ := i
    subst ht
    refine ⟨?_, fun hne => (hne rfl).elim⟩
    exact (tick_ages now { h with out := [] }).uncaught
  · have hr := handle_remotes { h with out := [] } i hlocal ht
    exact ⟨ages_of_remotes hr, fun _ => hr⟩

/-! ### All of them -/

omit [DecidableEq I] in
theorem changes_append (ms ns : List (RelayMsg protocol I)) :
    changes (ms ++ ns) = changes ms ++ changes ns := List.filterMap_append ..

theorem handle_hub (N : Net I) (p : I) (i : Input protocol I) :
    (N.handle p i).hubs p = (N.hubs p).step i := if_pos rfl

theorem handle_other (N : Net I) {p q : I} (i : Input protocol I) (hq : q ≠ p) :
    (N.handle p i).hubs q = N.hubs q := if_neg hq

theorem handle_sent (N : Net I) (p r : I) (i : Input protocol I) :
    (N.handle p i).chan p r = N.chan p r ++ published ((N.hubs p).step i).out := if_pos rfl

theorem handle_chan (N : Net I) {p q : I} (i : Input protocol I) (hq : q ≠ p) (r : I) :
    (N.handle p i).chan q r = N.chan q r := if_neg hq

/-- A step of one instance keeps what is said of each instance alone. -/
theorem NetInv.alone {N N' : Net I} (hN : NetInv N) {p : I} {i : Input protocol I}
    {msgs : List (RelayMsg protocol I)} (hhub : N'.hubs p = (N.hubs p).step i)
    (hother : ∀ q, q ≠ p → N'.hubs q = N.hubs q)
    (hm : Mirrors { N.hubs p with out := [] } ((N.hubs p).step i) msgs)
    (hrun : ((N.hubs p).step i).crashed = false) (q : I) :
    (N'.hubs q).instanceId = q ∧ (N'.hubs q).redis = true ∧ (N'.hubs q).crashed = false ∧
      Filed (N'.hubs q) := by
  by_cases hq : q = p
  · subst hq
    rw [hhub]
    exact ⟨hm.instanceId.trans (hN.names q), hm.redis.trans (hN.redis q), hrun,
      hm.filed (hN.filed q)⟩
  · rw [hother q hq]
    exact ⟨hN.names q, hN.redis q, hN.running q, hN.filed q⟩

theorem NetInv.event {N : Net I} (hN : NetInv N) (p : I) (i : Input protocol I)
    (hlocal : Local i) (hg : NetGuard N (.event p i hlocal)) :
    NetInv (N.handle p i) := by
  obtain ⟨hstate, hg⟩ := hg
  have hm := step_mirrors (hN.running p) (hN.redis p) (hN.filed p) i hstate
  obtain ⟨hages, hsame⟩ := step_ages (hN.running p) i hlocal
  have hrun : ((N.hubs p).step i).crashed = false := by
    refine step_running (hN.running p) i fun ws hello did he => ?_
    rw [he] at hg
    exact hg
  have hlost : ∀ a k d, (N.hubs p).remotes k = some d → Stale i.now d → d.origin = a →
      (∃ c ∈ changes (N.chan a p), c.key = k) ∨ i.event ≠ .tick := by
    intro a k d hd hs ha
    by_cases ht : i.event = .tick
    · rw [ht] at hg
      exact Or.inl (ha ▸ hg k d hd hs)
    · exact Or.inr ht
  have halone := hN.alone (handle_hub N p i) (fun _ hq => handle_other N i hq) hm hrun
  refine ⟨fun q => (halone q).1, fun q => (halone q).2.1, fun q => (halone q).2.2.1,
    fun q => (halone q).2.2.2, fun q r msg hmsg => ?_, fun r k d hd => ?_, fun a b hab => ?_⟩
  · by_cases hq : q = p
    · subst hq
      rw [handle_sent] at hmsg
      rcases List.mem_append.1 hmsg with hmsg | hmsg
      · exact hN.signed q r msg hmsg
      · exact (hm.signed msg hmsg).trans (hN.names q)
    · rw [handle_chan N i hq] at hmsg
      exact hN.signed q r msg hmsg
  · by_cases hr : r = p
    · subst hr
      rw [handle_hub] at hd
      cases hages k with
      | inl hk =>
        rw [hk] at hd
        exact hN.foreign r k d hd
      | inr hk =>
        obtain ⟨_, _, _, hn⟩ := hk
        rw [hn] at hd
        cases hd
    · rw [handle_other N i hr] at hd
      exact hN.foreign r k d hd
  · have hsync := hN.inSync a b hab
    by_cases ha : a = p
    · -- what `a` publishes tells its change
      subst ha
      rw [handle_hub, handle_other N i (Ne.symm hab), handle_sent, changes_append, hm.devices]
      exact hsync.publish (changes (published ((N.hubs a).step i).out))
    · rw [handle_chan N i ha, handle_other N i ha]
      by_cases hb : b = p
      · -- what `b` has heard of `a` only ages
        subst hb
        rw [handle_hub]
        by_cases ht : i.event = .tick
        · refine hsync.forget (heard_of_ages hages fun k d hd hs hda => ?_)
          rcases hlost a k d hd hs hda with h | h
          · exact h
          · exact (h ht).elim
        · have hheard : ((N.hubs b).step i).heard a = (N.hubs b).heard a := by
            funext k
            show ((((N.hubs b).step i).remotes k).filter _).map _ = _
            rw [hsame ht]
            rfl
          rw [hheard]
          exact hsync
      · rw [handle_other N i hb]
        exact hsync

section Relayed

variable {h : Hub protocol I} {p : I} (now : ℕ) {msg : RelayMsg protocol I}

theorem heard_relay (hc : h.crashed = false) (hsender : msg.sender = p)
    (hown : p ≠ h.instanceId → ∀ c, msg.change = some c → ∀ d, h.remotes c.key = some d →
      d.origin = p) {a : I} (ha : a ≠ h.instanceId) :
    (h.step ⟨now, .relay msg⟩).heard a =
      if a = p then Change.applyAll (h.heard a) (changes [msg]) else h.heard a := by
  rw [step_relay hc now msg]
  by_cases hp : p = h.instanceId
  · rw [own_message (h := { h with out := [] }) (hsender.trans hp),
      if_neg fun h' => ha (h'.trans hp)]
    rfl
  · have hne : msg.sender ≠ h.instanceId := hsender ▸ hp
    have hrel := relay_heard (h := { h with out := [] }) hne now
      (fun c hc d hd => (hown hp c hc d hd).trans hsender.symm) a
    rw [hsender] at hrel
    exact hrel

theorem foreign_relay (hc : h.crashed = false) (hsender : msg.sender = p)
    (hforeign : ∀ k d, h.remotes k = some d → d.origin ≠ h.instanceId) {k : Did × Did}
    {d : RemoteDevice protocol I} (hd : (h.step ⟨now, .relay msg⟩).remotes k = some d) :
    d.origin ≠ h.instanceId := by
  rw [step_relay hc now msg] at hd
  by_cases hp : p = h.instanceId
  · rw [own_message (h := { h with out := [] }) (hsender.trans hp)] at hd
    exact hforeign k d hd
  · have hne : msg.sender ≠ h.instanceId := hsender ▸ hp
    rw [relay_remotes (h := { h with out := [] }) hne] at hd
    cases hchange : msg.change with
    | none =>
      simp only [received, hchange, Option.map_none] at hd
      exact hforeign k d hd
    | some c =>
      simp only [received, hchange, Option.map_some] at hd
      split at hd
      · obtain ⟨w, _, rfl⟩ := Option.map_eq_some_iff.1 hd
        exact hne
      · exact hforeign k d hd

end Relayed

/-- What is delivered without an answer leaves its channel; the others stay. -/
theorem take_chan {N : Net I} {p r : I} {rest : List (RelayMsg protocol I)} {i : Input protocol I}
    (hquiet : published ((N.hubs r).step i).out = []) (q s : I) :
    ((N.take p r rest).handle r i).chan q s = if q = p ∧ s = r then rest else N.chan q s := by
  by_cases hq : q = r
  · subst hq
    rw [handle_sent]
    show (if q = p ∧ s = q then rest else N.chan q s) ++ published ((N.hubs q).step _).out = _
    rw [hquiet, List.append_nil]
  · rw [handle_chan _ _ hq]
    rfl

theorem NetInv.deliver {N : Net I} (hN : NetInv N) {p r : I} (now : ℕ)
    {msg : RelayMsg protocol I} {rest : List (RelayMsg protocol I)}
    (hchan : N.chan p r = msg :: rest)
    (hown : p ≠ r → ∀ c, msg.change = some c → ∀ d, (N.hubs r).remotes c.key = some d →
      d.origin = p) : NetInv ((N.take p r rest).handle r ⟨now, .relay msg⟩) := by
  have hsender : msg.sender = p := hN.signed p r msg (hchan ▸ List.mem_cons_self ..)
  have hm := step_mirrors (hN.running r) (hN.redis r) (hN.filed r) ⟨now, .relay msg⟩ trivial
  have hstep := step_relay (hN.running r) now msg
  have hquiet : published ((N.hubs r).step ⟨now, .relay msg⟩).out = [] := by
    rw [hstep]
    exact (relay_mirrors { N.hubs r with out := [] } now msg).published
  have hrun : ((N.hubs r).step ⟨now, .relay msg⟩).crashed = false :=
    step_running (hN.running r) _ fun _ _ _ he => by cases he
  rw [hquiet] at hm
  have hhub : ((N.take p r rest).handle r ⟨now, .relay msg⟩).hubs r =
      (N.hubs r).step ⟨now, .relay msg⟩ := if_pos rfl
  have hother : ∀ q, q ≠ r → ((N.take p r rest).handle r ⟨now, .relay msg⟩).hubs q = N.hubs q :=
    fun q hq => if_neg hq
  have hch : ∀ q s, ((N.take p r rest).handle r ⟨now, .relay msg⟩).chan q s =
      if q = p ∧ s = r then rest else N.chan q s := take_chan hquiet
  have halone := hN.alone hhub hother hm hrun
  refine ⟨fun q => (halone q).1, fun q => (halone q).2.1, fun q => (halone q).2.2.1,
    fun q => (halone q).2.2.2, fun q s m hmem => ?_, fun s k d hd => ?_, fun a b hab => ?_⟩
  · rw [hch] at hmem
    split at hmem
    · rename_i hqs
      rw [hqs.1]
      exact hN.signed p r m (hchan ▸ List.mem_cons_of_mem _ hmem)
    · exact hN.signed q s m hmem
  · by_cases hs : s = r
    · subst hs
      rw [hhub] at hd
      have hne := foreign_relay now (hN.running s) hsender
        (fun k d hd => (hN.names s).symm ▸ hN.foreign s k d hd) hd
      rwa [hN.names] at hne
    · rw [hother s hs] at hd
      exact hN.foreign s k d hd
  · have hsync := hN.inSync a b hab
    have hdev : (((N.take p r rest).handle r ⟨now, .relay msg⟩).hubs a).devices =
        (N.hubs a).devices := by
      by_cases ha : a = r
      · subst ha
        rw [hhub, hm.devices]
        rfl
      · rw [hother a ha]
    rw [hdev, hch]
    by_cases hb : b = r
    · subst hb
      rw [hhub, heard_relay now (hN.running b) hsender (by rwa [hN.names]) (by rwa [hN.names])]
      by_cases ha : a = p
      · subst ha
        rw [if_pos (rfl : a = a), if_pos ⟨rfl, rfl⟩]
        rw [hchan] at hsync
        unfold InSync at hsync ⊢
        rw [← Change.applyAll_append, ← changes_append]
        exact hsync
      · rw [if_neg ha, if_neg fun h => ha h.1]
        exact hsync
    · rw [hother b hb, if_neg fun h => hb h.2]
      exact hsync

theorem netInv_init : NetInv (init : Net I) := by
  refine ⟨fun _ => rfl, fun _ => rfl, fun _ => rfl, fun _ _ _ hc => ?_, fun _ _ _ hm => ?_,
    fun _ _ _ hd => ?_, fun _ _ _ => rfl⟩
  · cases hc
  · cases hm
  · cases hd

theorem netInv_step (N : Net I) (e : NetEvent I) (hN : NetInv N) (hg : NetGuard N e) :
    NetInv (N.step e) := by
  cases e with
  | event p i hlocal => exact hN.event p i hlocal hg
  | deliver p r now =>
    unfold Net.step
    dsimp only
    cases hchan : N.chan p r with
    | nil => exact hN
    | cons msg rest =>
      have hhead : (N.chan p r).head? = some msg := by rw [hchan]; rfl
      exact hN.deliver now hchan fun hpr c hc d hd => hg msg hhead hpr c hc d hd

theorem NetInv.agrees {N : Net I} (hN : NetInv N) {r : I} (hdelivered : ∀ p, N.chan p r = []) :
    RosterAgrees N r := by
  have heq : ∀ p, p ≠ r → ∀ k, (N.hubs r).heard p k = (N.hubs p).devices k := by
    intro p hp k
    have hsync := hN.inSync p r hp
    rw [hdelivered] at hsync
    exact congrFun hsync.delivered k
  intro did id w
  constructor
  · intro h
    obtain ⟨d, hd, rfl⟩ := h
    have hne : d.origin ≠ r := hN.foreign r (did, id) d hd
    have hdev := heq d.origin hne (did, id)
    have hheard : (N.hubs r).heard d.origin (did, id) = some d.toWireDevice := by
      unfold heard
      rw [hd]
      simp [Option.filter]
    rw [hheard] at hdev
    obtain ⟨c, hc, hcw⟩ := Option.map_eq_some_iff.1 hdev.symm
    exact ⟨d.origin, hne, c, hc, hcw⟩
  · intro h
    obtain ⟨p, hp, c, hc, rfl⟩ := h
    have hdev := heq p hp (did, id)
    have hpub : (N.hubs p).devices (did, id) = some c.toWireDevice := by
      unfold devices
      rw [hc]
      rfl
    rw [hpub] at hdev
    obtain ⟨d, hd, hdw⟩ := Option.map_eq_some_iff.1 hdev
    exact ⟨d, (Option.filter_eq_some_iff.1 hd).1, hdw⟩

/-- In a run whose steps are as `NetGuard` says, an instance that has received all that was
published knows exactly the devices connected elsewhere, with their latest state. -/
theorem rosters_agree (es : List (NetEvent I)) (hguard : AllSteps step NetGuard init es) (r : I)
    (hdelivered : ∀ p, (run step init es).chan p r = []) :
    RosterAgrees (run step init es) r :=
  (run_invariant netInv_step netInv_init hguard).agrees hdelivered

/-! ### A device that moves -/

def connect (p : I) (ws : SockId) (now : ℕ) : List (NetEvent I) :=
  [.event p ⟨now, .frame ws (.hello (some (sampleDevice "A" true)))⟩ (fun _ h => by cases h),
   .event p ⟨now, .verified ws 0 "did:a"⟩ (fun _ h => by cases h)]

def deliverAll (now : ℕ) (pairs : List (I × I)) : List (NetEvent I) :=
  pairs.map fun e => .deliver e.1 e.2 now

/-- Device "A" is connected to instance 0, then to instance 1, and leaves instance 0;
instance 2 hears of the new connection first. -/
def moves : List (NetEvent (Fin 3)) :=
  connect 0 0 0 ++ deliverAll 1 [(0, 0), (0, 1), (0, 2)] ++ connect 1 0 2 ++
    [.event 0 ⟨3, .close 0⟩ fun _ h => by cases h] ++
    deliverAll 4 [(1, 2), (0, 2), (1, 0), (0, 1), (1, 1), (0, 0)]

/-- All messages are delivered, and instance 2 does not know the device. -/
theorem roster_loses_device :
    ¬ ∀ (es : List (NetEvent (Fin 3))) (r : Fin 3), (∀ p, (run step init es).chan p r = []) →
      RosterAgrees (run step init es) r := by
  intro h
  have hdelivered : ∀ p, ((run step init moves).chan p 2).length = 0 := by decide
  have hconnected : (((((run step init moves).hubs 1).localMap "did:a").get "A").map
      fun c => c.deviceId) = some "A" := by decide
  have hunknown : ((((run step init moves).hubs 2).remoteMap "did:a").get "A").isNone = true := by
    decide
  obtain ⟨c, hc, _⟩ := Option.map_eq_some_iff.1 hconnected
  obtain ⟨d, hd, _⟩ := (h moves 2 (fun p => List.length_eq_zero_iff.1 (hdelivered p)) "did:a" "A"
    c.toWireDevice).2 ⟨1, by decide, c, hc, rfl⟩
  rw [hd] at hunknown
  cases hunknown

/-- The first half of that run, before the device moves. -/
theorem roster_keeps_device :
    RosterAgrees
      (run step init (connect 0 0 0 ++ deliverAll 1 [(0, (0 : Fin 3)), (0, 1), (0, 2)])) 2 := by
  refine rosters_agree _ ?_ 2 ?_
  · simp only [connect, deliverAll, List.cons_append, List.nil_append, List.map_cons, List.map_nil,
      AllSteps]
    refine ⟨⟨trivial, trivial⟩, ⟨trivial, fun hnone => by cases hnone⟩, ?_, ?_, ?_, trivial⟩
    · exact fun _ _ hne => (hne rfl).elim
    · intro msg hmsg _ c hc d hd
      cases hmsg
      cases hc
      cases hd
    · intro msg hmsg _ c hc d hd
      cases hmsg
      cases hc
      cases hd
  · intro p
    have hlen : ∀ p, ((run step init (connect 0 0 0 ++
      deliverAll 1 [(0, (0 : Fin 3)), (0, 1), (0, 2)])).chan p 2).length = 0 := by decide
    exact List.length_eq_zero_iff.1 (hlen p)

end Net

end Atradio.Connect
