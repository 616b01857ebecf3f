import Atradio.Connect.Views

/-! # The registry agrees with the sockets

Every registered device belongs to a live socket, and a socket has at most one. The
close handler can only remove what the variable `conn` of its socket points to, so the
invariant is that each entry is what its socket points to (`Linked`). The variable is
assigned when a verification completes: that is the one step where the invariant needs
a condition (`RegistryGuard`). -/

namespace Atradio.Connect.Hub
open Atradio.Lib

theorem mem_of_lookup {K V : Type} [BEq K] [LawfulBEq K] {l : List (K × V)} {k : K} {v : V}
    (h : l.lookup k = some v) : (k, v) ∈ l := by
  obtain ⟨l1, l2, rfl, _⟩ := List.lookup_eq_some_iff.1 h
  simp

variable {P : Payload} {I : Type}

/-- Entries belong to sockets that are not closed, one entry to a socket. -/
structure RegistryAgrees (h : Hub P I) : Prop where
  live : ∀ did c, c ∈ (h.localMap did).rows → (h.socks c.ws).readyState ≠ .closed
  unique : ∀ did did' c c', c ∈ (h.localMap did).rows → c' ∈ (h.localMap did').rows →
    c.ws = c'.ws → did = did' ∧ c = c'

def ghosts (h : Hub P I) (did : Did) : List SockId :=
  ((h.localMap did).rows.filter fun c => (h.socks c.ws).readyState = .closed).map fun c => c.ws

theorem RegistryAgrees.no_ghosts {h : Hub P I} (ha : RegistryAgrees h) (did : Did) :
    h.ghosts did = [] := by
  simp only [ghosts, List.map_eq_nil_iff, List.filter_eq_nil_iff, decide_eq_true_eq]
  exact fun c hc => ha.live did c hc

/-- The completion of a verification finds a socket that is still open and owns no other
entry; a failed one finds a socket without an entry. -/
def RegistryGuard (h : Hub P I) (i : Input P I) : Prop :=
  match i.event with
  | .verified ws hello did =>
    ∀ device, (h.socks ws).verifying.lookup hello = some (some device) →
      (h.socks ws).readyState ≠ .closed ∧
        ∀ d c, c ∈ (h.localMap d).rows → c.ws = ws → d = did ∧ c.deviceId = device.id
  | .rejected ws hello _ =>
    ((h.socks ws).verifying.lookup hello).isSome →
      ∀ d c, c ∈ (h.localMap d).rows → c.ws ≠ ws
  | _ => True

def PointsTo (s : Sock P) (c : LocalConn P) : Prop :=
  ∃ c', s.conn = some c' ∧ c'.same c = true ∧ c'.did = c.did ∧ c'.deviceId = c.deviceId

structure Linked (h : Hub P I) : Prop where
  own : ∀ ws c, (h.socks ws).conn = some c → c.ws = ws
  did : ∀ did c, c ∈ (h.localMap did).rows → c.did = did
  live : ∀ did c, c ∈ (h.localMap did).rows → (h.socks c.ws).readyState ≠ .closed
  points : ∀ did c, c ∈ (h.localMap did).rows → PointsTo (h.socks c.ws) c

theorem LocalConn.same_iff (a b : LocalConn P) :
    a.same b = true ↔ a.ws = b.ws ∧ a.hello = b.hello := by
  simp [LocalConn.same]

theorem Linked.agrees {h : Hub P I} (hl : Linked h) : RegistryAgrees h := by
  refine ⟨hl.live, fun did did' c c' hc hc' hws => ?_⟩
  obtain ⟨p, hp, _, hpd, hpi⟩ := hl.points did c hc
  obtain ⟨p', hp', _, hpd', hpi'⟩ := hl.points did' c' hc'
  have hpp : p = p' := by
    rw [hws, hp'] at hp
    exact (Option.some.inj hp).symm
  subst hpp
  have hdid : did = did' := by
    rw [← hl.did did c hc, ← hl.did did' c' hc', ← hpd, ← hpd']
  subst hdid
  exact ⟨rfl, Table.eq_of_key hc hc' (hpi.symm.trans hpi')⟩

theorem SameLocal.linked {h h' : Hub P I} (a : SameLocal h h') (hl : Linked h) : Linked h' := by
  refine ⟨?_, ?_, ?_, ?_⟩
  · rw [a.socks]
    exact hl.own
  · intro did c hc
    rw [a.localMap] at hc
    exact hl.did did c hc
  · intro did c hc
    rw [a.localMap] at hc
    rw [a.socks]
    exact hl.live did c hc
  · intro did c hc
    rw [a.localMap] at hc
    rw [a.socks]
    exact hl.points did c hc

theorem SameLocal.agrees {h h' : Hub P I} (a : SameLocal h h') (hl : RegistryAgrees h) :
    RegistryAgrees h' := by
  refine ⟨fun did c hc => ?_, fun did did' c c' hc hc' => ?_⟩
  · rw [a.localMap] at hc
    rw [a.socks]
    exact hl.live did c hc
  · rw [a.localMap] at hc hc'
    exact hl.unique did did' c c' hc hc'

/-! ### Sockets -/

theorem setSock_same (h : Hub P I) (ws : SockId) (s : Sock P) : (h.setSock ws s).socks ws = s := by
  simp [setSock]

theorem setSock_ne (h : Hub P I) {ws ws' : SockId} (s : Sock P) (hne : ws' ≠ ws) :
    (h.setSock ws s).socks ws' = h.socks ws' := by
  simp [setSock, hne]

theorem setSock_localMap (h : Hub P I) (ws : SockId) (s : Sock P) (did : Did) :
    (h.setSock ws s).localMap did = h.localMap did := rfl

/-- A socket may change anything but its `conn`, and closes only without an entry. -/
theorem Linked.setSock {h : Hub P I} (hl : Linked h) {ws : SockId} {s : Sock P}
    (hconn : s.conn = (h.socks ws).conn)
    (hlive : s.readyState ≠ .closed ∨ ∀ did c, c ∈ (h.localMap did).rows → c.ws ≠ ws) :
    Linked (h.setSock ws s) := by
  refine ⟨fun ws' c hc => ?_, hl.did, fun did c hc => ?_, fun did c hc => ?_⟩
  · by_cases hw : ws' = ws
    · subst hw
      rw [setSock_same, hconn] at hc
      exact hl.own ws' c hc
    · rw [setSock_ne h s hw] at hc
      exact hl.own ws' c hc
  · by_cases hw : c.ws = ws
    · rw [hw, setSock_same]
      rcases hlive with hlive | hlive
      · exact hlive
      · exact (hlive did c hc hw).elim
    · rw [setSock_ne h s hw]
      exact hl.live did c hc
  · obtain ⟨c', hc', hrest⟩ := hl.points did c hc
    by_cases hw : c.ws = ws
    · refine ⟨c', ?_, hrest⟩
      rw [hw, setSock_same, hconn, ← hw]
      exact hc'
    · rw [setSock_ne h s hw]
      exact ⟨c', hc', hrest⟩

theorem Linked.setConn {h : Hub P I} (hl : Linked h) {ws : SockId} {s : Sock P}
    (hown : ∀ c, s.conn = some c → c.ws = ws)
    (hnone : ∀ did c, c ∈ (h.localMap did).rows → c.ws ≠ ws) : Linked (h.setSock ws s) := by
  refine ⟨fun ws' c hc => ?_, hl.did, fun did c hc => ?_, fun did c hc => ?_⟩
  · by_cases hw : ws' = ws
    · subst hw
      rw [setSock_same] at hc
      exact hown c hc
    · rw [setSock_ne h s hw] at hc
      exact hl.own ws' c hc
  · rw [setSock_ne h s (hnone did c hc)]
    exact hl.live did c hc
  · rw [setSock_ne h s (hnone did c hc)]
    exact hl.points did c hc

theorem Linked.close {h : Hub P I} (hl : Linked h) (ws : SockId) (code : ℕ) (reason : String) :
    Linked (h.close ws code reason) := by
  unfold Hub.close
  split
  · have hs : Linked (h.setSock ws { h.socks ws with readyState := .closing }) :=
      hl.setSock rfl (Or.inl (by simp))
    exact (effect_view _ _).toSameRegs.toLocal.linked hs
  · exact hl

theorem Linked.terminate {h : Hub P I} (hl : Linked h) (ws : SockId) : Linked (h.terminate ws) := by
  unfold Hub.terminate
  split
  · exact hl.setSock rfl (Or.inl (by simp))
  · exact hl

/-! ### The object in the registry -/

/-- Assignment to members of a registered object other than its keys and identity. -/
theorem Linked.update {h : Hub P I} (hl : Linked h) {did : Did} {c c' : LocalConn P}
    (hc : c ∈ (h.localMap did).rows) (hsame : c.same c' = true) (hdid : c'.did = c.did)
    (hid : c'.deviceId = c.deviceId) :
    Linked (h.setLocalMap did ((h.localMap did).put c')) := by
  have hmem : ∀ d x, x ∈ ((h.setLocalMap did ((h.localMap did).put c')).localMap d).rows →
      (d = did ∧ x = c') ∨ x ∈ (h.localMap d).rows := by
    intro d x hx
    rw [setLocalMap_localMap] at hx
    by_cases hd : d = did
    · rw [if_pos hd, Table.mem_put] at hx
      rcases hx with hx | hx
      · exact Or.inl ⟨hd, hx⟩
      · exact Or.inr (hd ▸ hx.1)
    · rw [if_neg hd] at hx
      exact Or.inr hx
  have hws : c.ws = c'.ws := ((LocalConn.same_iff c c').1 hsame).1
  have hhello : c.hello = c'.hello := ((LocalConn.same_iff c c').1 hsame).2
  refine ⟨hl.own, fun d x hx => ?_, fun d x hx => ?_, fun d x hx => ?_⟩
  · rcases hmem d x hx with ⟨rfl, rfl⟩ | hx
    · exact hdid.trans (hl.did d c hc)
    · exact hl.did d x hx
  · rcases hmem d x hx with ⟨rfl, rfl⟩ | hx
    · exact hws ▸ hl.live d c hc
    · exact hl.live d x hx
  · rcases hmem d x hx with ⟨rfl, rfl⟩ | hx
    · obtain ⟨p, hp, hpsame, hpd, hpi⟩ := hl.points d c hc
      have hps := (LocalConn.same_iff p c).1 hpsame
      exact ⟨p, hws ▸ hp, (LocalConn.same_iff p x).2 ⟨hps.1.trans hws, hps.2.trans hhello⟩,
        hpd.trans hdid.symm, hpi.trans hid.symm⟩
    · exact hl.points d x hx

/-- The closure of a socket may replace its object by one with the same identity and keys. -/
theorem Linked.closure {h : Hub P I} (hl : Linked h) {ws : SockId} {c c' : LocalConn P}
    (hc : (h.socks ws).conn = some c) (hsame : c.same c' = true) (hdid : c'.did = c.did)
    (hid : c'.deviceId = c.deviceId) :
    Linked (h.setSock ws { h.socks ws with conn := some c' }) := by
  have hs := (LocalConn.same_iff c c').1 hsame
  refine ⟨fun ws' x hx => ?_, hl.did, fun did x hx => ?_, fun did x hx => ?_⟩
  · by_cases hw : ws' = ws
    · subst hw
      rw [setSock_same] at hx
      obtain rfl := Option.some.inj hx
      exact hs.1.symm.trans (hl.own ws' c hc)
    · rw [setSock_ne h _ hw] at hx
      exact hl.own ws' x hx
  · by_cases hw : x.ws = ws
    · have hlive := hl.live did x hx
      rw [hw] at hlive ⊢
      rw [setSock_same]
      exact hlive
    · rw [setSock_ne h _ hw]
      exact hl.live did x hx
  · obtain ⟨p, hp, hpsame, hpd, hpi⟩ := hl.points did x hx
    by_cases hw : x.ws = ws
    · rw [hw, hc] at hp
      obtain rfl := Option.some.inj hp
      have hps := (LocalConn.same_iff c x).1 hpsame
      refine ⟨c', ?_, ?_, hdid.trans hpd, hid.trans hpi⟩
      · rw [hw, setSock_same]
      · exact (LocalConn.same_iff c' x).2 ⟨hs.1.symm.trans hps.1, hs.2.symm.trans hps.2⟩
    · rw [setSock_ne h _ hw]
      exact ⟨p, hp, hpsame, hpd, hpi⟩

theorem Linked.storeClosure {h : Hub P I} (hl : Linked h) (conn : LocalConn P)
    {c : LocalConn P} (hc : (h.socks conn.ws).conn = some c) (hdid : conn.did = c.did)
    (hid : conn.deviceId = c.deviceId) : Linked (h.storeClosure conn) := by
  unfold Hub.storeClosure
  rw [hc]
  dsimp only
  split
  · rename_i hsame
    exact hl.closure hc hsame hdid hid
  · exact hl

theorem Linked.storeRegistry {h : Hub P I} (hl : Linked h) (conn : LocalConn P) :
    Linked (h.storeRegistry conn) := by
  unfold Hub.storeRegistry
  cases he : (h.localMap conn.did).get conn.deviceId with
  | none => exact hl
  | some e =>
    dsimp only
    split
    · rename_i hsame
      have hmem := ((h.localMap conn.did).get_eq_some _ _).1 he
      exact hl.update hmem.1 hsame
        (hl.did _ e hmem.1).symm hmem.2.symm
    · exact hl

theorem Linked.markAlive {h : Hub P I} (hl : Linked h) (conn : LocalConn P) :
    Linked (h.markAlive conn) := by
  unfold Hub.markAlive
  cases he : (h.localMap conn.did).get conn.deviceId with
  | none => exact hl
  | some e =>
    dsimp only
    split
    · have hmem := ((h.localMap conn.did).get_eq_some _ _).1 he
      exact hl.update hmem.1 ((LocalConn.same_iff _ _).2 ⟨rfl, rfl⟩) rfl rfl
    · exact hl

theorem Linked.store {h : Hub P I} (hl : Linked h) {ws : SockId} {c conn : LocalConn P}
    (hc : (h.socks ws).conn = some c) (hws : conn.ws = c.ws) (hdid : conn.did = c.did)
    (hid : conn.deviceId = c.deviceId) : Linked (h.store conn) := by
  have hcw : (h.socks conn.ws).conn = some c := by
    rw [hws, hl.own ws c hc]
    exact hc
  exact (hl.storeClosure conn hcw hdid hid).storeRegistry conn

theorem Linked.subset {h h' : Hub P I} (hl : Linked h) (hsocks : h'.socks = h.socks)
    (hsub : ∀ did c, c ∈ (h'.localMap did).rows → c ∈ (h.localMap did).rows) : Linked h' := by
  refine ⟨?_, fun did c hc => hl.did did c (hsub did c hc), ?_, ?_⟩
  · rw [hsocks]
    exact hl.own
  · intro did c hc
    rw [hsocks]
    exact hl.live did c (hsub did c hc)
  · intro did c hc
    rw [hsocks]
    exact hl.points did c (hsub did c hc)

/-! ### Closing -/

theorem Linked.owner {h : Hub P I} (hl : Linked h) {ws : SockId} {did : Did}
    {c : LocalConn P} (hc : c ∈ (h.localMap did).rows) (hws : c.ws = ws) :
    ∃ conn, (h.socks ws).conn = some conn ∧ conn.did = did ∧
      conn.deviceId = c.deviceId ∧ c.same conn = true := by
  obtain ⟨conn, hconn, hsame, hd, hi⟩ := hl.points did c hc
  have hs := (LocalConn.same_iff conn c).1 hsame
  exact ⟨conn, hws ▸ hconn, hd.trans (hl.did did c hc), hi,
    (LocalConn.same_iff c conn).2 ⟨hs.1.symm, hs.2.symm⟩⟩

theorem Linked.closed {h : Hub P I} (hl : Linked h) (ws : SockId) {s : Sock P}
    (hconn : s.conn = (h.socks ws).conn) (o : Outcome P I)
    (ho : o = match s.conn with
      | none => .ok (h.setSock ws s)
      | some conn => (h.setSock ws s).removeConn conn) : Linked o.hub := by
  subst ho
  cases hs : (h.socks ws).conn with
  | none =>
    rw [hconn, hs]
    refine hl.setSock hconn (Or.inr fun did c hc hws => ?_)
    obtain ⟨conn, hc', _⟩ := hl.owner hc hws
    rw [hs] at hc'
    cases hc'
  | some conn =>
    rw [hconn, hs]
    unfold removeConn
    dsimp only
    by_cases hreg : (h.setSock ws s).registered conn = true
    · rw [hreg]
      simp only [Bool.not_true, Bool.false_eq_true, if_false]
      -- first without the entry, then with the closed socket
      have hdel : Linked (h.deleteLocal conn.did conn.deviceId) := by
        refine hl.subset (deleteLocal_rest h _ _).1 fun did c hc => ?_
        rw [deleteLocal_localMap] at hc
        by_cases hd : did = conn.did
        · rw [if_pos hd, Table.mem_delete] at hc
          exact hd ▸ hc.1
        · rwa [if_neg hd] at hc
      have hnone : ∀ did c, c ∈ ((h.deleteLocal conn.did conn.deviceId).localMap did).rows →
          c.ws ≠ ws := by
        intro did c hc hws
        rw [deleteLocal_localMap] at hc
        by_cases hd : did = conn.did
        · rw [if_pos hd, Table.mem_delete] at hc
          obtain ⟨conn', hc', _, hi, _⟩ := hl.owner hc.1 hws
          rw [hs] at hc'
          obtain rfl := Option.some.inj hc'
          exact hc.2 hi.symm
        · rw [if_neg hd] at hc
          obtain ⟨conn', hc', hd', _⟩ := hl.owner hc hws
          rw [hs] at hc'
          obtain rfl := Option.some.inj hc'
          exact hd hd'.symm
      have hswap : (h.setSock ws s).deleteLocal conn.did conn.deviceId =
          (h.deleteLocal conn.did conn.deviceId).setSock ws s := by
        unfold deleteLocal
        dsimp only [setSock_localMap]
        split <;> rfl
      rw [hswap]
      have hset : Linked ((h.deleteLocal conn.did conn.deviceId).setSock ws s) := by
        refine hdel.setSock ?_ (Or.inr hnone)
        rw [hconn, (deleteLocal_rest h _ _).1]
      exact ((publish_view _ _).toSameRegs.trans
        (broadcast_reconcile_regs _ conn.did)).toLocal.linked hset
    · have hfalse : (h.setSock ws s).registered conn = false := by simpa using hreg
      rw [hfalse]
      refine hl.setSock hconn (Or.inr fun did c hc hws => ?_)
      obtain ⟨conn', hc', hd, hi, hsame⟩ := hl.owner hc hws
      rw [hs] at hc'
      obtain rfl := Option.some.inj hc'
      have hget : ((h.setSock ws s).localMap conn.did).get conn.deviceId = some c := by
        rw [setSock_localMap, Table.get_eq_some, hd]
        exact ⟨hc, hi.symm⟩
      simp [registered, hget, hsame] at hreg

/-! ### Registration -/

theorem mem_register {h : Hub P I} {conn : LocalConn P}
    (hguard : ∀ d c, c ∈ (h.localMap d).rows → c.ws = conn.ws →
      d = conn.did ∧ c.deviceId = conn.deviceId)
    {did : Did} {c : LocalConn P} (hc : c ∈ ((h.register conn).localMap did).rows) :
    (did = conn.did ∧ c = conn) ∨ (c ∈ (h.localMap did).rows ∧ c.ws ≠ conn.ws) := by
  rw [register_localMap] at hc
  by_cases hd : did = conn.did
  · rw [if_pos hd, Table.mem_put] at hc
    rcases hc with hc | hc
    · exact Or.inl ⟨hd, hc⟩
    · refine Or.inr ⟨hd ▸ hc.1, fun hws => hc.2 ?_⟩
      exact (hguard conn.did c hc.1 hws).2
  · rw [if_neg hd] at hc
    exact Or.inr ⟨hc, fun hws => hd (hguard did c hc hws).1⟩

theorem Linked.register_agrees {h : Hub P I} (hl : Linked h) {conn : LocalConn P}
    (hlive : (h.socks conn.ws).readyState ≠ .closed)
    (hguard : ∀ d c, c ∈ (h.localMap d).rows → c.ws = conn.ws →
      d = conn.did ∧ c.deviceId = conn.deviceId) : RegistryAgrees (h.register conn) := by
  refine ⟨fun did c hc => ?_, fun did did' c c' hc hc' hws => ?_⟩
  · rw [Ne, (register_conns h conn c.ws).2]
    rcases mem_register hguard hc with ⟨_, rfl⟩ | ⟨hc, _⟩
    · exact hlive
    · exact hl.live did c hc
  · rcases mem_register hguard hc with ⟨hd, rfl⟩ | ⟨hc, hne⟩ <;>
      rcases mem_register hguard hc' with ⟨hd', rfl⟩ | ⟨hc', hne'⟩
    · exact ⟨hd.trans hd'.symm, rfl⟩
    · exact (hne' hws.symm).elim
    · exact (hne hws).elim
    · exact hl.agrees.unique did did' c c' hc hc' hws

theorem Linked.hello {h h' : Hub P I} (hl : Linked h) (conn : LocalConn P)
    (hlive : (h.socks conn.ws).readyState ≠ .closed)
    (hguard : ∀ d c, c ∈ (h.localMap d).rows → c.ws = conn.ws →
      d = conn.did ∧ c.deviceId = conn.deviceId)
    (hregs : SameRegs (h.register conn) h') : Linked (h'.helloDone conn.ws (some conn)) := by
  have hmem : ∀ did c, c ∈ ((h'.helloDone conn.ws (some conn)).localMap did).rows →
      (did = conn.did ∧ c = conn) ∨ (c ∈ (h.localMap did).rows ∧ c.ws ≠ conn.ws) := by
    intro did c hc
    have hlm : (h'.helloDone conn.ws (some conn)).localMap did = h'.localMap did := rfl
    rw [hlm, hregs.localMap did] at hc
    exact mem_register hguard hc
  have hsock : (h'.helloDone conn.ws (some conn)).socks conn.ws =
      { h'.socks conn.ws with conn := some conn, helloTimer := false } := setSock_same _ _ _
  have hother : ∀ ws, ws ≠ conn.ws →
      (h'.helloDone conn.ws (some conn)).socks ws = h'.socks ws := fun ws hw => setSock_ne _ _ hw
  have hconns := register_conns h conn
  rw [SameConns, ← hregs.socks] at hconns
  refine ⟨fun ws c hc => ?_, fun did c hc => ?_, fun did c hc => ?_, fun did c hc => ?_⟩
  · by_cases hw : ws = conn.ws
    · subst hw
      rw [hsock] at hc
      obtain rfl := Option.some.inj hc
      rfl
    · rw [hother ws hw, (hconns ws).1] at hc
      exact hl.own ws c hc
  · rcases hmem did c hc with ⟨rfl, rfl⟩ | ⟨hc, _⟩
    · rfl
    · exact hl.did did c hc
  · rcases hmem did c hc with ⟨_, rfl⟩ | ⟨hc, hne⟩
    · rw [hsock, Ne, (hconns c.ws).2]
      exact hlive
    · rw [hother c.ws hne, Ne, (hconns c.ws).2]
      exact hl.live did c hc
  · rcases hmem did c hc with ⟨_, rfl⟩ | ⟨hc, hne⟩
    · exact ⟨c, by rw [hsock], (LocalConn.same_iff c c).2 ⟨rfl, rfl⟩, rfl, rfl⟩
    · obtain ⟨p, hp, hrest⟩ := hl.points did c hc
      exact ⟨p, by rw [hother c.ws hne, (hconns c.ws).1]; exact hp, hrest⟩

/-! ### One event -/

theorem uncaught_local (o : Outcome P I) : SameLocal o.hub o.uncaught := by
  cases o with
  | ok h => exact .refl h
  | error h => exact ⟨fun _ => rfl, rfl, rfl, rfl⟩

theorem Linked.no_entry {h : Hub P I} (hl : Linked h) {ws : SockId}
    (hconn : (h.socks ws).conn = none) (did : Did) (c : LocalConn P)
    (hc : c ∈ (h.localMap did).rows) : c.ws ≠ ws := by
  intro hws
  obtain ⟨conn, hc', _⟩ := hl.owner hc hws
  rw [hconn] at hc'
  cases hc'

theorem Linked.message {h : Hub P I} (hl : Linked h) (ws : SockId) (msg : Frame P) :
    Linked (h.onMessage ws msg).hub := by
  unfold onMessage
  cases hconn : (h.socks ws).conn with
  | none =>
    cases msg with
    | hello device =>
      have hnone := hl.no_entry hconn
      simp only [Outcome.hub_ok, onHello]
      exact hl.setSock rfl (Or.inr hnone)
    | _ => exact hl
  | some conn =>
    cases msg with
    | state state =>
      have hs : Linked (h.store { conn with state := state }) := hl.store hconn rfl rfl rfl
      exact (handleState_regs h conn state).toLocal.linked hs
    | command target cmd =>
      exact (handleCommand_view h conn target cmd).toSameRegs.toLocal.linked hl
    | bye => exact hl.close ws 1000 "bye"
    | _ => exact hl

theorem Linked.terminateAll {h : Hub P I} (hl : Linked h) (conns : List (LocalConn P)) :
    Linked (h.terminateAll conns) := by
  induction conns generalizing h with
  | nil => exact hl
  | cons c conns ih => exact ih (hl.terminate c.ws)

theorem Linked.clearAlive {h : Hub P I} (hl : Linked h) : Linked h.clearAlive := by
  have hmem : ∀ did c, c ∈ (h.clearAlive.localMap did).rows →
      ∃ c0, c0 ∈ (h.localMap did).rows ∧ c = { c0 with alive := false } := by
    intro did c hc
    rw [clearAlive_localMap] at hc
    obtain ⟨c0, hc0, hcc⟩ := List.mem_map.1 hc
    exact ⟨c0, hc0, hcc.symm⟩
  refine ⟨hl.own, fun did c hc => ?_, fun did c hc => ?_, fun did c hc => ?_⟩
  · obtain ⟨c0, hc0, rfl⟩ := hmem did c hc
    exact hl.did did c0 hc0
  · obtain ⟨c0, hc0, rfl⟩ := hmem did c hc
    exact hl.live did c0 hc0
  · obtain ⟨c0, hc0, rfl⟩ := hmem did c hc
    exact hl.points did c0 hc0

theorem Linked.tick {h : Hub P I} (hl : Linked h) (now : ℕ) : Linked (h.onTick now).hub :=
  (heartbeat_local h.pingAll now).linked (hl.terminateAll _).clearAlive

theorem Linked.rejected {h : Hub P I} (hl : Linked h) (ws : SockId) (hello : ℕ) (message : String)
    (hguard : ((h.socks ws).verifying.lookup hello).isSome →
      ∀ d c, c ∈ (h.localMap d).rows → c.ws ≠ ws) : Linked (h.onRejected ws hello message) := by
  unfold onRejected
  cases hv : (h.socks ws).verifying.lookup hello with
  | none => exact hl
  | some device =>
    have hnone := hguard (by rw [hv]; rfl)
    have ha : Linked (h.awaited ws hello) := hl.setSock rfl (Or.inr hnone)
    have hr : Linked ((h.awaited ws hello).onHelloRejected ws message) :=
      ((send_view _ ws (.error "AuthFailed" message)).toSameRegs.toLocal.linked ha).close _ _ _
    refine hr.setConn (fun c hc => by cases hc) fun did c hc => ?_
    have hlm : ((h.awaited ws hello).onHelloRejected ws message).localMap did = h.localMap did := by
      rw [onHelloRejected, close_localMap, (send_view _ _ _).localMap]
      rfl
    rw [hlm] at hc
    exact hnone did c hc

theorem awaited_conns (h : Hub P I) (ws : SockId) (hello : ℕ) :
    SameConns h (h.awaited ws hello) := by
  intro ws'
  unfold awaited
  by_cases hw : ws' = ws
  · subst hw
    rw [setSock_same]
    exact ⟨rfl, Iff.rfl⟩
  · rw [setSock_ne h _ hw]
    exact ⟨rfl, Iff.rfl⟩

theorem Linked.conns {h h' : Hub P I} (hl : Linked h) (hc : SameConns h h')
    (hm : ∀ did, h'.localMap did = h.localMap did) : Linked h' := by
  refine ⟨fun ws c h' => hl.own ws c ((hc ws).1 ▸ h'), fun did c hmem => ?_,
    fun did c hmem => ?_, fun did c hmem => ?_⟩ <;> rw [hm did] at hmem
  · exact hl.did did c hmem
  · exact fun hcl => hl.live did c hmem ((hc c.ws).2.1 hcl)
  · obtain ⟨p, hp, hrest⟩ := hl.points did c hmem
    exact ⟨p, (hc c.ws).1.trans hp, hrest⟩

/-- What an admissible completion leaves, and what it leaves when it throws. -/
theorem Linked.verified {h : Hub P I} (hl : Linked h) (now : ℕ) (ws : SockId) (hello : ℕ)
    (did : Did)
    (hguard : ∀ device, (h.socks ws).verifying.lookup hello = some (some device) →
      (h.socks ws).readyState ≠ .closed ∧
        ∀ d c, c ∈ (h.localMap d).rows → c.ws = ws → d = did ∧ c.deviceId = device.id) :
    match h.onVerified now ws hello did with
    | .ok h' => Linked h'
    | .error h' => RegistryAgrees h' := by
  unfold onVerified
  have ha : Linked (h.awaited ws hello) := hl.conns (awaited_conns h ws hello) fun _ => rfl
  cases hv : (h.socks ws).verifying.lookup hello with
  | none => exact hl
  | some device =>
    cases device with
    | none => exact ha.agrees
    | some device =>
      have hlive := (hguard device hv).1
      have hown := (hguard device hv).2
      have hlive' : ((h.awaited ws hello).socks ws).readyState ≠ .closed :=
        fun hcl => hlive ((awaited_conns h ws hello ws).2.1 hcl)
      have hregs := onHelloVerified_regs (h.awaited ws hello) now ws hello did device
      dsimp only [Option.map_some]
      generalize hconn : helloConn now ws hello did device = conn at hregs ⊢
      have hcw : conn.ws = ws := by rw [← hconn]; rfl
      have hown' : ∀ d c, c ∈ ((h.awaited ws hello).localMap d).rows → c.ws = conn.ws →
          d = conn.did ∧ c.deviceId = conn.deviceId := by
        rw [hcw, ← hconn]
        exact hown
      subst hcw
      cases ho : (h.awaited conn.ws hello).onHelloVerified now conn.ws hello did (some device) with
      | ok h' =>
        rw [ho, Outcome.hub_ok] at hregs
        have hdone := ha.hello conn hlive' hown' hregs
        exact hdone
      | error h' =>
        rw [ho, Outcome.hub_error] at hregs
        exact hregs.toLocal.agrees (ha.register_agrees hlive' hown')

theorem Linked.timeout {h : Hub P I} (hl : Linked h) (ws : SockId) :
    Linked (h.onHelloTimeout ws) := by
  unfold onHelloTimeout
  split
  · have hs : Linked (h.setSock ws { h.socks ws with helloTimer := false }) := by
      refine hl.conns (fun ws' => ?_) fun _ => rfl
      by_cases hw : ws' = ws
      · subst hw
        rw [setSock_same]
        exact ⟨rfl, Iff.rfl⟩
      · rw [setSock_ne h _ hw]
        exact ⟨rfl, Iff.rfl⟩
    dsimp only
    split
    · exact hs.close ws 4008 "hello timeout"
    · exact hs
  · exact hl

theorem Linked.onClose {h : Hub P I} (hl : Linked h) (ws : SockId) : Linked (h.onClose ws).hub :=
  hl.closed ws (s := { h.socks ws with readyState := .closed, helloTimer := false }) rfl _ rfl

/-- The invariant of admissible runs: after an uncaught throw only the agreement is left. -/
def RegistryInv (h : Hub P I) : Prop := RegistryAgrees h ∧ (h.crashed = false → Linked h)

theorem Linked.inv {h : Hub P I} (hl : Linked h) : RegistryInv h := ⟨hl.agrees, fun _ => hl⟩

theorem Linked.uncaught {o : Outcome P I} (hl : Linked o.hub) : RegistryInv o.uncaught :=
  ((uncaught_local o).linked hl).inv

theorem registryInv_init (id : I) (redis : Bool) :
    RegistryInv ({ instanceId := id, redis := redis } : Hub P I) := by
  have hl : Linked ({ instanceId := id, redis := redis } : Hub P I) := by
    refine ⟨fun ws c hc => ?_, fun did c hc => ?_, fun did c hc => ?_, fun did c hc => ?_⟩ <;>
      cases hc
  exact hl.inv

theorem registryInv_handle [DecidableEq I] {h : Hub P I} (hl : Linked h) (i : Input P I)
    (hguard : RegistryGuard h i) : RegistryInv (handle h i) := by
  obtain ⟨now, event⟩ := i
  cases event with
  | frame ws msg =>
    simp only [handle]
    split
    · exact hl.inv
    · exact (hl.message ws msg).uncaught
  | verified ws hello did =>
    have hv := hl.verified now ws hello did hguard
    simp only [handle]
    cases ho : h.onVerified now ws hello did with
    | ok h' =>
      rw [ho] at hv
      exact hv.inv
    | error h' =>
      rw [ho] at hv
      exact ⟨(uncaught_local (.error h')).agrees hv, fun hc => by cases hc⟩
  | rejected ws hello message => exact (hl.rejected ws hello message hguard).inv
  | helloTimeout ws => exact (hl.timeout ws).inv
  | pong ws =>
    simp only [handle, onPong]
    split
    · exact hl.inv
    · exact (hl.markAlive _).inv
  | closing ws => exact (hl.terminate ws).inv
  | close ws =>
    simp only [handle]
    split
    · exact hl.inv
    · exact (hl.onClose ws).uncaught
  | tick => exact (hl.tick now).uncaught
  | relay msg => exact ((onRelay_local h now msg).linked hl).inv

theorem registryInv_step [DecidableEq I] (h : Hub P I) (i : Input P I) (hinv : RegistryInv h)
    (hguard : RegistryGuard h i) : RegistryInv (step h i) := by
  have hout : SameLocal h { h with out := [] } := ⟨fun _ => rfl, rfl, rfl, rfl⟩
  unfold step
  by_cases hcr : h.crashed = true
  · rw [if_pos hcr]
    exact ⟨hout.agrees hinv.1, fun hc => absurd hcr (by simpa using hc)⟩
  · rw [if_neg hcr]
    exact registryInv_handle (hout.linked (hinv.2 (by simpa using hcr))) i hguard

/-! ### A closed socket stays closed -/

def KeepsClosed (h h' : Hub P I) : Prop :=
  ∀ ws, (h.socks ws).readyState = .closed → (h'.socks ws).readyState = .closed

theorem KeepsClosed.trans {h h' h'' : Hub P I} (a : KeepsClosed h h') (b : KeepsClosed h' h'') :
    KeepsClosed h h'' := fun ws hc => b ws (a ws hc)

theorem SameLocal.keepsClosed {h h' : Hub P I} (a : SameLocal h h') : KeepsClosed h h' := by
  intro ws hc
  rw [a.socks]
  exact hc

theorem SameConns.keepsClosed {h h' : Hub P I} (a : SameConns h h') : KeepsClosed h h' :=
  fun ws hc => (a ws).2.2 hc

theorem setSock_keepsClosed (h : Hub P I) (ws : SockId) (s : Sock P)
    (hs : (h.socks ws).readyState = .closed → s.readyState = .closed) :
    KeepsClosed h (h.setSock ws s) := by
  intro ws' hc
  by_cases hw : ws' = ws
  · subst hw
    rw [setSock_same]
    exact hs hc
  · rw [setSock_ne h s hw]
    exact hc

theorem terminate_keepsClosed (h : Hub P I) (ws : SockId) : KeepsClosed h (h.terminate ws) := by
  unfold terminate
  split
  · rename_i hopen
    exact setSock_keepsClosed h ws _ fun hc => by rw [hopen] at hc; cases hc
  · exact fun _ hc => hc

theorem store_keepsClosed (h : Hub P I) (conn : LocalConn P) : KeepsClosed h (h.store conn) := by
  have h1 : KeepsClosed h (h.storeClosure conn) := by
    unfold storeClosure
    split
    · split
      · exact setSock_keepsClosed h _ _ id
      · exact fun _ hc => hc
    · exact fun _ hc => hc
  refine h1.trans ?_
  unfold store storeRegistry
  split
  · split <;> exact fun _ hc => hc
  · exact fun _ hc => hc

theorem markAlive_keepsClosed (h : Hub P I) (conn : LocalConn P) :
    KeepsClosed h (h.markAlive conn) := by
  unfold markAlive
  split
  · split <;> exact fun _ hc => hc
  · exact fun _ hc => hc

theorem removeConn_keepsClosed (h : Hub P I) (conn : LocalConn P) :
    KeepsClosed h (h.removeConn conn).hub := by
  unfold removeConn
  split
  · exact fun _ hc => hc
  · have hd : KeepsClosed h (h.deleteLocal conn.did conn.deviceId) := by
      intro ws hc
      rw [(deleteLocal_rest h _ _).1]
      exact hc
    dsimp only
    generalize h.deleteLocal conn.did conn.deviceId = h1 at hd ⊢
    exact hd.trans ((publish_view h1 _).toSameRegs.trans
      (broadcast_reconcile_regs _ conn.did)).toLocal.keepsClosed

theorem onVerified_keepsClosed (h : Hub P I) (now : ℕ) (ws : SockId) (hello : ℕ) (did : Did) :
    KeepsClosed h (h.onVerified now ws hello did).hub := by
  unfold onVerified
  split
  · exact fun _ hc => hc
  · rename_i device _
    have ha := (awaited_conns h ws hello).keepsClosed
    cases device with
    | none => exact ha
    | some device =>
      have hreg := (register_conns (h.awaited ws hello) (helloConn now ws hello did device)).keepsClosed
      have hregs := onHelloVerified_regs (h.awaited ws hello) now ws hello did device
      have hrest := hregs.toLocal.keepsClosed
      have hall := (ha.trans hreg).trans hrest
      cases ho : (h.awaited ws hello).onHelloVerified now ws hello did (some device) with
      | error h' =>
        rw [ho] at hall
        exact hall
      | ok h' =>
        rw [ho] at hall
        exact hall.trans (setSock_keepsClosed h' ws _ id)

theorem keepsClosed_handle [DecidableEq I] (h : Hub P I) (i : Input P I) :
    KeepsClosed h (handle h i) := by
  have huncaught : ∀ o : Outcome P I, KeepsClosed h o.hub → KeepsClosed h o.uncaught :=
    fun o ho => ho.trans (uncaught_local o).keepsClosed
  obtain ⟨now, event⟩ := i
  cases event with
  | frame ws msg =>
    simp only [handle]
    split
    · exact fun _ hc => hc
    · refine huncaught _ ?_
      unfold onMessage
      split
      · split
        · exact setSock_keepsClosed h ws _ id
        · exact fun _ hc => hc
      · rename_i conn _
        split
        · exact (store_keepsClosed h _).trans (handleState_regs h conn _).toLocal.keepsClosed
        · exact (handleCommand_view h conn _ _).toSameRegs.toLocal.keepsClosed
        · exact (close_conns h ws 1000 "bye").keepsClosed
        · exact fun _ hc => hc
  | verified ws hello did => exact huncaught _ (onVerified_keepsClosed h now ws hello did)
  | rejected ws hello message =>
    simp only [handle, onRejected]
    split
    · exact fun _ hc => hc
    · have ha := (awaited_conns h ws hello).keepsClosed
      have hs := (send_view (h.awaited ws hello) ws
        (.error "AuthFailed" message)).toSameRegs.toLocal.keepsClosed
      have hcl := (close_conns ((h.awaited ws hello).send ws (.error "AuthFailed" message))
        ws 4001 "auth failed").keepsClosed
      exact ((ha.trans hs).trans hcl).trans (setSock_keepsClosed _ ws _ id)
  | helloTimeout ws =>
    simp only [handle, onHelloTimeout]
    split
    · have hs := setSock_keepsClosed h ws { h.socks ws with helloTimer := false } id
      split
      · exact hs.trans (close_conns _ ws 4008 "hello timeout").keepsClosed
      · exact hs
    · exact fun _ hc => hc
  | pong ws =>
    simp only [handle, onPong]
    split
    · exact fun _ hc => hc
    · exact markAlive_keepsClosed h _
  | closing ws => exact terminate_keepsClosed h ws
  | close ws =>
    simp only [handle]
    split
    · exact fun _ hc => hc
    · refine huncaught _ ?_
      have hs := setSock_keepsClosed h ws
        { h.socks ws with readyState := .closed, helloTimer := false } fun _ => rfl
      unfold onClose
      dsimp only
      split
      · exact hs
      · exact hs.trans (removeConn_keepsClosed _ _)
  | tick =>
    have hterm : ∀ (l : List (LocalConn P)) (h : Hub P I), KeepsClosed h (h.terminateAll l) := by
      intro l
      induction l with
      | nil => exact fun _ _ hc => hc
      | cons c l ih => exact fun h => (terminate_keepsClosed h c.ws).trans (ih _)
    have hping : KeepsClosed h h.pingAll := hterm _ h
    exact huncaught _ (hping.trans (heartbeat_local h.pingAll now).keepsClosed)
  | relay msg => exact (onRelay_local h now msg).keepsClosed

/-! ### Runs -/

variable [DecidableEq I]

theorem keepsClosed_run (h : Hub P I) (es : List (Input P I)) : KeepsClosed h (run step h es) := by
  refine run_kept (I := KeepsClosed h) (fun h' i hkeeps => hkeeps.trans ?_) (fun _ hc => hc) es
  unfold step
  split
  · exact fun _ hc => hc
  · exact keepsClosed_handle { h' with out := [] } i

/-- In a run whose verifications complete as `RegistryGuard` says, the registry agrees with
the sockets, and after a socket has closed no entry of it exists then or later. -/
theorem registry_agrees (id : I) (redis : Bool) (es fs : List (Input P I))
    (hguard : AllSteps step RegistryGuard (init id redis) (es ++ fs)) :
    RegistryAgrees (run step (init id redis) (es ++ fs)) ∧
      ∀ ws, ((run step (init (P := P) id redis) es).socks ws).readyState = .closed →
        ∀ did c, c ∈ ((run step (init (P := P) id redis) (es ++ fs)).localMap did).rows →
          c.ws ≠ ws := by
  have hinv := run_invariant registryInv_step (registryInv_init (P := P) id redis) hguard
  refine ⟨hinv.1, fun ws hc did c hmem hws => ?_⟩
  have hclosed := keepsClosed_run (run step (init (P := P) id redis) es) fs ws hc
  rw [← run_append] at hclosed
  exact hinv.1.live did c hmem (hws ▸ hclosed)

/-! ### A device that outlives its socket -/

/-- A hello whose verification is still awaited when the socket closes. -/
def closeBeforeVerified : List (Input protocol Unit) :=
  [⟨0, .frame 0 (.hello (some (sampleDevice "A" true)))⟩, ⟨1, .close 0⟩, ⟨2, .verified 0 0 "did:a"⟩]

/-- The device is registered after the close, and nothing will remove it. -/
theorem registry_disagrees :
    ¬ ∀ es : List (Input protocol Unit), RegistryAgrees (run step (init () false) es) := by
  intro h
  have hghost : (run step (init () false) closeBeforeVerified).ghosts "did:a" = [0] := by decide
  rw [(h closeBeforeVerified).no_ghosts] at hghost
  cases hghost

def helloVerified : List (Input protocol Unit) :=
  [⟨0, .frame 0 (.hello (some (sampleDevice "A" true)))⟩, ⟨1, .verified 0 0 "did:a"⟩]

/-- The same events in the order the handler expects. -/
theorem registry_agrees_in_order :
    RegistryAgrees (run step (init () false) (helloVerified ++ [⟨2, .close 0⟩])) := by
  have hguard : AllSteps step RegistryGuard (init () false) (helloVerified ++ [⟨2, .close 0⟩]) := by
    simp only [helloVerified, List.cons_append, List.nil_append, AllSteps]
    refine ⟨trivial, fun device _ => ⟨by decide, fun d c hc => ?_⟩, trivial, trivial⟩
    cases hc
  exact (registry_agrees () false helloVerified [⟨2, .close 0⟩] hguard).1

end Atradio.Connect.Hub
