import Atradio.Connect.Superseded

/-! # The close of a replaced connection -/

namespace Atradio.Connect.Hub
open Atradio.Lib

variable {I : Type} {h : Hub protocol I}

theorem removeConn_unregistered {conn : LocalConn protocol} (hr : h.registered conn = false) :
    h.removeConn conn = .ok h := by
  unfold removeConn
  rw [hr]
  rfl

/-- The registries, what is remembered of presence and the outside are left as they were. -/
structure Unmoved (h h' : Hub protocol I) : Prop where
  localReg : h'.localReg = h.localReg
  remoteReg : h'.remoteReg = h.remoteReg
  lastAnyPlaying : h'.lastAnyPlaying = h.lastAnyPlaying
  out : h'.out = []

variable [DecidableEq I]

theorem close_unmoved {ws : SockId}
    (hconn : ∀ conn, (h.socks ws).conn = some conn → h.registered conn = false) (now : ℕ) :
    Unmoved h (h.step ⟨now, .close ws⟩) := by
  unfold step
  split
  · exact ⟨rfl, rfl, rfl, rfl⟩
  · simp only [handle]
    split
    · exact ⟨rfl, rfl, rfl, rfl⟩
    · unfold onClose
      dsimp only
      cases hc : (h.socks ws).conn with
      | none => exact ⟨rfl, rfl, rfl, rfl⟩
      | some conn =>
        dsimp only
        rw [removeConn_unregistered (h := Hub.setSock { h with out := [] } ws _) (hconn conn hc)]
        exact ⟨rfl, rfl, rfl, rfl⟩

theorem gone_of_split (id : I) (redis : Bool) {es : List (Input protocol I)}
    {i : Input protocol I} {c : LocalConn protocol}
    (hr : Displaces (run step (init id redis) es) i c) (fs : List (Input protocol I)) :
    Gone (run step (init id redis) (es ++ i :: fs)) c := by
  rw [run_append, run_cons]
  exact gone_run (gone_of_displaces (numbered_run id redis es) hr) fs

/-- A connection that a newer one has displaced closes without a trace, and presence is up to date
after every event. -/
theorem replaced_close (id : I) (redis : Bool) (es : List (Input protocol I)) :
    let h := run step (init id redis) es
    (∀ did, h.anyPlaying did = some (h.lastPlaying did)) ∧
      ∀ es₁ i es₂ c, es = es₁ ++ i :: es₂ → Displaces (run step (init id redis) es₁) i c →
        ∀ ws conn, (h.socks ws).conn = some conn → conn.same c = true →
          ∀ now, Unmoved h (h.step ⟨now, .close ws⟩) := by
  intro h
  refine ⟨fun did => ?_, fun es₁ i es₂ c hsplit hr ws conn hconn hsame now => ?_⟩
  · rw [anyPlaying_sees, follows_run id redis es did]
  · have hgone : Gone h c := by
      have hlater := gone_of_split id redis hr es₂
      rw [← hsplit] at hlater
      exact hlater
    refine close_unmoved (fun conn' hconn' => ?_) now
    obtain rfl : conn = conn' := Option.some.inj (hconn.symm.trans hconn')
    exact unregistered_of_gone hgone hsame

/-- Device "A" reconnects, and the first socket closes. -/
theorem reconnected_close :
    let h := run step (init () true : Hub protocol Unit) (reconnects ++ [replacing])
    Unmoved h (h.step ⟨4, .close 0⟩) := by
  obtain ⟨-, hclose⟩ := replaced_close () true (reconnects ++ [replacing])
  have hr : Displaces (run step (init () true) reconnects) replacing replaced :=
    ⟨rfl, 1, 0, "did:a", sampleDevice "A" false, rfl, rfl, rfl⟩
  exact hclose reconnects replacing [] replaced rfl hr 0 replaced rfl (same_refl _) 4

end Atradio.Connect.Hub
