import Atradio.App.AudioRest
import Atradio.Web.AudioSync

/-! # Audio settings and their record

Both apps compare the settings with what the last write answered has left in the record. While a
write is on its way that comparison says nothing about the record to come. -/

namespace Atradio.Audio
open Atradio.Lib

variable {σ κ δ : Type} [DecidableEq κ]

/-- In every run where an effect returns at once only for settings that the writes on their way
leave in the record, the settings are in the record whenever the run comes to rest: on the web with
writes that take effect in the order they were issued, on the phone with no slider held. -/
theorem settles_of_guarded (key : σ → κ) (fromRepo : δ → σ → σ) (default : κ) :
    (∀ (local' : κ) (record : Option κ) (es : List (Web.AudioSync.Event κ)),
      AllSteps Web.AudioSync.step (Web.AudioSync.Guarded default)
        (.init default local' record) es →
      (run Web.AudioSync.step (.init default local' record) es).Quiescent →
      (run Web.AudioSync.step (.init default local' record) es).record.getD default =
        (run Web.AudioSync.step (.init default local' record) es).settings) ∧
    (∀ (s : App.AudioSync.State σ κ δ) (did : String) (n : App.AudioSync.Snapshot σ δ)
      (r : App.AudioSync.Held σ) (es : List (App.AudioSync.Event σ δ)),
      s.Restored did n r → s.upcoming key default did = key r.value →
      AllSteps (App.AudioSync.Local.step key fromRepo)
        (App.AudioSync.Local.Guarded key default did) ⟨s, false⟩ es →
      (run (App.AudioSync.Local.step key fromRepo) ⟨s, false⟩ es).Quiescent →
      (run (App.AudioSync.Local.step key fromRepo) ⟨s, false⟩ es).state.settings.map
          (fun r => key r.value) =
        some (((run (App.AudioSync.Local.step key fromRepo) ⟨s, false⟩ es).state.records
          did).getD default)) := by
  refine ⟨?_, ?_⟩
  · intro local' record es hg hq
    exact Web.AudioSync.agrees_of_guarded default local' record es hg hq
  · intro s did n r es hs hrecord hg hq
    exact App.AudioSync.agrees_of_guarded fromRepo hs hrecord hg hq

/-- A phone that has restored the record 5. -/
def restoredPhone : App.AudioSync.State ℕ ℕ ℕ :=
  run (App.AudioSync.step id fun data _ => data)
    (.init ⟨some "did:plc:a", true⟩ fun _ => some 5)
    [.loaded 1, .render, .effects, .fetched ⟨some "did:plc:a", true⟩ (some (some 5)) false, .render,
      .effects]

/-- A first change on the web, and a slider on the phone. -/
theorem settles_changed :
    let web := run Web.AudioSync.step (.init 0 0 none) [.change 3, .fire, .land 0, .answered 0]
    let phone := run (App.AudioSync.Local.step id fun data _ => data) ⟨restoredPhone, false⟩
      [.drag 6, .render, .effects, .drag 7, .complete, .render, .effects, .fire, .saved 0 true,
        .retryFire, .render, .effects]
    web.record.getD 0 = web.settings ∧
      phone.state.settings.map (fun r => id r.value) =
        some ((phone.state.records "did:plc:a").getD 0) := by
  refine ⟨?_, ?_⟩
  · exact (settles_of_guarded id (fun data _ => data) 0).1 0 none _ (by decide)
      (by decide)
  · refine (settles_of_guarded id (fun data _ => data) 0).2 restoredPhone "did:plc:a" _ ⟨2, 5⟩ _
      ⟨rfl, rfl, rfl, rfl, rfl, ⟨_, rfl, Or.inr ?_⟩, ?_, ?_, ?_, rfl, rfl, rfl⟩ rfl ?_
      ⟨rfl, rfl, rfl, rfl, ?_⟩
    · decide
    · decide
    · decide
    · decide
    · decide
    · decide

/-- The settings go back to the old ones while the new ones are being written. -/
theorem old_settings_lost :
    (let web := run Web.AudioSync.step (.init 0 0 (some 5))
      [.change 6, .fire, .change 5, .land 0, .answered 0]
    web.Quiescent ∧ web.settings = 5 ∧ web.record = some 6) ∧
    let phone := run (App.AudioSync.Local.step id fun data _ => data) ⟨restoredPhone, false⟩
      [.edit 6, .render, .effects, .fire, .edit 5, .render, .effects, .saved 0 true]
    phone.Quiescent ∧ phone.state.settings.map App.AudioSync.Held.value = some 5 ∧
      phone.state.records "did:plc:a" = some 6 := by
  refine ⟨⟨by decide, rfl, rfl⟩, ⟨rfl, rfl, rfl, rfl, ?_⟩, rfl, rfl⟩
  decide

end Atradio.Audio
