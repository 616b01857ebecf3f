import Atradio.Audio.Settings

/-! # The rows of the equalizer panel (`tui/dsp_rows.rs`)

Half steps and whole steps of `f32` are exact here. -/

namespace Atradio.Cli
open Atradio.Audio

def CROSSFEED_MODES : List CrossfeedMode := [.off, .meier, .custom]

def CHANNEL_MODES : List ChannelMode :=
  [.stereo, .mono, .custom, .monoLeft, .monoRight, .karaoke, .swap]

/-- The mode `dir` further on in the cycle; an unknown one counts as the first. -/
def cycle {α : Type} (modes : List α) (is : α → Bool) (mode : α) (dir : ℤ) : α :=
  let cur := (modes.findIdx? is).getD 0
  modes.getD (((cur : ℤ) + dir) % (modes.length : ℤ)).toNat mode

def cycleCrossfeed (s : AudioSettings) (dir : ℤ) : AudioSettings :=
  { s with
    crossfeedMode := cycle CROSSFEED_MODES
      (fun m => crossfeedToStr m = crossfeedToStr s.crossfeedMode) s.crossfeedMode dir }

def cycleChannel (s : AudioSettings) (dir : ℤ) : AudioSettings :=
  { s with
    channelMode := cycle CHANNEL_MODES
      (fun m => channelToStr m = channelToStr s.channelMode) s.channelMode dir }

def clamp (lo hi n : ℤ) : ℤ := max lo (min hi n)

/-- `row_count()`, one more than there are rows. -/
def rowCount : ℕ := 14 + 10

/-- The rows behind the bands; none where nothing changes. -/
def adjustTail (s : AudioSettings) (idx : ℕ) (dir : ℤ) : Option AudioSettings :=
  match idx with
  | 0 => some { s with bass := clamp (-24) 24 (s.bass + dir) }
  | 1 => some { s with treble := clamp (-24) 24 (s.treble + dir) }
  | 2 => some (cycleCrossfeed s dir)
  | 3 => some { s with crossfeedDirect := max (-6) (min 0 (s.crossfeedDirect + dir / 2)) }
  | 4 => some { s with pbe := clamp 0 100 (s.pbe + dir * 5) }
  | 5 => some { s with pbePrecut := clamp 0 24 (s.pbePrecut + dir) }
  | 6 => some { s with surroundDelay := clamp 0 30 (s.surroundDelay + dir) }
  | 7 => some { s with surroundBalance := clamp 0 100 (s.surroundBalance + dir * 5) }
  | 8 => some { s with compThreshold := clamp (-30) 0 (s.compThreshold + dir) }
  | 9 => some { s with compRatio := clamp 2 10 (s.compRatio + dir) }
  | 10 => some (cycleChannel s dir)
  | 11 => some { s with stereoWidth := clamp 0 200 (s.stereoWidth + dir * 5) }
  | _ => none

/-- `adjust(s, row, dir)`: the changed settings, none where it returns false. -/
def adjust (s : AudioSettings) (row : ℕ) (dir : ℤ) : Option AudioSettings :=
  if row = 0 then some { s with eqEnabled := !s.eqEnabled }
  else if row < 1 + 10 then
    some { s with
      eqGains := fun band =>
        if band.val = row - 1 then max (-24) (min 24 (s.eqGains band + dir)) else s.eqGains band }
  else adjustTail s (row - (1 + 10)) dir

theorem adjustTail_isSome (s : AudioSettings) (dir : ℤ) :
    ∀ idx, (adjustTail s idx dir).isSome = decide (idx < 12)
  | 0 | 1 | 2 | 3 | 4 | 5 | 6 | 7 | 8 | 9 | 10 | 11 => rfl
  | n + 12 => (decide_eq_false (by omega)).symm

theorem adjust_isSome (s : AudioSettings) (row : ℕ) (dir : ℤ) :
    (adjust s row dir).isSome = decide (row < 23) := by
  unfold adjust
  split
  · rename_i hrow
    subst hrow
    rfl
  · split
    · rename_i hrow
      exact (decide_eq_true (by omega)).symm
    · rename_i hrow
      rw [adjustTail_isSome]
      exact decide_eq_decide.2 (by omega)

end Atradio.Cli
