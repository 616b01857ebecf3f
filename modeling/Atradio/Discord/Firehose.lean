import Atradio.Lib.Table

/-! # Redundant deliveries in the Discord mirror (`discord/firehose.ts`) -/

namespace Atradio.Discord
open Atradio.Lib

def DEDUP_TTL_MS : ℕ := 5 * 60 * 1000

def DEDUP_MAX : ℕ := 20000

/-- key → expiry -/
abbrev Seen := JsMap String ℕ

/-- Over budget, the expired keys go, and then the oldest insertions. -/
def evict (now : ℕ) (seen : Seen) : Seen :=
  if seen.size > DEDUP_MAX then
    let live := seen.filter fun e => now < e.2
    live.drop (live.size - DEDUP_MAX)
  else seen

/-- True the first time a key is seen, false for redundant deliveries within the window. -/
def claimFirstDelivery (now : ℕ) (key : String) (seen : Seen) : Bool × Seen :=
  if ((JsMap.find seen key).any fun exp => now < exp) then (false, seen)
  else (true, evict now (JsMap.set seen key (now + DEDUP_TTL_MS)))

end Atradio.Discord
