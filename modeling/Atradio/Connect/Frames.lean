import Atradio.Connect.Total

/-! # Text frames of any JSON payload

The message handler casts what `JSON.parse` returned to `ClientMsg` without looking at
it. Here the payload members are arbitrary JavaScript values, and reading a member of
null or undefined throws. The `<` of values that are not both strings converts them
first and may throw; what it answers is left open, as the parameter `coerced`. -/

namespace Atradio.Connect
open Atradio.Lib

/-- The values `JSON.parse` makes, and the undefined of a missing member. Objects and
arrays carry the identity they were allocated with, so that equality of values is the
equality of `Map` keys. -/
inductive JsVal where
  | undefined
  | null
  | bool (b : Bool)
  | num (q : ℚ)
  | infinity (negative : Bool)
  | str (s : String)
  | arr (ref : ℕ) (xs : List JsVal)
  | obj (ref : ℕ) (members : List (String × JsVal))

namespace JsVal

mutual

def decEq : (a b : JsVal) → Decidable (a = b)
  | undefined, b => by cases b <;> first | exact isTrue rfl | exact isFalse (by simp)
  | null, b => by cases b <;> first | exact isTrue rfl | exact isFalse (by simp)
  | bool x, b => by
    cases b with
    | bool y => exact decidable_of_iff (x = y) (by simp)
    | _ => exact isFalse (by simp)
  | num x, b => by
    cases b with
    | num y => exact decidable_of_iff (x = y) (by simp)
    | _ => exact isFalse (by simp)
  | infinity x, b => by
    cases b with
    | infinity y => exact decidable_of_iff (x = y) (by simp)
    | _ => exact isFalse (by simp)
  | str x, b => by
    cases b with
    | str y => exact decidable_of_iff (x = y) (by simp)
    | _ => exact isFalse (by simp)
  | arr r xs, b => by
    cases b with
    | arr r' ys =>
      have := decEqList xs ys
      exact decidable_of_iff (r = r' ∧ xs = ys) (by simp)
    | _ => exact isFalse (by simp)
  | obj r ms, b => by
    cases b with
    | obj r' ns =>
      have := decEqMembers ms ns
      exact decidable_of_iff (r = r' ∧ ms = ns) (by simp)
    | _ => exact isFalse (by simp)

def decEqList : (xs ys : List JsVal) → Decidable (xs = ys)
  | [], [] => isTrue rfl
  | [], _ :: _ => isFalse (by simp)
  | _ :: _, [] => isFalse (by simp)
  | x :: xs, y :: ys =>
    have := decEq x y
    have := decEqList xs ys
    decidable_of_iff (x = y ∧ xs = ys) (by simp)

def decEqMembers : (ms ns : List (String × JsVal)) → Decidable (ms = ns)
  | [], [] => isTrue rfl
  | [], _ :: _ => isFalse (by simp)
  | _ :: _, [] => isFalse (by simp)
  | (k, x) :: ms, (l, y) :: ns =>
    have := decEq x y
    have := decEqMembers ms ns
    decidable_of_iff ((k = l ∧ x = y) ∧ ms = ns) (by simp)

end

instance : DecidableEq JsVal := decEq

/-- Reading a member of null or undefined throws. -/
def nullish : JsVal → Bool
  | undefined | null => true
  | _ => false

/-- `v.key`, for names that are not members of a prototype. -/
def member (v : JsVal) (key : String) : Option JsVal :=
  match v with
  | undefined | null => none
  | obj _ members => some ((members.lookup key).getD undefined)
  | _ => some undefined

def truthy : JsVal → Bool
  | undefined | null => false
  | bool b => b
  | num q => q ≠ 0
  | str s => s ≠ ""
  | infinity _ | arr .. | obj .. => true

def less (coerced : JsVal → JsVal → Option Bool) : JsVal → JsVal → Option Bool
  | str a, str b => some (stringLess a b)
  | a, b => coerced a b

theorem member_isSome (v : JsVal) (key : String) : (v.member key).isSome ↔ v.nullish = false := by
  cases v <;> simp [member, nullish]

end JsVal

/-- Frames whose members are whatever the client sent. -/
@[reducible] def json (coerced : JsVal → JsVal → Option Bool) : Payload where
  Id := JsVal
  Name := JsVal
  Platform := JsVal
  State := JsVal
  Cmd := JsVal
  less := JsVal.less coerced
  orUnknown name := if name.truthy then name else .str "Unknown device"
  playing state := (state.member "playing").map JsVal.truthy

variable {coerced : JsVal → JsVal → Option Bool}

def helloDevice (v : JsVal) : Option (HelloDevice (json coerced)) := do
  return { id := ← v.member "id", name := ← v.member "name",
           platform := ← v.member "platform", state := ← v.member "state" }

/-- What the handlers find in a parsed frame. `none` is the TypeError of `msg.t`. -/
def frameOf (v : JsVal) : Option (Frame (json coerced)) := do
  let t ← v.member "t"
  if t = .str "hello" then return .hello (helloDevice (← v.member "device"))
  if t = .str "state" then return .state (← v.member "state")
  if t = .str "command" then return .command (← v.member "target") (← v.member "cmd")
  return if t = .str "bye" then .bye else .other

theorem frameOf_isSome {v : JsVal} (hv : v.nullish = false) :
    ∃ msg, @frameOf coerced v = some msg := by
  have hm : ∀ key, ∃ m, v.member key = some m := fun key =>
    Option.isSome_iff_exists.1 ((v.member_isSome key).2 hv)
  obtain ⟨t, ht⟩ := hm "t"
  obtain ⟨device, hdevice⟩ := hm "device"
  obtain ⟨state, hstate⟩ := hm "state"
  obtain ⟨target, htarget⟩ := hm "target"
  obtain ⟨cmd, hcmd⟩ := hm "cmd"
  simp only [frameOf, ht, hdevice, hstate, htarget, hcmd, Option.bind_eq_bind, Option.bind_some]
  split
  · exact ⟨_, rfl⟩
  · split
    · exact ⟨_, rfl⟩
    · split <;> exact ⟨_, rfl⟩

theorem state_of_frameOf {v state : JsVal}
    (h : @frameOf coerced v = some (.state state)) :
    v.member "t" = some (.str "state") ∧ v.member "state" = some state := by
  simp only [frameOf, Option.bind_eq_bind, Option.bind_eq_some_iff] at h
  obtain ⟨t, ht, h⟩ := h
  split at h
  · simp only [Option.bind_eq_some_iff] at h
    obtain ⟨_, _, h⟩ := h
    cases h
  · split at h
    · rename_i hstate
      simp only [Option.bind_eq_some_iff] at h
      obtain ⟨s, hs, h⟩ := h
      cases h
      exact ⟨hstate ▸ ht, hs⟩
    · split at h
      · simp only [Option.bind_eq_some_iff] at h
        obtain ⟨_, _, _, _, h⟩ := h
        cases h
      · split at h <;> cases h

namespace Hub

variable {I : Type}

/-- Either a text frame, still as parsed, or one of the other events of the hub. -/
inductive TextEvent (coerced : JsVal → JsVal → Option Bool) (I : Type) where
  | text (ws : SockId) (v : JsVal)
  | event (event : Event (json coerced) I)

structure TextInput (coerced : JsVal → JsVal → Option Bool) (I : Type) where
  now : ℕ
  event : TextEvent coerced I

variable [DecidableEq I]

/-- A text frame goes through `msg.t`, whose TypeError nothing catches. -/
def textStep (h : Hub (json coerced) I) (i : TextInput coerced I) : Hub (json coerced) I :=
  match i.event with
  | .event event => h.step ⟨i.now, event⟩
  | .text ws v =>
    match frameOf v with
    | some msg => h.step ⟨i.now, .frame ws msg⟩
    | none =>
      if (h.socks ws).readyState = .closed then { h with out := [] }
      else { h with out := [], crashed := true }

/-- A registered device that every later broadcast can read. -/
def Readable (d : WireDevice (json coerced)) : Prop :=
  (∃ s, d.deviceId = .str s) ∧ d.state.nullish = false

/-- The process runs, ids are strings, and the functions that read the devices of an
account are defined on them (`roster` and `toDeviceInfo` read no member of a state). -/
structure Robust (h : Hub (json coerced) I) : Prop where
  running : h.crashed = false
  ids : ∀ did c, c ∈ (h.localMap did).rows → ∃ s, c.deviceId = .str s
  states : ∀ did c, c ∈ (h.localMap did).rows → (c.state.member "playing").isSome
  anyPlaying : ∀ did, (h.anyPlaying did).isSome
  cleanupOwner : ∀ did, (h.cleanupOwner did).isSome

/-- Frames are not null. What gets stored has a string id and a state that is neither null
nor missing: the state of a state frame on an authenticated socket, the device of a hello
whose token verifies, the devices other instances announce. -/
def TextGuard (h : Hub (json coerced) I) (i : TextInput coerced I) : Prop :=
  match i.event with
  | .text ws v =>
    v.nullish = false ∧ ∀ conn state, (h.socks ws).conn = some conn →
      v.member "t" = some (.str "state") → v.member "state" = some state → state.nullish = false
  | .event (.frame _ (.state state)) => state.nullish = false
  | .event (.verified ws hello _) =>
    ∀ device, (h.socks ws).verifying.lookup hello = some device →
      ∃ d, device = some d ∧ (∃ s, d.id = .str s) ∧ d.state.nullish = false
  | .event (.relay (.join _ d)) | .event (.relay (.update _ d)) => Readable d
  | _ => True

omit [DecidableEq I] in
theorem readable_total : Total (@Readable coerced) := by
  refine ⟨fun d hd => ?_, fun a b ha hb => ?_⟩
  · have hm := (d.state.member_isSome "playing").2 hd.2
    show ((d.state.member "playing").map JsVal.truthy).isSome
    rw [Option.isSome_map]
    exact hm
  · obtain ⟨s, hs⟩ := ha.1
    obtain ⟨t, ht⟩ := hb.1
    show (JsVal.less coerced a.deviceId b.deviceId).isSome
    rw [hs, ht]
    rfl

omit [DecidableEq I] in
theorem textGuard_sound {h : Hub (json coerced) I} (hs : Sound Readable h) (now : ℕ)
    (event : Event (json coerced) I) (hg : TextGuard h ⟨now, .event event⟩) :
    SoundInput Readable h ⟨now, event⟩ := by
  cases event with
  | frame ws msg =>
    cases msg with
    | state state => exact fun conn hconn => ⟨(hs.conns ws conn hconn).1, hg⟩
    | _ => trivial
  | verified ws hello did =>
    intro device hlookup
    obtain ⟨d, hd, hid, hstate⟩ := hg device hlookup
    exact ⟨d, hd, hid, hstate⟩
  | relay msg => cases msg <;> exact hg
  | _ => trivial

theorem text_step {h : Hub (json coerced) I} (hs : Sound Readable h ∧ h.crashed = false)
    (i : TextInput coerced I) (hg : TextGuard h i) :
    Sound Readable (textStep h i) ∧ (textStep h i).crashed = false := by
  obtain ⟨now, event⟩ := i
  cases event with
  | event event =>
    exact Sound.step hs readable_total ⟨now, event⟩ (textGuard_sound hs.1 now event hg)
  | text ws v =>
    obtain ⟨hv, hstate⟩ := hg
    obtain ⟨msg, hmsg⟩ := @frameOf_isSome coerced v hv
    unfold textStep
    simp only [hmsg]
    refine Sound.step hs readable_total ⟨now, .frame ws msg⟩ ?_
    cases msg with
    | state state =>
      obtain ⟨ht, hst⟩ := state_of_frameOf hmsg
      exact fun conn hconn => ⟨(hs.1.conns ws conn hconn).1, hstate conn state hconn ht hst⟩
    | _ => trivial

omit [DecidableEq I] in
theorem Sound.robust {h : Hub (json coerced) I} (hs : Sound Readable h)
    (hc : h.crashed = false) : Robust h := by
  refine ⟨hc, fun did c hmem => (hs.locals did c hmem).1, fun did c hmem => ?_, fun did => ?_,
    fun did => ?_⟩
  · exact (c.state.member_isSome "playing").2 (hs.locals did c hmem).2
  · exact Option.isSome_iff_exists.2 (hs.anyPlaying readable_total did)
  · exact Option.isSome_iff_exists.2 (hs.cleanupOwner readable_total did)

/-- As long as frames, stored states and announced devices are as `TextGuard` says, no
handler throws and every registered device stays readable. -/
theorem frames_handled (id : I) (redis : Bool) (es : List (TextInput coerced I))
    (hguard : AllSteps textStep TextGuard (init id redis) es) :
    Robust (run textStep (init id redis) es) := by
  have hinv := run_invariant (I := fun h => Sound Readable h ∧ h.crashed = false)
    (fun h i hs hg => text_step hs i hg) ⟨sound_init id redis, rfl⟩ hguard
  exact hinv.1.robust hinv.2

/-- `JSON.parse("null")` on a socket that has not even said hello. -/
theorem null_frame_crashes :
    ¬ ∀ es : List (TextInput (fun _ _ => none) Unit), Robust (run textStep (init () false) es) := by
  intro h
  have hcrashed : (run textStep (init () false)
      [(⟨0, .text 0 .null⟩ : TextInput (fun _ _ => none) Unit)]).crashed = true := rfl
  rw [(h [⟨0, .text 0 .null⟩]).running] at hcrashed
  cases hcrashed

/-- A hello with a device of id "A" whose state is `{}`, and a state frame with state `5`. -/
def untypedFrames : List (TextInput (fun _ _ => none) Unit) :=
  [⟨0, .text 0 (.obj 0 [("t", .str "hello"),
      ("device", .obj 1 [("id", .str "A"), ("state", .obj 2 [])])])⟩,
   ⟨1, .event (.verified 0 0 "did:a")⟩,
   ⟨2, .text 0 (.obj 3 [("t", .str "state"), ("state", .num 5)])⟩]

theorem untyped_frames_handled : Robust (run textStep (init () false) untypedFrames) := by
  refine frames_handled () false untypedFrames ⟨⟨rfl, fun conn state hconn => ?_⟩, ?_, ?_, trivial⟩
  · cases hconn
  · intro device hdevice
    cases hdevice
    exact ⟨_, rfl, ⟨"A", rfl⟩, rfl⟩
  · refine ⟨rfl, fun conn state _ _ hstate => ?_⟩
    cases hstate
    rfl

end Hub

end Atradio.Connect
