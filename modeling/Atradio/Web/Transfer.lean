import Mathlib.Data.Set.Subsingleton
import Atradio.Lib.Run
import Atradio.Web.Player

/-! # Transfer of the playback between the devices of an account

The pages of one account that are online, each a player with a roster of all of them. A command is
delivered to the device it names; the hub hands none to its own sender. -/

namespace Atradio.Web
open Atradio.Connect Atradio.Lexicons Atradio.Lib

structure Account where
  ids : List String
  name : String → String
  player : String → Player

inductive DeviceAction where
  | selectDevice (deviceId : Option String)
  | playStation (station : Station)

def Player.perform (p : Player) : DeviceAction → Player × Option (String × Command)
  | .selectDevice deviceId => p.selectDevice deviceId
  | .playStation station => p.playStation station

namespace Account

/-- The devices as the hub tells them to `self`. -/
def roster (a : Account) (self : String) : List (DeviceInfo protocol) :=
  a.ids.map fun id => ⟨id, a.name id, .web, id = self, (a.player id).buildPlaybackState⟩

def refresh (a : Account) : Account :=
  { a with player := fun id => { a.player id with devices := a.roster id } }

def set (a : Account) (id : String) (p : Player) : Account :=
  { a with player := Function.update a.player id p }

def deliver (a : Account) (sender : String) : Option (String × Command) → Account
  | none => a
  | some (target, cmd) =>
    if target = sender ∨ target ∉ a.ids then a
    else a.set target ((a.player target).applyCommand cmd)

/-- An action on one of the devices, once the rosters are fresh; what it sends is applied. -/
def step (a : Account) (e : String × DeviceAction) : Account :=
  if e.1 ∈ a.ids then
    let done := (a.refresh.player e.1).perform e.2
    (a.refresh.set e.1 done.1).deliver e.1 done.2
  else a

def Plays (a : Account) (id : String) : Prop :=
  id ∈ a.ids ∧ (a.player id).buildPlaybackState.playing = true

def OnePlayer (a : Account) : Prop := {id | a.Plays id}.Subsingleton

/-- No device plays but these. -/
def Alone (a : Account) (ids : List String) : Prop := ∀ id ∈ a.ids, a.Plays id → id ∈ ids

/-- There is something to pull back from the device that was controlled. -/
def Loaded (a : Account) (prev : Option String) : Prop :=
  ∃ id ∈ a.ids, some id = prev ∧ (a.player id).currentStation.isSome

/-- No device plays but the one that `self` has play: the one it controls, or itself. -/
def Free (a : Account) (self : String) : Option String → Prop
  | none => a.Alone [self]
  | some target => target ≠ self → target ∈ a.ids → a.Alone [target]

/-- No device plays but the one that is to play, and the one that is to stop for it. -/
def Undivided (a : Account) (e : String × DeviceAction) : Prop :=
  let target := (a.player e.1).remoteTargetId
  e.1 ∈ a.ids → match e.2 with
    | .selectDevice deviceId =>
      chosen deviceId = none → a.Loaded target → a.Alone (e.1 :: (chosen target).toList)
    | .playStation _ => a.Free e.1 (chosen target)

instance (a : Account) (id : String) : Decidable (a.Plays id) :=
  inferInstanceAs (Decidable (_ ∧ _))

instance (a : Account) (ids : List String) : Decidable (a.Alone ids) :=
  inferInstanceAs (Decidable (∀ id ∈ a.ids, a.Plays id → id ∈ ids))

instance (a : Account) (prev : Option String) : Decidable (a.Loaded prev) :=
  inferInstanceAs (Decidable (∃ id ∈ a.ids, some id = prev ∧ (a.player id).currentStation.isSome))

instance (a : Account) (self : String) : (target : Option String) → Decidable (a.Free self target)
  | none => inferInstanceAs (Decidable (a.Alone [self]))
  | some target => inferInstanceAs (Decidable (target ≠ self → target ∈ a.ids → _))

instance (a : Account) : (e : String × DeviceAction) → Decidable (a.Undivided e)
  | (self, .selectDevice _) => inferInstanceAs (Decidable (self ∈ a.ids → _ = none → _ → _))
  | (self, .playStation _) => inferInstanceAs (Decidable (self ∈ a.ids → a.Free self _))

variable {a b : Account} {self id : String} {p : Player}

theorem plays_set_self : (a.set id p).Plays id ↔
    id ∈ a.ids ∧ p.buildPlaybackState.playing = true := by
  unfold Plays
  rw [show (a.set id p).player id = p from Function.update_self ..]
  exact Iff.rfl

theorem plays_set_ne {other : String} (h : other ≠ id) :
    (a.set id p).Plays other ↔ a.Plays other := by
  unfold Plays
  rw [show (a.set id p).player other = a.player other from Function.update_of_ne h ..]
  exact Iff.rfl

theorem set_player (a : Account) (id : String) : a.set id (a.player id) = a := by
  unfold set
  rw [Function.update_eq_self]

/-- Where one device of `ids` starts and the others stop, all depends on those not of them. -/
theorem one_iff_alone {ids : List String} (hmem : id ∈ ids) (hplays : b.Plays id)
    (hids : ∀ other ∈ ids, other ≠ id → ¬ b.Plays other)
    (hrest : ∀ other, other ∉ ids → (b.Plays other ↔ a.Plays other)) :
    b.OnePlayer ↔ a.Alone ids := by
  constructor
  · intro hone other _ hother
    by_contra hnot
    have heq : other = id := hone ((hrest other hnot).2 hother) hplays
    exact hnot (heq ▸ hmem)
  · intro halone
    have hall : ∀ other, b.Plays other → other = id := by
      intro other hother
      by_contra hne
      by_cases hin : other ∈ ids
      · exact hids other hin hne hother
      · have hother' := (hrest other hin).1 hother
        exact hin (halone other hother'.1 hother')
    exact fun i hi j hj => (hall i hi).trans (hall j hj).symm

theorem one_iff_alone_self (hplays : b.Plays id)
    (hrest : ∀ other, other ≠ id → (b.Plays other ↔ a.Plays other)) :
    b.OnePlayer ↔ a.Alone [id] := by
  refine one_iff_alone (List.mem_singleton_self id) hplays ?_ ?_
  · intro other hother hne
    exact (hne (List.mem_singleton.1 hother)).elim
  · exact fun other hother => hrest other fun heq => hother (List.mem_singleton.2 heq)

theorem one_of_fewer (h : a.OnePlayer) (hfewer : ∀ id, b.Plays id → a.Plays id) : b.OnePlayer :=
  h.anti hfewer

theorem deliver_some (a : Account) {sender target : String} (hne : target ≠ sender)
    (hmem : target ∈ a.ids) (cmd : Command) : a.deliver sender (some (target, cmd)) =
      a.set target ((a.player target).applyCommand cmd) :=
  if_neg (not_or.2 ⟨hne, not_not.2 hmem⟩)

/-- A command to a device that is not there, or to the one that sends it. -/
theorem deliver_lost (a : Account) {sender target : String}
    (h : ¬ (target ≠ sender ∧ target ∈ a.ids)) (cmd : Command) :
    a.deliver sender (some (target, cmd)) = a := by
  refine if_pos ?_
  by_contra hnot
  rw [not_or, not_not] at hnot
  exact h hnot

theorem one_of_silent (h : ∀ id, ¬ b.Plays id) : b.OnePlayer :=
  fun id hid => (h id hid).elim

/-- A command makes no device play but the one it is for. -/
theorem deliver_one (h : ∀ id, ¬ b.Plays id) (sender : String)
    (command : Option (String × Command)) : (b.deliver sender command).OnePlayer := by
  cases command with
  | none => exact one_of_silent h
  | some command =>
    obtain ⟨target, cmd⟩ := command
    by_cases hthere : target ≠ sender ∧ target ∈ b.ids
    · rw [deliver_some b hthere.1 hthere.2]
      have hall : ∀ id, (b.set target ((b.player target).applyCommand cmd)).Plays id →
          id = target := by
        intro id hid
        by_contra hne
        exact h id ((plays_set_ne hne).1 hid)
      exact fun i hi j hj => (hall i hi).trans (hall j hj).symm
    · rw [deliver_lost b hthere]
      exact one_of_silent h

/-! ### The actions -/

theorem step_eq {self : String} (hself : self ∈ a.ids) (action : DeviceAction) :
    a.step (self, action) =
      (a.refresh.set self ((a.refresh.player self).perform action).1).deliver self
        ((a.refresh.player self).perform action).2 := if_pos hself

theorem play_local {self : String} (hself : self ∈ a.ids)
    (htarget : chosen (a.player self).remoteTargetId = none) (station : Station) :
    (a.step (self, .playStation station)).OnePlayer ↔ a.Alone [self] := by
  have hdone : (a.refresh.player self).perform (.playStation station) =
      ((a.refresh.player self).load station, none) :=
    Player.transport_local (p := a.refresh.player self) htarget _
  rw [step_eq hself, hdone]
  exact one_iff_alone_self (plays_set_self.2 ⟨hself, rfl⟩) fun other hne => plays_set_ne hne

theorem play_remote {self target : String} (h : a.OnePlayer) (hself : self ∈ a.ids)
    (htarget : chosen (a.player self).remoteTargetId = some target) (station : Station) :
    (a.step (self, .playStation station)).OnePlayer ↔
      (target ≠ self → target ∈ a.ids → a.Alone [target]) := by
  have hdone : (a.refresh.player self).perform (.playStation station) =
      (a.refresh.player self, some (target, .playStation (stationToLite station))) :=
    Player.transport_remote (p := a.refresh.player self) htarget _
  rw [step_eq hself, hdone]
  dsimp only
  rw [set_player]
  by_cases hthere : target ≠ self ∧ target ∈ a.ids
  · obtain ⟨hne, hmem⟩ := hthere
    rw [deliver_some a.refresh hne hmem]
    have halone : (a.refresh.set target ((a.refresh.player target).applyCommand
        (.playStation (stationToLite station)))).OnePlayer ↔ a.Alone [target] :=
      one_iff_alone_self (plays_set_self.2 ⟨hmem, rfl⟩) fun other hne' => plays_set_ne hne'
    exact halone.trans ⟨fun hall _ _ => hall, fun hall => hall hne hmem⟩
  · rw [deliver_lost a.refresh hthere]
    exact ⟨fun _ hne hmem => (hthere ⟨hne, hmem⟩).elim, fun _ => h⟩

/-- Taking control of a device never has two of them play. -/
theorem control_one {self target : String} (h : a.OnePlayer) (hself : self ∈ a.ids)
    {deviceId : Option String} (hid : chosen deviceId = some target) :
    (a.step (self, .selectDevice deviceId)).OnePlayer := by
  obtain ⟨hcontrol, hsent⟩ := (a.refresh.player self).selectDevice_some hid
  rw [step_eq hself]
  dsimp only [Player.perform]
  rw [hcontrol]
  have hother : ∀ other, (a.refresh.set self ((a.refresh.player self).control target)).Plays other →
      other ≠ self ∧ a.Plays other := by
    intro other hplays
    have hne : other ≠ self := by
      intro heq
      subst heq
      cases (plays_set_self.1 hplays).2
    exact ⟨hne, (plays_set_ne (a := a.refresh) hne).1 hplays⟩
  rcases hsent with hnone | ⟨station, hstation, hplaying, -⟩
  · rw [hnone]
    exact one_of_fewer h fun other hplays => (hother other hplays).2
  · have hplays : a.Plays self := by
      refine ⟨hself, ?_⟩
      unfold Player.buildPlaybackState
      rw [show (a.player self).isPlaying = true from hplaying,
        show (a.player self).currentStation = some station from hstation]
      rfl
    refine deliver_one (fun other hplays' => ?_) self _
    obtain ⟨hne, hwas⟩ := hother other hplays'
    exact hne (h hwas hplays)

/-- Only a device that is online has a station to hand over. -/
theorem remoteStation_isSome (a : Account) (self : String) :
    (a.refresh.player self).remoteStation.isSome ↔ a.Loaded (a.player self).remoteTargetId := by
  have hroster : (a.refresh.player self).remoteStation =
      (a.ids.find? fun id => some id = (a.player self).remoteTargetId).bind
        fun id => (a.player id).currentStation.map stationToLite := by
    dsimp only [Player.remoteStation, refresh, roster]
    rw [List.find?_map, Option.bind_map]
    rfl
  rw [hroster]
  cases hfind : a.ids.find? fun id => some id = (a.player self).remoteTargetId with
  | none =>
    constructor
    · exact nofun
    · rintro ⟨id, hmem, hid, -⟩
      exact (List.find?_eq_none.1 hfind id hmem (decide_eq_true hid)).elim
  | some prev =>
    have hprev : some prev = (a.player self).remoteTargetId := by
      have hfound := List.find?_some hfind
      exact of_decide_eq_true hfound
    rw [Option.bind_some, Option.isSome_map]
    constructor
    · exact fun hstation => ⟨prev, List.mem_of_find?_eq_some hfind, hprev, hstation⟩
    · rintro ⟨id, -, hid, hstation⟩
      rwa [← Option.some.inj (hid.trans hprev.symm)]

/-- The device that took the playback back has the one that it controlled stop. -/
theorem stop_iff {self prev : String} (htaken : b.Plays self)
    (hrest : ∀ other, other ≠ self → (b.Plays other ↔ a.Plays other)) :
    (b.deliver self (some (prev, .stop))).OnePlayer ↔ a.Alone [self, prev] := by
  have hother : ∀ other, other ∉ [self, prev] → other ≠ self ∧ other ≠ prev := by
    intro other hnot
    rwa [List.mem_pair, not_or] at hnot
  by_cases hthere : prev ≠ self ∧ prev ∈ b.ids
  · rw [deliver_some b hthere.1 hthere.2]
    refine one_iff_alone List.mem_cons_self ((plays_set_ne hthere.1.symm).2 htaken) ?_ ?_
    · intro other hmem hne
      have heq : other = prev := (List.mem_pair.1 hmem).resolve_left hne
      subst heq
      exact fun hplays => nomatch (plays_set_self.1 hplays).2
    · intro other hnot
      rw [plays_set_ne (hother other hnot).2]
      exact hrest other (hother other hnot).1
  · rw [deliver_lost b hthere]
    refine one_iff_alone List.mem_cons_self htaken ?_ ?_
    · intro other hmem hne hplays
      have heq : other = prev := (List.mem_pair.1 hmem).resolve_left hne
      subst heq
      exact hthere ⟨hne, hplays.1⟩
    · exact fun other hnot => hrest other (hother other hnot).1

theorem pull_iff {self : String} (h : a.OnePlayer) (hself : self ∈ a.ids)
    {deviceId : Option String} (hid : chosen deviceId = none) :
    (a.step (self, .selectDevice deviceId)).OnePlayer ↔
      (a.Loaded (a.player self).remoteTargetId →
        a.Alone (self :: (chosen (a.player self).remoteTargetId).toList)) := by
  rw [step_eq hself, ← remoteStation_isSome]
  dsimp only [Player.perform]
  cases hstation : (a.refresh.player self).remoteStation with
  | none =>
    rw [Player.selectDevice_leave hid hstation]
    have hsame : ∀ other, (a.refresh.set self (a.refresh.player self).release).Plays other →
        a.Plays other := by
      intro other hplays
      by_cases heq : other = self
      · rw [heq] at hplays ⊢
        exact ⟨hself, (plays_set_self (p := (a.refresh.player self).release).1 hplays).2⟩
      · exact (plays_set_ne (a := a.refresh) heq).1 hplays
    exact ⟨(fun _ hsome => nomatch hsome), fun _ => one_of_fewer h hsame⟩
  | some station =>
    rw [Player.selectDevice_pull hid hstation]
    refine Iff.trans ?_ ⟨fun halone _ => halone, fun halone => halone rfl⟩
    rw [show (a.refresh.player self).remoteTargetId = (a.player self).remoteTargetId from rfl]
    have htaken : (a.refresh.set self
        ((a.refresh.player self).release.load (liteToStation station))).Plays self :=
      plays_set_self.2 ⟨hself, rfl⟩
    cases chosen (a.player self).remoteTargetId with
    | none =>
      exact one_iff_alone_self htaken fun other hne => plays_set_ne (a := a.refresh) hne
    | some prev =>
      exact stop_iff htaken fun other hne => plays_set_ne (a := a.refresh) hne

theorem step_one (h : a.OnePlayer) (e : String × DeviceAction) :
    (a.step e).OnePlayer ↔ a.Undivided e := by
  obtain ⟨self, action⟩ := e
  by_cases hself : self ∈ a.ids
  · refine Iff.trans ?_ ⟨fun hact _ => hact, fun hact => hact hself⟩
    cases action with
    | playStation station =>
      dsimp only
      cases htarget : chosen (a.player self).remoteTargetId with
      | none => exact play_local hself htarget station
      | some target => exact play_remote h hself htarget station
    | selectDevice deviceId =>
      cases hid : chosen deviceId with
      | none =>
        exact (pull_iff h hself hid).trans ⟨fun halone _ => halone, fun halone => halone hid⟩
      | some target =>
        exact ⟨(fun _ hnone => nomatch hid.symm.trans hnone), fun _ => control_one h hself hid⟩
  · have hstep : a.step (self, action) = a := if_neg hself
    rw [hstep]
    exact ⟨fun _ hmem => (hself hmem).elim, fun _ => h⟩

/-- At most one device plays after every action, if and only if every action leaves no device
playing that it neither takes the playback from nor gives it to. -/
theorem one_player_iff (a : Account) (h : a.OnePlayer) (es : List (String × DeviceAction)) :
    AllSteps step (fun a e => (a.step e).OnePlayer) a es ↔ AllSteps step Undivided a es :=
  allSteps_iff_of_step (I := OnePlayer) (fun _ e hone => step_one hone e)
    (fun _ e hone hund => (step_one hone e).2 hund) h

/-- The kitchen plays; the laptop and the phone do not. -/
def home : Account where
  ids := ["kitchen", "laptop", "phone"]
  name id := id
  player id :=
    if id = "kitchen" then (Player.new 1 false).load (stationOf "rb:1") else Player.new 1 false

theorem home_one : home.OnePlayer := by
  have hall : ∀ id, home.Plays id → id = "kitchen" := by
    rintro id ⟨-, hplays⟩
    by_contra hne
    rw [show home.player id = Player.new 1 false from if_neg hne] at hplays
    cases hplays
  exact fun i hi j hj => (hall i hi).trans (hall j hj).symm

/-- The laptop takes the playback from the kitchen and gives it to the phone. -/
theorem home_handed : AllSteps step (fun a e => (a.step e).OnePlayer) home
    [("laptop", .selectDevice (some "kitchen")), ("laptop", .selectDevice none),
      ("laptop", .selectDevice (some "phone")), ("laptop", .playStation (stationOf "rb:2"))] :=
  (one_player_iff home home_one _).2 (by decide)

/-- What the kitchen plays goes on when the laptop turns from it to the phone. -/
theorem home_divided : home.OnePlayer ∧
    ¬ AllSteps step (fun a e => (a.step e).OnePlayer) home
      [("laptop", .selectDevice (some "kitchen")), ("laptop", .selectDevice (some "phone")),
        ("laptop", .playStation (stationOf "rb:2"))] := by
  refine ⟨home_one, fun h => ?_⟩
  have hsame : "kitchen" = "phone" := h.2.2.1
    (show Plays _ "kitchen" by decide) (show Plays _ "phone" by decide)
  exact absurd hsame (by decide)

end Account

end Atradio.Web
