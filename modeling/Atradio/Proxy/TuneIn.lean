import Atradio.Lib.Reads
import Atradio.Lib.Run
import Atradio.Lib.Table

/-! # The TuneIn cache of the proxy (`simple.ts`, `cache.ts`)

An answer of TuneIn is kept as one string, its content type and its body on either side of a line
feed, under a key made of the path and the query. The titles of streams are kept in the same
table. -/

namespace Atradio.Proxy.TuneIn
open Atradio.Lib

abbrev Text := List Char

/-! ### `cache.ts` -/

/-- The expiry is in milliseconds. -/
structure Entry where
  value : Text
  expiry : ℕ

abbrev Cache := JsMap Text Entry

def get (table : Cache) (now : ℕ) (key : Text) : Option Text × Cache :=
  match table.find key with
  | none => (none, table)
  | some entry => if entry.expiry ≤ now then (none, table.delete key) else (some entry.value, table)

def set (table : Cache) (now : ℕ) (key value : Text) (ttlSeconds : ℕ) : Cache :=
  JsMap.set table key { value, expiry := now + ttlSeconds * 1000 }

/-! ### `simple.ts` -/

def TUNEIN_TTL : ℕ := 300

def ICY_TTL : ℕ := 20

/-- What is read of a request: the segments behind `/api/tunein`, the query with its question mark,
and the header. -/
structure Request where
  rest : List Text
  search : Text
  accept : Option Text

def Request.path (r : Request) : Text := '/' :: ['/'].intercalate r.rest

def Request.key (r : Request) : Text := "tunein:".toList ++ (r.path ++ r.search)

structure Upstream where
  target : Text
  accept : Text
deriving DecidableEq

def Request.upstream (r : Request) : Upstream where
  target := "https://opml.radiotime.com".toList ++ (r.path ++ r.search)
  accept := r.accept.getD "application/json".toList

/-- A header has no line feed in it. -/
structure HeaderValue where
  text : Text
  plain : '\n' ∉ text

structure Answer where
  status : ℕ
  contentType : Option HeaderValue
  body : Text

structure Reply where
  status : ℕ
  contentType : Option Text
  body : Text
  xCache : Option String

def isOk (status : ℕ) : Bool := 200 ≤ status && status < 300

def Answer.ct (a : Answer) : Text :=
  (a.contentType.map HeaderValue.text).getD "application/json".toList

/-- `${ct}\n${body}` -/
def Answer.packed (a : Answer) : Text := a.ct ++ '\n' :: a.body

def relayText (status : ℕ) (contentType : Option Text) (body : Text) : Reply :=
  { status, contentType, body, xCache := none }

def xCache (res : Reply) (state : String) : Reply := { res with xCache := some state }

def hitReply (cached : Text) : Reply :=
  match cut ['\n'] cached with
  | none => xCache (relayText 200 none cached) "HIT"
  | some (ct, body) => xCache (relayText 200 (some ct) body) "HIT"

def badGateway : Reply :=
  { status := 502, contentType := some "application/json".toList,
    body := "\x7b\"error\":\"BadGateway\"\x7d".toList, xCache := none }

/-- Whether `new Response(body, { status })` does not throw: for a status that goes without a body
it may. -/
structure Constructs where
  allows : ℕ → Bool
  ok : allows 200 = true

def missReply (constructs : Constructs) (a : Answer) : Reply :=
  if constructs.allows a.status then xCache (relayText a.status (some a.ct) a.body) "MISS"
  else badGateway

/-! ### Requests over time -/

structure Waiting where
  ticket : ℕ
  request : Request

structure Fill where
  now : ℕ
  request : Request
  answer : Answer

structure State where
  table : Cache
  started : ℕ
  waiting : Table Waiting.ticket
  /-- The latest first. -/
  fills : List Fill

def State.init : State := ⟨Table.empty, 0, Table.empty, []⟩

inductive Event where
  | tunein (now : ℕ) (request : Request)
  | answered (now : ℕ) (ticket : ℕ) (answer : Answer)
  /-- The request, or reading its body, has thrown. -/
  | failed (ticket : ℕ)
  /-- The other route looks a title up, and stores one. -/
  | icy (now : ℕ) (url : Text)
  | icyTitle (now : ℕ) (url body : Text)

def icyKey (url : Text) : Text := "icy:".toList ++ url

def answered (s : State) (now : ℕ) (w : Waiting) (a : Answer) : State :=
  let waiting := s.waiting.delete w.ticket
  if isOk a.status then
    { s with
      table := set s.table now w.request.key a.packed TUNEIN_TTL
      waiting, fills := ⟨now, w.request, a⟩ :: s.fills }
  else { s with waiting }

def step (s : State) : Event → State
  | .tunein now request =>
    match get s.table now request.key with
    | (some _, table) => { s with table }
    | (none, table) =>
      { s with table, started := s.started + 1, waiting := s.waiting.put ⟨s.started, request⟩ }
  | .answered now ticket a =>
    match s.waiting.get ticket with
    | none => s
    | some w => answered s now w a
  | .failed ticket => { s with waiting := s.waiting.delete ticket }
  | .icy now url => { s with table := (get s.table now (icyKey url)).2 }
  | .icyTitle now url body => { s with table := set s.table now (icyKey url) body ICY_TTL }

/-! ### Hits and the misses that filled their entries -/

def State.hit (s : State) (now : ℕ) (r : Request) : Option Text := (get s.table now r.key).1

def State.filler (s : State) (key : Text) : Option Fill :=
  s.fills.find? fun fill => fill.request.key = key

/-- `x-cache` apart. -/
def SameReply (a b : Reply) : Prop :=
  a.status = b.status ∧ a.contentType = b.contentType ∧ a.body = b.body

/-- A hit within the time of its entry is answered as the miss that filled it was, which had been
sent on as this request would be. -/
def Transparent (constructs : Constructs) (s : State) : Event → Prop
  | .tunein now r => ∀ cached, s.hit now r = some cached →
    ∃ fill, s.filler r.key = some fill ∧ now < fill.now + TUNEIN_TTL * 1000 ∧
      SameReply (hitReply cached) (missReply constructs fill.answer) ∧
        fill.request.upstream = r.upstream
  | _ => True

/-- The entry that a request hits is a `200`, and both requests send on the same `Accept`. -/
def Plain (s : State) : Event → Prop
  | .tunein now r => ∀ fill, s.filler r.key = some fill → (s.hit now r).isSome = true →
    fill.answer.status = 200 ∧ fill.request.upstream.accept = r.upstream.accept
  | _ => True

/-! ### What the cache holds -/

theorem cut_packed (a : Answer) : cut ['\n'] a.packed = some (a.ct, a.body) := by
  refine cut_singleton_eq_some.2 ⟨rfl, ?_⟩
  unfold Answer.ct
  cases a.contentType with
  | none => decide
  | some value => exact value.plain

def Inv (s : State) : Prop :=
  ∀ r : Request, ∀ entry, s.table.find r.key = some entry →
    ∃ fill, s.filler r.key = some fill ∧ isOk fill.answer.status = true ∧
      entry.value = fill.answer.packed ∧ entry.expiry = fill.now + TUNEIN_TTL * 1000

theorem find_get {table : Cache} {now : ℕ} {key k : Text} {entry : Entry}
    (h : (get table now key).2.find k = some entry) : table.find k = some entry := by
  unfold get at h
  split at h
  · exact h
  · split at h
    · rw [JsMap.find_delete] at h
      split at h
      · cases h
      · exact h
    · exact h

theorem get_eq_some {table : Cache} {now : ℕ} {key cached : Text}
    (h : (get table now key).1 = some cached) :
    ∃ entry, table.find key = some entry ∧ entry.value = cached ∧ now < entry.expiry := by
  unfold get at h
  split at h
  · cases h
  · rename_i entry hfind
    split at h
    · cases h
    · rename_i hlive
      exact ⟨entry, hfind, Option.some.inj h, Nat.not_le.1 hlive⟩

theorem key_ne_icyKey (r : Request) (url : Text) : r.key ≠ icyKey url := by
  intro h
  exact absurd (List.cons.inj h).1 (by decide)

theorem inv_init : Inv State.init := nofun

theorem inv_answered {s : State} (hI : Inv s) (now : ℕ) (w : Waiting) (a : Answer) :
    Inv (answered s now w a) := by
  unfold answered
  dsimp only
  split
  · rename_i hok
    intro r entry hentry
    rw [set, JsMap.find_set] at hentry
    unfold State.filler
    by_cases hkey : r.key = w.request.key
    · rw [if_pos hkey] at hentry
      rw [List.find?_cons_of_pos (by simpa using hkey.symm)]
      obtain rfl := Option.some.inj hentry
      exact ⟨_, rfl, hok, rfl, rfl⟩
    · rw [if_neg hkey] at hentry
      rw [List.find?_cons_of_neg (by simpa using Ne.symm hkey)]
      exact hI r entry hentry
  · exact hI

theorem step_tunein (s : State) (now : ℕ) (r : Request) :
    (step s (.tunein now r)).table = (get s.table now r.key).2 ∧
      (step s (.tunein now r)).fills = s.fills := by
  rw [step]
  split
  · rename_i heq
    rw [heq]
    exact ⟨rfl, rfl⟩
  · rename_i heq
    rw [heq]
    exact ⟨rfl, rfl⟩

theorem inv_step {s : State} (hI : Inv s) (e : Event) : Inv (step s e) := by
  cases e with
  | tunein now request =>
    intro r entry hentry
    obtain ⟨htable, hfills⟩ := step_tunein s now request
    rw [htable] at hentry
    rw [State.filler, hfills]
    exact hI r entry (find_get hentry)
  | answered now ticket a =>
    rw [step]
    split
    · exact hI
    · exact inv_answered hI now _ a
  | failed ticket => exact hI
  | icy now url => exact fun r entry hentry => hI r entry (find_get hentry)
  | icyTitle now url body =>
    intro r entry hentry
    rw [step, set, JsMap.find_set, if_neg (key_ne_icyKey r url)] at hentry
    exact hI r entry hentry

/-! ### When it is transparent -/

/-- The status comes back as `200`. -/
theorem sameReply_iff (constructs : Constructs) (a : Answer) :
    SameReply (hitReply a.packed) (missReply constructs a) ↔ a.status = 200 := by
  unfold SameReply hitReply missReply
  rw [cut_packed]
  constructor
  · rintro ⟨hstatus, -, -⟩
    by_cases hallows : constructs.allows a.status = true
    · rw [if_pos hallows] at hstatus
      exact hstatus.symm
    · rw [if_neg hallows] at hstatus
      have hgateway : 200 = 502 := hstatus
      exact absurd hgateway (by decide)
  · intro h
    rw [h, if_pos constructs.ok]
    exact ⟨rfl, rfl, rfl⟩

theorem target_of_key {r r' : Request} (h : r.key = r'.key) :
    r.upstream.target = r'.upstream.target := by
  have hpath : r.path ++ r.search = r'.path ++ r'.search := List.append_cancel_left h
  exact congrArg (_ ++ ·) hpath

theorem upstream_eq_iff {r r' : Request} (h : r.key = r'.key) :
    r.upstream = r'.upstream ↔ r.upstream.accept = r'.upstream.accept := by
  constructor
  · exact congrArg Upstream.accept
  · intro haccept
    have htarget := target_of_key h
    cases hr : r.upstream
    cases hr' : r'.upstream
    rw [hr, hr'] at htarget haccept
    exact congrArg₂ Upstream.mk htarget haccept

theorem filler_key {s : State} {key : Text} {fill : Fill} (h : s.filler key = some fill) :
    fill.request.key = key := by simpa using List.find?_some h

theorem transparent_iff_plain (constructs : Constructs) {s : State} (hI : Inv s) (e : Event) :
    Transparent constructs s e ↔ Plain s e := by
  cases e with
  | tunein now r =>
    constructor
    · intro h fill hfill hhit
      obtain ⟨cached, hcached⟩ := Option.isSome_iff_exists.1 hhit
      obtain ⟨entry, hentry, rfl, -⟩ := get_eq_some hcached
      obtain ⟨fill', hfill', -, hvalue, -⟩ := hI r entry hentry
      obtain ⟨fill'', hfill'', -, hreply, hupstream⟩ := h _ hcached
      rw [hfill] at hfill' hfill''
      obtain rfl := Option.some.inj hfill'
      obtain rfl := Option.some.inj hfill''
      rw [hvalue] at hreply
      exact ⟨(sameReply_iff constructs _).1 hreply,
        (upstream_eq_iff (filler_key hfill)).1 hupstream⟩
    · intro h cached hcached
      obtain ⟨entry, hentry, rfl, hlive⟩ := get_eq_some hcached
      obtain ⟨fill, hfill, -, hvalue, hexpiry⟩ := hI r entry hentry
      obtain ⟨hstatus, haccept⟩ := h fill hfill (Option.isSome_iff_exists.2 ⟨_, hcached⟩)
      refine ⟨fill, hfill, hexpiry ▸ hlive, ?_, (upstream_eq_iff (filler_key hfill)).2 haccept⟩
      rw [hvalue]
      exact (sameReply_iff constructs _).2 hstatus
  | answered now ticket a => exact Iff.rfl
  | failed ticket => exact Iff.rfl
  | icy now url => exact Iff.rfl
  | icyTitle now url body => exact Iff.rfl

/-- In every run the hits are transparent if and only if they are plain. -/
theorem cache_transparent_iff (constructs : Constructs) (es : List Event) :
    AllSteps step (Transparent constructs) State.init es ↔ AllSteps step Plain State.init es :=
  allSteps_iff_of_step (I := Inv) (fun _ e hI => transparent_iff_plain constructs hI e)
    (fun _ e hI _ => inv_step hI e) inv_init

def created : Answer := ⟨201, none, "[]".toList⟩

/-- No body may come with one of the statuses that go without. -/
def nullBodyThrows : Constructs := ⟨fun status => status ∉ [101, 103, 204, 205, 304], rfl⟩

/-- A `201` comes back as a `200` the second time. -/
theorem created_differs : ¬ AllSteps step (Transparent nullBodyThrows)
    State.init [.tunein 0 ⟨["Tune.ashx".toList], [], none⟩, .answered 5 0 created,
      .tunein 9 ⟨["Tune.ashx".toList], [], none⟩] := by
  intro h
  obtain ⟨fill, hfill, -, hreply, -⟩ := h.2.2.1 _ rfl
  obtain rfl := Option.some.inj hfill
  exact absurd ((sameReply_iff nullBodyThrows created).1 hreply) (by decide)

end Atradio.Proxy.TuneIn
