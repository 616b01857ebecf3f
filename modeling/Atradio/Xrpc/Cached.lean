import Atradio.Lib.Run
import Mathlib.Logic.Function.Basic

/-! # Cached responses

`cacheJson` in front of the read endpoints (`cache.ts`). Requests are handled side by side, by any
number of processes on one Redis; times are in milliseconds. A handler is whatever answers, so what
is proved is about the cache alone. -/

namespace Atradio.Xrpc.Cached
open Atradio.Lib

inductive XCache where
  | HIT
  | MISS
  deriving DecidableEq

structure Response where
  xCache : Option XCache
  status : ℕ
  body : String
  deriving DecidableEq

/-- Where the middleware and the handler of a request are. `next` says whether `res.json` has been
replaced. -/
inductive Stage where
  | cacheGet
  | got (hit : Option String)
  | next (patched : Bool)
  | sent (at_ : ℕ) (response : Response)
  | failed
  deriving DecidableEq

structure Request where
  originalUrl : String
  began : ℕ
  stage : Stage
  deriving DecidableEq

/-- A `SET key value EX ttlSec` on its way, and when it left. -/
structure CacheSet where
  key : String
  value : String
  ttlSec : ℕ
  left : ℕ
  deriving DecidableEq

structure Entry where
  value : String
  expires : ℕ

structure World where
  now : ℕ := 0
  redis : String → Option Entry := fun _ => none
  sets : List CacheSet := []
  requests : List Request := []

/-- `reply` and `noReply` are Redis answering a GET, `lands` and `lost` what becomes of a SET,
`evicted` a key that Redis gives up. -/
inductive Event (B : Type) where
  | request (originalUrl : String)
  | reply (i : ℕ)
  | noReply (i : ℕ)
  | resume (i : ℕ)
  | json (i : ℕ) (status : ℕ) (body : B)
  | throws (i : ℕ)
  | lands (k : ℕ)
  | lost (k : ℕ)
  | evicted (key : String)
  | wait (ms : ℕ)

/-- `client` says whether `REDIS_URL` is set, `ttlSec` what the route of a URL gives `cacheJson`. -/
structure Config (B : Type) where
  client : Bool
  ttlSec : String → ℕ
  stringify : B → String

def respKey (originalUrl : String) : String := "resp:" ++ originalUrl

def World.get (w : World) (key : String) : Option String :=
  (w.redis key).bind fun e => if w.now < e.expires then some e.value else none

def World.put (w : World) (i : ℕ) (r : Request) (stage : Stage) : World :=
  { w with requests := w.requests.set i { r with stage } }

/-- `if (hit)`: an empty text is no hit. -/
def resume (w : World) (i : ℕ) (r : Request) : Option String → World
  | some hit =>
    if hit ≠ "" then w.put i r (.sent w.now ⟨some .HIT, 200, hit⟩) else w.put i r (.next true)
  | none => w.put i r (.next true)

variable {B : Type} (cfg : Config B)

/-- `res.json`, as the handler calls it. -/
def json (w : World) (i : ℕ) (r : Request) (status : ℕ) (body : B) : Bool → World
  | true =>
    let w' := w.put i r (.sent w.now ⟨some .MISS, status, cfg.stringify body⟩)
    if status = 200 then
      { w' with sets := w.sets ++
          [⟨respKey r.originalUrl, cfg.stringify body, cfg.ttlSec r.originalUrl, w.now⟩] }
    else w'
  | false => w.put i r (.sent w.now ⟨none, status, cfg.stringify body⟩)

def lands (w : World) (k : ℕ) (s : CacheSet) : World :=
  { w with
    sets := w.sets.eraseIdx k
    redis := Function.update w.redis s.key (some ⟨s.value, w.now + 1000 * s.ttlSec⟩) }

def step (w : World) : Event B → World
  | .request url =>
    { w with requests := w.requests ++
        [⟨url, w.now, if cfg.client then .cacheGet else .next false⟩] }
  | .reply i =>
    match w.requests[i]? with
    | some ⟨url, began, .cacheGet⟩ =>
      w.put i ⟨url, began, .cacheGet⟩ (.got (w.get (respKey url)))
    | _ => w
  | .noReply i =>
    match w.requests[i]? with
    | some ⟨url, began, .cacheGet⟩ => w.put i ⟨url, began, .cacheGet⟩ (.got none)
    | _ => w
  | .resume i =>
    match w.requests[i]? with
    | some ⟨url, began, .got hit⟩ => resume w i ⟨url, began, .got hit⟩ hit
    | _ => w
  | .json i status body =>
    match w.requests[i]? with
    | some ⟨url, began, .next patched⟩ => json cfg w i ⟨url, began, .next patched⟩ status body patched
    | _ => w
  | .throws i =>
    match w.requests[i]? with
    | some ⟨url, began, .next patched⟩ => w.put i ⟨url, began, .next patched⟩ .failed
    | _ => w
  | .lands k =>
    match w.sets[k]? with
    | some s => lands w k s
    | none => w
  | .lost k => { w with sets := w.sets.eraseIdx k }
  | .evicted key => { w with redis := Function.update w.redis key none }
  | .wait ms => { w with now := w.now + ms }

/-- Handlers answer within `L`, and a SET lands within `D` or not at all. -/
def Prompt (L D : ℕ) (w : World) : Event B → Prop
  | .json i _ _ => ∀ r, w.requests[i]? = some r → w.now ≤ r.began + L
  | .lands k => ∀ s, w.sets[k]? = some s → w.now ≤ s.left + D
  | _ => True

/-! ### Where a text comes from -/

/-- A handler answered a request for the key at `t` with this text. -/
def Computed (w : World) (key text : String) (t : ℕ) : Prop :=
  ∃ r ∈ w.requests, respKey r.originalUrl = key ∧ r.stage = .sent t ⟨some .MISS, 200, text⟩

variable {cfg} (L D : ℕ)

/-- The text was computed at a time not too long before the request. -/
def Recent (cfg : Config B) (w : World) (r : Request) (text : String) : Prop :=
  ∃ t, Computed w (respKey r.originalUrl) text t ∧
    r.began < t + D + 1000 * cfg.ttlSec r.originalUrl

def Fits (cfg : Config B) (w : World) (r : Request) : Prop :=
  r.began ≤ w.now ∧
    match r.stage with
    | .got (some hit) => Recent D cfg w r hit
    | .sent t ⟨some .MISS, _, _⟩ => t ≤ r.began + L
    | .sent _ ⟨some .HIT, status, body⟩ => status = 200 ∧ Recent D cfg w r body
    | _ => True

structure Inv (cfg : Config B) (w : World) : Prop where
  requests : ∀ r ∈ w.requests, Fits L D cfg w r
  sets : ∀ s ∈ w.sets, Computed w s.key s.value s.left ∧
    ∀ url, respKey url = s.key → s.ttlSec = cfg.ttlSec url
  entries : ∀ key e, w.redis key = some e → ∃ t, Computed w key e.value t ∧
    ∀ url, respKey url = key → e.expires ≤ t + D + 1000 * cfg.ttlSec url

theorem respKey_inj {url url' : String} : respKey url = respKey url' ↔ url = url' :=
  ⟨fun h => String.append_right_inj _ |>.1 h, fun h => by rw [h]⟩

/-- Answered requests stay as they are. -/
def Keeps (w w' : World) : Prop :=
  w.now ≤ w'.now ∧ ∀ r ∈ w.requests, (∃ t resp, r.stage = .sent t resp) → r ∈ w'.requests

theorem Computed.mono {w w' : World} (h : Keeps w w') {key text : String} {t : ℕ}
    (hc : Computed w key text t) : Computed w' key text t := by
  obtain ⟨r, hr, hkey, hstage⟩ := hc
  exact ⟨r, h.2 r hr ⟨t, _, hstage⟩, hkey, hstage⟩

theorem Recent.mono {w w' : World} (h : Keeps w w') {r : Request} {text : String}
    (hr : Recent D cfg w r text) : Recent D cfg w' r text := by
  obtain ⟨t, hc, ht⟩ := hr
  exact ⟨t, hc.mono h, ht⟩

variable {L D}

theorem Fits.mono {w w' : World} (h : Keeps w w') {r : Request} (hr : Fits L D cfg w r) :
    Fits L D cfg w' r := by
  obtain ⟨url, began, stage⟩ := r
  refine ⟨Nat.le_trans hr.1 h.1, ?_⟩
  have hstage := hr.2
  dsimp only at hstage ⊢
  split at hstage
  · exact hstage.mono D h
  · exact hstage
  · exact ⟨hstage.1, hstage.2.mono D h⟩
  · trivial

/-- The same requests, texts and entries, later. -/
theorem keeps_of_requests {w w' : World} (hnow : w.now ≤ w'.now)
    (hreq : ∀ r ∈ w.requests, r ∈ w'.requests) : Keeps w w' :=
  ⟨hnow, fun r hr _ => hreq r hr⟩

theorem put_keeps {w : World} {i : ℕ} {r : Request} (hr : w.requests[i]? = some r)
    (hopen : ∀ t resp, r.stage ≠ .sent t resp) (stage : Stage) : Keeps w (w.put i r stage) := by
  refine ⟨Nat.le_refl _, ?_⟩
  rintro x hx ⟨t, resp, hsent⟩
  obtain ⟨k, hk, rfl⟩ := List.getElem_of_mem hx
  have hne : i ≠ k := by
    rintro rfl
    rw [List.getElem?_eq_getElem hk, Option.some.injEq] at hr
    exact hopen t resp (hr ▸ hsent)
  have hlen : k < (w.put i r stage).requests.length := by simpa [World.put] using hk
  have hget : (w.put i r stage).requests[k] = w.requests[k] := List.getElem_set_of_ne hne _ _
  exact hget ▸ List.getElem_mem hlen

/-- A request goes on. -/
theorem Inv.put {w : World} (hw : Inv L D cfg w) {i : ℕ} {r : Request}
    (hr : w.requests[i]? = some r) (hopen : ∀ t resp, r.stage ≠ .sent t resp) {stage : Stage}
    (hfits : Fits L D cfg w { r with stage }) : Inv L D cfg (w.put i r stage) := by
  have hkeeps := put_keeps hr hopen stage
  refine ⟨fun x hx => ?_, fun s hs => ?_, fun key e he => ?_⟩
  · rcases List.mem_or_eq_of_mem_set hx with hx | rfl
    · exact (hw.requests x hx).mono hkeeps
    · exact hfits.mono hkeeps
  · exact ⟨(hw.sets s hs).1.mono hkeeps, (hw.sets s hs).2⟩
  · obtain ⟨t, hc, ht⟩ := hw.entries key e he
    exact ⟨t, hc.mono hkeeps, ht⟩

/-- What Redis answers is the text of an entry that has not expired. -/
theorem Inv.get {w : World} (hw : Inv L D cfg w) {r : Request} (hr : r ∈ w.requests) {hit : String}
    (hget : w.get (respKey r.originalUrl) = some hit) : Recent D cfg w r hit := by
  unfold World.get at hget
  cases he : w.redis (respKey r.originalUrl) with
  | none => simp [he] at hget
  | some e =>
    obtain ⟨t, hc, ht⟩ := hw.entries _ e he
    have hbegan := (hw.requests r hr).1
    have hexp := ht _ rfl
    simp only [he, Option.bind_some, Option.ite_none_right_eq_some, Option.some.injEq] at hget
    obtain ⟨hlive, rfl⟩ := hget
    exact ⟨t, hc, by omega⟩

theorem Inv.resume {w : World} (hw : Inv L D cfg w) {i : ℕ} {url : String} {began : ℕ}
    {hit : Option String} (hr : w.requests[i]? = some ⟨url, began, .got hit⟩) :
    Inv L D cfg (resume w i ⟨url, began, .got hit⟩ hit) := by
  have hfits := hw.requests _ (List.mem_of_getElem? hr)
  have hnext : Inv L D cfg (w.put i ⟨url, began, .got hit⟩ (.next true)) :=
    hw.put hr (by simp) ⟨hfits.1, trivial⟩
  cases hit with
  | none => exact hnext
  | some hit =>
    simp only [Cached.resume]
    split
    · exact hw.put hr (by simp) ⟨hfits.1, rfl, hfits.2⟩
    · exact hnext

theorem Inv.json {w : World} (hw : Inv L D cfg w) {i : ℕ} {url : String} {began : ℕ}
    {patched : Bool} (hr : w.requests[i]? = some ⟨url, began, .next patched⟩) (status : ℕ)
    (body : B) (hin : w.now ≤ began + L) :
    Inv L D cfg (json cfg w i ⟨url, began, .next patched⟩ status body patched) := by
  have hbegan := (hw.requests _ (List.mem_of_getElem? hr)).1
  cases patched with
  | false => exact hw.put hr (by simp) ⟨hbegan, trivial⟩
  | true =>
    have hput : Inv L D cfg (w.put i ⟨url, began, .next true⟩
        (.sent w.now ⟨some .MISS, status, cfg.stringify body⟩)) :=
      hw.put hr (by simp) ⟨hbegan, hin⟩
    simp only [Cached.json]
    split
    next hok =>
      subst hok
      refine ⟨hput.requests, fun s hs => ?_, hput.entries⟩
      rcases List.mem_append.1 hs with hs | hs
      · exact hput.sets s hs
      · rw [List.mem_singleton.1 hs]
        refine ⟨⟨⟨url, began, _⟩, ?_, rfl, rfl⟩, fun url' hurl => ?_⟩
        · exact List.mem_set (List.getElem?_eq_some_iff.1 hr).1 _
        · exact congrArg cfg.ttlSec (respKey_inj.1 hurl).symm
    · exact hput

theorem Inv.lands {w : World} (hw : Inv L D cfg w) {k : ℕ} {s : CacheSet} (hs : w.sets[k]? = some s)
    (hin : w.now ≤ s.left + D) : Inv L D cfg (lands w k s) := by
  obtain ⟨hc, httl⟩ := hw.sets s (List.mem_of_getElem? hs)
  refine ⟨hw.requests, fun s' hs' => hw.sets s' (List.mem_of_mem_eraseIdx hs'), fun key e he => ?_⟩
  simp only [Cached.lands, Function.update_apply] at he
  split at he
  next hkey =>
    subst hkey
    cases he
    refine ⟨s.left, hc, fun url hurl => ?_⟩
    dsimp only
    rw [httl url hurl]
    omega
  · exact hw.entries key e he

/-- Fewer keys and commands, later, and requests that say nothing of a text yet. -/
theorem Inv.of_keeps {w w' : World} (hw : Inv L D cfg w) (hkeeps : Keeps w w')
    (hreq : ∀ r ∈ w'.requests, r ∈ w.requests ∨ Fits L D cfg w' r)
    (hsets : ∀ s ∈ w'.sets, s ∈ w.sets)
    (hredis : ∀ key e, w'.redis key = some e → w.redis key = some e) : Inv L D cfg w' := by
  refine ⟨fun r hr => ?_, fun s hs => ?_, fun key e he => ?_⟩
  · rcases hreq r hr with hr | hr
    · exact (hw.requests r hr).mono hkeeps
    · exact hr
  · obtain ⟨hc, httl⟩ := hw.sets s (hsets s hs)
    exact ⟨hc.mono hkeeps, httl⟩
  · obtain ⟨t, hc, ht⟩ := hw.entries key e (hredis key e he)
    exact ⟨t, hc.mono hkeeps, ht⟩

theorem Inv.step {w : World} (hw : Inv L D cfg w) (e : Event B) (he : Prompt L D w e) :
    Inv L D cfg (step cfg w e) := by
  cases e with
  | request url =>
    refine hw.of_keeps (keeps_of_requests (Nat.le_refl _) fun r => List.mem_append_left _)
      (fun r hr => ?_) (fun _ => id) (fun _ _ => id)
    refine (List.mem_append.1 hr).imp_right fun hr => ?_
    rw [List.mem_singleton.1 hr]
    refine ⟨Nat.le_refl _, ?_⟩
    cases hclient : cfg.client <;> simp
  | reply i =>
    simp only [Cached.step]
    split
    next url began hr =>
      have hmem := List.mem_of_getElem? hr
      refine hw.put hr (by simp) ⟨(hw.requests _ hmem).1, ?_⟩
      cases hget : w.get (respKey url) with
      | none => trivial
      | some hit => exact hw.get hmem hget
    · exact hw
  | noReply i =>
    simp only [Cached.step]
    split
    next url began hr =>
      exact hw.put hr (by simp) ⟨(hw.requests _ (List.mem_of_getElem? hr)).1, trivial⟩
    · exact hw
  | resume i =>
    simp only [Cached.step]
    split
    next url began hit hr => exact hw.resume hr
    · exact hw
  | json i status body =>
    simp only [Cached.step]
    split
    next url began patched hr => exact hw.json hr status body (he _ hr)
    · exact hw
  | throws i =>
    simp only [Cached.step]
    split
    next url began patched hr =>
      exact hw.put hr (by simp) ⟨(hw.requests _ (List.mem_of_getElem? hr)).1, trivial⟩
    · exact hw
  | lands k =>
    simp only [Cached.step]
    split
    next s hs => exact hw.lands hs (he s hs)
    · exact hw
  | lost k =>
    exact hw.of_keeps (keeps_of_requests (Nat.le_refl _) fun _ => id) (fun _ => Or.inl)
      (fun _ => List.mem_of_mem_eraseIdx) (fun _ _ => id)
  | evicted key =>
    refine hw.of_keeps (keeps_of_requests (Nat.le_refl _) fun _ => id) (fun _ => Or.inl)
      (fun _ => id) (fun key' e he => ?_)
    simp only [Cached.step, Function.update_apply] at he
    split at he
    · cases he
    · exact he
  | wait ms =>
    exact hw.of_keeps (keeps_of_requests (Nat.le_add_right ..) fun _ => id) (fun _ => Or.inl)
      (fun _ => id) (fun _ _ => id)

theorem inv_init : Inv L D cfg {} :=
  ⟨fun _ hr => (List.not_mem_nil hr).elim, fun _ hs => (List.not_mem_nil hs).elim,
    fun _ _ he => by cases he⟩

/-- A response from the cache is, to the letter, a 200 that a handler gave for the same URL, to a
request that came at most the handler's and the SET's delay and the time to live before. -/
theorem hit_recent (cfg : Config B) (L D : ℕ) (es : List (Event B))
    (hprompt : AllSteps (step cfg) (Prompt L D) {} es) :
    ∀ r ∈ (run (step cfg) {} es).requests, ∀ t resp, r.stage = .sent t resp →
      resp.xCache = some .HIT → resp.status = 200 ∧
        ∃ r' ∈ (run (step cfg) {} es).requests, ∃ t',
          r'.originalUrl = r.originalUrl ∧ r'.stage = .sent t' ⟨some .MISS, 200, resp.body⟩ ∧
          t' ≤ r'.began + L ∧ r.began < t' + D + 1000 * cfg.ttlSec r.originalUrl := by
  have hinv : Inv L D cfg (run (step cfg) {} es) :=
    run_invariant (fun w e hw he => hw.step e he) inv_init hprompt
  rintro ⟨url, began, stage⟩ hr t ⟨xCache, status, body⟩ hstage hhit
  dsimp only at hstage hhit
  subst hstage hhit
  obtain ⟨-, hok, t', ⟨r', hr', hkey, hsent⟩, hlate⟩ := hinv.requests _ hr
  refine ⟨hok, r', hr', t', respKey_inj.1 hkey, hsent, ?_, hlate⟩
  have hfits := (hinv.requests r' hr').2
  rw [hsent] at hfits
  exact hfits

def twentySeconds : Config String := ⟨true, fun _ => 20, id⟩

/-- The bound is met to the millisecond. -/
theorem hit_recent_late :
    let w := run (step twentySeconds) {} [.request "/xrpc/a", .reply 0, .resume 0, .wait 3,
      .json 0 200 "old", .wait 5, .lands 0, .wait 19999, .request "/xrpc/a", .reply 1, .resume 1]
    w.requests[1]? = some ⟨"/xrpc/a", 20007, .sent 20007 ⟨some .HIT, 200, "old"⟩⟩ ∧
      ∃ r' ∈ w.requests, ∃ t', r'.originalUrl = "/xrpc/a" ∧
        r'.stage = .sent t' ⟨some .MISS, 200, "old"⟩ ∧ t' ≤ r'.began + 3 ∧ 20007 < t' + 5 + 1000 * 20 := by
  have hrun := hit_recent twentySeconds 3 5 [.request "/xrpc/a", .reply 0, .resume 0, .wait 3,
    .json 0 200 "old", .wait 5, .lands 0, .wait 19999, .request "/xrpc/a", .reply 1, .resume 1]
    ⟨trivial, trivial, trivial, trivial, by rintro r ⟨⟩; decide, trivial, by rintro s ⟨⟩; decide,
      trivial, trivial, trivial, trivial, trivial⟩
    ⟨"/xrpc/a", 20007, .sent 20007 ⟨some .HIT, 200, "old"⟩⟩ (List.mem_of_getElem? (i := 1) rfl)
    20007 _ rfl rfl
  exact ⟨rfl, hrun.2⟩

end Atradio.Xrpc.Cached
