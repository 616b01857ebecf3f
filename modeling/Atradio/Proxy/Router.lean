import Atradio.Proxy.RateLimit
import Atradio.Web.Resolve

/-! # The two routers (`index.ts`, `atradio_media_proxy.gleam`)

Both count the requests for `/api` of a client before they answer them. The TypeScript copy answers
a preflight first, so it is free there; the Gleam copy counts it with the others. -/

namespace Atradio.Proxy.Router
open Atradio.Lib Atradio.Web RateLimit

/-- A header, which is ASCII. -/
structure HeaderText where
  text : List Char
  ascii : ∀ c ∈ text, c.toNat < 128

structure Request where
  now : ℕ
  /-- The method is `OPTIONS`. -/
  options : Bool
  /-- The segments of the path that are not empty. -/
  segments : List String
  forwardedFor : Option HeaderText
  realIp : Option HeaderText
  peer : Option (List Char)
  askedHeaders : Option HeaderText

inductive Answer where
  | preflight (allowHeaders : List Char)
  | tooMany (retryAfter : ℕ)
  | banner
  | healthy
  | stream
  | icy
  | image
  | tunein (rest : List String)
  | notFound
deriving DecidableEq

inductive Arrival where
  | request (r : Request)
  | sweep (now : ℕ)

def Arrival.now : Arrival → ℕ
  | .request r => r.now
  | .sweep now => now

def preflight (r : Request) : Answer :=
  .preflight ((r.askedHeaders.map HeaderText.text).getD "icy-metadata, range, content-type".toList)

/-- What a client is counted under; `trims` are the characters that `trim` takes off. -/
def clientIp (trims : Char → Bool) (r : Request) : List Char :=
  match r.forwardedFor with
  | some xff => trimOf trims (xff.text.takeWhile (· ≠ ','))
  | none =>
    match r.realIp with
    | some ip => ip.text
    | none => r.peer.getD "unknown".toList

section Copies

variable (limit : ℤ) (window : ℕ)

/-! ### `index.ts` -/

namespace Index

def clientIp (r : Request) : List Char := Router.clientIp isSpace r

def dispatch (segments : List String) : Answer :=
  if segments.length = 0 then .banner
  else if segments.length = 1 ∧ segments[0]? = some "healthz" then .healthy
  else if segments[0]? = some "api" then
    if segments[1]? = some "stream" ∧ segments.length = 2 then .stream
    else if segments[1]? = some "icy" ∧ segments.length = 2 then .icy
    else if segments[1]? = some "image" ∧ segments.length = 2 then .image
    else if segments[1]? = some "tunein" then .tunein (segments.drop 2)
    else .notFound
  else .notFound

def route (counters : JsMap (List Char) ℕ) (r : Request) : Answer × JsMap (List Char) ℕ :=
  if r.options then (preflight r, counters)
  else if r.segments[0]? = some "api" then
    match check stringSlots limit window counters r.now (clientIp r) with
    | (.limited retryAfter, counters) => (.tooMany retryAfter, counters)
    | (.allowed _, counters) => (dispatch r.segments, counters)
  else (dispatch r.segments, counters)

def step (counters : JsMap (List Char) ℕ) : Arrival → JsMap (List Char) ℕ
  | .request r => (route limit window counters r).2
  | .sweep now => sweep stringSlots counters now

def answer (before : List Arrival) (r : Request) : Answer :=
  (route limit window (run (step limit window) Table.empty before) r).1

end Index

/-! ### `atradio_media_proxy.gleam` -/

namespace Gleam

/-- What `string.trim` takes off. -/
def isSpace (c : Char) : Bool :=
  (9 ≤ c.toNat && c.toNat ≤ 13) || c.toNat ∈ [32, 133, 8206, 8207, 8232, 8233]

def clientIp (r : Request) : List Char := Router.clientIp isSpace r

def rateCheck (counters : JsMap (List Char × ℕ) ℕ) (r : Request) :
    Decision × JsMap (List Char × ℕ) ℕ :=
  match r.segments with
  | "api" :: _ => check pairSlots limit window counters r.now (clientIp r)
  | _ => (.allowed 0, counters)

def route (r : Request) : Answer :=
  if r.options then preflight r
  else
    match r.segments with
    | [] => .banner
    | ["healthz"] => .healthy
    | ["api", "stream"] => .stream
    | ["api", "icy"] => .icy
    | ["api", "image"] => .image
    | "api" :: "tunein" :: rest => .tunein rest
    | _ => .notFound

def handle (counters : JsMap (List Char × ℕ) ℕ) (r : Request) :
    Answer × JsMap (List Char × ℕ) ℕ :=
  match rateCheck limit window counters r with
  | (.allowed _, counters) => (route r, counters)
  | (.limited retryAfter, counters) => (.tooMany retryAfter, counters)

def step (counters : JsMap (List Char × ℕ) ℕ) : Arrival → JsMap (List Char × ℕ) ℕ
  | .request r => (handle limit window counters r).2
  | .sweep now => sweep pairSlots counters now

def answer (before : List Arrival) (r : Request) : Answer :=
  (handle limit window (run (step limit window) Table.empty before) r).1

end Gleam

end Copies

/-! ### One table of routes, one name for a client -/

def Request.api (r : Request) : Bool := r.segments[0]? = some "api"

theorem isSpace_ascii {c : Char} (hc : c.toNat < 128) : isSpace c = Gleam.isSpace c := by
  have hchar : c = Char.ofNat c.toNat := (Char.ofNat_toNat c).symm
  have hall : ∀ n < 128, isSpace (Char.ofNat n) = Gleam.isSpace (Char.ofNat n) := by decide
  rw [hchar]
  exact hall c.toNat hc

theorem clientIp_eq (r : Request) : Index.clientIp r = Gleam.clientIp r := by
  unfold Index.clientIp Gleam.clientIp clientIp
  split
  · next xff _ =>
    exact trimOf_congr fun c hc => isSpace_ascii
      (xff.ascii c ((List.takeWhile_sublist _).subset hc))
  · rfl

theorem dispatch_eq {r : Request} (h : r.options = false) :
    Gleam.route r = Index.dispatch r.segments := by
  rw [Gleam.route, h, if_neg Bool.false_ne_true]
  rcases r.segments with _ | ⟨a, _ | ⟨b, _ | ⟨c, rest⟩⟩⟩
  · rfl
  · by_cases ha : a = "healthz" <;> simp [Index.dispatch, ha]
  · by_cases ha : a = "api"
    · by_cases hb : b ∈ ["stream", "icy", "image", "tunein"]
      · simp only [List.mem_cons, List.not_mem_nil, or_false] at hb
        rcases hb with rfl | rfl | rfl | rfl <;> simp [Index.dispatch, ha]
      · simp only [List.mem_cons, List.not_mem_nil, or_false, not_or] at hb
        simp [Index.dispatch, ha, hb]
    · simp [Index.dispatch, ha]
  · by_cases ha : a = "api"
    · by_cases hb : b = "tunein" <;> simp [Index.dispatch, ha, hb]
    · simp [Index.dispatch, ha]

/-! ### What the limiters see -/

/-- A request of the client of `r` in its window. -/
def Request.Rival (window : ℕ) (r r' : Request) : Prop :=
  r'.api = true ∧ Index.clientIp r' = Index.clientIp r ∧
    windowEndOf window r'.now = windowEndOf window r.now

instance (window : ℕ) (r r' : Request) : Decidable (r.Rival window r') :=
  inferInstanceAs (Decidable (_ ∧ _ ∧ _))

def rivals (window : ℕ) (r : Request) (options : Bool) (before : List Arrival) : ℕ :=
  before.countP fun
    | .request r' => r.Rival window r' ∧ r'.options = options
    | .sweep _ => false

def Index.op : Arrival → Option Op
  | .request r =>
    if r.options = false ∧ r.api = true then some (.check r.now (Index.clientIp r)) else none
  | .sweep now => some (.sweep now)

def Gleam.op : Arrival → Option Op
  | .request r => if r.api = true then some (.check r.now (Index.clientIp r)) else none
  | .sweep now => some (.sweep now)

section Counting

variable (limit : ℤ) {window : ℕ}

theorem Index.step_op (counters : JsMap (List Char) ℕ) (a : Arrival) :
    Index.step limit window counters a =
      ((Index.op a).map (RateLimit.step stringSlots limit window counters)).getD counters := by
  cases a with
  | sweep now => rfl
  | request r =>
    rw [Index.step, Index.route, Index.op]
    cases hoptions : r.options with
    | true => simp
    | false =>
      by_cases hapi : r.segments[0]? = some "api"
      · have hcheck : r.api = true := by simpa [Request.api] using hapi
        rw [if_neg Bool.false_ne_true, if_pos hapi, if_pos ⟨rfl, hcheck⟩]
        simp only [Option.map_some, Option.getD_some, RateLimit.step]
        split <;> simp_all
      · have hfree : r.api = false := by simpa [Request.api] using hapi
        simp [hapi, hfree]

theorem Gleam.step_op (counters : JsMap (List Char × ℕ) ℕ) (a : Arrival) :
    Gleam.step limit window counters a =
      ((Gleam.op a).map (RateLimit.step pairSlots limit window counters)).getD counters := by
  cases a with
  | sweep now => rfl
  | request r =>
    rw [Gleam.step, Gleam.handle, Gleam.op, rateCheck, ← clientIp_eq]
    rcases hs : r.segments with _ | ⟨a, rest⟩
    · simp [Request.api, hs]
    · by_cases ha : a = "api"
      · subst ha
        have hcheck : r.api = true := by simp [Request.api, hs]
        rw [if_pos hcheck]
        simp only [Option.map_some, Option.getD_some, RateLimit.step]
        split <;> simp_all
      · have hfree : r.api = false := by simp [Request.api, hs, ha]
        simp [hfree, ha]

theorem run_ops {Slot : Type} [DecidableEq Slot] {slots : Slots Slot}
    {step : JsMap Slot ℕ → Arrival → JsMap Slot ℕ} {op : Arrival → Option Op}
    (hstep : ∀ counters a, step counters a =
      ((op a).map (RateLimit.step slots limit window counters)).getD counters)
    (before : List Arrival) (counters : JsMap Slot ℕ) :
    run step counters before =
      run (RateLimit.step slots limit window) counters (before.filterMap op) := by
  induction before generalizing counters with
  | nil => rfl
  | cons a before ih =>
    rw [run_cons, ih, hstep]
    cases hop : op a with
    | none => simp [hop]
    | some o => simp [hop]

theorem requests_rivals {op : Arrival → Option Op} {p : Request → Bool}
    (hrequest : ∀ r, op (.request r) =
      if p r = true ∧ r.api = true then some (.check r.now (Index.clientIp r)) else none)
    (hsweep : ∀ now, op (.sweep now) = some (.sweep now)) (r : Request) (before : List Arrival) :
    requests window (Index.clientIp r) (windowEndOf window r.now) (before.filterMap op) =
      before.countP fun
        | .request r' => p r' ∧ r.Rival window r'
        | .sweep _ => false := by
  induction before with
  | nil => rfl
  | cons a before ih =>
    cases a with
    | sweep now =>
      rw [List.filterMap_cons, hsweep]
      exact ih
    | request r' =>
      rw [List.filterMap_cons, hrequest, List.countP_cons, ← ih]
      by_cases hp : p r' = true ∧ r'.api = true
      · rw [if_pos hp]
        simp [requests, List.countP_cons, Request.Rival, hp]
      · rw [if_neg hp]
        have hrival : ¬ (p r' = true ∧ r.Rival window r') := fun h => hp ⟨h.1, h.2.1⟩
        simp [hrival]

theorem requests_index (r : Request) (before : List Arrival) :
    requests window (Index.clientIp r) (windowEndOf window r.now) (before.filterMap Index.op) =
      rivals window r false before := by
  rw [requests_rivals (p := fun r => !r.options) (fun r => by simp [Index.op]) (fun _ => rfl)]
  refine List.countP_congr fun a _ => ?_
  cases a <;> simp [and_comm]

theorem requests_gleam (r : Request) (before : List Arrival) :
    requests window (Index.clientIp r) (windowEndOf window r.now) (before.filterMap Gleam.op) =
      rivals window r false before + rivals window r true before := by
  rw [requests_rivals (p := fun _ => true) (fun r => by simp [Gleam.op]) (fun _ => rfl), rivals,
    rivals]
  induction before with
  | nil => rfl
  | cons a before ih =>
    rw [List.countP_cons, List.countP_cons, List.countP_cons, ih]
    cases a with
    | sweep now => rfl
    | request r' =>
      cases hoptions : r'.options <;> by_cases hrival : r.Rival window r' <;>
        simp [hrival, hoptions] <;> omega

theorem ops_past {before after : List Arrival} {r : Request} {op : Arrival → Option Op}
    (hop : ∀ a o, op a = some o → o.now = a.now)
    (h : ((before ++ .request r :: after).map Arrival.now).Pairwise (· ≤ ·)) :
    ∀ o ∈ before.filterMap op, o.now ≤ r.now := by
  intro o ho
  obtain ⟨a, ha, hoa⟩ := List.mem_filterMap.1 ho
  rw [List.map_append, List.map_cons, List.pairwise_append] at h
  rw [hop a o hoa]
  exact h.2.2 a.now (List.mem_map_of_mem ha) r.now (List.mem_cons_self ..)

theorem index_now (a : Arrival) (o : Op) (h : Index.op a = some o) : o.now = a.now := by
  cases a with
  | sweep now => cases h; rfl
  | request r =>
    rw [Index.op] at h
    split at h
    · cases h; rfl
    · cases h

theorem gleam_now (a : Arrival) (o : Op) (h : Gleam.op a = some o) : o.now = a.now := by
  cases a with
  | sweep now => cases h; rfl
  | request r =>
    rw [Gleam.op] at h
    split at h
    · cases h; rfl
    · cases h

end Counting

section Answers

variable (limit : ℤ) (window : ℕ)

/-- How the two copies answer a request, and when they answer it alike. -/
structure Routed (before : List Arrival) (r : Request) : Prop where
  index : Index.answer limit window before r =
    if r.options then preflight r
    else if r.api ∧ limit < rivals window r false before + 1 then
      .tooMany (windowEndOf window r.now - r.now)
    else Index.dispatch r.segments
  gleam : Gleam.answer limit window before r =
    if r.api ∧ limit < rivals window r false before + rivals window r true before + 1 then
      .tooMany (windowEndOf window r.now - r.now)
    else if r.options then preflight r
    else Index.dispatch r.segments
  agree : Index.answer limit window before r = Gleam.answer limit window before r ↔
    r.api = false ∨ rivals window r false before + rivals window r true before + 1 ≤ limit ∨
      r.options = false ∧ limit < rivals window r false before + 1

variable {limit window}

theorem index_answer (hwindow : 0 < window) {before after : List Arrival} {r : Request}
    (h : ((before ++ .request r :: after).map Arrival.now).Pairwise (· ≤ ·)) :
    Index.answer limit window before r =
      if r.options then preflight r
      else if r.api ∧ limit < rivals window r false before + 1 then
        .tooMany (windowEndOf window r.now - r.now)
      else Index.dispatch r.segments := by
  have hdecision : (check stringSlots limit window
      (run (RateLimit.step stringSlots limit window) Table.empty (before.filterMap Index.op)) r.now
      (Index.clientIp r)).1 = verdict limit window (rivals window r false before + 1) r.now := by
    rw [← requests_index]
    exact decision_eq hwindow (ops_past index_now h) (Index.clientIp r)
  rw [Index.answer, run_ops limit (Index.step_op limit), Index.route]
  cases r.options with
  | true => rfl
  | false =>
    by_cases hapi : r.segments[0]? = some "api"
    · have hcheck : r.api = true := by simpa [Request.api] using hapi
      rw [if_neg Bool.false_ne_true, if_neg Bool.false_ne_true, if_pos hapi, hcheck]
      revert hdecision
      generalize check stringSlots limit window _ r.now (Index.clientIp r) = checked
      obtain ⟨d, counters⟩ := checked
      rintro rfl
      simp only [verdict, true_and]
      push_cast
      split_ifs <;> first | rfl | omega
    · have hfree : r.api = false := by simpa [Request.api] using hapi
      simp [hapi, hfree]

theorem gleam_answer (hwindow : 0 < window) {before after : List Arrival} {r : Request}
    (h : ((before ++ .request r :: after).map Arrival.now).Pairwise (· ≤ ·)) :
    Gleam.answer limit window before r =
      if r.api ∧ limit < rivals window r false before + rivals window r true before + 1 then
        .tooMany (windowEndOf window r.now - r.now)
      else if r.options then preflight r
      else Index.dispatch r.segments := by
  have hdecision : (check pairSlots limit window
      (run (RateLimit.step pairSlots limit window) Table.empty (before.filterMap Gleam.op)) r.now
      (Gleam.clientIp r)).1 = verdict limit window
        (rivals window r false before + rivals window r true before + 1) r.now := by
    rw [← requests_gleam, ← clientIp_eq]
    exact decision_eq hwindow (ops_past gleam_now h) (Index.clientIp r)
  have hroute : Gleam.route r = if r.options then preflight r else Index.dispatch r.segments := by
    cases hoptions : r.options with
    | true => rw [Gleam.route, hoptions]; rfl
    | false => exact dispatch_eq hoptions
  rw [Gleam.answer, run_ops limit (Gleam.step_op limit), Gleam.handle, Gleam.rateCheck]
  rcases hs : r.segments with _ | ⟨a, rest⟩
  · simp [Request.api, hs, hroute]
  · by_cases ha : a = "api"
    · subst ha
      have hcheck : r.api = true := by simp [Request.api, hs]
      rw [hcheck]
      revert hdecision
      generalize check pairSlots limit window _ r.now (Gleam.clientIp r) = checked
      obtain ⟨d, counters⟩ := checked
      rintro rfl
      simp only [verdict, true_and]
      push_cast
      rw [hroute, hs]
      split_ifs <;> first | rfl | omega
    · have hfree : r.api = false := by simp [Request.api, hs, ha]
      simp [hfree, hroute, hs, ha]

theorem dispatch_ne (r : Request) (n : ℕ) (t : List Char) :
    Index.dispatch r.segments ≠ .tooMany n ∧ Index.dispatch r.segments ≠ .preflight t := by
  unfold Index.dispatch
  split_ifs <;> exact ⟨nofun, nofun⟩

/-- A stream of one client, behind a preflight or not. -/
def streamOf (now : ℕ) (options : Bool) : Request where
  now
  options
  segments := ["api", "stream"]
  forwardedFor := some ⟨"10.0.0.1 , 10.0.0.2".toList, fun c hc => of_decide_eq_true
    (List.all_eq_true.1 (rfl : "10.0.0.1 , 10.0.0.2".toList.all (·.toNat < 128) = true) c hc)⟩
  realIp := none
  peer := none
  askedHeaders := none

end Answers

end Atradio.Proxy.Router
