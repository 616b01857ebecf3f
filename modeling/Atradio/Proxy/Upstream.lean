import Atradio.Lib.Table
import Atradio.Proxy.Chunked

/-! # Responses of an upstream (`upstream.ts`)

What the proxy reads in a URL and in a response head. `URL` itself is a parameter. -/

namespace Atradio.Proxy
open Atradio.Lib Atradio.Lexicons

/-- The fields of a `URL` that are read; the port is none where it is empty. -/
structure Url where
  protocol : String
  hostname : String
  port : Option ℕ
  pathname : String
  search : String

/-- `new URL(url)` and `new URL(loc, base).toString()`, none where they throw. -/
structure Urls where
  parse : String → Option Url
  resolve : String → String → Option String

inductive Scheme where
  | http
  | https
deriving DecidableEq

structure Target where
  scheme : Scheme
  host : String
  port : ℕ
  path : String

def Url.target (u : Url) (scheme : Scheme) (defaultPort : ℕ) : Target where
  scheme := scheme
  host := u.hostname
  port := u.port.getD defaultPort
  path := (if u.pathname = "" then "/" else u.pathname) ++ u.search

def parseUrl (urls : Urls) (url : String) : Option Target := do
  let u ← urls.parse url
  if u.protocol = "https:" then some (u.target .https 443)
  else if u.protocol = "http:" then some (u.target .http 80)
  else none

def resolveLocation (urls : Urls) (base loc : String) : String := (urls.resolve loc base).getD loc

def UPSTREAM_USER_AGENT : String := "atradio.fm/1.0"

def hostHeader (t : Target) : String :=
  if (t.scheme = .https && t.port = 443) || (t.scheme = .http && t.port = 80) then t.host
  else t.host ++ ":" ++ toString t.port

/-- What is written to the socket when it has connected. -/
def request (t : Target) (reqHeaders : List (String × String)) : String :=
  "\r\n".intercalate (["GET " ++ t.path ++ " HTTP/1.1", "Host: " ++ hostHeader t,
    "User-Agent: " ++ UPSTREAM_USER_AGENT, "Accept: */*"] ++
    (reqHeaders.map fun h => h.1 ++ ": " ++ h.2) ++ ["Connection: close", "", ""])

/-! ### The head of a response -/

/-- `split` at a separator; `n` bounds the number of cuts. -/
def pieces (sep : List Char) : ℕ → List Char → List (List Char)
  | 0, s => [s]
  | n + 1, s =>
    match cut sep s with
    | none => [s]
    | some (x, y) => x :: pieces sep n y

/-- `toLowerCase` on Latin-1. -/
def lower (c : Char) : Char :=
  if ('A' ≤ c ∧ c ≤ 'Z') ∨ (0xC0 ≤ c.toNat ∧ c.toNat ≤ 0xDE ∧ c.toNat ≠ 0xD7) then
    Char.ofNat (c.toNat + 32)
  else c

def toLowerCase (s : String) : String := String.ofList (s.toList.map lower)

/-- What follows a word, which is given in lower case. -/
def skipWord : List Char → List Char → Option (List Char)
  | [], s => some s
  | c :: word, d :: s => if d.toLower = c then skipWord word s else none
  | _ :: _, [] => none

theorem skipWord_eq_some {word s rest : List Char} :
    skipWord word s = some rest ↔ ∃ x, s = x ++ rest ∧ x.map Char.toLower = word := by
  induction word generalizing s with
  | nil =>
    constructor
    · rintro h
      obtain rfl := Option.some.inj h
      exact ⟨[], rfl, rfl⟩
    · rintro ⟨x, rfl, hx⟩
      rw [List.map_eq_nil_iff.1 hx]
      rfl
  | cons a word ih =>
    cases s with
    | nil =>
      constructor
      · intro h
        cases h
      · rintro ⟨x, hx, hlower⟩
        obtain ⟨rfl, _⟩ := List.append_eq_nil_iff.1 hx.symm
        cases hlower
    | cons c s =>
      rw [skipWord]
      constructor
      · intro h
        split at h
        · rename_i hc
          obtain ⟨x, rfl, hx⟩ := ih.1 h
          exact ⟨c :: x, rfl, by rw [List.map_cons, hx, hc]⟩
        · cases h
      · rintro ⟨x, hx, hlower⟩
        cases x with
        | nil => cases hlower
        | cons d x =>
          obtain ⟨rfl, rfl⟩ := List.cons.inj hx
          obtain ⟨hc, hx⟩ := List.cons.inj hlower
          rw [if_pos hc]
          exact ih.2 ⟨x, rfl, hx⟩

/-- `\d(?:\.\d)?` -/
def skipVersion : List Char → Option (List Char)
  | [] => none
  | d :: s =>
    if d.isDigit then
      match s with
      | '.' :: e :: s' => if e.isDigit then some s' else some s
      | _ => some s
    else none

def digits3 : List Char → Option ℕ
  | a :: b :: c :: _ =>
    if a.isDigit && b.isDigit && c.isDigit then
      some (100 * (a.toNat - 48) + 10 * (b.toNat - 48) + (c.toNat - 48))
    else none
  | _ => none

/-- `^(?:HTTP\/\d(?:\.\d)?|ICY)\s+(\d{3})` whatever the case. -/
def statusOf (line : List Char) : Option ℕ := do
  let s ← ((skipWord "http/".toList line).bind skipVersion).or (skipWord "icy".toList line)
  let t := s.dropWhile (· ∈ whitespace)
  if t.length = s.length then none else digits3 t

abbrev Headers := JsMap String String

def addHeader (headers : Headers) (line : List Char) : Headers :=
  match cut [':'] line with
  | none => headers
  | some (name, value) =>
    let name := toLowerCase (trim (String.ofList name))
    if (headers.find name).isSome then headers
    else headers.set name (trim (String.ofList value))

def parseHead (head : List Char) : Option (ℕ × Headers) :=
  match pieces ['\r', '\n'] head.length head with
  | [] => none
  | statusLine :: lines =>
    (statusOf statusLine).map fun status => (status, lines.foldl addHeader Table.empty)

def isBodiless (status : ℕ) (headers : Headers) : Bool :=
  status = 204 || status = 304 || headers.find "content-length" = some "0"

def isChunked (headers : Headers) : Bool :=
  (cut "chunked".toList (toLowerCase ((headers.find "transfer-encoding").getD "")).toList).isSome

/-- What `open` makes of a head. -/
inductive Answer where
  | badStatusLine
  | redirect (next : String)
  | response (status : ℕ) (headers : Headers) (fin chunked : Bool)

def answer (urls : Urls) (url : String) (head : List UInt8) : Answer :=
  match parseHead (latin1 head) with
  | none => .badStatusLine
  | some (status, headers) =>
    match (if 300 ≤ status && status < 400 then headers.find "location" else none) with
    | some loc => .redirect (resolveLocation urls url loc)
    | none => .response status headers (isBodiless status headers) (isChunked headers)

/-! ### Reading up to the head -/

def blankLine : List UInt8 := [13, 10, 13, 10]

inductive Received where
  | more (buf : List UInt8)
  | tooLarge
  | head (text leftover : List UInt8)

def receive (buf chunk : List UInt8) : Received :=
  match cut blankLine (buf ++ chunk) with
  | some (text, leftover) => .head text leftover
  | none => if 64 * 1024 < (buf ++ chunk).length then .tooLarge else .more (buf ++ chunk)

end Atradio.Proxy
