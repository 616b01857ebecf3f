import Atradio.Lib.Run
import Atradio.Lib.Table

/-! # Audio settings and the repository on mobile (`components/AudioSettingsSync.tsx`)

A render reads the atoms and the query; its effects run later, each when one of its dependencies
has changed, and before the next render. The refs are the only thing the effects share. -/

namespace Atradio.App.AudioSync
open Atradio.Lib

/-- The account; `did` is none unless someone is signed in. -/
structure View where
  did : Option String
  canSync : Bool
deriving DecidableEq

/-- An object with its identity, which is what dependencies compare. -/
structure Held (σ : Type) where
  id : ℕ
  value : σ

inductive Status where
  | pending
  | success
  | error
deriving DecidableEq

/-- The query of one key. Its data are undefined at first, and null without a record. -/
structure Query (δ : Type) where
  status : Status
  fetching : Bool
  data : Option (Held (Option δ))

def Query.initial {δ : Type} : Query δ := ⟨.pending, false, none⟩

def Query.start {δ : Type} (q : Query δ) : Query δ :=
  { q with fetching := true, status := if q.data.isNone then .pending else q.status }

/-- What `useQuery` returns. -/
structure Remote (δ : Type) where
  isSuccess : Bool
  isFetching : Bool
  data : Option (Held (Option δ))

structure Snapshot (σ δ : Type) where
  view : View
  settings : Option (Held σ)
  revision : ℕ
  retry : ℕ
  remote : Remote δ

/-- The closure of a save effect that has set its timer. -/
structure Saver (σ : Type) where
  id : ℕ
  did : String
  settings : Held σ

structure State (σ κ δ : Type) where
  auth : View
  settings : Option (Held σ)
  revision : ℕ
  retry : ℕ
  cache : View → Query δ
  /-- The render whose effects have run last. -/
  seen : Option (Snapshot σ δ)
  /-- The render whose effects are still to run. -/
  rendered : Option (Snapshot σ δ)
  restored : Option String
  baseline : ℕ
  lastSaved : Option κ
  writeBusy : Bool
  /-- The last save effect, unless it returned at once or was cleaned up. -/
  saver : Option (Saver σ)
  timer : Bool
  retryTimer : Bool
  writes : Table (Saver.id (σ := σ))
  /-- What the repositories hold. -/
  records : String → Option κ
  objects : ℕ
  savers : ℕ

inductive Event (σ δ : Type) where
  | auth (view : View)
  /-- `getEqualizer` answers. -/
  | loaded (value : σ)
  /-- A slider moves; its value counts as a revision when it is let go (`complete`). -/
  | drag (value : σ)
  | complete
  | edit (value : σ)
  | render
  | effects
  /-- The answer to the fetch of a key, none for a failure. `shared` data keep their identity. -/
  | fetched (key : View) (answer : Option (Option δ)) (shared : Bool)
  | refetch (key : View)
  | evict (key : View)
  | fire
  | saved (id : ℕ) (ok : Bool)
  | retryFire

variable {σ κ δ : Type}

def Snapshot.enabled (n : Snapshot σ δ) : Bool := n.view.did.isSome && n.settings.isSome

/-- The observer was enabled for the key already, so that no fetch starts. -/
def observed (seen : Option (Snapshot σ δ)) (view : View) : Bool :=
  seen.any fun n => n.view = view && n.enabled

/-- A fetch that the effects will start shows in the render. -/
def State.snapshot (s : State σ κ δ) : Snapshot σ δ where
  view := s.auth
  settings := s.settings
  revision := s.revision
  retry := s.retry
  remote := {
    isSuccess := (s.cache s.auth).status = .success
    isFetching := (s.cache s.auth).fetching ||
      (s.auth.did.isSome && s.settings.isSome && !observed s.seen s.auth)
    data := (s.cache s.auth).data }

def State.setQuery (s : State σ κ δ) (key : View) (q : Query δ) : State σ κ δ :=
  { s with cache := fun view => if view = key then q else s.cache view }

def State.setSettings (s : State σ κ δ) (value : σ) : State σ κ δ :=
  { s with settings := some ⟨s.objects, value⟩, objects := s.objects + 1 }

/-! ### Effects -/

/-- The effect of `useQuery`: with `staleTime` 0 a newly observed key is fetched. -/
def observe (n : Snapshot σ δ) (s : State σ κ δ) : State σ κ δ :=
  if n.enabled && !observed s.seen n.view then
    s.setQuery n.view (s.cache n.view).start
  else s

def sameView (seen : Option (Snapshot σ δ)) (n : Snapshot σ δ) : Bool :=
  seen.any fun m => m.view = n.view

def sameRemote (seen : Option (Snapshot σ δ)) (n : Snapshot σ δ) : Bool :=
  seen.any fun m => m.view = n.view && m.remote.isSuccess = n.remote.isSuccess &&
    m.remote.isFetching = n.remote.isFetching &&
    m.remote.data.map Held.id = n.remote.data.map Held.id

def sameSave (seen : Option (Snapshot σ δ)) (n : Snapshot σ δ) : Bool :=
  seen.any fun m => m.view = n.view && m.settings.map Held.id = n.settings.map Held.id &&
    m.revision = n.revision && m.remote.isSuccess = n.remote.isSuccess && m.retry = n.retry

def cleanUp (n : Snapshot σ δ) (s : State σ κ δ) : State σ κ δ :=
  if sameSave s.seen n then s
  else { s with saver := none, timer := false, retryTimer := false }

def reset (n : Snapshot σ δ) (s : State σ κ δ) : State σ κ δ :=
  if sameView s.seen n then s
  else { s with restored := none, baseline := n.revision, lastSaved := none }

variable (key : σ → κ) (fromRepo : δ → σ → σ)

/-- Remote wins on login. -/
def restore (n : Snapshot σ δ) (s : State σ κ δ) : State σ κ δ :=
  if sameRemote s.seen n then s
  else match n.view.did, n.settings with
    | some did, some current =>
      if s.restored = some did || !n.remote.isSuccess || n.remote.isFetching then s
      else match n.remote.data.bind Held.value with
        | some data =>
          { s.setSettings (fromRepo data current.value) with
            restored := some did, baseline := n.revision
            lastSaved := some (key (fromRepo data current.value)) }
        | none =>
          { s with
            settings := some current
            restored := some did, baseline := n.revision, lastSaved := some (key current.value) }
    | _, _ => s

variable [DecidableEq κ]

def save (n : Snapshot σ δ) (s : State σ κ δ) : State σ κ δ :=
  if sameSave s.seen n then s
  else match n.view.did, n.settings with
    | some did, some settings =>
      if !n.view.canSync || s.restored ≠ some did || n.revision = s.baseline ||
          some (key settings.value) = s.lastSaved then s
      else { s with saver := some ⟨s.savers, did, settings⟩, savers := s.savers + 1, timer := true }
    | _, _ => s

/-- Every cleanup runs before the effects, these in their order. -/
def runEffects (s : State σ κ δ) : State σ κ δ :=
  match s.rendered with
  | none => s
  | some n =>
    { save key n (restore key fromRepo n (reset n (cleanUp n (observe n s)))) with
      seen := some n, rendered := none }

/-! ### Timers and answers -/

def fire (s : State σ κ δ) : State σ κ δ :=
  match s.saver with
  | none => s
  | some saver =>
    if s.timer then
      if s.writeBusy then { s with timer := false, retry := s.retry + 1 }
      else { s with timer := false, writeBusy := true, writes := s.writes.put saver }
    else s

def State.live (s : State σ κ δ) (saver : Saver σ) : Bool := s.saver.any fun c => c.id = saver.id

def saved (s : State σ κ δ) (id : ℕ) (ok : Bool) : State σ κ δ :=
  match s.writes.get id with
  | none => s
  | some saver =>
    { s with
      writes := s.writes.delete id, writeBusy := false
      records := fun did =>
        if ok && did = saver.did then some (key saver.settings.value) else s.records did
      lastSaved := if ok && s.live saver then some (key saver.settings.value) else s.lastSaved
      retryTimer := s.retryTimer || s.live saver }

def fetched (s : State σ κ δ) (view : View) (answer : Option (Option δ)) (shared : Bool) :
    State σ κ δ :=
  let q := s.cache view
  if q.fetching then
    match answer with
    | none => s.setQuery view { q with status := .error, fetching := false }
    | some value =>
      let id := match q.data with
        | some data => if shared then data.id else s.objects
        | none => s.objects
      { s.setQuery view ⟨.success, false, some ⟨id, value⟩⟩ with objects := s.objects + 1 }
  else s

/-- The controls are shown once there are settings. -/
def step (s : State σ κ δ) : Event σ δ → State σ κ δ
  | .auth view => { s with auth := view }
  | .loaded value => if s.settings.isNone then s.setSettings value else s
  | .drag value => if s.settings.isSome then s.setSettings value else s
  | .complete => if s.settings.isSome then { s with revision := s.revision + 1 } else s
  | .edit value =>
    if s.settings.isSome then { s.setSettings value with revision := s.revision + 1 } else s
  | .render =>
    let s' := runEffects key fromRepo s
    { s' with rendered := some s'.snapshot }
  | .effects => runEffects key fromRepo s
  | .fetched view answer shared => fetched s view answer shared
  | .refetch view => if observed s.seen view then s.setQuery view (s.cache view).start else s
  | .evict view =>
    if (s.cache view).fetching || s.seen.any fun n => n.view = view then s
    else s.setQuery view .initial
  | .fire => fire s
  | .saved id ok => saved key s id ok
  | .retryFire => if s.retryTimer then { s with retryTimer := false, retry := s.retry + 1 } else s

def State.init (auth : View) (records : String → Option κ) : State σ κ δ where
  auth := auth
  settings := none
  revision := 0
  retry := 0
  cache := fun _ => .initial
  seen := none
  rendered := none
  restored := none
  baseline := 0
  lastSaved := none
  writeBusy := false
  saver := none
  timer := false
  retryTimer := false
  writes := Table.empty
  records := records
  objects := 0
  savers := 0

end Atradio.App.AudioSync
