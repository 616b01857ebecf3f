import Atradio.Discord.Format
import Atradio.Lib.Run
import Atradio.Web.Player
import Atradio.Web.Resolve

/-! # The two backends of the player (`components/Player.tsx`)

A stream is played by the Rockbox engine or by the `<audio>` element. The atoms change at once; the
effects of the component run when it renders, and each load of a station goes on by itself. -/

namespace Atradio.Web
open Atradio.Connect Atradio.Discord Atradio.Lexicons Atradio.Lib Atradio.Proxy

/-- What the browser and the packages decide: whether the element plays HLS by itself, and whether
`stop` empties the queue of the engine. -/
structure Env where
  MEDIA_PROXY : String
  canPlayHls : Bool
  stopEmpties : Bool

structure ResolvedStream where
  url : String
  isHls : Bool

def proxiedStreamUrl (env : Env) (url : String) : String :=
  if isHlsUrl url.toList then url
  else if (afterScheme url.toList).isNone then url
  else env.MEDIA_PROXY ++ "/api/stream?url=" ++ encodeURIComponent url

/-- `station.source === "tunein" || /Tune\.ashx/i.test(url)` -/
def looksLikePlaylist (station : Station) : Bool :=
  station.source = .tunein ||
    station.streamUrl.toList.tails.any fun s => (skipWord "tune.ashx".toList s).isSome

/-- `body` is what the fetch of a playlist comes back with, if it does. -/
def resolveStream (station : Station) (body : Option String) : ResolvedStream :=
  let url := station.streamUrl
  let resolved :=
    if looksLikePlaylist station && !isHlsUrl url.toList then
      body.bind fun body => firstUrlFromPlaylist body.toList
    else none
  match resolved with
  | some resolved => ⟨String.ofList resolved, isHlsUrl resolved⟩
  | none => ⟨url, isHlsUrl url.toList⟩

def playUrlOf (env : Env) (stream : ResolvedStream) : String :=
  if stream.isHls then stream.url else proxiedStreamUrl env stream.url

inductive Engine where
  | rockbox
  | native
  deriving DecidableEq

structure RockboxPlayer where
  ready : Bool
  queue : Option String
  sounding : Bool

namespace RockboxPlayer

def stop (env : Env) (r : RockboxPlayer) : RockboxPlayer :=
  if r.ready then
    { r with sounding := false, queue := if env.stopEmpties then none else r.queue }
  else r

def play (r : RockboxPlayer) : RockboxPlayer := { r with sounding := r.queue.isSome }

def pause (r : RockboxPlayer) : RockboxPlayer := { r with sounding := false }

/-- `setQueue([url], true)` -/
def setQueue (r : RockboxPlayer) (url : String) : RockboxPlayer :=
  { r with queue := some url, sounding := true }

def sounds (r : RockboxPlayer) : Option String := if r.sounding then r.queue else none

end RockboxPlayer

/-- `allowed` is the autoplay policy of the browser. -/
structure AudioElement where
  src : Option String
  paused : Bool
  allowed : Bool

namespace AudioElement

/-- An element that has a source is paused when it loads another. -/
def setSrc (a : AudioElement) (url : String) : AudioElement :=
  { a with src := some url, paused := a.paused || a.src.isSome }

def load (a : AudioElement) : AudioElement := { a with paused := a.paused || a.src.isSome }

def play (a : AudioElement) : AudioElement := { a with paused := a.paused && !a.allowed }

def pause (a : AudioElement) : AudioElement := { a with paused := true }

/-- `pause()`, `removeAttribute("src")` and `load()` -/
def clear (a : AudioElement) : AudioElement := { a with src := none, paused := true }

def sounds (a : AudioElement) : Option String := if a.paused then none else a.src

end AudioElement

/-- Where the asynchronous part of the load effect stands. -/
inductive LoadPhase where
  | resolving
  | importing (playUrl : String)
  | booting (playUrl : String)
  | over (playUrl : String)

def LoadPhase.playUrl : LoadPhase → Option String
  | .resolving => none
  | .importing url | .booting url | .over url => some url

def LoadPhase.waits : LoadPhase → Bool
  | .over _ => false
  | _ => true

/-- A run of the load effect, with the station it was started for. -/
structure Load where
  station : Station
  cancelled : Bool
  phase : LoadPhase

/-- The dependencies of the effects when the component rendered last. -/
structure Rendered where
  stationId : Option String
  isPlaying : Bool
  remoteActive : Bool

/-- The loads are listed with the latest one first. -/
structure PlayerView where
  atoms : Player
  rendered : Rendered
  engineRef : Option Engine
  currentUrlRef : Option String
  fallbackUrlRef : Option String
  hlsRef : Bool
  audio : AudioElement
  rockbox : RockboxPlayer
  loads : List Load

/-- The continuations name a load by the number of loads started since. -/
inductive PlayerEvent where
  | transport (action : Transport)
  | selectDevice (deviceId : Option String)
  | applyCommand (cmd : Command)
  | setDevices (devices : List (DeviceInfo protocol))
  | mediaSession (playing : Bool)
  | handleStop
  | render (same : Bool)
  | resolved (age : ℕ) (body : Option String)
  | imported (age : ℕ) (supported : Option Bool)
  | booted (age : ℕ) (ok : Bool)
  | engineReady
  | enginePlaying
  | engineError
  | hlsError
  | audioPlaying
  | audioWaiting
  | audioError
  | audioEnded
  | autoplay (allowed : Bool)

namespace PlayerView

def new (volume : ℚ) (muted allowed : Bool) : PlayerView where
  atoms := Player.new volume muted
  rendered := ⟨none, false, false⟩
  engineRef := none
  currentUrlRef := none
  fallbackUrlRef := none
  hlsRef := false
  audio := ⟨none, true, allowed⟩
  rockbox := ⟨false, none, false⟩
  loads := []

def setStatus (p : PlayerView) (status : PlaybackStatus) : PlayerView :=
  { p with atoms := { p.atoms with playbackStatus := status } }

def setIsPlaying (p : PlayerView) (playing : Bool) : PlayerView :=
  { p with atoms := { p.atoms with isPlaying := playing } }

def fallbackToNative (env : Env) (p : PlayerView) (url : String) : PlayerView :=
  { p.setStatus .loading with
    rockbox := p.rockbox.stop env
    engineRef := some .native
    audio := ((p.audio.setSrc url).load).play }

def onError (env : Env) (p : PlayerView) : PlayerView :=
  if p.engineRef ≠ some .rockbox then p
  else match p.currentUrlRef with
    | some url =>
      if p.fallbackUrlRef ≠ some url then
        fallbackToNative env { p with fallbackUrlRef := some url } url
      else (p.setStatus .error).setIsPlaying false
    | none => (p.setStatus .error).setIsPlaying false

/-- The cleanup of the load effect. -/
def cancel (p : PlayerView) : PlayerView :=
  { p with loads := match p.loads with
    | [] => []
    | l :: older => { l with cancelled := true } :: older }

def loadEffect (env : Env) (p : PlayerView) (station : Station) : PlayerView :=
  { p with
    atoms := { p.atoms with playbackStatus := .loading, nowPlaying := none }
    engineRef := none
    fallbackUrlRef := none
    hlsRef := false
    audio := p.audio.clear
    rockbox := p.rockbox.stop env
    loads := ⟨station, false, .resolving⟩ :: p.loads }

/-- The play/pause effect, on the backend that is active. -/
def playEffect (p : PlayerView) : PlayerView :=
  if p.atoms.currentStation.isNone then p
  else if p.engineRef = some .rockbox then
    if !p.rockbox.ready then p
    else { p with rockbox := if p.atoms.isPlaying then p.rockbox.play else p.rockbox.pause }
  else { p with audio := if p.atoms.isPlaying then p.audio.play else p.audio.pause }

/-- The deps of a render. -/
def deps (p : PlayerView) : Rendered :=
  ⟨p.atoms.currentStation.map (·.id), p.atoms.isPlaying, p.atoms.isRemoteActive⟩

def reload (env : Env) (p : PlayerView) : PlayerView :=
  match p.atoms.currentStation with
  | none => p.cancel
  | some station => p.cancel.loadEffect env station

def moved (p : PlayerView) : Bool := p.deps.stationId ≠ p.rendered.stationId

/-- `same` says that the station is the object it was. -/
def replays (p : PlayerView) (same : Bool) : Bool :=
  p.moved || !same || p.deps.isPlaying ≠ p.rendered.isPlaying

/-- A remote device takes over. -/
def handsOff (p : PlayerView) : Bool :=
  p.deps.remoteActive ≠ p.rendered.remoteActive && p.deps.remoteActive && p.deps.isPlaying

/-- The effects in their order. -/
def render (env : Env) (p : PlayerView) (same : Bool) : PlayerView :=
  let loaded := if p.moved then p.reload env else p
  let played := if p.replays same then loaded.playEffect else loaded
  let silenced := if p.handsOff then played.setIsPlaying false else played
  { silenced with rendered := p.deps }

def handleStop (env : Env) (p : PlayerView) : PlayerView :=
  { p with
    atoms := { p.atoms with isPlaying := false, playbackStatus := .idle, nowPlaying := none }
    rockbox := p.rockbox.stop env
    audio := p.audio.clear }

/-- The load of this age, unless it has been cancelled. -/
def live (p : PlayerView) (age : ℕ) : Option Load := p.loads[age]?.filter fun l => !l.cancelled

def setPhase (p : PlayerView) (age : ℕ) (l : Load) (phase : LoadPhase) : PlayerView :=
  { p with loads := p.loads.set age { l with phase } }

/-- `resolveStream` has returned. -/
def resolved (env : Env) (p : PlayerView) (age : ℕ) (body : Option String) : PlayerView :=
  match p.live age with
  | some l =>
    match l.phase with
    | .resolving =>
      let stream := resolveStream l.station body
      let playUrl := playUrlOf env stream
      let p := { p with currentUrlRef := some playUrl }
      if stream.isHls then
        let p := { p with engineRef := some .native }
        if env.canPlayHls then
          { p with audio := ((p.audio.setSrc playUrl).load).play }.setPhase age l (.over playUrl)
        else p.setPhase age l (.importing playUrl)
      else p.setPhase age l (.booting playUrl)
    | _ => p
  | none => p

/-- `hls.js` has been imported, or could not be. -/
def imported (p : PlayerView) (age : ℕ) (supported : Option Bool) : PlayerView :=
  match p.live age with
  | some l =>
    match l.phase with
    | .importing playUrl =>
      match supported with
      | some supported =>
        { p with hlsRef := supported, audio := (p.audio.setSrc playUrl).play }.setPhase age l
          (.over playUrl)
      | none => (p.setStatus .error).setPhase age l (.over playUrl)
    | _ => p
  | none => p

/-- The engine has booted, or could not. -/
def booted (env : Env) (p : PlayerView) (age : ℕ) (ok : Bool) : PlayerView :=
  match p.live age with
  | some l =>
    match l.phase with
    | .booting playUrl =>
      if ok then
        { p with
          engineRef := some .rockbox
          rockbox := { p.rockbox with ready := true }.setQueue playUrl }.setPhase age l
            (.over playUrl)
      else
        (fallbackToNative env { p with fallbackUrlRef := some playUrl } playUrl).setPhase age l
          (.over playUrl)
    | _ => p
  | none => p

def step (env : Env) (p : PlayerView) : PlayerEvent → PlayerView
  | .transport action => { p with atoms := (p.atoms.transport action).1 }
  | .selectDevice deviceId => { p with atoms := (p.atoms.selectDevice deviceId).1 }
  | .applyCommand cmd => { p with atoms := p.atoms.applyCommand cmd }
  | .setDevices devices => { p with atoms := { p.atoms with devices } }
  | .mediaSession playing => p.setIsPlaying playing
  | .handleStop => p.handleStop env
  | .render same => p.render env same
  | .resolved age body => p.resolved env age body
  | .imported age supported => p.imported age supported
  | .booted age ok => p.booted env age ok
  | .engineReady => { p with rockbox := { p.rockbox with ready := true } }
  | .enginePlaying => if p.engineRef ≠ some .rockbox then p else p.setStatus .playing
  | .engineError => p.onError env
  | .hlsError => if p.hlsRef then p.setStatus .error else p
  | .audioPlaying => p.setStatus .playing
  | .audioWaiting => p.setStatus .loading
  | .audioError =>
    if p.engineRef ≠ some .native then p else (p.setStatus .error).setIsPlaying false
  | .audioEnded => { p with audio := p.audio.pause }.setIsPlaying false
  | .autoplay allowed => { p with audio := { p.audio with allowed } }

def sounds (p : PlayerView) : Engine → Option String
  | .rockbox => p.rockbox.sounds
  | .native => p.audio.sounds

/-- The URL the latest load has come to. -/
def loadedUrl (p : PlayerView) : Option String := p.loads.head?.bind fun l => l.phase.playUrl

/-- Only the latest load can still go on, nothing sounds before it has started a backend, and both
backends have no other URL than its own. -/
structure Sound (env : Env) (p : PlayerView) : Prop where
  older : ∀ l ∈ p.loads.tail, l.cancelled = true
  urls : ∀ l ∈ p.loads, ∀ url, l.phase.playUrl = some url →
    ∃ body, url = playUrlOf env (resolveStream l.station body)
  element : p.engineRef = some .rockbox → p.audio.src = none
  engine : p.engineRef ≠ some .rockbox → p.rockbox.sounding = false
  ready : p.rockbox.sounding = true → p.rockbox.ready = true
  waiting : ∀ l, p.loads.head? = some l → l.phase.waits = true →
    p.engineRef ≠ some .rockbox ∧ p.audio.src = none
  source : ∀ url, p.audio.src = some url → p.loadedUrl = some url
  queue : p.engineRef = some .rockbox → ∀ url, p.rockbox.queue = some url → p.loadedUrl = some url
  current : ∀ url, p.currentUrlRef = some url → p.loadedUrl = some url ∨
    p.engineRef = none ∧ ∃ l, p.loads.head? = some l ∧ l.phase = .resolving

/-- What of the loads is not theirs to change. -/
def tags (p : PlayerView) : List (Station × Bool) := p.loads.map fun l => (l.station, l.cancelled)

/-- The latest load is the one of the station that was rendered. -/
structure Inv (env : Env) (p : PlayerView) : Prop where
  sound : p.Sound env
  idle : p.rendered.stationId = none → ∀ t ∈ p.tags, t.2 = true
  loaded : ∀ id, p.rendered.stationId = some id → p.tags.head?.map (·.1.id) = some id

section Sound

variable {env : Env} {p : PlayerView}

theorem inv_new (volume : ℚ) (muted allowed : Bool) : (PlayerView.new volume muted allowed).Inv env where
  sound :=
    { older := fun _ hl => (List.not_mem_nil hl).elim
      urls := fun _ hl => (List.not_mem_nil hl).elim
      element := fun _ => rfl
      engine := fun _ => rfl
      ready := fun h => (Bool.false_ne_true h).elim
      waiting := fun _ hl => (Option.some_ne_none _ hl.symm).elim
      source := fun _ h => (Option.some_ne_none _ h.symm).elim
      queue := fun h => (Option.some_ne_none _ h.symm).elim
      current := fun _ h => (Option.some_ne_none _ h.symm).elim }
  idle := fun _ _ hl => (List.not_mem_nil hl).elim
  loaded := fun _ h => (Option.some_ne_none _ h.symm).elim

theorem native_ne : some Engine.native ≠ some .rockbox := by decide

theorem stop_silent (hready : p.rockbox.sounding = true → p.rockbox.ready = true) :
    (p.rockbox.stop env).sounding = false := by
  unfold RockboxPlayer.stop
  cases hr : p.rockbox.ready with
  | true => rfl
  | false =>
    cases hs : p.rockbox.sounding with
    | false => exact hs
    | true => exact absurd (hr.symm.trans (hready hs)) Bool.false_ne_true

theorem stop_queue {url : String} (hurl : (p.rockbox.stop env).queue = some url) :
    p.rockbox.queue = some url := by
  unfold RockboxPlayer.stop at hurl
  cases hr : p.rockbox.ready with
  | false => simpa [hr] using hurl
  | true =>
    cases he : env.stopEmpties with
    | false => simpa [hr, he] using hurl
    | true => simp [hr, he] at hurl

/-- What the effects see of the page besides its atoms. -/
theorem Sound.setAtoms (h : p.Sound env) (atoms : Player) : Sound env { p with atoms } :=
  ⟨h.older, h.urls, h.element, h.engine, h.ready, h.waiting, h.source, h.queue, h.current⟩

/-- The element may change in all but its source. -/
theorem Sound.setAudio (h : p.Sound env) {audio : AudioElement} (hsrc : audio.src = p.audio.src) :
    Sound env { p with audio } where
  older := h.older
  urls := h.urls
  element hengine := hsrc.trans (h.element hengine)
  engine := h.engine
  ready := h.ready
  waiting l hl hwaits := ⟨(h.waiting l hl hwaits).1, hsrc.trans (h.waiting l hl hwaits).2⟩
  source url hurl := h.source url (hsrc.symm.trans hurl)
  queue := h.queue
  current := h.current

/-- An engine that is active may sound or not, once it is ready. -/
theorem Sound.setRockbox (h : p.Sound env) {rockbox : RockboxPlayer}
    (hqueue : rockbox.queue = p.rockbox.queue)
    (hsounding : p.engineRef ≠ some .rockbox → rockbox.sounding = false)
    (hready : rockbox.sounding = true → rockbox.ready = true) : Sound env { p with rockbox } where
  older := h.older
  urls := h.urls
  element := h.element
  engine := hsounding
  ready := hready
  waiting := h.waiting
  source := h.source
  queue hengine url hurl := h.queue hengine url (hqueue.symm.trans hurl)
  current := h.current

theorem Sound.playEffect (h : p.Sound env) : p.playEffect.Sound env := by
  unfold PlayerView.playEffect
  split
  · exact h
  split
  next hengine =>
    split
    · exact h
    next hready =>
      have hready : p.rockbox.ready = true := by simpa using hready
      cases p.atoms.isPlaying with
      | true => exact h.setRockbox rfl (fun hne => absurd hengine hne) fun _ => hready
      | false => exact h.setRockbox rfl (fun _ => rfl) fun hs => (Bool.false_ne_true hs).elim
  · cases p.atoms.isPlaying with
    | true => exact h.setAudio rfl
    | false => exact h.setAudio rfl

theorem loadedUrl_cancel (p : PlayerView) : p.cancel.loadedUrl = p.loadedUrl := by
  unfold loadedUrl cancel
  cases p.loads <;> rfl

theorem head_cancel {l : Load} (hl : p.cancel.loads.head? = some l) :
    ∃ l', p.loads.head? = some l' ∧ l = { l' with cancelled := true } := by
  unfold cancel at hl
  cases hloads : p.loads with
  | nil => simp [hloads] at hl
  | cons l' older =>
    simp only [hloads, List.head?_cons, Option.some.injEq] at hl
    exact ⟨l', rfl, hl.symm⟩

theorem mem_cancel {l : Load} (hl : l ∈ p.cancel.loads) (holder : ∀ l ∈ p.loads.tail, l.cancelled) :
    l.cancelled = true ∧ ∃ l' ∈ p.loads, l.station = l'.station ∧ l.phase = l'.phase := by
  unfold cancel at hl
  cases hloads : p.loads with
  | nil => simp [hloads] at hl
  | cons l' older =>
    simp only [hloads, List.mem_cons] at hl
    rcases hl with rfl | hl
    · exact ⟨rfl, l', List.mem_cons_self .., rfl, rfl⟩
    · exact ⟨holder l (by rw [hloads]; exact hl), l, List.mem_cons_of_mem _ hl, rfl, rfl⟩

theorem Sound.cancel (h : p.Sound env) : p.cancel.Sound env where
  older l hl := (mem_cancel (List.mem_of_mem_tail hl) h.older).1
  urls l hl url hurl := by
    obtain ⟨-, l', hl', hstation, hphase⟩ := mem_cancel hl h.older
    rw [hstation]
    exact h.urls l' hl' url (hphase ▸ hurl)
  element := h.element
  engine := h.engine
  ready := h.ready
  waiting l hl hwaits := by
    obtain ⟨l', hl', rfl⟩ := head_cancel hl
    exact h.waiting l' hl' hwaits
  source url hurl := (loadedUrl_cancel p).trans (h.source url hurl)
  queue hengine url hurl := (loadedUrl_cancel p).trans (h.queue hengine url hurl)
  current url hurl := by
    rw [loadedUrl_cancel]
    refine (h.current url hurl).imp_right fun ⟨hengine, l, hl, hphase⟩ => ⟨hengine, ?_⟩
    refine ⟨{ l with cancelled := true }, ?_, hphase⟩
    unfold PlayerView.cancel
    cases hloads : p.loads with
    | nil => simp [hloads] at hl
    | cons l' older =>
      rw [hloads] at hl
      rw [Option.some.inj hl]
      rfl

theorem Sound.loadEffect (h : p.Sound env) (hcancelled : ∀ l ∈ p.loads, l.cancelled = true)
    (station : Station) : (p.loadEffect env station).Sound env where
  older := hcancelled
  urls l hl url hurl := by
    rcases List.mem_cons.1 hl with rfl | hl
    · cases hurl
    · exact h.urls l hl url hurl
  element _ := rfl
  engine _ := stop_silent h.ready
  ready hs := absurd ((stop_silent h.ready).symm.trans hs) Bool.false_ne_true
  waiting _ _ _ := ⟨fun h => (Option.some_ne_none _ h.symm).elim, rfl⟩
  source _ hurl := (Option.some_ne_none _ hurl.symm).elim
  queue hengine := (Option.some_ne_none _ hengine.symm).elim
  current _ _ := .inr ⟨rfl, _, rfl, rfl⟩

theorem Sound.live_eq_some (h : p.Sound env) {age : ℕ} {l : Load} (hl : p.live age = some l) :
    age = 0 ∧ l.cancelled = false ∧ p.loads = l :: p.loads.tail := by
  obtain ⟨hget, hlive⟩ := Option.filter_eq_some_iff.1 hl
  have hlive : l.cancelled = false := by simpa using hlive
  cases hloads : p.loads with
  | nil => simp [hloads] at hget
  | cons l' older =>
    rw [hloads] at hget
    cases age with
    | zero => exact ⟨rfl, hlive, by rw [Option.some.inj hget]; rfl⟩
    | succ age =>
      have hmem : l ∈ p.loads.tail := by
        rw [hloads]
        exact List.mem_of_getElem? hget
      exact absurd (hlive.symm.trans (h.older l hmem)) Bool.false_ne_true

/-- A load comes to a URL, and to the backend that plays it. -/
theorem Sound.reach (h : p.Sound env) {q : PlayerView} {l : Load} {phase : LoadPhase} {url : String}
    (hloads : q.loads = { l with phase } :: p.loads.tail) (hphase : phase.playUrl = some url)
    (hurl : ∃ body, url = playUrlOf env (resolveStream l.station body))
    (hcurrent : ∀ u, q.currentUrlRef = some u → u = url)
    (hsrc : ∀ u, q.audio.src = some u → u = url)
    (hbackend : q.engineRef = some .rockbox ∧ q.audio.src = none ∧ q.rockbox.queue = some url ∧
        q.rockbox.ready = true ∧ phase.waits = false ∨
      q.engineRef ≠ some .rockbox ∧ q.rockbox.sounding = false ∧
        (phase.waits = true → q.audio.src = none)) : q.Sound env := by
  have hloaded : q.loadedUrl = some url := by
    rw [loadedUrl, hloads]
    exact hphase
  constructor
  · rw [hloads]
    exact h.older
  · rw [hloads]
    intro l' hl' u hu
    rcases List.mem_cons.1 hl' with rfl | hl'
    · obtain ⟨body, rfl⟩ := hurl
      exact ⟨body, Option.some.inj (hu.symm.trans hphase)⟩
    · exact h.urls l' (List.mem_of_mem_tail hl') u hu
  · intro hengine
    rcases hbackend with ⟨-, hnone, -⟩ | ⟨hne, -⟩
    · exact hnone
    · exact absurd hengine hne
  · intro hne
    rcases hbackend with ⟨hengine, -⟩ | ⟨-, hsilent, -⟩
    · exact absurd hengine hne
    · exact hsilent
  · intro hsounding
    rcases hbackend with ⟨-, -, -, hready, -⟩ | ⟨-, hsilent, -⟩
    · exact hready
    · exact absurd (hsilent.symm.trans hsounding) Bool.false_ne_true
  · intro l' hl' hwaits
    rw [hloads] at hl'
    rw [← Option.some.inj hl'] at hwaits
    rcases hbackend with ⟨-, -, -, -, hover⟩ | ⟨hne, -, hnone⟩
    · exact absurd (hover.symm.trans hwaits) Bool.false_ne_true
    · exact ⟨hne, hnone hwaits⟩
  · intro u hu
    rw [hsrc u hu]
    exact hloaded
  · intro hengine u hu
    rcases hbackend with ⟨-, -, hqueue, -⟩ | ⟨hne, -⟩
    · exact hloaded.trans (hqueue.symm.trans hu)
    · exact absurd hengine hne
  · intro u hu
    rw [hcurrent u hu]
    exact .inl hloaded

/-- What a load that waits with its URL finds. -/
theorem Sound.waits (h : p.Sound env) {l : Load} {url : String} (hl : p.loads = l :: p.loads.tail)
    (hphase : l.phase.playUrl = some url) (hwaits : l.phase.waits = true) :
    (∃ body, url = playUrlOf env (resolveStream l.station body)) ∧
      (∀ u, p.currentUrlRef = some u → u = url) ∧ p.engineRef ≠ some .rockbox ∧
      p.audio.src = none ∧ p.rockbox.sounding = false := by
  have hhead : p.loads.head? = some l := by rw [hl]; rfl
  obtain ⟨hengine, hsrc⟩ := h.waiting l hhead hwaits
  refine ⟨h.urls l (List.mem_of_mem_head? hhead) url hphase, ?_, hengine, hsrc, h.engine hengine⟩
  intro u hu
  rcases h.current u hu with hloaded | ⟨-, l', hl', hresolving⟩
  · rw [loadedUrl, hhead, Option.bind_some, hphase] at hloaded
    exact (Option.some.inj hloaded).symm
  · rw [Option.some.inj (hhead.symm.trans hl'), hresolving] at hphase
    cases hphase

theorem setPhase_loads {q : PlayerView} {l : Load} (hl : q.loads = l :: q.loads.tail) (phase : LoadPhase) :
    (q.setPhase 0 l phase).loads = { l with phase } :: q.loads.tail := by
  change q.loads.set 0 _ = _
  rw [hl]
  rfl

theorem Sound.resolved (h : p.Sound env) (age : ℕ) (body : Option String) :
    (p.resolved env age body).Sound env := by
  unfold PlayerView.resolved
  split
  next l hlive =>
    obtain ⟨rfl, -, hl⟩ := h.live_eq_some hlive
    split
    next hphase =>
      have hhead : p.loads.head? = some l := by rw [hl]; rfl
      obtain ⟨hengine, hsrc⟩ := h.waiting l hhead (by rw [hphase]; rfl)
      have hsilent := h.engine hengine
      have hnone : ∀ u, p.audio.src = some u → u = playUrlOf env (resolveStream l.station body) :=
        fun u hu => (Option.some_ne_none u (hu.symm.trans hsrc)).elim
      dsimp only
      split
      · split
        · exact h.reach (setPhase_loads hl _) rfl ⟨body, rfl⟩ (fun u hu => (Option.some.inj hu).symm)
            (fun u hu => (Option.some.inj hu).symm)
            (.inr ⟨native_ne, hsilent, fun hover => (Bool.false_ne_true hover).elim⟩)
        · exact h.reach (setPhase_loads hl _) rfl ⟨body, rfl⟩ (fun u hu => (Option.some.inj hu).symm)
            hnone (.inr ⟨native_ne, hsilent, fun _ => hsrc⟩)
      · exact h.reach (setPhase_loads hl _) rfl ⟨body, rfl⟩ (fun u hu => (Option.some.inj hu).symm)
          hnone (.inr ⟨hengine, hsilent, fun _ => hsrc⟩)
    · exact h
  · exact h

theorem Sound.imported (h : p.Sound env) (age : ℕ) (supported : Option Bool) :
    (p.imported age supported).Sound env := by
  unfold PlayerView.imported
  split
  next l hlive =>
    obtain ⟨rfl, -, hl⟩ := h.live_eq_some hlive
    split
    next url hphase =>
      obtain ⟨hurl, hcurrent, hengine, hsrc, hsilent⟩ :=
        h.waits hl (by rw [hphase]; rfl) (by rw [hphase]; rfl)
      cases supported with
      | some supported =>
        exact h.reach (setPhase_loads hl _) rfl hurl hcurrent (fun u hu => (Option.some.inj hu).symm)
          (.inr ⟨hengine, hsilent, fun hover => (Bool.false_ne_true hover).elim⟩)
      | none =>
        exact h.reach (setPhase_loads hl _) rfl hurl hcurrent
          (fun u hu => (Option.some_ne_none u (hu.symm.trans hsrc)).elim)
          (.inr ⟨hengine, hsilent, fun hover => (Bool.false_ne_true hover).elim⟩)
    · exact h
  · exact h

theorem Sound.booted (h : p.Sound env) (age : ℕ) (ok : Bool) : (p.booted env age ok).Sound env := by
  unfold PlayerView.booted
  split
  next l hlive =>
    obtain ⟨rfl, -, hl⟩ := h.live_eq_some hlive
    split
    next url hphase =>
      obtain ⟨hurl, hcurrent, hengine, hsrc, hsilent⟩ :=
        h.waits hl (by rw [hphase]; rfl) (by rw [hphase]; rfl)
      cases ok with
      | true =>
        exact h.reach (setPhase_loads hl _) rfl hurl hcurrent
          (fun u hu => (Option.some_ne_none u (hu.symm.trans hsrc)).elim)
          (.inl ⟨rfl, hsrc, rfl, rfl, rfl⟩)
      | false =>
        exact h.reach (setPhase_loads hl _) rfl hurl hcurrent (fun u hu => (Option.some.inj hu).symm)
          (.inr ⟨native_ne, stop_silent h.ready, fun hover => (Bool.false_ne_true hover).elim⟩)
    · exact h
  · exact h

/-- The engine hands the URL of the latest load over to the element. -/
theorem Sound.fallback (h : p.Sound env) (hengine : p.engineRef = some .rockbox) {url : String}
    (hurl : p.currentUrlRef = some url) (fallbackUrlRef : Option String) :
    (fallbackToNative env { p with fallbackUrlRef } url).Sound env := by
  have hloaded : p.loadedUrl = some url := by
    rcases h.current url hurl with hloaded | ⟨hnone, -⟩
    · exact hloaded
    · exact (Option.some_ne_none _ (hengine.symm.trans hnone)).elim
  exact {
    older := h.older
    urls := h.urls
    element := fun h => absurd h native_ne
    engine := fun _ => stop_silent h.ready
    ready := fun hs => absurd ((stop_silent h.ready).symm.trans hs) Bool.false_ne_true
    waiting := fun l hl hwaits => absurd hengine (h.waiting l hl hwaits).1
    source := fun u hu => hloaded.trans hu
    queue := fun h => absurd h native_ne
    current := fun u hu => .inl (hloaded.trans (hurl.symm.trans hu)) }

theorem Sound.onError (h : p.Sound env) : (p.onError env).Sound env := by
  unfold PlayerView.onError
  split
  · exact h
  next hengine =>
    have hengine : p.engineRef = some .rockbox := not_not.1 hengine
    split
    next url hurl =>
      split
      · exact h.fallback hengine hurl _
      · exact h.setAtoms _
    · exact h.setAtoms _

theorem Sound.handleStop (h : p.Sound env) : (p.handleStop env).Sound env where
  older := h.older
  urls := h.urls
  element _ := rfl
  engine _ := stop_silent h.ready
  ready hs := absurd ((stop_silent h.ready).symm.trans hs) Bool.false_ne_true
  waiting l hl hwaits := ⟨(h.waiting l hl hwaits).1, rfl⟩
  source _ hu := (Option.some_ne_none _ hu.symm).elim
  queue hengine u hu := h.queue hengine u (stop_queue hu)
  current := h.current

theorem Sound.setRendered (h : p.Sound env) (rendered : Rendered) : Sound env { p with rendered } :=
  ⟨h.older, h.urls, h.element, h.engine, h.ready, h.waiting, h.source, h.queue, h.current⟩

theorem Sound.reload (h : p.Sound env) : (p.reload env).Sound env := by
  unfold PlayerView.reload
  split
  · exact h.cancel
  · exact h.cancel.loadEffect (fun l hl => (mem_cancel hl h.older).1) _

theorem Sound.render (h : p.Sound env) (same : Bool) : (p.render env same).Sound env := by
  have hloaded : Sound env (if p.moved then p.reload env else p) := by
    split
    · exact h.reload
    · exact h
  have hplayed : Sound env (if p.replays same then (if p.moved then p.reload env else p).playEffect
      else if p.moved then p.reload env else p) := by
    split
    · exact hloaded.playEffect
    · exact hloaded
  refine Sound.setRendered ?_ _
  split
  · exact hplayed.setAtoms _
  · exact hplayed

theorem Sound.step (h : p.Sound env) (e : PlayerEvent) : (p.step env e).Sound env := by
  cases e with
  | transport | selectDevice | applyCommand | setDevices | mediaSession | audioPlaying
    | audioWaiting => exact h.setAtoms _
  | handleStop => exact h.handleStop
  | render same => exact h.render same
  | resolved age body => exact h.resolved age body
  | imported age supported => exact h.imported age supported
  | booted age ok => exact h.booted age ok
  | engineReady => exact h.setRockbox rfl h.engine fun _ => rfl
  | enginePlaying =>
    simp only [PlayerView.step]
    split
    · exact h
    · exact h.setAtoms _
  | engineError => exact h.onError
  | hlsError =>
    simp only [PlayerView.step]
    split
    · exact h.setAtoms _
    · exact h
  | audioError =>
    simp only [PlayerView.step]
    split
    · exact h
    · exact h.setAtoms _
  | audioEnded =>
    have haudio : Sound env { p with audio := p.audio.pause } := h.setAudio rfl
    exact haudio.setAtoms _
  | autoplay allowed => exact h.setAudio rfl

theorem tags_setPhase {q : PlayerView} {age : ℕ} {l : Load} (hl : q.live age = some l)
    (phase : LoadPhase) : (q.setPhase age l phase).tags = q.tags := by
  have hget : q.loads[age]? = some l := (Option.filter_eq_some_iff.1 hl).1
  refine List.ext_getElem? fun i => ?_
  rw [tags, tags, List.getElem?_map, List.getElem?_map]
  change ((q.loads.set age _)[i]?).map _ = _
  rw [List.getElem?_set]
  split
  next heq =>
    subst heq
    have hlt : age < q.loads.length := (List.getElem?_eq_some_iff.1 hget).1
    rw [if_pos hlt, hget]
    rfl
  · rfl

/-- A step that does not render leaves the loads as they are started and cancelled. -/
theorem step_tags {e : PlayerEvent} (he : ∀ same, e ≠ .render same) :
    (p.step env e).tags = p.tags ∧ (p.step env e).rendered = p.rendered := by
  cases e with
  | render same => exact absurd rfl (he same)
  | resolved age body =>
    simp only [PlayerView.step, PlayerView.resolved]
    split
    next l hl =>
      split
      · split
        · split
          · exact ⟨tags_setPhase hl _, rfl⟩
          · exact ⟨tags_setPhase hl _, rfl⟩
        · exact ⟨tags_setPhase hl _, rfl⟩
      · exact ⟨rfl, rfl⟩
    · exact ⟨rfl, rfl⟩
  | imported age supported =>
    simp only [PlayerView.step, PlayerView.imported]
    split
    next l hl =>
      split
      · cases supported with
        | some => exact ⟨tags_setPhase hl _, rfl⟩
        | none => exact ⟨tags_setPhase hl _, rfl⟩
      · exact ⟨rfl, rfl⟩
    · exact ⟨rfl, rfl⟩
  | booted age ok =>
    simp only [PlayerView.step, PlayerView.booted]
    split
    next l hl =>
      split
      · cases ok with
        | true => exact ⟨tags_setPhase hl _, rfl⟩
        | false => exact ⟨tags_setPhase hl _, rfl⟩
      · exact ⟨rfl, rfl⟩
    · exact ⟨rfl, rfl⟩
  | engineError =>
    simp only [PlayerView.step, PlayerView.onError]
    split
    · exact ⟨rfl, rfl⟩
    · split
      · split <;> exact ⟨rfl, rfl⟩
      · exact ⟨rfl, rfl⟩
  | enginePlaying | hlsError | audioError =>
    simp only [PlayerView.step]
    split <;> exact ⟨rfl, rfl⟩
  | _ => exact ⟨rfl, rfl⟩

theorem playEffect_loads (p : PlayerView) : p.playEffect.loads = p.loads := by
  unfold playEffect
  split
  · rfl
  · split
    · split <;> rfl
    · rfl

theorem render_loads (p : PlayerView) (same : Bool) :
    (p.render env same).loads = if p.moved then (p.reload env).loads else p.loads := by
  unfold render
  cases p.moved <;> cases p.replays same <;> cases p.handsOff <;>
    first | rfl | exact playEffect_loads _

theorem Inv.render (h : p.Inv env) (same : Bool) : (p.render env same).Inv env := by
  have htags : (p.render env same).tags =
      if p.moved then (p.reload env).tags else p.tags := by
    rw [tags, render_loads]
    split <;> rfl
  have hcancelled : ∀ t ∈ p.cancel.tags, t.2 = true := by
    intro t ht
    obtain ⟨l, hl, rfl⟩ := List.mem_map.1 ht
    exact (mem_cancel hl h.sound.older).1
  have hrendered : (p.render env same).rendered = p.deps := rfl
  refine ⟨h.sound.render same, ?_, ?_⟩
  · intro hnone
    rw [htags]
    cases hmoved : p.moved with
    | false =>
      have hsame : p.deps.stationId = p.rendered.stationId := by simpa [PlayerView.moved] using hmoved
      exact h.idle (hsame.symm.trans hnone)
    | true =>
      rw [if_pos rfl]
      unfold PlayerView.reload
      split
      · exact hcancelled
      next station hstation =>
        rw [hrendered, deps, hstation] at hnone
        cases hnone
  · intro id hid
    rw [htags]
    cases hmoved : p.moved with
    | false =>
      have hsame : p.deps.stationId = p.rendered.stationId := by simpa [PlayerView.moved] using hmoved
      exact h.loaded id (hsame.symm.trans hid)
    | true =>
      rw [if_pos rfl]
      unfold PlayerView.reload
      split
      next hnone =>
        rw [hrendered, deps, hnone] at hid
        cases hid
      next station hstation =>
        rw [hrendered, deps, hstation] at hid
        exact hid

theorem Inv.step (h : p.Inv env) (e : PlayerEvent) : (p.step env e).Inv env := by
  by_cases he : ∃ same, e = .render same
  · obtain ⟨same, rfl⟩ := he
    exact h.render same
  · obtain ⟨htags, hrendered⟩ := @step_tags env p e fun same heq => he ⟨same, heq⟩
    refine ⟨h.sound.step e, ?_, ?_⟩
    · rw [htags, hrendered]
      exact h.idle
    · rw [htags, hrendered]
      exact h.loaded

/-- Whatever sounds has the URL of the latest load. -/
theorem Sound.loadedUrl_of_sounds (h : p.Sound env) {engine : Engine} {url : String}
    (hurl : p.sounds engine = some url) : p.loadedUrl = some url := by
  cases engine with
  | rockbox =>
    change (if p.rockbox.sounding then p.rockbox.queue else none) = _ at hurl
    cases hs : p.rockbox.sounding with
    | false => simp [hs] at hurl
    | true =>
      have hengine : p.engineRef = some .rockbox := by
        by_contra hne
        exact Bool.false_ne_true ((h.engine hne).symm.trans hs)
      exact h.queue hengine url (by simpa [hs] using hurl)
  | native =>
    change (if p.audio.paused then none else p.audio.src) = _ at hurl
    cases hp : p.audio.paused with
    | false => exact h.source url (by simpa [hp] using hurl)
    | true => simp [hp] at hurl

theorem Sound.silent (h : p.Sound env) : p.sounds .rockbox = none ∨ p.sounds .native = none := by
  by_cases hengine : p.engineRef = some .rockbox
  · refine .inr ?_
    change (if p.audio.paused then none else p.audio.src) = none
    rw [h.element hengine, ite_self]
  · refine .inl ?_
    change (if p.rockbox.sounding then p.rockbox.queue else none) = none
    rw [h.engine hengine, if_neg Bool.false_ne_true]

end Sound

end PlayerView

end Atradio.Web
