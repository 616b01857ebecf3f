import Atradio.Web.AudioRestore
import Atradio.Cli.Tui.Accounts

/-! # The audio settings of an account in the terminal UI

They are read once at the start and written once at the end. -/

namespace Atradio.Cli
open Atradio.Audio Atradio.Connect Atradio.Lib

/-- Every write came after a read for the account. -/
def ReadFirst : List Call → Prop
  | [] => True
  | .putAudio account _ :: calls => (∃ result, .fetched account result ∈ calls) ∧ ReadFirst calls
  | _ :: calls => ReadFirst calls

def Call.put : Call → Option (Profile × AudioSettings)
  | .putAudio account audio => some (account, audio)
  | _ => none

theorem readFirst_synced {calls : List Call} (h : ReadFirst (calls.filter Call.syncs)) :
    ReadFirst calls := by
  induction calls with
  | nil => trivial
  | cons c calls ih =>
    cases c with
    | putAudio account audio =>
      obtain ⟨⟨result, hmem⟩, hrest⟩ := h
      exact ⟨⟨result, (List.mem_filter.1 hmem).1⟩, ih hrest⟩
    | load | playUrl | player | command | broadcast | listed | fetched | saveSettings => exact ih h

theorem puts_synced (calls : List Call) :
    calls.filterMap Call.put = (calls.filter Call.syncs).filterMap Call.put := by
  induction calls with
  | nil => rfl
  | cons c calls ih =>
    cases c with
    | putAudio account audio => exact congrArg (List.cons (account, audio)) ih
    | load | playUrl | player | command | broadcast | listed | fetched | saveSettings => exact ih

namespace Tui

variable {E : Engine} {fuzzy : App.FuzzyMatch} {t u : Tui E}

def leaves (t : Tui E) : List Call :=
  if t.app.grpcRemote.isSome then []
  else (t.session.map fun account => .putAudio account t.app.dsp).toList ++
    [.saveSettings t.app.dsp t.player.volume]

/-- What a turn keeps that is not the last: an account gets signed in by the end of a sign-in. -/
structure Same (e : TuiEvent E) (t u : Tui E) : Prop where
  synced : u.synced = t.synced
  ended : u.ended = t.ended
  session : ∀ a ∈ u.session, a ∈ t.session ∨ ∃ restored, e = .oauth (some a) restored

variable {e : TuiEvent E}

theorem Same.refl (t : Tui E) : Same e t t := ⟨rfl, rfl, fun _ => .inl⟩

theorem Same.trans {v : Tui E} (h : Same e t u) (h' : Same e u v) : Same e t v :=
  ⟨h'.synced.trans h.synced, h'.ended.trans h.ended,
    fun a ha => (h'.session a ha).elim (h.session a) .inr⟩

theorem Keeps.same (h : t.Keeps u) : Same e t u :=
  ⟨congrArg Standing.synced h.standing, congrArg Standing.ended h.standing,
    fun _ ha => .inl ((congrArg Standing.session h.standing).symm.trans ha)⟩

theorem same_render (t : Tui E) : Same e t t.render := by
  unfold render
  cases t.app.grpcRemote with
  | none => exact ⟨rfl, rfl, fun _ => .inl⟩
  | some r => exact ⟨rfl, rfl, fun _ => .inl⟩

theorem same_receive (t : Tui E) (job : Job) (msg : Msg) : Same e t (t.receive job msg) := by
  unfold receive
  split
  · split
    · split
      · exact ⟨rfl, rfl, fun _ => .inl⟩
      · exact .refl t
    · exact .refl t
  · dsimp only
    split
    · exact ⟨rfl, rfl, fun _ => .inl⟩
    · exact ⟨rfl, rfl, fun _ => .inl⟩

theorem same_finish (t : Tui E) (i : ℕ) (answer : Answer) : Same e t (t.finish i answer) := by
  unfold finish
  split
  · exact .refl t
  · rename_i job hjob
    have hrest : Same e t { t with jobs := t.jobs.eraseIdx i ++ job.next answer } :=
      ⟨rfl, rfl, fun _ => .inl⟩
    dsimp only
    split
    · exact hrest
    · exact hrest.trans (same_receive _ job _)

theorem same_key (fuzzy : App.FuzzyMatch) (t : Tui E) (key : KeyEvent) :
    Same e t (t.handleEvent fuzzy key) := by
  rcases keeps_handleEvent fuzzy t key with hk | ⟨-, hsignin⟩
  · exact hk.same
  · rw [hsignin]
    unfold toggleSignin
    split
    · exact ⟨rfl, rfl, fun _ ha => (by cases ha)⟩
    · exact ⟨rfl, rfl, fun _ => .inl⟩

/-- A turn keeps the record of what was read and written, but for the one that leaves. -/
def Turns (e : TuiEvent E) (t v : Tui E) : Prop := ∃ u, Same e t u ∧ (v = u ∨ v = u.exit)

theorem turns_handle (fuzzy : App.FuzzyMatch) (t : Tui E) (e : TuiEvent E) :
    Turns e t (t.handle fuzzy e) := by
  have hsame {u : Tui E} (h : Same e t u) : Turns e t u := ⟨u, h, .inl rfl⟩
  cases e with
  | key key => exact hsame (same_key fuzzy t key)
  | done i answer => exact hsame (same_finish t i answer)
  | mpris cmd => exact hsame (t.keeps_player _).same
  | tick => exact hsame t.keeps_tick.same
  | terminalFailed => exact ⟨t, .refl t, .inr rfl⟩
  | oauth | mirror | engine => exact hsame (.refl t)
  | peer cmd =>
    simp only [handle]
    split
    · exact hsame (t.keeps_remoteCmd cmd).same
    · exact hsame (.refl t)
  | grpc cmd =>
    simp only [handle]
    split
    · exact hsame (.refl t)
    · exact hsame (t.keeps_grpcCmd cmd).same
  | hub evt =>
    simp only [handle]
    split
    · exact hsame (t.keeps_remoteEvent evt).same
    · exact hsame (.refl t)

theorem turns_loop (fuzzy : App.FuzzyMatch) (t : Tui E) (e : TuiEvent E) :
    Turns e t (t.loopTurn fuzzy e) := by
  unfold loopTurn
  dsimp only
  split
  · exact ⟨t.render, same_render t, .inr rfl⟩
  · obtain ⟨u, hsame, hu⟩ := turns_handle fuzzy t.render e
    exact ⟨u, (same_render t).trans hsame, hu⟩

theorem turns_awaitOauth (t : Tui E) (e : TuiEvent E) : Turns e t (t.awaitOauth e) := by
  cases e with
  | oauth result restored =>
    have hclosed : Same (.oauth result restored) t
        { t.closePrompt with session := result.or t.session } := by
      refine ⟨rfl, rfl, fun a ha => ?_⟩
      cases result with
      | none => exact .inl ha
      | some p =>
        cases ha
        exact .inr ⟨restored, rfl⟩
    simp only [awaitOauth, endOauth]
    cases restored with
    | false => exact ⟨_, hclosed, .inr rfl⟩
    | true =>
      cases result with
      | none => exact ⟨_, hclosed, .inl rfl⟩
      | some p =>
        have hsigned : Same (.oauth (some p) true) { t.closePrompt with session := some p }
            (signedIn { t.closePrompt with session := some p } p) := ⟨rfl, rfl, fun _ => .inl⟩
        exact ⟨_, hclosed.trans hsigned, .inl rfl⟩
  | terminalFailed => exact ⟨t.closePrompt, ⟨rfl, rfl, fun _ => .inl⟩, .inr rfl⟩
  | key | done | mpris | peer | grpc | hub | tick | mirror | engine => exact ⟨t, .refl t, .inl rfl⟩

/-! ### Leaving -/

theorem exit_synced (t : Tui E) : t.exit.synced = t.leaves ++ t.synced := by
  unfold exit leaves
  cases t.app.grpcRemote with
  | some r => rfl
  | none =>
    unfold pushAudio
    cases t.session <;> rfl

theorem exit_player (t : Tui E) : t.exit.player = t.player := by
  unfold exit pushAudio
  split
  · rfl
  · dsimp only
    split <;> rfl

theorem exit_leaves (t : Tui E) : t.exit.leaves = t.leaves := by
  unfold leaves
  rw [exit_app, exit_session, exit_player]

/-- What was read and written since `before`: nothing until the loop ends, then what leaving adds. -/
structure Ledger (before : List Call) (t : Tui E) : Prop where
  running : t.ended = false → t.synced = before
  left : t.ended = true → t.synced = t.leaves ++ before

variable {before : List Call}

theorem Ledger.turn (h : Ledger before t) (hrunning : t.ended = false) (hturns : Turns e t u) :
    Ledger before u := by
  obtain ⟨v, hsame, rfl | rfl⟩ := hturns
  · have hended := hsame.ended.trans hrunning
    exact ⟨fun _ => hsame.synced.trans (h.running hrunning),
      fun hleft => absurd (hended.symm.trans hleft) Bool.noConfusion⟩
  · refine ⟨fun hended => absurd (v.exit_ended.symm.trans hended) Bool.noConfusion, fun _ => ?_⟩
    rw [exit_synced, exit_leaves, hsame.synced, h.running hrunning]

/-- A step is a turn, or it changes nothing that counts here. -/
def Moves (e : TuiEvent E) (t u : Tui E) : Prop :=
  t.ended = false ∧ Turns e t u ∨ Same e t u ∧ u.leaves = t.leaves

theorem moves_step (fuzzy : App.FuzzyMatch) (t : Tui E) (e : TuiEvent E) :
    Moves e t (t.step fuzzy e) := by
  have hstepped := stepped fuzzy t e
  generalize t.step fuzzy e = u at hstepped ⊢
  cases hstepped with
  | stays => exact .inr ⟨.refl t, rfl⟩
  | mirrors r hdrives =>
    refine .inr ⟨⟨rfl, rfl, fun _ => .inl⟩, ?_⟩
    unfold leaves
    rw [hdrives]
    rfl
  | moves transport =>
    unfold engineMoves
    split
    · exact .inr ⟨.refl t, rfl⟩
    · exact .inr ⟨⟨rfl, rfl, fun _ => .inl⟩, rfl⟩
  | awaits hrunning hoauth => exact .inl ⟨hrunning, turns_awaitOauth t e⟩
  | turns hrunning => exact .inl ⟨hrunning, turns_loop fuzzy t e⟩

theorem Ledger.step (h : Ledger before t) (e : TuiEvent E) : Ledger before (t.step fuzzy e) := by
  rcases moves_step fuzzy t e with ⟨hrunning, hturns⟩ | ⟨hsame, hleaves⟩
  · exact h.turn hrunning hturns
  · refine ⟨fun hended => ?_, fun hended => ?_⟩
    · exact hsame.synced.trans (h.running (hsame.ended.symm.trans hended))
    · rw [hsame.synced, hleaves]
      exact h.left (hsame.ended.symm.trans hended)

theorem ledger_run (fuzzy : App.FuzzyMatch) (s : Startup) (es : List (TuiEvent E)) :
    Ledger (start s : Tui E).synced (run (step fuzzy) (start s) es) := by
  have hrunning : (start s : Tui E).ended = false := by
    unfold start pullAudio
    split
    · rfl
    · dsimp only
      split <;> rfl
  refine run_kept (I := Ledger (start s : Tui E).synced) (fun _ e h => h.step e)
    ⟨fun _ => rfl, fun hended => ?_⟩ es
  exact absurd (hrunning.symm.trans hended) Bool.noConfusion

theorem moves_session (h : Moves e t u) (hstays : ∀ p restored, e ≠ .oauth (some p) restored) :
    ∀ a ∈ u.session, a ∈ t.session := by
  have hsame {v : Tui E} (hv : Same e t v) : ∀ a ∈ v.session, a ∈ t.session := fun a ha =>
    (hv.session a ha).resolve_right fun ⟨restored, he⟩ => hstays a restored he
  rcases h with ⟨-, v, hv, rfl | rfl⟩ | ⟨hv, -⟩
  · exact hsame hv
  · rw [exit_session]
    exact hsame hv
  · exact hsame hv

theorem session_run (fuzzy : App.FuzzyMatch) {es : List (TuiEvent E)}
    (hstays : ∀ e ∈ es, ∀ p restored, e ≠ .oauth (some p) restored) :
    ∀ a ∈ (run (step fuzzy) t es).session, a ∈ t.session := by
  induction es generalizing t with
  | nil => exact fun _ ha => ha
  | cons e es ih =>
    intro a ha
    have hrest := ih (fun e' he' => hstays e' (List.mem_cons_of_mem _ he')) a ha
    exact moves_session (moves_step fuzzy t e) (hstays e (List.mem_cons_self ..)) a hrest

theorem Ledger.puts (h : Ledger before t) (hnone : before.filterMap Call.put = []) :
    t.calls.filterMap Call.put =
      if t.ended = true ∧ t.app.grpcRemote.isSome = false then
        (t.session.map fun account => (account, t.app.dsp)).toList
      else [] := by
  rw [puts_synced]
  cases hended : t.ended with
  | false =>
    have hsynced : t.calls.filter Call.syncs = before := h.running hended
    rw [hsynced, hnone, if_neg fun hleft => Bool.noConfusion hleft.1]
  | true =>
    have hsynced : t.calls.filter Call.syncs = t.leaves ++ before := h.left hended
    rw [hsynced, List.filterMap_append, hnone, List.append_nil]
    unfold leaves
    cases t.app.grpcRemote with
    | some r => rfl
    | none => cases t.session <;> rfl

theorem Ledger.readFirst (h : Ledger before t) (hread : ReadFirst before)
    (hfetched : ∀ a ∈ t.session, ∃ result, .fetched a result ∈ before) : ReadFirst t.calls := by
  refine readFirst_synced ?_
  cases hended : t.ended with
  | false =>
    have hsynced : t.calls.filter Call.syncs = before := h.running hended
    rw [hsynced]
    exact hread
  | true =>
    have hsynced : t.calls.filter Call.syncs = t.leaves ++ before := h.left hended
    rw [hsynced]
    unfold leaves
    cases t.app.grpcRemote with
    | some r => exact hread
    | none =>
      cases hsession : t.session with
      | none => exact hread
      | some account =>
        obtain ⟨result, hmem⟩ := hfetched account hsession
        exact ⟨⟨result, List.mem_cons_of_mem _ hmem⟩, hread⟩

/-! ### The start -/

theorem start_session (s : Startup) : (start s : Tui E).session = s.profile := by
  unfold start
  cases hprofile : s.profile with
  | none => exact hprofile
  | some account =>
    unfold pullAudio
    cases s.fetched <;> exact hprofile

theorem start_synced (s : Startup) : ∀ a ∈ s.profile,
    .fetched a s.fetched ∈ (start s : Tui E).synced := by
  intro a ha
  unfold start
  rw [show s.profile = some a from ha]
  unfold pullAudio
  cases s.fetched <;> simp [synced, edit, spawn, log, callPlayer, Call.syncs]

theorem start_puts (s : Startup) : (start s : Tui E).synced.filterMap Call.put = [] ∧
    ReadFirst (start s : Tui E).synced := by
  unfold start
  cases s.profile with
  | none => exact ⟨rfl, trivial⟩
  | some account =>
    unfold pullAudio
    cases s.fetched <;> exact ⟨rfl, trivial⟩

end Tui

/-- On the web every write of the settings of an account comes after the read of the same sign-in
has ended. The terminal UI writes once, when it leaves, for whoever is signed in, and for the
account of the start it has read by then. -/
theorem writes_read {κ : Type} [DecidableEq κ] {E : Engine} (fuzzy : App.FuzzyMatch) :
    (∀ (default : κ) (account : Option Web.AudioRestore.Account) (settings : κ)
      (es : List (Web.AudioRestore.Event κ)), Web.AudioRestore.ReadFirst
        (run (Web.AudioRestore.step default) (.init account settings) es).log) ∧
    ∀ (s : Tui.Startup) (es : List (TuiEvent E)),
      let t := run (Tui.step fuzzy) (Tui.start s) es
      t.calls.filterMap Call.put =
        (if t.ended = true ∧ t.app.grpcRemote.isSome = false then
          (t.session.map fun account => (account, t.app.dsp)).toList
        else []) ∧
      ((∀ e ∈ es, ∀ p restored, e ≠ .oauth (some p) restored) → ReadFirst t.calls) := by
  refine ⟨Web.AudioRestore.readFirst_run, ?_⟩
  intro s es t
  have hledger : t.Ledger (Tui.start s : Tui E).synced := Tui.ledger_run fuzzy s es
  obtain ⟨hputs, hread⟩ := Tui.start_puts (E := E) s
  refine ⟨hledger.puts hputs, fun hstays => hledger.readFirst hread fun a ha => ?_⟩
  have hstart := Tui.session_run fuzzy hstays a ha
  rw [Tui.start_session] at hstart
  exact ⟨s.fetched, Tui.start_synced s a hstart⟩

namespace Tui

/-- The account has a record, and the user leaves. -/
def sampleRecorded : Startup :=
  { sampleSignedIn with fetched := .record AudioSettings.default }

def sampleQuit : List (TuiEvent sampleEngine) := [.key { code := .char 'q' }, .tick]

theorem quit_readFirst :
    ReadFirst (run (step fun _ _ => none) (start sampleRecorded) sampleQuit).calls := by
  refine ((writes_read (κ := ℕ) _).2 sampleRecorded sampleQuit).2 fun e he p restored h => ?_
  subst h
  simp [sampleQuit] at he

/-- What was read is written again although nothing was changed. -/
theorem unchanged_written : ¬ ∀ account audio,
    .putAudio account audio ∈
      (run (step fun _ _ => none) (start sampleRecorded) sampleQuit).calls →
    .fetched account (.record audio) ∉
      (run (step fun _ _ => none) (start sampleRecorded) sampleQuit).calls := by
  intro h
  refine h sampleAccount AudioSettings.default ?_ ?_
  · exact List.mem_of_getElem? (i := 0) rfl
  · exact List.mem_of_getElem? (i := 6) rfl

end Tui

end Atradio.Cli
