import RustTS.Lib.Transition
import RustTS.Runner.Lifecycle
import RustTS.Runner.Timers

/-! `Engine::advance_timers` among loads, unloads and whatever JavaScript asks of its timers. The
calls a script makes are steps of their own, so they stand between any two steps of a run of due
timers, and of an advance. -/
namespace RustTS.Runner
open Binary64

/-- A version of a script, loaded or not, counted in mount order. -/
abbrev VersionId := Nat

/-- An `advance_timers` call under way: the new time, the place in the loaded scripts, and what
it returns. -/
structure Advance where
  now : Double
  index : Nat
  fired : Nat
  failed : Bool
  deriving DecidableEq

/-- What the engine is doing. A load has `&mut self`, so it and an advance exclude each other. -/
inductive Phase
  | idle
  | mounting (id : ScriptId) (version : VersionId)
  | scanning (a : Advance)
  | visiting (a : Advance) (stop : Nat)
  | running (a : Advance) (stop : Nat) (due : List Nat) (threw : Bool)
  | calling (a : Advance) (stop : Nat) (due : List Nat) (threw : Bool)
  | settling (a : Advance)
  deriving DecidableEq

/-- The engine, less what no timer reads: its clock, its `EarliestDue`, the timers and the context
of every version ever mounted, and the version each loaded script runs. -/
structure TimerEngine where
  clock : Double
  earliestTimer : Double
  timers : VersionId → Timers
  context : VersionId → ContextId
  mounted : Nat
  scripts : IndexMap ScriptId VersionId
  phase : Phase

/-- How a timer's callback ends: an abort is beyond reach of the prelude's `catch`. -/
inductive Ending
  | returned
  | threw
  | aborted

/-- One step of the engine, or of a script's JavaScript. -/
inductive TimerStep
  | call (version : VersionId) (call : TimerCall)
  | loadStarts (id : ScriptId) (context : ContextId)
  | loadFails
  | loadSucceeds
  | unload (id : ScriptId)
  | advance (elapsed : Double)
  | proceed (shouldStop : Bool)
  | callbackEnds (ending : Ending) (shouldStop : Bool)

namespace TimerEngine

def new : TimerEngine where
  clock := ((⟨0, representable_zero⟩ : {n : ℕ // Representable n}) : Double)
  earliestTimer := ⊤
  timers _ := .fresh
  context _ := 0
  mounted := 0
  scripts := IndexMap.empty
  phase := .idle

variable (e : TimerEngine)

/-- Runs a prelude function of a version. -/
def onTimers (version : VersionId) (f : Scheduled → Scheduled) : TimerEngine :=
  let s := f ⟨e.timers version, e.earliestTimer⟩
  { e with
    timers := Function.update e.timers version s.timers
    earliestTimer := s.earliestTimer }

/-- `NextTimer::is_due`. -/
def isDue (now : Double) (version : VersionId) : Bool := (e.timers version).nextTimer ≤ now

/-- The end of the stretch of scripts from `start` on that share a context. -/
def stretchEnd (start : Nat) (first : VersionId) : Nat :=
  start + 1 + ((e.scripts.values.drop (start + 1)).takeWhile fun next =>
    decide (e.context first = e.context next)).length

/-- The scripts from `start` to `stop`. -/
def stretch (start stop : Nat) : List VersionId := (e.scripts.values.take stop).drop start

/-- The end of the loop over the scripts: the engine's time becomes what they report now. -/
def endAdvance (a : Advance) : TimerEngine :=
  { e with
    earliestTimer := (e.scripts.values.map fun version => (e.timers version).nextTimer).foldl min ⊤
    phase := if a.fired = 0 then .idle else .settling a }

/-- The end of a script's run. -/
def afterRun (a : Advance) (stop : Nat) (threw shouldStop : Bool) : TimerEngine :=
  let a := { a with failed := a.failed || threw }
  if shouldStop then e.endAdvance a else { e with phase := .visiting { a with index := a.index + 1 } stop }

/-- The step of an advance under way. -/
def proceed (shouldStop : Bool) : TimerEngine :=
  match e.phase with
  | .scanning a =>
    match e.scripts.values[a.index]? with
    | none => e.endAdvance a
    | some first =>
      let stop := e.stretchEnd a.index first
      if (e.stretch a.index stop).any (e.isDue a.now) then { e with phase := .visiting a stop }
      else { e with phase := .scanning { a with index := stop } }
  | .visiting a stop =>
    if stop ≤ a.index then { e with phase := .scanning { a with index := stop } }
    else match e.scripts.values[a.index]? with
      | none => { e with phase := .visiting { a with index := a.index + 1 } stop }
      | some version =>
        if !e.isDue a.now version then { e with phase := .visiting { a with index := a.index + 1 } stop }
        else
          let a := { a with fired := a.fired + 1 }
          match Scheduled.dueAt a.now (e.timers version) with
          | [] => (e.onTimers version .reschedule).afterRun a stop false shouldStop
          | due => { e with phase := .running a stop due false }
  | .running a stop due threw =>
    match e.scripts.values[a.index]? with
    | none => e
    | some version =>
      match due with
      | [] => (e.onTimers version .endRun).afterRun a stop threw shouldStop
      | id :: due =>
        match Scheduled.fire id (e.timers version) with
        | none => { e with phase := .running a stop due threw }
        | some timers =>
          { e.onTimers version fun s => { s with timers := timers } with
            phase := .calling a stop due threw }
  | .settling _ => { e with phase := .idle }
  | _ => e

/-- The engine after the step, when it is one the engine can take now. -/
def next : TimerStep → Option TimerEngine
  | .call version call =>
    if version < e.mounted then some (e.onTimers version (call.run e.clock)) else none
  | .loadStarts id context =>
    if e.phase = .idle then
      some { e with
        timers := Function.update e.timers e.mounted .fresh
        context := Function.update e.context e.mounted context
        mounted := e.mounted + 1
        phase := .mounting id e.mounted }
    else none
  | .loadFails =>
    match e.phase with
    | .mounting _ _ => some { e with phase := .idle }
    | _ => none
  | .loadSucceeds =>
    match e.phase with
    | .mounting id version => some { e with scripts := e.scripts.insert id version, phase := .idle }
    | _ => none
  | .unload id =>
    if e.phase = .idle then some { e with scripts := e.scripts.erase id } else none
  | .advance elapsed =>
    if e.phase = .idle then
      let now := add e.clock elapsed
      let e := { e with clock := now }
      some (if now < e.earliestTimer then e else { e with phase := .scanning ⟨now, 0, 0, false⟩ })
    else none
  | .proceed shouldStop => some (e.proceed shouldStop)
  | .callbackEnds ending shouldStop =>
    match e.phase with
    | .calling a stop due threw =>
      match ending with
      | .returned => some { e with phase := .running a stop due threw }
      | .threw => some { e with phase := .running a stop due true }
      | .aborted => some (e.afterRun a stop true shouldStop)
    | _ => none

/-- A state of an engine after any steps. -/
def Reached : Prop :=
  ∃ steps, Transition.Run (fun e step e' => next e step = some e') new steps e

/-- The loaded versions that the step leaves out without looking at their timers: all when an
advance returns early, a stretch none of whose scripts is due, a script that is not due. -/
def skipped : TimerStep → List VersionId
  | .advance elapsed =>
    if e.phase = .idle ∧ add e.clock elapsed < e.earliestTimer then e.scripts.values else []
  | .proceed _ =>
    match e.phase with
    | .scanning a =>
      match e.scripts.values[a.index]? with
      | none => []
      | some first =>
        let stretch := e.stretch a.index (e.stretchEnd a.index first)
        if stretch.any (e.isDue a.now) then [] else stretch
    | .visiting a stop =>
      if stop ≤ a.index then []
      else match e.scripts.values[a.index]? with
        | none => []
        | some version => if !e.isDue a.now version then [version] else []
    | _ => []
  | _ => []

/-- A version whose timers an advance has to fire, now or once its load succeeds. -/
def Watched (version : VersionId) : Prop :=
  version ∈ e.scripts.values ∨ ∃ id, e.phase = .mounting id version

/-- The time of an advance under way is the clock's. -/
def OnTime : Prop :=
  match e.phase with
  | .idle | .mounting _ _ => True
  | .scanning a | .visiting a _ | .running a _ _ _ | .calling a _ _ _ | .settling a =>
    a.now = e.clock

/-- The engine's time is not past what any watched version recorded, and that is not past any of
its live timers. -/
structure Sound : Prop where
  recorded : ∀ version, (e.timers version).Recorded
  watched : ∀ version, e.Watched version →
    e.earliestTimer ≤ (e.timers version).nextTimer ∧ version < e.mounted
  onTime : e.OnTime

variable {e} {e' : TimerEngine}

theorem new_sound : new.Sound where
  recorded _ := Timers.fresh_recorded
  watched version hw := by
    rcases hw with hmem | ⟨id, hphase⟩
    · cases hmem
    · cases hphase
  onTime := trivial

/-- A prelude function of any version, loaded or not. -/
theorem Sound.onTimers (h : e.Sound) {version : VersionId} {f : Scheduled → Scheduled}
    (hf : Scheduled.Keeps ⟨e.timers version, e.earliestTimer⟩
      (f ⟨e.timers version, e.earliestTimer⟩)) : (e.onTimers version f).Sound where
  recorded v := by
    show (Function.update e.timers version _ v).Recorded
    by_cases hv : v = version
    · subst hv
      rw [Function.update_self]
      exact hf.recorded
    · rw [Function.update_of_ne hv]
      exact h.recorded v
  watched v hw := by
    obtain ⟨hbelow, hmounted⟩ := h.watched v hw
    refine ⟨?_, hmounted⟩
    show _ ≤ (Function.update e.timers version _ v).nextTimer
    by_cases hv : v = version
    · subst hv
      rw [Function.update_self]
      exact hf.below hbelow
    · rw [Function.update_of_ne hv]
      exact hf.lowered.trans hbelow
  onTime := h.onTime

theorem Sound.move (h : e.Sound) {phase : Phase} (hw : ∀ id version, phase ≠ .mounting id version)
    (ht : OnTime { e with phase := phase }) : Sound { e with phase := phase } where
  recorded := h.recorded
  watched version hv := by
    rcases hv with hmem | ⟨id, hphase⟩
    · exact h.watched version (.inl hmem)
    · exact absurd hphase (hw id version)
  onTime := ht

theorem foldl_min_le {due : Double} {dues : List Double} (h : due ∈ dues) :
    dues.foldl min ⊤ ≤ due := by
  have hall : ∀ (dues : List Double) (least : Double), dues.foldl min least ≤ least ∧
      ∀ due ∈ dues, dues.foldl min least ≤ due := by
    intro dues
    induction dues with
    | nil => exact fun least => ⟨le_rfl, nofun⟩
    | cons head dues ih =>
      intro least
      obtain ⟨hle, hmem⟩ := ih (min least head)
      refine ⟨hle.trans (min_le_left _ _), fun due hdue => ?_⟩
      rcases List.mem_cons.mp hdue with rfl | hdue
      · exact hle.trans (min_le_right _ _)
      · exact hmem due hdue
  exact (hall dues ⊤).2 due h

theorem Sound.endAdvance (h : e.Sound) {a : Advance} (ha : a.now = e.clock) :
    (e.endAdvance a).Sound where
  recorded := h.recorded
  watched version hv := by
    rcases hv with hmem | ⟨id, hphase⟩
    · refine ⟨?_, (h.watched version (.inl hmem)).2⟩
      exact foldl_min_le (List.mem_map_of_mem hmem)
    · exfalso
      unfold TimerEngine.endAdvance at hphase
      dsimp only at hphase
      split_ifs at hphase
  onTime := by
    unfold OnTime TimerEngine.endAdvance
    dsimp only
    split_ifs
    · trivial
    · exact ha

theorem Sound.afterRun (h : e.Sound) {a : Advance} (ha : a.now = e.clock) (stop : Nat)
    (threw shouldStop : Bool) : (e.afterRun a stop threw shouldStop).Sound := by
  unfold TimerEngine.afterRun
  dsimp only
  split_ifs
  · exact h.endAdvance ha
  · exact h.move nofun ha

theorem Sound.proceed (h : e.Sound) (shouldStop : Bool) : (e.proceed shouldStop).Sound := by
  have ht := h.onTime
  unfold TimerEngine.proceed
  split
  · next a hphase =>
    have ha : a.now = e.clock := by
      unfold OnTime at ht
      rwa [hphase] at ht
    split
    · exact h.endAdvance ha
    · dsimp only
      split_ifs
      · exact h.move nofun ha
      · exact h.move nofun ha
  · next a stop hphase =>
    have ha : a.now = e.clock := by
      unfold OnTime at ht
      rwa [hphase] at ht
    split_ifs
    · exact h.move nofun ha
    · split
      · exact h.move nofun ha
      · next version hversion =>
        split_ifs
        · exact h.move nofun ha
        · dsimp only
          split
          · have hrun := h.onTimers (Scheduled.reschedule_keeps ⟨e.timers version, e.earliestTimer⟩)
            have hfired : ({ a with fired := a.fired + 1 } : Advance).now = e.clock := ha
            exact hrun.afterRun hfired stop false shouldStop
          · exact h.move nofun ha
  · next a stop due threw hphase =>
    have ha : a.now = e.clock := by
      unfold OnTime at ht
      rwa [hphase] at ht
    split
    · exact h
    · next version hversion =>
      split
      · have hended := h.onTimers (Scheduled.endRun_keeps (h.recorded version))
        exact hended.afterRun ha stop threw shouldStop
      · next id due =>
        split
        · exact h.move nofun ha
        · next timers hfire =>
          have hkeeps := Scheduled.fire_keeps
            (s := ⟨e.timers version, e.earliestTimer⟩) (h.recorded version) hfire
          have hfired := h.onTimers (f := fun s => { s with timers := timers }) hkeeps
          exact hfired.move nofun ha
  · exact h.move nofun trivial
  · exact h

theorem Sound.loadStarts (h : e.Sound) (id : ScriptId) (context : ContextId)
 : Sound { e with
      timers := Function.update e.timers e.mounted .fresh
      context := Function.update e.context e.mounted context
      mounted := e.mounted + 1
      phase := .mounting id e.mounted } where
  recorded v := by
    show (Function.update e.timers e.mounted .fresh v).Recorded
    by_cases hv : v = e.mounted
    · rw [hv, Function.update_self]
      exact Timers.fresh_recorded
    · rw [Function.update_of_ne hv]
      exact h.recorded v
  watched v hv := by
    rcases hv with hmem | ⟨id', hmounting⟩
    · obtain ⟨hbelow, hmounted⟩ := h.watched v (.inl hmem)
      refine ⟨?_, Nat.lt_succ_of_lt hmounted⟩
      show _ ≤ (Function.update e.timers e.mounted .fresh v).nextTimer
      rwa [Function.update_of_ne hmounted.ne]
    · cases hmounting
      refine ⟨?_, Nat.lt_succ_self _⟩
      show _ ≤ (Function.update e.timers e.mounted .fresh e.mounted).nextTimer
      rw [Function.update_self]
      exact le_top
  onTime := trivial

theorem Sound.step (h : e.Sound) {step : TimerStep} (hs : e.next step = some e') : e'.Sound := by
  unfold next at hs
  cases step with
  | call version call =>
    dsimp only at hs
    split_ifs at hs with hmounted
    cases hs
    exact h.onTimers (call.run_keeps (h.recorded version) e.clock)
  | loadStarts id context =>
    split_ifs at hs with hphase
    cases hs
    exact h.loadStarts id context
  | loadFails =>
    dsimp only at hs
    split at hs
    · cases hs
      exact h.move nofun trivial
    · cases hs
  | loadSucceeds =>
    dsimp only at hs
    split at hs
    · next id version hphase =>
      cases hs
      refine ⟨h.recorded, fun v hv => h.watched v ?_, trivial⟩
      rcases hv with hmem | ⟨id', hmounting⟩
      · obtain ⟨k, hk⟩ := IndexMap.mem_values.mp hmem
        rcases IndexMap.mem_insert.mp hk with ⟨-, rfl⟩ | ⟨-, hold⟩
        · exact .inr ⟨id, hphase⟩
        · exact .inl (IndexMap.mem_values.mpr ⟨k, hold⟩)
      · cases hmounting
    · cases hs
  | unload id =>
    split_ifs at hs with hphase
    cases hs
    refine ⟨h.recorded, fun v hv => h.watched v ?_, h.onTime⟩
    rcases hv with hmem | hmounting
    · obtain ⟨k, hk⟩ := IndexMap.mem_values.mp hmem
      exact .inl (IndexMap.mem_values.mpr ⟨k, (IndexMap.mem_erase.mp hk).2⟩)
    · exact .inr hmounting
  | advance elapsed =>
    split_ifs at hs with hphase
    cases hs
    dsimp only
    split_ifs
    · refine ⟨h.recorded, h.watched, ?_⟩
      unfold OnTime
      rw [hphase]
      trivial
    · have hclock : Sound { e with clock := add e.clock elapsed } := by
        refine ⟨h.recorded, h.watched, ?_⟩
        unfold OnTime
        rw [hphase]
        trivial
      exact hclock.move nofun rfl
  | proceed shouldStop =>
    cases hs
    exact h.proceed shouldStop
  | callbackEnds ending shouldStop =>
    have ht := h.onTime
    dsimp only at hs
    split at hs
    · next a stop due threw hphase =>
      have ha : a.now = e.clock := by
        unfold OnTime at ht
        rwa [hphase] at ht
      cases ending with
      | returned =>
        cases hs
        exact h.move nofun ha
      | threw =>
        cases hs
        exact h.move nofun ha
      | aborted =>
        cases hs
        exact h.afterRun ha stop true shouldStop
    · cases hs

theorem Reached.sound (h : e.Reached) : e.Sound := by
  obtain ⟨steps, hrun⟩ := h
  have hpreserves : Transition.Preserves (fun (e : TimerEngine) step e' => e.next step = some e')
      Sound := fun _ _ _ hsound hstep => hsound.step hstep
  exact hrun.invariant hpreserves new_sound

private theorem Sound.not_due (h : e.Sound) {version : VersionId} {now : Double}
    (hnow : now < (e.timers version).nextTimer) {timer : Timer}
    (ht : timer ∈ (e.timers version).live) (hlive : timer.Live) : now < timer.due :=
  hnow.trans_le ((h.recorded version).notPast timer ht hlive)

theorem not_isDue {now : Double} {version : VersionId} (h : e.isDue now version = false) :
    now < (e.timers version).nextTimer := by
  unfold isDue at h
  exact not_le.mp (of_decide_eq_false h)

private theorem endAdvance_clock (a : Advance) : (e.endAdvance a).clock = e.clock := rfl

theorem afterRun_clock (a : Advance) (stop : Nat) (threw shouldStop : Bool) :
    (e.afterRun a stop threw shouldStop).clock = e.clock := by
  unfold afterRun
  dsimp only
  split_ifs <;> rfl

theorem proceed_clock (shouldStop : Bool) : (e.proceed shouldStop).clock = e.clock := by
  unfold proceed
  split
  · split
    · exact endAdvance_clock _
    · dsimp only
      split_ifs <;> rfl
  · split_ifs
    · rfl
    · split
      · rfl
      · split_ifs
        · rfl
        · dsimp only
          split
          · exact afterRun_clock _ _ _ _
          · rfl
  · split
    · rfl
    · split
      · exact afterRun_clock _ _ _ _
      · split <;> rfl
  · rfl
  · rfl

/-- What a step skips has recorded a time past the clock that the step leaves. -/
theorem Sound.skipped (h : e.Sound) {step : TimerStep} (hs : e.next step = some e')
    {version : VersionId} (hv : version ∈ e.skipped step) :
    e'.clock < (e.timers version).nextTimer := by
  unfold TimerEngine.skipped at hv
  split at hv
  · next elapsed =>
    split_ifs at hv with hearly
    · have hclock : e'.clock = add e.clock elapsed := by
        simp only [next, hearly.1, hearly.2, if_true] at hs
        cases hs
        rfl
      rw [hclock]
      exact hearly.2.trans_le (h.watched version (.inl hv)).1
    · cases hv
  · next shouldStop =>
    have hclock : e'.clock = e.clock := by
      cases hs
      exact proceed_clock shouldStop
    have ht := h.onTime
    unfold OnTime at ht
    rw [hclock]
    split at hv
    · next a hphase =>
      rw [hphase] at ht
      split at hv
      · cases hv
      · dsimp only at hv
        split_ifs at hv with hany
        · cases hv
        · rw [← ht]
          apply not_isDue
          rw [Bool.not_eq_true, List.any_eq_false] at hany
          exact Bool.eq_false_iff.mpr (hany version hv)
    · next a stop hphase =>
      rw [hphase] at ht
      split_ifs at hv with hstop
      · cases hv
      · split at hv
        · cases hv
        · next v hindex =>
          split_ifs at hv with hdue
          · rw [List.mem_singleton.mp hv, ← ht]
            exact not_isDue (by simpa using hdue)
          · cases hv
    · cases hv
  · cases hv

/-- The engine's time is never past the due time a loaded script recorded, nor that past the due
time of any of the script's live timers; so no step skips a timer that is due. -/
theorem timer_skipping (h : e.Reached) :
    (∀ version ∈ e.scripts.values, e.earliestTimer ≤ (e.timers version).nextTimer ∧
      ∀ timer ∈ (e.timers version).live, timer.Live → (e.timers version).nextTimer ≤ timer.due) ∧
    ∀ step e', e.next step = some e' → ∀ version ∈ e.skipped step,
      ∀ timer ∈ (e.timers version).live, timer.Live → e'.clock < timer.due := by
  have hsound := h.sound
  constructor
  · intro version hversion
    have hbelow := (hsound.watched version (.inl hversion)).1
    exact ⟨hbelow, (hsound.recorded version).notPast⟩
  · intro step e' hstep version hversion timer htimer hlive
    exact hsound.not_due (hsound.skipped hstep hversion) htimer hlive

/-- The least time a timer can wait. -/
def shortestWait : Double := ((⟨1, by decide⟩ : {n : ℕ // Representable n}) : Double)

/-- An engine that loads a script whose top-level code calls `setTimeout`. -/
def afterSetTimeout : TimerEngine :=
  { (new.onTimers 0 (Scheduled.addTimer new.clock shortestWait false)) with
    mounted := 1
    scripts := new.scripts.insert ['a'] 0 }

private theorem afterSetTimeout_reached : afterSetTimeout.Reached := by
  refine ⟨[.loadStarts ['a'] 0, .call 0 (.set shortestWait false), .loadSucceeds], ?_⟩
  have hfresh : Function.update (fun _ : VersionId => Timers.fresh) 0 Timers.fresh =
      fun _ => Timers.fresh := Function.update_eq_self 0 _
  have hcontext : Function.update (fun _ : VersionId => (0 : ContextId)) 0 0 = fun _ => 0 :=
    Function.update_eq_self 0 _
  refine .cons (t := { new with mounted := 1, phase := .mounting ['a'] 0 }) ?_
    (.cons rfl (.cons rfl (.nil _)))
  unfold next new
  dsimp only
  rw [if_pos rfl, hfresh, hcontext]

/-- An advance that does not reach the timer returns early, and the timer is not due. -/
theorem timer_skipping_setTimeout :
    ∃ e', afterSetTimeout.next (.advance new.clock) = some e' ∧
      afterSetTimeout.skipped (.advance new.clock) = [0] ∧
      ∃ timer ∈ (afterSetTimeout.timers 0).live, timer.Live ∧ e'.clock < timer.due := by
  refine ⟨_, rfl, rfl, ?_⟩
  obtain ⟨-, hskipped⟩ := timer_skipping afterSetTimeout_reached
  refine ⟨_, List.mem_singleton_self _, rfl, ?_⟩
  exact hskipped (.advance new.clock) _ rfl 0 (List.mem_singleton_self 0) _
    (List.mem_singleton_self _) rfl

end TimerEngine

end RustTS.Runner
