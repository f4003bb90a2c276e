import RustTS.Lib.Transition
import RustTS.Runner.AdvanceTimers
import RustTS.Runner.Execution

/-! The loops of `Engine::dispatch` and `Engine::advance_timers` step by step, among interrupts,
interrupt checks and whatever the handlers and callbacks do, and what a stop means in them. The
counts and errors of these operations are not part of it. -/
namespace RustTS.Runner
open Binary64 ModuleLoader

/-- The visit that a delivery to one script is part of: to the context of a single script, or one
that serves several. -/
inductive ServedIn
  | single (stop : Nat)
  | member (index stop : Nat)
  deriving DecidableEq, Repr

/-- Where an operation is. `start` is the place in the loaded scripts where the next visit begins,
`stop` the one after the visit, `index` the script served. -/
inductive LoopPlace (H : Type)
  | idle
  /-- The head of the loop of `dispatch`. -/
  | dispatching (event : Text) (start : Nat) (stopped : Bool)
  /-- The payload is encoded for the context of a single script, whose handlers are taken. -/
  | encodingSingle (event : Text) (index stop : Nat) (handlers : List H)
  | encodingGroup (event : Text) (start stop : Nat)
  /-- The loop over the scripts of a visit. -/
  | members (event : Text) (index stop : Nat)
  /-- The loop of `deliver`. -/
  | delivering (event : Text) (served : ServedIn) (index : Nat) (rest : List H)
  /-- A handler runs, or what takes its result. -/
  | handling (event : Text) (served : ServedIn) (index : Nat) (rest : List H)
  /-- `deliver` is about to read `should_stop`. -/
  | handled (event : Text) (served : ServedIn) (index : Nat) (rest : List H)
  /-- `dispatch` is about to read `should_stop` after a delivery to a script. -/
  | delivered (event : Text) (served : ServedIn)
  /-- The head of the loop of `advance_timers`. -/
  | advancing (start : Nat) (stopped : Bool)
  | timers (index stop : Nat)
  /-- A script's due timers run. -/
  | firing (index stop : Nat)
  /-- `advance_timers` is about to read `should_stop`. -/
  | fired (index stop : Nat)

/-- What was entered: a handler of a script, or a script's timers. -/
inductive Entry (H : Type)
  | handler (index : Nat) (handler : H)
  | timers (index : Nat)

/-- The engine, less what these loops do not read: its clock and `EarliestDue`, the execution
control, each script's handlers by event and its `NextTimer`, and what was entered so far. -/
structure LoopState (H : Type) where
  clock : Double
  earliestTimer : Double
  control : ExecutionControl
  handlers : Nat → Text → Option (List H)
  nextTimer : Nat → Double
  place : LoopPlace H
  entered : List (Entry H)

/-- What changes the execution control within an operation: an interrupt check of QuickJS, and a
request from any thread. -/
inductive ControlEvent
  | check (now : Nat)
  | request

def ControlEvent.apply (c : ExecutionControl) : ControlEvent → ExecutionControl
  | .check now => (c.interrupted now).2
  | .request => c.requestInterrupt

/-- `record` and `schedule` are the prelude's hooks, which any script's JavaScript may come to call
while some JavaScript runs; `proceed` is a step of the loops, which says whether the payload encoded; `ends` is the end of a
handler and of what takes its result, or of a run of due timers. -/
inductive LoopStep (H : Type)
  | control (event : ControlEvent)
  | record (index : Nat) (event : Text) (handlers : Option (List H))
  | schedule (index : Nat) (due : Double)
  | emit (event : Text) (budget : Nat)
  | advance (elapsed : Double) (budget : Nat)
  | proceed (encoded : Bool)
  | ends

namespace LoopState

variable {H : Type}

def new : LoopState H where
  clock := ((⟨0, representable_zero⟩ : {n : ℕ // Representable n}) : Double)
  earliestTimer := ⊤
  control := .default
  handlers _ _ := none
  nextTimer _ := ⊤
  place := .idle
  entered := []

variable (s : LoopState H)

/-- `NextTimer::is_due`. -/
def isDue (index : Nat) : Bool := s.nextTimer index ≤ s.clock

section Step
variable (scripts : List ContextId)

/-- The end of the stretch of scripts from `start` on that share a context. -/
def stretchEnd (start : Nat) : Nat :=
  start + 1 + ((scripts.drop (start + 1)).takeWhile fun next => scripts[start]? = some next).length

/-- The end of the loop over the scripts: the engine's time becomes what they report now. -/
def endAdvance : LoopState H :=
  { s with
    earliestTimer := ((List.range scripts.length).map s.nextTimer).foldl min ⊤
    control := s.control.leave
    place := .idle }

/-- The step of the loops. -/
def proceed (encoded : Bool) : Option (LoopState H) :=
  match s.place with
  | .idle => none
  | .handling .. => none
  | .firing .. => none
  | .dispatching event start stopped =>
    if start < scripts.length ∧ !stopped then
      let stop := stretchEnd scripts start
      if stop - start = 1 then
        match s.handlers start event with
        | none => some { s with place := .dispatching event stop stopped }
        | some handlers => some { s with place := .encodingSingle event start stop handlers }
      else if (List.range' start (stop - start)).any fun index => (s.handlers index event).isSome then
        some { s with place := .encodingGroup event start stop }
      else some { s with place := .dispatching event stop stopped }
    else some { s with control := s.control.leave, place := .idle }
  | .encodingSingle event index stop handlers =>
    some { s with
      place := if encoded then .delivering event (.single stop) index handlers
        else .delivered event (.single stop) }
  | .encodingGroup event start stop =>
    some { s with
      place := if encoded then .members event start stop else .dispatching event stop false }
  | .members event index stop =>
    if index < stop then
      match s.handlers index event with
      | none => some { s with place := .members event (index + 1) stop }
      | some handlers =>
        some { s with place := .delivering event (.member index stop) index handlers }
    else some { s with place := .dispatching event stop false }
  | .delivering event served _ [] => some { s with place := .delivered event served }
  | .delivering event served index (handler :: rest) =>
    some { s with
      place := .handling event served index rest
      entered := s.entered ++ [.handler index handler] }
  | .handled event served index rest =>
    some { s with
      place := if s.control.shouldStop then .delivered event served
        else .delivering event served index rest }
  | .delivered event (.single stop) =>
    some { s with place := .dispatching event stop s.control.shouldStop }
  | .delivered event (.member index stop) =>
    some { s with
      place := if s.control.shouldStop then .dispatching event stop true
        else .members event (index + 1) stop }
  | .advancing start stopped =>
    if start < scripts.length ∧ !stopped then
      let stop := stretchEnd scripts start
      some { s with
        place := if (List.range' start (stop - start)).any s.isDue then .timers start stop
          else .advancing stop stopped }
    else some (s.endAdvance scripts)
  | .timers index stop =>
    if index < stop then
      if s.isDue index then
        some { s with place := .firing index stop, entered := s.entered ++ [.timers index] }
      else some { s with place := .timers (index + 1) stop }
    else some { s with place := .advancing stop false }
  | .fired index stop =>
    some { s with
      place := if s.control.shouldStop then .advancing stop true else .timers (index + 1) stop }

/-- Whether JavaScript may run: a handler, a callback, or what another operation runs. -/
def runsScript : Bool :=
  match s.place with
  | .idle | .handling .. | .firing .. => true
  | _ => false

/-- The engine after the step, when it is one the engine can take now; `scripts` are the contexts
of the loaded scripts, in load order. -/
def next : LoopStep H → Option (LoopState H)
  | .control event => some { s with control := event.apply s.control }
  | .record index event handlers =>
    if s.runsScript then
      some { s with handlers :=
        Function.update s.handlers index (Function.update (s.handlers index) event handlers) }
    else none
  | .schedule index due =>
    if s.runsScript then
      some { s with
        nextTimer := Function.update s.nextTimer index due
        earliestTimer := lower s.earliestTimer due }
    else none
  | .emit event budget =>
    match s.place with
    | .idle => some { s with control := s.control.enter budget, place := .dispatching event 0 false }
    | _ => none
  | .advance elapsed budget =>
    match s.place with
    | .idle =>
      let s := { s with clock := add s.clock elapsed }
      some (if s.clock < s.earliestTimer then s
        else { s with control := s.control.enter budget, place := .advancing 0 false })
    | _ => none
  | .proceed encoded => s.proceed scripts encoded
  | .ends =>
    match s.place with
    | .handling event served index rest => some { s with place := .handled event served index rest }
    | .firing index stop => some { s with place := .fired index stop }
    | _ => none

def Step (s : LoopState H) (step : LoopStep H) (t : LoopState H) : Prop :=
  s.next scripts step = some t

end Step

end LoopState

/-- The step begins an operation. -/
def LoopStep.begins {H : Type} : LoopStep H → Bool
  | .emit .. | .advance .. => true
  | _ => false

namespace LoopState
variable {H : Type} {s t u : LoopState H} {scripts : List ContextId}

/-- The steps within an operation, and between operations. -/
def Within (scripts : List ContextId) (s : LoopState H) (step : LoopStep H) (t : LoopState H) :
    Prop :=
  step.begins = false ∧ s.Step scripts step t

theorem shouldStop_apply {c : ExecutionControl} (h : c.shouldStop = true) (event : ControlEvent) :
    (event.apply c).shouldStop = true := by
  unfold ExecutionControl.shouldStop at h ⊢
  cases event with
  | request => simp [ControlEvent.apply, ExecutionControl.requestInterrupt]
  | check now =>
    show ((c.interrupted now).2.interruptRequested || (c.interrupted now).2.stopped) = true
    rw [ExecutionControl.interrupted_interruptRequested]
    rcases (Bool.or_eq_true _ _).mp h with hrequested | hstopped
    · rw [hrequested]
      rfl
    · have hkept : (c.interrupted now).2.stopped = true := by
        simp only [ExecutionControl.interrupted]
        split_ifs
        · rfl
        · rw [ExecutionControl.startClock_stopped, hstopped]
      rw [hkept, Bool.or_true]

/-- The operation under way will not enter anything any more. -/
def Doomed (s : LoopState H) : Prop :=
  match s.place with
  | .idle => True
  | .dispatching _ _ stopped => stopped = true
  | .advancing _ stopped => stopped = true
  | .handled .. => s.control.shouldStop = true
  | .delivered .. => s.control.shouldStop = true
  | .fired .. => s.control.shouldStop = true
  | _ => False

theorem Doomed.proceed (h : s.Doomed) {encoded : Bool} (hstep : s.proceed scripts encoded = some t) :
    t.Doomed ∧ t.entered = s.entered := by
  unfold Doomed at h
  unfold LoopState.proceed at hstep
  cases hplace : s.place <;> rw [hplace] at h hstep <;> dsimp only at h hstep
  case idle => cases hstep
  case dispatching event start stopped =>
    rw [if_neg (by simp [h])] at hstep
    cases hstep
    exact ⟨trivial, rfl⟩
  case handled event served index rest =>
    rw [if_pos h] at hstep
    cases hstep
    exact ⟨h, rfl⟩
  case delivered event served =>
    cases served with
    | single stop =>
      cases hstep
      exact ⟨h, rfl⟩
    | member index stop =>
      dsimp only at hstep
      rw [if_pos h] at hstep
      cases hstep
      exact ⟨rfl, rfl⟩
  case advancing start stopped =>
    rw [if_neg (by simp [h])] at hstep
    cases hstep
    exact ⟨trivial, rfl⟩
  case fired index stop =>
    rw [if_pos h] at hstep
    cases hstep
    exact ⟨rfl, rfl⟩

/-- A step within the operation leaves it doomed, and enters nothing. -/
theorem Doomed.step (h : s.Doomed) {step : LoopStep H} (hstep : Within scripts s step t) :
    t.Doomed ∧ t.entered = s.entered := by
  obtain ⟨hbegins, hstep⟩ := hstep
  unfold Step next at hstep
  cases step with
  | control event =>
    cases hstep
    refine ⟨?_, rfl⟩
    unfold Doomed at h ⊢
    dsimp only
    split <;> simp_all [shouldStop_apply]
  | record index event handlers =>
    dsimp only at hstep
    split_ifs at hstep
    cases hstep
    exact ⟨h, rfl⟩
  | schedule index due =>
    dsimp only at hstep
    split_ifs at hstep
    cases hstep
    exact ⟨h, rfl⟩
  | emit event budget => cases hbegins
  | advance elapsed budget => cases hbegins
  | proceed encoded => exact h.proceed hstep
  | ends =>
    unfold Doomed at h
    dsimp only at hstep
    split at hstep
    · rename_i hplace
      rw [hplace] at h
      exact h.elim
    · rename_i hplace
      rw [hplace] at h
      exact h.elim
    · cases hstep

theorem Doomed.run (h : s.Doomed) {steps : List (LoopStep H)}
    (hrun : Transition.Run (Within scripts) s steps t) : t.entered = s.entered := by
  induction hrun with
  | nil => rfl
  | cons hfirst _ ih =>
    obtain ⟨hdoomed, hentered⟩ := h.step hfirst
    exact (ih hdoomed).trans hentered

/-- The engine's time is not past what any loaded script recorded. -/
def Below (scripts : List ContextId) (s : LoopState H) : Prop :=
  ∀ index < scripts.length, s.earliestTimer ≤ s.nextTimer index

private theorem below_endAdvance : (s.endAdvance scripts).Below scripts := by
  intro index hindex
  apply TimerEngine.foldl_min_le
  exact List.mem_map_of_mem (List.mem_range.mpr hindex)

/-- What the loops do to the clock and the records. -/
theorem proceed_records {encoded : Bool} (hstep : s.proceed scripts encoded = some t) :
    t.clock = s.clock ∧ t.nextTimer = s.nextTimer ∧
      (t.earliestTimer = s.earliestTimer ∨ t.Below scripts) := by
  unfold LoopState.proceed at hstep
  cases hplace : s.place <;> rw [hplace] at hstep <;> dsimp only at hstep
  case idle => cases hstep
  case handling => cases hstep
  case firing => cases hstep
  case dispatching event start stopped =>
    split_ifs at hstep
    · split at hstep
      all_goals
        cases hstep
        exact ⟨rfl, rfl, .inl rfl⟩
    all_goals
      cases hstep
      exact ⟨rfl, rfl, .inl rfl⟩
  case members event index stop =>
    split_ifs at hstep
    · split at hstep
      all_goals
        cases hstep
        exact ⟨rfl, rfl, .inl rfl⟩
    · cases hstep
      exact ⟨rfl, rfl, .inl rfl⟩
  case delivering event served index rest =>
    cases rest with
    | nil =>
      cases hstep
      exact ⟨rfl, rfl, .inl rfl⟩
    | cons handler rest =>
      cases hstep
      exact ⟨rfl, rfl, .inl rfl⟩
  case delivered event served =>
    cases served with
    | single stop =>
      cases hstep
      exact ⟨rfl, rfl, .inl rfl⟩
    | member index stop =>
      cases hstep
      exact ⟨rfl, rfl, .inl rfl⟩
  case advancing start stopped =>
    by_cases hloop : start < scripts.length ∧ (!stopped) = true
    · rw [if_pos hloop] at hstep
      cases hstep
      exact ⟨rfl, rfl, .inl rfl⟩
    · rw [if_neg hloop] at hstep
      cases hstep
      exact ⟨rfl, rfl, .inr below_endAdvance⟩
  case timers index stop =>
    split_ifs at hstep
    all_goals
      cases hstep
      exact ⟨rfl, rfl, .inl rfl⟩
  all_goals
    cases hstep
    exact ⟨rfl, rfl, .inl rfl⟩

theorem Below.step (h : s.Below scripts) {step : LoopStep H} (hstep : s.Step scripts step t) :
    t.Below scripts := by
  unfold Step next at hstep
  cases step with
  | control event =>
    cases hstep
    exact h
  | record index event handlers =>
    dsimp only at hstep
    split_ifs at hstep
    cases hstep
    exact h
  | schedule index due =>
    dsimp only at hstep
    split_ifs at hstep
    cases hstep
    intro other hother
    by_cases heq : other = index
    · subst heq
      dsimp only
      rw [Function.update_self]
      exact lower_le_due _ _
    · dsimp only
      rw [Function.update_of_ne heq]
      exact (lower_le _ _).trans (h other hother)
  | emit event budget =>
    dsimp only at hstep
    split at hstep
    · cases hstep
      exact h
    · cases hstep
  | advance elapsed budget =>
    dsimp only at hstep
    split at hstep
    · cases hstep
      split_ifs
      · exact h
      · exact h
    · cases hstep
  | proceed encoded =>
    obtain ⟨-, hrecords, hearliest | hbelow⟩ := proceed_records hstep
    · intro index hindex
      rw [hearliest, hrecords]
      exact h index hindex
    · exact hbelow
  | ends =>
    dsimp only at hstep
    split at hstep
    · cases hstep
      exact h
    · cases hstep
      exact h
    · cases hstep

/-- An engine whose script has two handlers for an event, the first of which runs and was
interrupted. -/
def interrupted : LoopState Unit where
  clock := (new : LoopState Unit).clock
  earliestTimer := ⊤
  control := (ExecutionControl.default.enter 0).requestInterrupt
  handlers := Function.update (fun _ _ => none) 0
    (Function.update (fun _ => none) ['e'] (some [(), ()]))
  nextTimer _ := ⊤
  place := .handling ['e'] (.single 1) 0 [()]
  entered := [.handler 0 ()]

end LoopState

end RustTS.Runner
