import Mathlib.Data.List.Sort
import RustTS.Runner.Timers

/-! `runTimers`: one run of a version's due timers, with whatever their callbacks ask of the timers
meanwhile. An abort (an interrupt, or a budget that is spent) strikes at a call or at a turn of a
loop, in a callback or in the prelude's own functions, and leaves the timers as they are then. -/
namespace RustTS.Runner
open Binary64

variable {E : Type}

/-- How a callback ends, or a run of timers. -/
inductive RunEnd (E : Type)
  | returned
  | threw (error : E)
  | aborted

/-- How far an aborted call of a timer function got: what it did last. -/
inductive CallStage
  | counted
  | listed
  | known
  | lowered
  | marked
  | retired

/-- What a callback does as far as timers see it: the calls it makes, in order, how it ends, and
the call that an abort strikes, if it strikes one. -/
structure Callback (E : Type) where
  calls : List TimerCall
  ending : RunEnd E
  cut : Option (TimerCall × CallStage)

/-- A timer whose callback was called, what it did, and the timers it cleared. -/
structure Fired (E : Type) where
  id : Nat
  did : Callback E
  cleared : List Nat

/-- What the callbacks do: it may depend on the timer and on all that ran before it. -/
abbrev Callbacks (E : Type) := List (Fired E) → Nat → Callback E

/-- The loop of a run under way; `failure` is the first error thrown. -/
structure Firing (E : Type) where
  scheduled : Scheduled
  trace : List (Fired E)
  failure : Option E
  aborted : Bool

/-- Where a run is cut off outside the callbacks. -/
inductive Cut
  | collecting
  | sweeping (turns : Nat)
  | rescheduling

/-- A run that is over. -/
structure TimerRun (E : Type) where
  scheduled : Scheduled
  trace : List (Fired E)
  ending : RunEnd E

def TimerRun.fired (r : TimerRun E) : List Nat := r.trace.map (·.id)

namespace Scheduled

/-- One turn of the loop that collects the due timers: the first, and all of them once there is a
second. -/
def collect (time : Double) : Option Timer × Option (List Timer) → Timer →
    Option Timer × Option (List Timer)
  | (only, due), timer =>
    if timer.cancelled || time < timer.due then (only, due)
    else match only, due with
      | none, due => (some timer, due)
      | some only, none => (some only, some [only, timer])
      | some only, some due => (some only, some (due ++ [timer]))

/-- `left.due - right.due || left.id - right.id` is not positive. -/
def inOrder (left right : Timer) : Bool :=
  left.due < right.due ∨ left.due = right.due ∧ left.id ≤ right.id

/-- The calls of a callback, made at engine time `now`. -/
def perform (now : Double) (s : Scheduled) (calls : List TimerCall) : Scheduled :=
  calls.foldl (TimerCall.run now) s

/-- `addTimer`, when an abort strikes it. -/
def addTimerTo (stage : CallStage) (now wait : Double) (repeats : Bool) (s : Scheduled) :
    Scheduled :=
  let t := s.timers
  let timer : Timer := ⟨t.nextTimerId, add now wait, if repeats then some wait else none, false⟩
  let counted := { t with nextTimerId := t.nextTimerId + 1 }
  let listed := { counted with live := t.live ++ [timer] }
  let known := { listed with byId := timer.id :: t.byId }
  match stage with
  | .counted => { s with timers := counted }
  | .listed => { s with timers := listed }
  | .known => { s with timers := known }
  | .lowered => { s with timers := { known with earliest := min timer.due t.earliest } }
  | _ => s

/-- `clearTimer`, when an abort strikes it. -/
def clearTimerTo (stage : CallStage) (id : Nat) (s : Scheduled) : Scheduled :=
  match s.timers.live.find? fun timer => timer.id = id ∧ id ∈ s.timers.byId with
  | none => s
  | some _ =>
    match stage with
    | .marked => { s with timers :=
        { s.timers with
          live := modify id (fun timer => { timer with cancelled := true }) s.timers.live } }
    | .retired => { s with timers := retire id s.timers }
    | .lowered => { s with timers :=
        { retire id s.timers with
          earliest := (reschedule { s with timers := retire id s.timers }).timers.earliest } }
    | _ => s

/-- The timers that the calls clear: a call with another value finds none. -/
def clearedBy (now : Double) : Scheduled → List TimerCall → List Nat
  | _, [] => []
  | s, .set wait repeats :: calls => clearedBy now (s.addTimer now wait repeats) calls
  | s, .clear id :: calls =>
    (if (s.timers.live.find? fun timer => timer.id = id ∧ id ∈ s.timers.byId).isSome then [id]
      else []) ++ clearedBy now (s.clearTimer id) calls

end Scheduled

def TimerCall.cutAt (now : Double) (s : Scheduled) (stage : CallStage) : TimerCall → Scheduled
  | .set wait repeats => s.addTimerTo stage now wait repeats
  | .clear id => s.clearTimerTo stage id

/-- What a callback makes of the timers. -/
def Callback.perform (now : Double) (s : Scheduled) (did : Callback E) : Scheduled :=
  let called := s.perform now did.calls
  match did.ending, did.cut with
  | .aborted, some (call, stage) => call.cutAt now called stage
  | _, _ => called

namespace Firing

/-- `fire`, with the callback it calls. -/
def fire (callbacks : Callbacks E) (now : Double) (id : Nat) (f : Firing E) : Firing E :=
  match Scheduled.fire id f.scheduled.timers with
  | none => f
  | some timers =>
    let before := { f.scheduled with timers := timers }
    let did := callbacks f.trace id
    { scheduled := did.perform now before
      trace := f.trace ++ [⟨id, did, before.clearedBy now did.calls⟩]
      failure := match did.ending with
        | .threw error => f.failure.or (some error)
        | _ => f.failure
      aborted := match did.ending with
        | .aborted => true
        | _ => false }

/-- The loop over the due timers. -/
def fireAll (callbacks : Callbacks E) (now : Double) : List Nat → Firing E → Firing E
  | [], f => f
  | id :: due, f =>
    let f := f.fire callbacks now id
    if f.aborted then f else fireAll callbacks now due f

end Firing

namespace Scheduled

/-- The sweep after `turns` turns of its loop: what it keeps has moved to the front, and the rest
of the array is as it was. -/
def sweepFor (turns : Nat) (t : Timers) : Timers :=
  let kept := (t.live.take turns).filter (!·.cancelled)
  if 0 < t.finished then { t with live := kept ++ t.live.drop kept.length } else t

/-- The end of `runTimers`, once the due timers are fired. -/
def finishRun (cut : Option Cut) (f : Firing E) : TimerRun E :=
  if f.aborted then ⟨f.scheduled, f.trace, .aborted⟩
  else match cut with
    | some (.sweeping turns) =>
      ⟨{ f.scheduled with timers := sweepFor turns f.scheduled.timers }, f.trace, .aborted⟩
    | some _ => ⟨{ f.scheduled with timers := sweep f.scheduled.timers }, f.trace, .aborted⟩
    | none =>
      ⟨endRun f.scheduled, f.trace, match f.failure with
        | some error => .threw error
        | none => .returned⟩

/-- `runTimers`, at engine time `now`. -/
def runTimers (callbacks : Callbacks E) (now time : Double) (cut : Option Cut) (s : Scheduled) :
    TimerRun E :=
  let f : Firing E := ⟨s, [], none, false⟩
  match cut, s.timers.live.foldl (collect time) (none, none) with
  | some .collecting, _ => ⟨s, [], .aborted⟩
  | some _, (none, _) => ⟨s, [], .aborted⟩
  | none, (none, _) => ⟨s.reschedule, [], .returned⟩
  | cut, (some only, none) => finishRun cut (f.fire callbacks now only.id)
  | cut, (some _, some due) =>
    finishRun cut (f.fireAll callbacks now ((due.mergeSort inOrder).map (·.id)))

end Scheduled

/-- What happens to the timers of a version: a call its script makes outside of timer callbacks,
one that an abort strikes, or a run. -/
inductive TimerEvent (E : Type)
  | ask (now : Double) (call : TimerCall)
  | cutAsk (now : Double) (call : TimerCall) (stage : CallStage)
  | run (callbacks : Callbacks E) (now time : Double) (cut : Option Cut)

/-- The timers after the event, and the timers it fires. -/
def TimerEvent.next (s : Scheduled) : TimerEvent E → Scheduled × List Nat
  | .ask now call => (call.run now s, [])
  | .cutAsk now call stage => (call.cutAt now s stage, [])
  | .run callbacks now time cut =>
    let r := s.runTimers callbacks now time cut
    (r.scheduled, r.fired)

namespace Scheduled

/-- A version's timers as it starts. -/
def fresh : Scheduled := ⟨.fresh, ⊤⟩

/-- The timers after the events. -/
def after (s : Scheduled) (events : List (TimerEvent E)) : Scheduled :=
  events.foldl (fun s event => (event.next s).1) s

/-- The timers that the events fire, in order. -/
def firedIn : Scheduled → List (TimerEvent E) → List Nat
  | _, [] => []
  | s, event :: events => (event.next s).2 ++ firedIn (event.next s).1 events

end Scheduled

end RustTS.Runner
