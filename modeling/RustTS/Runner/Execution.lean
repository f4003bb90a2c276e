import Mathlib.Algebra.Order.Ring.Nat

/-! The cooperative execution budget: the deadline and the interrupt request that the
QuickJS interrupt handler reads. Times are nanoseconds since the control was made. -/
namespace RustTS.Runner

/-- `u64::MAX`. -/
def u64Max : Nat := 2 ^ 64 - 1

/-- No operation is running, or it has no time limit. -/
def noDeadline : Nat := u64Max

/-- An operation with a time limit runs and its clock has not started. -/
def pending : Nat := u64Max - 1

def checkedAdd (a b : Nat) : Option Nat :=
  if a + b ≤ u64Max then some (a + b) else none

structure ExecutionControl where
  deadline : Nat
  budget : Nat
  interruptRequested : Bool
  stopped : Bool
  deriving DecidableEq, Repr

namespace ExecutionControl

protected def default : ExecutionControl := ⟨noDeadline, 0, false, false⟩

def elapsedNanos (now : Nat) : Nat :=
  if now ≤ u64Max then now else noDeadline - 1

/-- Starts the clock of the running operation's budget if it has not started. -/
def startClock (now : Nat) (c : ExecutionControl) : ExecutionControl :=
  if c.deadline = pending then
    let deadline := (checkedAdd (elapsedNanos now) c.budget).filter fun d => decide (d < pending)
    { c with deadline := deadline.getD noDeadline }
  else c

def budgetExpired (now : Nat) (c : ExecutionControl) : Bool :=
  if c.deadline = noDeadline ∨ c.deadline = pending then false
  else decide (c.deadline ≤ elapsedNanos now)

/-- The QuickJS interrupt check. The source reads the clock twice; a check whose second
reading is later is `startClock` at the first one, then this. -/
def interrupted (now : Nat) (c : ExecutionControl) : Bool × ExecutionControl :=
  let c := c.startClock now
  let stop := c.interruptRequested || c.budgetExpired now
  (stop, if stop then { c with stopped := true } else c)

/-- Whether the running operation must stop entering JavaScript. -/
def shouldStop (c : ExecutionControl) : Bool :=
  c.interruptRequested || c.stopped

def requestInterrupt (c : ExecutionControl) : ExecutionControl :=
  { c with interruptRequested := true }

/-- Begins an operation with a budget of `budget` nanoseconds, a `Duration`. -/
def enter (budget : Nat) (c : ExecutionControl) : ExecutionControl :=
  let c := { c with interruptRequested := false, stopped := false }
  if budget < pending then { c with budget := budget, deadline := pending }
  else { c with deadline := noDeadline }

/-- The drop of the guard `enter` returned. -/
def leave (c : ExecutionControl) : ExecutionControl :=
  { c with deadline := noDeadline }

@[simp] theorem startClock_interruptRequested (now : Nat) (c : ExecutionControl) :
    (c.startClock now).interruptRequested = c.interruptRequested := by
  unfold startClock
  split <;> rfl

@[simp] theorem startClock_stopped (now : Nat) (c : ExecutionControl) :
    (c.startClock now).stopped = c.stopped := by
  unfold startClock
  split <;> rfl

@[simp] theorem interrupted_interruptRequested (now : Nat) (c : ExecutionControl) :
    (c.interrupted now).2.interruptRequested = c.interruptRequested := by
  simp only [interrupted]
  split <;> simp

@[simp] theorem requestInterrupt_interruptRequested (c : ExecutionControl) :
    c.requestInterrupt.interruptRequested = true := rfl

@[simp] theorem enter_interruptRequested (budget : Nat) (c : ExecutionControl) :
    (c.enter budget).interruptRequested = false := by
  unfold enter
  dsimp only
  split <;> rfl

@[simp] theorem leave_interruptRequested (c : ExecutionControl) :
    c.leave.interruptRequested = c.interruptRequested := rfl

end ExecutionControl

/-- What can reach the control at any moment of an operation: a request from any thread, an
interrupt check of the running JavaScript, or the start of a host function. -/
inductive Tick
  | request
  | check (now : Nat)
  | hostCall (now : Nat)
  deriving DecidableEq, Repr

/-- What an observer of the control sees, in order: an operation's stage entering it, a
request, or a check with the request flag it read and its verdict. -/
inductive Observation
  | entered
  | requested
  | checked (requestSeen stop : Bool)
  deriving DecidableEq, Repr

/-- The control, with what an observer has seen of it so far. -/
structure Monitored where
  control : ExecutionControl
  seen : List Observation
  deriving DecidableEq, Repr

namespace Monitored

def enter (budget : Nat) (m : Monitored) : Monitored :=
  ⟨m.control.enter budget, m.seen ++ [.entered]⟩

def leave (m : Monitored) : Monitored := { m with control := m.control.leave }

def tick (m : Monitored) : Tick → Monitored
  | .request => ⟨m.control.requestInterrupt, m.seen ++ [.requested]⟩
  | .check now =>
    let (stop, control) := m.control.interrupted now
    ⟨control, m.seen ++ [.checked m.control.interruptRequested stop]⟩
  | .hostCall now => { m with control := m.control.startClock now }

def ticks (m : Monitored) (ts : List Tick) : Monitored := ts.foldl tick m

/-- Requests of other threads while no JavaScript of the engine runs. -/
def requests (n : Nat) (m : Monitored) : Monitored := m.ticks (List.replicate n .request)

end Monitored

/-- Whether a request was made since the last stage was entered, `asked` telling whether
one was pending at the start. -/
def Observation.asked (asked : Bool) : List Observation → Bool
  | [] => asked
  | .entered :: seen => Observation.asked false seen
  | .requested :: seen => Observation.asked true seen
  | .checked _ _ :: seen => Observation.asked asked seen

end RustTS.Runner
