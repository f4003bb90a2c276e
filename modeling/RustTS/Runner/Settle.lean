import RustTS.Error
import RustTS.Runner.Execution

/-! The settling that ends every operation of the engine. -/
namespace RustTS.Runner

/-- What settling an operation finds: the first error of the jobs it ran, the first
rejection nobody handled, the time, whether a host function left a panic behind, and how
`reported` words an error for the host. -/
structure Settling where
  jobError : Option VmError
  unhandled : Option VmError
  now : Nat
  panicked : Bool
  reported : VmError → VmError

/-- Nothing to report but what the operation itself did. -/
def Settling.quiet : Settling := ⟨none, none, 0, false, id⟩

def budgetExceeded : VmError := .execution "execution budget exceeded"

/-- What settling reports when the operation itself succeeded. -/
def Settling.error (s : Settling) (c : ExecutionControl) : Option VmError :=
  (s.jobError.or (if c.budgetExpired s.now then some budgetExceeded else none)).or s.unhandled

variable {α : Type}

/-- Reports, in order: a panic, the operation's own error, a job that threw or the used up
budget, a rejection nobody handled. -/
def settle (c : ExecutionControl) (s : Settling) (result : Except VmError α) : Outcome α :=
  if s.panicked then .panicked
  else match result with
    | .error error => .err (s.reported error)
    | .ok value =>
      match s.error c with
      | some error => .err (s.reported error)
      | none => .ok value

/-- Reports an operation that failed after an interrupt request as interrupted. -/
def attributeInterrupt (c : ExecutionControl) : Outcome α → Outcome α
  | .err error => .err (if c.interruptRequested then .interrupted else error)
  | outcome => outcome

theorem attributeInterrupt_settle_eq_ok {c : ExecutionControl} {s : Settling}
    {result : Except VmError α} {value : α} :
    attributeInterrupt c (settle c s result) = .ok value ↔
      result = .ok value ∧ s.panicked = false ∧ s.error c = none := by
  unfold settle
  cases hp : s.panicked
  · cases result with
    | error error => simp [attributeInterrupt]
    | ok v => cases he : s.error c <;> simp [attributeInterrupt]
  · simp [attributeInterrupt]

end RustTS.Runner
