import RustTS.Error

/-! One-shot delivery of an async host function's result to the script awaiting it. Every
function below is one step that no other thread interrupts: what it does under the inbox's
lock, or the check before it. -/
namespace RustTS.Contract

abbrev CallId := Nat

/-- How one async host call ended. -/
inductive Settlement (Reply : Type)
  | resolved (reply : Reply)
  | rejected (message : String)
  | dropped
  deriving DecidableEq, Repr

/-- `InboxState`: the settlements queued for one script version, oldest first. -/
structure ReplyInbox (Reply : Type) where
  cancelled : Bool
  ready : List (CallId × Settlement Reply)
  deriving DecidableEq, Repr

variable {Reply : Type}

namespace ReplyInbox

protected def default : ReplyInbox Reply := ⟨false, []⟩

def hasReady (inbox : ReplyInbox Reply) : Bool := inbox.ready.head?.isSome

def pop (inbox : ReplyInbox Reply) : Option (CallId × Settlement Reply) × ReplyInbox Reply :=
  (inbox.ready.head?, { inbox with ready := inbox.ready.tail })

/-- Refuses every later settlement and discards the queued ones. -/
def cancel (inbox : ReplyInbox Reply) : ReplyInbox Reply :=
  { inbox with cancelled := true, ready := [] }

/-- Queues a settlement, unless cancelled. -/
def push (id : CallId) (settlement : Settlement Reply) (inbox : ReplyInbox Reply) :
    Option (ReplyInbox Reply) :=
  if inbox.cancelled then none
  else some { inbox with ready := inbox.ready ++ [(id, settlement)] }

theorem push_eq_some {id : CallId} {settlement : Settlement Reply}
    {inbox inbox' : ReplyInbox Reply} :
    inbox.push id settlement = some inbox' ↔ inbox.cancelled = false ∧
      inbox' = { inbox with ready := inbox.ready ++ [(id, settlement)] } := by
  unfold push
  cases inbox.cancelled <;> simp [eq_comm]

theorem push_eq_none {id : CallId} {settlement : Settlement Reply} {inbox : ReplyInbox Reply} :
    inbox.push id settlement = none ↔ inbox.cancelled = true := by
  unfold push
  cases inbox.cancelled <;> simp

theorem hasReady_iff {inbox : ReplyInbox Reply} : inbox.hasReady = true ↔ inbox.ready ≠ [] := by
  cases h : inbox.ready <;> simp [hasReady, h]

end ReplyInbox

/-- What the encoder of a call made of the handler's output. -/
inductive Encoded (Reply : Type)
  | ok (reply : Reply)
  | err (error : VmError)
  | panicked
  deriving DecidableEq, Repr

namespace HostResolver

/-- What a resolver sends once its value was encoded: a panicking encoder drops it
unsettled. -/
def settlement : Encoded Reply → Settlement Reply
  | .ok reply => .resolved reply
  | .err error => .rejected error.toText
  | .panicked => .dropped

/-- What `resolve` returns, `queued` telling whether the inbox took the settlement. -/
def resolved (queued : Bool) : Encoded Reply → Outcome Unit
  | .ok _ => if queued then .ok () else .err .cancelled
  | .err error => if queued then .err error else .err .cancelled
  | .panicked => .panicked

/-- What `reject` returns. -/
def rejected (queued : Bool) : Outcome Unit := if queued then .ok () else .err .cancelled

end HostResolver

end RustTS.Contract
