import RustTS.Lib.IndexMap
import RustTS.Lib.Transition
import RustTS.Runner.Settle
import RustTS.Runner.Tasks

/-! The deferred calls and requests of an engine: the tasks and request guards of its loaded
scripts, and the handles the host polls. What a script's Promises do is input: whether a
returned Promise can be watched, and what a poll of it finds. -/
namespace RustTS.Runner
open ModuleLoader

abbrev CallHandle := Nat
abbrev RequestId := Nat

/-- What a task completes: the handle of a call, or one slot of a request, with the id of the
script that replies. The source keeps it in the task's two closures. -/
inductive TaskTarget
  | call (handle : CallHandle)
  | reply (request : RequestId) (slot : Nat) (scriptId : Text)
  deriving DecidableEq, Repr

def TaskTarget.isReplyTo (r : RequestId) : TaskTarget → Bool
  | .call _ => false
  | .reply request _ _ => decide (request = r)

/-- `ScriptTask`; its closures are taken when it leaves its script. -/
structure ScriptTask where
  promise : Nat
  target : TaskTarget
  deriving DecidableEq, Repr

structure DeferredScript where
  tasks : List ScriptTask
  requestGuards : List RequestId
  deriving DecidableEq, Repr

/-- What polling a task finds: a Promise that cannot be restored, a pending one, or a settled
one with its value decoded. -/
inductive Polled (V : Type)
  | unrestorable (error : VmError)
  | pending
  | settled (outcome : Except VmError V)

def Polled.outcome {V : Type} : Polled V → Option (Except VmError V)
  | .unrestorable error => some (.error error)
  | .pending => none
  | .settled outcome => some outcome

/-- What a called function gave: an error, a plain value as it decodes, or a Promise with the
outcome of watching it, which calls the Promise's `catch`. -/
inductive Returned (V : Type)
  | threw (error : VmError)
  | plain (decoded : Except VmError V)
  | promise (promise : Nat) (watched : Except VmError Unit)

/-- The error a dispatch records for one handler, if any. -/
def Returned.error {V : Type} : Returned V → Option VmError
  | .threw error => some error
  | .plain _ => none
  | .promise _ watched => match watched with
    | .ok _ => none
    | .error error => some error

/-- What the tasks of the scripts find, by their place in the script's list. -/
abbrev Polls (V : Type) := Text → Nat → Polled V

/-- The engine's deferred work. Handles and requests are numbered as they are made. -/
structure Deferred (V : Type) where
  scripts : IndexMap Text DeferredScript
  activeTasks : Nat
  calls : CallHandle → PendingCall V
  nextCall : CallHandle
  requests : RequestId → RequestResults V
  nextRequest : RequestId

variable {V : Type}

namespace Deferred

protected def default : Deferred V := ⟨.empty, 0, fun _ => .new, 0, fun _ => .new, 0⟩

def tasks (d : Deferred V) : List ScriptTask := d.scripts.values.flatMap (·.tasks)

def onScript (id : Text) (f : DeferredScript → DeferredScript) (d : Deferred V) : Deferred V :=
  { d with scripts := d.scripts.mapValues fun k script => if k = id then f script else script }

def onCall (h : CallHandle) (f : PendingCall V → PendingCall V) (d : Deferred V) : Deferred V :=
  { d with calls := Function.update d.calls h (f (d.calls h)) }

def onRequest (r : RequestId) (f : RequestResults V → RequestResults V) (d : Deferred V) :
    Deferred V :=
  { d with requests := Function.update d.requests r (f (d.requests r)) }

/-- The `finish` closure of a task. -/
def finish (target : TaskTarget) (outcome : Except VmError V) (d : Deferred V) : Deferred V :=
  match target with
  | .call h => d.onCall h (·.complete outcome)
  | .reply r slot id => d.onRequest r (·.record slot (outcome.map fun reply => (id, reply)))

/-- The `cancel` closure of a task that is dropped. -/
def cancelTask (target : TaskTarget) (d : Deferred V) : Deferred V :=
  match target with
  | .call h => d.onCall h (·.complete (.error .cancelled))
  | .reply r _ _ => d.onRequest r (·.dropTask)

/-- Whether a request is still referred to, by one of `tasks` or by the operation that makes
it, and has not finished. -/
def isPending (making : Option RequestId) (tasks : List ScriptTask) (d : Deferred V)
    (r : RequestId) : Bool :=
  (decide (making = some r) || tasks.any (·.target.isReplyTo r)) && !(d.requests r).finished

def retainGuards (making : Option RequestId) (id : Text) (d : Deferred V) : Deferred V :=
  d.onScript id fun script =>
    { script with requestGuards := script.requestGuards.filter (d.isPending making d.tasks) }

/-- Polls the tasks of script `id` from place `i` on: `kept` are still pending, `rest` not
polled yet. -/
def pollFrom (id : Text) (polled : Nat → Polled V) :
    Nat → List ScriptTask → List ScriptTask → Deferred V → Deferred V
  | _, _, [], d => d
  | i, kept, task :: rest, d =>
    match (polled i).outcome with
    | none => pollFrom id polled (i + 1) (kept ++ [task]) rest d
    | some outcome =>
      let d := d.onScript id fun script => { script with tasks := kept ++ rest }
      pollFrom id polled (i + 1) kept rest
        (finish task.target outcome { d with activeTasks := d.activeTasks - 1 })

def pollScript (making : Option RequestId) (polls : Polls V) (id : Text) (d : Deferred V) :
    Deferred V :=
  match d.scripts.get? id with
  | none => d
  | some script => (pollFrom id (polls id) 0 [] script.tasks d).retainGuards making id

/-- `harvest_tasks`, which ends the settling of every operation. -/
def harvest (making : Option RequestId) (polls : Polls V) (d : Deferred V) : Deferred V :=
  if d.activeTasks = 0 then d
  else d.scripts.keys.foldl (fun d id => d.pollScript making polls id) d

/-- Adds a task to script `id`. -/
def spawn (id : Text) (task : ScriptTask) (d : Deferred V) : Deferred V :=
  let d := d.onScript id fun script => { script with tasks := script.tasks ++ [task] }
  { d with activeTasks := d.activeTasks + 1 }

def newCall (d : Deferred V) : Deferred V := { d with nextCall := d.nextCall + 1 }

/-- `Engine::call_deferred`. A Promise that cannot be watched fails the call. -/
def callDeferred (id : Text) (returned : Returned V) (polls : Polls V) (d : Deferred V) :
    Deferred V :=
  match d.scripts.get? id with
  | none => d
  | some _ =>
    harvest none polls <| match returned with
      | .threw _ => d
      | .plain decoded => d.newCall.finish (.call d.nextCall) decoded
      | .promise _ (.error _) => d
      | .promise p (.ok _) => d.newCall.spawn id ⟨p, .call d.nextCall⟩

/-- The guard and the slot of one reply of script `id` to request `r`. -/
def observe (r : RequestId) (id : Text) (d : Deferred V) : Deferred V :=
  (d.onScript id fun script =>
    { script with requestGuards := script.requestGuards ++ [r] }).onRequest r (·.reserve)

/-- What `request_deferred` does with the outcome of one handler: the guard, then the slot,
then the task that fills it. -/
def deliver (r : RequestId) (handled : Text × Returned V) (d : Deferred V) : Deferred V :=
  let (id, returned) := handled
  let slot := (d.requests r).replies.length
  match d.scripts.get? id, returned with
  | none, _ => d
  | some _, .threw _ => d
  | some _, .plain decoded => (d.observe r id).finish (.reply r slot id) decoded
  | some _, .promise _ (.error _) => d.observe r id
  | some _, .promise p (.ok _) => (d.observe r id).spawn id ⟨p, .reply r slot id⟩

/-- How a dispatch that reached a handler ends: the control and the settling it ends with,
and what its last poll finds. -/
structure DispatchEnd (V : Type) where
  control : ExecutionControl
  settling : Settling
  polls : Polls V

/-- The outcome of a dispatch, from the first error of its handlers on. -/
def dispatched (handled : List (Text × Returned V)) : Option (DispatchEnd V) → Outcome Unit
  | none => .ok ()
  | some ending =>
    let result := match handled.findSome? fun h => h.2.error with
      | some error => .error error
      | none => .ok ()
    attributeInterrupt ending.control (settle ending.control ending.settling result)

/-- `Engine::request_deferred`: what each handler that was entered gave, in order, and how
the dispatch ended, when a script listened. A payload that does not encode for a script is an
error like one thrown. A host function's panic leaves before the request is activated. -/
def requestDeferred (handled : List (Text × Returned V)) (ending : Option (DispatchEnd V))
    (d : Deferred V) : Deferred V :=
  let r := d.nextRequest
  let d := handled.foldl (fun d h => d.deliver r h) { d with nextRequest := r + 1 }
  let d := match ending with
    | none => d
    | some ending => d.harvest (some r) ending.polls
  match dispatched handled ending with
  | .panicked => d
  | .ok _ => retainAll r (d.onRequest r (·.activate))
  | .err error => retainAll r ((d.onRequest r (·.fail error)).onRequest r (·.activate))
where
  retainAll (r : RequestId) (d : Deferred V) : Deferred V :=
    d.scripts.keys.foldl (fun d id => d.retainGuards (some r) id) d

/-- Retires a version no longer among the scripts: its requests are cancelled, its tasks
dropped, and the settling of its `dispose` polls the others. -/
def retire (script : DeferredScript) (polls : Polls V) (d : Deferred V) : Deferred V :=
  let cancelled := script.requestGuards.foldl (fun d r =>
    if d.isPending none (d.tasks ++ script.tasks) r then d.onRequest r (·.cancel) else d) d
  let counted := { cancelled with activeTasks := cancelled.activeTasks - script.tasks.length }
  (script.tasks.foldl (fun d task => d.cancelTask task.target) counted).harvest none polls

/-- The swap that ends a load. -/
def replace (id : Text) (polls : Polls V) (d : Deferred V) : Deferred V :=
  let swapped := { d with scripts := d.scripts.insert id ⟨[], []⟩ }
  match d.scripts.get? id with
  | none => swapped
  | some previous => swapped.retire previous polls

def unload (id : Text) (polls : Polls V) (d : Deferred V) : Deferred V :=
  match d.scripts.get? id with
  | none => d
  | some script => { d with scripts := d.scripts.erase id }.retire script polls

end Deferred

/-- The steps of an engine's deferred work. Every operation but the two that start it, and
every stage of a load before its swap, is one `settle`. -/
inductive DeferredStep (V : Type)
  | settle (polls : Polls V)
  | callDeferred (id : Text) (returned : Returned V) (polls : Polls V)
  | requestDeferred (handled : List (Text × Returned V)) (ending : Option (Deferred.DispatchEnd V))
  | replace (id : Text) (polls : Polls V)
  | unload (id : Text) (polls : Polls V)
  | takeCall (handle : CallHandle)
  | takeRequest (request : RequestId)

/-- Performs a step; `is_finished` changes nothing. -/
def DeferredStep.next (d : Deferred V) : DeferredStep V → Deferred V
  | .settle polls => d.harvest none polls
  | .callDeferred id returned polls => d.callDeferred id returned polls
  | .requestDeferred handled ending => d.requestDeferred handled ending
  | .replace id polls => d.replace id polls
  | .unload id polls => d.unload id polls
  | .takeCall h => d.onCall h (·.take.2)
  | .takeRequest r => d.onRequest r fun q => { q with handle := q.handle.take.2 }

end RustTS.Runner
