import RustTS.Lib.EarlyExit
import RustTS.Runner.Settle
import RustTS.Runner.ModuleLoader.Graph

/-! Delivering one event: handler after handler, script after script in load order, the
scripts that follow one another in one context served in one visit to it. What the handlers,
the payload, the reader of the results and other threads do is input. -/
namespace RustTS.Runner
open ModuleLoader

/-- What a delivery runs in: the execution control, and everything else, which includes the
scripts' handler lists and what other threads are about to do. -/
structure World (J : Type) where
  control : ExecutionControl
  js : J

/-- What the code around a delivery does, for one event and one payload. -/
structure Behaviour (J H P R : Type) where
  /-- `ListenedEvents::handlers`: the snapshot of a script's handlers, if it has any. -/
  handlers : J → Text → Option (List H)
  /-- Encodes the payload in a context. -/
  encode : Nat → World J → Except VmError P × World J
  /-- Calls a handler; an exception it left is its error. -/
  call : H → P → World J → Except VmError R × World J
  /-- Hands a result over, with the id of its script. -/
  onReturn : Text → R → World J → Except VmError Unit × World J
  /-- What other threads do before a flag is read. -/
  elsewhere : World J → World J
  /-- The settling at the end, and the control it ends with. -/
  settled : World J → ExecutionControl × Settling

/-- A script in load order, and the context it runs in. -/
structure LoadedScript where
  id : Text
  context : Nat
  deriving DecidableEq, Repr

/-- A delivery so far. The source counts and keeps the first error; `reached` counts the
scripts looked at, `listening` and `entered` are their handlers and those called. -/
structure Delivery (J H : Type) where
  world : World J
  delivered : Nat
  firstError : Option VmError
  reached : Nat
  listening : List (Text × H)
  entered : List (Text × H)

variable {J H P R : Type}

namespace Delivery

/-- `get_or_insert` of an outcome's error. -/
def record (outcome : Except VmError Unit) (d : Delivery J H) : Delivery J H :=
  match outcome with
  | .ok _ => d
  | .error error => { d with firstError := d.firstError.or (some error) }

def within (w : World J) (d : Delivery J H) : Delivery J H := { d with world := w }

def shouldStop (d : Delivery J H) : Bool := d.world.control.shouldStop

/-- The first error, or the number of scripts delivered to. -/
def result (d : Delivery J H) : Except VmError Nat :=
  match d.firstError with
  | some error => .error error
  | none => .ok d.delivered

/-- Looks at a script: counted as delivered when it has handlers. -/
def reach (script : LoadedScript) (handlers : Option (List H)) (d : Delivery J H) : Delivery J H :=
  { d with
    delivered := d.delivered + if handlers.isSome then 1 else 0
    reached := d.reached + 1
    listening := d.listening ++ (handlers.getD []).map (script.id, ·) }

end Delivery

/-- The runs of scripts that follow one another and share a context: the first of each, and
the others. -/
def contextRuns : List LoadedScript → List (LoadedScript × List LoadedScript)
  | [] => []
  | script :: scripts =>
    match contextRuns scripts with
    | [] => [(script, [])]
    | (first, others) :: runs =>
      if script.context = first.context then (script, first :: others) :: runs
      else (script, []) :: (first, others) :: runs

namespace Behaviour

variable (B : Behaviour J H P R)

def listens (w : World J) (script : LoadedScript) : Bool := (B.handlers w.js script.id).isSome

/-- Reads `should_stop`. -/
def check (d : Delivery J H) : Bool × Delivery J H :=
  let d := d.within (B.elsewhere d.world)
  (d.shouldStop, d)

/-- Calls one handler, and hands its result over if results are kept. -/
def handle (keepResults : Bool) (script : LoadedScript) (payload : P) (handler : H)
    (d : Delivery J H) : Delivery J H :=
  let d := { d with entered := d.entered ++ [(script.id, handler)] }
  match B.call handler payload d.world with
  | (.error error, w) => (d.within w).record (.error error)
  | (.ok returned, w) =>
    if keepResults then
      let (outcome, w) := B.onReturn script.id returned w
      (d.within w).record outcome
    else d.within w

/-- `deliver`. Its first error joins the dispatch's at once; the source hands it over at the
end. -/
def deliver (keepResults : Bool) (script : LoadedScript) (payload : P) (handlers : List H)
    (d : Delivery J H) : Bool × Delivery J H :=
  breakLoop (fun handler d => B.check (B.handle keepResults script payload handler d)) handlers d

/-- Reads `should_stop` after `deliver`; at once when `deliver` just read it. -/
def recheck (left : Bool × Delivery J H) : Bool × Delivery J H :=
  if left.1 then (left.2.shouldStop, left.2) else B.check left.2

/-- A visit to a context of one script. -/
def visitScript (keepResults : Bool) (script : LoadedScript) (d : Delivery J H) :
    Bool × Delivery J H :=
  match B.handlers d.world.js script.id with
  | none => (false, d.reach script none)
  | some handlers =>
    let d := d.reach script (some handlers)
    match B.encode script.context d.world with
    | (.ok payload, w) =>
      B.recheck (B.deliver keepResults script payload handlers (d.within w))
    | (.error error, w) => B.check ((d.within w).record (.error error))

/-- One script of a visit that serves several. -/
def visitMember (keepResults : Bool) (payload : P) (script : LoadedScript) (d : Delivery J H) :
    Bool × Delivery J H :=
  match B.handlers d.world.js script.id with
  | none => (false, d.reach script none)
  | some handlers =>
    B.recheck (B.deliver keepResults script payload handlers (d.reach script (some handlers)))

/-- Looks at scripts without calling their handlers: none listens, or the payload did not
encode. -/
def passBy (scripts : List LoadedScript) (d : Delivery J H) : Delivery J H :=
  scripts.foldl (fun d script => d.reach script (B.handlers d.world.js script.id)) d

/-- A visit to a context of several scripts. -/
def visitGroup (keepResults : Bool) (first : LoadedScript) (others : List LoadedScript)
    (d : Delivery J H) : Bool × Delivery J H :=
  if (first :: others).any (B.listens d.world) then
    match B.encode first.context d.world with
    | (.ok payload, w) =>
      breakLoop (B.visitMember keepResults payload) (first :: others) (d.within w)
    | (.error error, w) =>
      (false, B.passBy (first :: others) ((d.within w).record (.error error)))
  else (false, B.passBy (first :: others) d)

def visit (keepResults : Bool) (run : LoadedScript × List LoadedScript) (d : Delivery J H) :
    Bool × Delivery J H :=
  match run.2 with
  | [] => B.visitScript keepResults run.1 d
  | other :: others => B.visitGroup keepResults run.1 (other :: others) d

/-- The start of an operation with a budget of `timeout` nanoseconds. -/
def start (timeout : Nat) (w : World J) : Delivery J H :=
  ⟨{ w with control := w.control.enter timeout }, 0, none, 0, [], []⟩

/-- What settling makes of a delivery. -/
def settle (d : Delivery J H) : Outcome Nat :=
  let (control, settling) := B.settled d.world
  attributeInterrupt control (Runner.settle control settling d.result)

/-- `Engine::dispatch`, with the delivery it ends with. -/
def dispatch (keepResults : Bool) (timeout : Nat) (scripts : List LoadedScript) (w : World J) :
    Outcome Nat × Delivery J H :=
  let (_, d) := breakLoop (B.visit keepResults) (contextRuns scripts) (start timeout w)
  if d.delivered = 0 then (.ok 0, d) else (B.settle d, d)

end Behaviour

end RustTS.Runner
