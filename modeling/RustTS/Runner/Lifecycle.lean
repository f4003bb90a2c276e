import RustTS.Compiler.FileSystem
import RustTS.Runner.ModuleLoader.Store
import RustTS.Runner.Settle

/-! Loading, reloading and unloading scripts. What JavaScript, the transpiler and the host's
registry do during a call is its input: every stage of a call that runs JavaScript says what
reached the execution control meanwhile and what the code did to the entries of the loaded
scripts. `Live` is the part of an entry that a script's own code changes (its handlers,
timers, deferred tasks and host promises). -/
namespace RustTS.Runner
open ModuleLoader Compiler

abbrev ScriptId := Text
abbrev ContextId := Nat
abbrev ObjectId := Nat

/-- A context shared by the scripts loaded into one group, and how many they are. -/
structure ScriptGroup where
  context : ContextId
  prelude : ObjectId
  scripts : Nat
  deriving DecidableEq, Repr

/-- Entry file and watched files of a project. -/
structure ProjectFiles where
  entryPath : Text
  watched : WatchedFiles

structure ScriptOrigin where
  moduleKeys : List Text
  project : Option ProjectFiles

/-- Adds to the watched files of a project. -/
def ScriptOrigin.watch (watched : WatchedFiles) (origin : ScriptOrigin) : ScriptOrigin :=
  { origin with
    project := origin.project.map fun p => { p with watched := p.watched.merge watched } }

structure EngineScript (Live : Type) where
  context : ContextId
  group : Option Text
  graphId : GraphId
  hooks : ObjectId
  exports : ObjectId
  live : Live
  moduleIds : List Text
  origin : ScriptOrigin

/-- The engine, less what no load or unload reads: the registry, the transpiler's memos and
the console. -/
structure Engine (Live Origin T : Type) where
  scripts : IndexMap ScriptId (EngineScript Live)
  store : ModuleStore Origin
  nextGraphId : GraphId
  execution : Monitored
  executionTimeout : Nat
  earliestTimer : T
  groups : Text → Option ScriptGroup
  envs : GraphId → Option ObjectId

/-- What the JavaScript of one stage, the jobs it queued included, did while it ran: what
reached the control, the change to each loaded script's entry, the due times scheduled. -/
structure Stage (Live T : Type) where
  ticks : List Tick
  live : ScriptId → Live → Live
  scheduled : List T

/-- A stage in which nothing but `ticks` happens. -/
def Stage.quiet {Live T : Type} (ticks : List Tick) : Stage Live T := ⟨ticks, fun _ live => live, []⟩

/-- A stage that calls one hook of a version's `ctx.hot`. -/
structure HookRun (Live T : Type) where
  stage : Stage Live T
  returned : Except VmError ObjectId
  settling : Settling

def HookRun.quiet {Live T : Type} (ticks : List Tick) : HookRun Live T :=
  ⟨.quiet ticks, .ok 0, .quiet⟩

/-- A stage that mounts a version. The context and the prelude are only made for a target
that is new; `env` is what building the environment gave, `imported` what importing the
entry module did, `registered` what the new version had set up by then. -/
structure MountRun (Live T : Type) where
  context : Except VmError ContextId
  preludeTicks : List Tick
  prelude : Except VmError ObjectId
  stage : Stage Live T
  env : Except VmError (ObjectId × ObjectId)
  imported : Except VmError ObjectId
  registered : Live
  settling : Settling

/-- The stages of one load, with the requests that other threads make before, between and
after them. -/
structure LoadRun (Live T : Type) where
  before : Nat
  save : HookRun Live T
  afterSave : Nat
  mount : MountRun Live T
  afterMount : Nat
  dispose : HookRun Live T
  after : Nat

/-- Outcome of retiring a version: its `ctx.hot.dispose` error. -/
abbrev Disposed := Except VmError Unit

structure Target where
  context : ContextId
  prelude : ObjectId

structure Mounted (Live : Type) where
  context : ContextId
  exports : ObjectId
  live : Live
  hooks : ObjectId

structure TranspiledScript (Origin : Type) where
  js : Text
  moduleOrigin : Origin
  moduleKey : Text

structure TranspiledProject (Origin : Type) where
  entryModuleId : Text
  modules : List (CompiledModule Origin)
  moduleKeys : List Text
  watched : WatchedFiles

/-- Why a project did not transpile, and the files looked at before. -/
structure ProjectFailure where
  error : VmError
  watched : WatchedFiles

/-- Sources of the registered host modules, as a context of its own and as a context group
imports them. -/
structure HostModules where
  globals : Modules
  env : Modules

/-- Reports a failed `ctx.hot` callback; an interrupt stays one. -/
def hotHookError (error : VmError) (outcome : String) : VmError :=
  match error with
  | .interrupted => .interrupted
  | .execution details => .execution (outcome ++ ": " ++ details)
  | error => .execution (outcome ++ ": " ++ error.toText)

namespace Engine

variable {Live Origin T : Type} [Min T]

/-- `Engine::new`; `never` is the due time of no timer. -/
def new (executionTimeout : Nat) (never : T) : Engine Live Origin T where
  scripts := IndexMap.empty
  store := ModuleStore.empty
  nextGraphId := 0
  execution := ⟨.default, []⟩
  executionTimeout := executionTimeout
  earliestTimer := never
  groups _ := none
  envs _ := none

def onExecution (f : Monitored → Monitored) (e : Engine Live Origin T) : Engine Live Origin T :=
  { e with execution := f e.execution }

/-- Starts the execution budget of one stage. -/
def enter (e : Engine Live Origin T) : Engine Live Origin T :=
  e.onExecution (·.enter e.executionTimeout)

def leave (e : Engine Live Origin T) : Engine Live Origin T := e.onExecution (·.leave)

def requests (n : Nat) (e : Engine Live Origin T) : Engine Live Origin T :=
  e.onExecution (·.requests n)

/-- Runs the JavaScript of a stage. -/
def runStage (s : Stage Live T) (e : Engine Live Origin T) : Engine Live Origin T :=
  { e with
    execution := e.execution.ticks s.ticks
    scripts := e.scripts.mapValues fun id script => { script with live := s.live id script.live }
    earliestTimer := s.scheduled.foldl min e.earliestTimer }

/-- Settles the stage that is running and ends its budget. -/
def finish {α : Type} (s : Settling) (result : Except VmError α) (e : Engine Live Origin T) :
    Outcome α × Engine Live Origin T :=
  (attributeInterrupt e.execution.control (settle e.execution.control s result), e.leave)

/-- Calls one hook of a version's `ctx.hot`. -/
def runHook (run : HookRun Live T) (e : Engine Live Origin T) :
    Outcome ObjectId × Engine Live Origin T :=
  (e.enter.runStage run.stage).finish run.settling run.returned

/-- Runs the loaded version's `ctx.hot.save` callback, when the script is loaded. -/
def saveHotData (id : ScriptId) (run : HookRun Live T) (e : Engine Live Origin T) :
    Outcome (Option ObjectId) × Engine Live Origin T :=
  match e.scripts.get? id with
  | none => (.ok none, e)
  | some _ =>
    match e.runHook run with
    | (.ok data, e) => (.ok (some data), e)
    | (.err error, e) => (.err (hotHookError error
        ("`ctx.hot.save` of script `" ++ String.ofList id ++
          "` failed; the previous version keeps running")), e)
    | (.panicked, e) => (.panicked, e)

/-- The context a script mounts into: a new one of its own, or its group's, created the
first time the group is used. -/
def target (group : Option Text) (run : MountRun Live T) (e : Engine Live Origin T) :
    Except VmError Target × Engine Live Origin T :=
  match group.bind e.groups with
  | some existing => (.ok ⟨existing.context, existing.prelude⟩, e)
  | none =>
    match run.context with
    | .error error => (.error error, e)
    | .ok context =>
      let e := e.onExecution (·.ticks run.preludeTicks)
      match run.prelude with
      | .error error => (.error error, e)
      | .ok prelude =>
        (.ok ⟨context, prelude⟩,
          match group with
          | none => e
          | some name =>
            { e with groups := Function.update e.groups name (some ⟨context, prelude, 0⟩) })

/-- Marks the graph of a group's script. -/
def markGraph (graph : RuntimeModuleGraph) (group : Option Text) (e : Engine Live Origin T) :
    Engine Live Origin T :=
  if group.isSome then { e with store := e.store.markGrouped graph.graphId } else e

/-- Builds the script's environment and imports its entry module. A group's script gets its
environment into the table the module loader reads. -/
def importEntry (graph : RuntimeModuleGraph) (group : Option Text) (run : MountRun Live T)
    (e : Engine Live Origin T) : Except VmError (ObjectId × ObjectId) × Engine Live Origin T :=
  match run.env with
  | .error error => (.error error, e)
  | .ok (env, hooks) =>
    let e := if group.isSome then { e with envs := Function.update e.envs graph.graphId (some env) }
      else e
    let e := { e with store := (e.store.hostImportStart graph.entryModuleId).hostImportEnd }
    (run.imported.map fun exports => (exports, hooks), e)

def removeGroup (group : Option Text) (groups : Text → Option ScriptGroup) :
    Text → Option ScriptGroup :=
  match group with
  | some name => Function.update groups name none
  | none => groups

/-- The clean-up of a mount that failed: a group it created goes again. -/
def unmount (graph : RuntimeModuleGraph) (group : Option Text) (created : Bool)
    (e : Engine Live Origin T) : Engine Live Origin T :=
  { e with
    envs := Function.update e.envs graph.graphId none
    groups := removeGroup (group.filter fun _ => created) e.groups }

/-- Builds the script's environment in its context and imports its entry module. -/
def mount (graph : RuntimeModuleGraph) (group : Option Text) (run : MountRun Live T)
    (e : Engine Live Origin T) : Outcome (Mounted Live) × Engine Live Origin T :=
  let e := e.enter
  let created := group.any fun name => (e.groups name).isNone
  match e.target group run with
  | (.error error, e) => (e.runStage run.stage).finish run.settling (.error error)
  | (.ok target, e) =>
    let (imported, e) := ((e.markGraph graph group).runStage run.stage).importEntry graph group run
    match e.finish run.settling imported with
    | (.ok (exports, hooks), e) => (.ok ⟨target.context, exports, run.registered, hooks⟩, e)
    | (.err error, e) => (.err error, e.unmount graph group created)
    | (.panicked, e) => (.panicked, e)

/-- Adds the files a failed load of project `id` looked at to those of its loaded version. -/
def watchFailedAttempt (id : ScriptId) (watched : WatchedFiles) (e : Engine Live Origin T) :
    Engine Live Origin T :=
  { e with scripts := e.scripts.mapValues fun k script =>
      if k = id then { script with origin := script.origin.watch watched } else script }

/-- Changes the count of a group that exists; a group without scripts goes. -/
def leaveGroup (group : Option Text) (e : Engine Live Origin T) : Engine Live Origin T :=
  match group with
  | none => e
  | some name =>
    match e.groups name with
    | none => e
    | some g =>
      let left := if g.scripts - 1 = 0 then none else some { g with scripts := g.scripts - 1 }
      { e with groups := Function.update e.groups name left }

def joinGroup (group : Option Text) (e : Engine Live Origin T) : Engine Live Origin T :=
  match group with
  | none => e
  | some name =>
    match e.groups name with
    | none => e
    | some g =>
      let joined := { g with scripts := g.scripts + 1 }
      { e with groups := Function.update e.groups name (some joined) }

/-- Runs the `ctx.hot.dispose` callbacks of a version no longer among the scripts, then
releases its modules and its place in its group. A panic leaves before the release. -/
def retire (script : EngineScript Live) (run : HookRun Live T) (e : Engine Live Origin T) :
    Outcome Disposed × Engine Live Origin T :=
  let release (e : Engine Live Origin T) : Engine Live Origin T :=
    leaveGroup script.group
      { e with
        store := e.store.removeModules script.moduleIds
        envs := Function.update e.envs script.graphId none }
  match e.runHook run with
  | (.ok _, e) => (.ok (.ok ()), release e)
  | (.err error, e) => (.ok (.error error), release e)
  | (.panicked, e) => (.panicked, e)

/-- Swaps `script` in, then retires the version it replaces. -/
def replaceScript (id : ScriptId) (script : EngineScript Live) (run : HookRun Live T)
    (e : Engine Live Origin T) : Outcome Disposed × Engine Live Origin T :=
  let replaced := { e with scripts := e.scripts.insert id script }
  match e.scripts.get? id with
  | none => (.ok (.ok ()), replaced)
  | some previous =>
    match replaced.retire previous run with
    | (.ok disposed, e) => (.ok (disposed.mapError fun error => hotHookError error
        ("`ctx.hot.dispose` of the previous version of script `" ++ String.ofList id ++
          "` failed; the new version is loaded")), e)
    | (.err error, e) => (.err error, e)
    | (.panicked, e) => (.panicked, e)

/-- The removal of a graph whose version did not mount. -/
def discardGraph (id : ScriptId) (graph : RuntimeModuleGraph) (origin : ScriptOrigin)
    (e : Engine Live Origin T) : Engine Live Origin T :=
  let e := { e with store := e.store.removeModules graph.moduleIds }
  match origin.project with
  | some project => e.watchFailedAttempt id project.watched
  | none => e

/-- Evaluates a freshly inserted graph and swaps it in; on failure the graph is removed and
the previous version of the script stays. -/
def mountGraph (id : ScriptId) (graph : RuntimeModuleGraph) (origin : ScriptOrigin)
    (group : Option Text) (run : LoadRun Live T) (e : Engine Live Origin T) :
    Outcome Disposed × Engine Live Origin T :=
  match e.saveHotData id run.save with
  | (.panicked, e) => (.panicked, e)
  | (.err error, e) => (.err error, e.discardGraph id graph origin)
  | (.ok _, e) =>
    match (e.requests run.afterSave).mount graph group run.mount with
    | (.panicked, e) => (.panicked, e)
    | (.err error, e) => (.err error, e.discardGraph id graph origin)
    | (.ok mounted, e) =>
      ((e.requests run.afterMount).joinGroup group).replaceScript id
        { context := mounted.context
          group := group
          graphId := graph.graphId
          hooks := mounted.hooks
          exports := mounted.exports
          live := mounted.live
          moduleIds := graph.moduleIds
          origin := origin } run.dispose

def installHostModules (modules : HostModules) (e : Engine Live Origin T) :
    Engine Live Origin T :=
  { e with store := (e.store.insertHostModules modules.globals).insertGroupHostModules modules.env }

def takeGraphId (e : Engine Live Origin T) : Engine Live Origin T :=
  { e with nextGraphId := e.nextGraphId + 1 }

/-- The engine once the store holds the graph that took the next id. -/
def insertGraph (store : ModuleStore Origin) (e : Engine Live Origin T) : Engine Live Origin T :=
  { e.takeGraphId with store := store }

/-- `mount_inline`, with what the transpiler and the registry gave. -/
def mountInline (group : Option Text) (id : ScriptId)
    (transpiled : Except VmError (TranspiledScript Origin)) (modules : Except VmError HostModules)
    (run : LoadRun Live T) (e : Engine Live Origin T) : Outcome Disposed × Engine Live Origin T :=
  let e := e.requests run.before
  match transpiled, modules with
  | .error error, _ => (.err error, e)
  | .ok _, .error error => (.err error, e)
  | .ok script, .ok modules =>
    let e := e.installHostModules modules
    let (graph, store) := e.store.insertInline id script.js script.moduleOrigin e.nextGraphId
    mountGraph id graph ⟨[script.moduleKey], none⟩ group run (e.insertGraph store)

/-- `mount_project`, with what the registry and the transpiler gave. -/
def mountProject (group : Option Text) (id : ScriptId) (entryPath : Text)
    (names : Except VmError Unit) (transpiled : Except ProjectFailure (TranspiledProject Origin))
    (modules : Except VmError HostModules) (run : LoadRun Live T) (e : Engine Live Origin T) :
    Outcome Disposed × Engine Live Origin T :=
  let e := e.requests run.before
  match names, transpiled, modules with
  | .error error, _, _ => (.err error, e)
  | .ok _, .error failure, _ => (.err failure.error, e.watchFailedAttempt id failure.watched)
  | .ok _, .ok _, .error error => (.err error, e)
  | .ok _, .ok project, .ok modules =>
    let e := e.installHostModules modules
    match e.store.insertProject project.entryModuleId project.modules e.nextGraphId with
    | .error error => (.err error, e.takeGraphId)
    | .ok (graph, store) =>
      mountGraph id graph ⟨project.moduleKeys, some ⟨entryPath, project.watched⟩⟩ group run
        (e.insertGraph store)

/-- `unload_script`, with the requests made before the hook. -/
def unloadScript (id : ScriptId) (before : Nat) (run : HookRun Live T)
    (e : Engine Live Origin T) : Outcome Disposed × Engine Live Origin T :=
  let e := e.requests before
  match e.scripts.get? id with
  | none => (.err (.scriptNotFound (String.ofList id)), e)
  | some script =>
    match retire script run { e with scripts := e.scripts.erase id } with
    | (.ok disposed, e) => (.ok (disposed.mapError fun error => hotHookError error
        ("`ctx.hot.dispose` of script `" ++ String.ofList id ++
          "` failed; the script is unloaded")), e)
    | (.err error, e) => (.err error, e)
    | (.panicked, e) => (.panicked, e)

end Engine

/-- One load, reload or unload, with everything the rest of the world does during it. -/
inductive LifecycleCall (Live Origin T : Type)
  | inline (group : Option Text) (id : ScriptId)
      (transpiled : Except VmError (TranspiledScript Origin))
      (modules : Except VmError HostModules) (run : LoadRun Live T)
  | project (group : Option Text) (id : ScriptId) (entryPath : Text) (names : Except VmError Unit)
      (transpiled : Except ProjectFailure (TranspiledProject Origin))
      (modules : Except VmError HostModules) (run : LoadRun Live T)
  | unload (id : ScriptId) (before : Nat) (run : HookRun Live T) (after : Nat)

/-- Runs the call; an outcome `err` is a load that failed, where an outcome `ok` holds the
error of a failed `dispose`. -/
def LifecycleCall.run {Live Origin T : Type} [Min T] (e : Engine Live Origin T) :
    LifecycleCall Live Origin T → Outcome Disposed × Engine Live Origin T
  | .inline group id transpiled modules run =>
    let (outcome, e) := e.mountInline group id transpiled modules run
    (outcome, e.requests run.after)
  | .project group id path names transpiled modules run =>
    let (outcome, e) := e.mountProject group id path names transpiled modules run
    (outcome, e.requests run.after)
  | .unload id before run after =>
    let (outcome, e) := e.unloadScript id before run
    (outcome, e.requests after)

end RustTS.Runner
