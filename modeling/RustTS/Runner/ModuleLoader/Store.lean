import Mathlib.Logic.Function.Basic
import RustTS.Error
import RustTS.Runner.ModuleLoader.Graph

/-! The in-memory module store: inserting the host modules and the graphs of scripts, and
removing a graph. Hash maps are partial functions; `Origin` is the TypeScript origin of a
module, which nothing here looks into. -/
namespace RustTS.Runner.ModuleLoader

/-- `ModuleStoreInner`. -/
@[ext] structure ModuleStore (Origin : Type) where
  sources : Text → Option Text
  groupHostSources : Text → Option Text
  groupedGraphs : GraphId → Bool
  resolutions : Text → Text → Option Text
  origins : Text → Option Origin
  hostImport : Option Text

structure CompiledModule (Origin : Type) where
  moduleId : Text
  transpiledJs : Text
  origin : Origin
  resolvedRequests : List (Text × Text)

/-- Sources by module name, each name once. -/
abbrev Modules := Text → Option Text

variable {Origin : Type}

namespace ModuleStore

def empty : ModuleStore Origin :=
  ⟨fun _ => none, fun _ => none, fun _ => false, fun _ _ => none, fun _ => none, none⟩

/-- `HashMap::extend`: the new entries replace those under their keys. -/
def extend (old new : Modules) : Modules := fun name => (new name).or (old name)

def insertHostModules (store : ModuleStore Origin) (modules : Modules) : ModuleStore Origin :=
  { store with sources := extend store.sources modules }

def insertGroupHostModules (store : ModuleStore Origin) (modules : Modules) :
    ModuleStore Origin :=
  { store with groupHostSources := extend store.groupHostSources modules }

/-- Marks a graph as loaded into a context group. -/
def markGrouped (store : ModuleStore Origin) (graphId : GraphId) : ModuleStore Origin :=
  { store with groupedGraphs := Function.update store.groupedGraphs graphId true }

def insertInline (store : ModuleStore Origin) (scriptId source : Text) (origin : Origin)
    (graphId : GraphId) : RuntimeModuleGraph × ModuleStore Origin :=
  let moduleId := runtimeModuleId graphId scriptId
  (⟨graphId, moduleId, [moduleId]⟩,
    { store with
      sources := Function.update store.sources moduleId (some source)
      origins := Function.update store.origins moduleId (some origin) })

/-- Looks a module id up in the map `build_runtime_module_id_map` builds. -/
def runtimeIdOf (graphId : GraphId) (modules : List (CompiledModule Origin)) (moduleId : Text) :
    Option Text :=
  if modules.any fun m => m.moduleId = moduleId then some (runtimeModuleId graphId moduleId)
  else none

def insertProjectResolutions (graphId : GraphId) (modules : List (CompiledModule Origin))
    (base : Text) (store : ModuleStore Origin) (requests : List (Text × Text)) :
    ModuleStore Origin :=
  requests.foldl (fun store request =>
    let resolved := (runtimeIdOf graphId modules request.2).getD request.2
    { store with
      resolutions := Function.update store.resolutions base
        (Function.update (store.resolutions base) request.1 (some resolved)) }) store

/-- The lookup of the module's own id cannot fail: the map holds every module. -/
def insertProjectModule (graphId : GraphId) (modules : List (CompiledModule Origin))
    (store : ModuleStore Origin) (module : CompiledModule Origin) : ModuleStore Origin :=
  let id := runtimeModuleId graphId module.moduleId
  let store := insertProjectResolutions graphId modules id store module.resolvedRequests
  { store with
    origins := Function.update store.origins id (some module.origin)
    sources := Function.update store.sources id (some module.transpiledJs) }

def insertProject (store : ModuleStore Origin) (entryModuleId : Text)
    (modules : List (CompiledModule Origin)) (graphId : GraphId) :
    Except VmError (RuntimeModuleGraph × ModuleStore Origin) :=
  match runtimeIdOf graphId modules entryModuleId with
  | none => .error (.resolve
      ("entry module is missing from compiled graph: " ++ String.ofList entryModuleId))
  | some entry =>
    .ok (⟨graphId, entry, (modules.map (·.moduleId)).dedup.map (runtimeModuleId graphId)⟩,
      modules.foldl (insertProjectModule graphId modules) store)

def removeModule (store : ModuleStore Origin) (moduleId : Text) : ModuleStore Origin :=
  { store with
    groupedGraphs := match graphOf moduleId with
      | some graphId => Function.update store.groupedGraphs graphId false
      | none => store.groupedGraphs
    sources := Function.update store.sources moduleId none
    origins := Function.update store.origins moduleId none
    resolutions := fun base request => (store.resolutions base request).filter
      fun resolved => decide (base ≠ moduleId ∧ resolved ≠ moduleId) }

def removeModules (store : ModuleStore Origin) (moduleIds : List Text) : ModuleStore Origin :=
  moduleIds.foldl removeModule store

/-- The token that lets the engine import `moduleId` from outside its graph while `import`
runs; the resolution that consumes it clears it too. -/
def hostImportStart (store : ModuleStore Origin) (moduleId : Text) : ModuleStore Origin :=
  { store with hostImport := some moduleId }

def hostImportEnd (store : ModuleStore Origin) : ModuleStore Origin :=
  { store with hostImport := none }

/-- `Error::new_resolving`. -/
structure ResolvingError where
  base : Text
  name : Text
  deriving DecidableEq

/-- `resolve_from_store`: `name` as the module `base` imports it. -/
def resolve (store : ModuleStore Origin) (base name : Text) :
    Except ResolvingError Text × ModuleStore Origin :=
  if store.hostImport = some name then (.ok name, { store with hostImport := none })
  else
    let recorded : Except ResolvingError Text :=
      if (store.sources name).isSome ∧
          (graphOf name = none ∨ graphOf base = graphOf name) then .ok name
      else match store.resolutions base name with
        | some resolved => .ok resolved
        | none => .error ⟨base, name⟩
    match (graphOf base).filter store.groupedGraphs with
    | none => (recorded, store)
    -- A context group has no globals of the script's own: its environment and its instances of
    -- the host modules take their place.
    | some graphId =>
      if name = envSpecifier then (.ok (envModuleId graphId), store)
      else if (store.groupHostSources name).isSome then (.ok (hostInstanceId graphId name), store)
      else (recorded, store)

end ModuleStore

end RustTS.Runner.ModuleLoader
