import RustTS.Compiler.Resolver

/-! Multi-file project discovery: the static import graph reachable from an entry file, rebuilt
incrementally from the previous discovery of the same project. -/
namespace RustTS.Compiler
open Runner.ModuleLoader (Text)

structure KnownModule where
  stamp : Option FileStamp
  displayPath : Path
  source : Text
  resolvedRequests : List (Text × Path)
  dependencies : List Path
  packageJsons : List Path
  deriving DecidableEq

/-- What the discovery of one project learned, reused by its next discovery. -/
structure ProjectState where
  resolver : ModuleResolver
  structureFiles : WatchedFiles
  externalModules : List Text
  modules : IndexMap Path KnownModule

structure DiscoveredModule where
  moduleId : Path
  displayPath : Path
  source : Text
  resolvedRequests : List (Text × Path)
  deriving DecidableEq

structure DiscoveredProject where
  entryModuleId : Path
  modules : List DiscoveredModule
  watched : WatchedFiles

/-- A project load that failed, with the files it had looked at so far. -/
structure ProjectFailure where
  error : VmError
  watched : WatchedFiles

/-- What the compiler reads in a source: the static import requests of a module, in order, and
the configs that a config extends. -/
structure Parser where
  importsOf : Text → Path → Except VmError (List Text)
  extendsOf : Path → Text → List Text

/-- What resolution reads throughout one discovery. -/
structure DiscoveryContext where
  parser : Parser
  resolver : ModuleResolver
  externalModules : List Text

/-- The modules of the previous discovery, whether their resolutions still hold, and what this
discovery has looked at. -/
structure Discovery where
  known : Path → Option KnownModule
  structureUnchanged : Bool
  structureFiles : WatchedFiles
  modules : IndexMap Path KnownModule

/-- The requests resolved so far, the paths they resolved to and the `package.json` files that
applied. -/
structure Resolved where
  requests : List (Text × Path)
  dependencies : List Path
  packageJsons : List Path

namespace DiscoveryContext

variable (c : DiscoveryContext)

/-- The loop of `resolve_module` over the requests of the module at `path`. -/
def resolveRequests (path : Path) : List Text → Looking (Except VmError Resolved)
  | [] => pure (.ok ⟨[], [], []⟩)
  | request :: requests =>
    if request ∈ c.externalModules then do
      let rest ← resolveRequests path requests
      pure (rest.map fun rest => { rest with requests := (request, request) :: rest.requests })
    else do
      match ← c.resolver.resolveRequest path request with
      | .error error => pure (.error error)
      | .ok (resolved, packageJson) =>
        let rest ← resolveRequests path requests
        pure (rest.map fun rest =>
          ⟨(request, resolved) :: rest.requests, resolved :: rest.dependencies,
            packageJson.toList ++ rest.packageJsons⟩)

def resolveModule (path : Path) (stamp : Option FileStamp) (source : Text) :
    Looking (Except VmError KnownModule) := do
  let display := displayPath c.resolver.projectRoot path
  match c.parser.importsOf source display with
  | .error error => pure (.error error)
  | .ok requests =>
    let resolved ← c.resolveRequests path requests
    pure (resolved.map fun resolved =>
      ⟨stamp, display, source, resolved.requests, pathSet resolved.dependencies,
        resolved.packageJsons⟩)

/-- The module at `path`, whose file has `stamp`: known, known but to be resolved again, or
read. -/
def moduleAt (structureUnchanged : Bool) (path : Path) (stamp : Option FileStamp)
    (known : Option KnownModule) : Looking (Except VmError KnownModule) :=
  match known.filter fun known => stamp.isSome && known.stamp = stamp with
  | some known =>
    if structureUnchanged then pure (.ok known)
    else c.resolveModule path stamp known.source
  | none => do
    match ← readToString path with
    | .error error => pure (.error (.io error))
    | .ok source => c.resolveModule path stamp source

/-- How a visit ends: with what was discovered, and the error that ended it, if one did. -/
abbrev Visited := Except VmError Unit × Discovery

/-- Visits the paths in order up to the first error. -/
def visitEach (visit : Path → Discovery → Looking (Option Visited)) :
    List Path → Discovery → Looking (Option Visited)
  | [], d => pure (some (.ok (), d))
  | path :: paths, d => do
    match ← visit path d with
    | some (.ok (), d) => visitEach visit paths d
    | ended => pure ended

/-- `Discovery::visit`; `none` where imports nest deeper than the fuel. -/
def visit : Nat → Path → Discovery → Looking (Option Visited)
  | 0, _, _ => pure none
  | n + 1, path, d =>
    if (d.modules.get? path).isSome then pure (some (.ok (), d))
    else do
      let directories := (ancestors path).tail.takeWhile (startsWith · c.resolver.projectRoot)
      let structureFiles ← WatchedFiles.watchAll directories d.structureFiles
      -- Stamped before reading: an edit racing this read shows up as a change.
      let stamp ← FileStamp.of path
      let known := d.known path
      let d := { d with known := Function.update d.known path none }
      match ← c.moduleAt d.structureUnchanged path stamp known with
      | .error error => pure (some (.error error,
          { d with structureFiles := structureFiles.watchStamped path stamp }))
      | .ok module =>
        let structureFiles ← WatchedFiles.watchAll module.packageJsons structureFiles
        visitEach (visit n) module.dependencies
          { d with structureFiles := structureFiles, modules := d.modules.insert path module }

end DiscoveryContext

/-- `normalize_entry_path`. -/
def normalizeEntryPath (entryPath : Path) : Looking (Except VmError Path) := do
  let found ← pathExists entryPath
  if found then do
    let canonical ← canonicalize entryPath
    pure (canonical.mapError .io)
  else pure (.error (.resolve ("entry path does not exist: " ++ String.ofList entryPath)))

def DiscoveredModule.of (entry : Path × KnownModule) : DiscoveredModule :=
  ⟨entry.1, entry.2.displayPath, entry.2.source, entry.2.resolvedRequests⟩

/-- Every module with the stamp it was read under. -/
def watchModules (modules : IndexMap Path KnownModule) (structureFiles : WatchedFiles) :
    WatchedFiles :=
  modules.entries.foldl (fun watched entry => watched.watchStamped entry.1 entry.2.stamp)
    structureFiles

/-- The graph and the state for the next discovery, or the error, with the files looked at. -/
def DiscoveryContext.finish (c : DiscoveryContext) (entryPath : Path) :
    Visited → Except ProjectFailure (DiscoveredProject × ProjectState)
  | (ended, d) =>
    let watched := watchModules d.modules d.structureFiles
    match ended with
    | .error error => .error ⟨error, watched⟩
    | .ok () =>
      .ok (⟨entryPath, d.modules.entries.map DiscoveredModule.of, watched⟩,
        ⟨c.resolver, d.structureFiles, c.externalModules, d.modules⟩)

/-- The walk from the canonical entry path. -/
def DiscoveryContext.discover (c : DiscoveryContext) (fuel : Nat) (entryPath : Path)
    (structureFiles : WatchedFiles) (known : Path → Option KnownModule)
    (structureUnchanged : Bool) :
    Looking (Option (Except ProjectFailure (DiscoveredProject × ProjectState))) := do
  let structureFiles ← WatchedFiles.watchAll c.resolver.tsconfigFiles structureFiles
  let visited ← c.visit fuel entryPath
    ⟨known, structureUnchanged, structureFiles, IndexMap.empty⟩
  pure (visited.map (c.finish entryPath))

/-- Whether the previous state is that of the same host modules and the same structure. -/
def ProjectState.reusable (externalModules : List Text) (state : ProjectState) : Looking Bool :=
  if state.externalModules = externalModules then do
    let changed ← state.structureFiles.changed
    pure !changed
  else pure false

/-- Discovery with a resolver of its own, and nothing but the sources of `known` to reuse. -/
def discoverAnew (parser : Parser) (fuel : Nat) (entryPath : Path) (externalModules : List Text)
    (known : Path → Option KnownModule) :
    Looking (Option (Except ProjectFailure (DiscoveredProject × ProjectState))) := do
  match ← ModuleResolver.forEntry parser.extendsOf fuel entryPath with
  | none => pure none
  | some (.error error) => pure (some (.error ⟨error, .empty⟩))
  | some (.ok resolver) =>
    DiscoveryContext.discover ⟨parser, resolver, externalModules⟩ fuel entryPath .empty known false

/-- `discover_project`; `none` where the fuel does not do. -/
def discoverProject (parser : Parser) (fuel : Nat) (entryPath : Path)
    (externalModules : List Text) (previous : Option ProjectState) :
    Looking (Option (Except ProjectFailure (DiscoveredProject × ProjectState))) := do
  match ← normalizeEntryPath entryPath with
  | .error error => pure (some (.error ⟨error, .empty⟩))
  | .ok entryPath =>
    match previous with
    | none => discoverAnew parser fuel entryPath externalModules fun _ => none
    | some state => do
      let reused ← state.reusable externalModules
      if reused then
        DiscoveryContext.discover ⟨parser, state.resolver.keep, externalModules⟩ fuel entryPath
          state.structureFiles state.modules.get? true
      else discoverAnew parser fuel entryPath externalModules state.modules.get?

end RustTS.Compiler
