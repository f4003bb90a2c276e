import RustTS.Cache.Store
import RustTS.Compiler.Incremental

/-! TypeScript transpilation for the engine, per module, with an in-memory memo and an optional
disk cache. What a request asks (of the file system, for the imports of a source, for a module
transpiled) stands apart from who answers: the compiler itself, or what is remembered. -/
namespace RustTS.Compiler
open Runner.ModuleLoader (Text)
open Cache

/-- Source type of inline scripts, which have no file extension. -/
def inlineSourceType : Text := "ts".toList

/-- The extension of the last component of a path, if it has one after a name. -/
def sourceType (path : Path) : Text :=
  let nameReversed := path.reverse.takeWhile (· ≠ '/')
  match nameReversed.dropWhile (· ≠ '.') with
  | _ :: _ :: _ => (nameReversed.takeWhile (· ≠ '.')).reverse
  | _ => []

/-- One source given to the compiler: as a project module or as an inline script. -/
inductive Compilation
  | module (source : Text) (path : Path)
  | inline (source : Text) (path : Path)
  deriving DecidableEq, Repr

def Compilation.key : Compilation → ModuleKey
  | .module source path => moduleCacheKey source (sourceType path)
  | .inline source _ => moduleCacheKey source inlineSourceType

def Compilation.source : Compilation → Text
  | .module source _ | .inline source _ => source

def Compilation.path : Compilation → Path
  | .module _ path | .inline _ path => path

theorem Compilation.source_eq_of_key {unit unit' : Compilation} (h : unit.key = unit'.key) :
    unit.source = unit'.source := by
  have hsource := congrArg ModuleKey.source h
  cases unit <;> cases unit' <;> exact hsource

/-- What discovery asks: of the file system, and for the imports of a source. -/
inductive Inquiry
  | file (q : FileQuestion)
  | imports (source : Text) (path : Path)
  deriving DecidableEq

abbrev Inquiry.Answer : Inquiry → Type
  | .file q => q.Answer
  | .imports .. => Except VmError (List Text)

abbrev Discovering (X : Type) := Asking Inquiry.Answer X

/-- A program that only looks at the file system. -/
def looking {X : Type} (p : Looking X) : Discovering X := p.lift Inquiry.file

/-- The callback `imports_of`. -/
def importsOf (source : Text) (path : Path) : Discovering (Except VmError (List Text)) :=
  .put (Inquiry.imports source path)

/-- What a request asks. -/
inductive Question
  | inquiry (q : Inquiry)
  | transpiled (unit : Compilation)
  deriving DecidableEq

abbrev Question.Answer : Question → Type
  | .inquiry q => q.Answer
  | .transpiled _ => Except VmError TranspiledModule

abbrev Transpiling (X : Type) := Asking Question.Answer X

def discovering {X : Type} (p : Discovering X) : Transpiling X := p.lift Question.inquiry

def transpiled (unit : Compilation) : Transpiling (Except VmError TranspiledModule) :=
  .put (Question.transpiled unit)

namespace DiscoveryContext

variable (c : DiscoveryContext)

def resolveModuleAsking (path : Path) (stamp : Option FileStamp) (source : Text) :
    Discovering (Except VmError KnownModule) := do
  let display := displayPath c.resolver.projectRoot path
  match ← importsOf source display with
  | .error error => pure (.error error)
  | .ok requests =>
    let resolved ← looking (c.resolveRequests path requests)
    pure (resolved.map fun resolved =>
      ⟨stamp, display, source, resolved.requests, pathSet resolved.dependencies,
        resolved.packageJsons⟩)

def moduleAtAsking (structureUnchanged : Bool) (path : Path) (stamp : Option FileStamp)
    (known : Option KnownModule) : Discovering (Except VmError KnownModule) :=
  match known.filter fun known => stamp.isSome && known.stamp = stamp with
  | some known =>
    if structureUnchanged then pure (.ok known)
    else c.resolveModuleAsking path stamp known.source
  | none => do
    match ← looking (readToString path) with
    | .error error => pure (.error (.io error))
    | .ok source => c.resolveModuleAsking path stamp source

def visitEachAsking (visit : Path → Discovery → Discovering (Option Visited)) :
    List Path → Discovery → Discovering (Option Visited)
  | [], d => pure (some (.ok (), d))
  | path :: paths, d => do
    match ← visit path d with
    | some (.ok (), d) => visitEachAsking visit paths d
    | ended => pure ended

def visitAsking : Nat → Path → Discovery → Discovering (Option Visited)
  | 0, _, _ => pure none
  | n + 1, path, d =>
    if (d.modules.get? path).isSome then pure (some (.ok (), d))
    else do
      let directories := (ancestors path).tail.takeWhile (startsWith · c.resolver.projectRoot)
      let structureFiles ← looking (WatchedFiles.watchAll directories d.structureFiles)
      let stamp ← looking (FileStamp.of path)
      let known := d.known path
      let d := { d with known := Function.update d.known path none }
      match ← c.moduleAtAsking d.structureUnchanged path stamp known with
      | .error error => pure (some (.error error,
          { d with structureFiles := structureFiles.watchStamped path stamp }))
      | .ok module =>
        let structureFiles ← looking (WatchedFiles.watchAll module.packageJsons structureFiles)
        visitEachAsking (visitAsking n) module.dependencies
          { d with structureFiles := structureFiles, modules := d.modules.insert path module }

def discoverAsking (fuel : Nat) (entryPath : Path) (structureFiles : WatchedFiles)
    (known : Path → Option KnownModule) (structureUnchanged : Bool) :
    Discovering (Option (Except ProjectFailure (DiscoveredProject × ProjectState))) := do
  let structureFiles ← looking (WatchedFiles.watchAll c.resolver.tsconfigFiles structureFiles)
  let visited ← c.visitAsking fuel entryPath
    ⟨known, structureUnchanged, structureFiles, IndexMap.empty⟩
  pure (visited.map (c.finish entryPath))

end DiscoveryContext

def discoverAnewAsking (parser : Parser) (fuel : Nat) (entryPath : Path)
    (externalModules : List Text) (known : Path → Option KnownModule) :
    Discovering (Option (Except ProjectFailure (DiscoveredProject × ProjectState))) := do
  match ← looking (ModuleResolver.forEntry parser.extendsOf fuel entryPath) with
  | none => pure none
  | some (.error error) => pure (some (.error ⟨error, .empty⟩))
  | some (.ok resolver) =>
    DiscoveryContext.discoverAsking ⟨parser, resolver, externalModules⟩ fuel entryPath .empty known
      false

/-- `discover_project` with its callback; of the parser only what configs extend is read. -/
def discoverProjectAsking (parser : Parser) (fuel : Nat) (entryPath : Path)
    (externalModules : List Text) (previous : Option ProjectState) :
    Discovering (Option (Except ProjectFailure (DiscoveredProject × ProjectState))) := do
  match ← looking (normalizeEntryPath entryPath) with
  | .error error => pure (some (.error ⟨error, .empty⟩))
  | .ok entryPath =>
    match previous with
    | none => discoverAnewAsking parser fuel entryPath externalModules fun _ => none
    | some state => do
      let reused ← looking (state.reusable externalModules)
      if reused then
        DiscoveryContext.discoverAsking ⟨parser, state.resolver.keep, externalModules⟩ fuel entryPath
          state.structureFiles state.modules.get? true
      else discoverAnewAsking parser fuel entryPath externalModules state.modules.get?

end RustTS.Compiler

namespace RustTS.Runner.Transpile
open Runner.ModuleLoader (Text)
open Cache Compiler

/-- One transpiled inline script. -/
structure TranspiledScript where
  js : Text
  moduleOrigin : ModuleOrigin
  moduleKey : ModuleKey
  deriving DecidableEq

/-- One transpiled project graph. -/
structure TranspiledProject where
  entryModuleId : Path
  modules : List CompiledModule
  moduleKeys : List ModuleKey
  watched : WatchedFiles

/-- `Transpiler::inline`. -/
def inlineScript (id source : Text) : Transpiling (Except VmError TranspiledScript) := do
  let path := id ++ '.' :: inlineSourceType
  let transpiled ← transpiled (.inline source path)
  pure (transpiled.map fun transpiled =>
    ⟨transpiled.js, ⟨path, transpiled.sourceMap⟩, moduleCacheKey source inlineSourceType⟩)

/-- The loop of `Transpiler::project` over the discovered modules. -/
def transpileModules : List DiscoveredModule →
    Transpiling (Except VmError (List (CompiledModule × ModuleKey)))
  | [] => pure (.ok [])
  | module :: modules => do
    match ← transpiled (.module module.source module.displayPath) with
    | .error error => pure (.error error)
    | .ok transpiled =>
      let rest ← transpileModules modules
      let compiled : CompiledModule := ⟨module.moduleId, transpiled.js,
        ⟨module.displayPath, transpiled.sourceMap⟩, module.resolvedRequests⟩
      let key := moduleCacheKey module.source (sourceType module.displayPath)
      pure (rest.map ((compiled, key) :: ·))

/-- `Transpiler::project`, with the state that the discovery of the project leaves, if it ends
well. -/
def projectGraph (parser : Parser) (fuel : Nat) (entryPath : Path) (externalModules : List Text)
    (previous : Option ProjectState) :
    Transpiling
      (Option (Option ProjectState × Except Compiler.ProjectFailure TranspiledProject)) := do
  match ← discovering (discoverProjectAsking parser fuel entryPath externalModules previous) with
  | none => pure none
  | some (.error failure) => pure (some (none, .error failure))
  | some (.ok (project, state)) =>
    match ← transpileModules project.modules with
    | .error error => pure (some (some state, .error ⟨error, project.watched⟩))
    | .ok modules =>
      pure (some (some state, .ok ⟨project.entryModuleId, modules.map (·.1), modules.map (·.2),
        project.watched⟩))

/-- What one module source produced, filled lazily. -/
structure ModuleMemo where
  imports : Option (List Text)
  transpiled : Option TranspiledModule

/-- The artifacts of a cache directory. -/
abbrev Directory := ModuleKey → Option Text

/-- A change to the cache directory that is not by this Transpiler: another one remembers what it
compiled, or an artifact is replaced or removed. -/
inductive DirectoryChange
  | remembered (unit : Compilation)
  | replaced (key : ModuleKey) (artifact : Option Text)
  deriving DecidableEq

/-- What happens around one look for a transpiled module: what the directory went through since
the look before, and whether an artifact written now is stored. -/
structure Turn where
  others : List DirectoryChange
  written : Bool

structure Transpiler where
  memo : ModuleKey → ModuleMemo
  cache : Option Directory
  projects : Path → Option ProjectState

/-- The part of a Transpiler that answers questions, with the turns ahead. -/
structure Session where
  memo : ModuleKey → ModuleMemo
  cache : Option Directory
  turns : List Turn

/-- The compiler, the format of artifacts and the configs' parser. -/
structure Toolchain (SourceType Program : Type) where
  oxc : Oxc SourceType Program
  format : Format
  extendsOf : Path → Text → List Text

namespace Toolchain

variable {SourceType Program : Type} (tools : Toolchain SourceType Program)

def parser : Parser := ⟨tools.oxc.extractStaticImportRequests, tools.extendsOf⟩

/-- The closures `inline` and `project` compile with. -/
def compile : Compilation → Except VmError TranspiledModule
  | .module source path => tools.oxc.compileModule source path
  | .inline source path => tools.oxc.compileInline source path

/-- What discovery hears from the file system and the compiler. -/
def inquire (files : Answers) : (q : Inquiry) → q.Answer
  | .file q => files q
  | .imports source path => tools.oxc.extractStaticImportRequests source path

/-- Answers without memo and cache. -/
def fresh (files : Answers) : (q : Question) → q.Answer
  | .inquiry q => tools.inquire files q
  | .transpiled unit => tools.compile unit

/-- `ScriptCache::store`. -/
def store (key : ModuleKey) (m : TranspiledModule) (directory : Directory) : Directory :=
  Function.update directory key (some (tools.format.artifact m))

def change (directory : Directory) : DirectoryChange → Directory
  | .remembered unit => match tools.compile unit with
    | .ok m => tools.store unit.key m directory
    | .error _ => directory
  | .replaced key artifact => Function.update directory key artifact

end Toolchain

namespace Session

variable {SourceType Program : Type} (tools : Toolchain SourceType Program) (s : Session)

def setImports (key : ModuleKey) (imports : List Text) : Session :=
  { s with memo := Function.update s.memo key { s.memo key with imports := some imports } }

def setTranspiled (key : ModuleKey) (m : TranspiledModule) : Session :=
  { s with memo := Function.update s.memo key { s.memo key with transpiled := some m } }

/-- Transpiled module from the memo, else from the disk cache. -/
def remembered (key : ModuleKey) : Option TranspiledModule × Session :=
  match (s.memo key).transpiled with
  | some m => (some m, s)
  | none => match (s.cache.bind (· key)).bind tools.format.load with
    | some m => (some m, s.setTranspiled key m)
    | none => (none, s)

/-- Remembers a transpiled module in the memo and, when it can, in the disk cache. -/
def remember (key : ModuleKey) (m : TranspiledModule) (written : Bool) : Session :=
  { s with cache := if written then s.cache.map (tools.store key m) else s.cache }.setTranspiled
    key m

/-- The next turn, with the directory as it is by then. -/
def turn : Bool × Session :=
  match s.turns with
  | [] => (true, s)
  | turn :: turns =>
    (turn.written, ⟨s.memo, s.cache.map (turn.others.foldl tools.change), turns⟩)

/-- `Transpiler::transpiled`. -/
def transpiled (unit : Compilation) : Except VmError TranspiledModule × Session :=
  let (written, s) := s.turn tools
  match s.remembered tools unit.key with
  | (some m, s) => (.ok m, s)
  | (none, s) => match tools.compile unit with
    | .error error => (.error error, s)
    | .ok m => (.ok m, s.remember tools unit.key m written)

/-- The callback that `project` gives to discovery. -/
def imports (source : Text) (path : Path) : Except VmError (List Text) × Session :=
  let key := moduleCacheKey source (sourceType path)
  match (s.memo key).imports with
  | some imports => (.ok imports, s)
  | none => match tools.oxc.extractStaticImportRequests source path with
    | .error error => (.error error, s)
    | .ok imports => (.ok imports, s.setImports key imports)

def answer (files : Answers) : (q : Question) → Session → q.Answer × Session
  | .inquiry (.file q), s => (files q, s)
  | .inquiry (.imports source path), s => s.imports tools source path
  | .transpiled unit, s => s.transpiled tools unit

end Session

inductive Call
  | inline (id source : Text)
  | project (entryPath : Path) (externalModules : List Text)
  | retainUsed (modules : List ModuleKey) (projects : List Path)
  deriving DecidableEq

/-- One call, with the file system it finds, what the resolver that the project's state keeps answers
during it, and what happens around it. -/
structure Step where
  call : Call
  files : FileSystem
  kept : KeptAnswers
  fuel : Nat
  turns : List Turn

/-- What a call returns. -/
inductive Answer
  | inline (result : Except VmError TranspiledScript)
  | project (result : Option (Except Compiler.ProjectFailure TranspiledProject))
  | retained

/-- What a call returns apart from the files to watch. -/
inductive Code
  | inline (result : Except VmError TranspiledScript)
  | project (result : Option (Except VmError (Path × List CompiledModule × List ModuleKey)))
  | retained
  deriving DecidableEq

def projectCode : Except Compiler.ProjectFailure TranspiledProject →
    Except VmError (Path × List CompiledModule × List ModuleKey)
  | .ok project => .ok (project.entryModuleId, project.modules, project.moduleKeys)
  | .error failure => .error failure.error

def Answer.code : Answer → Code
  | .inline result => .inline result
  | .project result => .project (result.map projectCode)
  | .retained => .retained

namespace Transpiler

variable {SourceType Program : Type} (tools : Toolchain SourceType Program)
  (resolver : ResolverFunction)

/-- A new Transpiler, with an empty cache directory or with none. -/
def new (cacheDir : Bool) : Transpiler :=
  ⟨fun _ => ⟨none, none⟩, if cacheDir then some fun _ => none else none, fun _ => none⟩

def session (t : Transpiler) (turns : List Turn) : Session := ⟨t.memo, t.cache, turns⟩

def after (t : Transpiler) (s : Session) : Transpiler := ⟨s.memo, s.cache, t.projects⟩

def retainUsed (modules : List ModuleKey) (projects : List Path) (t : Transpiler) : Transpiler where
  memo key := if key ∈ modules then t.memo key else ⟨none, none⟩
  cache := t.cache
  projects path := if path ∈ projects then t.projects path else none

/-- One call on a Transpiler. -/
def perform (step : Step) (t : Transpiler) : Transpiler × Answer :=
  let answer := Session.answer tools (step.files.answer resolver step.kept)
  match step.call with
  | .inline id source =>
    let (result, s) := (inlineScript id source).run answer (t.session step.turns)
    (t.after s, .inline result)
  | .project entryPath externalModules =>
    let previous := t.projects entryPath
    let (result, s) := (projectGraph tools.parser step.fuel entryPath externalModules
      previous).run answer (t.session step.turns)
    ({ t.after s with
        projects := Function.update t.projects entryPath (result.bind (·.1)) },
      .project (result.map (·.2)))
  | .retainUsed modules projects => (t.retainUsed modules projects, .retained)

/-- The same call on a Transpiler with nothing in it, which remembers nothing. -/
def anew (step : Step) : Answer :=
  let answer := tools.fresh (step.files.answer resolver step.kept)
  match step.call with
  | .inline id source => .inline ((inlineScript id source).answered answer)
  | .project entryPath externalModules =>
    .project (((projectGraph tools.parser step.fuel entryPath externalModules none).answered
      answer).map (·.2))
  | .retainUsed .. => .retained

end Transpiler

example : sourceType "src/limits.d.ts".toList = "ts".toList := by decide

end RustTS.Runner.Transpile
