import RustTS.Compiler.Project

/-! TypeScript transpilation: what one source compiles to, and how its diagnostics read. -/
namespace RustTS.Compiler
open Runner.ModuleLoader (Text)

structure Mapping where
  jsLine : Nat
  jsColumn : Nat
  tsLine : Nat
  tsColumn : Nat
  deriving DecidableEq, Repr

structure SourceMap where
  mappings : List Mapping
  deriving DecidableEq, Repr

/-- JavaScript transpiled from one TypeScript module, with its source map. -/
structure TranspiledModule where
  js : Text
  sourceMap : SourceMap
  deriving DecidableEq, Repr

/-- The TypeScript file one loaded module was transpiled from. -/
structure ModuleOrigin where
  path : Path
  sourceMap : SourceMap
  deriving DecidableEq, Repr

/-- One transpiled module, ready for the module store. -/
structure CompiledModule where
  moduleId : Path
  transpiledJs : Text
  origin : ModuleOrigin
  resolvedRequests : List (Text × Path)
  deriving DecidableEq, Repr

/-- A label of a diagnostic, at a byte offset of the source. -/
structure Label where
  text : Option String
  primary : Bool
  offset : Nat

structure Diagnostic where
  message : String
  labels : List Label
  help : Option String

/-- `source.get(..offset)`: nothing where the offset is not between two characters. -/
def before : Nat → Text → Option Text
  | 0, _ => some []
  | _ + 1, [] => none
  | offset + 1, c :: source =>
    if c.utf8Size ≤ offset + 1 then (before (offset + 1 - c.utf8Size) source).map (c :: ·)
    else none

/-- `char::len_utf16`. -/
def lenUtf16 (c : Char) : Nat := if c.toNat < 0x10000 then 1 else 2

/-- 1-based line and UTF-16 column of a byte offset. -/
def lineColumn (source : Text) (offset : Nat) : Nat × Nat :=
  let before := (before offset source).getD source
  let lastLine := (before.reverse.takeWhile (· ≠ '\n')).reverse
  (before.count '\n' + 1, (lastLine.map lenUtf16).sum + 1)

/-- `path:line:column: message` at the primary label, else the first one. -/
def headline (diagnostic : Diagnostic) (source : Text) (path : Path) : String :=
  match (diagnostic.labels.find? (·.primary)).or diagnostic.labels.head? with
  | some label =>
    let position := lineColumn source label.offset
    String.ofList path ++ ":" ++ toString position.1 ++ ":" ++ toString position.2 ++ ": " ++
      diagnostic.message
  | none => String.ofList path ++ ": " ++ diagnostic.message

def labelText (source : Text) (label : Label) : String :=
  match label.text with
  | some text =>
    let position := lineColumn source label.offset
    "\n  " ++ toString position.1 ++ ":" ++ toString position.2 ++ ": " ++ text
  | none => ""

/-- The headline, then each label text at its own position and the help. -/
def render (diagnostic : Diagnostic) (source : Text) (path : Path) : String :=
  headline diagnostic source path ++ String.join (diagnostic.labels.map (labelText source)) ++
    match diagnostic.help with
    | some help => "\n  help: " ++ help
    | none => ""

/-- A transpile error listing each diagnostic at its position in `source`. -/
def transpileError (diagnostics : List Diagnostic) (source : Text) (path : Path) : VmError :=
  .transpile (String.intercalate "\n" (diagnostics.map (render · source path)))

/-- What the service uses of oxc: source types, the parser with what its visitors find in a
program, and the compiler, which returns its errors next to what it printed. -/
structure Oxc (SourceType Program : Type) where
  fromPath : Path → Except String SourceType
  ts : SourceType
  withModule : SourceType → SourceType
  parse : Text → SourceType → List Diagnostic × Program
  importsDynamically : Program → Bool
  staticRequests : Program → List Text
  compile : Text → SourceType → Path → List Diagnostic × TranspiledModule

namespace Oxc

variable {SourceType Program : Type} (oxc : Oxc SourceType Program)

def moduleSourceType (sourcePath : Path) : Except VmError SourceType :=
  (oxc.fromPath sourcePath).mapError .resolve |>.map oxc.withModule

def rejectParseDiagnostics (diagnostics : List Diagnostic) (source : Text) (path : Path) :
    Except VmError Unit :=
  if diagnostics.isEmpty then .ok () else .error (transpileError diagnostics source path)

def withModuleProgram {T : Type} (source : Text) (path : Path)
    (action : Program → Except VmError T) : Except VmError T := do
  let sourceType ← oxc.moduleSourceType path
  let parsed := oxc.parse source sourceType
  rejectParseDiagnostics parsed.1 source path
  action parsed.2

def rejectDynamicImports (program : Program) (path : Path) : Except VmError Unit :=
  if oxc.importsDynamically program then
    .error (.resolve (String.ofList path ++
      ": dynamic import() is not supported; use a static import"))
  else .ok ()

def extractStaticImportRequests (source : Text) (path : Path) : Except VmError (List Text) :=
  oxc.withModuleProgram source path fun program => do
    oxc.rejectDynamicImports program path
    pure (oxc.staticRequests program)

def validateStaticModuleGraph (source : Text) (path : Path) : Except VmError Unit :=
  oxc.withModuleProgram source path fun program => oxc.rejectDynamicImports program path

/-- Compiles one TypeScript source into executable JavaScript. -/
def execute (source : Text) (sourceType : SourceType) (path : Path) :
    Except VmError TranspiledModule :=
  let compiled := oxc.compile source sourceType path
  if compiled.1.isEmpty then .ok compiled.2 else .error (transpileError compiled.1 source path)

/-- Compiles one project module; its source type comes from the file name. -/
def compileModule (source : Text) (path : Path) : Except VmError TranspiledModule := do
  let sourceType ← (oxc.fromPath path).mapError .resolve
  oxc.execute source (oxc.withModule sourceType) path

/-- Compiles one inline TypeScript module; it may only import host modules. -/
def compileInline (source : Text) (path : Path) : Except VmError TranspiledModule := do
  oxc.validateStaticModuleGraph source path
  oxc.execute source (oxc.withModule oxc.ts) path

/-- The static imports of a source that parses as the type and imports nothing dynamically. -/
def scan (source : Text) (sourceType : SourceType) : Option (List Text) :=
  let parsed := oxc.parse source (oxc.withModule sourceType)
  if parsed.1.isEmpty && !oxc.importsDynamically parsed.2 then some (oxc.staticRequests parsed.2)
  else none

variable {oxc}

theorem withModuleProgram_eq_ok {T : Type} {source : Text} {path : Path}
    {action : Program → Except VmError T} {t : T} :
    oxc.withModuleProgram source path action = .ok t ↔
      ∃ sourceType, oxc.fromPath path = .ok sourceType ∧
        (oxc.parse source (oxc.withModule sourceType)).1.isEmpty = true ∧
        action (oxc.parse source (oxc.withModule sourceType)).2 = .ok t := by
  unfold withModuleProgram moduleSourceType rejectParseDiagnostics
  cases oxc.fromPath path with
  | error error =>
    constructor
    · intro h
      cases h
    · rintro ⟨_, h, _⟩
      cases h
  | ok sourceType =>
    simp only [Except.ok.injEq, exists_eq_left']
    change (if (oxc.parse source (oxc.withModule sourceType)).1.isEmpty = true then .ok ()
        else .error _ : Except VmError Unit).bind (fun _ =>
          action (oxc.parse source (oxc.withModule sourceType)).2) = .ok t ↔ _
    cases (oxc.parse source (oxc.withModule sourceType)).1.isEmpty with
    | true => exact ⟨fun h => ⟨rfl, h⟩, fun h => h.2⟩
    | false =>
      constructor
      · intro h
        cases h
      · intro h
        cases h.1

theorem extract_eq_ok {source : Text} {path : Path} {imports : List Text} :
    oxc.extractStaticImportRequests source path = .ok imports ↔
      (oxc.fromPath path).toOption.bind (oxc.scan source) = some imports := by
  unfold extractStaticImportRequests scan rejectDynamicImports
  rw [withModuleProgram_eq_ok]
  cases oxc.fromPath path with
  | error error => simp [Except.toOption]
  | ok sourceType =>
    simp only [Except.ok.injEq, exists_eq_left', Except.toOption, Option.bind_some]
    cases (oxc.parse source (oxc.withModule sourceType)).1.isEmpty <;>
      cases oxc.importsDynamically (oxc.parse source (oxc.withModule sourceType)).2 <;>
        simp [pure, Except.pure, bind, Except.bind]

private theorem validate_eq_ok {source : Text} {path : Path} :
    oxc.validateStaticModuleGraph source path = .ok () ↔
      ((oxc.fromPath path).toOption.bind (oxc.scan source)).isSome = true := by
  unfold validateStaticModuleGraph scan rejectDynamicImports
  rw [withModuleProgram_eq_ok]
  cases oxc.fromPath path with
  | error error => simp [Except.toOption]
  | ok sourceType =>
    simp only [Except.ok.injEq, exists_eq_left', Except.toOption, Option.bind_some]
    cases (oxc.parse source (oxc.withModule sourceType)).1.isEmpty <;>
      cases oxc.importsDynamically (oxc.parse source (oxc.withModule sourceType)).2 <;> simp

theorem execute_eq_ok {source : Text} {sourceType : SourceType} {path : Path}
    {m : TranspiledModule} :
    oxc.execute source sourceType path = .ok m ↔
      (oxc.compile source sourceType path).1.isEmpty = true ∧
        (oxc.compile source sourceType path).2 = m := by
  unfold execute
  dsimp only
  cases (oxc.compile source sourceType path).1.isEmpty <;> simp

theorem compileModule_eq_ok {source : Text} {path : Path} {m : TranspiledModule} :
    oxc.compileModule source path = .ok m ↔
      ∃ sourceType, (oxc.fromPath path).toOption = some sourceType ∧
        oxc.execute source (oxc.withModule sourceType) path = .ok m := by
  unfold compileModule
  cases oxc.fromPath path with
  | error error =>
    constructor
    · intro h
      cases h
    · rintro ⟨_, h, _⟩
      cases h
  | ok sourceType =>
    constructor
    · exact fun h => ⟨sourceType, rfl, h⟩
    · rintro ⟨_, h, hm⟩
      cases h
      exact hm

theorem compileInline_eq_ok {source : Text} {path : Path} {m : TranspiledModule} :
    oxc.compileInline source path = .ok m ↔
      ((oxc.fromPath path).toOption.bind (oxc.scan source)).isSome = true ∧
        oxc.execute source (oxc.withModule oxc.ts) path = .ok m := by
  rw [← validate_eq_ok]
  unfold compileInline
  cases oxc.validateStaticModuleGraph source path with
  | error error =>
    constructor
    · intro h
      cases h
    · intro h
      cases h.1
  | ok _ => exact ⟨fun h => ⟨rfl, h⟩, fun h => h.2⟩

end Oxc

example : lineColumn "let x\nlet é = 1".toList 12 = (2, 6) := by decide

end RustTS.Compiler
