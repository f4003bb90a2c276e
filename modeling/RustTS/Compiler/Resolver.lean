import RustTS.Compiler.FileSystem

/-! The resolver of a project: the `tsconfig.json` that gives its options, its root, and the
resolution of one request. -/
namespace RustTS.Compiler
open Runner.ModuleLoader (Text)

/-- `ModuleResolver`: the `tsconfig.json` it was made with stands for its options. One that is kept
from an earlier discovery answers from what it cached then. -/
structure ModuleResolver where
  kept : Bool
  tsconfig : Option Path
  projectRoot : Path
  tsconfigFiles : List Path
  deriving DecidableEq

/-- The resolver, in a later discovery than the one that made it. -/
def ModuleResolver.keep (resolver : ModuleResolver) : ModuleResolver := { resolver with kept := true }

/-- A new resolver of the same options. -/
def ModuleResolver.anew (resolver : ModuleResolver) : ModuleResolver :=
  { resolver with kept := false }

/-- The first `tsconfig.json` of the directories. -/
def findTsconfig : List Path → Looking (Option Path)
  | [] => pure none
  | directory :: directories => do
    let candidate := join directory "tsconfig.json".toList
    let found ← isFile candidate
    if found then pure (some candidate) else findTsconfig directories

/-- The file an `extends` path names: the file itself, a directory's `tsconfig.json`, else the
path with `.json` appended. -/
def extendedConfigFile (path : Path) : Looking Path := do
  let file ← isFile path
  if file then pure path
  else do
    let directory ← isDir path
    pure (if directory then join path "tsconfig.json".toList else path ++ ".json".toList)

def extendedConfigFiles : List Path → Looking (List Path)
  | [] => pure []
  | path :: paths => do
    let file ← extendedConfigFile path
    let files ← extendedConfigFiles paths
    pure (file :: files)

/-- `tsconfig_chain`: the configs extended through relative or absolute paths. `extendsOf` is
what the parsed config extends, nothing when it does not parse; `pending` has its top first. -/
def tsconfigChain (extendsOf : Path → Text → List Text) :
    Nat → List Path → List Path → Looking (Option (List Path))
  | _, files, [] => pure (some files)
  | 0, _, _ => pure none
  | n + 1, files, path :: pending =>
    if files.any (samePath path) then tsconfigChain extendsOf n files pending
    else do
      let json ← readToString path
      let specifiers := match json with
        | .ok json => extendsOf path json
        | .error _ => []
      let followed := specifiers.filter fun specifier =>
        decide (specifier.head? = some '.') || isAbsolute specifier
      let extended ← extendedConfigFiles (followed.map (join ((parent path).getD [])))
      tsconfigChain extendsOf n (files ++ [path]) (extended.reverse ++ pending)

def noParent (what : String) (path : Path) : VmError :=
  .resolve (what ++ " has no parent directory: " ++ String.ofList path)

/-- `project_root`: the canonical directory of the `tsconfig.json`, else of the entry. -/
def projectRoot (entryDir : Path) (tsconfig : Option Path) : Looking (Except VmError Path) := do
  let root : Except VmError Path := match tsconfig with
    | some path => match parent path with
      | some directory => .ok directory
      | none => .error (noParent "module" path)
    | none => .ok entryDir
  match root with
  | .error error => pure (.error error)
  | .ok root => do
    let canonical ← canonicalize root
    pure (canonical.mapError .io)

/-- `ModuleResolver::for_entry`; `none` where the chain of configs has no end within `fuel`. -/
def ModuleResolver.forEntry (extendsOf : Path → Text → List Text) (fuel : Nat) (entryPath : Path) :
    Looking (Option (Except VmError ModuleResolver)) :=
  match parent entryPath with
  | none => pure (some (.error (noParent "entry" entryPath)))
  | some entryDir => do
    let tsconfig ← findTsconfig (ancestors entryDir)
    match ← Compiler.projectRoot entryDir tsconfig with
    | .error error => pure (some (.error error))
    | .ok root =>
      match tsconfig with
      | none => pure (some (.ok ⟨false, none, root, []⟩))
      | some path => do
        let files ← tsconfigChain extendsOf fuel [] [path]
        pure (files.map fun files => .ok ⟨false, some path, root, files⟩)

/-- `ModuleResolver::resolve_request`: the canonical path, which lies in the project. -/
def ModuleResolver.resolveRequest (resolver : ModuleResolver) (fromPath : Path) (request : Text) :
    Looking (Except VmError Resolution) :=
  match parent fromPath with
  | none => pure (.error (noParent "module" fromPath))
  | some baseDir => do
    match ← resolve resolver.kept resolver.tsconfig baseDir request with
    | .error error => pure (.error (.resolve ("unable to resolve import `" ++ String.ofList request ++
        "` from " ++ String.ofList fromPath ++ ": " ++ error)))
    | .ok (resolved, packageJson) => do
      match ← canonicalize resolved with
      | .error error => pure (.error (.io error))
      | .ok canonical =>
        if startsWith canonical resolver.projectRoot then pure (.ok (canonical, packageJson))
        else pure (.error (.resolve ("resolved import `" ++ String.ofList request ++
          "` outside project root " ++ String.ofList resolver.projectRoot ++ ": " ++
          String.ofList canonical)))

end RustTS.Compiler
