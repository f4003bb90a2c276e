import Mathlib.Data.List.Sort
import RustTS.Error
import RustTS.Lib.Asking
import RustTS.Lib.IndexMap
import RustTS.Runner.ModuleLoader.Graph

/-! What the compiler asks of the file system, one question after another, so that other programs
may change it between any two. Paths are texts, those that were made canonical absolute and
without `.` or `..`. -/
namespace RustTS.Compiler
open Runner.ModuleLoader (Text)

/-- Size and modification time of one file or directory. -/
structure FileStamp where
  len : Nat
  modified : Option Nat
  deriving DecidableEq, Repr

/-- Watched paths; `none` is a path that did not exist. -/
structure WatchedFiles where
  files : IndexMap Text (Option FileStamp)

/-- Watches every path of `other` with its stamp, replacing the stamp of a path both
watch. -/
def WatchedFiles.merge (watched other : WatchedFiles) : WatchedFiles :=
  ⟨other.files.entries.foldl (fun files entry => files.insert entry.1 entry.2) watched.files⟩

abbrev Path := Text

/-- `Path::parent`. -/
def parent (path : Path) : Option Path :=
  if path = ['/'] then none
  else match path.reverse.dropWhile (· ≠ '/') with
    | [] => none
    | _ :: rest => some (if rest = [] then ['/'] else rest.reverse)

/-- `Path::ancestors`, at most `n` above the path. -/
def ancestorsWithin : Nat → Path → List Path
  | 0, path => [path]
  | n + 1, path => path :: match parent path with
    | none => []
    | some directory => ancestorsWithin n directory

def ancestors (path : Path) : List Path := ancestorsWithin path.length path

/-- `Path::starts_with`, component by component. -/
def startsWith (path root : Path) : Bool :=
  path = root || root = ['/'] || (root ++ ['/']).isPrefixOf path

def isAbsolute (path : Path) : Bool := path.head? = some '/'

/-- `Path::join`. -/
def join (directory name : Path) : Path :=
  if isAbsolute name then name
  else if directory = ['/'] then '/' :: name
  else directory ++ '/' :: name

/-- `Path::components`: without what is empty, and without `.` unless a relative path starts with
it. -/
def components (path : Path) : List Text :=
  let segments := path.splitOn '/'
  (if isAbsolute path then [['/']] else if segments.head? = some ['.'] then [['.']] else []) ++
    segments.filter fun segment => segment ≠ [] ∧ segment ≠ ['.']

/-- Equality of two `PathBuf`s. -/
def samePath (path other : Path) : Bool := components path = components other

/-- The order of a `BTreeSet<PathBuf>`, component by component. -/
def precedes (path other : Path) : Prop := ¬other.splitOn '/' < path.splitOn '/'

instance : DecidableRel precedes := fun _ _ => inferInstanceAs (Decidable (¬_))

/-- A `BTreeSet` of paths. -/
def pathSet (paths : List Path) : List Path := paths.dedup.insertionSort precedes

/-- Path and what it displays as: relative to the project root, else in full. -/
def displayPath (root path : Path) : Path :=
  if startsWith path root then
    (if root = ['/'] then path.drop 1 else path.drop (root.length + 1))
  else path

/-- What is asked of the file system; `resolve` is the module resolver with the options that a
`tsconfig.json` gives it, a new one or one that was kept with what it cached of the files. -/
inductive FileQuestion
  | stamp (path : Path)
  | read (path : Path)
  | exists (path : Path)
  | isFile (path : Path)
  | isDir (path : Path)
  | canonicalize (path : Path)
  | resolve (kept : Bool) (tsconfig : Option Path) (directory : Path) (request : Text)
  deriving DecidableEq

/-- A resolved path, and the `package.json` that applied to it. -/
abbrev Resolution := Path × Option Path

abbrev FileQuestion.Answer : FileQuestion → Type
  | .stamp _ => Option FileStamp
  | .read _ => Except String Text
  | .exists _ | .isFile _ | .isDir _ => Bool
  | .canonicalize _ => Except String Path
  | .resolve .. => Except String Resolution

/-- A program that looks at the file system. -/
abbrev Looking (X : Type) := Asking FileQuestion.Answer X

/-- `FileStamp::of`; nothing when the path does not exist. -/
def FileStamp.of (path : Path) : Looking (Option FileStamp) := .put (FileQuestion.stamp path)

/-- `fs::read_to_string`. -/
def readToString (path : Path) : Looking (Except String Text) := .put (FileQuestion.read path)

def pathExists (path : Path) : Looking Bool := .put (FileQuestion.exists path)

def isFile (path : Path) : Looking Bool := .put (FileQuestion.isFile path)

def isDir (path : Path) : Looking Bool := .put (FileQuestion.isDir path)

def canonicalize (path : Path) : Looking (Except String Path) := .put (FileQuestion.canonicalize path)

/-- `Resolver::resolve`. -/
def resolve (kept : Bool) (tsconfig : Option Path) (directory : Path) (request : Text) :
    Looking (Except String Resolution) := .put (FileQuestion.resolve kept tsconfig directory request)

namespace WatchedFiles

def empty : WatchedFiles := ⟨IndexMap.empty⟩

/-- Watches `path` with a stamp taken earlier, before the file was read. -/
def watchStamped (path : Path) (stamp : Option FileStamp) (watched : WatchedFiles) :
    WatchedFiles := ⟨watched.files.insert path stamp⟩

/-- Stamps `path` unless it is already watched. -/
def watch (path : Path) (watched : WatchedFiles) : Looking WatchedFiles :=
  if (watched.files.get? path).isSome then pure watched
  else do
    let stamp ← FileStamp.of path
    pure (watched.watchStamped path stamp)

def watchAll : List Path → WatchedFiles → Looking WatchedFiles
  | [], watched => pure watched
  | path :: paths, watched => do watchAll paths (← watched.watch path)

/-- Whether any of the paths was modified, created or removed since it was stamped; the first
that was ends the look. -/
def anyChanged : List (Path × Option FileStamp) → Looking Bool
  | [] => pure false
  | (path, stamped) :: entries => do
    let stamp ← FileStamp.of path
    if stamp ≠ stamped then pure true else anyChanged entries

def changed (watched : WatchedFiles) : Looking Bool := anyChanged watched.files.entries

def restampAll : List Path → WatchedFiles → Looking WatchedFiles
  | [], watched => pure watched
  | path :: paths, watched => do
    let stamp ← FileStamp.of path
    restampAll paths (watched.watchStamped path stamp)

/-- Takes the current state as the new reference. -/
def restamp (watched : WatchedFiles) : Looking WatchedFiles :=
  restampAll watched.files.keys watched

end WatchedFiles

example : ancestors "/app/src/main.ts".toList =
    ["/app/src/main.ts".toList, "/app/src".toList, "/app".toList, "/".toList] := by decide

example : displayPath "/app".toList "/app/src/main.ts".toList = "src/main.ts".toList := by decide

end RustTS.Compiler
