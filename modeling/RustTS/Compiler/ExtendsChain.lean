import Mathlib.Algebra.Order.BigOperators.Group.List
import Mathlib.Data.Set.Finite.Lattice
import Mathlib.Data.Set.Finite.Range
import RustTS.Compiler.Resolver
import RustTS.Lib.Worklist

/-! Following `extends` on a disk whose paths are walked segment by segment: it ends, with each config
once, exactly where no config is named by two of the paths it spells out. -/
namespace RustTS.Compiler
open Runner.ModuleLoader (Text)

/-- Whether a segment of a path is a component of it. -/
def isName (segment : Text) : Bool := segment ≠ [] ∧ segment ≠ ['.']

/-- The components of an absolute path below the root. -/
def names (path : Path) : List Text := (path.splitOn '/').filter isName

theorem components_of_isAbsolute {path : Path} (h : isAbsolute path = true) :
    components path = ['/'] :: names path := by
  unfold components names
  dsimp only
  rw [if_pos h]
  rfl

theorem splitOn_append (path rest : Path) :
    (path ++ '/' :: rest).splitOn '/' = path.splitOn '/' ++ rest.splitOn '/' :=
  List.splitOn_append_cons_self path rest

theorem names_append (path rest : Path) :
    names (path ++ '/' :: rest) = names path ++ names rest := by
  unfold names
  rw [splitOn_append, List.filter_append]

private theorem names_name {name : Text} (hslash : '/' ∉ name) (hne : name ≠ []) (hdot : name ≠ ['.']) :
    names name = [name] := by
  unfold names
  rw [List.splitOn_eq_singleton hslash, List.filter_singleton]
  simp [isName, hne, hdot]

/-- An absolute path that ends in a name. -/
structure EndsInName (path directory name : Text) : Prop where
  eq : path = directory ++ '/' :: name
  absolute : directory = [] ∨ isAbsolute directory = true
  slash : '/' ∉ name
  ne_nil : name ≠ []
  ne_dot : name ≠ ['.']

namespace EndsInName

variable {path directory name : Text}

theorem isAbsolute (h : EndsInName path directory name) : isAbsolute path = true := by
  obtain ⟨rfl, habsolute, -⟩ := h
  cases directory with
  | nil => rfl
  | cons c directory => exact habsolute.resolve_left (List.cons_ne_nil _ _)

theorem names_eq (h : EndsInName path directory name) : names path = names directory ++ [name] := by
  rw [h.eq, names_append, names_name h.slash h.ne_nil h.ne_dot]

theorem parent_eq (h : EndsInName path directory name) :
    parent path = some (if directory = [] then ['/'] else directory) := by
  have hroot : path ≠ ['/'] := by
    rintro hroot
    have hnil := h.names_eq
    rw [hroot] at hnil
    exact List.append_ne_nil_of_right_ne_nil _ (List.cons_ne_nil _ _) hnil.symm
  have hreverse : path.reverse = name.reverse ++ '/' :: directory.reverse := by
    rw [h.eq]
    simp
  have hdrop : path.reverse.dropWhile (· ≠ '/') = '/' :: directory.reverse := by
    rw [hreverse, List.dropWhile_append_of_pos]
    · simp
    · intro c hc
      have hne : c ≠ '/' := fun heq => h.slash (heq ▸ List.mem_reverse.mp hc)
      simpa using hne
  unfold parent
  rw [if_neg hroot, hdrop]
  simp only [List.reverse_reverse, List.reverse_eq_nil_iff]

theorem join_parent (h : EndsInName path directory name) :
    ∃ base, names base = names directory ∧ (base = [] ∨ Compiler.isAbsolute base = true) ∧
      ∀ specifier, Compiler.isAbsolute specifier = false →
        join ((parent path).getD []) specifier = base ++ '/' :: specifier := by
  rw [h.parent_eq, Option.getD_some]
  by_cases hnil : directory = []
  · refine ⟨[], by rw [hnil], .inl rfl, fun specifier hrelative => ?_⟩
    rw [if_pos hnil, join, if_neg (by simp [hrelative])]
    rfl
  · rw [if_neg hnil]
    by_cases hslash : directory = ['/']
    · refine ⟨[], by rw [hslash]; rfl, .inl rfl, fun specifier hrelative => ?_⟩
      rw [join, if_neg (by simp [hrelative]), if_pos hslash]
      rfl
    · refine ⟨directory, rfl, h.absolute, fun specifier hrelative => ?_⟩
      rw [join, if_neg (by simp [hrelative]), if_neg hslash]

end EndsInName

theorem names_join {directory name : Path} (h : isAbsolute name = false) :
    names (join directory name) = names directory ++ names name := by
  unfold join
  rw [if_neg (by simp [h])]
  by_cases hroot : directory = ['/']
  · rw [if_pos hroot, hroot]
    exact names_append [] name
  · rw [if_neg hroot, names_append]

private theorem exists_last_slash {path : Path} (h : '/' ∈ path) :
    ∃ directory name, path = directory ++ '/' :: name ∧ '/' ∉ name := by
  obtain ⟨name, directory, hreverse, hslash⟩ := List.eq_append_cons_of_mem (List.mem_reverse.mpr h)
  refine ⟨directory.reverse, name.reverse, ?_, mt List.mem_reverse.mp hslash⟩
  rw [← path.reverse_reverse, hreverse]
  simp

section
variable (f : (q : FileQuestion) → q.Answer) (extendsOf : Path → Text → List Text)

/-- The configs that a config extends, by what is answered of the files. -/
def extendedBy (path : Path) : List Path :=
  let specifiers := match f (.read path) with
    | .ok json => extendsOf path json
    | .error _ => []
  let followed := specifiers.filter fun specifier =>
    decide (specifier.head? = some '.') || isAbsolute specifier
  (extendedConfigFiles (followed.map (join ((parent path).getD [])))).answered f

theorem answered_tsconfigChain (fuel : Nat) (files pending : List Path) :
    (tsconfigChain extendsOf fuel files pending).answered f =
      Worklist.explore components (extendedBy f extendsOf) fuel files pending := by
  induction fuel generalizing files pending with
  | zero => cases pending <;> rfl
  | succ fuel ih =>
    cases pending with
    | nil => rfl
    | cons path pending =>
      have hseen : files.any (samePath path) = true ↔ components path ∈ files.map components := by
        simp only [List.any_eq_true, samePath, decide_eq_true_eq, List.mem_map]
        exact exists_congr fun file => and_congr_right fun _ => eq_comm
      rw [tsconfigChain, Worklist.explore]
      by_cases h : components path ∈ files.map components
      · rw [if_pos (hseen.mpr h), if_pos h]
        exact ih files pending
      · rw [if_neg (mt hseen.mp h), if_neg h]
        simp only [readToString, Asking.answered_bind, Asking.answered_put, ih]
        unfold extendedBy
        cases f (.read path) <;> rfl

/-- It ends where only finitely many paths can be read. -/
theorem tsconfigChain_settles (hread : {path | (f (.read path)).toOption.isSome = true}.Finite)
    (tsconfig : Path) : ∃ least files, ∀ fuel, least ≤ fuel →
      (tsconfigChain extendsOf fuel [] [tsconfig]).answered f = some files := by
  have hfinite : (Worklist.reachableKeys components (extendedBy f extendsOf) tsconfig).Finite := by
    refine ((Set.finite_singleton (components tsconfig)).union
      (hread.biUnion fun path _ =>
        List.finite_toSet ((extendedBy f extendsOf path).map components))).subset ?_
    rintro _ ⟨path, hpath, rfl⟩
    cases hpath with
    | refl => exact .inl rfl
    | @tail previous _ _ hnext =>
      refine .inr (Set.mem_biUnion (x := previous) ?_ (List.mem_map_of_mem hnext))
      show (f (.read previous)).toOption.isSome = true
      unfold extendedBy at hnext
      cases hjson : f (.read previous) with
      | ok json => rfl
      | error error =>
        rw [hjson] at hnext
        cases hnext
  obtain ⟨least, files, hfiles⟩ := Worklist.explore_ends hfinite
  refine ⟨least, files, fun fuel hfuel => ?_⟩
  rw [answered_tsconfigChain]
  exact Worklist.explore_mono hfiles hfuel

end

/-- Files as the operating system finds them. Names are looked up with symbolic links followed. -/
structure Disk (File : Type) where
  root : File
  workingDirectory : File
  isDirectory : File → Bool
  isRegular : File → Bool
  child : File → Text → Option File
  up : File → File
  text : File → Except String Text
  root_directory : isDirectory root = true
  up_directory : ∀ file, isDirectory file = true → isDirectory (up file) = true
  regular : ∀ file, isRegular file = true → isDirectory file = false

namespace Disk

variable {File : Type} (disk : Disk File)

/-- One segment of a path, from a directory. -/
def step (file : File) (segment : Text) : Option File :=
  if disk.isDirectory file then
    if segment = [] ∨ segment = ['.'] then some file
    else if segment = "..".toList then some (disk.up file)
    else disk.child file segment
  else none

def walk (segments : List Text) (file : File) : Option File := segments.foldlM disk.step file

/-- The file a path names. -/
def locate (path : Path) : Option File :=
  disk.walk (path.splitOn '/') (if isAbsolute path then disk.root else disk.workingDirectory)

def read (path : Path) : Except String Text :=
  match disk.locate path with
  | some file => disk.text file
  | none => .error "No such file or directory (os error 2)"

/-- What the disk answers, other questions than those about files and their texts apart. -/
def answer (others : (q : FileQuestion) → q.Answer) : (q : FileQuestion) → q.Answer
  | .isFile path => (disk.locate path).any disk.isRegular
  | .isDir path => (disk.locate path).any disk.isDirectory
  | .read path => disk.read path
  | q => others q

/-- `tsconfig_chain` of a config. -/
def tsconfigChain (others : (q : FileQuestion) → q.Answer) (specifiersOf : Text → List Text)
    (fuel : Nat) (tsconfig : Path) : Option (List Path) :=
  (Compiler.tsconfigChain (fun _ => specifiersOf) fuel [] [tsconfig]).answered (disk.answer others)

/-- The file an `extends` path names. -/
def extendedFile (path : Path) : Path :=
  if (disk.locate path).any disk.isRegular then path
  else if (disk.locate path).any disk.isDirectory then join path "tsconfig.json".toList
  else path ++ ".json".toList

def specifiers (specifiersOf : Text → List Text) (path : Path) : List Text :=
  match disk.read path with
  | .ok json => (specifiersOf json).filter fun specifier =>
    decide (specifier.head? = some '.') || isAbsolute specifier
  | .error _ => []

/-- The paths that a config's `extends` spells out. -/
def extended (specifiersOf : Text → List Text) (path : Path) : List Path :=
  (disk.specifiers specifiersOf path).map fun specifier =>
    disk.extendedFile (join ((parent path).getD []) specifier)

/-- A path that following `extends` from a config comes to, as it is spelled. -/
abbrev Spelled (specifiersOf : Text → List Text) (tsconfig : Path) : Path → Prop :=
  Worklist.Reaches (disk.extended specifiersOf) tsconfig

variable {disk} {others : (q : FileQuestion) → q.Answer} {specifiersOf : Text → List Text}

private theorem answered_extendedConfigFile (path : Path) :
    (extendedConfigFile path).answered (disk.answer others) = disk.extendedFile path := by
  unfold extendedConfigFile extendedFile isFile isDir
  simp only [Asking.answered_bind, Asking.answered_put]
  show Asking.answered _ (if (disk.locate path).any disk.isRegular = true then _ else _) = _
  split
  · rfl
  · rfl

private theorem answered_extendedConfigFiles (paths : List Path) :
    (extendedConfigFiles paths).answered (disk.answer others) = paths.map disk.extendedFile := by
  induction paths with
  | nil => rfl
  | cons path paths ih =>
    rw [extendedConfigFiles]
    simp only [Asking.answered_bind, Asking.answered_pure, answered_extendedConfigFile, ih]
    rfl

theorem tsconfigChain_eq (fuel : Nat) (files pending : List Path) :
    (Compiler.tsconfigChain (fun _ => specifiersOf) fuel files pending).answered
        (disk.answer others) =
      Worklist.explore components (disk.extended specifiersOf) fuel files pending := by
  have hextended : extendedBy (disk.answer others) (fun _ => specifiersOf) =
      disk.extended specifiersOf := by
    funext path
    unfold extendedBy extended specifiers
    rw [answered_extendedConfigFiles, List.map_map]
    cases hread : disk.answer others (.read path) with
    | error error =>
      rw [show disk.read path = _ from hread]
      rfl
    | ok json =>
      rw [show disk.read path = _ from hread]
      rfl
  rw [answered_tsconfigChain, hextended]

theorem walk_append (segments rest : List Text) (file : File) :
    disk.walk (segments ++ rest) file = (disk.walk segments file).bind (disk.walk rest) :=
  List.foldlM_append

theorem walk_cons (segment : Text) (segments : List Text) (file : File) :
    disk.walk (segment :: segments) file = (disk.step file segment).bind (disk.walk segments) := rfl

theorem walk_filter (segments : List Text) {last : Text} (rest : List Text) (file : File) :
    disk.walk (segments ++ last :: rest) file =
      disk.walk (segments.filter isName ++ last :: rest) file := by
  induction segments generalizing file with
  | nil => rfl
  | cons segment segments ih =>
    by_cases hname : isName segment = true
    · rw [List.filter_cons_of_pos hname, List.cons_append, List.cons_append,
        walk_cons, walk_cons]
      exact congrArg _ (funext ih)
    · have hstay : segment = [] ∨ segment = ['.'] := by
        simp only [isName, decide_eq_true_eq] at hname
        tauto
      rw [List.filter_cons_of_neg hname, List.cons_append, walk_cons, ← ih]
      by_cases hdirectory : disk.isDirectory file = true
      · rw [step, if_pos hdirectory, if_pos hstay]
        rfl
      · -- The segment after it needs a directory as well.
        have hnone (segment : Text) : disk.step file segment = none := if_neg hdirectory
        cases segments with
        | nil => rw [hnone, List.nil_append, walk_cons, hnone]; rfl
        | cons next segments => rw [hnone, List.cons_append, walk_cons, hnone]; rfl

theorem locate_append {base rest : Path} (h : base = [] ∨ isAbsolute base = true) :
    disk.locate (base ++ '/' :: rest) =
      disk.walk (names base ++ rest.splitOn '/') disk.root := by
  have habsolute : isAbsolute (base ++ '/' :: rest) = true := by
    cases base with
    | nil => rfl
    | cons c base => exact h.resolve_left (List.cons_ne_nil _ _)
  obtain ⟨last, after, hrest⟩ := List.exists_cons_of_ne_nil (List.splitOn_ne_nil '/' rest)
  unfold locate
  rw [if_pos habsolute, splitOn_append, hrest, walk_filter]
  rfl

theorem locate_eq {path directory name : Text} (h : EndsInName path directory name) :
    disk.locate path = disk.walk (names path) disk.root := by
  have hname := List.splitOn_eq_singleton h.slash
  rw [h.names_eq]
  nth_rewrite 1 [h.eq]
  rw [locate_append h.absolute, hname]

theorem isDirectory_of_stay {base last : Text} (h : base = [] ∨ isAbsolute base = true)
    (hlast : last = [] ∨ last = ['.']) {file : File}
    (hfile : disk.locate (base ++ '/' :: last) = some file) : disk.isDirectory file = true := by
  have hsplit : last.splitOn '/' = [last] := by
    rcases hlast with rfl | rfl <;> rfl
  rw [locate_append h, hsplit, walk_append] at hfile
  obtain ⟨directory, -, hstep⟩ := Option.bind_eq_some_iff.mp hfile
  rw [walk_cons, step] at hstep
  by_cases hdirectory : disk.isDirectory directory = true
  · rw [if_pos hdirectory, if_pos hlast] at hstep
    obtain rfl := Option.some.inj hstep
    exact hdirectory
  · rw [if_neg hdirectory] at hstep
    cases hstep

/-- The config that `extends` names ends in a name again. -/
theorem extendedFile_endsInName {path : Path} (h : isAbsolute path = true) :
    ∃ directory name, EndsInName (disk.extendedFile path) directory name := by
  have hslash : '/' ∈ path := List.mem_of_mem_head? (by simpa [isAbsolute] using h)
  obtain ⟨directory, name, hpath, hname⟩ := exists_last_slash hslash
  have habsolute : directory = [] ∨ isAbsolute directory = true := by
    cases directory with
    | nil => exact .inl rfl
    | cons c directory =>
      rw [hpath] at h
      exact .inr h
  unfold extendedFile
  by_cases hregular : (disk.locate path).any disk.isRegular = true
  · rw [if_pos hregular]
    obtain ⟨file, hlocate, hfile⟩ := (Option.any_eq_true _ _).mp hregular
    have hstay (hlast : name = [] ∨ name = ['.']) : False := by
      rw [hpath] at hlocate
      have hdirectory := isDirectory_of_stay habsolute hlast hlocate
      rw [disk.regular file hfile] at hdirectory
      cases hdirectory
    exact ⟨directory, name, hpath, habsolute, hname, fun hnil => hstay (.inl hnil),
      fun hdot => hstay (.inr hdot)⟩
  rw [if_neg hregular]
  by_cases hdirectory : (disk.locate path).any disk.isDirectory = true
  · rw [if_pos hdirectory]
    by_cases hroot : path = ['/']
    · refine ⟨[], "tsconfig.json".toList, ?_, .inl rfl, by decide, by decide, by decide⟩
      rw [join, if_neg (by decide), if_pos hroot]
      rfl
    · refine ⟨path, "tsconfig.json".toList, ?_, .inr h, by decide, by decide, by decide⟩
      rw [join, if_neg (by decide), if_neg hroot]
  · rw [if_neg hdirectory]
    refine ⟨directory, name ++ ".json".toList, ?_, habsolute, ?_, by simp, ?_⟩
    · rw [hpath, List.append_assoc, List.cons_append]
    · rw [List.mem_append]
      exact not_or.mpr ⟨hname, by decide⟩
    · intro hdot
      have hlength := congrArg List.length hdot
      rw [List.length_append] at hlength
      simp at hlength

theorem names_extendedFile {base base' specifier : Path} (h : base = [] ∨ isAbsolute base = true)
    (h' : base' = [] ∨ isAbsolute base' = true) (hnames : names base = names base') :
    names (disk.extendedFile (base ++ '/' :: specifier)) =
      names (disk.extendedFile (base' ++ '/' :: specifier)) := by
  have hlocate : disk.locate (base ++ '/' :: specifier) =
      disk.locate (base' ++ '/' :: specifier) := by
    rw [locate_append h, locate_append h', hnames]
  have happend (rest : Path) : names (base ++ '/' :: rest) = names (base' ++ '/' :: rest) := by
    rw [names_append, names_append, hnames]
  have hshape (base : Path) : base ++ '/' :: specifier ++ ".json".toList =
      base ++ '/' :: (specifier ++ ".json".toList) := by simp
  unfold extendedFile
  rw [hlocate]
  split_ifs
  · exact happend specifier
  · rw [names_join (by decide), names_join (by decide), happend]
  · rw [hshape, hshape, happend]

variable {start : Path}

theorem isAbsolute_join_parent {path directory name : Path} (h : EndsInName path directory name)
    (specifier : Path) : isAbsolute (join ((parent path).getD []) specifier) = true := by
  cases hspecifier : isAbsolute specifier with
  | true =>
    rw [join, if_pos hspecifier]
    exact hspecifier
  | false =>
    obtain ⟨base, -, habsolute, hjoin⟩ := h.join_parent
    rw [hjoin specifier hspecifier]
    cases base with
    | nil => rfl
    | cons c base => exact habsolute.resolve_left (List.cons_ne_nil _ _)

private theorem endsInName_of_mem_extended {path directory name next : Path}
    (h : EndsInName path directory name) (hnext : next ∈ disk.extended specifiersOf path) :
    ∃ directory name, EndsInName next directory name := by
  obtain ⟨specifier, -, rfl⟩ := List.mem_map.mp hnext
  exact extendedFile_endsInName (isAbsolute_join_parent h specifier)

theorem Spelled.endsInName {path : Path} (hstart : ∃ directory name, EndsInName start directory name)
    (h : disk.Spelled specifiersOf start path) : ∃ directory name, EndsInName path directory name := by
  induction h with
  | refl => exact hstart
  | tail _ hnext ih =>
    obtain ⟨directory, name, h⟩ := ih
    exact endsInName_of_mem_extended h hnext

theorem locate_eq_of_samePath {path other directory name directory' name' : Path}
    (h : EndsInName path directory name) (h' : EndsInName other directory' name')
    (hsame : components path = components other) : disk.locate path = disk.locate other := by
  rw [components_of_isAbsolute h.isAbsolute, components_of_isAbsolute h'.isAbsolute] at hsame
  rw [locate_eq h, locate_eq h', (List.cons.inj hsame).2]

theorem extended_samePath {path other directory name directory' name' : Path}
    (h : EndsInName path directory name) (h' : EndsInName other directory' name')
    (hsame : components path = components other) :
    (disk.extended specifiersOf path).map components =
      (disk.extended specifiersOf other).map components := by
  have hlocate : disk.locate path = disk.locate other := locate_eq_of_samePath h h' hsame
  have hspecifiers : disk.specifiers specifiersOf path = disk.specifiers specifiersOf other := by
    simp only [specifiers, read, hlocate]
  rw [components_of_isAbsolute h.isAbsolute, components_of_isAbsolute h'.isAbsolute, h.names_eq,
    h'.names_eq] at hsame
  have hnames : names directory = names directory' :=
    (List.append_inj' (List.cons.inj hsame).2 rfl).1
  obtain ⟨base, hbase, hroot, hjoin⟩ := h.join_parent
  obtain ⟨base', hbase', hroot', hjoin'⟩ := h'.join_parent
  unfold extended
  rw [hspecifiers, List.map_map, List.map_map]
  refine List.map_congr_left fun specifier _ => ?_
  show components (disk.extendedFile (join ((parent path).getD []) specifier)) =
    components (disk.extendedFile (join ((parent other).getD []) specifier))
  have habsolute {path : Path} (hpath : isAbsolute path = true) :
      isAbsolute (disk.extendedFile path) = true := by
    obtain ⟨_, _, hends⟩ := extendedFile_endsInName hpath
    exact hends.isAbsolute
  rw [components_of_isAbsolute (habsolute (isAbsolute_join_parent h specifier)),
    components_of_isAbsolute (habsolute (isAbsolute_join_parent h' specifier))]
  cases hspecifier : isAbsolute specifier with
  | true => rw [join, join, if_pos hspecifier, if_pos hspecifier]
  | false =>
    rw [hjoin specifier hspecifier, hjoin' specifier hspecifier]
    exact congrArg _ (names_extendedFile hroot hroot' (by rw [hbase, hbase', hnames]))

theorem respects (hstart : ∃ directory name, EndsInName start directory name) :
    Worklist.Respects components (disk.extended specifiersOf) start := by
  intro path other hpath hother hsame
  obtain ⟨directory, name, h⟩ := Spelled.endsInName hstart hpath
  obtain ⟨directory', name', h'⟩ := Spelled.endsInName hstart hother
  exact extended_samePath h h' hsame

/-- No two of the paths that following `extends` spells out name one file, unless they have the same
components. -/
def SpelledOnce (disk : Disk File) (specifiersOf : Text → List Text) (tsconfig : Path) : Prop :=
  ∀ path other file, disk.Spelled specifiersOf tsconfig path →
    disk.Spelled specifiersOf tsconfig other → disk.locate path = some file →
    disk.locate other = some file → components path = components other

private theorem locate_of_mem_extended {path next : Path} (h : next ∈ disk.extended specifiersOf path) :
    ∃ file, disk.locate path = some file := by
  cases hlocate : disk.locate path with
  | some file => exact ⟨file, rfl⟩
  | none =>
    simp only [extended, specifiers, read, hlocate, List.map_nil] at h
    cases h

theorem reachableKeys_finite [Finite File]
    (hstart : ∃ directory name, EndsInName start directory name)
    (h : SpelledOnce disk specifiersOf start) :
    (Worklist.reachableKeys components (disk.extended specifiersOf) start).Finite := by
  classical
  let spelling (file : File) : Path :=
    if h : ∃ path, disk.Spelled specifiersOf start path ∧ disk.locate path = some file
    then h.choose else []
  let keys (file : File) : Set (List Text) :=
    {key | key ∈ (disk.extended specifiersOf (spelling file)).map components}
  have hkeys : (⋃ file, keys file).Finite := Set.finite_iUnion fun file => List.finite_toSet _
  refine ((Set.finite_singleton (components start)).union hkeys).subset ?_
  rintro key ⟨path, hpath, rfl⟩
  cases hpath with
  | refl => exact .inl rfl
  | @tail previous _ hprevious hnext =>
    obtain ⟨file, hfile⟩ := locate_of_mem_extended hnext
    have hexists : ∃ path, disk.Spelled specifiersOf start path ∧ disk.locate path = some file :=
      ⟨previous, hprevious, hfile⟩
    have hspelling : spelling file = hexists.choose := dif_pos hexists
    obtain ⟨hspelled, hlocate⟩ := hexists.choose_spec
    have hsame := h previous hexists.choose file hprevious hspelled hfile hlocate
    have hextended := respects hstart previous hexists.choose hprevious hspelled hsame
    refine .inr (Set.mem_iUnion.mpr ⟨file, ?_⟩)
    show components path ∈ (disk.extended specifiersOf (spelling file)).map components
    rw [hspelling, ← hextended]
    exact List.mem_map_of_mem hnext

theorem endsInName_tsconfig {directory : Path} (h : isAbsolute directory = true) :
    ∃ base name, EndsInName (join directory "tsconfig.json".toList) base name := by
  unfold join
  rw [if_neg (by decide)]
  by_cases hroot : directory = ['/']
  · rw [if_pos hroot]
    exact ⟨[], _, rfl, .inl rfl, by decide, by decide, by decide⟩
  · rw [if_neg hroot]
    exact ⟨directory, _, rfl, .inr h, by decide, by decide, by decide⟩

private theorem length_le_one_of_nodup_map {α κ : Type} {f : α → κ} {l : List α} (hnodup : (l.map f).Nodup)
    (hsame : ∀ a ∈ l, ∀ b ∈ l, f a = f b) : l.length ≤ 1 := by
  match l with
  | [] => exact Nat.zero_le 1
  | [a] => exact Nat.le_refl 1
  | a :: b :: rest =>
    have hab : f a = f b := hsame a (by simp) b (by simp)
    simp [hab] at hnodup

/-- Following `extends` comes to an end, with each config exactly once, where no config is spelled
in two ways, and only there. -/
theorem tsconfigChain_exact [Finite File] [DecidableEq File] (disk : Disk File)
    (others : (q : FileQuestion) → q.Answer) (specifiersOf : Text → List Text) {directory : Path}
    (hdirectory : isAbsolute directory = true) :
    let tsconfig := join directory "tsconfig.json".toList
    (∃ fuel files, disk.tsconfigChain others specifiersOf fuel tsconfig = some files ∧
      ∀ path file, disk.Spelled specifiersOf tsconfig path → disk.locate path = some file →
        files.countP (fun path => disk.locate path = some file) = 1) ↔
      SpelledOnce disk specifiersOf tsconfig := by
  intro tsconfig
  have hstart := endsInName_tsconfig hdirectory
  have hsame (path other : Path) (hpath : disk.Spelled specifiersOf tsconfig path)
      (hother : disk.Spelled specifiersOf tsconfig other) (h : components path = components other) :
      disk.locate path = disk.locate other := by
    obtain ⟨_, _, hends⟩ := Spelled.endsInName hstart hpath
    obtain ⟨_, _, hends'⟩ := Spelled.endsInName hstart hother
    exact locate_eq_of_samePath hends hends' h
  constructor
  · rintro ⟨fuel, files, hchain, hcount⟩ path other file hpath hother hlocate hlocate'
    have hfiles := (tsconfigChain_eq fuel [] [tsconfig]).symm.trans hchain
    obtain ⟨hreach, -, hcomplete⟩ := Worklist.explore_spec (respects hstart) hfiles
    have honce := hcount path file hpath hlocate
    rw [List.countP_eq_length_filter, List.length_eq_one_iff] at honce
    obtain ⟨listed, honce⟩ := honce
    have hlisted (path : Path) (hpath : disk.Spelled specifiersOf tsconfig path)
        (hlocate : disk.locate path = some file) : components path = components listed := by
      obtain ⟨found, hfound, hcomponents⟩ := List.mem_map.mp (hcomplete path hpath)
      have hmem : found ∈ files.filter fun path => disk.locate path = some file := by
        rw [List.mem_filter, decide_eq_true_eq, hsame found path (hreach found hfound) hpath hcomponents]
        exact ⟨hfound, hlocate⟩
      rw [honce, List.mem_singleton] at hmem
      rw [← hcomponents, hmem]
    exact (hlisted path hpath hlocate).trans (hlisted other hother hlocate').symm
  · intro h
    obtain ⟨fuel, files, hfiles⟩ := Worklist.explore_ends (reachableKeys_finite hstart h)
    have hchain : disk.tsconfigChain others specifiersOf fuel tsconfig = some files :=
      (tsconfigChain_eq fuel [] [tsconfig]).trans hfiles
    obtain ⟨hreach, hnodup, hcomplete⟩ := Worklist.explore_spec (respects hstart) hfiles
    refine ⟨fuel, files, hchain, fun path file hpath hlocate => ?_⟩
    rw [List.countP_eq_length_filter]
    have hfilter {other : Path}
        (hother : other ∈ files.filter fun path => disk.locate path = some file) :
        disk.Spelled specifiersOf tsconfig other ∧ disk.locate other = some file := by
      rw [List.mem_filter, decide_eq_true_eq] at hother
      exact ⟨hreach other hother.1, hother.2⟩
    have hle := length_le_one_of_nodup_map (hnodup.sublist (List.filter_sublist.map components))
      fun a ha b hb => h a b file (hfilter ha).1 (hfilter hb).1 (hfilter ha).2 (hfilter hb).2
    obtain ⟨found, hfound, hcomponents⟩ := List.mem_map.mp (hcomplete path hpath)
    have hmem : found ∈ files.filter fun path => disk.locate path = some file := by
      rw [List.mem_filter, decide_eq_true_eq, hsame found path (hreach found hfound) hpath hcomponents]
      exact ⟨hfound, hlocate⟩
    have hpos := List.length_pos_of_mem hmem
    omega

/-- No other question has an answer. -/
def noOthers : (q : FileQuestion) → q.Answer
  | .stamp _ => none
  | .read _ | .canonicalize _ | .resolve .. => .error ""
  | .exists _ | .isFile _ | .isDir _ => false

/-- A config in the root that extends itself. -/
def selfExtending : Disk Bool where
  root := false
  workingDirectory := false
  isDirectory file := !file
  isRegular file := file
  child file name := if file = false ∧ name = "tsconfig.json".toList then some true else none
  up _ := false
  text _ := .ok []
  root_directory := rfl
  up_directory _ _ := rfl
  regular file h := by rw [h]; rfl

/-- A config that extends itself is found once. -/
theorem tsconfigChain_exact_self :
    ∃ fuel files, selfExtending.tsconfigChain noOthers (fun _ => ["./tsconfig.json".toList]) fuel
        "/tsconfig.json".toList = some files ∧
      ∀ path file, selfExtending.Spelled (fun _ => ["./tsconfig.json".toList])
          "/tsconfig.json".toList path → selfExtending.locate path = some file →
        files.countP (fun path => selfExtending.locate path = some file) = 1 := by
  have hroot : isAbsolute ['/'] = true := by decide
  refine (tsconfigChain_exact selfExtending noOthers _ hroot).mpr ?_
  have hspelled (path : Path) (h : selfExtending.Spelled (fun _ => ["./tsconfig.json".toList])
      "/tsconfig.json".toList path) : components path = [['/'], "tsconfig.json".toList] := by
    induction h with
    | refl => decide
    | @tail previous next hprevious hnext ih =>
      have hsame := respects (endsInName_tsconfig hroot) previous _ hprevious .refl ih
      have hmem : components next ∈ _ := hsame ▸ List.mem_map_of_mem hnext
      have hself : ((selfExtending.extended (fun _ => ["./tsconfig.json".toList])
          "/tsconfig.json".toList).map components) = [[['/'], "tsconfig.json".toList]] := by decide
      exact List.mem_singleton.mp (hself ▸ hmem)
  intro path other file hpath hother _ _
  rw [hspelled path hpath, hspelled other hother]

/-- The config of the directory `a`, and the root that has it. -/
def parentCycle : Disk (Fin 3) where
  root := 0
  workingDirectory := 0
  isDirectory file := file ≠ 2
  isRegular file := file = 2
  child file name :=
    if file = 0 ∧ name = "a".toList then some 1
    else if file = 1 ∧ name = "tsconfig.json".toList then some 2
    else none
  up _ := 0
  text _ := .ok []
  root_directory := rfl
  up_directory _ _ := rfl
  regular file h := by
    rw [decide_eq_true_eq] at h
    rw [h]
    rfl

/-- The config of the directory `a` of the root extends itself through the parent directory. -/
structure Circles (disk : Disk File) (specifiersOf : Text → List Text) (config : File) : Prop where
  start : disk.locate "/a/tsconfig.json".toList = some config
  around : ∀ file, disk.isDirectory file = true →
    disk.walk ["..".toList, "a".toList, "tsconfig.json".toList] file = some config
  regular : disk.isRegular config = true
  extends_self : ∃ json, disk.text config = .ok json ∧
    specifiersOf json = ["../a/tsconfig.json".toList]

/-- Each path of the cycle spells out a longer one. -/
theorem Circles.spelled {config : File} (h : disk.Circles specifiersOf config) (n : Nat) :
    ∃ path directory name, disk.Spelled specifiersOf "/a/tsconfig.json".toList path ∧
      EndsInName path directory name ∧ disk.locate path = some config ∧
      n ≤ (names path).length := by
  induction n with
  | zero =>
    refine ⟨"/a/tsconfig.json".toList, "/a".toList, "tsconfig.json".toList, .refl,
      ⟨rfl, .inr rfl, by decide, by decide, by decide⟩, h.start, Nat.zero_le _⟩
  | succ n ih =>
    obtain ⟨path, directory, name, hpath, hends, hlocate, hlength⟩ := ih
    obtain ⟨base, hbase, hroot, hjoin⟩ := hends.join_parent
    -- The file is a directory, since a name is looked up in it.
    have hfound := hlocate
    rw [locate_eq hends, hends.names_eq, walk_append] at hfound
    obtain ⟨file, hwalk, hstep⟩ := Option.bind_eq_some_iff.mp hfound
    have hfile : disk.isDirectory file = true := by
      by_contra hfile
      rw [walk_cons, step, if_neg hfile] at hstep
      cases hstep
    have hnext : disk.locate (base ++ '/' :: "../a/tsconfig.json".toList) = some config := by
      rw [locate_append hroot, walk_append, hbase, hwalk]
      exact h.around file hfile
    refine ⟨base ++ '/' :: "../a/tsconfig.json".toList, base ++ "/../a".toList,
      "tsconfig.json".toList, hpath.tail ?_, ⟨by simp, .inr ?_, by decide, by decide, by decide⟩,
      hnext, ?_⟩
    · obtain ⟨json, htext, hjson⟩ := h.extends_self
      have hspecifiers : disk.specifiers specifiersOf path = ["../a/tsconfig.json".toList] := by
        simp only [specifiers, read, hlocate, htext, hjson]
        decide
      rw [extended, hspecifiers, List.map_singleton, List.mem_singleton, hjoin _ (by decide),
        extendedFile, hnext, Option.any_some, if_pos h.regular]
    · cases base with
      | nil => rfl
      | cons c base => exact hroot.resolve_left (List.cons_ne_nil _ _)
    · rw [names_append, hbase, List.length_append]
      rw [hends.names_eq, List.length_append, List.length_singleton] at hlength
      have hthree : (names "../a/tsconfig.json".toList).length = 3 := by decide
      omega

private theorem Circles.infinite {config : File} (h : disk.Circles specifiersOf config) :
    ¬(Worklist.reachableKeys components (disk.extended specifiersOf)
      "/a/tsconfig.json".toList).Finite := by
  intro hfinite
  obtain ⟨longest, hlongest⟩ := (hfinite.image List.length).bddAbove
  obtain ⟨path, directory, name, hpath, hends, -, hlength⟩ := h.spelled longest
  have hle : (components path).length ≤ longest :=
    hlongest (Set.mem_image_of_mem _ ⟨path, hpath, rfl⟩)
  rw [components_of_isAbsolute hends.isAbsolute, List.length_cons] at hle
  omega

private theorem parentCycle_circles :
    parentCycle.Circles (fun _ => ["../a/tsconfig.json".toList]) 2 where
  start := by decide
  around := by decide
  regular := by decide
  extends_self := ⟨[], rfl, rfl⟩

/-- Following `extends` around the cycle has no end. -/
theorem tsconfigChain_endless :
    ¬∃ fuel files, parentCycle.tsconfigChain noOthers (fun _ => ["../a/tsconfig.json".toList]) fuel
      "/a/tsconfig.json".toList = some files := by
  rintro ⟨fuel, files, hchain⟩
  have habsolute : isAbsolute "/a".toList = true := by decide
  have hstart := endsInName_tsconfig habsolute
  have hfiles := (tsconfigChain_eq fuel [] ["/a/tsconfig.json".toList]).symm.trans hchain
  exact parentCycle_circles.infinite
    (Worklist.reachableKeys_finite_of_explore (respects hstart) hfiles)

end Disk

end RustTS.Compiler
