import Mathlib.Data.Set.Finite.Lattice
import Mathlib.Data.Set.Finite.List
import RustTS.Compiler.ExtendsChain
import RustTS.Compiler.FailedVisit
import RustTS.Compiler.ImportClosure

/-! Discovery on a finite file tree of an operating system that takes no path beyond a length: it
comes to an end, with the closure of the imports of its entry. -/
namespace RustTS.Compiler
open Runner.ModuleLoader (Text)

/-- The bytes of a path. -/
def byteLength (path : Path) : Nat := (path.map Char.utf8Size).sum

/-- A disk with the stamps and canonical paths of its files, the longest path that the operating
system takes, and where a resolver, new or kept, finds what a request names. -/
structure FileTree (File : Type) extends Disk File where
  longestPath : Nat
  stampOf : File → FileStamp
  canonicalPath : File → Path
  resolution : Bool → Option Path → Path → Text → Except String Resolution

namespace FileTree

variable {File : Type} (tree : FileTree File)

/-- The file that the operating system finds under a path. -/
def find (path : Path) : Option File :=
  if byteLength path ≤ tree.longestPath then tree.locate path else none

def notFound (path : Path) : String :=
  if byteLength path ≤ tree.longestPath then "No such file or directory (os error 2)"
  else "File name too long (os error 36)"

def answer : Answers
  | .stamp path => (tree.find path).map tree.stampOf
  | .exists path => (tree.find path).isSome
  | .isFile path => (tree.find path).any tree.isRegular
  | .isDir path => (tree.find path).any tree.isDirectory
  | .read path => match tree.find path with
    | some file => tree.text file
    | none => .error (tree.notFound path)
  | .canonicalize path => match tree.find path with
    | some file =>
      if byteLength (tree.canonicalPath file) ≤ tree.longestPath then .ok (tree.canonicalPath file)
      else .error "File name too long (os error 36)"
    | none => .error (tree.notFound path)
  | .resolve kept tsconfig directory request => tree.resolution kept tsconfig directory request

/-- Discovery ends; where it succeeds its modules are the closure of the imports of its entry; and
where it fails while visiting, whatever happens to the files meanwhile, what it visited is watched
under stamps taken before the files were read. -/
structure DiscoversClosure (importsOf : Text → Path → Except VmError (List Text))
    (specifiersOf : Text → List Text) (entryPath : Path) (externalModules : List Text)
    (previous : Option ProjectState) : Prop where
  ends : ∃ fuel, ((discoverProject ⟨importsOf, fun _ => specifiersOf⟩ fuel entryPath externalModules
    previous).answered tree.answer).isSome
  closure : ∀ fuel project state,
    (discoverProject ⟨importsOf, fun _ => specifiersOf⟩ fuel entryPath externalModules
      previous).answered tree.answer = some (.ok (project, state)) →
    ∃ b, (beginDiscovery ⟨importsOf, fun _ => specifiersOf⟩ fuel entryPath externalModules
        previous).answered tree.answer = some (.ok b) ∧ project.entryModuleId = b.entry ∧
      b.context.ImportClosure tree.answer b.discovery.structureUnchanged b.discovery.known b.entry
        project.modules
  failure : ∀ {S : Type} (answer : (q : FileQuestion) → S → q.Answer × S) (s s₁ : S) fuel b failure,
    (beginDiscovery ⟨importsOf, fun _ => specifiersOf⟩ fuel entryPath externalModules
      previous).run answer s = (some (.ok b), s₁) →
    ((discoverProject ⟨importsOf, fun _ => specifiersOf⟩ fuel entryPath externalModules
      previous).run answer s).1 = some (.error failure) →
    ∃ d path, ((b.walk fuel).run answer s₁).1 = some (.error failure.error, d) ∧
      WatchesVisited answer b.context ((b.walk fuel).asked answer s₁) d path failure

variable {tree} {importsOf : Text → Path → Except VmError (List Text)}
  {specifiersOf : Text → List Text} {entryPath entry : Path} {externalModules : List Text}
  {previous : Option ProjectState} {fuel : Nat} {b : Beginning}

theorem discoverProject_answered_begin {f : Answers} {parser : Parser} :
    (discoverProject parser fuel entryPath externalModules previous).answered f =
      (goOn fuel ((beginDiscovery parser fuel entryPath externalModules previous).answered
        f)).answered f := by
  rw [discoverProject_begin, Asking.answered_bind]

theorem answered_finish {f : Answers} : (b.finish fuel).answered f =
    ((b.walk fuel).answered f).map (b.context.finish b.entry) := by
  unfold Beginning.finish
  rw [Asking.answered_bind]
  rfl

/-- A discovery that succeeds found the closure of the imports. -/
theorem discovers_closure {f : Answers} {parser : Parser} {project : DiscoveredProject}
    {state : ProjectState} (hprevious : ∀ state ∈ previous, Discovered parser state)
    (h : (discoverProject parser fuel entryPath externalModules previous).answered f =
      some (.ok (project, state))) :
    ∃ b, (beginDiscovery parser fuel entryPath externalModules previous).answered f =
        some (.ok b) ∧ project.entryModuleId = b.entry ∧
      b.context.ImportClosure f b.discovery.structureUnchanged b.discovery.known b.entry
        project.modules := by
  rw [discoverProject_answered_begin] at h
  cases hbegin : (beginDiscovery parser fuel entryPath externalModules previous).answered f with
  | none =>
    rw [hbegin] at h
    cases h
  | some begun =>
    cases begun with
    | error error =>
      rw [hbegin] at h
      cases h
    | ok b =>
      rw [hbegin] at h
      have hb := beginDiscovery_yields.answered f b hbegin
      obtain ⟨⟨error | ⟨⟨⟩⟩, d⟩, hvisit, hfinish⟩ :=
        Option.map_eq_some_iff.mp (answered_finish.symm.trans h)
      · cases hfinish
      · cases hfinish
        refine ⟨b, rfl, rfl, ?_⟩
        have hstart : b.discovery = ⟨b.discovery.known, b.discovery.structureUnchanged,
            b.discovery.structureFiles, IndexMap.empty⟩ := by
          rw [← hb.empty]
        unfold Beginning.walk at hvisit
        rw [hstart] at hvisit
        exact DiscoveryContext.visit_closure
          (hb.knownRecorded fun state hstate => (hprevious state hstate).recorded) hvisit

private theorem length_le_byteLength (path : Path) : path.length ≤ byteLength path := by
  induction path with
  | nil => exact Nat.le_refl 0
  | cons c path ih =>
    have hpos : 0 < c.utf8Size := Char.utf8Size_pos c
    have hcons : byteLength (c :: path) = c.utf8Size + byteLength path := List.sum_cons
    rw [List.length_cons, hcons]
    omega

instance : Finite Char := by
  have hvalid (c : Char) : c.toNat < 0x110000 := by
    rcases c.valid with hlow | hhigh
    · exact Nat.lt_trans hlow (by decide)
    · exact hhigh.2
  refine Finite.of_injective (fun c : Char => (⟨c.toNat, hvalid c⟩ : Fin 0x110000)) ?_
  intro c c' h
  exact Char.toNat_inj.mp (Fin.mk.inj h)

private theorem readable_finite (tree : FileTree File) :
    {path | (tree.answer (.read path)).toOption.isSome = true}.Finite := by
  refine (List.finite_length_le Char tree.longestPath).subset fun path hpath => ?_
  refine (length_le_byteLength path).trans ?_
  by_contra hlong
  have hnone : tree.find path = none := if_neg hlong
  have hread : tree.answer (.read path) = .error (tree.notFound path) := by
    show (match tree.find path with | some file => tree.text file | none => _) = _
    rw [hnone]
  rw [Set.mem_ofPred_eq, hread] at hpath
  cases hpath

theorem canonicalize_ok {path q : Path} (h : (canonicalize path).answered tree.answer = .ok q) :
    ∃ file, q = tree.canonicalPath file := by
  change (match tree.find path with
    | some file => if byteLength (tree.canonicalPath file) ≤ tree.longestPath then
        Except.ok (tree.canonicalPath file) else .error "File name too long (os error 36)"
    | none => .error (tree.notFound path)) = _ at h
  split at h
  · next file _ =>
    split_ifs at h
    exact ⟨file, (Except.ok.inj h).symm⟩
  · cases h

theorem forEntry_settles (extendsOf : Path → Text → List Text) (entry : Path) :
    ∃ least made, ∀ fuel, least ≤ fuel →
      (ModuleResolver.forEntry extendsOf fuel entry).answered tree.answer = some made := by
  unfold ModuleResolver.forEntry
  cases hparent : parent entry with
  | none => exact ⟨0, _, fun _ _ => rfl⟩
  | some directory =>
    dsimp only
    simp only [Asking.answered_bind]
    generalize (findTsconfig (ancestors directory)).answered tree.answer = tsconfig
    cases (projectRoot directory tsconfig).answered tree.answer with
    | error error => exact ⟨0, _, fun _ _ => rfl⟩
    | ok root =>
      cases tsconfig with
      | none => exact ⟨0, _, fun _ _ => rfl⟩
      | some path =>
        obtain ⟨least, files, hfiles⟩ := tsconfigChain_settles tree.answer extendsOf
          tree.readable_finite path
        refine ⟨least, .ok ⟨false, some path, root, files⟩, fun fuel hfuel => ?_⟩
        dsimp only
        rw [Asking.answered_bind, hfiles fuel hfuel]
        rfl

theorem answered_of (tree : FileTree File) (c : DiscoveryContext) (entry : Path) (structureFiles : WatchedFiles)
    (known : Path → Option KnownModule) (u : Bool) : ∃ b : Beginning,
      (Beginning.of c entry structureFiles known u).answered tree.answer = some (.ok b) ∧
        b.entry = entry := by
  unfold Beginning.of
  rw [Asking.answered_bind]
  exact ⟨_, rfl, rfl⟩

section
variable {parser : Parser}

theorem answered_anew (fuel : Nat) (entry : Path) (externalModules : List Text)
    (known : Path → Option KnownModule) :
    (Beginning.anew parser fuel entry externalModules known).answered tree.answer =
      match (ModuleResolver.forEntry parser.extendsOf fuel entry).answered tree.answer with
      | none => none
      | some (.error error) => some (.error error)
      | some (.ok resolver) => (Beginning.of ⟨parser, resolver, externalModules⟩ entry .empty known
          false).answered tree.answer := by
  unfold Beginning.anew
  rw [Asking.answered_bind]
  rcases (ModuleResolver.forEntry parser.extendsOf fuel entry).answered tree.answer with
    _ | _ | _ <;> rfl

theorem anew_settles (externalModules : List Text) {least : Nat} {made : Except VmError ModuleResolver}
    (h : ∀ fuel, least ≤ fuel →
      (ModuleResolver.forEntry parser.extendsOf fuel entry).answered tree.answer = some made)
    (known : Path → Option KnownModule) :
    ∃ begun, (∀ b, begun = .ok b → b.entry = entry) ∧ ∀ fuel, least ≤ fuel →
      (Beginning.anew parser fuel entry externalModules known).answered tree.answer =
        some begun := by
  cases made with
  | error error =>
    refine ⟨.error error, by rintro _ ⟨⟩, fun fuel hfuel => ?_⟩
    rw [answered_anew, h fuel hfuel]
  | ok resolver =>
    obtain ⟨b, hb, hentry⟩ := answered_of tree ⟨parser, resolver, externalModules⟩ entry
      .empty known false
    refine ⟨.ok b, ?_, fun fuel hfuel => ?_⟩
    · rintro _ ⟨⟩
      exact hentry
    · rw [answered_anew, h fuel hfuel]
      exact hb

theorem normalize_ok {entry : Path}
    (h : (normalizeEntryPath entryPath).answered tree.answer = .ok entry) :
    ∃ file, entry = tree.canonicalPath file := by
  unfold normalizeEntryPath at h
  rw [Asking.answered_bind] at h
  split_ifs at h
  · rw [Asking.answered_bind] at h
    cases hcanonical : (canonicalize entryPath).answered tree.answer with
    | error error =>
      rw [hcanonical] at h
      cases h
    | ok q =>
      rw [hcanonical] at h
      obtain ⟨file, rfl⟩ := canonicalize_ok hcanonical
      exact ⟨file, (Except.ok.inj h).symm⟩
  · cases h

theorem beginDiscovery_answered (fuel : Nat) :
    (beginDiscovery parser fuel entryPath externalModules previous).answered tree.answer =
      match (normalizeEntryPath entryPath).answered tree.answer with
      | .error error => some (.error error)
      | .ok entry => match previous with
        | none => (Beginning.anew parser fuel entry externalModules fun _ => none).answered
            tree.answer
        | some state =>
          if (state.reusable externalModules).answered tree.answer then
            (Beginning.of ⟨parser, state.resolver.keep, externalModules⟩ entry state.structureFiles
              state.modules.get? true).answered tree.answer
          else (Beginning.anew parser fuel entry externalModules state.modules.get?).answered
            tree.answer := by
  unfold beginDiscovery
  rw [Asking.answered_bind]
  cases (normalizeEntryPath entryPath).answered tree.answer with
  | error error => rfl
  | ok entry =>
    cases previous with
    | none => rfl
    | some state =>
      dsimp only
      rw [Asking.answered_bind]
      split_ifs <;> rfl

end

/-- With enough fuel a discovery begins, with the canonical path of a file, or fails to. -/
theorem beginDiscovery_settles (tree : FileTree File) (parser : Parser) (entryPath : Path)
    (externalModules : List Text) (previous : Option ProjectState) :
    ∃ least begun, (∀ b, begun = .ok b → ∃ file, b.entry = tree.canonicalPath file) ∧
      ∀ fuel, least ≤ fuel → (beginDiscovery parser fuel entryPath externalModules
        previous).answered tree.answer = some begun := by
  simp only [beginDiscovery_answered]
  cases hnormalized : (normalizeEntryPath entryPath).answered tree.answer with
  | error error => exact ⟨0, .error error, by rintro _ ⟨⟩, fun _ _ => rfl⟩
  | ok entry =>
    obtain ⟨file, hfile⟩ := normalize_ok hnormalized
    have hentry {begun : Except VmError Beginning} (h : ∀ b, begun = .ok b → b.entry = entry) :
        ∀ b, begun = .ok b → ∃ file, b.entry = tree.canonicalPath file :=
      fun b hb => ⟨file, (h b hb).trans hfile⟩
    have hanew (known : Path → Option KnownModule) :
        ∃ least begun, (∀ b, begun = .ok b → ∃ file, b.entry = tree.canonicalPath file) ∧
          ∀ fuel, least ≤ fuel → (Beginning.anew parser fuel entry externalModules
            known).answered tree.answer = some begun := by
      obtain ⟨least, made, hmade⟩ := tree.forEntry_settles parser.extendsOf entry
      obtain ⟨begun, hbegun, hsettles⟩ := anew_settles externalModules hmade known
      exact ⟨least, begun, hentry hbegun, hsettles⟩
    cases previous with
    | none => exact hanew fun _ => none
    | some state =>
      dsimp only
      split_ifs
      · obtain ⟨b, hb, hbentry⟩ := answered_of tree
          ⟨parser, state.resolver.keep, externalModules⟩ entry state.structureFiles
          state.modules.get? true
        refine ⟨0, .ok b, hentry ?_, fun _ _ => hb⟩
        rintro _ ⟨⟩
        exact hbentry
      · exact hanew state.modules.get?

theorem resolveRequest_canonical {resolver : ModuleResolver} {path q : Path} {request : Text}
    {packageJson : Option Path}
    (h : (resolver.resolveRequest path request).answered tree.answer = .ok (q, packageJson)) :
    ∃ file, q = tree.canonicalPath file := by
  unfold ModuleResolver.resolveRequest at h
  split at h
  · cases h
  · rw [Asking.answered_bind] at h
    split at h
    · cases h
    · rw [Asking.answered_bind] at h
      split at h
      · cases h
      · next canonical hcanonical =>
        obtain ⟨file, hfile⟩ := canonicalize_ok hcanonical
        split_ifs at h
        · cases h
          exact ⟨file, hfile⟩
        · cases h

theorem exists_encloses [Finite File] (tree : FileTree File) {parser : Parser}
    (hb : Begins parser externalModules previous b) :
    ∃ paths, b.context.Encloses tree.answer paths b.discovery.known ∧
      ∀ file, tree.canonicalPath file ∈ paths := by
  classical
  let kept : List Path := previous.toList.flatMap fun state =>
    state.modules.values.flatMap fun m => m.dependencies
  refine ⟨(Set.finite_range tree.canonicalPath).toFinset ∪ kept.toFinset, ⟨?_, ?_⟩, ?_⟩
  · intro path request q packageJson hresolved
    obtain ⟨file, rfl⟩ := resolveRequest_canonical hresolved
    simp
  · intro path m hm q hq
    obtain ⟨state, hstate, hmodule⟩ := hb.known path m hm
    have hvalue : m ∈ state.modules.values :=
      IndexMap.mem_values.mpr ⟨path, IndexMap.get?_eq_some.mp hmodule⟩
    have hkept : q ∈ kept := by
      refine List.mem_flatMap.mpr ⟨state, Option.mem_toList.mpr hstate, ?_⟩
      exact List.mem_flatMap.mpr ⟨m, hvalue, hq⟩
    exact Finset.mem_union_right _ (List.mem_toFinset.mpr hkept)
  · intro file
    simp

private theorem walk_ends [Finite File] {parser : Parser} (hb : Begins parser externalModules previous b)
    (hentry : ∃ file, b.entry = tree.canonicalPath file) :
    ∃ least, ∀ fuel, least ≤ fuel → ((b.walk fuel).answered tree.answer).isSome := by
  obtain ⟨paths, hpaths, hcanonical⟩ := exists_encloses tree hb
  obtain ⟨file, hfile⟩ := hentry
  refine ⟨(DiscoveryContext.unvisited paths b.discovery).card + 1, fun fuel hfuel => ?_⟩
  apply DiscoveryContext.visit_ends hpaths
  · rw [hfile]
    exact hcanonical file
  · omega

theorem discoverProject_ends [Finite File] (tree : FileTree File) (parser : Parser)
    (entryPath : Path) (externalModules : List Text) (previous : Option ProjectState) :
    ∃ fuel, ((discoverProject parser fuel entryPath externalModules previous).answered
      tree.answer).isSome := by
  obtain ⟨least, begun, hentry, hbegin⟩ :=
    beginDiscovery_settles tree parser entryPath externalModules previous
  cases begun with
  | error error =>
    refine ⟨least, ?_⟩
    rw [discoverProject_answered_begin, hbegin least (Nat.le_refl _)]
    rfl
  | ok b =>
    have hb := beginDiscovery_yields.answered tree.answer b (hbegin least (Nat.le_refl _))
    obtain ⟨enough, hwalk⟩ := walk_ends hb (hentry b rfl)
    refine ⟨max least enough, ?_⟩
    rw [discoverProject_answered_begin, hbegin _ (Nat.le_max_left _ _)]
    show ((b.finish _).answered tree.answer).isSome = true
    rw [answered_finish, Option.isSome_map]
    exact hwalk _ (Nat.le_max_right _ _)

/-- Discovery computes the closure of the imports. -/
theorem discoverProject_exact [Finite File] (tree : FileTree File)
    (importsOf : Text → Path → Except VmError (List Text)) (specifiersOf : Text → List Text)
    (entryPath : Path) (externalModules : List Text) (previous : Option ProjectState)
    (hprevious : ∀ state ∈ previous, Discovered ⟨importsOf, fun _ => specifiersOf⟩ state) :
    tree.DiscoversClosure importsOf specifiersOf entryPath externalModules previous where
  ends := discoverProject_ends tree _ entryPath externalModules previous
  closure _ _ _ hproject := discovers_closure hprevious hproject
  failure _ _ _ _ _ _ hbegin hfailed := discoverProject_failed hbegin hfailed

/-- Two files of the root that import each other, one that they do not import, and a config that
extends itself through the directory `a`. -/
def mutualTree : FileTree (Fin 6) where
  root := 0
  workingDirectory := 0
  isDirectory file := file = 0 ∨ file = 5
  isRegular file := file ≠ 0 ∧ file ≠ 5
  child file name :=
    if file = 0 ∧ name = "a.ts".toList then some 1
    else if file = 0 ∧ name = "b.ts".toList then some 2
    else if file = 0 ∧ name = "c.ts".toList then some 3
    else if file = 0 ∧ name = "tsconfig.json".toList then some 4
    else if file = 0 ∧ name = "a".toList then some 5
    else none
  up _ := 0
  text file := .ok (if file = 1 then "./b".toList else if file = 4 then "./a/../tsconfig.json".toList
    else "./a".toList)
  root_directory := rfl
  up_directory _ _ := rfl
  regular := by decide
  longestPath := 40
  stampOf _ := ⟨3, some 0⟩
  canonicalPath file := if file = 0 then "/".toList else if file = 1 then "/a.ts".toList
    else if file = 2 then "/b.ts".toList else if file = 3 then "/c.ts".toList
    else if file = 4 then "/tsconfig.json".toList else "/a".toList
  resolution _ _ directory request := .ok (join directory (request.drop 2 ++ ".ts".toList), none)

def mutualRun : Option (DiscoveredProject × ProjectState) :=
  ((discoverProject ⟨fun source _ => .ok [source], fun _ json => [json]⟩ 8 "/a.ts".toList []
    none).answered mutualTree.answer).bind Except.toOption

/-- The config is followed as far as its path can be spelled. -/
theorem discoverProject_exact_mutual :
    mutualTree.DiscoversClosure (fun source _ => .ok [source]) (fun json => [json])
        "/a.ts".toList [] none ∧
      mutualRun.map (fun found => found.2.resolver.tsconfigFiles.map byteLength) =
        some [14, 21, 28, 35, 47] ∧
      mutualRun.map (fun found => found.1.modules.map fun m =>
          (m.moduleId, m.resolvedRequests)) =
        some [("/a.ts".toList, [("./b".toList, "/b.ts".toList)]),
          ("/b.ts".toList, [("./a".toList, "/a.ts".toList)])] :=
  ⟨discoverProject_exact mutualTree _ _ _ _ none (by rintro _ ⟨⟩), by decide +kernel,
    by decide +kernel⟩

end FileTree

end RustTS.Compiler
