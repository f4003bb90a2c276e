import RustTS.Compiler.Visit

/-! Discovery with the state of an earlier one against discovery without. -/
namespace RustTS.Compiler
open Runner.ModuleLoader (Text)

/-- Two results that agree: in their values up to `R`, and in their error. -/
inductive Agree {ε α β : Type} (R : α → β → Prop) : Except ε α → Except ε β → Prop
  | ok {a : α} {b : β} (h : R a b) : Agree R (.ok a) (.ok b)
  | error (e : ε) : Agree R (.error e) (.error e)

/-- Modules that differ at most in the `package.json` files their resolution read. -/
structure KnownModule.Alike (m m' : KnownModule) : Prop where
  display : m.displayPath = m'.displayPath
  source : m.source = m'.source
  requests : m.resolvedRequests = m'.resolvedRequests
  dependencies : m.dependencies = m'.dependencies

theorem KnownModule.Alike.refl (m : KnownModule) : m.Alike m := ⟨rfl, rfl, rfl, rfl⟩

theorem Agree.refl {ε α : Type} {R : α → α → Prop} (h : ∀ a, R a a) (r : Except ε α) :
    Agree R r r := by
  cases r with
  | error e => exact .error e
  | ok a => exact .ok (h a)

namespace DiscoveryContext

variable {c c' : DiscoveryContext} {f : Answers} {R : Path → Prop}

/-- The paths that the imports of `entry` reach. -/
inductive Reaches (c : DiscoveryContext) (f : Answers) (entry : Path) : Path → Prop
  | entry : Reaches c f entry entry
  | dependency {path q : Path} {source : Text} {m : KnownModule} (h : Reaches c f entry path)
      (hread : f (.read path) = .ok source)
      (hm : (c.resolveModule path (f (.stamp path)) source).answered f = .ok m)
      (hq : q ∈ m.dependencies) : Reaches c f entry q

/-- A known module with the stamp that its file has. -/
def unchanged (f : Answers) (path : Path) (known : Option KnownModule) : Option KnownModule :=
  known.filter fun known => (f (.stamp path)).isSome && known.stamp = f (.stamp path)

theorem mem_unchanged {path : Path} {known : Option KnownModule} {m : KnownModule} :
    m ∈ unchanged f path known ↔
      m ∈ known ∧ m.stamp = f (.stamp path) ∧ (f (.stamp path)).isSome = true := by
  unfold unchanged
  rw [Option.mem_def, Option.filter_eq_some_iff]
  simp only [Bool.and_eq_true, decide_eq_true_eq, Option.mem_def, and_comm (a := _ = true)]

/-- What a walk would take for a path, the known module or what its file holds, is what a fresh walk
would: the source of the file, resolved now. -/
structure Usable (c c' : DiscoveryContext) (f : Answers) (structureUnchanged : Bool) (path : Path)
    (known : Option KnownModule) : Prop where
  source : ∀ m ∈ unchanged f path known, f (.read path) = .ok m.source
  kept : structureUnchanged = true → ∀ m ∈ unchanged f path known,
    ∃ m', (c'.resolveModule path (f (.stamp path)) m.source).answered f = .ok m' ∧ m.Alike m'
  resolved : (structureUnchanged = true → unchanged f path known = none) →
    ∀ source, f (.read path) = .ok source →
      Agree KnownModule.Alike ((c.resolveModule path (f (.stamp path)) source).answered f)
        ((c'.resolveModule path (f (.stamp path)) source).answered f)

/-- An incremental and a fresh walk at the same place. -/
structure Together (c c' : DiscoveryContext) (f : Answers) (entry : Path) (d d' : Discovery) :
    Prop where
  modules : List.Forall₂ (fun e e' => e.1 = e'.1 ∧ e.2.Alike e'.2) d.modules.entries
    d'.modules.entries
  usable : ∀ path, Reaches c' f entry path → d.modules.get? path = none →
    Usable c c' f d.structureUnchanged path (d.known path)
  fresh : ∀ path, d'.known path = none

/-- Walks that end alike. -/
inductive EndTogether (c c' : DiscoveryContext) (f : Answers) (entry : Path) :
    Option Visited → Option Visited → Prop
  | running : EndTogether c c' f entry none none
  | failed {error : VmError} {d d' : Discovery} :
      EndTogether c c' f entry (some (.error error, d)) (some (.error error, d'))
  | ended {d d' : Discovery} (h : Together c c' f entry d d') :
      EndTogether c c' f entry (some (.ok (), d)) (some (.ok (), d'))

theorem moduleAt_fresh (u : Bool) (path : Path) (stamp : Option FileStamp) :
    (c.moduleAt u path stamp none).answered f = match f (.read path) with
      | .error error => .error (.io error)
      | .ok source => (c.resolveModule path stamp source).answered f := by
  unfold moduleAt
  simp only [Option.filter_none, Asking.answered_bind, readToString, Asking.answered_put]
  cases f (.read path) <;> rfl

theorem moduleAt_agrees {u u' : Bool} {path : Path} {known : Option KnownModule}
    (h : Usable c c' f u path known) :
    Agree KnownModule.Alike ((c.moduleAt u path (f (.stamp path)) known).answered f)
      ((c'.moduleAt u' path (f (.stamp path)) none).answered f) := by
  rw [moduleAt_fresh]
  cases hunchanged : unchanged f path known with
  | none =>
    unfold moduleAt
    rw [show known.filter _ = none from hunchanged]
    simp only [Asking.answered_bind, readToString, Asking.answered_put]
    split
    · next error hread =>
      rw [hread]
      exact .error _
    · next source hread =>
      rw [hread]
      exact h.resolved (fun _ => hunchanged) source hread
  | some m =>
    have hread := h.source m hunchanged
    unfold moduleAt
    rw [show known.filter _ = some m from hunchanged, hread]
    dsimp only
    split_ifs with hu
    · obtain ⟨m', hm', halike⟩ := h.kept hu m hunchanged
      rw [hm']
      exact .ok halike
    · exact h.resolved (fun hsame => absurd hsame hu) m.source hread

theorem Together.visited {entry path : Path} {d d' : Discovery} (h : Together c c' f entry d d') :
    (d.modules.get? path).isSome = (d'.modules.get? path).isSome := by
  have hkeys : d.modules.keys = d'.modules.keys := by
    have hmap := h.modules
    unfold IndexMap.keys
    generalize d.modules.entries = l at hmap
    generalize d'.modules.entries = l' at hmap
    induction hmap with
    | nil => rfl
    | cons hhead _ ih => rw [List.map_cons, List.map_cons, hhead.1, ih]
  have hiff : ∀ m : IndexMap Path KnownModule, (m.get? path).isSome = true ↔ path ∈ m.keys := by
    intro m
    rw [← not_iff_not, Bool.not_eq_true, Option.isSome_eq_false_iff, Option.isNone_iff_eq_none,
      IndexMap.get?_eq_none]
  rw [Bool.eq_iff_iff, hiff, hiff, hkeys]

theorem Together.step {entry path : Path} {d d' : Discovery} {m m' : KnownModule}
    (h : Together c c' f entry d d') (hnew : d.modules.get? path = none)
    (hnew' : d'.modules.get? path = none) (hm : m.Alike m') (s s' : WatchedFiles) :
    Together c c' f entry
      ⟨Function.update d.known path none, d.structureUnchanged, s, d.modules.insert path m⟩
      ⟨Function.update d'.known path none, d'.structureUnchanged, s', d'.modules.insert path m'⟩ where
  modules := by
    rw [IndexMap.entries_insert_of_not_mem m hnew, IndexMap.entries_insert_of_not_mem m' hnew']
    exact List.rel_append h.modules (.cons ⟨rfl, hm⟩ .nil)
  usable p hp hvisited := by
    have hpath : p ≠ path := by
      rintro rfl
      rw [IndexMap.get?_insert_self] at hvisited
      cases hvisited
    rw [IndexMap.get?_insert_of_ne _ _ hpath] at hvisited
    show Usable c c' f d.structureUnchanged p (Function.update d.known path none p)
    rw [Function.update_of_ne hpath]
    exact h.usable p hp hvisited
  fresh p := by
    by_cases hpath : p = path
    · subst hpath
      exact Function.update_self _ _ _
    · exact (Function.update_of_ne hpath _ _).trans (h.fresh p)

/-- The two walks go on alike. -/
theorem visit_together {entry : Path} {n : Nat} {path : Path} {d d' : Discovery}
    (h : Together c c' f entry d d') (hpath : Reaches c' f entry path) :
    EndTogether c c' f entry ((c.visit n path d).answered f) ((c'.visit n path d').answered f) := by
  induction n generalizing path d d' with
  | zero => exact .running
  | succ n ih =>
    have heach : ∀ (paths : List Path) (d d' : Discovery), Together c c' f entry d d' →
        (∀ q ∈ paths, Reaches c' f entry q) →
        EndTogether c c' f entry ((visitEach (c.visit n) paths d).answered f)
          ((visitEach (c'.visit n) paths d').answered f) := by
      intro paths
      induction paths with
      | nil => exact fun d d' h _ => .ended h
      | cons first paths ihp =>
        intro d d' h hpaths
        have hfirst := ih h (hpaths first List.mem_cons_self)
        have hrest : ∀ q ∈ paths, Reaches c' f entry q :=
          fun q hq => hpaths q (List.mem_cons_of_mem _ hq)
        rw [visitEach_cons, visitEach_cons]
        generalize (c.visit n first d).answered f = ended at hfirst
        generalize (c'.visit n first d').answered f = ended' at hfirst
        cases hfirst with
        | running => exact .running
        | failed => exact .failed
        | ended htogether => exact ihp _ _ htogether hrest
    have hfresh := h.fresh path
    have hvisited : (d.modules.get? path).isSome = (d'.modules.get? path).isSome := h.visited
    rcases visit_cases (Eq.refl ((c.visit (n + 1) path d).answered f)) with
      ⟨hseen, hended⟩ | ⟨hnew, s, hrest⟩
    all_goals
      rcases visit_cases (Eq.refl ((c'.visit (n + 1) path d').answered f)) with
        ⟨hseen', hended'⟩ | ⟨hnew', s', hrest'⟩
    · rw [hended, hended']
      exact .ended h
    · rw [hseen, hnew'] at hvisited
      cases hvisited
    · rw [hnew, hseen'] at hvisited
      cases hvisited
    · have hagree : Agree KnownModule.Alike
          ((c.moduleAt d.structureUnchanged path (f (.stamp path)) (d.known path)).answered f)
          ((c'.moduleAt d'.structureUnchanged path (f (.stamp path)) none).answered f) :=
        moduleAt_agrees (h.usable path hpath hnew)
      rw [hfresh] at hrest'
      rcases hrest with ⟨error, hmodule, hended⟩ | ⟨m, hmodule, hended⟩
      all_goals rcases hrest' with ⟨error', hmodule', hended'⟩ | ⟨m', hmodule', hended'⟩
      all_goals rw [hmodule, hmodule'] at hagree
      · cases hagree
        rw [hended, hended']
        exact .failed
      · cases hagree
      · cases hagree
      · cases hagree with
        | ok halike =>
          rw [← hended, ← hended', ← halike.dependencies]
          apply heach
          · exact h.step hnew hnew' halike s s'
          · intro q hq
            rw [moduleAt_fresh] at hmodule'
            split at hmodule'
            · cases hmodule'
            · next source hread =>
              exact .dependency hpath hread hmodule' (halike.dependencies ▸ hq)

end DiscoveryContext

/-- What a file holds, or the entries of a directory. -/
inductive Content
  | file (text : Except String Text)
  | directory (entries : List Text)
  deriving DecidableEq

structure Node where
  stamp : FileStamp
  content : Content
  deriving DecidableEq

/-- What each path leads to, and its canonical form. -/
structure FileSystem where
  node : Path → Option Node
  canonical : Path → Except String Path

/-- A new module resolver as a function of the file system and its options. -/
abbrev ResolverFunction := FileSystem → Option Path → Path → Text → Except String Resolution

/-- What a kept resolver answers, from what it cached of the file systems it was asked under. -/
abbrev KeptAnswers := Option Path → Path → Text → Except String Resolution

def FileSystem.stamp (fs : FileSystem) (path : Path) : Option FileStamp :=
  (fs.node path).map (·.stamp)

def FileSystem.content (fs : FileSystem) (path : Path) : Option Content :=
  (fs.node path).map (·.content)

def FileSystem.read (fs : FileSystem) (path : Path) : Except String Text :=
  match fs.content path with
  | some (.file text) => text
  | some (.directory _) => .error "Is a directory (os error 21)"
  | none => .error "No such file or directory (os error 2)"

def FileSystem.answer (resolver : ResolverFunction) (kept : KeptAnswers) (fs : FileSystem) : Answers
  | .stamp path => fs.stamp path
  | .read path => fs.read path
  | .exists path => (fs.node path).isSome
  | .isFile path => match fs.content path with
    | some (.file _) => true
    | _ => false
  | .isDir path => match fs.content path with
    | some (.directory _) => true
    | _ => false
  | .canonicalize path => fs.canonical path
  | .resolve true tsconfig directory request => kept tsconfig directory request
  | .resolve false tsconfig directory request => resolver fs tsconfig directory request

/-- Every file or directory whose contents or entries differ has another size or modification
time. -/
def Detectable (fs fs' : FileSystem) : Prop :=
  ∀ path, fs.stamp path = fs'.stamp path → fs.content path = fs'.content path

theorem Detectable.read {fs fs' : FileSystem} (h : Detectable fs fs') {path : Path}
    (hstamp : fs.stamp path = fs'.stamp path) : fs.read path = fs'.read path := by
  unfold FileSystem.read
  rw [h path hstamp]

/-- Entry module and modules of a discovery, or the error it failed with. -/
def summary : Except ProjectFailure (DiscoveredProject × ProjectState) →
    Except VmError (Path × List DiscoveredModule)
  | .error failure => .error failure.error
  | .ok (project, _) => .ok (project.entryModuleId, project.modules)

section
variable (resolver : ResolverFunction) (parser : Parser) (entryPath : Path)

/-- The states that discoveries of a project return, each with the file system it was returned
under: a first one, and others from the state before, after detectable changes, whatever its
resolver answers by then. -/
inductive Returned : FileSystem → ProjectState → Prop
  | first {fs : FileSystem} {kept : KeptAnswers} {fuel : Nat} {externalModules : List Text}
      {project : DiscoveredProject} {state : ProjectState}
      (h : (discoverProject parser fuel entryPath externalModules none).answered
        (fs.answer resolver kept) = some (.ok (project, state))) : Returned fs state
  | next {fs fs' : FileSystem} {kept : KeptAnswers} {previous : ProjectState} {fuel : Nat}
      {externalModules : List Text} {project : DiscoveredProject} {state : ProjectState}
      (hprevious : Returned fs previous) (hchange : Detectable fs fs')
      (h : (discoverProject parser fuel entryPath externalModules (some previous)).answered
        (fs'.answer resolver kept) = some (.ok (project, state))) : Returned fs' state

/-- What `discover_project` gives, with the state of an earlier discovery or without. -/
def outcome (kept : KeptAnswers) (fuel : Nat) (externalModules : List Text)
    (previous : Option ProjectState) (fs : FileSystem) :
    Option (Except VmError (Path × List DiscoveredModule)) :=
  ((discoverProject parser fuel entryPath externalModules previous).answered
    (fs.answer resolver kept)).map summary

end

end RustTS.Compiler
