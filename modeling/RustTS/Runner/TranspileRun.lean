import Mathlib.Logic.Equiv.List
import RustTS.Compiler.Reuse
import RustTS.Lib.Transition
import RustTS.Runner.AskedDiscovery

/-! What a Transpiler remembers against the compiler itself, over whole runs. -/
namespace RustTS.Runner.Transpile
open Runner.ModuleLoader (Text)
open Cache Compiler

variable {SourceType Program : Type}

namespace Toolchain

section
variable (tools : Toolchain SourceType Program)

/-- The type a source is scanned for imports as. -/
def scannedAs : Compilation → Option SourceType
  | .module _ path | .inline _ path => (tools.oxc.fromPath path).toOption

def compiledAs : Compilation → Option SourceType
  | .module _ path => (tools.oxc.fromPath path).toOption
  | .inline .. => some tools.oxc.ts

/-- Two sources of one text that have the same types, and that compile alike under their two
paths. -/
structure Indistinct (unit unit' : Compilation) : Prop where
  scanned : tools.scannedAs unit = tools.scannedAs unit'
  compiled : tools.compiledAs unit = tools.compiledAs unit'
  path (sourceType : SourceType) :
    (tools.oxc.compile unit.source sourceType unit.path).1.isEmpty = true →
      tools.oxc.compile unit'.source sourceType unit'.path =
        tools.oxc.compile unit.source sourceType unit.path

/-- What is asked under one key is indistinct. -/
def Agree : Question → Question → Prop
  | .inquiry (.imports source path), .inquiry (.imports source' path') =>
    (Compilation.module source path).key = (Compilation.module source' path').key →
      (tools.oxc.fromPath path).toOption = (tools.oxc.fromPath path').toOption
  | .transpiled unit, .transpiled unit' => unit.key = unit'.key → tools.Indistinct unit unit'
  | _, _ => True

/-- Discovery takes the source, if it is that of a module. -/
def Scanned : Compilation → Prop
  | .module source path =>
    ∃ imports, tools.oxc.extractStaticImportRequests source path = .ok imports
  | .inline .. => True

def Accepts (unit : Compilation) (m : TranspiledModule) : Prop :=
  tools.Scanned unit ∧ tools.compile unit = .ok m

end

variable {tools : Toolchain SourceType Program}

theorem accepts_iff {unit : Compilation} {m : TranspiledModule} : tools.Accepts unit m ↔
    ((tools.scannedAs unit).bind (tools.oxc.scan unit.source)).isSome = true ∧
      ∃ sourceType, tools.compiledAs unit = some sourceType ∧
        tools.oxc.execute unit.source (tools.oxc.withModule sourceType) unit.path = .ok m := by
  cases unit with
  | module source path =>
    have hscanned : tools.Scanned (.module source path) ↔
        ((tools.scannedAs (.module source path)).bind (tools.oxc.scan source)).isSome = true := by
      rw [Option.isSome_iff_exists]
      exact exists_congr fun imports => Oxc.extract_eq_ok
    exact and_congr hscanned Oxc.compileModule_eq_ok
  | inline source path =>
    have hcompile : tools.compile (.inline source path) = .ok m ↔ _ := Oxc.compileInline_eq_ok
    constructor
    · rintro ⟨-, h⟩
      obtain ⟨hscan, hexecute⟩ := hcompile.mp h
      exact ⟨hscan, tools.oxc.ts, rfl, hexecute⟩
    · rintro ⟨hscan, sourceType, htype, hexecute⟩
      cases htype
      exact ⟨trivial, hcompile.mpr ⟨hscan, hexecute⟩⟩

theorem Indistinct.accepts {unit unit' : Compilation} {m : TranspiledModule}
    (h : tools.Indistinct unit unit') (hkey : unit.key = unit'.key) (hm : tools.Accepts unit m) :
    tools.Accepts unit' m := by
  obtain ⟨hscan, sourceType, htype, hexecute⟩ := accepts_iff.mp hm
  have hsource : unit.source = unit'.source := Compilation.source_eq_of_key hkey
  obtain ⟨hnone, hprinted⟩ := Oxc.execute_eq_ok.mp hexecute
  have hsame := h.path (tools.oxc.withModule sourceType) hnone
  apply accepts_iff.mpr
  refine ⟨?_, sourceType, h.compiled ▸ htype, ?_⟩
  · rw [← h.scanned, ← hsource]
    exact hscan
  · apply Oxc.execute_eq_ok.mpr
    rw [hsame]
    exact ⟨hnone, hprinted⟩

end Toolchain

section
variable (tools : Toolchain SourceType Program) (shown : List Question)

/-- A module under a key is what one of the sources shown so far compiles to. -/
def Remembers (key : ModuleKey) (m : TranspiledModule) : Prop :=
  ∃ unit, .transpiled unit ∈ shown ∧ unit.key = key ∧ tools.Accepts unit m

/-- What another program does to the cache directory: it stores what it compiled, as this one
does, or leaves something that does not verify. -/
def Fair : DirectoryChange → Prop
  | .remembered unit => .transpiled unit ∈ shown ∧ tools.Scanned unit
  | .replaced _ artifact => artifact.bind tools.format.load = none

structure MemoSound (memo : ModuleKey → ModuleMemo) : Prop where
  imports (key : ModuleKey) (imports : List Text) : (memo key).imports = some imports →
    ∃ source path, .inquiry (.imports source path) ∈ shown ∧
      (Compilation.module source path).key = key ∧
      tools.oxc.extractStaticImportRequests source path = .ok imports
  transpiled (key : ModuleKey) (m : TranspiledModule) : (memo key).transpiled = some m →
    Remembers tools shown key m

def CacheSound (cache : Option Directory) : Prop :=
  ∀ key m, (cache.bind (· key)).bind tools.format.load = some m → Remembers tools shown key m

structure Sound (s : Session) : Prop where
  memo : MemoSound tools shown s.memo
  cache : CacheSound tools shown s.cache
  turns (turn : Turn) : turn ∈ s.turns → ∀ change ∈ turn.others, Fair tools shown change

end

section
variable {tools : Toolchain SourceType Program} {shown shown' : List Question} {s : Session}
  {files : Answers}

theorem CacheSound.update {directory : Directory} (h : CacheSound tools shown (some directory))
    {key : ModuleKey} {artifact : Option Text}
    (hartifact : ∀ m, artifact.bind tools.format.load = some m → Remembers tools shown key m) :
    CacheSound tools shown (some (Function.update directory key artifact)) := by
  intro k m hm
  by_cases hk : k = key
  · subst hk
    rw [Option.bind_some, Function.update_self] at hm
    exact hartifact m hm
  · rw [Option.bind_some, Function.update_of_ne hk] at hm
    exact h k m hm

theorem CacheSound.store (hformat : tools.format.Lossless) {cache : Option Directory}
    (h : CacheSound tools shown cache) {key : ModuleKey} {m : TranspiledModule}
    (hm : Remembers tools shown key m) :
    CacheSound tools shown (cache.map (tools.store key m)) := by
  cases cache with
  | none => exact h
  | some directory =>
    apply h.update
    intro m' hm'
    rw [Option.bind_some, hformat.load_artifact] at hm'
    cases hm'
    exact hm

theorem CacheSound.change (hformat : tools.format.Lossless) {directory : Directory}
    (h : CacheSound tools shown (some directory)) {change : DirectoryChange}
    (hfair : Fair tools shown change) :
    CacheSound tools shown (some (tools.change directory change)) := by
  cases change with
  | remembered unit =>
    unfold Toolchain.change
    dsimp only
    split
    · next m hm => exact h.store hformat ⟨unit, hfair.1, rfl, hfair.2, hm⟩
    · exact h
  | replaced key artifact =>
    apply h.update
    intro m hm
    rw [show artifact.bind tools.format.load = none from hfair] at hm
    cases hm

theorem CacheSound.changes (hformat : tools.format.Lossless) {cache : Option Directory}
    (h : CacheSound tools shown cache) {changes : List DirectoryChange}
    (hfair : ∀ change ∈ changes, Fair tools shown change) :
    CacheSound tools shown (cache.map (changes.foldl tools.change)) := by
  cases cache with
  | none => exact h
  | some directory =>
    show CacheSound tools shown (some (changes.foldl tools.change directory))
    induction changes generalizing directory with
    | nil => exact h
    | cons change changes ih =>
      apply ih
      · intro c hc
        exact hfair c (List.mem_cons_of_mem change hc)
      · exact h.change hformat (hfair change List.mem_cons_self)

theorem MemoSound.setTranspiled {memo : ModuleKey → ModuleMemo} (h : MemoSound tools shown memo)
    {key : ModuleKey} {m : TranspiledModule} (hm : Remembers tools shown key m) :
    MemoSound tools shown (Function.update memo key { memo key with transpiled := some m }) where
  imports k imports hk := by
    by_cases hkey : k = key
    · subst hkey
      rw [Function.update_self] at hk
      exact h.imports k imports hk
    · rw [Function.update_of_ne hkey] at hk
      exact h.imports k imports hk
  transpiled k m' hk := by
    by_cases hkey : k = key
    · subst hkey
      rw [Function.update_self] at hk
      cases hk
      exact hm
    · rw [Function.update_of_ne hkey] at hk
      exact h.transpiled k m' hk

theorem MemoSound.setImports {memo : ModuleKey → ModuleMemo} (h : MemoSound tools shown memo)
    {source : Text} {path : Path} {imports : List Text}
    (hshown : .inquiry (.imports source path) ∈ shown)
    (himports : tools.oxc.extractStaticImportRequests source path = .ok imports) :
    let key := moduleCacheKey source (sourceType path)
    MemoSound tools shown (Function.update memo key { memo key with imports := some imports }) where
  imports k imports' hk := by
    by_cases hkey : k = moduleCacheKey source (sourceType path)
    · subst hkey
      rw [Function.update_self] at hk
      cases hk
      exact ⟨source, path, hshown, rfl, himports⟩
    · rw [Function.update_of_ne hkey] at hk
      exact h.imports k imports' hk
  transpiled k m hk := by
    by_cases hkey : k = moduleCacheKey source (sourceType path)
    · subst hkey
      rw [Function.update_self] at hk
      exact h.transpiled _ m hk
    · rw [Function.update_of_ne hkey] at hk
      exact h.transpiled k m hk

theorem Sound.turn (hformat : tools.format.Lossless) (h : Sound tools shown s) :
    Sound tools shown (s.turn tools).2 := by
  unfold Session.turn
  split
  · exact h
  · next turn turns hturns =>
    have hmem : turn ∈ s.turns := hturns ▸ List.mem_cons_self
    refine ⟨h.memo, h.cache.changes hformat (h.turns turn hmem), ?_⟩
    intro t ht
    exact h.turns t (hturns ▸ List.mem_cons_of_mem turn ht)

/-- What is remembered under a key was compiled under it, and stays remembered. -/
theorem Sound.remembered (h : Sound tools shown s) (key : ModuleKey) :
    Sound tools shown (s.remembered tools key).2 ∧
      ∀ m, (s.remembered tools key).1 = some m → Remembers tools shown key m := by
  unfold Session.remembered
  split
  · next m hm =>
    refine ⟨h, ?_⟩
    intro m' hm'
    cases hm'
    exact h.memo.transpiled key m hm
  · split
    · next m hm =>
      have hremembers := h.cache key m hm
      refine ⟨⟨h.memo.setTranspiled hremembers, h.cache, h.turns⟩, ?_⟩
      intro m' hm'
      cases hm'
      exact hremembers
    · exact ⟨h, nofun⟩

theorem Sound.remember (hformat : tools.format.Lossless) (h : Sound tools shown s) {key : ModuleKey}
    {m : TranspiledModule} (hm : Remembers tools shown key m) (written : Bool) :
    Sound tools shown (s.remember tools key m written) := by
  refine ⟨h.memo.setTranspiled hm, ?_, h.turns⟩
  show CacheSound tools shown (if written then s.cache.map (tools.store key m) else s.cache)
  split
  · exact h.cache.store hformat hm
  · exact h.cache

variable (hformat : tools.format.Lossless)
  (hagree : ∀ q ∈ shown, ∀ q' ∈ shown, tools.Agree q q')
include hagree

theorem Sound.imports (h : Sound tools shown s) {source : Text} {path : Path}
    (hshown : .inquiry (.imports source path) ∈ shown) :
    (s.imports tools source path).1 = tools.oxc.extractStaticImportRequests source path ∧
      Sound tools shown (s.imports tools source path).2 := by
  unfold Session.imports
  dsimp only
  split
  · next imports himports =>
    obtain ⟨source', path', hshown', hkey, hextract⟩ := h.memo.imports _ imports himports
    have htype := hagree _ hshown' _ hshown hkey
    have hsource : source' = source :=
      @Compilation.source_eq_of_key (.module source' path') (.module source path) hkey
    subst hsource
    rw [Oxc.extract_eq_ok, htype] at hextract
    exact ⟨(Oxc.extract_eq_ok.mpr hextract).symm, h⟩
  · split
    · next error herror => exact ⟨herror.symm, h⟩
    · next imports himports =>
      exact ⟨himports.symm, h.memo.setImports hshown himports, h.cache, h.turns⟩

include hformat

theorem Sound.transpiled (h : Sound tools shown s) {unit : Compilation}
    (hshown : .transpiled unit ∈ shown) (hscanned : tools.Scanned unit) :
    (s.transpiled tools unit).1 = tools.compile unit ∧
      Sound tools shown (s.transpiled tools unit).2 := by
  have hturn := h.turn hformat
  obtain ⟨hsound, hremembers⟩ := hturn.remembered unit.key
  unfold Session.transpiled
  dsimp only
  split
  · next m s' hm =>
    rw [hm] at hsound hremembers
    obtain ⟨unit', hshown', hkey, haccepts⟩ := hremembers m rfl
    have hindistinct := hagree _ hshown' _ hshown hkey
    exact ⟨(hindistinct.accepts hkey haccepts).2.symm, hsound⟩
  · next s' hm =>
    rw [hm] at hsound
    split
    · next error herror => exact ⟨herror.symm, hsound⟩
    · next m hm' =>
      refine ⟨hm'.symm, ?_⟩
      exact hsound.remember hformat ⟨unit, hshown, rfl, hscanned, hm'⟩ _

variable (files)

/-- A program whose questions were shown to the compiler hears what the compiler would say. -/
theorem Sound.run {X : Type} (p : Transpiling X) (h : Sound tools shown s)
    (hshown : ∀ q ∈ p.asks (tools.fresh files), q ∈ shown)
    (hscanned : ∀ unit, .transpiled unit ∈ p.asks (tools.fresh files) → tools.Scanned unit) :
    (p.run (Session.answer tools files) s).1 = p.answered (tools.fresh files) ∧
      Sound tools shown (p.run (Session.answer tools files) s).2 := by
  induction p generalizing s with
  | done x => exact ⟨rfl, h⟩
  | ask q k ih =>
    have hq : q ∈ shown := hshown q List.mem_cons_self
    have hanswer : (Session.answer tools files q s).1 = tools.fresh files q ∧
        Sound tools shown (Session.answer tools files q s).2 := by
      match q with
      | .inquiry (.file q) => exact ⟨rfl, h⟩
      | .inquiry (.imports source path) => exact h.imports hagree hq
      | .transpiled unit => exact h.transpiled hformat hagree hq (hscanned unit List.mem_cons_self)
    rw [Asking.run_ask, hanswer.1]
    apply ih _ hanswer.2
    · intro q' hq'
      exact hshown q' (List.mem_cons_of_mem q hq')
    · intro unit hunit
      exact hscanned unit (List.mem_cons_of_mem q hunit)

end

section
variable (tools : Toolchain SourceType Program) (resolver : ResolverFunction)

/-- The modules of a discovery, transpiled one after another. -/
def compiledGraph (files : Answers) : Except VmError (Path × List DiscoveredModule) →
    Except VmError (Path × List CompiledModule × List ModuleKey)
  | .error error => .error error
  | .ok (entryPath, modules) =>
    ((transpileModules modules).answered (tools.fresh files)).map fun compiled =>
      (entryPath, compiled.map (·.1), compiled.map (·.2))

/-- A Transpiler with what was shown to the compiler so far, by it or by the others that use its
cache directory, and the file systems it found. -/
structure World where
  transpiler : Transpiler
  shown : List Question
  files : List FileSystem

/-- What a call asks where the compiler itself answers. -/
def Step.asks (step : Step) (t : Transpiler) : List Question :=
  let answer := tools.fresh (step.files.answer resolver step.kept)
  match step.call with
  | .inline id source => (inlineScript id source).asks answer
  | .project entryPath externalModules =>
    (projectGraph tools.parser step.fuel entryPath externalModules
      (t.projects entryPath)).asks answer
  | .retainUsed .. => []

def DirectoryChange.shows : DirectoryChange → List Question
  | .remembered unit => [.transpiled unit]
  | .replaced .. => []

def Step.shows (step : Step) (t : Transpiler) : List Question :=
  step.asks tools resolver t ++ step.turns.flatMap fun turn => turn.others.flatMap (·.shows)

/-- A change by a program that discovers modules before it compiles them, or one that leaves
nothing that verifies. -/
def Verified : DirectoryChange → Prop
  | .remembered unit => tools.Scanned unit
  | .replaced _ artifact => artifact.bind tools.format.load = none

/-- What has one text and one last extension is indistinct; and the discovery state of a project
is not out of date. -/
structure Undisturbed (w : World) (step : Step) : Prop where
  agree : ∀ q ∈ w.shown ++ step.shows tools resolver w.transpiler,
    ∀ q' ∈ w.shown ++ step.shows tools resolver w.transpiler, tools.Agree q q'
  verified : ∀ turn ∈ step.turns, ∀ change ∈ turn.others, Verified tools change
  detectable : ∀ fs ∈ w.files, Detectable fs step.files
  current : ∀ entryPath externalModules state, step.call = .project entryPath externalModules →
    w.transpiler.projects entryPath = some state →
      Unaffected resolver tools.parser entryPath step.kept step.fuel externalModules state step.files

def World.next (step : Step) (w : World) : World × Answer :=
  let performed := w.transpiler.perform tools resolver step
  (⟨performed.1, w.shown ++ step.shows tools resolver w.transpiler, step.files :: w.files⟩,
    performed.2)

/-- What a Transpiler remembers is what the compiler said, and the project states it keeps are
those that discoveries returned. -/
structure World.Sound (w : World) : Prop where
  memo : MemoSound tools w.shown w.transpiler.memo
  cache : CacheSound tools w.shown w.transpiler.cache
  projects : ∀ entryPath state, w.transpiler.projects entryPath = some state →
    ∃ fs ∈ w.files, Compiler.Returned resolver tools.parser entryPath fs state

end

section
variable {tools : Toolchain SourceType Program} {resolver : ResolverFunction}
  {kept : KeptAnswers} {files : Answers}

theorem asks_transpileModules {modules : List DiscoveredModule} {q : Question}
    (h : q ∈ (transpileModules modules).asks (tools.fresh files)) :
    ∃ m ∈ modules, q = .transpiled (.module m.source m.displayPath) := by
  induction modules with
  | nil => cases h
  | cons m modules ih =>
    unfold transpileModules at h
    rw [Asking.asks_bind] at h
    rcases List.mem_append.mp h with hfirst | hrest
    · exact ⟨m, List.mem_cons_self, List.mem_singleton.mp hfirst⟩
    · have hmem : q ∈ (transpileModules modules).asks (tools.fresh files) := by
        split at hrest
        · cases hrest
        · rw [Asking.asks_bind] at hrest
          simpa [Asking.asks, pure] using hrest
      obtain ⟨m', hm', hq⟩ := ih hmem
      exact ⟨m', List.mem_cons_of_mem m hm', hq⟩

theorem fresh_inquiry (files : Answers) :
    (fun q => tools.fresh files (.inquiry q)) = tools.inquire files := rfl

theorem projectGraph_code (fs : FileSystem) (fuel : Nat) (entryPath : Path)
    (externalModules : List Text) (previous : Option ProjectState) :
    ((projectGraph tools.parser fuel entryPath externalModules previous).answered
        (tools.fresh (fs.answer resolver kept))).map (fun result => projectCode result.2) =
      (outcome resolver tools.parser entryPath kept fuel externalModules previous fs).map
        (compiledGraph tools (fs.answer resolver kept)) := by
  unfold projectGraph outcome
  rw [Asking.answered_bind, discovering, Asking.answered_lift, ← discoverProjectAsking_answered]
  rw [fresh_inquiry]
  rcases (discoverProjectAsking tools.parser fuel entryPath externalModules previous).answered
    (tools.inquire (fs.answer resolver kept)) with _ | failure | ⟨project, state⟩
  · rfl
  · rfl
  · dsimp only
    rw [Asking.answered_bind]
    show _ = some (Except.map _ _)
    cases (transpileModules project.modules).answered (tools.fresh (fs.answer resolver kept)) with
    | error error => rfl
    | ok compiled => rfl

theorem projectGraph_state (fuel : Nat) (entryPath : Path) (externalModules : List Text)
    (previous : Option ProjectState)
    {result : Option ProjectState × Except Compiler.ProjectFailure TranspiledProject}
    {state : ProjectState}
    (h : (projectGraph tools.parser fuel entryPath externalModules previous).answered
      (tools.fresh files) = some result) (hstate : result.1 = some state) : ∃ project,
    (discoverProject tools.parser fuel entryPath externalModules previous).answered files =
      some (.ok (project, state)) := by
  unfold projectGraph at h
  rw [Asking.answered_bind, discovering, Asking.answered_lift] at h
  rw [← discoverProjectAsking_answered]
  rw [fresh_inquiry] at h
  generalize (discoverProjectAsking tools.parser fuel entryPath externalModules previous).answered
    (tools.inquire files) = discovered at h ⊢
  rcases discovered with _ | failure | ⟨project, state'⟩
  · cases h
  · cases h
    cases hstate
  · dsimp only at h
    rw [Asking.answered_bind] at h
    refine ⟨project, ?_⟩
    split at h
    all_goals
      cases h
      cases hstate
      rfl

private theorem resolveModule_imports {c : DiscoveryContext} {path : Path} {stamp : Option FileStamp}
    {source : Text} {m : KnownModule}
    (h : (c.resolveModule path stamp source).answered files = .ok m) :
    ∃ imports, c.parser.importsOf m.source m.displayPath = .ok imports := by
  obtain ⟨-, hsource, hmade⟩ := DiscoveryContext.resolveModule_made h
  rw [hsource, hmade.display]
  unfold DiscoveryContext.resolveModule at h
  dsimp only at h
  split at h
  · cases h
  · next imports himports => exact ⟨imports, himports⟩

theorem outcome_scanned {parser : Parser} {fs : FileSystem} {fuel : Nat} {entryPath : Path}
    {externalModules : List Text} {entry : Path} {modules : List DiscoveredModule}
    (h : outcome resolver parser entryPath kept fuel externalModules none fs =
      some (.ok (entry, modules))) :
    ∀ m ∈ modules, ∃ imports, parser.importsOf m.source m.displayPath = .ok imports := by
  unfold outcome at h
  rw [discoverProject_answered] at h
  split at h
  · cases h
  · next canonical _ =>
    dsimp only at h
    rw [discoverAnew_answered] at h
    split at h
    · cases h
    · cases h
    · next r _ =>
      obtain ⟨watched, hw⟩ := outcome_eq _ (Eq.refl ((DiscoveryContext.discover
        ⟨parser, r, externalModules⟩ fuel canonical .empty (fun _ => none) false).answered
          (fs.answer resolver kept)))
      rw [hw] at h
      obtain ⟨⟨ended, d⟩, hvisit, hd⟩ := Option.map_eq_some_iff.mp h
      cases ended with
      | error error => cases hd
      | ok _ =>
        cases hd
        intro m hm
        obtain ⟨⟨path, known⟩, hknown, rfl⟩ := List.mem_map.mp hm
        obtain ⟨source, -, hresolved⟩ := visit_resolved hvisit rfl (IndexMap.get?_eq_some.mpr hknown)
        exact resolveModule_imports hresolved

/-- A project load only compiles what its discovery scanned. -/
theorem projectGraph_scanned {fs : FileSystem} {fuel : Nat} {entryPath : Path}
    {externalModules : List Text} {previous : Option ProjectState}
    (hcurrent : outcome resolver tools.parser entryPath kept fuel externalModules previous fs =
      outcome resolver tools.parser entryPath kept fuel externalModules none fs) (unit : Compilation)
    (h : .transpiled unit ∈ (projectGraph tools.parser fuel entryPath externalModules
      previous).asks (tools.fresh (fs.answer resolver kept))) : tools.Scanned unit := by
  unfold projectGraph at h
  rw [Asking.asks_bind, discovering, Asking.asks_lift, Asking.answered_lift] at h
  rcases List.mem_append.mp h with hdiscovery | hmodules
  · obtain ⟨q, -, hq⟩ := List.mem_map.mp hdiscovery
    cases hq
  · rw [fresh_inquiry] at hmodules
    unfold outcome at hcurrent
    rw [discoverProjectAsking_answered] at hmodules
    cases hproject : (discoverProject tools.parser fuel entryPath externalModules previous).answered
      (fs.answer resolver kept) with
    | none =>
      rw [hproject] at hmodules
      cases hmodules
    | some result =>
      rw [hproject] at hmodules hcurrent
      cases result with
      | error failure => cases hmodules
      | ok found =>
        obtain ⟨project, state⟩ := found
        have hscanned := outcome_scanned (Eq.symm hcurrent)
        dsimp only at hmodules
        rw [Asking.asks_bind] at hmodules
        rcases List.mem_append.mp hmodules with hmodule | hrest
        · obtain ⟨m, hm, hunit⟩ := asks_transpileModules hmodule
          cases hunit
          exact hscanned m hm
        · split at hrest <;> cases hrest

theorem MemoSound.mono {shown shown' : List Question} {memo : ModuleKey → ModuleMemo}
    (h : MemoSound tools shown memo) (hsub : shown ⊆ shown') : MemoSound tools shown' memo where
  imports key imports hkey := by
    obtain ⟨source, path, hshown, hrest⟩ := h.imports key imports hkey
    exact ⟨source, path, hsub hshown, hrest⟩
  transpiled key m hkey := by
    obtain ⟨unit, hshown, hrest⟩ := h.transpiled key m hkey
    exact ⟨unit, hsub hshown, hrest⟩

theorem CacheSound.mono {shown shown' : List Question} {cache : Option Directory}
    (h : CacheSound tools shown cache) (hsub : shown ⊆ shown') : CacheSound tools shown' cache := by
  intro key m hm
  obtain ⟨unit, hshown, hrest⟩ := h key m hm
  exact ⟨unit, hsub hshown, hrest⟩

/-- The session of a call starts sound, with what the call shows. -/
theorem World.Sound.session {w : World} (h : w.Sound tools resolver) {step : Step}
    (hok : Undisturbed tools resolver w step) :
    Transpile.Sound tools (w.shown ++ step.shows tools resolver w.transpiler)
      (w.transpiler.session step.turns) where
  memo := h.memo.mono (List.subset_append_left _ _)
  cache := h.cache.mono (List.subset_append_left _ _)
  turns turn hturn change hchange := by
    have hverified := hok.verified turn hturn change hchange
    cases change with
    | replaced key artifact => exact hverified
    | remembered unit =>
      refine ⟨List.mem_append_right _ (List.mem_append_right _ ?_), hverified⟩
      apply List.mem_flatMap.mpr
      exact ⟨turn, hturn, List.mem_flatMap.mpr ⟨_, hchange, List.mem_cons_self⟩⟩

theorem MemoSound.retain {shown : List Question} {memo : ModuleKey → ModuleMemo}
    (h : MemoSound tools shown memo) (modules : List ModuleKey) :
    MemoSound tools shown fun key => if key ∈ modules then memo key else ⟨none, none⟩ where
  imports key imports hkey := by
    split_ifs at hkey
    exact h.imports key imports hkey
  transpiled key m hkey := by
    split_ifs at hkey
    exact h.transpiled key m hkey

theorem World.Sound.outcome_eq {w : World} (h : w.Sound tools resolver) {step : Step}
    (hok : Undisturbed tools resolver w step) {entryPath : Path} {externalModules : List Text}
    (hcall : step.call = .project entryPath externalModules) :
    outcome resolver tools.parser entryPath step.kept step.fuel externalModules
        (w.transpiler.projects entryPath) step.files =
      outcome resolver tools.parser entryPath step.kept step.fuel externalModules none step.files := by
  cases hprevious : w.transpiler.projects entryPath with
  | none => rfl
  | some state =>
    obtain ⟨fs, hfs, hreturned⟩ := h.projects entryPath state hprevious
    exact incremental_outcome hreturned (hok.detectable fs hfs)
      (hok.current entryPath externalModules state hcall hprevious)

/-- The state that an undisturbed discovery returns is one that a discovery returned. -/
theorem World.Sound.returned {w : World} (h : w.Sound tools resolver) {step : Step}
    (hok : Undisturbed tools resolver w step) {entryPath : Path} {externalModules : List Text}
    {project : DiscoveredProject} {state : ProjectState}
    (hproject : (discoverProject tools.parser step.fuel entryPath externalModules
      (w.transpiler.projects entryPath)).answered (step.files.answer resolver step.kept) =
        some (.ok (project, state))) :
    Compiler.Returned resolver tools.parser entryPath step.files state := by
  cases hprevious : w.transpiler.projects entryPath with
  | none =>
    rw [hprevious] at hproject
    exact .first hproject
  | some previous =>
    rw [hprevious] at hproject
    obtain ⟨fs, hfs, hreturned⟩ := h.projects entryPath previous hprevious
    exact .next hreturned (hok.detectable fs hfs) hproject

theorem World.Sound.keeps {w : World} (h : w.Sound tools resolver) {path : Path}
    {state : ProjectState} (hstate : w.transpiler.projects path = some state) (files : FileSystem) :
    ∃ fs ∈ files :: w.files, Compiler.Returned resolver tools.parser path fs state := by
  obtain ⟨fs, hfs, hreturned⟩ := h.projects path state hstate
  exact ⟨fs, List.mem_cons_of_mem _ hfs, hreturned⟩

/-- An undisturbed project load. -/
theorem World.Sound.next_project (hformat : tools.format.Lossless) {w : World}
    (h : w.Sound tools resolver) {step : Step} (hok : Undisturbed tools resolver w step)
    {entryPath : Path} {externalModules : List Text}
    (hcall : step.call = .project entryPath externalModules) :
    (w.next tools resolver step).1.Sound tools resolver ∧
      (w.next tools resolver step).2.code = (Transpiler.anew tools resolver step).code := by
  have hsession := h.session hok
  have hagree := hok.agree
  have houtcome := h.outcome_eq hok hcall
  have hreturned : ∀ project state, (discoverProject tools.parser step.fuel entryPath
      externalModules (w.transpiler.projects entryPath)).answered (step.files.answer resolver step.kept) =
        some (.ok (project, state)) →
          Compiler.Returned resolver tools.parser entryPath step.files state :=
    fun _ _ hproject => h.returned hok hproject
  obtain ⟨call, fs, kept, fuel, turns⟩ := step
  cases hcall
  unfold World.next Transpiler.perform Transpiler.anew
  unfold Step.shows Step.asks at hsession hagree ⊢
  dsimp only at hsession hagree houtcome hreturned ⊢
  obtain ⟨hresult, hsound⟩ := hsession.run (fs.answer resolver kept) hformat hagree
    (projectGraph tools.parser fuel entryPath externalModules (w.transpiler.projects entryPath))
    (fun q hq => List.mem_append_right _ (List.mem_append_left _ hq))
    (projectGraph_scanned houtcome)
  refine ⟨⟨hsound.memo, hsound.cache, ?_⟩, ?_⟩
  · intro path state hstate
    by_cases hpath : path = entryPath
    · subst hpath
      rw [hresult] at hstate
      change Function.update w.transpiler.projects path _ path = some state at hstate
      rw [Function.update_self] at hstate
      obtain ⟨result, hgraph, hleft⟩ := Option.bind_eq_some_iff.mp hstate
      obtain ⟨project, hproject⟩ := projectGraph_state fuel path externalModules _ hgraph hleft
      exact ⟨fs, List.mem_cons_self, hreturned project state hproject⟩
    · change Function.update w.transpiler.projects entryPath _ path = some state at hstate
      rw [Function.update_of_ne hpath] at hstate
      exact h.keeps hstate fs
  · rw [hresult]
    show Code.project (Option.map projectCode (Option.map _ _)) =
      Code.project (Option.map projectCode (Option.map _ _))
    rw [Option.map_map, Option.map_map]
    have hcode : ∀ previous, ((projectGraph tools.parser fuel entryPath externalModules
        previous).answered (tools.fresh (fs.answer resolver kept))).map
          (fun result => projectCode result.2) = _ :=
      projectGraph_code fs fuel entryPath externalModules
    exact congrArg Code.project (((hcode _).trans (congrArg _ houtcome)).trans (hcode none).symm)

theorem World.Sound.next_inline (hformat : tools.format.Lossless) {w : World}
    (h : w.Sound tools resolver) {step : Step} (hok : Undisturbed tools resolver w step)
    {id source : Text} (hcall : step.call = .inline id source) :
    (w.next tools resolver step).1.Sound tools resolver ∧
      (w.next tools resolver step).2.code = (Transpiler.anew tools resolver step).code := by
  have hsession := h.session hok
  have hagree := hok.agree
  obtain ⟨call, fs, kept, fuel, turns⟩ := step
  cases hcall
  unfold World.next Transpiler.perform Transpiler.anew
  unfold Step.shows Step.asks at hsession hagree ⊢
  dsimp only at hsession hagree ⊢
  obtain ⟨hresult, hsound⟩ := hsession.run (fs.answer resolver kept) hformat hagree
    (inlineScript id source) (fun q hq => List.mem_append_right _ (List.mem_append_left _ hq)) (by
      intro unit hunit
      cases List.mem_singleton.mp hunit
      trivial)
  refine ⟨⟨hsound.memo, hsound.cache, fun _ _ hstate => h.keeps hstate fs⟩, ?_⟩
  rw [hresult]

/-- An undisturbed call answers as if nothing was remembered, and what it remembers is sound. -/
theorem World.Sound.next (hformat : tools.format.Lossless) {w : World} (h : w.Sound tools resolver)
    {step : Step} (hok : Undisturbed tools resolver w step) :
    (w.next tools resolver step).1.Sound tools resolver ∧
      (w.next tools resolver step).2.code = (Transpiler.anew tools resolver step).code := by
  cases hcall : step.call with
  | inline id source => exact h.next_inline hformat hok hcall
  | project entryPath externalModules => exact h.next_project hformat hok hcall
  | retainUsed modules projects =>
    have hsession := h.session hok
    obtain ⟨call, fs, kept, fuel, turns⟩ := step
    cases hcall
    refine ⟨⟨hsession.memo.retain modules, hsession.cache, ?_⟩, rfl⟩
    intro path state hstate
    change (if path ∈ projects then w.transpiler.projects path else none) = some state at hstate
    split_ifs at hstate
    exact h.keeps hstate fs

/-- Memo and disk cache are transparent in every run whose calls are undisturbed. -/
theorem transparent (hformat : tools.format.Lossless) (cacheDir : Bool)
    {calls : List (Step × Answer)} {w : World}
    (hrun : Transition.Run (Transition.Guarded (fun w call => Undisturbed tools resolver w call.1)
      (Transition.Machine (World.next tools resolver))) ⟨.new cacheDir, [], []⟩ calls w) :
    ∀ call ∈ calls, call.2.code = (Transpiler.anew tools resolver call.1).code := by
  have hnew : World.Sound tools resolver ⟨.new cacheDir, [], []⟩ := by
    refine ⟨⟨nofun, nofun⟩, ?_, nofun⟩
    intro key m hm
    cases cacheDir <;> cases hm
  generalize (⟨.new cacheDir, [], []⟩ : World) = w₀ at hrun hnew
  induction hrun with
  | nil => exact nofun
  | cons hstep _ ih =>
    obtain ⟨hok, hnext⟩ := hstep
    obtain ⟨hsound, hcode⟩ := hnew.next hformat hok
    unfold Transition.Machine at hnext
    rw [hnext] at hsound hcode
    intro call hcall
    rcases List.mem_cons.mp hcall with rfl | hrest
    · exact hcode
    · exact ih hsound call hrest

end

/-- Source types as far as they matter below: declaration files, or modules. -/
inductive LimitsType
  | definition
  | ts
  deriving DecidableEq

def limits : Text := "export const limit = 3;".toList

/-- A declaration file has no JavaScript; `limits` is its own JavaScript, printed as one line. -/
def limitsOxc : Oxc LimitsType Unit where
  fromPath path :=
    if (".d.ts".toList.reverse).isPrefixOf path.reverse then .ok .definition
    else if (".ts".toList.reverse).isPrefixOf path.reverse then .ok .ts
    else .error "Unknown file extension"
  ts := .ts
  withModule sourceType := sourceType
  parse _ _ := ([], ())
  importsDynamically _ := false
  staticRequests _ := []
  compile source sourceType _ :=
    ([], if sourceType = .definition ∨ source = [] then ⟨[], ⟨[]⟩⟩
      else ⟨source ++ ['\n'], ⟨[⟨0, 0, 0, 0⟩, ⟨0, 7, 0, 7⟩, ⟨0, 13, 0, 13⟩, ⟨0, 21, 0, 21⟩]⟩⟩)

/-- A map as a text of one letter, empty for an empty map. -/
def unaryFormat : Format where
  hash _ := []
  encode map := List.replicate (Encodable.encode (map.mappings.map fun m =>
    (m.jsLine, m.jsColumn, m.tsLine, m.tsColumn))) 'A'
  decode text := (Encodable.decode (α := List (Nat × Nat × Nat × Nat)) text.length).map
    fun mappings => ⟨mappings.map fun m => ⟨m.1, m.2.1, m.2.2.1, m.2.2.2⟩⟩

private theorem unaryFormat_lossless : unaryFormat.Lossless where
  hash _ := by simp [unaryFormat]
  encode map := by
    intro h
    cases List.eq_of_mem_replicate h
  decode map := by
    show Option.map _ (Encodable.decode (List.length (List.replicate _ _))) = _
    rw [List.length_replicate, Encodable.encodek, Option.map_some, List.map_map]
    exact congrArg (fun l => some (SourceMap.mk l)) (List.map_id _)

def limitsTools : Toolchain LimitsType Unit := ⟨limitsOxc, unaryFormat, fun _ _ => []⟩

/-- A directory with the same text in `limits.ts` and `limits.d.ts`, and an empty `empty.ts`. -/
def limitsFiles : FileSystem where
  node path :=
    if path = "/p/limits.ts".toList then some ⟨⟨23, some 1⟩, .file (.ok limits)⟩
    else if path = "/p/limits.d.ts".toList then some ⟨⟨23, some 1⟩, .file (.ok limits)⟩
    else if path = "/p/empty.ts".toList then some ⟨⟨0, some 1⟩, .file (.ok [])⟩
    else if path = "/p".toList then
      some ⟨⟨0, some 1⟩, .directory ["empty.ts".toList, "limits.d.ts".toList, "limits.ts".toList]⟩
    else none
  canonical path := .ok path

def limitsResolver : ResolverFunction := fun _ _ _ _ => .error "Cannot find module"

def limitsStep (call : Call) : Step :=
  ⟨call, limitsFiles, fun _ _ _ => .error "Cannot find module", 4, []⟩

def loadDefinition : Step := limitsStep (.project "/p/limits.d.ts".toList [])

def loadInline : Step := limitsStep (.inline "limits".toList limits)

/-- Once the declaration file has been loaded as a project, an inline script with its text has no
JavaScript either. -/
theorem definition_answers_inline :
    let t := (Transpiler.new false).perform limitsTools limitsResolver loadDefinition |>.1
    let answered := (t.perform limitsTools limitsResolver loadInline).2.code
    let fresh := (Transpiler.anew limitsTools limitsResolver loadInline).code
    answered = .inline (.ok ⟨[], ⟨"limits.ts".toList, ⟨[]⟩⟩, ⟨"ts".toList, limits⟩⟩) ∧
      fresh = .inline (.ok ⟨limits ++ ['\n'], ⟨"limits.ts".toList,
        ⟨[⟨0, 0, 0, 0⟩, ⟨0, 7, 0, 7⟩, ⟨0, 13, 0, 13⟩, ⟨0, 21, 0, 21⟩]⟩⟩,
        ⟨"ts".toList, limits⟩⟩) ∧
      answered ≠ fresh := by
  decide +kernel

/-- Of a file that is a module by its name. -/
def Plain : Question → Bool
  | .inquiry (.file _) => true
  | .inquiry (.imports _ path) => (limitsOxc.fromPath path).toOption = some .ts
  | .transpiled unit => (limitsOxc.fromPath unit.path).toOption = some .ts

theorem Plain.agree {q q' : Question} (h : Plain q = true) (h' : Plain q' = true) :
    limitsTools.Agree q q' := by
  have htypes : ∀ unit : Compilation, Plain (.transpiled unit) = true →
      limitsTools.scannedAs unit = some .ts ∧ limitsTools.compiledAs unit = some .ts := by
    intro unit hunit
    have htype := of_decide_eq_true hunit
    cases unit with
    | module source path => exact ⟨htype, htype⟩
    | inline source path => exact ⟨htype, rfl⟩
  match q, q' with
  | .inquiry (.imports _ _), .inquiry (.imports _ _) =>
    intro _
    exact (of_decide_eq_true h).trans (of_decide_eq_true h').symm
  | .transpiled unit, .transpiled unit' =>
    intro hkey
    obtain ⟨hscanned, hcompiled⟩ := htypes unit h
    obtain ⟨hscanned', hcompiled'⟩ := htypes unit' h'
    refine ⟨hscanned.trans hscanned'.symm, hcompiled.trans hcompiled'.symm, ?_⟩
    intro sourceType _
    rw [Compilation.source_eq_of_key hkey]
    rfl
  | .inquiry (.file _), _ => trivial
  | .inquiry (.imports _ _), .inquiry (.file _) => trivial
  | .inquiry (.imports _ _), .transpiled _ => trivial
  | .transpiled _, .inquiry _ => trivial

theorem undisturbed_of_plain {w : World} {step : Step}
    (hplain : (w.shown ++ step.shows limitsTools limitsResolver w.transpiler).all Plain = true)
    (hturns : step.turns = []) (hfiles : ∀ fs ∈ w.files, fs = step.files)
    (hprojects : ∀ entryPath externalModules, step.call = .project entryPath externalModules →
      w.transpiler.projects entryPath = none) :
    Undisturbed limitsTools limitsResolver w step where
  agree q hq q' hq' :=
    Plain.agree (List.all_eq_true.mp hplain q hq) (List.all_eq_true.mp hplain q' hq')
  verified turn hturn := by
    rw [hturns] at hturn
    cases hturn
  detectable fs hfs := by
    rw [hfiles fs hfs]
    intro path _
    rfl
  current entryPath externalModules state hcall hstate := by
    rw [hprojects entryPath externalModules hcall] at hstate
    cases hstate

/-- An empty inline script, a project of an empty file, and the script again from disk. -/
def emptyCalls : List Call :=
  [.inline "empty".toList [], .project "/p/empty.ts".toList [], .retainUsed [] [],
    .inline "empty".toList []]

def performed (calls : List Call) (w : World) : List (Step × Answer) × World :=
  calls.foldl (fun (answered, w) call =>
    let next := w.next limitsTools limitsResolver (limitsStep call)
    (answered ++ [(limitsStep call, next.2)], next.1)) ([], w)

theorem transparent_empty :
    (performed emptyCalls ⟨.new true, [], []⟩).1.Forall fun call =>
      call.2.code = (Transpiler.anew limitsTools limitsResolver call.1).code := by
  apply List.forall_iff_forall_mem.mpr
  refine transparent (w := (performed emptyCalls ⟨.new true, [], []⟩).2) unaryFormat_lossless
    true ?_
  refine .cons ⟨undisturbed_of_plain (by decide +kernel) rfl nofun nofun, rfl⟩ ?_
  refine .cons ⟨undisturbed_of_plain (by decide +kernel) rfl ?_ ?_, rfl⟩ ?_
  · intro fs hfs
    exact List.mem_singleton.mp hfs
  · intro _ _ _
    rfl
  refine .cons ⟨undisturbed_of_plain (by decide +kernel) rfl ?_ nofun, rfl⟩ ?_
  · intro fs hfs
    exact List.eq_of_mem_replicate (n := 2) hfs
  refine .cons ⟨undisturbed_of_plain (by decide +kernel) rfl ?_ nofun, rfl⟩ (.nil _)
  intro fs hfs
  exact List.eq_of_mem_replicate (n := 3) hfs

end RustTS.Runner.Transpile
