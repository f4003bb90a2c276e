import RustTS.Runner.Transpile

/-! Discovery that asks for imports, where the compiler itself answers, is discovery with the
compiler's parser. -/
namespace RustTS.Runner.Transpile
open Runner.ModuleLoader (Text)
open Cache Compiler
open DiscoveryContext (Visited)

section
variable {SourceType Program : Type} {tools : Toolchain SourceType Program} {files : Answers}

@[simp] theorem answered_looking {X : Type} (p : Looking X) :
    (looking p).answered (tools.inquire files) = p.answered files :=
  Asking.answered_lift Inquiry.file (tools.inquire files) p

theorem resolveModuleAsking_answered {c : DiscoveryContext} (hc : c.parser = tools.parser)
    (path : Path) (stamp : Option FileStamp) (source : Text) :
    (c.resolveModuleAsking path stamp source).answered (tools.inquire files) =
      (c.resolveModule path stamp source).answered files := by
  unfold DiscoveryContext.resolveModuleAsking DiscoveryContext.resolveModule
  simp only [Asking.answered_bind, importsOf, Asking.answered_put, hc]
  have hasked : tools.inquire files (.imports source (displayPath c.resolver.projectRoot path)) =
      tools.parser.importsOf source (displayPath c.resolver.projectRoot path) := rfl
  rw [hasked]
  cases tools.parser.importsOf source (displayPath c.resolver.projectRoot path) with
  | error error => rfl
  | ok requests => simp only [Asking.answered_bind, answered_looking, Asking.answered_pure]

theorem moduleAtAsking_answered {c : DiscoveryContext} (hc : c.parser = tools.parser) (u : Bool)
    (path : Path) (stamp : Option FileStamp) (known : Option KnownModule) :
    (c.moduleAtAsking u path stamp known).answered (tools.inquire files) =
      (c.moduleAt u path stamp known).answered files := by
  unfold DiscoveryContext.moduleAtAsking DiscoveryContext.moduleAt
  cases known.filter fun known => stamp.isSome && known.stamp = stamp with
  | some known =>
    dsimp only
    split_ifs
    · rfl
    · exact resolveModuleAsking_answered hc path stamp _
  | none =>
    simp only [Asking.answered_bind, answered_looking]
    cases (readToString path).answered files with
    | error error => rfl
    | ok source => exact resolveModuleAsking_answered hc path stamp source

theorem visitEachAsking_answered {visit : Path → Discovery → Discovering (Option Visited)}
    {visit' : Path → Discovery → Looking (Option Visited)}
    (h : ∀ path d, (visit path d).answered (tools.inquire files) = (visit' path d).answered files)
    (paths : List Path) (d : Discovery) :
    (DiscoveryContext.visitEachAsking visit paths d).answered (tools.inquire files) =
      (DiscoveryContext.visitEach visit' paths d).answered files := by
  induction paths generalizing d with
  | nil => rfl
  | cons path paths ih =>
    unfold DiscoveryContext.visitEachAsking DiscoveryContext.visitEach
    simp only [Asking.answered_bind, h]
    rcases (visit' path d).answered files with _ | ⟨_ | _, d⟩
    · rfl
    · rfl
    · exact ih d

theorem visitAsking_answered {c : DiscoveryContext} (hc : c.parser = tools.parser) (n : Nat)
    (path : Path) (d : Discovery) :
    (c.visitAsking n path d).answered (tools.inquire files) = (c.visit n path d).answered files := by
  induction n generalizing path d with
  | zero => rfl
  | succ n ih =>
    unfold DiscoveryContext.visitAsking DiscoveryContext.visit
    split_ifs
    · rfl
    · simp only [Asking.answered_bind, answered_looking, moduleAtAsking_answered hc]
      generalize (c.moduleAt _ _ _ _).answered files = module
      cases module with
      | error error => rfl
      | ok module =>
        simp only [Asking.answered_bind, answered_looking]
        exact visitEachAsking_answered ih _ _

theorem discoverAsking_answered {c : DiscoveryContext} (hc : c.parser = tools.parser) (fuel : Nat)
    (entry : Path) (structureFiles : WatchedFiles) (known : Path → Option KnownModule) (u : Bool) :
    (c.discoverAsking fuel entry structureFiles known u).answered (tools.inquire files) =
      (c.discover fuel entry structureFiles known u).answered files := by
  unfold DiscoveryContext.discoverAsking DiscoveryContext.discover
  simp only [Asking.answered_bind, answered_looking, visitAsking_answered hc, Asking.answered_pure]

theorem discoverAnewAsking_answered (fuel : Nat) (entry : Path) (externalModules : List Text)
    (known : Path → Option KnownModule) :
    (discoverAnewAsking tools.parser fuel entry externalModules known).answered
        (tools.inquire files) =
      (discoverAnew tools.parser fuel entry externalModules known).answered files := by
  unfold discoverAnewAsking discoverAnew
  simp only [Asking.answered_bind, answered_looking]
  rcases (ModuleResolver.forEntry tools.parser.extendsOf fuel entry).answered files with _ | _ | r
  · rfl
  · rfl
  · exact discoverAsking_answered rfl fuel entry _ known false

/-- Discovery that asks the compiler itself for imports is discovery with the compiler's parser. -/
theorem discoverProjectAsking_answered (fuel : Nat) (entryPath : Path) (externalModules : List Text)
    (previous : Option ProjectState) :
    (discoverProjectAsking tools.parser fuel entryPath externalModules previous).answered
        (tools.inquire files) =
      (discoverProject tools.parser fuel entryPath externalModules previous).answered files := by
  unfold discoverProjectAsking discoverProject
  simp only [Asking.answered_bind, answered_looking]
  cases (normalizeEntryPath entryPath).answered files with
  | error error => rfl
  | ok entry =>
    cases previous with
    | none => exact discoverAnewAsking_answered fuel entry externalModules _
    | some state =>
      simp only [Asking.answered_bind, answered_looking]
      split_ifs
      · exact discoverAsking_answered rfl fuel entry _ _ true
      · exact discoverAnewAsking_answered fuel entry externalModules _

end

end RustTS.Runner.Transpile
