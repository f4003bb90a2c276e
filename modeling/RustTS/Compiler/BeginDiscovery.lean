import RustTS.Compiler.Project

/-! The two parts of a discovery: what it begins with, and the walk of the import graph. -/
namespace RustTS.Compiler
open Runner.ModuleLoader (Text)

/-- What the walk begins with. -/
structure Beginning where
  context : DiscoveryContext
  entry : Path
  discovery : Discovery

/-- The walk, and what a discovery makes of it. -/
def Beginning.walk (fuel : Nat) (b : Beginning) : Looking (Option DiscoveryContext.Visited) :=
  b.context.visit fuel b.entry b.discovery

def Beginning.finish (fuel : Nat) (b : Beginning) :
    Looking (Option (Except ProjectFailure (DiscoveredProject × ProjectState))) := do
  let visited ← b.walk fuel
  pure (visited.map (b.context.finish b.entry))

/-- Nothing is visited, the configs of the resolver are watched. -/
def Beginning.of (c : DiscoveryContext) (entry : Path) (structureFiles : WatchedFiles)
    (known : Path → Option KnownModule) (structureUnchanged : Bool) :
    Looking (Option (Except VmError Beginning)) := do
  let structureFiles ← WatchedFiles.watchAll c.resolver.tsconfigFiles structureFiles
  pure (some (.ok ⟨c, entry, ⟨known, structureUnchanged, structureFiles, IndexMap.empty⟩⟩))

def Beginning.anew (parser : Parser) (fuel : Nat) (entry : Path) (externalModules : List Text)
    (known : Path → Option KnownModule) : Looking (Option (Except VmError Beginning)) := do
  match ← ModuleResolver.forEntry parser.extendsOf fuel entry with
  | none => pure none
  | some (.error error) => pure (some (.error error))
  | some (.ok resolver) => Beginning.of ⟨parser, resolver, externalModules⟩ entry .empty known false

/-- `discover_project` up to its call of `visit`: the error is that of a failure before any file of
the project was looked at. -/
def beginDiscovery (parser : Parser) (fuel : Nat) (entryPath : Path) (externalModules : List Text)
    (previous : Option ProjectState) : Looking (Option (Except VmError Beginning)) := do
  match ← normalizeEntryPath entryPath with
  | .error error => pure (some (.error error))
  | .ok entry =>
    match previous with
    | none => Beginning.anew parser fuel entry externalModules fun _ => none
    | some state => do
      let reused ← state.reusable externalModules
      if reused then
        Beginning.of ⟨parser, state.resolver.keep, externalModules⟩ entry state.structureFiles
          state.modules.get? true
      else Beginning.anew parser fuel entry externalModules state.modules.get?

/-- What a discovery makes of its beginning. -/
def goOn (fuel : Nat) : Option (Except VmError Beginning) →
    Looking (Option (Except ProjectFailure (DiscoveredProject × ProjectState)))
  | none => pure none
  | some (.error error) => pure (some (.error ⟨error, .empty⟩))
  | some (.ok b) => b.finish fuel

theorem discover_begin (c : DiscoveryContext) (fuel : Nat) (entry : Path)
    (structureFiles : WatchedFiles) (known : Path → Option KnownModule) (u : Bool) :
    c.discover fuel entry structureFiles known u =
      Beginning.of c entry structureFiles known u >>= goOn fuel := by
  unfold Beginning.of
  rw [Asking.bind_bind]
  rfl

theorem discoverAnew_begin (parser : Parser) (fuel : Nat) (entry : Path)
    (externalModules : List Text) (known : Path → Option KnownModule) :
    discoverAnew parser fuel entry externalModules known =
      Beginning.anew parser fuel entry externalModules known >>= goOn fuel := by
  unfold discoverAnew Beginning.anew
  rw [Asking.bind_bind]
  congr 1
  funext resolver
  rcases resolver with _ | _ | resolver
  · rfl
  · rfl
  · exact discover_begin _ _ _ _ _ _

/-- A discovery begins, and goes on with the walk. -/
theorem discoverProject_begin (parser : Parser) (fuel : Nat) (entryPath : Path)
    (externalModules : List Text) (previous : Option ProjectState) :
    discoverProject parser fuel entryPath externalModules previous =
      beginDiscovery parser fuel entryPath externalModules previous >>= goOn fuel := by
  unfold discoverProject beginDiscovery
  rw [Asking.bind_bind]
  congr 1
  funext normalized
  cases normalized with
  | error error => rfl
  | ok entry =>
    cases previous with
    | none => exact discoverAnew_begin _ _ _ _ _
    | some state =>
      dsimp only
      rw [Asking.bind_bind]
      congr 1
      funext reused
      split_ifs
      · exact discover_begin _ _ _ _ _ _
      · exact discoverAnew_begin _ _ _ _ _

/-- What a beginning takes over from the discovery before. -/
structure Begins (parser : Parser) (externalModules : List Text) (previous : Option ProjectState)
    (b : Beginning) : Prop where
  sameParser : b.context.parser = parser
  external : b.context.externalModules = externalModules
  empty : b.discovery.modules = IndexMap.empty
  known : ∀ path, ∀ m ∈ b.discovery.known path, ∃ state ∈ previous, m ∈ state.modules.get? path
  reused : b.discovery.structureUnchanged = true →
    ∃ state ∈ previous, b.context = ⟨parser, state.resolver.keep, state.externalModules⟩

section
variable {parser : Parser} {fuel : Nat} {externalModules : List Text}
  {previous : Option ProjectState}

theorem Beginning.of_yields {c : DiscoveryContext} {entry : Path} {structureFiles : WatchedFiles}
    {known : Path → Option KnownModule} {u : Bool} (hparser : c.parser = parser)
    (hexternal : c.externalModules = externalModules)
    (hknown : ∀ path, ∀ m ∈ known path, ∃ state ∈ previous, m ∈ state.modules.get? path)
    (hreused : u = true → ∃ state ∈ previous, c = ⟨parser, state.resolver.keep, state.externalModules⟩) :
    (Beginning.of c entry structureFiles known u).Yields fun r =>
      ∀ b, r = some (.ok b) → Begins parser externalModules previous b := by
  apply (Asking.yields_true _).bind
  rintro watched - _ ⟨⟩
  exact ⟨hparser, hexternal, rfl, hknown, hreused⟩

theorem Beginning.anew_yields {entry : Path} {known : Path → Option KnownModule}
    (hknown : ∀ path, ∀ m ∈ known path, ∃ state ∈ previous, m ∈ state.modules.get? path) :
    (Beginning.anew parser fuel entry externalModules known).Yields fun r =>
      ∀ b, r = some (.ok b) → Begins parser externalModules previous b := by
  apply (Asking.yields_true _).bind
  rintro (_ | error | resolver) -
  · rintro _ ⟨⟩
  · rintro _ ⟨⟩
  · exact Beginning.of_yields rfl rfl hknown (by rintro ⟨⟩)

theorem reusable_yields (state : ProjectState) : (state.reusable externalModules).Yields fun reused =>
    reused = true → state.externalModules = externalModules := by
  unfold ProjectState.reusable
  split_ifs with h
  · exact (Asking.yields_true _).bind fun changed _ _ => h
  · rintro ⟨⟩

theorem beginDiscovery_yields {entryPath : Path} :
    (beginDiscovery parser fuel entryPath externalModules previous).Yields fun r =>
      ∀ b, r = some (.ok b) → Begins parser externalModules previous b := by
  apply (Asking.yields_true _).bind
  rintro (error | entry) -
  · rintro _ ⟨⟩
  · cases previous with
    | none => exact Beginning.anew_yields (by rintro _ _ ⟨⟩)
    | some state =>
      have hknown : ∀ path, ∀ m ∈ state.modules.get? path,
          ∃ kept ∈ some state, m ∈ kept.modules.get? path := fun path m hm => ⟨state, rfl, hm⟩
      apply (reusable_yields state).bind
      intro reused hreused
      split_ifs with h
      · obtain rfl := hreused h
        exact Beginning.of_yields rfl rfl hknown fun _ => ⟨state, rfl, rfl⟩
      · exact Beginning.anew_yields hknown

end

end RustTS.Compiler
