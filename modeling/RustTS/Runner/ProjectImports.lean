import RustTS.Compiler.Reuse
import RustTS.Runner.ModuleLoader.Isolation

/-! The graph of a discovered project imports nothing but its own modules and host modules: what
the module store relies on to keep scripts apart. -/
namespace RustTS.Compiler
open Runner.ModuleLoader (Text)
open DiscoveryContext

/-- Every import of the modules leads to one of them, or names a host module. -/
def ImportsClosed (externalModules : List Text) (modules : List DiscoveredModule) : Prop :=
  ∀ m ∈ modules, ∀ request ∈ m.resolvedRequests,
    (∃ m' ∈ modules, m'.moduleId = request.2) ∨ request.2 ∈ externalModules

section
variable {c : DiscoveryContext} {f : Answers} {fuel : Nat} {entry entryPath : Path}
  {structureFiles : WatchedFiles} {known : Path → Option KnownModule} {u : Bool}
  {project : DiscoveredProject} {state : ProjectState}

theorem DiscoveryContext.Made.closed {path : Path} {m : KnownModule} (h : c.Made path m) {request : Text × Path}
    (hrequest : request ∈ m.resolvedRequests) :
    request.2 ∈ m.dependencies ∨ request.2 ∈ c.externalModules := by
  by_cases hexternal : request.1 ∈ c.externalModules
  · right
    rw [h.external request hrequest hexternal]
    exact hexternal
  · exact .inl (h.mem_dependencies.mpr ⟨request, hrequest, hexternal, rfl⟩)

theorem discover_closed (hknown : ∀ s, KnownSound c f ⟨known, u, s, IndexMap.empty⟩)
    (h : (c.discover fuel entry structureFiles known u).answered f = some (.ok (project, state))) :
    ImportsClosed c.externalModules project.modules := by
  obtain ⟨watched, hdiscover⟩ := discover_answered (f := f) c fuel entry structureFiles known u
  rw [hdiscover] at h
  obtain ⟨⟨ended, d⟩, hvisit, hfinish⟩ := Option.map_eq_some_iff.mp h
  cases ended with
  | error error => cases hfinish
  | ok _ =>
    cases hfinish
    have hcurrent := visit_current (hknown watched) nofun hvisit
    obtain ⟨hgrown, -⟩ := visit_grown hvisit
    intro m hm request hrequest
    obtain ⟨⟨path, x⟩, hx, rfl⟩ := List.mem_map.mp hm
    have hmade := (hcurrent path x (IndexMap.get?_eq_some.mpr hx)).made
    rcases hmade.closed hrequest with hdependency | hexternal
    · left
      rcases hgrown.closed path x hx with hold | hclosed
      · cases hold
      · obtain ⟨y, hy⟩ := IndexMap.mem_keys.mp (hclosed _ hdependency)
        exact ⟨_, List.mem_map_of_mem hy, rfl⟩
    · exact .inr hexternal

end

section
variable {resolver : ResolverFunction} {kept : KeptAnswers} {parser : Parser} {entryPath : Path}
  {fs fs' : FileSystem}
  {fuel : Nat} {externalModules : List Text} {project : DiscoveredProject} {state : ProjectState}

theorem discoverAnew_closed {f : Answers} {entry : Path} {known : Path → Option KnownModule}
    (hknown : ∀ r s, KnownSound ⟨parser, r, externalModules⟩ f ⟨known, false, s, IndexMap.empty⟩)
    (h : (discoverAnew parser fuel entry externalModules known).answered f =
      some (.ok (project, state))) : ImportsClosed externalModules project.modules := by
  rw [discoverAnew_answered] at h
  split at h
  · cases h
  · cases h
  · next r hr => exact discover_closed (hknown r) h

/-- A project that is discovered imports its own modules and host modules, whether its discovery
knew a state or not. -/
theorem discoverProject_closed {previous : Option ProjectState}
    (hprevious : ∀ state ∈ previous, Returned resolver parser entryPath fs state ∧ Detectable fs fs')
    (h : (discoverProject parser fuel entryPath externalModules previous).answered
      (fs'.answer resolver kept) = some (.ok (project, state))) :
    ImportsClosed externalModules project.modules := by
  rw [discoverProject_answered] at h
  split at h
  · cases h
  · cases previous with
    | none =>
      apply discoverAnew_closed _ h
      exact fun r s => .of_none (fun _ => rfl) rfl
    | some previous =>
      obtain ⟨hreturned, hchange⟩ := hprevious previous rfl
      dsimp only at h
      split_ifs at h with hreused
      · apply discover_closed (fun s => ?_) h
        exact (hreturned.holds kept).knownSound hchange
          (fun _ => ⟨rfl, (reusable_externalModules hreused).symm⟩) s
      · exact discoverAnew_closed
          (fun r s => (hreturned.holds kept).knownSound (u := false) hchange (by rintro ⟨⟩) s) h

end

end RustTS.Compiler

namespace RustTS.Runner.ModuleLoader
open Compiler

/-- The compiled modules of a discovered project, with its imports as they were resolved. -/
def Compiled {Origin : Type} (modules : List DiscoveredModule)
    (compiled : List (CompiledModule Origin)) : Prop :=
  compiled.map (fun m => (m.moduleId, m.resolvedRequests)) =
    modules.map fun m => (m.moduleId, m.resolvedRequests)

/-- A discovered project may be inserted once the host modules it was discovered with are
registered. -/
theorem insertProject_allowed {Origin : Type} {t : TrackedStore Origin} {entry : Text}
    {modules : List DiscoveredModule} {compiled : List (CompiledModule Origin)} {g : GraphId}
    {externalModules : List Text} (hclosed : ImportsClosed externalModules modules)
    (hcompiled : Compiled modules compiled) (hexternal : ∀ name ∈ externalModules, name ∈ t.hosts)
    (hg : g ≤ u64Max) : (StoreEvent.insertProject entry compiled g).Allowed t := by
  refine ⟨hg, fun c hc request hrequest => ?_⟩
  obtain ⟨m, hm, hsame⟩ : ∃ m ∈ modules, (m.moduleId, m.resolvedRequests) =
      (c.moduleId, c.resolvedRequests) := by
    have hmem := List.mem_map_of_mem (f := fun m => (m.moduleId, m.resolvedRequests)) hc
    rw [hcompiled] at hmem
    exact List.mem_map.mp hmem
  have hrequests : m.resolvedRequests = c.resolvedRequests := congrArg Prod.snd hsame
  rcases hclosed m hm request (hrequests ▸ hrequest) with ⟨m', hm', hid⟩ | hhost
  · have hmem := List.mem_map_of_mem (f := fun m => (m.moduleId, m.resolvedRequests)) hm'
    rw [← hcompiled] at hmem
    obtain ⟨c', hc', hsame'⟩ := List.mem_map.mp hmem
    have hid' : c'.moduleId = m'.moduleId := congrArg Prod.fst hsame'
    exact .inl ⟨c', hc', hid'.trans hid⟩
  · exact .inr (hexternal _ hhost)

end RustTS.Runner.ModuleLoader
