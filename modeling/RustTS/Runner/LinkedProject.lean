import RustTS.Compiler.FileTree
import RustTS.Runner.ModuleLoader.Linking
import RustTS.Runner.ProjectImports

/-! A project runs as it was discovered: from its insertion until its removal, following imports from
its entry reaches the files that its discovery found, and loads what they were compiled to. -/
namespace RustTS.Runner
open Compiler ModuleLoader

variable {Origin : Type}

/-- The module `a` of graph `g` imports `b`, by a specifier that is no host module's name. -/
def Follows (store : ModuleStore Origin) (externalModules : List Text) (g : GraphId)
    (modules : List DiscoveredModule) (a b : Text) : Prop :=
  ∃ m ∈ modules, a = runtimeModuleId g m.moduleId ∧ ∃ request ∈ m.resolvedRequests,
    request.1 ∉ externalModules ∧ (store.resolve a request.1).1 = .ok b

/-- Host modules in the store are those the project was discovered with, none is named as a module of
a graph, and no other graph is being imported by the engine. -/
structure HostsKnown (store : ModuleStore Origin) (externalModules : List Text) (g : GraphId) :
    Prop where
  named : ∀ name ∈ externalModules, graphOf name = none ∧ hostInstanceModule name = none
  environment : envSpecifier ∈ externalModules
  sources : ∀ name, graphOf name = none → store.sources name ≠ none → name ∈ externalModules
  groupSources : ∀ name, store.groupHostSources name ≠ none → name ∈ externalModules
  token : ∀ id ∈ store.hostImport, graphOf id = some g

/-- The modules of a project as they were compiled. The specifiers of a module are the keys of a map,
and none of them is the id of a module of graph `g`. -/
structure ProjectCompiled (modules : List DiscoveredModule)
    (compiled : List (ModuleLoader.CompiledModule Origin)) (g : GraphId) : Prop where
  compiled : Compiled modules compiled
  keys : ∀ m ∈ modules, ∀ r ∈ m.resolvedRequests, ∀ r' ∈ m.resolvedRequests, r.1 = r'.1 → r.2 = r'.2
  specifiers : ∀ m ∈ modules, ∀ request ∈ m.resolvedRequests, graphOf request.1 ≠ some g

/-- The modules of graph `g` load what they were compiled to, and their imports lead where they were
resolved: to modules of the graph, to host modules, and from a context group to the script's own
environment and its instances of the host modules. -/
structure Links (store : ModuleStore Origin) (externalModules : List Text) (g : GraphId)
    (modules : List DiscoveredModule) (compiled : List (ModuleLoader.CompiledModule Origin)) : Prop where
  loads : ∀ m ∈ modules, ∃ c ∈ compiled, c.moduleId = m.moduleId ∧ ∀ envs,
    store.load envs (runtimeModuleId g m.moduleId) = .ok (.source c.transpiledJs)
  own : ∀ m ∈ modules, ∀ request ∈ m.resolvedRequests, request.1 ∉ externalModules →
    (store.resolve (runtimeModuleId g m.moduleId) request.1).1 = .ok (runtimeModuleId g request.2)
  host : ∀ m ∈ modules, ∀ name ∈ externalModules, store.groupedGraphs g = false →
    ∀ source, store.sources name = some source →
      (store.resolve (runtimeModuleId g m.moduleId) name).1 = .ok name ∧
        ∀ envs, store.load envs name = .ok (.source source)
  environment : ∀ m ∈ modules, store.groupedGraphs g = true →
    (store.resolve (runtimeModuleId g m.moduleId) envSpecifier).1 = .ok (envModuleId g) ∧
      ∀ envs : GraphId → Bool, envs g = true → store.load envs (envModuleId g) = .ok (.environment g)
  grouped : ∀ m ∈ modules, ∀ name, name ≠ envSpecifier → store.groupedGraphs g = true →
    ∀ source, store.groupHostSources name = some source →
      (store.resolve (runtimeModuleId g m.moduleId) name).1 = .ok (hostInstanceId g name) ∧
        ∀ envs, store.load envs (hostInstanceId g name) = .ok (.source source)

section
variable {modules : List DiscoveredModule} {compiled : List (ModuleLoader.CompiledModule Origin)}
  {g : GraphId} {externalModules : List Text} {t t' : LoadedStore Origin} {entry : Text}
  {events : List (StoreEvent Origin)}

theorem ProjectCompiled.moduleIds (h : ProjectCompiled modules compiled g) :
    compiled.map (·.moduleId) = modules.map (·.moduleId) := by
  have hids := congrArg (List.map Prod.fst) h.compiled
  rw [List.map_map, List.map_map] at hids
  exact hids

theorem ProjectCompiled.compiled_of_mem (h : ProjectCompiled modules compiled g)
    {m : DiscoveredModule} (hm : m ∈ modules) :
    ∃ c ∈ compiled, c.moduleId = m.moduleId ∧ c.resolvedRequests = m.resolvedRequests := by
  have hmem := List.mem_map_of_mem (f := fun m => (m.moduleId, m.resolvedRequests)) hm
  rw [← h.compiled] at hmem
  obtain ⟨c, hc, hsame⟩ := List.mem_map.mp hmem
  exact ⟨c, hc, congrArg Prod.fst hsame, congrArg Prod.snd hsame⟩

theorem ProjectCompiled.module_of_mem (h : ProjectCompiled modules compiled g)
    {c : ModuleLoader.CompiledModule Origin} (hc : c ∈ compiled) :
    ∃ m ∈ modules, c.moduleId = m.moduleId ∧ c.resolvedRequests = m.resolvedRequests := by
  have hmem := List.mem_map_of_mem (f := fun m => (m.moduleId, m.resolvedRequests)) hc
  rw [h.compiled] at hmem
  obtain ⟨m, hm, hsame⟩ := List.mem_map.mp hmem
  exact ⟨m, hm, (congrArg Prod.fst hsame).symm, (congrArg Prod.snd hsame).symm⟩

/-- The sources and the recorded imports of a project that is inserted and still loaded. -/
theorem recorded_of_loaded (hreach : t.Reachable)
    (hallowed : t.Allowed (.insertProject entry compiled g)) (hentry : entry ∈ modules.map (·.moduleId))
    (hcompiled : ProjectCompiled modules compiled g) (hnodup : (modules.map (·.moduleId)).Nodup)
    (hresolved : ∀ m ∈ modules, ∀ request ∈ m.resolvedRequests,
      request.1 ∈ externalModules ∧ request.2 = request.1 ∨
        request.1 ∉ externalModules ∧ request.2 ∈ modules.map (·.moduleId))
    (hexternal : ∀ name ∈ externalModules, graphOf name = none)
    (hruns : (t.next (.insertProject entry compiled g)).RunsApart events t')
    (hloaded : t'.modules g ≠ []) : ∀ c ∈ compiled,
      t'.store.sources (runtimeModuleId g c.moduleId) = some c.transpiledJs ∧
        ∀ request ∈ c.resolvedRequests,
          t'.store.resolutions (runtimeModuleId g c.moduleId) request.1 =
            some ((ModuleStore.runtimeIdOf g compiled request.2).getD request.2) := by
  have hany : (compiled.any fun m => m.moduleId = entry) = true := by
    rw [← hcompiled.moduleIds] at hentry
    obtain ⟨c, hc, rfl⟩ := List.mem_map.mp hentry
    exact List.any_eq_true.mpr ⟨c, hc, by simp⟩
  have hinsert : t.store.insertProject entry compiled g =
      .ok (⟨g, runtimeModuleId g entry, ModuleStore.projectIds g compiled⟩,
        compiled.foldl (ModuleStore.insertProjectModule g compiled) t.store) := by
    unfold ModuleStore.insertProject ModuleStore.runtimeIdOf
    rw [if_pos hany]
    rfl
  have hnext : t.next (.insertProject entry compiled g) =
      t.addGraph ⟨g, runtimeModuleId g entry, ModuleStore.projectIds g compiled⟩
        (compiled.foldl (ModuleStore.insertProjectModule g compiled) t.store) := by
    unfold LoadedStore.next
    dsimp only
    rw [hinsert]
  have hapart : ModuleStore.ImportsApart compiled := by
    intro c hc request hrequest hnot
    obtain ⟨m, hm, -, hrequests⟩ := hcompiled.module_of_mem hc
    rcases hresolved m hm request (hrequests ▸ hrequest) with ⟨hname, hsame⟩ | ⟨-, hown⟩
    · rw [hsame]
      exact hexternal _ hname
    · rw [← hcompiled.moduleIds] at hown
      obtain ⟨c', hc', hid⟩ := List.mem_map.mp hown
      exact absurd hid (hnot c' hc')
  have hinward := LoadedStore.inward_inserted hreach.owned hallowed hapart hinsert
  rw [← hnext] at hinward
  have hused : g ∈ (t.next (.insertProject entry compiled g)).used := by
    rw [hnext]
    exact Set.mem_insert _ _
  have hkeeps := LoadedStore.keepsLinks_of_runs hruns (hreach.owned.next hallowed) hused hinward
  obtain ⟨-, hlinks⟩ := hkeeps.loaded hloaded
  intro c hc
  obtain ⟨m, hm, -, hrequests⟩ := hcompiled.module_of_mem hc
  have hkeys := hcompiled.keys m hm
  rw [← hrequests] at hkeys
  have hids : (compiled.map (·.moduleId)).Nodup := hcompiled.moduleIds ▸ hnodup
  obtain ⟨hsource, hrecorded⟩ :=
    @ModuleStore.insertProjectModules_recorded _ t.store g compiled compiled c hc hids hkeys
  obtain ⟨hkept, hresolutions⟩ := hlinks _ (graphOf_runtimeModuleId hallowed.1 c.moduleId)
  rw [hnext] at hkept hresolutions
  constructor
  · rw [hkept]
    exact hsource
  · intro request hrequest
    rw [hresolutions request.1]
    exact hrecorded request hrequest

theorem links_of_recorded (hg : g ≤ u64Max) (hhosts : HostsKnown t'.store externalModules g)
    (hcompiled : ProjectCompiled modules compiled g)
    (hresolved : ∀ m ∈ modules, ∀ request ∈ m.resolvedRequests,
      request.1 ∈ externalModules ∧ request.2 = request.1 ∨
        request.1 ∉ externalModules ∧ request.2 ∈ modules.map (·.moduleId))
    (hrecorded : ∀ c ∈ compiled,
      t'.store.sources (runtimeModuleId g c.moduleId) = some c.transpiledJs ∧
        ∀ request ∈ c.resolvedRequests,
          t'.store.resolutions (runtimeModuleId g c.moduleId) request.1 =
            some ((ModuleStore.runtimeIdOf g compiled request.2).getD request.2)) :
    Links t'.store externalModules g modules compiled := by
  have hgraph (m : DiscoveredModule) : graphOf (runtimeModuleId g m.moduleId) = some g :=
    graphOf_runtimeModuleId hg m.moduleId
  have htoken {name : Text} (hname : graphOf name ≠ some g) : t'.store.hostImport ≠ some name :=
    fun himport => hname (hhosts.token name himport)
  have hnamed {name : Text} (hname : name ∈ externalModules) : graphOf name ≠ some g := by
    rw [(hhosts.named name hname).1]
    simp
  constructor
  · intro m hm
    obtain ⟨c, hc, hid, -⟩ := hcompiled.compiled_of_mem hm
    refine ⟨c, hc, hid, fun envs => ?_⟩
    apply ModuleStore.load_runtimeModuleId
    rw [← hid]
    exact (hrecorded c hc).1
  · intro m hm request hrequest hown
    obtain ⟨c, hc, hid, hrequests⟩ := hcompiled.compiled_of_mem hm
    have hspecifier := hcompiled.specifiers m hm request hrequest
    have hmodule : (compiled.any fun m => m.moduleId = request.2) = true := by
      rcases hresolved m hm request hrequest with ⟨hname, -⟩ | ⟨-, hmem⟩
      · exact absurd hname hown
      · rw [← hcompiled.moduleIds] at hmem
        obtain ⟨c', hc', hid'⟩ := List.mem_map.mp hmem
        exact List.any_eq_true.mpr ⟨c', hc', by simpa using hid'⟩
    have hresolution := (hrecorded c hc).2 request (hrequests ▸ hrequest)
    unfold ModuleStore.runtimeIdOf at hresolution
    rw [hid, if_pos hmodule, Option.getD_some] at hresolution
    apply ModuleStore.resolve_of_recorded (htoken hspecifier) _ _ hresolution
    · intro k _ _
      constructor
      · rintro hname
        exact hown (hname ▸ hhosts.environment)
      · by_contra hsome
        exact hown (hhosts.groupSources _ hsome)
    · rintro ⟨hsource, hnone | hsame⟩
      · exact hown (hhosts.sources _ hnone (Option.isSome_iff_ne_none.mp hsource))
      · rw [hgraph m] at hsame
        exact hspecifier hsame.symm
  · intro m _ name hname hgrouped source hsource
    obtain ⟨hnone, hinstance⟩ := hhosts.named name hname
    constructor
    · exact ModuleStore.resolve_host (htoken (hnamed hname)) (hgraph m) hgrouped hnone
        (by rw [hsource]; rfl)
    · intro envs
      exact ModuleStore.load_host _ envs hnone hinstance hsource
  · intro m _ hgrouped
    constructor
    · exact (ModuleStore.resolve_grouped (htoken (hnamed hhosts.environment)) (hgraph m) hgrouped).1 rfl
    · intro envs henv
      rw [ModuleStore.load_envModuleId _ envs hg, if_pos henv]
  · intro m _ name hname hgrouped source hsource
    have hexternal : name ∈ externalModules := by
      apply hhosts.groupSources
      rw [hsource]
      exact Option.some_ne_none _
    constructor
    · exact (ModuleStore.resolve_grouped (htoken (hnamed hexternal)) (hgraph m) hgrouped).2 hname
        (by rw [hsource]; rfl)
    · intro envs
      exact ModuleStore.load_hostInstanceId _ envs g hsource

end

section
variable {parser : Parser} {fuel : Nat} {entryPath : Path} {externalModules : List Text}
  {previous : Option ProjectState} {f : Answers} {project : DiscoveredProject} {state : ProjectState}
  {compiled : List (ModuleLoader.CompiledModule Origin)} {g : GraphId} {t t' : LoadedStore Origin}
  {events : List (StoreEvent Origin)}

private theorem runtimeModuleId_inj {a b : Text} (h : runtimeModuleId g a = runtimeModuleId g b) : a = b :=
  (List.cons.inj (List.append_cancel_left h)).2

theorem follows_iff {store : ModuleStore Origin} {c : DiscoveryContext} {u : Bool}
    {known : Path → Option KnownModule} {entry : Path} {modules : List DiscoveredModule}
    (hclosure : c.ImportClosure f u known entry modules)
    (hlinks : Links store c.externalModules g modules compiled) {path : Path}
    (hpath : path ∈ modules.map (·.moduleId)) {b : Text} :
    Follows store c.externalModules g modules (runtimeModuleId g path) b ↔
      ∃ q, c.Imports f u known path q ∧ b = runtimeModuleId g q := by
  constructor
  · rintro ⟨m, hm, hid, request, hrequest, hown, hresolve⟩
    obtain rfl := runtimeModuleId_inj hid
    obtain ⟨k, hlook, hof⟩ := hclosure.looked m hm
    have hrequests : k.resolvedRequests = m.resolvedRequests := by
      rw [hof]
      rfl
    rw [hlinks.own m hm request hrequest hown] at hresolve
    exact ⟨request.2, ⟨k, hlook, request, hrequests ▸ hrequest, hown, rfl⟩,
      (Except.ok.inj hresolve).symm⟩
  · rintro ⟨q, ⟨k, hlook, request, hrequest, hown, rfl⟩, rfl⟩
    obtain ⟨m, hm, rfl⟩ := List.mem_map.mp hpath
    obtain ⟨k', hlook', hof⟩ := hclosure.looked m hm
    rw [hlook] at hlook'
    obtain rfl := Except.ok.inj hlook'
    have hrequests : k.resolvedRequests = m.resolvedRequests := by
      rw [hof]
      rfl
    rw [hrequests] at hrequest
    exact ⟨m, hm, rfl, request, hrequest, hown, hlinks.own m hm request hrequest hown⟩

/-- From the insertion of a discovered project until its removal, the modules that imports lead to from
its entry at run time are those that imports lead to from its entry file on disk, and each loads what
it was compiled to. -/
theorem project_linked (hprevious : ∀ state ∈ previous, Discovered parser state)
    (hproject : (discoverProject parser fuel entryPath externalModules previous).answered f =
      some (.ok (project, state))) (hcompiled : ProjectCompiled project.modules compiled g)
    (hreach : t.Reachable) (hallowed : t.Allowed (.insertProject project.entryModuleId compiled g))
    (hruns : (t.next (.insertProject project.entryModuleId compiled g)).RunsApart events t')
    (hloaded : t'.modules g ≠ []) (hhosts : HostsKnown t'.store externalModules g) :
    ∃ b, (beginDiscovery parser fuel entryPath externalModules previous).answered f = some (.ok b) ∧
      project.entryModuleId = b.entry ∧
      (∀ id, Relation.ReflTransGen (Follows t'.store externalModules g project.modules)
          (runtimeModuleId g project.entryModuleId) id ↔
        ∃ path, b.context.Reachable f b.discovery.structureUnchanged b.discovery.known b.entry path ∧
          id = runtimeModuleId g path) ∧
      Links t'.store externalModules g project.modules compiled := by
  obtain ⟨b, hbegin, hentry, hclosure⟩ := FileTree.discovers_closure hprevious hproject
  have hexternal := (beginDiscovery_yields.answered f b hbegin).external
  have hresolved := hclosure.resolved
  rw [hexternal] at hresolved
  have hmember : project.entryModuleId ∈ project.modules.map (·.moduleId) := by
    rw [hentry]
    exact (hclosure.reachable b.entry).mpr .refl
  have hrecorded := recorded_of_loaded hreach hallowed hmember hcompiled hclosure.once hresolved
    (fun name hname => (hhosts.named name hname).1) hruns hloaded
  have hlinks := links_of_recorded hallowed.1 hhosts hcompiled hresolved hrecorded
  refine ⟨b, hbegin, hentry, fun id => ?_, hlinks⟩
  rw [hentry]
  rw [← hexternal] at hlinks ⊢
  constructor
  · intro hfollows
    induction hfollows with
    | refl => exact ⟨b.entry, .refl, rfl⟩
    | tail _ hstep ih =>
      obtain ⟨path, hpath, rfl⟩ := ih
      obtain ⟨q, himports, rfl⟩ :=
        (follows_iff hclosure hlinks ((hclosure.reachable path).mpr hpath)).mp hstep
      exact ⟨q, hpath.tail himports, rfl⟩
  · rintro ⟨path, hpath, rfl⟩
    induction hpath with
    | refl => exact .refl
    | tail hbefore himports ih =>
      apply ih.tail
      exact (follows_iff hclosure hlinks ((hclosure.reachable _).mpr hbefore)).mpr ⟨_, himports, rfl⟩

end

/-- `a.ts` and `b.ts`, compiled. -/
def mutualCompiled : List (ModuleLoader.CompiledModule Unit) :=
  [⟨"/a.ts".toList, "import './b'".toList, (), [("./b".toList, "/b.ts".toList)]⟩,
    ⟨"/b.ts".toList, "import './a'".toList, (), [("./a".toList, "/a.ts".toList)]⟩]

def mutualLoaded : LoadedStore Unit :=
  LoadedStore.empty.next (.insertProject "/a.ts".toList mutualCompiled 0)

/-- The import of `a.ts` leads to `b.ts`, which loads what it was compiled to. -/
theorem project_linked_mutual :
    (mutualLoaded.store.resolve (runtimeModuleId 0 "/a.ts".toList) "./b".toList).1 =
        .ok (runtimeModuleId 0 "/b.ts".toList) ∧
      mutualLoaded.store.load (fun _ => false) (runtimeModuleId 0 "/b.ts".toList) =
        .ok (.source "import './a'".toList) := by
  have hdiscovered : ((discoverProject ⟨fun source _ => .ok [source], fun _ _ => []⟩ 3 "/a.ts".toList
      [envSpecifier] none).answered FileTree.mutualTree.answer).bind (fun ended =>
        ended.toOption.map fun found => (found.1.entryModuleId, found.1.modules)) =
      some ("/a.ts".toList, [⟨"/a.ts".toList, "a.ts".toList, "./b".toList,
          [("./b".toList, "/b.ts".toList)]⟩,
        ⟨"/b.ts".toList, "b.ts".toList, "./a".toList, [("./a".toList, "/a.ts".toList)]⟩]) := by
    decide +kernel
  obtain ⟨ended, hended, hfound⟩ := Option.bind_eq_some_iff.mp hdiscovered
  obtain ⟨⟨project, state⟩, hok, hproject⟩ := Option.map_eq_some_iff.mp hfound
  obtain ⟨hentry, hmodules⟩ := Prod.mk.inj hproject
  dsimp only at hentry hmodules
  cases ended with
  | error failure => cases hok
  | ok found =>
    obtain rfl := Option.some.inj hok
    have hmember {m : DiscoveredModule} (hm : m ∈ project.modules) :
        m = ⟨"/a.ts".toList, "a.ts".toList, "./b".toList, [("./b".toList, "/b.ts".toList)]⟩ ∨
          m = ⟨"/b.ts".toList, "b.ts".toList, "./a".toList, [("./a".toList, "/a.ts".toList)]⟩ := by
      rw [hmodules] at hm
      simpa using hm
    have hcompiled : ProjectCompiled project.modules mutualCompiled 0 := by
      refine ⟨?_, fun m hm r hr r' hr' _ => ?_, fun m hm request hrequest => ?_⟩
      · unfold Compiled
        rw [hmodules]
        rfl
      · rcases hmember hm with rfl | rfl <;>
          rw [List.mem_singleton.mp hr, List.mem_singleton.mp hr']
      · rcases hmember hm with rfl | rfl <;> rw [List.mem_singleton.mp hrequest] <;> decide
    have hhosts : HostsKnown mutualLoaded.store [envSpecifier] 0 := by
      refine ⟨fun name hname => ?_, List.mem_singleton.mpr rfl, fun name hgraph hsource => ?_,
        fun name hsource => absurd rfl hsource, by rintro _ ⟨⟩⟩
      · rw [List.mem_singleton.mp hname]
        exact ⟨by decide, by decide⟩
      · exfalso
        apply hsource
        have hstore : mutualLoaded.store = mutualCompiled.foldl
            (ModuleStore.insertProjectModule 0 mutualCompiled) ModuleStore.empty := rfl
        have hextends : ModuleStore.Extends 0 (ModuleStore.projectIds 0 mutualCompiled)
            ModuleStore.empty mutualLoaded.store := by
          rw [hstore]
          exact ModuleStore.insertProjectModules_extends (List.Subset.refl _) _
        rw [hextends.sources name]
        · rfl
        · intro hmem
          obtain ⟨m, -, rfl⟩ := ModuleStore.mem_projectIds.mp hmem
          rw [graphOf_runtimeModuleId (by decide) m.moduleId] at hgraph
          cases hgraph
    have hnext : LoadedStore.empty.next (.insertProject project.entryModuleId mutualCompiled 0) =
        mutualLoaded := by
      rw [hentry]
      rfl
    have hruns : (LoadedStore.empty.next (.insertProject project.entryModuleId mutualCompiled
        0)).RunsApart [] mutualLoaded := by
      rw [hnext]
      exact .nil _
    obtain ⟨-, -, -, -, hlinks⟩ := project_linked (by rintro _ ⟨⟩) hended hcompiled ⟨[], .nil _⟩
      ⟨by decide, fun h => h.elim⟩ hruns (by decide) hhosts
    constructor
    · apply hlinks.own ⟨"/a.ts".toList, "a.ts".toList, "./b".toList, [("./b".toList, "/b.ts".toList)]⟩
        (by rw [hmodules]; simp) _ (List.mem_singleton.mpr rfl)
      decide
    · obtain ⟨c, hc, hid, hload⟩ := hlinks.loads
        ⟨"/b.ts".toList, "b.ts".toList, "./a".toList, [("./a".toList, "/a.ts".toList)]⟩
        (by rw [hmodules]; simp)
      rw [hload]
      have hcompiledB : ∀ c ∈ mutualCompiled, c.moduleId = "/b.ts".toList →
          c.transpiledJs = "import './a'".toList := by decide
      rw [hcompiledB c hc hid]

end RustTS.Runner
