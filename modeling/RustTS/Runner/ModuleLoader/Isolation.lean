import Mathlib.Data.Set.Insert
import RustTS.Lib.Transition
import RustTS.Runner.ModuleLoader.Removal

/-! What a module can import. A script module, an environment or a host instance is reachable from
its own graph only, whatever a script names. -/
namespace RustTS.Runner.ModuleLoader

/-- A call of the module store; `register` names host modules that have no source, contexts being
declared only. -/
inductive StoreEvent (Origin : Type)
  | register (names : List Text)
  | insertHostModules (modules : Modules)
  | insertGroupHostModules (modules : Modules)
  | insertInline (scriptId source : Text) (origin : Origin) (graphId : GraphId)
  | insertProject (entryModuleId : Text) (modules : List (CompiledModule Origin))
      (graphId : GraphId)
  | markGrouped (graphId : GraphId)
  | hostImportStart (moduleId : Text)
  | hostImportEnd
  | resolve (base name : Text)
  | removeModules (moduleIds : List Text)

/-- A store, the names host modules were registered under, and the modules inserted for each
graph. -/
structure TrackedStore (Origin : Type) where
  store : ModuleStore Origin
  hosts : Set Text
  modules : GraphId → Set Text

variable {Origin : Type}

namespace TrackedStore

def empty : TrackedStore Origin := ⟨.empty, ∅, fun _ => ∅⟩

def onStore (f : ModuleStore Origin → ModuleStore Origin) (t : TrackedStore Origin) :
    TrackedStore Origin := { t with store := f t.store }

def addHosts (names : Set Text) (t : TrackedStore Origin) : TrackedStore Origin :=
  { t with hosts := t.hosts ∪ names }

def addGraph (graph : RuntimeModuleGraph) (store : ModuleStore Origin) (t : TrackedStore Origin) :
    TrackedStore Origin where
  store := store
  hosts := t.hosts
  modules := Function.update t.modules graph.graphId
    (t.modules graph.graphId ∪ {id | id ∈ graph.moduleIds})

end TrackedStore

/-- The names of a module map. -/
def Modules.names (modules : Modules) : Set Text := {name | modules name ≠ none}

namespace StoreEvent

def next (t : TrackedStore Origin) : StoreEvent Origin → TrackedStore Origin
  | register names => t.addHosts {name | name ∈ names}
  | insertHostModules modules =>
    (t.addHosts (Modules.names modules)).onStore (·.insertHostModules modules)
  | insertGroupHostModules modules =>
    (t.addHosts (Modules.names modules)).onStore (·.insertGroupHostModules modules)
  | insertInline scriptId source origin graphId =>
    let (graph, store) := t.store.insertInline scriptId source origin graphId
    t.addGraph graph store
  | insertProject entryModuleId modules graphId =>
    match t.store.insertProject entryModuleId modules graphId with
    | .error _ => t
    | .ok (graph, store) => t.addGraph graph store
  | markGrouped graphId => t.onStore (·.markGrouped graphId)
  | hostImportStart moduleId => t.onStore (·.hostImportStart moduleId)
  | hostImportEnd => t.onStore (·.hostImportEnd)
  | resolve base name => t.onStore fun store => (store.resolve base name).2
  | removeModules moduleIds => t.onStore (·.removeModules moduleIds)

/-- What the callers promise: a graph id is a `u64`, and what a project's imports resolve to is
a module of the project or a registered host module. -/
def Allowed (t : TrackedStore Origin) : StoreEvent Origin → Prop
  | insertInline _ _ _ graphId => graphId ≤ u64Max
  | insertProject _ modules graphId => graphId ≤ u64Max ∧
    ∀ m ∈ modules, ∀ request ∈ m.resolvedRequests,
      (∃ m' ∈ modules, m'.moduleId = request.2) ∨ request.2 ∈ t.hosts
  | _ => True

end StoreEvent

namespace TrackedStore

/-- Allowed events, one after another. -/
def Runs (t : TrackedStore Origin) (events : List (StoreEvent Origin))
    (t' : TrackedStore Origin) : Prop :=
  Transition.Run (Transition.Guarded StoreEvent.Allowed fun t event t' => event.next t = t')
    t events t'

def Reachable (t : TrackedStore Origin) : Prop := ∃ events, Runs empty events t

/-- A module inserted for a graph, its environment, or its instance of a host module. -/
def OfGraph (t : TrackedStore Origin) (g : GraphId) (name : Text) : Prop :=
  name ∈ t.modules g ∨ name = envModuleId g ∨ ∃ hostModule, name = hostInstanceId g hostModule

/-- Every source is that of a host module or of a module inserted for a graph, and imports lead
to the modules of their own graph, or to host modules. -/
structure Isolated (t : TrackedStore Origin) : Prop where
  graphs : ∀ {g name}, name ∈ t.modules g → graphOf name = some g
  sources : ∀ {name}, t.store.sources name ≠ none → name ∈ t.hosts ∨ ∃ g, name ∈ t.modules g
  resolutions : ∀ {base request name}, t.store.resolutions base request = some name →
    ∃ g, base ∈ t.modules g ∧ (name ∈ t.hosts ∨ name ∈ t.modules g)

end TrackedStore

namespace ModuleStore
variable {g : GraphId} {modules : List (CompiledModule Origin)} {store : ModuleStore Origin}

theorem recorded_cases {store : ModuleStore Origin} {base name r : Text}
    (hr : (if (store.sources name).isSome ∧
        (graphOf name = none ∨ graphOf base = graphOf name) then Except.ok name
      else match store.resolutions base name with
        | some resolved => Except.ok resolved
        | none => Except.error (ResolvingError.mk base name)) = Except.ok r) :
    (r = name ∧ (store.sources name).isSome ∧
      (graphOf name = none ∨ graphOf base = graphOf name)) ∨
    store.resolutions base name = some r := by
  split_ifs at hr with hdirect
  · cases hr
    exact .inl ⟨rfl, hdirect⟩
  · split at hr
    · next resolved hresolved =>
      cases hr
      exact .inr hresolved
    · cases hr

/-- The ways a name resolves: by the token, within the group, directly or as recorded. -/
theorem resolve_cases (store : ModuleStore Origin) (base name : Text) :
    (store.hostImport = some name ∧
      store.resolve base name = (.ok name, { store with hostImport := none })) ∨
    (store.hostImport ≠ some name ∧ (store.resolve base name).2 = store ∧
      ∀ r, (store.resolve base name).1 = .ok r →
        (∃ g, graphOf base = some g ∧ (r = envModuleId g ∨ r = hostInstanceId g name)) ∨
        (r = name ∧ (store.sources name).isSome ∧
          (graphOf name = none ∨ graphOf base = graphOf name)) ∨
        store.resolutions base name = some r) := by
  unfold resolve
  by_cases htoken : store.hostImport = some name
  · rw [if_pos htoken]
    exact .inl ⟨htoken, rfl⟩
  · rw [if_neg htoken]
    refine .inr ⟨htoken, ?_⟩
    dsimp only
    have hrecorded := fun r => @recorded_cases _ store base name r
    cases hgroup : (graphOf base).filter store.groupedGraphs with
    | none => exact ⟨rfl, fun r hr => .inr (hrecorded r hr)⟩
    | some g =>
      have hbase : graphOf base = some g := (Option.filter_eq_some_iff.mp hgroup).1
      dsimp only
      by_cases henv : name = envSpecifier
      · rw [if_pos henv]
        refine ⟨rfl, fun r hr => ?_⟩
        cases hr
        exact .inl ⟨g, hbase, .inl rfl⟩
      · rw [if_neg henv]
        by_cases hhost : (store.groupHostSources name).isSome
        · rw [if_pos hhost]
          refine ⟨rfl, fun r hr => ?_⟩
          cases hr
          exact .inl ⟨g, hbase, .inr rfl⟩
        · rw [if_neg hhost]
          exact ⟨rfl, fun r hr => .inr (hrecorded r hr)⟩

theorem runtimeIdOf_closed {hosts : Set Text} {resolved : Text}
    (h : (∃ m ∈ modules, m.moduleId = resolved) ∨ resolved ∈ hosts) :
    (runtimeIdOf g modules resolved).getD resolved ∈ projectIds g modules ∨
      (runtimeIdOf g modules resolved).getD resolved ∈ hosts := by
  unfold runtimeIdOf
  by_cases hany : ∃ m ∈ modules, m.moduleId = resolved
  · obtain ⟨m, hm, rfl⟩ := hany
    have hlookup : (modules.any fun m' => m'.moduleId = m.moduleId) = true :=
      List.any_eq_true.mpr ⟨m, hm, by simp⟩
    rw [if_pos hlookup]
    exact .inl (mem_projectIds.mpr ⟨m, hm, rfl⟩)
  · have hlookup : ¬(modules.any fun m' => m'.moduleId = resolved) = true := by
      simpa using hany
    rw [if_neg hlookup]
    exact .inr (h.resolve_left hany)

theorem insertProjectResolutions_resolved {base : Text} {requests : List (Text × Text)}
    {base' request name : Text}
    (h : (insertProjectResolutions g modules base store requests).resolutions base' request =
      some name) :
    store.resolutions base' request = some name ∨
      base' = base ∧ ∃ r ∈ requests, name = (runtimeIdOf g modules r.2).getD r.2 := by
  induction requests generalizing store with
  | nil => exact .inl h
  | cons first requests ih =>
    rcases ih h with hold | ⟨hbase, r, hr, hname⟩
    · by_cases hbase : base' = base
      · subst hbase
        simp only [Function.update_self] at hold
        by_cases hrequest : request = first.1
        · subst hrequest
          rw [Function.update_self] at hold
          exact .inr ⟨rfl, first, List.mem_cons_self, (Option.some.inj hold).symm⟩
        · rw [Function.update_of_ne hrequest] at hold
          exact .inl hold
      · simp only [Function.update_of_ne hbase] at hold
        exact .inl hold
    · exact .inr ⟨hbase, r, List.mem_cons_of_mem _ hr, hname⟩

/-- A resolution that inserting modules of a project adds is that of an import of one of them. -/
theorem insertProjectModules_resolved {ms : List (CompiledModule Origin)} {base request name : Text}
    (h : (ms.foldl (insertProjectModule g modules) store).resolutions base request = some name) :
    store.resolutions base request = some name ∨
      ∃ m ∈ ms, base = runtimeModuleId g m.moduleId ∧
        ∃ r ∈ m.resolvedRequests, name = (runtimeIdOf g modules r.2).getD r.2 := by
  induction ms generalizing store with
  | nil => exact .inl h
  | cons m ms ih =>
    rcases ih h with hold | ⟨m', hm', hbase, hname⟩
    · rcases insertProjectResolutions_resolved hold with hold | ⟨hbase, hname⟩
      · exact .inl hold
      · exact .inr ⟨m, List.mem_cons_self, hbase, hname⟩
    · exact .inr ⟨m', List.mem_cons_of_mem _ hm', hbase, hname⟩

end ModuleStore

namespace TrackedStore
variable {t t' : TrackedStore Origin}

private theorem isolated_empty : (empty : TrackedStore Origin).Isolated where
  graphs h := h.elim
  sources h := absurd rfl h
  resolutions h := by cases h

/-- A graph that is inserted has modules of its own, which import each other or host modules. -/
theorem Isolated.addGraph (h : t.Isolated) {graph : RuntimeModuleGraph} {store : ModuleStore Origin}
    (hids : ∀ id ∈ graph.moduleIds, graphOf id = some graph.graphId)
    (hsources : ∀ name ∉ graph.moduleIds, store.sources name = t.store.sources name)
    (hresolutions : ∀ {base request name}, store.resolutions base request = some name →
      t.store.resolutions base request = some name ∨
        base ∈ graph.moduleIds ∧ (name ∈ t.hosts ∨ name ∈ graph.moduleIds)) :
    (t.addGraph graph store).Isolated := by
  have hgrown (k : GraphId) : t.modules k ⊆ (t.addGraph graph store).modules k := by
    intro name hname
    by_cases hk : k = graph.graphId
    · subst hk
      unfold TrackedStore.addGraph
      dsimp only
      rw [Function.update_self]
      exact .inl hname
    · unfold TrackedStore.addGraph
      dsimp only
      rwa [Function.update_of_ne hk]
  have hnew (id : Text) (hid : id ∈ graph.moduleIds) :
      id ∈ (t.addGraph graph store).modules graph.graphId := by
    unfold TrackedStore.addGraph
    dsimp only
    rw [Function.update_self]
    exact .inr hid
  constructor
  · intro k name hname
    by_cases hk : k = graph.graphId
    · subst hk
      unfold TrackedStore.addGraph at hname
      dsimp only at hname
      rw [Function.update_self] at hname
      rcases hname with hold | hid
      · exact h.graphs hold
      · exact hids name hid
    · unfold TrackedStore.addGraph at hname
      dsimp only at hname
      rw [Function.update_of_ne hk] at hname
      exact h.graphs hname
  · intro name hname
    by_cases hid : name ∈ graph.moduleIds
    · exact .inr ⟨_, hnew name hid⟩
    · have hold : t.store.sources name ≠ none := hsources name hid ▸ hname
      rcases h.sources hold with hhost | ⟨k, hk⟩
      · exact .inl hhost
      · exact .inr ⟨k, hgrown k hk⟩
  · intro base request name hname
    rcases hresolutions hname with hold | ⟨hbase, hhost | hid⟩
    · obtain ⟨k, hbase, hhost | hk⟩ := h.resolutions hold
      · exact ⟨k, hgrown k hbase, .inl hhost⟩
      · exact ⟨k, hgrown k hbase, .inr (hgrown k hk)⟩
    · exact ⟨_, hnew base hbase, .inl hhost⟩
    · exact ⟨_, hnew base hbase, .inr (hnew name hid)⟩

/-- More host modules, fewer entries. -/
theorem Isolated.mono (h : t.Isolated) (hhosts : t.hosts ⊆ t'.hosts) (hmodules : t'.modules = t.modules)
    (hsources : ∀ {name}, t'.store.sources name ≠ none →
      t.store.sources name ≠ none ∨ name ∈ t'.hosts)
    (hresolutions : ∀ {base request name}, t'.store.resolutions base request = some name →
      t.store.resolutions base request = some name) : t'.Isolated where
  graphs hname := h.graphs (hmodules ▸ hname)
  sources hname := by
    rcases hsources hname with hold | hhost
    · rcases h.sources hold with hhost | ⟨g, hg⟩
      · exact .inl (hhosts hhost)
      · exact .inr ⟨g, hmodules ▸ hg⟩
    · exact .inl hhost
  resolutions hname := by
    obtain ⟨g, hbase, hg⟩ := h.resolutions (hresolutions hname)
    rw [hmodules]
    exact ⟨g, hbase, hg.imp_left fun hhost => hhosts hhost⟩

/-- No allowed event breaks the isolation. -/
theorem Isolated.next (h : t.Isolated) {event : StoreEvent Origin} (hallowed : event.Allowed t) :
    (event.next t).Isolated := by
  cases event with
  | register names => exact h.mono Set.subset_union_left rfl .inl id
  | insertHostModules modules =>
    refine h.mono Set.subset_union_left rfl (fun {name} hname => ?_) id
    by_cases hnew : modules name = none
    · left
      have hextended : ModuleStore.extend t.store.sources modules name ≠ none := hname
      unfold ModuleStore.extend at hextended
      rwa [hnew, Option.none_or] at hextended
    · exact .inr (.inr hnew)
  | insertGroupHostModules modules => exact h.mono Set.subset_union_left rfl .inl id
  | insertInline scriptId source origin g =>
    apply h.addGraph
    · intro id hid
      rw [List.mem_singleton.mp hid]
      exact graphOf_runtimeModuleId hallowed scriptId
    · intro name hname
      exact (ModuleStore.insertInline_extends t.store scriptId source origin g).sources name hname
    · exact .inl
  | insertProject entry modules g =>
    obtain ⟨hg, hclosed⟩ := hallowed
    unfold StoreEvent.next
    dsimp only
    cases hinsert : t.store.insertProject entry modules g with
    | error error => exact h
    | ok inserted =>
      obtain ⟨graph, store⟩ := inserted
      obtain ⟨hgraph, hids, -, rfl⟩ := ModuleStore.insertProject_eq_ok hinsert
      apply h.addGraph
      · intro id hid
        rw [hids] at hid
        obtain ⟨m, -, rfl⟩ := ModuleStore.mem_projectIds.mp hid
        rw [hgraph]
        exact graphOf_runtimeModuleId hg m.moduleId
      · exact (ModuleStore.insertProject_extends hinsert).sources
      · intro base request name hname
        rcases ModuleStore.insertProjectModules_resolved hname with
          hold | ⟨m, hm, rfl, r, hr, rfl⟩
        · exact .inl hold
        · rw [hids]
          refine .inr ⟨ModuleStore.mem_projectIds.mpr ⟨m, hm, rfl⟩, ?_⟩
          exact (ModuleStore.runtimeIdOf_closed (hclosed m hm r hr)).symm
  | markGrouped g => exact h.mono subset_rfl rfl .inl id
  | hostImportStart moduleId => exact h.mono subset_rfl rfl .inl id
  | hostImportEnd => exact h.mono subset_rfl rfl .inl id
  | resolve base name =>
    unfold StoreEvent.next onStore
    dsimp only
    rcases t.store.resolve_cases base name with ⟨-, hresolve⟩ | ⟨-, hstore, -⟩
    · rw [hresolve]
      exact h.mono subset_rfl rfl .inl id
    · rw [hstore]
      exact h
  | removeModules ids =>
    refine h.mono subset_rfl rfl (fun {name} hname => ?_) (fun {base request name} hname => ?_)
    · left
      have hkept : (t.store.removeModules ids).sources name ≠ none := hname
      rw [ModuleStore.removeModules_sources] at hkept
      split_ifs at hkept with hremoved
      · exact absurd rfl hkept
      · exact hkept
    · have hkept : (t.store.removeModules ids).resolutions base request = some name := hname
      rw [ModuleStore.removeModules_resolutions] at hkept
      exact (Option.filter_eq_some_iff.mp hkept).1

private theorem Reachable.isolated (h : t.Reachable) : t.Isolated := by
  obtain ⟨events, hruns⟩ := h
  refine Transition.Run.invariant hruns (fun s event s' hs hstep => ?_) isolated_empty
  obtain ⟨hallowed, rfl⟩ := hstep
  exact hs.next hallowed

private theorem Isolated.eq_of_ofGraph (h : t.Isolated) {g k : GraphId} {name : Text}
    (hname : graphOf name = some g) (hk : t.OfGraph k name) : k = g := by
  rcases hk with hmodule | rfl | ⟨hostModule, rfl⟩
  · exact Option.some.inj ((h.graphs hmodule).symm.trans hname)
  · rw [graphOf_envModuleId] at hname
    split_ifs at hname
    exact Option.some.inj hname
  · rw [graphOf_hostInstanceId] at hname
    split_ifs at hname
    exact Option.some.inj hname

private theorem Isolated.graphOf_ofGraph (h : t.Isolated) {g : GraphId} (hg : g ≤ u64Max) {name : Text}
    (hname : t.OfGraph g name) : graphOf name = some g := by
  rcases hname with hmodule | rfl | ⟨hostModule, rfl⟩
  · exact h.graphs hmodule
  · rw [graphOf_envModuleId, if_pos hg]
  · rw [graphOf_hostInstanceId, if_pos hg]

/-- Without the token, a module of graph `g` reaches host modules and what is of its graph. -/
theorem Isolated.resolve (h : t.Isolated) {base name r : Text} {g : GraphId}
    (hbase : graphOf base = some g) (htoken : t.store.hostImport ≠ some name)
    (hr : (t.store.resolve base name).1 = .ok r) : r ∈ t.hosts ∨ t.OfGraph g r := by
  rcases t.store.resolve_cases base name with ⟨htoken', -⟩ | ⟨-, -, hcases⟩
  · exact absurd htoken' htoken
  rcases hcases r hr with ⟨k, hk, hof⟩ | ⟨rfl, hsome, hgraph⟩ | hrecorded
  · obtain rfl := Option.some.inj (hbase.symm.trans hk)
    rcases hof with rfl | rfl
    · exact .inr (.inr (.inl rfl))
    · exact .inr (.inr (.inr ⟨name, rfl⟩))
  · rcases h.sources (Option.isSome_iff_ne_none.mp hsome) with hhost | ⟨k, hk⟩
    · exact .inl hhost
    · have hkr := h.graphs hk
      rcases hgraph with hnone | hsame
      · exact absurd (hnone.symm.trans hkr) nofun
      · rw [hbase, hkr] at hsame
        obtain rfl := Option.some.inj hsame
        exact .inr (.inl hk)
  · obtain ⟨k, hk, hto⟩ := h.resolutions hrecorded
    obtain rfl := Option.some.inj (hbase.symm.trans (h.graphs hk))
    rcases hto with hhost | hmodule
    · exact .inl hhost
    · exact .inr (.inl hmodule)

/-- No token, until the engine imports an entry module. -/
def TokenGone (t : TrackedStore Origin) : Prop :=
  ∀ events t', Runs t events t' → (∀ moduleId, .hostImportStart moduleId ∉ events) →
    t'.store.hostImport = none

theorem next_hostImport (h : t.store.hostImport = none) {event : StoreEvent Origin}
    (hevent : ∀ moduleId, event ≠ .hostImportStart moduleId) :
    (event.next t).store.hostImport = none := by
  cases event with
  | hostImportStart moduleId => exact absurd rfl (hevent moduleId)
  | hostImportEnd => rfl
  | insertProject entry modules g =>
    unfold StoreEvent.next
    dsimp only
    cases hinsert : t.store.insertProject entry modules g with
    | error error => exact h
    | ok inserted => exact (ModuleStore.insertProject_extends hinsert).hostImport.trans h
  | resolve base name =>
    unfold StoreEvent.next onStore
    dsimp only
    rcases t.store.resolve_cases base name with ⟨-, hresolve⟩ | ⟨-, hstore, -⟩
    · rw [hresolve]
    · rw [hstore]
      exact h
  | removeModules ids => exact (ModuleStore.removeModules_hostImport t.store ids).trans h
  | _ => exact h

theorem tokenGone (h : t.store.hostImport = none) : t.TokenGone := by
  intro events t' hruns hevents
  unfold Runs at hruns
  induction hruns with
  | nil => exact h
  | cons hstep _ ih =>
    obtain ⟨-, rfl⟩ := hstep
    refine ih (next_hostImport h fun moduleId heq => ?_) fun moduleId hmem => ?_
    · exact hevents moduleId (heq ▸ List.mem_cons_self)
    · exact hevents moduleId (List.mem_cons_of_mem _ hmem)

/-- Whatever a module of graph `g` names, it gets a host module or what is of its own graph, and
what is of another graph only under a name that a host module is registered under too. The token of
the engine's own import lets one resolution through, and none once that import returned. -/
theorem resolve_isolated (h : t.Reachable) {base name : Text} {g : GraphId}
    (hbase : graphOf base = some g) :
    (t.store.hostImport ≠ some name → ∀ r, (t.store.resolve base name).1 = .ok r →
      (r ∈ t.hosts ∨ t.OfGraph g r) ∧ ∀ k, k ≠ g → t.OfGraph k r → r ∈ t.hosts) ∧
    (t.store.hostImport = some name → (StoreEvent.next t (.resolve base name)).TokenGone) ∧
    (StoreEvent.next t .hostImportEnd).TokenGone := by
  have hisolated := h.isolated
  refine ⟨fun htoken r hr => ?_, fun htoken => tokenGone ?_, tokenGone rfl⟩
  · have hreached := hisolated.resolve hbase htoken hr
    refine ⟨hreached, fun k hk hother => ?_⟩
    rcases hreached with hhost | hown
    · exact hhost
    · have hg : g ≤ u64Max := le_of_graphOf hbase
      exact absurd (hisolated.eq_of_ofGraph (hisolated.graphOf_ofGraph hg hown) hother) hk
  · unfold StoreEvent.next onStore
    dsimp only
    rcases t.store.resolve_cases base name with ⟨-, hresolve⟩ | ⟨hne, -⟩
    · rw [hresolve]
    · exact absurd htoken hne

end TrackedStore

/-- The id of script `a`, the first one loaded, and the name of a host module. -/
def hostNamedId : Text := runtimeModuleId 0 ['a']

def hostNamedEvents : List (StoreEvent Unit) :=
  [.insertHostModules fun name => if name = hostNamedId then some [] else none,
    .insertInline ['a'] [] () 0,
    .insertProject ['/', 'm'] [⟨['/', 'm'], [], (), [(hostNamedId, hostNamedId)]⟩] 1]

def hostNamedStore : TrackedStore Unit := hostNamedEvents.foldl StoreEvent.next .empty

theorem hostNamedStore_reachable : hostNamedStore.Reachable := by
  have hinline : (0 : GraphId) ≤ u64Max := by decide
  have hproject : (1 : GraphId) ≤ u64Max := by decide
  have hhost : (if hostNamedId = hostNamedId then some ([] : Text) else none) ≠ none := by decide
  refine ⟨hostNamedEvents, .cons ⟨trivial, rfl⟩ (.cons ⟨hinline, rfl⟩
    (.cons ⟨⟨hproject, fun m hm request hrequest => ?_⟩, rfl⟩ (.nil _)))⟩
  cases List.mem_singleton.mp hm
  cases List.mem_singleton.mp hrequest
  exact .inr (.inr hhost)

/-- A project gets a module of another graph whose id the host registered a module under. -/
theorem hostNamed_leaks :
    hostNamedStore.Reachable ∧ runtimeModuleId 1 ['/', 'm'] ∈ hostNamedStore.modules 1 ∧
      hostNamedId ∈ hostNamedStore.modules 0 ∧ hostNamedStore.store.hostImport = none ∧
      (hostNamedStore.store.resolve (runtimeModuleId 1 ['/', 'm']) hostNamedId).1 =
        .ok hostNamedId := by
  refine ⟨hostNamedStore_reachable, ?_, ?_, rfl, by decide⟩
  · exact .inr (List.mem_singleton.mpr rfl)
  · exact .inr (List.mem_singleton.mpr rfl)

theorem resolve_isolated_hostNamed : hostNamedId ∈ hostNamedStore.hosts := by
  have hbase : graphOf (runtimeModuleId 1 ['/', 'm']) = some 1 := by decide
  have htoken : hostNamedStore.store.hostImport ≠ some hostNamedId := nofun
  have hisolated := (TrackedStore.resolve_isolated hostNamedStore_reachable hbase).1 htoken
    hostNamedId (by decide)
  exact hisolated.2 0 (by decide) (.inl (.inr (List.mem_singleton.mpr rfl)))

end RustTS.Runner.ModuleLoader
