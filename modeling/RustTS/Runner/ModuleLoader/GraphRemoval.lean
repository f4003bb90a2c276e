import RustTS.Runner.ModuleLoader.Isolation

/-! Removing a graph takes away what its insertion added, and what stands under its modules' ids
besides: a host module that was inserted under such an id, and the imports of another graph that
lead to one. -/
namespace RustTS.Runner.ModuleLoader

variable {Origin : Type}

/-- A store, the modules of each graph that is in it, the graph ids that were used, and the names
whose sources the host inserted last. -/
structure LoadedStore (Origin : Type) where
  store : ModuleStore Origin
  modules : GraphId → List Text
  used : Set GraphId
  fromHost : Set Text

namespace LoadedStore

def empty : LoadedStore Origin := ⟨.empty, fun _ => [], ∅, ∅⟩

def onStore (f : ModuleStore Origin → ModuleStore Origin) (t : LoadedStore Origin) :
    LoadedStore Origin := { t with store := f t.store }

def addGraph (graph : RuntimeModuleGraph) (store : ModuleStore Origin) (t : LoadedStore Origin) :
    LoadedStore Origin where
  store := store
  modules := Function.update t.modules graph.graphId graph.moduleIds
  used := insert graph.graphId t.used
  fromHost := t.fromHost \ {id | id ∈ graph.moduleIds}

/-- The store after one call. -/
def next (t : LoadedStore Origin) : StoreEvent Origin → LoadedStore Origin
  | .register _ => t
  | .insertHostModules modules =>
    { t.onStore (·.insertHostModules modules) with
      fromHost := t.fromHost ∪ Modules.names modules }
  | .insertGroupHostModules modules => t.onStore (·.insertGroupHostModules modules)
  | .insertInline scriptId source origin graphId =>
    let (graph, store) := t.store.insertInline scriptId source origin graphId
    t.addGraph graph store
  | .insertProject entryModuleId modules graphId =>
    match t.store.insertProject entryModuleId modules graphId with
    | .error _ => t
    | .ok (graph, store) => t.addGraph graph store
  | .markGrouped graphId => t.onStore (·.markGrouped graphId)
  | .hostImportStart moduleId => t.onStore (·.hostImportStart moduleId)
  | .hostImportEnd => t.onStore (·.hostImportEnd)
  | .resolve base name => t.onStore fun store => (store.resolve base name).2
  | .removeModules ids =>
    { t.onStore (·.removeModules ids) with
      modules := fun g => if t.modules g = ids then [] else t.modules g
      fromHost := t.fromHost \ {id | id ∈ ids} }

/-- Graphs are inserted under fresh ids, and what is marked or removed is a graph. -/
def Allowed (t : LoadedStore Origin) : StoreEvent Origin → Prop
  | .insertInline _ _ _ graphId => graphId ≤ u64Max ∧ graphId ∉ t.used
  | .insertProject _ _ graphId => graphId ≤ u64Max ∧ graphId ∉ t.used
  | .markGrouped graphId => t.modules graphId ≠ []
  | .removeModules ids => ∃ graphId, t.modules graphId ≠ [] ∧ t.modules graphId = ids
  | _ => True

def Reachable (t : LoadedStore Origin) : Prop :=
  ∃ events, Transition.Run
    (Transition.Guarded LoadedStore.Allowed fun t event t' => t.next event = t') empty events t

open Classical in
/-- The store without what was inserted for graph `g`, and its mark. -/
noncomputable def without (t : LoadedStore Origin) (g : GraphId) : ModuleStore Origin :=
  let ids := t.modules g
  { t.store with
    sources := fun name => if name ∈ ids ∧ name ∉ t.fromHost then none else t.store.sources name
    origins := fun name => if name ∈ ids then none else t.store.origins name
    resolutions := fun base request =>
      if base ∈ ids then none else t.store.resolutions base request
    groupedGraphs := Function.update t.store.groupedGraphs g false }

/-- No host module was inserted under the id of a module of graph `g`, and no import of another
graph leads to one. -/
def Apart (t : LoadedStore Origin) (g : GraphId) : Prop :=
  ∀ id ∈ t.modules g, id ∉ t.fromHost ∧
    ∀ base ∉ t.modules g, ∀ request, t.store.resolutions base request ≠ some id

/-- Nothing stands under the ids, and no import leads to one. -/
def Free (t : LoadedStore Origin) (ids : List Text) : Prop :=
  ∀ id ∈ ids, t.store.sources id = none ∧
    ∀ base request, t.store.resolutions base request ≠ some id

end LoadedStore

/-- The event inserts graph `g`. -/
def StoreEvent.Inserts (g : GraphId) : StoreEvent Origin → Prop
  | .insertInline _ _ _ graphId => graphId = g
  | .insertProject _ _ graphId => graphId = g
  | _ => False

namespace LoadedStore

/-- What is to hold of removing graphs from a store. -/
structure RemovesExactly (t : LoadedStore Origin) : Prop where
  exact : ∀ g, t.modules g ≠ [] →
    (t.store.removeModules (t.modules g) = t.without g ↔ t.Apart g)
  restores : ∀ (event : StoreEvent Origin) (g : GraphId), event.Inserts g → t.Allowed event →
    (t.next event).modules g ≠ [] → ∀ grouped : Bool,
    ((if grouped then (t.next event).store.markGrouped g else (t.next event).store).removeModules
      ((t.next event).modules g) = t.store ↔ t.Free ((t.next event).modules g))
  commute : ∀ g k, (t.store.removeModules (t.modules g)).removeModules (t.modules k) =
    (t.store.removeModules (t.modules k)).removeModules (t.modules g)

/-- What graphs have in the store stands under ids that were used. -/
structure Owned (t : LoadedStore Origin) : Prop where
  graphs : ∀ {g id}, id ∈ t.modules g → graphOf id = some g
  used : ∀ {g}, t.modules g ≠ [] → g ∈ t.used
  fromHost : ∀ {name}, name ∈ t.fromHost → t.store.sources name ≠ none
  origins : ∀ {name}, t.store.origins name ≠ none → ∃ g ∈ t.used, graphOf name = some g
  resolutions : ∀ {base request}, t.store.resolutions base request ≠ none →
    ∃ g ∈ t.used, graphOf base = some g
  grouped : ∀ {g}, t.store.groupedGraphs g = true → g ∈ t.used

variable {t : LoadedStore Origin}

private theorem owned_empty : (empty : LoadedStore Origin).Owned where
  graphs h := by cases h
  used h := absurd rfl h
  fromHost h := h.elim
  origins h := absurd rfl h
  resolutions h := absurd rfl h
  grouped h := by cases h

theorem Owned.addGraph (h : t.Owned) {graph : RuntimeModuleGraph} {store : ModuleStore Origin}
    (hids : ∀ id ∈ graph.moduleIds, graphOf id = some graph.graphId)
    (hstore : ModuleStore.Extends graph.graphId graph.moduleIds t.store store) :
    (t.addGraph graph store).Owned := by
  have hused : graph.graphId ∈ (t.addGraph graph store).used := Set.mem_insert _ _
  have hmono : ∀ {g}, g ∈ t.used → g ∈ (t.addGraph graph store).used :=
    fun hg => Set.mem_insert_of_mem _ hg
  constructor
  · intro g id hid
    unfold LoadedStore.addGraph at hid
    dsimp only at hid
    by_cases hg : g = graph.graphId
    · rw [hg, Function.update_self] at hid
      rw [hg]
      exact hids id hid
    · rw [Function.update_of_ne hg] at hid
      exact h.graphs hid
  · intro g hne
    unfold LoadedStore.addGraph at hne
    dsimp only at hne
    by_cases hg : g = graph.graphId
    · rw [hg]
      exact hused
    · rw [Function.update_of_ne hg] at hne
      exact hmono (h.used hne)
  · rintro name ⟨hname, hnot⟩
    show store.sources name ≠ none
    rw [hstore.sources name hnot]
    exact h.fromHost hname
  · intro name hname
    by_cases hid : name ∈ graph.moduleIds
    · exact ⟨_, hused, hids name hid⟩
    · have hold : t.store.origins name ≠ none := by
        rw [← hstore.origins name hid]
        exact hname
      obtain ⟨g, hg, hof⟩ := h.origins hold
      exact ⟨g, hmono hg, hof⟩
  · intro base request hbase
    by_cases hid : base ∈ graph.moduleIds
    · exact ⟨_, hused, hids base hid⟩
    · have hold : t.store.resolutions base request ≠ none := by
        rw [← hstore.resolutions base hid]
        exact hbase
      obtain ⟨g, hg, hof⟩ := h.resolutions hold
      exact ⟨g, hmono hg, hof⟩
  · intro g hgrouped
    by_cases hg : g = graph.graphId
    · rw [hg]
      exact hused
    · have hold : t.store.groupedGraphs g = true := by
        rw [← hstore.groupedGraphs g hg]
        exact hgrouped
      exact hmono (h.grouped hold)

/-- What an insertion leaves: the graph's modules, and the store with their entries. -/
theorem next_inserts {event : StoreEvent Origin} {g : GraphId} (hevent : event.Inserts g)
    (hallowed : t.Allowed event) :
    t.next event = t ∨ ∃ (graph : RuntimeModuleGraph) (store : ModuleStore Origin),
      graph.graphId = g ∧ graph.moduleIds ≠ [] ∧
      (∀ id ∈ graph.moduleIds, graphOf id = some g) ∧
      ModuleStore.Extends g graph.moduleIds t.store store ∧
      t.next event = t.addGraph graph store := by
  cases event with
  | insertInline scriptId source origin graphId =>
    obtain rfl : graphId = g := hevent
    refine .inr ⟨_, _, rfl, List.cons_ne_nil _ _, ?_, ?_, rfl⟩
    · intro id hid
      rw [List.mem_singleton.mp hid]
      exact graphOf_runtimeModuleId hallowed.1 scriptId
    · exact ModuleStore.insertInline_extends t.store scriptId source origin graphId
  | insertProject entry modules graphId =>
    obtain rfl : graphId = g := hevent
    unfold LoadedStore.next
    dsimp only
    cases hinsert : t.store.insertProject entry modules graphId with
    | error error => exact .inl rfl
    | ok inserted =>
      obtain ⟨graph, store⟩ := inserted
      obtain ⟨hgraph, hids, hne, -⟩ := ModuleStore.insertProject_eq_ok hinsert
      refine .inr ⟨graph, store, hgraph, ?_, ?_, ?_, rfl⟩
      · rw [hids]
        exact ModuleStore.projectIds_ne_nil hne
      · intro id hid
        rw [hids] at hid
        obtain ⟨m, -, rfl⟩ := ModuleStore.mem_projectIds.mp hid
        exact graphOf_runtimeModuleId hallowed.1 m.moduleId
      · have hextends := ModuleStore.insertProject_extends hinsert
        rw [hgraph] at hextends
        exact hextends
  | _ => exact hevent.elim

theorem Owned.of_store (h : t.Owned) {store : ModuleStore Origin} {fromHost : Set Text}
    (hhost : ∀ {name}, name ∈ fromHost → store.sources name ≠ none)
    (horigins : ∀ {name}, store.origins name ≠ none → t.store.origins name ≠ none)
    (hresolutions : ∀ {base request}, store.resolutions base request ≠ none →
      t.store.resolutions base request ≠ none)
    (hgrouped : ∀ {g}, store.groupedGraphs g = true → g ∈ t.used) :
    ({ t with store := store, fromHost := fromHost } : LoadedStore Origin).Owned where
  graphs := h.graphs
  used := h.used
  fromHost := hhost
  origins hname := h.origins (horigins hname)
  resolutions hbase := h.resolutions (hresolutions hbase)
  grouped := hgrouped

/-- Every call keeps the store owned. -/
theorem Owned.next (h : t.Owned) {event : StoreEvent Origin} (hallowed : t.Allowed event) :
    (t.next event).Owned := by
  have hinserts : ∀ g, event.Inserts g → (t.next event).Owned := by
    intro g hevent
    rcases next_inserts hevent hallowed with hsame | ⟨graph, store, rfl, -, hids, hstore, hnext⟩
    · rw [hsame]
      exact h
    · rw [hnext]
      exact h.addGraph hids hstore
  cases event with
  | register names => exact h
  | insertHostModules modules =>
    refine h.of_store (fun {name} hname => ?_) id id h.grouped
    show (modules name).or (t.store.sources name) ≠ none
    rcases hname with hold | hnew
    · cases hmodule : modules name with
      | none => exact h.fromHost hold
      | some source => exact Option.some_ne_none _
    · obtain ⟨source, hsource⟩ := Option.ne_none_iff_exists'.mp hnew
      rw [hsource]
      exact Option.some_ne_none _
  | insertGroupHostModules modules => exact h.of_store h.fromHost id id h.grouped
  | insertInline scriptId source origin graphId => exact hinserts graphId rfl
  | insertProject entry modules graphId => exact hinserts graphId rfl
  | markGrouped graphId =>
    refine h.of_store h.fromHost id id (fun {g} hgrouped => ?_)
    by_cases hg : g = graphId
    · rw [hg]
      exact h.used hallowed
    · apply h.grouped
      rw [← hgrouped]
      exact (Function.update_of_ne hg ..).symm
  | hostImportStart moduleId => exact h.of_store h.fromHost id id h.grouped
  | hostImportEnd => exact h.of_store h.fromHost id id h.grouped
  | resolve base name =>
    unfold LoadedStore.next onStore
    dsimp only
    rcases t.store.resolve_cases base name with ⟨-, hresolve⟩ | ⟨-, hstore, -⟩
    · rw [hresolve]
      exact h.of_store h.fromHost id id h.grouped
    · rw [hstore]
      exact h
  | removeModules ids =>
    have hremoved : (({ t with
        store := t.store.removeModules ids
        fromHost := t.fromHost \ {id | id ∈ ids} } : LoadedStore Origin)).Owned := by
      apply h.of_store
      · rintro name ⟨hname, hnot⟩
        have hkept : name ∉ ids := hnot
        rw [ModuleStore.removeModules_sources, if_neg hkept]
        exact h.fromHost hname
      · intro name hname hnone
        rw [ModuleStore.removeModules_origins, hnone, ite_self] at hname
        exact hname rfl
      · intro base request hbase hnone
        rw [ModuleStore.removeModules_resolutions, hnone] at hbase
        exact hbase rfl
      · intro g hgrouped
        rw [ModuleStore.removeModules_groupedGraphs, Bool.and_eq_true] at hgrouped
        exact h.grouped hgrouped.1
    refine ⟨?_, ?_, hremoved.fromHost, hremoved.origins, hremoved.resolutions, hremoved.grouped⟩
    · intro g id hid
      unfold LoadedStore.next at hid
      dsimp only at hid
      split_ifs at hid
      · cases hid
      · exact h.graphs hid
    · intro g hne
      unfold LoadedStore.next at hne
      dsimp only at hne
      split_ifs at hne
      · exact absurd rfl hne
      · exact h.used hne

theorem Reachable.owned (h : t.Reachable) : t.Owned := by
  obtain ⟨events, hruns⟩ := h
  refine hruns.invariant (fun t event t' ht hstep => ?_) owned_empty
  obtain ⟨hallowed, rfl⟩ := hstep
  exact ht.next hallowed

theorem removeModules_grouped {ids : List Text} {g : GraphId} (store : ModuleStore Origin)
    (hids : ∀ id ∈ ids, graphOf id = some g) (hne : ids ≠ []) :
    (store.removeModules ids).groupedGraphs = Function.update store.groupedGraphs g false := by
  funext k
  rw [ModuleStore.removeModules_groupedGraphs]
  by_cases hk : k = g
  · obtain ⟨id, hid⟩ := List.exists_mem_of_ne_nil ids hne
    have hall : (ids.all fun id => graphOf id ≠ some k) = false :=
      List.all_eq_false.mpr ⟨id, hid, by simp [hids id hid, hk]⟩
    rw [hall, Bool.and_false, hk, Function.update_self]
  · have hall : (ids.all fun id => graphOf id ≠ some k) = true :=
      List.all_eq_true.mpr fun id hid => by simpa [hids id hid] using Ne.symm hk
    rw [hall, Bool.and_true, Function.update_of_ne hk]

theorem removeModules_without (h : t.Owned) {g : GraphId} (hne : t.modules g ≠ []) :
    t.store.removeModules (t.modules g) = t.without g ↔ t.Apart g := by
  constructor
  · intro heq id hid
    constructor
    · intro hhost
      have hsources := congrArg (fun store => store.sources id) heq
      obtain ⟨source, hsource⟩ := Option.ne_none_iff_exists'.mp (h.fromHost hhost)
      unfold without at hsources
      dsimp only at hsources
      rw [ModuleStore.removeModules_sources, if_pos hid, if_neg (fun h => h.2 hhost), hsource]
        at hsources
      cases hsources
    · intro base hbase request hresolved
      have hresolutions := congrArg (fun store => store.resolutions base request) heq
      unfold without at hresolutions
      dsimp only at hresolutions
      rw [ModuleStore.removeModules_resolutions, if_neg hbase, hresolved, Option.filter_some,
        if_neg (by simp [hid])] at hresolutions
      cases hresolutions
  · intro hapart
    ext1
    · funext name
      rw [ModuleStore.removeModules_sources]
      unfold without
      dsimp only
      by_cases hid : name ∈ t.modules g
      · rw [if_pos hid, if_pos ⟨hid, (hapart name hid).1⟩]
      · rw [if_neg hid, if_neg fun h => hid h.1]
    · exact ModuleStore.removeModules_groupHostSources _ _
    · exact removeModules_grouped _ (fun id hid => h.graphs hid) hne
    · funext base request
      rw [ModuleStore.removeModules_resolutions]
      unfold without
      dsimp only
      by_cases hbase : base ∈ t.modules g
      · rw [if_pos hbase]
        simp [hbase]
      · rw [if_neg hbase]
        cases hresolved : t.store.resolutions base request with
        | none => rfl
        | some name =>
          have hname : name ∉ t.modules g :=
            fun hid => (hapart name hid).2 base hbase request hresolved
          rw [Option.filter_some, if_pos (by simp [hbase, hname])]
    · funext name
      exact ModuleStore.removeModules_origins _ _ _
    · exact ModuleStore.removeModules_hostImport _ _

/-- A fresh graph has no origin, no resolution and no mark yet. -/
theorem Owned.absent (h : t.Owned) {g : GraphId} {ids : List Text} (hfresh : g ∉ t.used)
    (hids : ∀ id ∈ ids, graphOf id = some g) (hfree : t.Free ids) :
    ModuleStore.Absent g ids t.store where
  sources name hname := (hfree name hname).1
  origins name hname := by
    by_contra hsome
    obtain ⟨k, hk, hof⟩ := h.origins hsome
    rw [hids name hname] at hof
    exact hfresh (Option.some.inj hof ▸ hk)
  resolutions base hbase request := by
    by_contra hsome
    obtain ⟨k, hk, hof⟩ := h.resolutions hsome
    rw [hids base hbase] at hof
    exact hfresh (Option.some.inj hof ▸ hk)
  resolved base request name hname hid := (hfree name hid).2 base request hname
  groupedGraphs := by
    by_contra hgrouped
    exact hfresh (h.grouped (by simpa using hgrouped))

theorem removeModules_restores (h : t.Owned) {g : GraphId} {ids : List Text}
    {store : ModuleStore Origin} (hfresh : g ∉ t.used) (hne : ids ≠ [])
    (hids : ∀ id ∈ ids, graphOf id = some g)
    (hstore : ModuleStore.Extends g ids t.store store) :
    store.removeModules ids = t.store ↔ t.Free ids := by
  constructor
  · intro heq id hid
    constructor
    · rw [← heq, ModuleStore.removeModules_sources, if_pos hid]
    · intro base request hresolved
      rw [← heq, ModuleStore.removeModules_resolutions] at hresolved
      obtain ⟨-, hkept⟩ := Option.filter_eq_some_iff.mp hresolved
      rw [decide_eq_true_eq] at hkept
      exact hkept.2 hid
  · intro hfree
    exact hstore.removeModules (h.absent hfresh hids hfree) hids hne

theorem removeModules_comm (store : ModuleStore Origin) (ids ids' : List Text) :
    (store.removeModules ids).removeModules ids' =
      (store.removeModules ids').removeModules ids := by
  ext1
  · funext name
    simp only [ModuleStore.removeModules_sources]
    split_ifs <;> rfl
  · simp only [ModuleStore.removeModules_groupHostSources]
  · funext k
    simp only [ModuleStore.removeModules_groupedGraphs]
    exact Bool.and_right_comm ..
  · funext base request
    simp only [ModuleStore.removeModules_resolutions, Option.filter_filter]
    congr 1
    funext name
    exact Bool.and_comm ..
  · funext name
    simp only [ModuleStore.removeModules_origins]
    split_ifs <;> rfl
  · simp only [ModuleStore.removeModules_hostImport]

/-- In every store that calls can lead to, removing a graph takes away just what was inserted for
it, if no host module and no import of another graph has a name that is the id of one of its
modules; a graph that is inserted and removed leaves no trace; removals commute. -/
theorem removesExactly (h : t.Reachable) : t.RemovesExactly where
  exact _ hne := removeModules_without h.owned hne
  restores event g hevent hallowed hne grouped := by
    have hfresh : g ∉ t.used := by
      cases event with
      | insertInline _ _ _ graphId => exact (show graphId = g from hevent) ▸ hallowed.2
      | insertProject _ _ graphId => exact (show graphId = g from hevent) ▸ hallowed.2
      | _ => exact hevent.elim
    rcases next_inserts hevent hallowed with hsame | ⟨graph, store, rfl, hids, hof, hstore, hnext⟩
    · rw [hsame] at hne
      exact absurd (h.owned.used hne) hfresh
    · have hmodules : (t.addGraph graph store).modules graph.graphId = graph.moduleIds :=
        Function.update_self ..
      rw [hnext, hmodules]
      cases grouped with
      | false => exact removeModules_restores h.owned hfresh hids hof hstore
      | true => exact removeModules_restores h.owned hfresh hids hof hstore.markGrouped
  commute _ _ := removeModules_comm ..

/-- Script `a` is loaded, then a host module is inserted under the id of its module. -/
def hostOverGraph : List (StoreEvent Unit) :=
  [.insertInline ['a'] [] () 0,
    .insertHostModules fun name => if name = hostNamedId then some ['h'] else none]

def hostOverGraphStore : LoadedStore Unit := hostOverGraph.foldl LoadedStore.next .empty

theorem hostOverGraphStore_reachable : hostOverGraphStore.Reachable := by
  have hinline : (0 : GraphId) ≤ u64Max := by decide
  exact ⟨hostOverGraph, .cons ⟨⟨hinline, id⟩, rfl⟩ (.cons ⟨trivial, rfl⟩ (.nil _))⟩

/-- Removing the script takes the host module away too. -/
theorem removal_takes_host_module :
    hostOverGraphStore.Reachable ∧ hostOverGraphStore.modules 0 ≠ [] ∧
      hostNamedId ∈ hostOverGraphStore.fromHost ∧
      hostOverGraphStore.store.sources hostNamedId = some ['h'] ∧
      (hostOverGraphStore.store.removeModules (hostOverGraphStore.modules 0)).sources
        hostNamedId = none := by
  refine ⟨hostOverGraphStore_reachable, ?_, ?_, by decide, by decide⟩
  · decide
  · exact .inr (show (if hostNamedId = hostNamedId then some ['h'] else none) ≠ none by decide)

theorem removesExactly_hostOverGraph :
    hostOverGraphStore.RemovesExactly := removesExactly hostOverGraphStore_reachable

end LoadedStore

end RustTS.Runner.ModuleLoader
