import RustTS.Runner.ModuleLoader.GraphRemoval

/-! What a graph has in the module store stays as it was inserted until the graph is removed, and is
gone from then on. -/
namespace RustTS.Runner.ModuleLoader

variable {Origin : Type}

/-- The origins that a call inserts, by module id. -/
def StoreEvent.origins : StoreEvent Origin → List (Text × Origin)
  | .insertInline scriptId _ origin _ => [(scriptId, origin)]
  | .insertProject entryModuleId modules _ =>
    if modules.any fun m => m.moduleId = entryModuleId then
      modules.map fun m => (m.moduleId, m.origin)
    else []
  | _ => []

/-- No host module that is inserted has the name of a graph's module. -/
def StoreEvent.HostsApart : StoreEvent Origin → Prop
  | .insertHostModules modules => ∀ name, modules name ≠ none → graphOf name = none
  | _ => True

namespace LoadedStore

variable {t t' : LoadedStore Origin} {event : StoreEvent Origin} {g : GraphId}

/-- Allowed calls, one after another. -/
def Runs (t : LoadedStore Origin) (events : List (StoreEvent Origin)) (t' : LoadedStore Origin) :
    Prop :=
  Transition.Run (Transition.Guarded LoadedStore.Allowed fun t event t' => t.next event = t')
    t events t'

/-- What a call leaves of the module `id` of a graph: its origin, its source unless a host module
takes its name, and those of its imports that lead to no module that is removed. -/
structure Leaves (t : LoadedStore Origin) (event : StoreEvent Origin) (id : Text) : Prop where
  origin : (t.next event).store.origins id = t.store.origins id
  source : event.HostsApart → (t.next event).store.sources id = t.store.sources id
  resolution : ∀ request, (∀ name ∈ t.store.resolutions id request,
      graphOf name = none ∨ graphOf name = graphOf id) →
    (t.next event).store.resolutions id request = t.store.resolutions id request

theorem Leaves.of_extends {graph : RuntimeModuleGraph} {store : ModuleStore Origin} {id : Text}
    (hnext : t.next event = t.addGraph graph store)
    (hstore : ModuleStore.Extends graph.graphId graph.moduleIds t.store store)
    (hid : id ∉ graph.moduleIds) : t.Leaves event id := by
  have hsame : (t.next event).store = store := by
    rw [hnext]
    rfl
  constructor
  · rw [hsame, hstore.origins id hid]
  · intro _
    rw [hsame, hstore.sources id hid]
  · intro request _
    rw [hsame, hstore.resolutions id hid]

/-- A call removes a graph, or leaves its modules what they have. -/
theorem Owned.next_cases (h : t.Owned) (hallowed : t.Allowed event) (hused : g ∈ t.used) :
    (event = .removeModules (t.modules g) ∧ t.modules g ≠ []) ∨
      ((t.next event).modules g = t.modules g ∧
        ∀ id, graphOf id = some g → t.Leaves event id) := by
  have hinserts : ∀ k, event.Inserts k → k ∉ t.used →
      (t.next event).modules g = t.modules g ∧ ∀ id, graphOf id = some g → t.Leaves event id := by
    intro k hevent hfresh
    have hne : g ≠ k := ne_of_mem_of_not_mem hused hfresh
    rcases next_inserts hevent hallowed with hsame | ⟨graph, store, rfl, -, hids, hstore, hnext⟩
    · rw [hsame]
      refine ⟨rfl, fun id _ => ⟨by rw [hsame], fun _ => by rw [hsame], fun _ _ => by rw [hsame]⟩⟩
    · constructor
      · rw [hnext]
        exact Function.update_of_ne hne ..
      · intro id hid
        apply Leaves.of_extends hnext hstore
        intro hmem
        have hgraph := (hids id hmem).symm.trans hid
        exact hne (Option.some.inj hgraph).symm
  have hsame (hmodules : (t.next event).modules g = t.modules g)
      (hstore : ∀ id, t.Leaves event id) :
      (t.next event).modules g = t.modules g ∧ ∀ id, graphOf id = some g → t.Leaves event id :=
    ⟨hmodules, fun id _ => hstore id⟩
  cases event with
  | insertInline scriptId source origin graphId => exact .inr (hinserts graphId rfl hallowed.2)
  | insertProject entry modules graphId => exact .inr (hinserts graphId rfl hallowed.2)
  | insertHostModules modules =>
    refine .inr ⟨rfl, fun id hid => ⟨rfl, fun hapart => ?_, fun _ _ => rfl⟩⟩
    have hnone : modules id = none := by
      by_contra hsome
      rw [hapart id hsome] at hid
      cases hid
    show (modules id).or (t.store.sources id) = t.store.sources id
    rw [hnone, Option.none_or]
  | register names => exact .inr (hsame rfl fun _ => ⟨rfl, fun _ => rfl, fun _ _ => rfl⟩)
  | insertGroupHostModules modules =>
    exact .inr (hsame rfl fun _ => ⟨rfl, fun _ => rfl, fun _ _ => rfl⟩)
  | markGrouped graphId => exact .inr (hsame rfl fun _ => ⟨rfl, fun _ => rfl, fun _ _ => rfl⟩)
  | hostImportStart moduleId => exact .inr (hsame rfl fun _ => ⟨rfl, fun _ => rfl, fun _ _ => rfl⟩)
  | hostImportEnd => exact .inr (hsame rfl fun _ => ⟨rfl, fun _ => rfl, fun _ _ => rfl⟩)
  | resolve base name =>
    refine .inr (hsame rfl fun id => ?_)
    have hstore : (t.next (.resolve base name)).store = (t.store.resolve base name).2 := rfl
    rcases t.store.resolve_cases base name with ⟨-, hresolve⟩ | ⟨-, hresolve, -⟩
    · rw [hresolve] at hstore
      constructor
      · rw [hstore]
      · intro _
        rw [hstore]
      · intro _ _
        rw [hstore]
    · rw [hresolve] at hstore
      constructor
      · rw [hstore]
      · intro _
        rw [hstore]
      · intro _ _
        rw [hstore]
  | removeModules ids =>
    obtain ⟨k, hne, hk⟩ := hallowed
    by_cases hg : k = g
    · subst hg
      exact .inl ⟨by rw [hk], hne⟩
    · have hother (id : Text) (hid : graphOf id = some g) : id ∉ ids := by
        intro hmem
        rw [← hk] at hmem
        have hgraph := (h.graphs hmem).symm.trans hid
        exact hg (Option.some.inj hgraph)
      refine .inr ⟨?_, fun id hid => ⟨?_, fun _ => ?_, fun request hrequest => ?_⟩⟩
      · show (if t.modules g = ids then [] else t.modules g) = t.modules g
        split_ifs with hids
        · obtain ⟨id, hmem⟩ := List.exists_mem_of_ne_nil _ hne
          have hmem' : id ∈ t.modules g := by rwa [hids, ← hk]
          exact absurd ((h.graphs hmem).symm.trans (h.graphs hmem')) (by simpa using hg)
        · rfl
      · show (t.store.removeModules ids).origins id = _
        rw [ModuleStore.removeModules_origins, if_neg (hother id hid)]
      · show (t.store.removeModules ids).sources id = _
        rw [ModuleStore.removeModules_sources, if_neg (hother id hid)]
      · show (t.store.removeModules ids).resolutions id request = _
        rw [ModuleStore.removeModules_resolutions]
        cases hname : t.store.resolutions id request with
        | none => rfl
        | some name =>
          have htarget : name ∉ ids := by
            intro hmem
            rw [← hk] at hmem
            rcases hrequest name hname with hnone | hown
            · rw [h.graphs hmem] at hnone
              cases hnone
            · rw [h.graphs hmem, hid] at hown
              exact hg (Option.some.inj hown)
          rw [Option.filter_some, if_pos (by simp [hother id hid, htarget])]

theorem used_next (hused : g ∈ t.used) : g ∈ (t.next event).used := by
  cases event with
  | insertInline scriptId source origin graphId => exact Set.mem_insert_of_mem _ hused
  | insertProject entry modules graphId =>
    unfold LoadedStore.next
    dsimp only
    split
    · exact hused
    · exact Set.mem_insert_of_mem _ hused
  | _ => exact hused

/-- The modules of graph `g` have the origins they had in `old`, or the graph is removed and they have
none. -/
structure KeepsOrigins (old : LoadedStore Origin) (g : GraphId) (t : LoadedStore Origin) : Prop where
  owned : t.Owned
  used : g ∈ t.used
  loaded : t.modules g ≠ [] →
    t.modules g = old.modules g ∧ ∀ id, graphOf id = some g → t.store.origins id = old.store.origins id
  removed : t.modules g = [] → ∀ id ∈ old.modules g, t.store.origins id = none

theorem KeepsOrigins.next {old : LoadedStore Origin} (h : old.KeepsOrigins g t)
    (hold : old.Owned) (hallowed : t.Allowed event) : old.KeepsOrigins g (t.next event) := by
  rcases h.owned.next_cases hallowed h.used with ⟨rfl, hne⟩ | ⟨hmodules, hleaves⟩
  · obtain ⟨hsame, -⟩ := h.loaded hne
    have hremoved : (t.next (.removeModules (t.modules g))).modules g = [] := if_pos rfl
    refine ⟨h.owned.next hallowed, h.used, fun hloaded => absurd hremoved hloaded, fun _ id hid => ?_⟩
    show (t.store.removeModules (t.modules g)).origins id = none
    rw [ModuleStore.removeModules_origins, if_pos]
    rwa [hsame]
  · refine ⟨h.owned.next hallowed, used_next h.used, fun hloaded => ?_, fun hempty id hid => ?_⟩
    · rw [hmodules] at hloaded ⊢
      obtain ⟨hsame, horigins⟩ := h.loaded hloaded
      refine ⟨hsame, fun id hid => ?_⟩
      rw [(hleaves id hid).origin, horigins id hid]
    · rw [hmodules] at hempty
      rw [(hleaves id (hold.graphs hid)).origin]
      exact h.removed hempty id hid

/-- From a state on in which a graph is loaded, its modules have the origins they have there, until
the graph is removed. -/
theorem keepsOrigins_of_runs {events : List (StoreEvent Origin)} (hruns : t.Runs events t')
    (h : t.Owned) (hused : g ∈ t.used) (hnone : t.modules g ≠ []) : t.KeepsOrigins g t' := by
  refine hruns.invariant (fun u event u' hu hstep => ?_)
    ⟨h, hused, fun _ => ⟨rfl, fun _ _ => rfl⟩, fun hempty => absurd hempty hnone⟩
  obtain ⟨hallowed, rfl⟩ := hstep
  exact hu.next h hallowed

theorem insertProjectModules_origin {modules ms : List (CompiledModule Origin)}
    {store : ModuleStore Origin} {m : CompiledModule Origin} (hm : m ∈ ms)
    (hnodup : (ms.map (·.moduleId)).Nodup) :
    (ms.foldl (ModuleStore.insertProjectModule g modules) store).origins
      (runtimeModuleId g m.moduleId) = some m.origin := by
  induction ms using List.reverseRecOn with
  | nil => cases hm
  | append_singleton ms last ih =>
    rw [List.foldl_append, List.foldl_cons, List.foldl_nil, ModuleStore.insertProjectModule_origins]
    rw [List.map_append, List.map_singleton] at hnodup
    rcases List.mem_append.mp hm with hearlier | hlast
    · have hne : m.moduleId ≠ last.moduleId := by
        intro heq
        have hdisjoint := (List.nodup_append.mp hnodup).2.2
        exact hdisjoint _ (List.mem_map_of_mem hearlier) _ (List.mem_singleton.mpr rfl) heq
      rw [Function.update_of_ne]
      · exact ih hearlier (List.nodup_append.mp hnodup).1
      · exact fun heq => hne (List.cons.inj (List.append_cancel_left heq)).2
    · rw [List.mem_singleton.mp hlast, Function.update_self]

/-- What an insertion leaves: the graph's id is used, its modules are named by the ids inserted, and
each has the origin it was inserted with. -/
theorem inserted_origins (hallowed : t.Allowed event) (hevent : event.Inserts g)
    (hnodup : (event.origins.map Prod.fst).Nodup) {moduleId : Text} {origin : Origin}
    (hmem : (moduleId, origin) ∈ event.origins) :
    g ∈ (t.next event).used ∧ runtimeModuleId g moduleId ∈ (t.next event).modules g ∧
      graphOf (runtimeModuleId g moduleId) = some g ∧
      (t.next event).store.origins (runtimeModuleId g moduleId) = some origin := by
  cases event with
  | insertInline scriptId source origin' graphId =>
    obtain rfl : graphId = g := hevent
    obtain ⟨rfl, rfl⟩ := Prod.mk.inj (List.mem_singleton.mp hmem)
    refine ⟨Set.mem_insert _ _, ?_, graphOf_runtimeModuleId hallowed.1 _, Function.update_self ..⟩
    show _ ∈ Function.update t.modules graphId [runtimeModuleId graphId moduleId] graphId
    rw [Function.update_self]
    exact List.mem_singleton.mpr rfl
  | insertProject entry modules graphId =>
    obtain rfl : graphId = g := hevent
    unfold StoreEvent.origins at hmem hnodup
    dsimp only at hmem hnodup
    split_ifs at hmem with hentry
    · rw [if_pos hentry, List.map_map] at hnodup
      obtain ⟨m, hm, heq⟩ := List.mem_map.mp hmem
      obtain ⟨rfl, rfl⟩ := Prod.mk.inj heq
      have hinsert : t.store.insertProject entry modules graphId =
          .ok (⟨graphId, runtimeModuleId graphId entry, ModuleStore.projectIds graphId modules⟩,
            modules.foldl (ModuleStore.insertProjectModule graphId modules) t.store) := by
        unfold ModuleStore.insertProject ModuleStore.runtimeIdOf
        rw [if_pos hentry]
        rfl
      have hnext : t.next (.insertProject entry modules graphId) =
          t.addGraph ⟨graphId, runtimeModuleId graphId entry, ModuleStore.projectIds graphId modules⟩
            (modules.foldl (ModuleStore.insertProjectModule graphId modules) t.store) := by
        unfold LoadedStore.next
        dsimp only
        rw [hinsert]
      rw [hnext]
      refine ⟨Set.mem_insert _ _, ?_, graphOf_runtimeModuleId hallowed.1 _,
        insertProjectModules_origin hm hnodup⟩
      show _ ∈ Function.update t.modules graphId (ModuleStore.projectIds graphId modules) graphId
      rw [Function.update_self]
      exact ModuleStore.mem_projectIds.mpr ⟨m, hm, rfl⟩
    · cases hmem
  | _ => exact hevent.elim

/-- From its insertion on, and until its graph is removed, a module has the origin it was inserted
with; from then on it has none. -/
theorem origins_of_inserted (hreach : t.Reachable) (hallowed : t.Allowed event)
    (hevent : event.Inserts g) (hnodup : (event.origins.map Prod.fst).Nodup)
    {events : List (StoreEvent Origin)} (hruns : (t.next event).Runs events t') {moduleId : Text}
    {origin : Origin} (hmem : (moduleId, origin) ∈ event.origins) :
    t'.store.origins (runtimeModuleId g moduleId) =
      if t'.modules g = [] then none else some origin := by
  obtain ⟨hused, hid, hgraph, horigin⟩ := inserted_origins (t := t) hallowed hevent hnodup hmem
  have hkeeps := keepsOrigins_of_runs hruns (hreach.owned.next hallowed) hused
    (List.ne_nil_of_mem hid)
  split_ifs with hempty
  · exact hkeeps.removed hempty _ hid
  · rw [(hkeeps.loaded hempty).2 _ hgraph, horigin]

end LoadedStore

end RustTS.Runner.ModuleLoader
