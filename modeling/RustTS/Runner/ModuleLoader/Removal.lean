import Mathlib.Data.List.Dedup
import RustTS.Runner.ModuleLoader.Store

/-! Inserting a graph and removing it again. A store whose entries belong to graphs numbered
below `n` has room for graph `n`: what an insertion of that graph adds, the removal of its
modules takes away. -/
namespace RustTS.Runner.ModuleLoader.ModuleStore

variable {Origin : Type} {g n : GraphId} {ids : List Text} {old mid new store : ModuleStore Origin}

theorem removeModules_sources (store : ModuleStore Origin) (ids : List Text) (name : Text) :
    (store.removeModules ids).sources name = if name ∈ ids then none else store.sources name := by
  induction ids generalizing store with
  | nil => simp [removeModules]
  | cons id ids ih =>
    change ((store.removeModule id).removeModules ids).sources name = _
    rw [ih]
    by_cases h : name = id <;> simp [removeModule, h]

theorem removeModules_origins (store : ModuleStore Origin) (ids : List Text) (name : Text) :
    (store.removeModules ids).origins name = if name ∈ ids then none else store.origins name := by
  induction ids generalizing store with
  | nil => simp [removeModules]
  | cons id ids ih =>
    change ((store.removeModule id).removeModules ids).origins name = _
    rw [ih]
    by_cases h : name = id <;> simp [removeModule, h]

theorem removeModules_resolutions (store : ModuleStore Origin) (ids : List Text)
    (base request : Text) :
    (store.removeModules ids).resolutions base request =
      (store.resolutions base request).filter fun name => decide (base ∉ ids ∧ name ∉ ids) := by
  induction ids generalizing store with
  | nil => cases h : store.resolutions base request <;> simp [removeModules, h, Option.filter_some]
  | cons id ids ih =>
    change ((store.removeModule id).removeModules ids).resolutions base request = _
    rw [ih]
    cases h : store.resolutions base request with
    | none => simp [removeModule, h]
    | some name =>
      simp only [removeModule, h, Option.filter_some, List.mem_cons, not_or]
      by_cases hb : base = id <;> by_cases hn : name = id <;> simp [hb, hn, Option.filter_some]

theorem removeModules_groupHostSources (store : ModuleStore Origin) (ids : List Text) :
    (store.removeModules ids).groupHostSources = store.groupHostSources := by
  induction ids generalizing store with
  | nil => rfl
  | cons id ids ih => exact ih (store.removeModule id)

theorem removeModules_hostImport (store : ModuleStore Origin) (ids : List Text) :
    (store.removeModules ids).hostImport = store.hostImport := by
  induction ids generalizing store with
  | nil => rfl
  | cons id ids ih => exact ih (store.removeModule id)

theorem removeModules_groupedGraphs (store : ModuleStore Origin) (ids : List Text)
    (k : GraphId) :
    (store.removeModules ids).groupedGraphs k =
      (store.groupedGraphs k && ids.all fun id => graphOf id ≠ some k) := by
  induction ids generalizing store with
  | nil => simp [removeModules]
  | cons id ids ih =>
    change ((store.removeModule id).removeModules ids).groupedGraphs k = _
    rw [ih]
    cases h : graphOf id with
    | none => simp [removeModule, h]
    | some j =>
      by_cases hj : k = j
      · simp [removeModule, h, hj]
      · simp [removeModule, h, hj, Ne.symm hj]

/-- `new` holds what `old` does, but for the entries of the modules `ids` of graph `g`. -/
structure Extends (g : GraphId) (ids : List Text) (old new : ModuleStore Origin) : Prop where
  sources : ∀ name ∉ ids, new.sources name = old.sources name
  origins : ∀ name ∉ ids, new.origins name = old.origins name
  resolutions : ∀ base ∉ ids, new.resolutions base = old.resolutions base
  groupedGraphs : ∀ k, k ≠ g → new.groupedGraphs k = old.groupedGraphs k
  groupHostSources : new.groupHostSources = old.groupHostSources
  hostImport : new.hostImport = old.hostImport

namespace Extends

theorem refl (g : GraphId) (ids : List Text) (store : ModuleStore Origin) :
    Extends g ids store store :=
  ⟨fun _ _ => rfl, fun _ _ => rfl, fun _ _ => rfl, fun _ _ => rfl, rfl, rfl⟩

theorem trans (h : Extends g ids old mid) (h' : Extends g ids mid new) : Extends g ids old new where
  sources name hn := (h'.sources name hn).trans (h.sources name hn)
  origins name hn := (h'.origins name hn).trans (h.origins name hn)
  resolutions base hb := (h'.resolutions base hb).trans (h.resolutions base hb)
  groupedGraphs k hk := (h'.groupedGraphs k hk).trans (h.groupedGraphs k hk)
  groupHostSources := h'.groupHostSources.trans h.groupHostSources
  hostImport := h'.hostImport.trans h.hostImport

theorem markGrouped (h : Extends g ids old new) : Extends g ids old (new.markGrouped g) :=
  { h with
    groupedGraphs := fun k hk => by
      simpa [ModuleStore.markGrouped, hk] using h.groupedGraphs k hk }

theorem imported (h : Extends g ids old new) (ht : old.hostImport = none) (entry : Text) :
    Extends g ids old ((new.hostImportStart entry).hostImportEnd) :=
  { h with hostImport := ht.symm }

end Extends

/-- `store` has no entry of a module of `ids`, the modules of graph `g`. -/
structure Absent (g : GraphId) (ids : List Text) (store : ModuleStore Origin) : Prop where
  sources : ∀ name ∈ ids, store.sources name = none
  origins : ∀ name ∈ ids, store.origins name = none
  resolutions : ∀ base ∈ ids, ∀ request, store.resolutions base request = none
  resolved : ∀ base request, ∀ name ∈ store.resolutions base request, name ∉ ids
  groupedGraphs : store.groupedGraphs g = false

/-- Removing the modules of a graph takes away exactly what inserting it added. -/
theorem Extends.removeModules (h : Extends g ids old new) (ha : Absent g ids old)
    (hg : ∀ id ∈ ids, graphOf id = some g) (hne : ids ≠ []) : new.removeModules ids = old := by
  have hgrouped k : (new.removeModules ids).groupedGraphs k = old.groupedGraphs k := by
    rw [removeModules_groupedGraphs]
    by_cases hk : k = g
    · obtain ⟨id, hid⟩ := List.exists_mem_of_ne_nil ids hne
      have hall : (ids.all fun id => graphOf id ≠ some k) = false :=
        List.all_eq_false.mpr ⟨id, hid, by simp [hg id hid, hk]⟩
      rw [hall, hk, ha.groupedGraphs, Bool.and_false]
    · have hall : (ids.all fun id => graphOf id ≠ some k) = true :=
        List.all_eq_true.mpr fun id hid => by simpa [hg id hid] using Ne.symm hk
      rw [hall, Bool.and_true, h.groupedGraphs k hk]
  ext1
  · funext name
    rw [removeModules_sources]
    split_ifs with hn
    · exact (ha.sources name hn).symm
    · exact h.sources name hn
  · rw [removeModules_groupHostSources, h.groupHostSources]
  · exact funext hgrouped
  · funext base request
    rw [removeModules_resolutions]
    by_cases hb : base ∈ ids
    · simp [hb, ha.resolutions base hb request]
    · rw [h.resolutions base hb]
      cases hr : old.resolutions base request with
      | none => rfl
      | some name => simp [hb, ha.resolved base request name hr]
  · funext name
    rw [removeModules_origins]
    split_ifs with hn
    · exact (ha.origins name hn).symm
    · exact h.origins name hn
  · rw [removeModules_hostImport, h.hostImport]

/-- Every entry of a graph's module belongs to a graph numbered below `n`. -/
structure NumberedBelow (n : GraphId) (store : ModuleStore Origin) : Prop where
  sources : ∀ {name k}, graphOf name = some k → store.sources name ≠ none → k < n
  origins : ∀ {name k}, graphOf name = some k → store.origins name ≠ none → k < n
  resolutions : ∀ {base request k}, graphOf base = some k →
    store.resolutions base request ≠ none → k < n
  resolved : ∀ {base request name k}, store.resolutions base request = some name →
    graphOf name = some k → k < n
  groupedGraphs : ∀ {k}, store.groupedGraphs k = true → k < n
  hostImport : store.hostImport = none

namespace NumberedBelow

theorem empty (n : GraphId) : NumberedBelow n (ModuleStore.empty : ModuleStore Origin) where
  sources _ h := absurd rfl h
  origins _ h := absurd rfl h
  resolutions _ h := absurd rfl h
  resolved h := by cases h
  groupedGraphs h := by cases h
  hostImport := rfl

theorem mono (h : NumberedBelow n store) (hn : n ≤ g) : NumberedBelow g store where
  sources hk hs := Nat.lt_of_lt_of_le (h.sources hk hs) hn
  origins hk hs := Nat.lt_of_lt_of_le (h.origins hk hs) hn
  resolutions hk hs := Nat.lt_of_lt_of_le (h.resolutions hk hs) hn
  resolved hs hk := Nat.lt_of_lt_of_le (h.resolved hs hk) hn
  groupedGraphs hs := Nat.lt_of_lt_of_le (h.groupedGraphs hs) hn
  hostImport := h.hostImport

/-- A graph of the next number has no entry yet. -/
theorem absent (h : NumberedBelow n store) (hids : ∀ id ∈ ids, graphOf id = some n) :
    Absent n ids store where
  sources name hn := by
    by_contra hs
    exact absurd (h.sources (hids name hn) hs) (Nat.lt_irrefl n)
  origins name hn := by
    by_contra hs
    exact absurd (h.origins (hids name hn) hs) (Nat.lt_irrefl n)
  resolutions base hb request := by
    by_contra hs
    exact absurd (h.resolutions (hids base hb) hs) (Nat.lt_irrefl n)
  resolved base request name hs hn := absurd (h.resolved hs (hids name hn)) (Nat.lt_irrefl n)
  groupedGraphs := by
    by_contra hs
    exact absurd (h.groupedGraphs (by simpa using hs)) (Nat.lt_irrefl n)

theorem markGrouped (h : NumberedBelow n store) (hg : g < n) :
    NumberedBelow n (store.markGrouped g) :=
  { h with
    groupedGraphs := fun {k} hk => by
      by_cases hkg : k = g
      · exact hkg ▸ hg
      · exact h.groupedGraphs (by simpa [ModuleStore.markGrouped, hkg] using hk) }

theorem imported (h : NumberedBelow n store) (entry : Text) :
    NumberedBelow n ((store.hostImportStart entry).hostImportEnd) := { h with hostImport := rfl }

theorem removeModules (h : NumberedBelow n store) (ids : List Text) :
    NumberedBelow n (store.removeModules ids) where
  sources hk hs := h.sources hk fun h0 => hs (by rw [removeModules_sources, h0, ite_self])
  origins hk hs := h.origins hk fun h0 => hs (by rw [removeModules_origins, h0, ite_self])
  resolutions hk hs := h.resolutions hk fun h0 => hs (by
    rw [removeModules_resolutions, h0, Option.filter_none])
  resolved hs hk := by
    rw [removeModules_resolutions] at hs
    exact h.resolved (Option.filter_eq_some_iff.mp hs).1 hk
  groupedGraphs hs := by
    rw [removeModules_groupedGraphs, Bool.and_eq_true] at hs
    exact h.groupedGraphs hs.1
  hostImport := by rw [removeModules_hostImport, h.hostImport]

theorem insertHostModules (h : NumberedBelow n store) {modules : Modules}
    (hm : ∀ name, modules name ≠ none → graphOf name = none) :
    NumberedBelow n (store.insertHostModules modules) :=
  { h with
    sources := fun {name k} hk hs => by
      cases hmn : modules name with
      | none => exact h.sources hk (by simpa [ModuleStore.insertHostModules, extend, hmn] using hs)
      | some source => exact absurd (hm name (by simp [hmn])) (by simp [hk]) }

theorem insertGroupHostModules (h : NumberedBelow n store) (modules : Modules) :
    NumberedBelow n (store.insertGroupHostModules modules) := { h with }

theorem insertModule (h : NumberedBelow n store) {id : Text}
    (hid : ∀ {k}, graphOf id = some k → k < n) (source : Text) (origin : Origin) :
    NumberedBelow n { store with
      sources := Function.update store.sources id (some source)
      origins := Function.update store.origins id (some origin) } :=
  { h with
    sources := fun {name k} hk hs => by
      by_cases hn : name = id
      · exact hid (hn ▸ hk)
      · exact h.sources hk (by simpa [hn] using hs)
    origins := fun {name k} hk hs => by
      by_cases hn : name = id
      · exact hid (hn ▸ hk)
      · exact h.origins hk (by simpa [hn] using hs) }

theorem insertResolution (h : NumberedBelow n store) {base resolved : Text}
    (hb : ∀ {k}, graphOf base = some k → k < n)
    (hr : ∀ {k}, graphOf resolved = some k → k < n) (request : Text) :
    NumberedBelow n { store with
      resolutions := Function.update store.resolutions base
        (Function.update (store.resolutions base) request (some resolved)) } :=
  { h with
    resolutions := fun {base' request' k} hk hs => by
      by_cases hn : base' = base
      · exact hb (hn ▸ hk)
      · exact h.resolutions hk (by simpa [hn] using hs)
    resolved := fun {base' request' name k} hs hk => by
      by_cases hn : base' = base
      · subst hn
        by_cases hq : request' = request
        · subst hq
          simp only [Function.update_self, Option.some.injEq] at hs
          exact hr (hs ▸ hk)
        · exact h.resolved (by simpa [hq] using hs) hk
      · exact h.resolved (by simpa [hn] using hs) hk }

end NumberedBelow

theorem insertInline_extends (store : ModuleStore Origin) (id source : Text) (origin : Origin)
    (g : GraphId) :
    Extends g [runtimeModuleId g id] store (store.insertInline id source origin g).2 where
  sources name hn := Function.update_of_ne (by simpa using hn) _ _
  origins name hn := Function.update_of_ne (by simpa using hn) _ _
  resolutions _ _ := rfl
  groupedGraphs _ _ := rfl
  groupHostSources := rfl
  hostImport := rfl

theorem insertInline_numbered (h : NumberedBelow n store) (id source : Text) (origin : Origin) :
    NumberedBelow (n + 1) (store.insertInline id source origin n).2 :=
  (h.mono (Nat.le_succ n)).insertModule
    (fun hk => eq_of_graphOf_runtimeModuleId hk ▸ Nat.lt_succ_self n) source origin

variable {modules : List (CompiledModule Origin)}

/-- The runtime module ids of a project, as `insertProject` returns them. -/
def projectIds (g : GraphId) (modules : List (CompiledModule Origin)) : List Text :=
  (modules.map (·.moduleId)).dedup.map (runtimeModuleId g)

theorem mem_projectIds {id : Text} :
    id ∈ projectIds g modules ↔ ∃ m ∈ modules, runtimeModuleId g m.moduleId = id := by
  simp [projectIds]

theorem projectIds_ne_nil (h : modules ≠ []) : projectIds g modules ≠ [] := by
  obtain ⟨m, hm⟩ := List.exists_mem_of_ne_nil _ h
  exact List.ne_nil_of_mem (mem_projectIds.mpr ⟨m, hm, rfl⟩)

/-- What a project imports from outside it has a name no graph's module can have. -/
def ImportsApart (modules : List (CompiledModule Origin)) : Prop :=
  ∀ m ∈ modules, ∀ request ∈ m.resolvedRequests,
    (∀ m' ∈ modules, m'.moduleId ≠ request.2) → graphOf request.2 = none

theorem runtimeIdOf_getD (resolved : Text) :
    (runtimeIdOf g modules resolved).getD resolved = runtimeModuleId g resolved ∨
      (runtimeIdOf g modules resolved).getD resolved = resolved ∧
        ∀ m ∈ modules, m.moduleId ≠ resolved := by
  unfold runtimeIdOf
  split_ifs with h
  · exact .inl rfl
  · exact .inr ⟨rfl, by simpa using h⟩

private theorem insertProjectResolutions_extends {base : Text} (hb : base ∈ ids)
    (requests : List (Text × Text)) (store : ModuleStore Origin) :
    Extends g ids store (insertProjectResolutions g modules base store requests) := by
  induction requests generalizing store with
  | nil => exact .refl g ids store
  | cons request requests ih =>
    refine Extends.trans ?_ (ih _)
    exact {
      Extends.refl g ids store with
      resolutions := fun base' hb' => Function.update_of_ne (ne_of_mem_of_not_mem hb hb').symm _ _ }

private theorem insertProjectModule_extends {m : CompiledModule Origin} (hm : m ∈ modules)
    (store : ModuleStore Origin) :
    Extends g (projectIds g modules) store (insertProjectModule g modules store m) := by
  have hid : runtimeModuleId g m.moduleId ∈ projectIds g modules := mem_projectIds.mpr ⟨m, hm, rfl⟩
  have hr : Extends g _ store (insertProjectResolutions g modules _ store m.resolvedRequests) :=
    insertProjectResolutions_extends hid m.resolvedRequests store
  exact {
    hr with
    sources := fun name hn =>
      (Function.update_of_ne (ne_of_mem_of_not_mem hid hn).symm _ _).trans (hr.sources name hn)
    origins := fun name hn =>
      (Function.update_of_ne (ne_of_mem_of_not_mem hid hn).symm _ _).trans (hr.origins name hn) }

theorem insertProjectModules_extends {ms : List (CompiledModule Origin)} (hms : ms ⊆ modules)
    (store : ModuleStore Origin) :
    Extends g (projectIds g modules) store (ms.foldl (insertProjectModule g modules) store) := by
  induction ms generalizing store with
  | nil => exact .refl _ _ store
  | cons m ms ih =>
    have hsub := List.cons_subset.mp hms
    exact (insertProjectModule_extends hsub.1 store).trans (ih hsub.2 _)

theorem insertProjectModule_origins (store : ModuleStore Origin) (m : CompiledModule Origin) :
    (insertProjectModule g modules store m).origins =
      Function.update store.origins (runtimeModuleId g m.moduleId) (some m.origin) := by
  have hr : ∀ (base : Text) (requests : List (Text × Text)) (store : ModuleStore Origin),
      (insertProjectResolutions g modules base store requests).origins = store.origins := by
    intro base requests store
    induction requests generalizing store with
    | nil => rfl
    | cons request requests ih => exact ih _
  unfold insertProjectModule
  dsimp only
  rw [hr]

/-- Every module of a project has an origin once the project is inserted. -/
theorem insertProjectModules_origins {ms : List (CompiledModule Origin)} {id : Text}
    (hid : id ∈ projectIds g ms) :
    (ms.foldl (insertProjectModule g modules) store).origins id ≠ none := by
  have hkeep : ∀ (ms : List (CompiledModule Origin)) (store : ModuleStore Origin),
      store.origins id ≠ none →
      (ms.foldl (insertProjectModule g modules) store).origins id ≠ none := by
    intro ms
    induction ms with
    | nil => exact fun store h => h
    | cons m ms ih =>
      intro store h
      apply ih
      rw [insertProjectModule_origins, Function.update_apply]
      split_ifs
      · exact Option.some_ne_none _
      · exact h
  obtain ⟨m, hm, rfl⟩ := mem_projectIds.mp hid
  induction ms generalizing store with
  | nil => cases hm
  | cons m' ms ih =>
    rcases List.mem_cons.mp hm with rfl | hm'
    · apply hkeep ms (insertProjectModule g modules store m)
      rw [insertProjectModule_origins, Function.update_self]
      exact Option.some_ne_none _
    · exact ih hm' (mem_projectIds.mpr ⟨m, hm', rfl⟩)

theorem insertProjectResolutions_numbered {base : Text}
    (hb : ∀ {k}, graphOf base = some k → k < g + 1) {requests : List (Text × Text)}
    (hr : ∀ request ∈ requests, (∀ m ∈ modules, m.moduleId ≠ request.2) →
      graphOf request.2 = none) (h : NumberedBelow (g + 1) store) :
    NumberedBelow (g + 1) (insertProjectResolutions g modules base store requests) := by
  induction requests generalizing store with
  | nil => exact h
  | cons request requests ih =>
    refine ih (fun r hmem => hr r (List.mem_cons_of_mem _ hmem)) ?_
    refine h.insertResolution hb (fun {k} hk => ?_) request.1
    obtain heq | ⟨heq, hout⟩ : _ ∨ _ ∧ ∀ m ∈ modules, _ := runtimeIdOf_getD request.2
    · rw [heq] at hk
      exact eq_of_graphOf_runtimeModuleId hk ▸ Nat.lt_succ_self g
    · rw [heq, hr request List.mem_cons_self hout] at hk
      cases hk

theorem insertProjectModules_numbered (ha : ImportsApart modules)
    {ms : List (CompiledModule Origin)} (hms : ms ⊆ modules) (h : NumberedBelow (g + 1) store) :
    NumberedBelow (g + 1) (ms.foldl (insertProjectModule g modules) store) := by
  induction ms generalizing store with
  | nil => exact h
  | cons m ms ih =>
    have hsub := List.cons_subset.mp hms
    have hid {k : GraphId} (hk : graphOf (runtimeModuleId g m.moduleId) = some k) : k < g + 1 :=
      eq_of_graphOf_runtimeModuleId hk ▸ Nat.lt_succ_self g
    refine ih hsub.2 ?_
    exact (insertProjectResolutions_numbered hid (ha m hsub.1) h).insertModule hid
      m.transpiledJs m.origin

theorem insertProject_eq_ok {entry : Text} {graph : RuntimeModuleGraph}
    (h : store.insertProject entry modules g = .ok (graph, new)) :
    graph.graphId = g ∧ graph.moduleIds = projectIds g modules ∧ modules ≠ [] ∧
      new = modules.foldl (insertProjectModule g modules) store := by
  unfold insertProject runtimeIdOf at h
  split_ifs at h with hany
  · simp only [Except.ok.injEq, Prod.mk.injEq] at h
    obtain ⟨rfl, rfl⟩ := h
    refine ⟨rfl, rfl, ?_, rfl⟩
    rintro rfl
    simp at hany

theorem insertProject_extends {entry : Text} {graph : RuntimeModuleGraph}
    (h : store.insertProject entry modules g = .ok (graph, new)) :
    Extends graph.graphId graph.moduleIds store new := by
  obtain ⟨hgraph, hids, -, rfl⟩ := insertProject_eq_ok h
  rw [hgraph, hids]
  exact insertProjectModules_extends (List.Subset.refl _) store

end RustTS.Runner.ModuleLoader.ModuleStore
