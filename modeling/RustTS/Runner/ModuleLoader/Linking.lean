import RustTS.Cache.Store
import RustTS.Runner.ModuleLoader.LoadedGraphs

/-! Loading modules and linking the modules of a graph: the imports of an inserted project lead where
its compilation resolved them, until it is removed. -/
namespace RustTS.Runner.ModuleLoader

variable {Origin : Type}

/-- `Error::new_loading`. -/
structure LoadingError where
  name : Text
  message : Option String
  deriving DecidableEq

/-- What the loader declares a module from: the environment of a group's script, or a source. -/
inductive LoadedModule
  | environment (graphId : GraphId)
  | source (text : Text)
  deriving DecidableEq

/-- The host module a group script's instance id stands for. -/
def hostInstanceModule (moduleId : Text) : Option Text :=
  (moduleId.dropPrefix? hostInstancePrefix).bind fun rest =>
    (Cache.splitOnce '/' rest).map Prod.snd

theorem graphOf_of_parse {rest : Text} {k : GraphId} (hparse : parseU64 rest = some k) :
    graphOf (envModulePrefix ++ rest) = some k := by
  have hother : (envModulePrefix ++ rest).dropPrefix? runtimeModulePrefix = none := rfl
  have hwhole : rest.takeWhile (· ≠ '/') = rest := by
    rw [List.takeWhile_eq_self_iff]
    intro c hc
    have hplain : c = '+' ∨ c.isDigit = true := by
      unfold parseU64 at hparse
      dsimp only at hparse
      split at hparse
      · next digits =>
        split_ifs at hparse with hdigits
        rcases List.mem_cons.mp hc with rfl | hc
        · exact .inl rfl
        · exact .inr (List.all_eq_true.mp hdigits.2.1 c hc)
      · split_ifs at hparse with hdigits
        exact .inr (List.all_eq_true.mp hdigits.2.1 c hc)
    rw [decide_eq_true_eq]
    rintro rfl
    rcases hplain with hplus | hdigit
    · exact absurd hplus (by decide)
    · exact absurd hdigit (by decide)
  unfold graphOf
  rw [hother, dropPrefix?_append, Option.none_or, Option.some_or, Option.bind_some, hwhole, hparse]

namespace ModuleStore

def sourceForLoad (store : ModuleStore Origin) (name : Text) : Except LoadingError Text :=
  match hostInstanceModule name with
  | some hostModule => match store.groupHostSources hostModule with
    | some source => .ok source
    | none => .error ⟨name, none⟩
  | none => match store.sources name with
    | some source => .ok source
    | none => .error ⟨name, none⟩

/-- `MemoryModuleLoader::load`; `envs` tells of which graphs there is an environment. -/
def load (store : ModuleStore Origin) (envs : GraphId → Bool) (name : Text) :
    Except LoadingError LoadedModule :=
  match (name.dropPrefix? envModulePrefix).bind parseU64 with
  | none => (store.sourceForLoad name).map .source
  | some graphId =>
    if envs graphId then .ok (.environment graphId)
    else .error ⟨name, some "the script's environment is gone"⟩

theorem load_runtimeModuleId (store : ModuleStore Origin) (envs : GraphId → Bool) (g : GraphId)
    {moduleId source : Text} (h : store.sources (runtimeModuleId g moduleId) = some source) :
    store.load envs (runtimeModuleId g moduleId) = .ok (.source source) := by
  have henv : (runtimeModuleId g moduleId).dropPrefix? envModulePrefix = none := rfl
  have hhost : (runtimeModuleId g moduleId).dropPrefix? hostInstancePrefix = none := rfl
  unfold load sourceForLoad hostInstanceModule
  rw [henv, hhost, Option.bind_none, Option.bind_none]
  dsimp only
  rw [h]
  rfl

theorem load_envModuleId (store : ModuleStore Origin) (envs : GraphId → Bool) {g : GraphId}
    (hg : g ≤ u64Max) : store.load envs (envModuleId g) =
      if envs g then .ok (.environment g)
      else .error ⟨envModuleId g, some "the script's environment is gone"⟩ := by
  unfold load envModuleId
  rw [dropPrefix?_append, Option.bind_some, parseU64_decimal, if_pos hg]

theorem load_hostInstanceId (store : ModuleStore Origin) (envs : GraphId → Bool) (g : GraphId)
    {hostModule source : Text} (h : store.groupHostSources hostModule = some source) :
    store.load envs (hostInstanceId g hostModule) = .ok (.source source) := by
  have henv (rest : Text) : (hostInstancePrefix ++ rest).dropPrefix? envModulePrefix = none := rfl
  have hslash : '/' ∉ decimal g := by
    intro hmem
    have hdigit := Nat.isDigit_of_mem_toDigits (by decide) (by decide) hmem
    exact absurd hdigit (by decide)
  unfold load sourceForLoad hostInstanceModule hostInstanceId
  rw [List.append_assoc, henv, Option.bind_none, dropPrefix?_append, Option.bind_some,
    Cache.splitOnce_append hslash, Option.map_some]
  dsimp only
  rw [h]
  rfl

/-- A module that is named neither as one of a graph nor as an instance is loaded by its source. -/
theorem load_host (store : ModuleStore Origin) (envs : GraphId → Bool) {name source : Text}
    (hgraph : graphOf name = none) (hinstance : hostInstanceModule name = none)
    (h : store.sources name = some source) : store.load envs name = .ok (.source source) := by
  have henv : (name.dropPrefix? envModulePrefix).bind parseU64 = none := by
    cases hrest : name.dropPrefix? envModulePrefix with
    | none => rfl
    | some rest =>
      rw [Option.bind_some]
      obtain ⟨pre, rfl, hpre⟩ := List.dropPrefix?_eq_some_iff.mp hrest
      obtain rfl := beq_iff_eq.mp hpre
      cases hparse : parseU64 rest with
      | none => rfl
      | some k =>
        rw [graphOf_of_parse hparse] at hgraph
        cases hgraph
  unfold load sourceForLoad
  rw [henv, hinstance]
  dsimp only
  rw [h]
  rfl

variable {store : ModuleStore Origin} {base name : Text}

/-- What is recorded for an import is where it leads, if its specifier names neither a host module nor
a module of the importer's own graph. -/
theorem resolve_of_recorded {resolved : Text} (htoken : store.hostImport ≠ some name)
    (hgroup : ∀ g, graphOf base = some g → store.groupedGraphs g = true →
      name ≠ envSpecifier ∧ store.groupHostSources name = none)
    (hdirect : ¬((store.sources name).isSome ∧ (graphOf name = none ∨ graphOf base = graphOf name)))
    (hrecorded : store.resolutions base name = some resolved) :
    (store.resolve base name).1 = .ok resolved := by
  unfold resolve
  rw [if_neg htoken, if_neg hdirect, hrecorded]
  dsimp only
  cases hgrouped : (graphOf base).filter store.groupedGraphs with
  | none => rfl
  | some g =>
    obtain ⟨hgraph, hmark⟩ := Option.filter_eq_some_iff.mp hgrouped
    obtain ⟨henv, hhost⟩ := hgroup g hgraph hmark
    dsimp only
    rw [if_neg henv, hhost, if_neg (by simp)]

theorem resolve_host {g : GraphId} (htoken : store.hostImport ≠ some name)
    (hbase : graphOf base = some g) (hgrouped : store.groupedGraphs g = false)
    (hname : graphOf name = none) (hsource : (store.sources name).isSome) :
    (store.resolve base name).1 = .ok name := by
  have hnone : (graphOf base).filter store.groupedGraphs = none := by
    rw [hbase, Option.filter_some, hgrouped, if_neg Bool.false_ne_true]
  unfold resolve
  rw [if_neg htoken, hnone]
  dsimp only
  rw [if_pos ⟨hsource, .inl hname⟩]

/-- A group's script reaches its own environment, and its own instances of the host modules. -/
theorem resolve_grouped {g : GraphId} (htoken : store.hostImport ≠ some name)
    (hbase : graphOf base = some g) (hgrouped : store.groupedGraphs g = true) :
    (name = envSpecifier → (store.resolve base name).1 = .ok (envModuleId g)) ∧
    (name ≠ envSpecifier → (store.groupHostSources name).isSome →
      (store.resolve base name).1 = .ok (hostInstanceId g name)) := by
  have hsome : (graphOf base).filter store.groupedGraphs = some g := by
    rw [hbase, Option.filter_some, hgrouped, if_pos rfl]
  unfold resolve
  rw [if_neg htoken, hsome]
  dsimp only
  constructor
  · intro henv
    rw [if_pos henv]
  · intro henv hhost
    rw [if_neg henv, if_pos hhost]

variable {g : GraphId} {modules : List (CompiledModule Origin)}

private theorem insertProjectResolutions_other {base' : Text} (hne : base' ≠ base)
    (requests : List (Text × Text)) (store : ModuleStore Origin) :
    (insertProjectResolutions g modules base store requests).resolutions base' =
      store.resolutions base' := by
  induction requests generalizing store with
  | nil => rfl
  | cons request requests ih =>
    show (insertProjectResolutions g modules base _ requests).resolutions base' = _
    rw [ih]
    exact Function.update_of_ne hne ..

theorem insertProjectResolutions_recorded {requests : List (Text × Text)}
    (halike : ∀ r ∈ requests, ∀ r' ∈ requests, r.1 = r'.1 → r.2 = r'.2) {request : Text × Text}
    (hrequest : request ∈ requests) (store : ModuleStore Origin) :
    (insertProjectResolutions g modules base store requests).resolutions base request.1 =
      some ((runtimeIdOf g modules request.2).getD request.2) := by
  induction requests using List.reverseRecOn with
  | nil => cases hrequest
  | append_singleton requests last ih =>
    unfold insertProjectResolutions
    rw [List.foldl_append, List.foldl_cons, List.foldl_nil]
    dsimp only
    rw [Function.update_self]
    by_cases hsame : request.1 = last.1
    · rw [hsame, Function.update_self, halike request hrequest last (by simp) hsame]
    · rw [Function.update_of_ne hsame]
      have hearlier : request ∈ requests := by
        rcases List.mem_append.mp hrequest with hmem | hlast
        · exact hmem
        · exact absurd (congrArg Prod.fst (List.mem_singleton.mp hlast)) hsame
      exact ih (fun r hr r' hr' => halike r (List.mem_append_left _ hr) r' (List.mem_append_left _ hr'))
        hearlier

/-- Each module of a project has its source, and its imports are recorded. -/
theorem insertProjectModules_recorded {ms : List (CompiledModule Origin)} {m : CompiledModule Origin}
    (hm : m ∈ ms) (hnodup : (ms.map (·.moduleId)).Nodup)
    (halike : ∀ r ∈ m.resolvedRequests, ∀ r' ∈ m.resolvedRequests, r.1 = r'.1 → r.2 = r'.2) :
    (ms.foldl (insertProjectModule g modules) store).sources (runtimeModuleId g m.moduleId) =
        some m.transpiledJs ∧
      ∀ request ∈ m.resolvedRequests,
        (ms.foldl (insertProjectModule g modules) store).resolutions (runtimeModuleId g m.moduleId)
          request.1 = some ((runtimeIdOf g modules request.2).getD request.2) := by
  induction ms using List.reverseRecOn with
  | nil => cases hm
  | append_singleton ms last ih =>
    rw [List.foldl_append, List.foldl_cons, List.foldl_nil]
    rw [List.map_append, List.map_singleton] at hnodup
    obtain ⟨hfirst, -, hdisjoint⟩ := List.nodup_append.mp hnodup
    rcases List.mem_append.mp hm with hearlier | hlast
    · have hne : runtimeModuleId g m.moduleId ≠ runtimeModuleId g last.moduleId := by
        intro heq
        have hid := (List.cons.inj (List.append_cancel_left heq)).2
        exact hdisjoint _ (List.mem_map_of_mem hearlier) _ (List.mem_singleton.mpr rfl) hid
      have hsources : ∀ (base : Text) (requests : List (Text × Text)) (store : ModuleStore Origin),
          (insertProjectResolutions g modules base store requests).sources = store.sources := by
        intro base requests
        induction requests with
        | nil => exact fun _ => rfl
        | cons request requests ihr => exact fun _ => ihr _
      obtain ⟨hsource, hrequests⟩ := ih hearlier hfirst
      unfold insertProjectModule
      dsimp only
      constructor
      · rw [Function.update_of_ne hne, hsources]
        exact hsource
      · intro request hrequest
        rw [insertProjectResolutions_other hne]
        exact hrequests request hrequest
    · obtain rfl := List.mem_singleton.mp hlast
      unfold insertProjectModule
      dsimp only
      constructor
      · rw [Function.update_self]
      · intro request hrequest
        exact insertProjectResolutions_recorded halike hrequest _

end ModuleStore

namespace LoadedStore

variable {t t' : LoadedStore Origin} {event : StoreEvent Origin} {g : GraphId}

/-- Allowed calls, none of which inserts a host module under the name of a graph's module. -/
def RunsApart (t : LoadedStore Origin) (events : List (StoreEvent Origin)) (t' : LoadedStore Origin) :
    Prop :=
  Transition.Run (Transition.Guarded (fun t event => t.Allowed event ∧ event.HostsApart)
    fun t event t' => t.next event = t') t events t'

/-- The imports of graph `g` lead to its own modules, or to names that are no graph's. -/
def Inward (t : LoadedStore Origin) (g : GraphId) : Prop :=
  ∀ id request name, graphOf id = some g → t.store.resolutions id request = some name →
    graphOf name = none ∨ graphOf name = some g

/-- The modules of graph `g` have the sources and the imports they had in `old`, unless the graph is
removed. -/
structure KeepsLinks (old : LoadedStore Origin) (g : GraphId) (t : LoadedStore Origin) : Prop where
  owned : t.Owned
  used : g ∈ t.used
  loaded : t.modules g ≠ [] →
    t.modules g = old.modules g ∧ ∀ id, graphOf id = some g →
      t.store.sources id = old.store.sources id ∧
        ∀ request, t.store.resolutions id request = old.store.resolutions id request

theorem KeepsLinks.next {old : LoadedStore Origin} (h : old.KeepsLinks g t) (hinward : old.Inward g)
    (hallowed : t.Allowed event) (hapart : event.HostsApart) : old.KeepsLinks g (t.next event) := by
  rcases h.owned.next_cases hallowed h.used with ⟨rfl, hne⟩ | ⟨hmodules, hleaves⟩
  · have hremoved : (t.next (.removeModules (t.modules g))).modules g = [] := if_pos rfl
    exact ⟨h.owned.next hallowed, h.used, fun hloaded => absurd hremoved hloaded⟩
  · refine ⟨h.owned.next hallowed, used_next h.used, fun hloaded => ?_⟩
    rw [hmodules] at hloaded ⊢
    obtain ⟨hsame, hlinks⟩ := h.loaded hloaded
    refine ⟨hsame, fun id hid => ?_⟩
    obtain ⟨hsource, hresolutions⟩ := hlinks id hid
    constructor
    · rw [(hleaves id hid).source hapart, hsource]
    · intro request
      rw [(hleaves id hid).resolution request, hresolutions request]
      intro name hname
      rw [hresolutions request] at hname
      rw [hid]
      exact hinward id request name hid hname

theorem keepsLinks_of_runs {events : List (StoreEvent Origin)} (hruns : t.RunsApart events t')
    (h : t.Owned) (hused : g ∈ t.used) (hinward : t.Inward g) : t.KeepsLinks g t' := by
  refine hruns.invariant (fun u event u' hu hstep => ?_)
    ⟨h, hused, fun _ => ⟨rfl, fun _ _ => ⟨rfl, fun _ => rfl⟩⟩⟩
  obtain ⟨⟨hallowed, hapart⟩, rfl⟩ := hstep
  exact hu.next hinward hallowed hapart

/-- The imports of a project that is inserted lead inward, where those that lead outside it lead to
host modules. -/
theorem inward_inserted {entry : Text} {modules : List (CompiledModule Origin)} (h : t.Owned)
    (hallowed : t.Allowed (.insertProject entry modules g)) (hapart : ModuleStore.ImportsApart modules)
    {graph : RuntimeModuleGraph} {store : ModuleStore Origin}
    (hinsert : t.store.insertProject entry modules g = .ok (graph, store)) :
    (t.addGraph graph store).Inward g := by
  obtain ⟨-, -, -, rfl⟩ := ModuleStore.insertProject_eq_ok hinsert
  intro id request name hid hname
  rcases ModuleStore.insertProjectModules_resolved hname with hold | ⟨m, hm, -, r, hr, rfl⟩
  · obtain ⟨k, hk, hof⟩ := h.resolutions (Option.ne_none_iff_exists'.mpr ⟨name, hold⟩)
    rw [hid] at hof
    exact absurd (Option.some.inj hof ▸ hk) hallowed.2
  · rcases @ModuleStore.runtimeIdOf_getD Origin g modules r.2 with hown | ⟨hout, hnot⟩
    · rw [hown]
      exact .inr (graphOf_runtimeModuleId hallowed.1 r.2)
    · rw [hout]
      exact .inl (hapart m hm r hr hnot)

end LoadedStore

end RustTS.Runner.ModuleLoader
