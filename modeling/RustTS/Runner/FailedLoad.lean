import RustTS.Lib.Transition
import RustTS.Runner.LifecycleFrame
import RustTS.Runner.ModuleLoader.Removal

/-! What a failed load leaves behind. Graph ids are never used twice, so the entries a load
makes for its graph are all its own, and taking them away restores the engine. -/
namespace RustTS.Runner
open ModuleLoader Compiler

variable {Live Origin T : Type}

/-- Host modules none of which has the name of a graph's module. -/
def HostModules.NamesApart (modules : HostModules) : Prop :=
  ∀ name, modules.globals name ≠ none → graphOf name = none

namespace LifecycleCall

/-- The script a call is about. -/
def id : LifecycleCall Live Origin T → ScriptId
  | .inline _ id _ _ _ => id
  | .project _ id _ _ _ _ _ => id
  | .unload id _ _ _ => id

/-- The host modules a load installs, when the registry gave them. -/
def hostModules : LifecycleCall Live Origin T → Option HostModules
  | .inline _ _ _ modules _ => modules.toOption
  | .project _ _ _ _ _ modules _ => modules.toOption
  | .unload _ _ _ _ => none

/-- No module from outside a graph, registered by the host or imported by a project, has
the name of a graph's module. -/
def NamesApart : LifecycleCall Live Origin T → Prop
  | .inline _ _ _ modules _ => ∀ m, modules = .ok m → m.NamesApart
  | .project _ _ _ _ transpiled modules _ =>
    (∀ m, modules = .ok m → m.NamesApart) ∧
      ∀ p, transpiled = .ok p → ModuleStore.ImportsApart p.modules
  | .unload _ _ _ _ => True

end LifecycleCall

/-- What the JavaScript of a load changed by the time the load failed: before any stage, in
the stage of the hook `ctx.hot.save`, or in that of the mount too. -/
def LoadRun.effects (run : LoadRun Live T) (loaded : Bool) : List (ScriptId → Live → Live) :=
  let saved := if loaded then run.save.stage.live else fun _ live => live
  [fun _ live => live, saved, fun id live => run.mount.stage.live id (saved id live)]

def LifecycleCall.effects (call : LifecycleCall Live Origin T) (loaded : Bool) :
    List (ScriptId → Live → Live) :=
  match call with
  | .inline _ _ _ _ run => run.effects loaded
  | .project _ _ _ _ _ _ run => run.effects loaded
  | .unload _ _ _ _ => [fun _ live => live]

/-- A step of an engine's life: a load, reload or unload, any other operation, which runs
JavaScript and leaves a new earliest due time, or a script's files taken as seen. -/
inductive EngineStep (Live Origin T : Type)
  | call (call : LifecycleCall Live Origin T)
  | operate (stage : Stage Live T) (earliest : T)
  | restamp (id : ScriptId) (stamped : WatchedFiles → WatchedFiles)

def EngineStep.NamesApart : EngineStep Live Origin T → Prop
  | .call c => c.NamesApart
  | _ => True

/-- Performs the step, whatever its outcome. -/
def EngineStep.next [Min T] (e : Engine Live Origin T) : EngineStep Live Origin T → Engine Live Origin T
  | .call c => (c.run e).2
  | .operate stage earliest => { (e.enter.runStage stage).leave with earliestTimer := earliest }
  | .restamp id stamped =>
    { e with scripts := e.scripts.mapValues fun k script =>
        if k = id then { script with origin := { script.origin with
          project := script.origin.project.map fun p => { p with watched := stamped p.watched } } }
        else script }

/-- The entry of script `k` after a failed load of script `id`: its code may have changed it,
and a project's files may have grown by those the load looked at. -/
def EngineScript.afterFailedLoad (id : ScriptId) (change : ScriptId → Live → Live)
    (watched : WatchedFiles) (k : ScriptId) (script : EngineScript Live) : EngineScript Live :=
  { script with
    live := change k script.live
    origin := if k = id then script.origin.watch watched else script.origin }

theorem ScriptOrigin.watch_empty (origin : ScriptOrigin) :
    origin.watch ⟨IndexMap.empty⟩ = origin := by
  obtain ⟨keys, project⟩ := origin
  cases project <;> rfl

namespace Engine

/-- A state of an engine whose host modules have names of their own. -/
def Reachable [Min T] (e : Engine Live Origin T) : Prop :=
  ∃ timeout never steps, (∀ step ∈ steps, EngineStep.NamesApart step) ∧
    Transition.Run (fun e step e' => EngineStep.next e step = e') (Engine.new timeout never)
      steps e

/-- Every graph with an entry in the store or the environment table was numbered before. -/
structure Numbered (n : GraphId) (e : Engine Live Origin T) : Prop where
  next : e.nextGraphId = n
  store : e.store.NumberedBelow n
  envs : ∀ {k}, e.envs k ≠ none → k < n

theorem numbered_closed [Min T] (n : GraphId) :
    Closed (Numbered n : Engine Live Origin T → Prop) where
  enter h := ⟨h.next, h.store, h.envs⟩
  leave h := ⟨h.next, h.store, h.envs⟩
  ticks _ h := ⟨h.next, h.store, h.envs⟩
  runStage _ h := ⟨h.next, h.store, h.envs⟩
  scripts _ h := ⟨h.next, h.store, h.envs⟩
  groups _ h := ⟨h.next, h.store, h.envs⟩
  dropEnv k' h := ⟨h.next, h.store, fun {k} hk => by
    by_cases hkk : k = k'
    · exact absurd (by simp [hkk]) hk
    · exact h.envs (by simpa [hkk] using hk)⟩
  imported entry h := ⟨h.next, h.store.imported entry, h.envs⟩
  remove ids h := ⟨h.next, h.store.removeModules ids, h.envs⟩

private theorem numbered_closedUnder [Min T] {g n : GraphId} (hg : g < n) :
    ClosedUnder g (Numbered n : Engine Live Origin T → Prop) where
  toClosed := numbered_closed n
  saveEnv _ h := ⟨h.next, h.store, fun {k} hk => by
    by_cases hkg : k = g
    · exact hkg ▸ hg
    · exact h.envs (by simpa [hkg] using hk)⟩
  mark h := ⟨h.next, h.store.markGrouped hg, h.envs⟩

variable {n : GraphId} {e : Engine Live Origin T}

theorem Numbered.installHostModules (h : e.Numbered n) {modules : HostModules}
    (hm : modules.NamesApart) : (e.installHostModules modules).Numbered n :=
  ⟨h.next, (h.store.insertHostModules hm).insertGroupHostModules _, h.envs⟩

theorem Numbered.takeGraphId (h : e.Numbered n) : e.takeGraphId.Numbered (n + 1) :=
  ⟨congrArg (· + 1) h.next, h.store.mono (Nat.le_succ n),
    fun hk => Nat.lt_succ_of_lt (h.envs hk)⟩

theorem Numbered.insertGraph (h : e.Numbered n) {store : ModuleStore Origin}
    (hs : store.NumberedBelow (n + 1)) : (e.insertGraph store).Numbered (n + 1) :=
  ⟨h.takeGraphId.next, hs, h.takeGraphId.envs⟩

theorem Numbered.watchFailedAttempt (h : e.Numbered n) (id : ScriptId) (watched : WatchedFiles) :
    (e.watchFailedAttempt id watched).Numbered n := ⟨h.next, h.store, h.envs⟩

section
variable [Min T]

theorem Numbered.mountGraph {graph : RuntimeModuleGraph} (h : e.Numbered n)
    (hg : graph.graphId < n) (id : ScriptId) (origin : ScriptOrigin) (group : Option Text)
    (run : LoadRun Live T) : (e.mountGraph id graph origin group run).2.Numbered n :=
  (numbered_closedUnder hg).mountGraph id origin group run h

theorem Numbered.mountInline (h : e.Numbered n) (group : Option Text) (id : ScriptId)
    (transpiled : Except VmError (TranspiledScript Origin)) (modules : Except VmError HostModules)
    (run : LoadRun Live T) (hm : ∀ m, modules = .ok m → m.NamesApart) :
    ∃ n', (e.mountInline group id transpiled modules run).2.Numbered n' := by
  have hb : (e.requests run.before).Numbered n := ⟨h.next, h.store, h.envs⟩
  unfold Engine.mountInline
  cases transpiled with
  | error error => exact ⟨n, hb⟩
  | ok script =>
    cases modules with
    | error error => exact ⟨n, hb⟩
    | ok modules =>
      have hi := hb.installHostModules (hm modules rfl)
      have hs := ModuleStore.insertInline_numbered hi.store id script.js script.moduleOrigin
      rw [← hi.next] at hs
      exact ⟨n + 1, (hi.insertGraph (hi.next ▸ hs)).mountGraph (hi.next ▸ Nat.lt_succ_self n) _ _ _ _⟩

theorem Numbered.mountProject (h : e.Numbered n) (group : Option Text) (id : ScriptId)
    (entryPath : Text) (names : Except VmError Unit)
    (transpiled : Except ProjectFailure (TranspiledProject Origin))
    (modules : Except VmError HostModules) (run : LoadRun Live T)
    (hm : ∀ m, modules = .ok m → m.NamesApart)
    (hp : ∀ p, transpiled = .ok p → ModuleStore.ImportsApart p.modules) :
    ∃ n', (e.mountProject group id entryPath names transpiled modules run).2.Numbered n' := by
  have hb : (e.requests run.before).Numbered n := ⟨h.next, h.store, h.envs⟩
  unfold Engine.mountProject
  cases names with
  | error error => exact ⟨n, hb⟩
  | ok _ =>
    cases transpiled with
    | error failure => exact ⟨n, hb.watchFailedAttempt id failure.watched⟩
    | ok project =>
      cases modules with
      | error error => exact ⟨n, hb⟩
      | ok modules =>
        have hi := hb.installHostModules (hm modules rfl)
        dsimp only
        split
        · exact ⟨n + 1, hi.takeGraphId⟩
        · next graph store hins =>
          rw [hi.next] at hins
          obtain ⟨hgraph, -, -, rfl⟩ := ModuleStore.insertProject_eq_ok hins
          have hs := ModuleStore.insertProjectModules_numbered (hp project rfl)
            (List.Subset.refl _) hi.takeGraphId.store
          exact ⟨n + 1, (hi.insertGraph hs).mountGraph (hgraph ▸ Nat.lt_succ_self n) _ _ _ _⟩

theorem Numbered.step (h : e.Numbered n) (step : EngineStep Live Origin T)
    (hs : step.NamesApart) : ∃ n', (step.next e).Numbered n' := by
  cases step with
  | call c =>
    cases c with
    | inline group id transpiled modules run =>
      obtain ⟨n', h'⟩ := h.mountInline group id transpiled modules run hs
      exact ⟨n', h'.next, h'.store, h'.envs⟩
    | project group id path names transpiled modules run =>
      obtain ⟨n', h'⟩ := h.mountProject group id path names transpiled modules run hs.1 hs.2
      exact ⟨n', h'.next, h'.store, h'.envs⟩
    | unload id before run after =>
      have h' := (numbered_closed n).unloadScript id before run h
      exact ⟨n, h'.next, h'.store, h'.envs⟩
  | operate stage earliest => exact ⟨n, h.next, h.store, h.envs⟩
  | restamp id stamped => exact ⟨n, h.next, h.store, h.envs⟩

end

/-- `e'` is `e` after JavaScript changed the entries of the loaded scripts, and a graph with
modules `ids` was given entries in the store. -/
structure Kept (g : GraphId) (ids : List Text) (change : ScriptId → Live → Live)
    (e e' : Engine Live Origin T) : Prop where
  scripts : e'.scripts = e.scripts.mapValues fun k script =>
    { script with live := change k script.live }
  groups : e'.groups = e.groups
  envs : e'.envs = e.envs
  nextGraphId : e'.nextGraphId = e.nextGraphId
  store : ModuleStore.Extends g ids e.store e'.store

variable {g : GraphId} {ids : List Text} {e' e'' : Engine Live Origin T}

theorem Kept.refl (g : GraphId) (ids : List Text) (e : Engine Live Origin T) :
    Kept g ids (fun _ live => live) e e :=
  ⟨(IndexMap.mapValues_id _).symm, rfl, rfl, rfl, .refl g ids e.store⟩

theorem Kept.trans {change change' : ScriptId → Live → Live} (h : Kept g ids change e e')
    (h' : Kept g ids change' e' e'') :
    Kept g ids (fun k live => change' k (change k live)) e e'' where
  scripts := by rw [h'.scripts, h.scripts, IndexMap.mapValues_mapValues]
  groups := h'.groups.trans h.groups
  envs := h'.envs.trans h.envs
  nextGraphId := h'.nextGraphId.trans h.nextGraphId
  store := h.store.trans h'.store

theorem runStage_scripts [Min T] (stage : Stage Live T) (h : e'.scripts = e.scripts) :
    (e'.runStage stage).scripts = e.scripts.mapValues fun k script =>
      { script with live := stage.live k script.live } := by
  simp only [runStage, h]

theorem target_frame (group : Option Text) (run : MountRun Live T) (e : Engine Live Origin T) :
    (e.target group run).2.scripts = e.scripts ∧ (e.target group run).2.store = e.store ∧
      (e.target group run).2.envs = e.envs ∧
      (e.target group run).2.nextGraphId = e.nextGraphId := by
  unfold target
  cases group.bind e.groups with
  | some existing => exact ⟨rfl, rfl, rfl, rfl⟩
  | none =>
    cases run.context with
    | error error => exact ⟨rfl, rfl, rfl, rfl⟩
    | ok context =>
      cases hp : run.prelude with
      | error error => exact ⟨rfl, rfl, rfl, rfl⟩
      | ok prelude => cases group <;> exact ⟨rfl, rfl, rfl, rfl⟩

theorem target_error {group : Option Text} {run : MountRun Live T} {error : VmError}
    (h : e.target group run = (.error error, e')) : e'.groups = e.groups := by
  unfold target at h
  split at h
  · cases h
  · split at h
    · cases h
      rfl
    · dsimp only at h
      split at h
      · cases h
        rfl
      · cases h

/-- Dropping the group that finding the target created restores the groups. -/
theorem target_ok {group : Option Text} {run : MountRun Live T} {t : Target}
    (h : e.target group run = (.ok t, e')) :
    removeGroup (group.filter fun _ => group.any fun name => (e.groups name).isNone) e'.groups =
      e.groups := by
  unfold target at h
  cases group with
  | none =>
    dsimp only [Option.bind_none] at h
    split at h
    · cases h
    · split at h
      · cases h
      · cases h
        rfl
  | some name =>
    dsimp only [Option.bind_some] at h
    cases hg : e.groups name with
    | some existing =>
      rw [hg] at h
      cases h
      simp [hg, removeGroup]
    | none =>
      rw [hg] at h
      dsimp only at h
      split at h
      · cases h
      · split at h
        · cases h
        · cases h
          have hu : Function.update e.groups name none = e.groups :=
            Function.update_eq_self_iff.mpr hg.symm
          simp [hg, onExecution, removeGroup, Option.filter_some, hu]

theorem markGraph_frame (graph : RuntimeModuleGraph) (group : Option Text)
    (e : Engine Live Origin T) :
    (e.markGraph graph group).scripts = e.scripts ∧ (e.markGraph graph group).groups = e.groups ∧
      (e.markGraph graph group).envs = e.envs ∧
      (e.markGraph graph group).nextGraphId = e.nextGraphId ∧
      ∀ ids, ModuleStore.Extends graph.graphId ids e.store (e.markGraph graph group).store := by
  unfold markGraph
  split
  · exact ⟨rfl, rfl, rfl, rfl, fun ids => (ModuleStore.Extends.refl _ ids _).markGrouped⟩
  · exact ⟨rfl, rfl, rfl, rfl, fun ids => .refl _ ids _⟩

theorem importEntry_frame (graph : RuntimeModuleGraph) (group : Option Text)
    (run : MountRun Live T) (e : Engine Live Origin T) (ht : e.store.hostImport = none) :
    (e.importEntry graph group run).2.scripts = e.scripts ∧
      (e.importEntry graph group run).2.groups = e.groups ∧
      (e.importEntry graph group run).2.nextGraphId = e.nextGraphId ∧
      Function.update (e.importEntry graph group run).2.envs graph.graphId none =
        Function.update e.envs graph.graphId none ∧
      ∀ ids, ModuleStore.Extends graph.graphId ids e.store
        (e.importEntry graph group run).2.store := by
  unfold importEntry
  cases run.env with
  | error error => exact ⟨rfl, rfl, rfl, rfl, fun ids => .refl _ ids _⟩
  | ok made =>
    have hs ids := (ModuleStore.Extends.refl graph.graphId ids e.store).imported ht
      graph.entryModuleId
    cases group with
    | none => exact ⟨rfl, rfl, rfl, rfl, hs⟩
    | some name => exact ⟨rfl, rfl, rfl, Function.update_idem _ _ _, hs⟩

/-- `e'` is `e` after a failed load of script `id`, with `store` for its store. -/
structure Restored (id : ScriptId) (changes : List (ScriptId → Live → Live))
    (store : ModuleStore Origin) (e e' : Engine Live Origin T) : Prop where
  scripts : ∃ change ∈ changes, ∃ watched,
    e'.scripts = e.scripts.mapValues (EngineScript.afterFailedLoad id change watched)
  groups : e'.groups = e.groups
  envs : e'.envs = e.envs
  store : e'.store = store

theorem Restored.of_scripts_eq {id : ScriptId} {changes : List (ScriptId → Live → Live)}
    {store : ModuleStore Origin} (hc : (fun _ live => live) ∈ changes)
    (hscripts : e'.scripts = e.scripts) (hgroups : e'.groups = e.groups)
    (henvs : e'.envs = e.envs) (hstore : e'.store = store) : Restored id changes store e e' := by
  refine ⟨⟨_, hc, ⟨IndexMap.empty⟩, ?_⟩, hgroups, henvs, hstore⟩
  have hid : EngineScript.afterFailedLoad id (fun _ (live : Live) => live) ⟨IndexMap.empty⟩ =
      fun _ script => script := by
    funext k script
    simp [EngineScript.afterFailedLoad, ScriptOrigin.watch_empty]
  rw [hscripts, hid, IndexMap.mapValues_id]

theorem Restored.of_watchFailedAttempt (id : ScriptId) (e e' : Engine Live Origin T)
    {changes : List (ScriptId → Live → Live)}
    {change : ScriptId → Live → Live} (hc : change ∈ changes)
    (hscripts : e'.scripts = e.scripts.mapValues fun k script =>
      { script with live := change k script.live })
    (hgroups : e'.groups = e.groups) (henvs : e'.envs = e.envs) (watched : WatchedFiles) :
    Restored id changes e'.store e (e'.watchFailedAttempt id watched) := by
  refine ⟨⟨change, hc, watched, ?_⟩, hgroups, henvs, rfl⟩
  unfold watchFailedAttempt
  dsimp only
  rw [hscripts, IndexMap.mapValues_mapValues]
  congr 1
  funext k script
  unfold EngineScript.afterFailedLoad
  split_ifs <;> rfl

theorem Kept.discardGraph {graph : RuntimeModuleGraph} {store : ModuleStore Origin}
    {changes : List (ScriptId → Live → Live)} {change : ScriptId → Live → Live}
    (h : Kept graph.graphId graph.moduleIds change e e') (hc : change ∈ changes)
    (hx : ModuleStore.Extends graph.graphId graph.moduleIds store e.store)
    (ha : ModuleStore.Absent graph.graphId graph.moduleIds store)
    (hids : ∀ id ∈ graph.moduleIds, graphOf id = some graph.graphId) (hne : graph.moduleIds ≠ [])
    (id : ScriptId) (origin : ScriptOrigin) :
    Restored id changes store e (e'.discardGraph id graph origin) := by
  have hstore := (hx.trans h.store).removeModules ha hids hne
  unfold Engine.discardGraph
  cases origin.project with
  | some project =>
    have hw := Restored.of_watchFailedAttempt id e
      { e' with store := e'.store.removeModules graph.moduleIds } hc h.scripts h.groups h.envs
      project.watched
    exact ⟨hw.scripts, hw.groups, hw.envs, hstore⟩
  | none =>
    refine ⟨⟨change, hc, ⟨IndexMap.empty⟩, h.scripts.trans ?_⟩, h.groups, h.envs, hstore⟩
    congr 1
    funext k script
    simp [EngineScript.afterFailedLoad, ScriptOrigin.watch_empty]

section
variable [Min T]

theorem runHook_kept (g : GraphId) (ids : List Text) (run : HookRun Live T)
    (e : Engine Live Origin T) : Kept g ids run.stage.live e (e.runHook run).2 :=
  ⟨rfl, rfl, rfl, rfl, .refl g ids e.store⟩

theorem saveHotData_kept (g : GraphId) (ids : List Text) (id : ScriptId) (run : HookRun Live T)
    (e : Engine Live Origin T) :
    Kept g ids (if (e.scripts.get? id).isSome then run.stage.live else fun _ live => live) e
      (e.saveHotData id run).2 := by
  have hr := runHook_kept g ids run e
  unfold saveHotData
  cases e.scripts.get? id with
  | none => exact .refl g ids e
  | some _ =>
    dsimp only
    generalize e.runHook run = r at hr ⊢
    obtain ⟨outcome, e'⟩ := r
    cases outcome <;> exact hr

/-- A mount that fails leaves its marks in the store only. -/
theorem mount_err {graph : RuntimeModuleGraph} {group : Option Text} {run : MountRun Live T}
    {error : VmError} (h : e.mount graph group run = (.err error, e'))
    (ht : e.store.hostImport = none) (hv : e.envs graph.graphId = none) (ids : List Text) :
    Kept graph.graphId ids run.stage.live e e' := by
  have hf := target_frame group run e.enter
  unfold mount at h
  dsimp only at h
  cases hr : e.enter.target group run with
  | mk target e₁ =>
    rw [hr] at h hf
    obtain ⟨hscripts, hstore, henvs, hnext⟩ : e₁.scripts = e.scripts ∧ e₁.store = e.store ∧
      e₁.envs = e.envs ∧ e₁.nextGraphId = e.nextGraphId := hf
    have hx : ModuleStore.Extends graph.graphId ids e.store e₁.store :=
      hstore ▸ ModuleStore.Extends.refl _ _ _
    cases target with
    | error failure =>
      have hg := target_error hr
      obtain rfl : e' = (e₁.runStage run.stage).leave := (congrArg Prod.snd h).symm
      exact ⟨runStage_scripts run.stage hscripts, hg, henvs, hnext, hx⟩
    | ok t =>
      have hg := target_ok hr
      obtain ⟨hms, hmg, hme, hmn, hmx⟩ := markGraph_frame graph group e₁
      have hi := importEntry_frame graph group run ((e₁.markGraph graph group).runStage run.stage)
        ((hmx ids).hostImport.trans (hstore ▸ ht))
      dsimp only at h
      generalize ((e₁.markGraph graph group).runStage run.stage).importEntry graph group run = r
        at h hi
      obtain ⟨imported, e₂⟩ := r
      obtain ⟨his, hig, hin, hie, hix⟩ := hi
      dsimp only at h
      generalize hfin : e₂.finish run.settling imported = r at h
      obtain ⟨outcome, e₃⟩ := r
      obtain rfl : e₃ = e₂.leave := (congrArg Prod.snd hfin).symm
      cases outcome with
      | ok made => cases h
      | panicked => cases h
      | err failure =>
        obtain rfl : e' = e₂.leave.unmount graph group _ := (congrArg Prod.snd h).symm
        have hscripts' := his.trans (runStage_scripts run.stage (hms.trans hscripts))
        have henvs' : Function.update e₂.envs graph.graphId none = e.envs := by
          rw [hie]
          exact (congrArg (Function.update · graph.graphId none) (hme.trans henvs)).trans
            (Function.update_eq_self_iff.mpr hv.symm)
        have hgroups : e₂.groups = e₁.groups := hig.trans hmg
        refine ⟨hscripts', ?_, henvs', hin.trans (hmn.trans hnext),
          hx.trans ((hmx ids).trans (hix ids))⟩
        exact (congrArg (removeGroup _) hgroups).trans hg

theorem retire_ne_err (script : EngineScript Live) (run : HookRun Live T) (error : VmError) :
    (e.retire script run).1 ≠ .err error := by
  unfold retire
  dsimp only
  generalize e.runHook run = r
  obtain ⟨outcome, e₁⟩ := r
  cases outcome <;> simp

/-- A version that is mounted is swapped in, whatever its predecessor's hooks do. -/
theorem replaceScript_ne_err (id : ScriptId) (script : EngineScript Live) (run : HookRun Live T)
    (error : VmError) : (e.replaceScript id script run).1 ≠ .err error := by
  unfold replaceScript
  dsimp only
  cases e.scripts.get? id with
  | none => simp
  | some previous =>
    have hr := retire_ne_err (e := { e with scripts := e.scripts.insert id script }) previous run
    dsimp only
    generalize retire previous run { e with scripts := e.scripts.insert id script } = r at hr ⊢
    obtain ⟨outcome, e₁⟩ := r
    cases outcome with
    | ok disposed => simp
    | err failure => exact absurd rfl (hr failure)
    | panicked => simp

/-- A graph whose version does not mount is gone again, and everything else is back. -/
theorem mountGraph_err {graph : RuntimeModuleGraph} {store : ModuleStore Origin} {id : ScriptId}
    {origin : ScriptOrigin} {group : Option Text} {run : LoadRun Live T} {error : VmError}
    (h : e.mountGraph id graph origin group run = (.err error, e'))
    (hx : ModuleStore.Extends graph.graphId graph.moduleIds store e.store)
    (ha : ModuleStore.Absent graph.graphId graph.moduleIds store)
    (hids : ∀ id ∈ graph.moduleIds, graphOf id = some graph.graphId) (hne : graph.moduleIds ≠ [])
    (ht : store.hostImport = none) (hv : e.envs graph.graphId = none) :
    Restored id (run.effects (e.scripts.get? id).isSome) store e e' := by
  have hs := saveHotData_kept graph.graphId graph.moduleIds id run.save e
  unfold mountGraph at h
  generalize e.saveHotData id run.save = r at h hs
  obtain ⟨saved, e₁⟩ := r
  cases saved with
  | panicked => cases h
  | err failure =>
    cases h
    exact hs.discardGraph (by simp [LoadRun.effects]) hx ha hids hne id origin
  | ok data =>
    dsimp only at h
    generalize hm : (e₁.requests run.afterSave).mount graph group run.mount = r at h
    obtain ⟨mounted, e₂⟩ := r
    cases mounted with
    | panicked => cases h
    | ok mounted => exact absurd (congrArg Prod.fst h) (replaceScript_ne_err _ _ _ error)
    | err failure =>
      cases h
      have ht₁ : (e₁.requests run.afterSave).store.hostImport = none :=
        (hs.store.hostImport.trans hx.hostImport).trans ht
      have hk := mount_err hm ht₁ (hs.envs ▸ hv) graph.moduleIds
      have hk' : Kept graph.graphId graph.moduleIds run.mount.stage.live e₁ e₂ :=
        ⟨hk.scripts, hk.groups, hk.envs, hk.nextGraphId, hk.store⟩
      exact (hs.trans hk').discardGraph (by simp [LoadRun.effects]) hx ha hids hne id origin

theorem Reachable.numbered (h : e.Reachable) : e.Numbered e.nextGraphId := by
  obtain ⟨timeout, never, steps, hs, hrun⟩ := h
  have hn : ∃ n, e.Numbered n := by
    revert hs
    refine hrun.history (P := fun steps e => (∀ step ∈ steps, EngineStep.NamesApart step) →
      ∃ n, e.Numbered n) (fun _ => ⟨0, rfl, .empty 0, fun h => absurd rfl h⟩) ?_
    intro steps e step e' ih hstep hs
    obtain ⟨n, hn⟩ := ih fun s hmem => hs s (List.mem_append_left _ hmem)
    exact hstep ▸ hn.step step (hs step (List.mem_append_right _ List.mem_cons_self))
  obtain ⟨n, hn⟩ := hn
  exact hn.next ▸ hn

end

end Engine

/-- `e'` is `e` after `call` failed: the JavaScript that ran may have changed the entries of
the loaded scripts, the host modules may be installed, and nothing of the call's own graph
is there. -/
structure LeftAsItWas [Min T] (call : LifecycleCall Live Origin T) (e e' : Engine Live Origin T) :
    Prop where
  scripts : ∃ change ∈ call.effects (e.scripts.get? call.id).isSome, ∃ watched,
    e'.scripts = e.scripts.mapValues (EngineScript.afterFailedLoad call.id change watched)
  groups : e'.groups = e.groups
  envs : e'.envs = e.envs
  store : e'.store = e.store ∨ ∃ modules ∈ call.hostModules, e'.store =
    (e.store.insertHostModules modules.globals).insertGroupHostModules modules.env
  discarded : ∀ ids, (∀ id ∈ ids, graphOf id = some e.nextGraphId) →
    e'.store.Absent e.nextGraphId ids

section
variable [Min T] {e e' : Engine Live Origin T}
open Engine

theorem LeftAsItWas.of_restored {call : LifecycleCall Live Origin T} {store : ModuleStore Origin}
    (h : Restored call.id (call.effects (e.scripts.get? call.id).isSome) store e e')
    (hs : store = e.store ∨ ∃ modules ∈ call.hostModules, store =
      (e.store.insertHostModules modules.globals).insertGroupHostModules modules.env)
    (hn : store.NumberedBelow e.nextGraphId) : LeftAsItWas call e e' :=
  ⟨h.scripts, h.groups, h.envs, h.store.symm ▸ hs, fun _ hids => h.store.symm ▸ hn.absent hids⟩

theorem unloadScript_err {id : ScriptId} {before : Nat} {run : HookRun Live T} {error : VmError}
    (h : e.unloadScript id before run = (.err error, e')) : e' = e.requests before := by
  unfold unloadScript at h
  dsimp only at h
  split at h
  · exact (congrArg Prod.snd h).symm
  · next script hscript =>
    have hr := retire_ne_err (e := { e.requests before with
      scripts := (e.requests before).scripts.erase id }) script run
    generalize retire script run { e.requests before with
      scripts := (e.requests before).scripts.erase id } = r at h hr
    obtain ⟨outcome, e₁⟩ := r
    cases outcome with
    | ok disposed => cases h
    | err failure => exact absurd rfl (hr failure)
    | panicked => cases h

theorem mountInline_left {group : Option Text} {id : ScriptId}
    {transpiled : Except VmError (TranspiledScript Origin)} {modules : Except VmError HostModules}
    {run : LoadRun Live T} {error : VmError} (hn : e.Numbered e.nextGraphId)
    (hmax : e.nextGraphId ≤ u64Max)
    (hc : (LifecycleCall.inline group id transpiled modules run).NamesApart)
    (h : e.mountInline group id transpiled modules run = (.err error, e')) :
    LeftAsItWas (.inline group id transpiled modules run) e e' := by
  unfold mountInline at h
  cases transpiled with
  | error failure =>
    cases h
    exact .of_restored (.of_scripts_eq (by simp [LifecycleCall.effects, LoadRun.effects]) rfl rfl rfl
      rfl) (.inl rfl) hn.store
  | ok script =>
    cases modules with
    | error failure =>
      cases h
      exact .of_restored (.of_scripts_eq (by simp [LifecycleCall.effects, LoadRun.effects]) rfl rfl
        rfl rfl) (.inl rfl) hn.store
    | ok modules =>
      have hi := hn.installHostModules (hc modules rfl)
      have hids : ∀ id' ∈ [runtimeModuleId e.nextGraphId id],
          graphOf id' = some e.nextGraphId := by
        intro id' hid'
        rw [List.mem_singleton.mp hid', graphOf_runtimeModuleId hmax]
      have henv : e.envs e.nextGraphId = none := by
        by_contra hne
        exact absurd (hn.envs hne) (Nat.lt_irrefl _)
      have hr := mountGraph_err h (ModuleStore.insertInline_extends _ id script.js
        script.moduleOrigin _) (hi.store.absent hids) hids (by simp) hi.store.hostImport henv
      exact .of_restored ⟨hr.scripts, hr.groups, hr.envs, hr.store⟩ (.inr ⟨modules, rfl, rfl⟩) hi.store

theorem mountProject_left {group : Option Text} {id : ScriptId} {entryPath : Text}
    {names : Except VmError Unit}
    {transpiled : Except ProjectFailure (TranspiledProject Origin)}
    {modules : Except VmError HostModules} {run : LoadRun Live T} {error : VmError}
    (hn : e.Numbered e.nextGraphId) (hmax : e.nextGraphId ≤ u64Max)
    (hc : (LifecycleCall.project group id entryPath names transpiled modules run).NamesApart)
    (h : e.mountProject group id entryPath names transpiled modules run = (.err error, e')) :
    LeftAsItWas (.project group id entryPath names transpiled modules run) e e' := by
  have hfirst : (fun _ live => live) ∈
      run.effects (e.scripts.get? id).isSome := by simp [LoadRun.effects]
  unfold mountProject at h
  cases names with
  | error failure =>
    cases h
    exact .of_restored (.of_scripts_eq hfirst rfl rfl rfl rfl) (.inl rfl) hn.store
  | ok _ =>
    cases transpiled with
    | error failure =>
      cases h
      have hw := Restored.of_watchFailedAttempt id e (e.requests run.before) hfirst
        (IndexMap.mapValues_id _).symm rfl rfl failure.watched
      exact .of_restored hw (.inl rfl) hn.store
    | ok project =>
      cases modules with
      | error failure =>
        cases h
        exact .of_restored (.of_scripts_eq hfirst rfl rfl rfl rfl) (.inl rfl) hn.store
      | ok modules =>
        have hi := hn.installHostModules (hc.1 modules rfl)
        dsimp only at h
        split at h
        · cases h
          exact .of_restored (.of_scripts_eq hfirst rfl rfl rfl rfl) (.inr ⟨modules, rfl, rfl⟩)
            hi.store
        · next graph store hins =>
          obtain ⟨hgraph, hmodules, hne, rfl⟩ := ModuleStore.insertProject_eq_ok hins
          have hids : ∀ id' ∈ graph.moduleIds, graphOf id' = some graph.graphId := by
            intro id' hid'
            rw [hmodules, ModuleStore.mem_projectIds] at hid'
            obtain ⟨m, -, rfl⟩ := hid'
            rw [hgraph]
            exact graphOf_runtimeModuleId hmax _
          have hsome : graph.moduleIds ≠ [] := by
            obtain ⟨m, hm⟩ := List.exists_mem_of_ne_nil _ hne
            exact List.ne_nil_of_mem (hmodules ▸ ModuleStore.mem_projectIds.mpr ⟨m, hm, rfl⟩)
          have henv : e.envs graph.graphId = none := by
            by_contra hne
            exact absurd (hgraph ▸ hn.envs hne) (Nat.lt_irrefl _)
          have hx := ModuleStore.insertProject_extends hins
          have hgraph' : graph.graphId = e.nextGraphId := hgraph
          have ha : ModuleStore.Absent graph.graphId graph.moduleIds
              (e.installHostModules modules).store := by
            rw [hgraph'] at hids ⊢
            exact hi.store.absent hids
          have hr := mountGraph_err h hx ha hids hsome hi.store.hostImport henv
          exact .of_restored ⟨hr.scripts, hr.groups, hr.envs, hr.store⟩ (.inr ⟨modules, rfl, rfl⟩)
            hi.store

/-- A failed load leaves the engine as it was, up to what the JavaScript the load ran did to
the entries of the loaded scripts. -/
theorem LifecycleCall.leftAsItWas {call : LifecycleCall Live Origin T} {error : VmError}
    (hr : e.Reachable) (hmax : e.nextGraphId ≤ u64Max) (hc : call.NamesApart)
    (h : call.run e = (.err error, e')) : LeftAsItWas call e e' := by
  have hn := hr.numbered
  cases call with
  | inline group id transpiled modules run =>
    cases hm : e.mountInline group id transpiled modules run with
    | mk outcome e₁ =>
      have hrun : (outcome, e₁.requests run.after) = (.err error, e') := by
        simpa only [LifecycleCall.run, hm] using h
      cases hrun
      have hl := mountInline_left hn hmax hc hm
      exact ⟨hl.scripts, hl.groups, hl.envs, hl.store, hl.discarded⟩
  | project group id path names transpiled modules run =>
    cases hm : e.mountProject group id path names transpiled modules run with
    | mk outcome e₁ =>
      have hrun : (outcome, e₁.requests run.after) = (.err error, e') := by
        simpa only [LifecycleCall.run, hm] using h
      cases hrun
      have hl := mountProject_left hn hmax hc hm
      exact ⟨hl.scripts, hl.groups, hl.envs, hl.store, hl.discarded⟩
  | unload id before run after =>
    cases hm : e.unloadScript id before run with
    | mk outcome e₁ =>
      have hrun : (outcome, e₁.requests after) = (.err error, e') := by
        simpa only [LifecycleCall.run, hm] using h
      cases hrun
      obtain rfl := unloadScript_err hm
      exact .of_restored (.of_scripts_eq (by simp [LifecycleCall.effects]) rfl rfl rfl rfl)
        (.inl rfl) hn.store

end

/-- A load of script `a` whose import gives `imported`, after its code turned the entries of
the loaded scripts into 1. The host registered the modules `globals`. -/
def sampleLoad (globals : Modules) (imported : Except VmError ObjectId) :
    LifecycleCall Nat Unit Nat :=
  .inline none ['a'] (.ok ⟨[], (), []⟩) (.ok ⟨globals, fun _ => none⟩)
    { before := 0
      save := .quiet []
      afterSave := 0
      mount := ⟨.ok 0, [], .ok 0, ⟨[], fun _ _ => 1, []⟩, .ok (0, 0), imported, 0, .quiet⟩
      afterMount := 0
      dispose := .quiet []
      after := 0 }

def noModules : Modules := fun _ => none

/-- An engine with script `a` loaded, as graph 0. -/
def engineWithScript : Engine Nat Unit Nat :=
  ((sampleLoad noModules (.ok 0)).run (Engine.new u64Max 0)).2

private theorem engineWithScript_reachable : engineWithScript.Reachable := by
  refine ⟨u64Max, 0, [.call (sampleLoad noModules (.ok 0))], ?_, .single rfl⟩
  intro step hstep
  rw [List.mem_singleton.mp hstep]
  intro m hm name hname
  cases hm
  exact absurd rfl hname

theorem leftAsItWas_sampleLoad :
    LeftAsItWas (sampleLoad noModules (.error .cancelled)) engineWithScript
      ((sampleLoad noModules (.error .cancelled)).run engineWithScript).2 := by
  have hrun : (sampleLoad noModules (.error .cancelled)).run engineWithScript =
      (.err .cancelled, ((sampleLoad noModules (.error .cancelled)).run engineWithScript).2) := rfl
  refine LifecycleCall.leftAsItWas engineWithScript_reachable (by decide) ?_ hrun
  intro m hm name hname
  cases hm
  exact absurd rfl hname

/-- The code of a version that does not mount changes the loaded version's entry; and host
modules replace a loaded module whose name one of them has. -/
theorem failed_load_changes_engine :
    let e := engineWithScript
    let hostNamed : Modules := fun name => if name = runtimeModuleId 0 ['a'] then some ['h'] else none
    let failed := (sampleLoad noModules (.error .cancelled)).run e
    let failed' := (sampleLoad hostNamed (.error .cancelled)).run e
    failed.1 = .err .cancelled ∧
      (failed.2.scripts.get? ['a']).map (·.live) ≠ (e.scripts.get? ['a']).map (·.live) ∧
      failed'.1 = .err .cancelled ∧
      failed'.2.store.sources (runtimeModuleId 0 ['a']) ≠
        e.store.sources (runtimeModuleId 0 ['a']) := by
  refine ⟨rfl, by decide, rfl, by decide⟩

end RustTS.Runner
