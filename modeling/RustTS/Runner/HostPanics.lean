import RustTS.Runner.Groups

/-! What a host function's panic leaves behind. A panic that is re-raised in a load, reload or
unload leaves before the clean-up of the stage it surfaced in, so one graph stays in the module
store whose version is not loaded, or not any more. -/
namespace RustTS.Runner
open ModuleLoader Compiler

variable {Live Origin T : Type}

/-- A graph and the ids of its modules. -/
abbrev Owner := GraphId × List Text

/-- Graphs numbered below `n`, apart from each other, each with modules in the store. -/
structure Owned (n : GraphId) (origins : Text → Option Origin) (owners : List Owner) : Prop where
  numbered : ∀ o ∈ owners, o.1 < n
  apart : (owners.map Prod.fst).Nodup
  nonempty : ∀ o ∈ owners, o.2 ≠ []
  ids : ∀ o ∈ owners, ∀ id ∈ o.2, ∃ moduleId, id = runtimeModuleId o.1 moduleId
  present : ∀ o ∈ owners, ∀ id ∈ o.2, origins id ≠ none

namespace Owned

variable {n : GraphId} {origins origins' : Text → Option Origin} {owners owners' : List Owner}
  {o : Owner}

theorem perm (h : Owned n origins owners) (hp : owners.Perm owners') : Owned n origins owners' where
  numbered o ho := h.numbered o (hp.mem_iff.mpr ho)
  apart := (hp.map Prod.fst).nodup_iff.mp h.apart
  nonempty o ho := h.nonempty o (hp.mem_iff.mpr ho)
  ids o ho := h.ids o (hp.mem_iff.mpr ho)
  present o ho := h.present o (hp.mem_iff.mpr ho)

theorem mono {n' : GraphId} (h : Owned n origins owners) (hn : n ≤ n') : Owned n' origins owners :=
  { h with numbered := fun o ho => Nat.lt_of_lt_of_le (h.numbered o ho) hn }

theorem tail (h : Owned n origins (o :: owners)) : Owned n origins owners where
  numbered o' ho := h.numbered o' (List.mem_cons_of_mem _ ho)
  apart := (List.nodup_cons.mp h.apart).2
  nonempty o' ho := h.nonempty o' (List.mem_cons_of_mem _ ho)
  ids o' ho := h.ids o' (List.mem_cons_of_mem _ ho)
  present o' ho := h.present o' (List.mem_cons_of_mem _ ho)

theorem not_mem (h : Owned n origins (o :: owners)) {id : Text} (hid : id ∈ o.2) :
    ∀ o' ∈ owners, id ∉ o'.2 := by
  intro o' ho' hid'
  obtain ⟨moduleId, rfl⟩ := h.ids o List.mem_cons_self id hid
  obtain ⟨moduleId', heq⟩ := h.ids o' (List.mem_cons_of_mem _ ho') _ hid'
  apply (List.nodup_cons.mp h.apart).1
  rw [eq_of_runtimeModuleId_eq heq]
  exact List.mem_map_of_mem ho'

theorem remove (h : Owned n origins (o :: owners))
    (horigins : ∀ id ∉ o.2, origins' id = origins id) : Owned n origins' owners :=
  { h.tail with
    present := fun o' ho' id hid => by
      have hout : id ∉ o.2 := fun hin => h.not_mem hin o' ho' hid
      rw [horigins id hout]
      exact h.tail.present o' ho' id hid }

/-- A graph of the next number comes in with its modules. -/
theorem insert {ids : List Text} (h : Owned n origins owners) (hne : ids ≠ [])
    (hids : ∀ id ∈ ids, ∃ moduleId, id = runtimeModuleId n moduleId)
    (hpresent : ∀ id ∈ ids, origins' id ≠ none)
    (horigins : ∀ id ∉ ids, origins' id = origins id) :
    Owned (n + 1) origins' ((n, ids) :: owners) where
  numbered o ho := by
    rcases List.mem_cons.mp ho with rfl | ho
    · exact Nat.lt_succ_self n
    · exact Nat.lt_succ_of_lt (h.numbered o ho)
  apart := by
    apply List.nodup_cons.mpr
    refine ⟨fun hn => ?_, h.apart⟩
    obtain ⟨o, ho, rfl⟩ := List.mem_map.mp hn
    exact absurd (h.numbered o ho) (Nat.lt_irrefl _)
  nonempty o ho := by
    rcases List.mem_cons.mp ho with rfl | ho
    · exact hne
    · exact h.nonempty o ho
  ids o ho := by
    rcases List.mem_cons.mp ho with rfl | ho
    · exact hids
    · exact h.ids o ho
  present o ho := by
    rcases List.mem_cons.mp ho with rfl | ho
    · exact hpresent
    · intro id hid
      by_cases hin : id ∈ ids
      · exact hpresent id hin
      · rw [horigins id hin]
        exact h.present o ho id hid

end Owned

def EngineScript.owner (script : EngineScript Live) : Owner := (script.graphId, script.moduleIds)

namespace Engine

/-- The loaded scripts own their graphs, next to graphs `others` whose scripts are not loaded. -/
def OwnedWith (others : List Owner) (e : Engine Live Origin T) : Prop :=
  Owned e.nextGraphId e.store.origins (others ++ e.scripts.values.map EngineScript.owner)

variable {e e' : Engine Live Origin T} {group : Option Text} {others : List Owner} {o : Owner}

theorem OwnedWith.of_eq (h : e.OwnedWith others) (hnext : e'.nextGraphId = e.nextGraphId)
    (horigins : e'.store.origins = e.store.origins)
    (hscripts : e'.scripts.values.map EngineScript.owner =
      e.scripts.values.map EngineScript.owner) : e'.OwnedWith others := by
  unfold OwnedWith
  rw [hnext, horigins, hscripts]
  exact h

/-- Everything the engine holds belongs to a loaded script. -/
structure Invariants (e : Engine Live Origin T) : Prop where
  groups : ∀ name, (e.groups name).isSome ↔ ∃ script ∈ e.scripts.values, script.group = some name
  counts : ∀ name g, e.groups name = some g →
    g.scripts = e.scripts.values.countP fun script => decide (script.group = some name)
  sources : ∀ name g, graphOf name = some g → e.store.sources name ≠ none →
    ∃ script ∈ e.scripts.values, script.graphId = g
  origins : ∀ name, e.store.origins name ≠ none →
    ∃ script ∈ e.scripts.values, name ∈ script.moduleIds
  resolutions : ∀ base request, e.store.resolutions base request ≠ none →
    ∃ script ∈ e.scripts.values, base ∈ script.moduleIds
  groupedGraphs : ∀ g, e.store.groupedGraphs g = true →
    ∃ script ∈ e.scripts.values, script.graphId = g
  envs : ∀ g, e.envs g ≠ none → ∃ script ∈ e.scripts.values, script.graphId = g

private theorem OwnedWith.not_invariants (h : e.OwnedWith [o]) : ¬e.Invariants := by
  intro hinv
  have howned : Owned _ _ (o :: e.scripts.values.map EngineScript.owner) := h
  obtain ⟨id, hid⟩ := List.exists_mem_of_ne_nil _ (howned.nonempty o List.mem_cons_self)
  obtain ⟨script, hscript, hmem⟩ := hinv.origins id (howned.present o List.mem_cons_self id hid)
  exact howned.not_mem hid script.owner (List.mem_map_of_mem hscript) hmem

/-- How a call leaves the graphs: with a panic, one has no loaded script; otherwise each has. -/
def Leaves {α : Type} (outcome : Outcome α) (e : Engine Live Origin T) : Prop :=
  match outcome with
  | .panicked => ∃ o, e.OwnedWith [o]
  | _ => e.OwnedWith []

theorem Leaves.loaded {α : Type} {outcome : Outcome α} (h : Leaves outcome e) : e.OwnedWith [] := by
  cases outcome with
  | panicked =>
    obtain ⟨o, ho⟩ := h
    have howned : Owned _ _ (o :: e.scripts.values.map EngineScript.owner) := ho
    exact howned.tail
  | ok value => exact h
  | err error => exact h

theorem OwnedWith.remove (h : e.OwnedWith [o]) (hnext : e'.nextGraphId = e.nextGraphId)
    (hstore : e'.store = e.store.removeModules o.2)
    (hscripts : e'.scripts.values.map EngineScript.owner =
      e.scripts.values.map EngineScript.owner) : e'.OwnedWith [] := by
  have howned : Owned _ _ (o :: e.scripts.values.map EngineScript.owner) := h
  unfold OwnedWith
  rw [hnext, hstore, hscripts]
  apply howned.remove
  intro id hid
  rw [ModuleStore.removeModules_origins, if_neg hid]

theorem OwnedWith.insertGraph {store : ModuleStore Origin} {ids : List Text} (h : e.OwnedWith [])
    (hne : ids ≠ []) (hids : ∀ id ∈ ids, ∃ moduleId, id = runtimeModuleId e.nextGraphId moduleId)
    (hpresent : ∀ id ∈ ids, store.origins id ≠ none)
    (horigins : ∀ id ∉ ids, store.origins id = e.store.origins id) :
    (e.insertGraph store).OwnedWith [(e.nextGraphId, ids)] :=
  Owned.insert h hne hids hpresent horigins

private theorem leaveGroup_store (group : Option Text) (e : Engine Live Origin T) :
    (e.leaveGroup group).store = e.store ∧ (e.leaveGroup group).nextGraphId = e.nextGraphId := by
  unfold leaveGroup
  cases group with
  | none => exact ⟨rfl, rfl⟩
  | some name =>
    dsimp only
    cases e.groups name <;> exact ⟨rfl, rfl⟩

private theorem joinGroup_store (group : Option Text) (e : Engine Live Origin T) :
    (e.joinGroup group).store = e.store ∧ (e.joinGroup group).nextGraphId = e.nextGraphId := by
  unfold joinGroup
  cases group with
  | none => exact ⟨rfl, rfl⟩
  | some name =>
    dsimp only
    cases e.groups name <;> exact ⟨rfl, rfl⟩

private theorem importEntry_store (graph : RuntimeModuleGraph) (group : Option Text)
    (run : MountRun Live T) (e : Engine Live Origin T) :
    (e.importEntry graph group run).2.store.origins = e.store.origins ∧
      (e.importEntry graph group run).2.nextGraphId = e.nextGraphId := by
  unfold importEntry
  cases run.env with
  | error error => exact ⟨rfl, rfl⟩
  | ok made => cases group <;> exact ⟨rfl, rfl⟩

section
variable [Min T]

theorem retire_leaves {script : EngineScript Live} {run : HookRun Live T} {outcome : Outcome Disposed}
    (h : e.OwnedWith [script.owner]) (hr : e.retire script run = (outcome, e')) :
    Leaves outcome e' := by
  have hk := runHook_kept 0 [] run e
  have hhook : (e.runHook run).2.OwnedWith [script.owner] :=
    h.of_eq hk.nextGraphId (funext fun id => hk.store.origins id List.not_mem_nil)
      (map_values_eq hk.scripts fun _ _ => rfl)
  unfold retire at hr
  dsimp only at hr
  generalize e.runHook run = r at hr hhook
  obtain ⟨hook, e₁⟩ := r
  have hrelease := leaveGroup_store script.group { e₁ with
    store := e₁.store.removeModules script.moduleIds
    envs := Function.update e₁.envs script.graphId none }
  have hscripts := leaveGroup_scripts script.group { e₁ with
    store := e₁.store.removeModules script.moduleIds
    envs := Function.update e₁.envs script.graphId none }
  cases hook with
  | panicked =>
    cases hr
    exact ⟨_, hhook⟩
  | ok value =>
    cases hr
    exact hhook.remove hrelease.2 hrelease.1 (by rw [hscripts])
  | err error =>
    cases hr
    exact hhook.remove hrelease.2 hrelease.1 (by rw [hscripts])

theorem replaceScript_leaves {id : ScriptId} (script : EngineScript Live) {run : HookRun Live T}
    {outcome : Outcome Disposed} (h : e.OwnedWith [script.owner])
    (hr : e.replaceScript id script run = (outcome, e')) : Leaves outcome e' := by
  have howned : Owned _ _ (script.owner :: e.scripts.values.map EngineScript.owner) := h
  unfold replaceScript at hr
  dsimp only at hr
  cases hp : e.scripts.get? id with
  | none =>
    rw [hp] at hr
    cases hr
    exact howned.perm ((IndexMap.values_insert_perm_of_not_mem script hp).map EngineScript.owner)
  | some previous =>
    rw [hp] at hr
    dsimp only at hr
    have hswapped : OwnedWith [previous.owner] { e with scripts := e.scripts.insert id script } :=
      howned.perm ((IndexMap.values_insert_perm hp).map EngineScript.owner)
    generalize hret : retire previous run { e with scripts := e.scripts.insert id script } = r at hr
    obtain ⟨retired, e₁⟩ := r
    have hleaves := retire_leaves hswapped hret
    cases retired <;> (cases hr; exact hleaves)

theorem mount_store (graph : RuntimeModuleGraph) (group : Option Text) (run : MountRun Live T)
    (e : Engine Live Origin T) : (e.mount graph group run).2.store.origins = e.store.origins ∧
      (e.mount graph group run).2.nextGraphId = e.nextGraphId := by
  obtain ⟨-, hstore, -, hnext⟩ := target_frame group run e.enter
  unfold mount
  dsimp only
  generalize e.enter.target group run = r at hstore hnext ⊢
  obtain ⟨target, e₁⟩ := r
  have horigins : e₁.store.origins = e.store.origins := congrArg ModuleStore.origins hstore
  cases target with
  | error error => exact ⟨horigins, hnext⟩
  | ok t =>
    obtain ⟨-, -, -, hmn, hmx⟩ := markGraph_frame graph group e₁
    have hi := importEntry_store graph group run ((e₁.markGraph graph group).runStage run.stage)
    dsimp only
    generalize ((e₁.markGraph graph group).runStage run.stage).importEntry graph group run = r
      at hi ⊢
    obtain ⟨imported, e₂⟩ := r
    have hmarked : (e₁.markGraph graph group).store.origins = e₁.store.origins :=
      funext fun id => (hmx []).origins id List.not_mem_nil
    have hresult : e₂.leave.store.origins = e.store.origins ∧
        e₂.leave.nextGraphId = e.nextGraphId :=
      ⟨hi.1.trans (hmarked.trans horigins), hi.2.trans (hmn.trans hnext)⟩
    dsimp only
    generalize hfin : e₂.finish run.settling imported = r
    obtain ⟨outcome, e₃⟩ := r
    obtain rfl : e₃ = e₂.leave := (congrArg Prod.snd hfin).symm
    cases outcome <;> exact hresult

theorem mountGraph_leaves {id : ScriptId} {graph : RuntimeModuleGraph} {origin : ScriptOrigin}
    {run : LoadRun Live T} {outcome : Outcome Disposed}
    (h : e.OwnedWith [(graph.graphId, graph.moduleIds)])
    (hm : e.mountGraph id graph origin group run = (outcome, e')) : Leaves outcome e' := by
  have hdiscard : ∀ e₁ : Engine Live Origin T, e₁.OwnedWith [(graph.graphId, graph.moduleIds)] →
      (e₁.discardGraph id graph origin).OwnedWith [] := by
    intro e₁ howned
    refine howned.remove ?_ ?_ (discardGraph_map (fun _ _ => rfl) id graph origin e₁)
    all_goals
      unfold discardGraph
      cases origin.project <;> rfl
  have hk := saveHotData_kept 0 [] id run.save e
  have hsaved : (e.saveHotData id run.save).2.OwnedWith [(graph.graphId, graph.moduleIds)] :=
    h.of_eq hk.nextGraphId (funext fun id => hk.store.origins id List.not_mem_nil)
      (map_values_eq hk.scripts fun _ _ => rfl)
  unfold mountGraph at hm
  generalize e.saveHotData id run.save = r at hsaved hm
  obtain ⟨saved, e₁⟩ := r
  cases saved with
  | panicked =>
    cases hm
    exact ⟨_, hsaved⟩
  | err failure =>
    cases hm
    exact hdiscard e₁ hsaved
  | ok data =>
    obtain ⟨horigins, hnext⟩ := mount_store graph group run.mount (e₁.requests run.afterSave)
    have hscripts := mount_scripts graph group run.mount (e₁.requests run.afterSave)
    have hmounted : ((e₁.requests run.afterSave).mount graph group run.mount).2.OwnedWith
        [(graph.graphId, graph.moduleIds)] :=
      hsaved.of_eq hnext horigins
        (map_values_eq (e := e₁.requests run.afterSave) hscripts fun _ _ => rfl)
    dsimp only at hm
    generalize (e₁.requests run.afterSave).mount graph group run.mount = r at hmounted hm
    obtain ⟨mounted, e₂⟩ := r
    cases mounted with
    | panicked =>
      cases hm
      exact ⟨_, hmounted⟩
    | err failure =>
      cases hm
      exact hdiscard e₂ hmounted
    | ok m =>
      obtain ⟨hstore, hnext⟩ := joinGroup_store group (e₂.requests run.afterMount)
      have hjoined : ((e₂.requests run.afterMount).joinGroup group).OwnedWith
          [(graph.graphId, graph.moduleIds)] :=
        hmounted.of_eq hnext (congrArg ModuleStore.origins hstore) (by rw [joinGroup_scripts]; rfl)
      let script : EngineScript Live :=
        { context := m.context
          group := group
          graphId := graph.graphId
          hooks := m.hooks
          exports := m.exports
          live := m.live
          moduleIds := graph.moduleIds
          origin := origin }
      exact replaceScript_leaves script hjoined hm

theorem unloadScript_leaves {id : ScriptId} {before : Nat} {run : HookRun Live T}
    {outcome : Outcome Disposed} (h : e.OwnedWith [])
    (hu : e.unloadScript id before run = (outcome, e')) : Leaves outcome e' := by
  unfold unloadScript at hu
  dsimp only at hu
  have howned : (e.requests before).OwnedWith [] := h
  generalize e.requests before = e₀ at howned hu
  cases hs : e₀.scripts.get? id with
  | none =>
    rw [hs] at hu
    cases hu
    exact howned
  | some script =>
    rw [hs] at hu
    dsimp only at hu
    have hout : OwnedWith [script.owner] { e₀ with scripts := e₀.scripts.erase id } :=
      Owned.perm howned ((IndexMap.values_erase_perm hs).map EngineScript.owner)
    generalize hret : retire script run { e₀ with scripts := e₀.scripts.erase id } = r at hu
    obtain ⟨retired, e₁⟩ := r
    have hleaves := retire_leaves hout hret
    cases retired <;> (cases hu; exact hleaves)

theorem mountInline_leaves {id : ScriptId} {transpiled : Except VmError (TranspiledScript Origin)}
    {modules : Except VmError HostModules} {run : LoadRun Live T} {outcome : Outcome Disposed}
    (h : e.OwnedWith [])
    (hm : e.mountInline group id transpiled modules run = (outcome, e')) : Leaves outcome e' := by
  unfold mountInline at hm
  cases transpiled with
  | error error =>
    cases hm
    exact h
  | ok script =>
    cases modules with
    | error error =>
      cases hm
      exact h
    | ok modules =>
      dsimp only at hm
      have hinstalled : ((e.requests run.before).installHostModules modules).OwnedWith [] := h
      generalize (e.requests run.before).installHostModules modules = e₀ at hinstalled hm
      refine mountGraph_leaves (hinstalled.insertGraph (List.cons_ne_nil _ _) ?_ ?_ ?_) hm
      · intro m hmem
        exact ⟨id, List.mem_singleton.mp hmem⟩
      · intro m hmem
        rw [List.mem_singleton.mp hmem]
        simp [ModuleStore.insertInline]
      · intro m hmem
        have hne : m ≠ runtimeModuleId e₀.nextGraphId id :=
          fun heq => hmem (List.mem_singleton.mpr heq)
        exact Function.update_of_ne hne _ _

theorem mountProject_leaves {id : ScriptId} {entryPath : Text} {names : Except VmError Unit}
    {transpiled : Except ProjectFailure (TranspiledProject Origin)}
    {modules : Except VmError HostModules} {run : LoadRun Live T} {outcome : Outcome Disposed}
    (h : e.OwnedWith [])
    (hm : e.mountProject group id entryPath names transpiled modules run = (outcome, e')) :
    Leaves outcome e' := by
  unfold mountProject at hm
  cases names with
  | error error =>
    cases hm
    exact h
  | ok _ =>
    cases transpiled with
    | error failure =>
      cases hm
      exact h.of_eq rfl rfl (watchFailedAttempt_map (f := EngineScript.owner) (fun _ _ => rfl) id
        failure.watched (e.requests run.before))
    | ok project =>
      cases modules with
      | error error =>
        cases hm
        exact h
      | ok modules =>
        dsimp only at hm
        have hinstalled : ((e.requests run.before).installHostModules modules).OwnedWith [] := h
        generalize (e.requests run.before).installHostModules modules = e₀ at hinstalled hm
        split at hm
        · cases hm
          have howned : Owned _ _ (e₀.scripts.values.map EngineScript.owner) := hinstalled
          exact howned.mono (Nat.le_succ _)
        · next graph store hins =>
          obtain ⟨hgraph, hids, hne, hstore⟩ := ModuleStore.insertProject_eq_ok hins
          have hext := ModuleStore.insertProject_extends hins
          refine mountGraph_leaves ?_ hm
          rw [hgraph]
          refine hinstalled.insertGraph ?_ ?_ ?_ hext.origins
          · rw [hids]
            exact ModuleStore.projectIds_ne_nil hne
          · intro m hmem
            rw [hids] at hmem
            obtain ⟨module, -, rfl⟩ := ModuleStore.mem_projectIds.mp hmem
            exact ⟨_, rfl⟩
          · intro m hmem
            rw [hids] at hmem
            rw [hstore]
            exact ModuleStore.insertProjectModules_origins hmem

/-- A state reached by any steps, calls that panicked among them. -/
def Reached (e : Engine Live Origin T) : Prop :=
  ∃ timeout never steps, Transition.Run (fun e step e' => EngineStep.next e step = e')
    (Engine.new timeout never) steps e

end

end Engine

section
variable [Min T] {e : Engine Live Origin T}

theorem LifecycleCall.leaves (call : LifecycleCall Live Origin T) (h : e.OwnedWith []) :
    Engine.Leaves (call.run e).1 (call.run e).2 := by
  have hafter : ∀ {outcome : Outcome Disposed} {e' : Engine Live Origin T} (n : Nat),
      Engine.Leaves outcome e' → Engine.Leaves outcome (e'.requests n) := by
    intro outcome e' n hleaves
    cases outcome <;> exact hleaves
  cases call with
  | inline group id transpiled modules run =>
    exact hafter run.after (Engine.mountInline_leaves h rfl)
  | project group id path names transpiled modules run =>
    exact hafter run.after (Engine.mountProject_leaves h rfl)
  | unload id before run after => exact hafter after (Engine.unloadScript_leaves h rfl)

theorem Engine.OwnedWith.step (h : e.OwnedWith []) (step : EngineStep Live Origin T) :
    (step.next e).OwnedWith [] := by
  cases step with
  | call c => exact (c.leaves h).loaded
  | operate stage earliest =>
    exact h.of_eq rfl rfl (map_values_eq (runStage_scripts stage rfl) fun _ _ => rfl)
  | restamp id stamped =>
    refine h.of_eq rfl rfl ?_
    have hscripts : (EngineStep.next e (.restamp id stamped)).scripts =
        e.scripts.mapValues fun k script =>
          if k = id then { script with origin := { script.origin with
            project := script.origin.project.map fun p =>
              { p with watched := stamped p.watched } } }
          else script := rfl
    apply map_values_eq hscripts
    intro k script
    split_ifs <;> rfl

theorem Engine.Reached.owned (h : e.Reached) : e.OwnedWith [] := by
  obtain ⟨timeout, never, steps, hrun⟩ := h
  have hpreserves : Transition.Preserves (fun (e : Engine Live Origin T) step e' =>
      EngineStep.next e step = e') (Engine.OwnedWith []) := by
    rintro e step e' howned rfl
    exact howned.step step
  exact hrun.invariant hpreserves ⟨nofun, List.nodup_nil, nofun, nofun, nofun⟩

/-- A load, reload or unload that ends by re-raising a panic breaks the invariants, whichever
stage the panic surfaced in. -/
theorem LifecycleCall.panicked_not_invariants {call : LifecycleCall Live Origin T}
    (h : e.Reached) (hp : (call.run e).1 = .panicked) : ¬(call.run e).2.Invariants := by
  have hleaves := call.leaves h.owned
  rw [hp] at hleaves
  obtain ⟨o, howned⟩ := hleaves
  exact howned.not_invariants

end

/-- A first load of script `a` into group `g`, whose top-level code calls a host function that
panics. -/
def panickingLoad : LifecycleCall Nat Unit Nat :=
  .inline (some ['g']) ['a'] (.ok ⟨[], (), []⟩) (.ok ⟨noModules, noModules⟩)
    { before := 0
      save := .quiet []
      afterSave := 0
      mount := ⟨.ok 0, [], .ok 0, .quiet [], .ok (0, 0), .ok 0, 0, ⟨none, none, 0, true, id⟩⟩
      afterMount := 0
      dispose := .quiet []
      after := 0 }

theorem panicked_not_invariants_panickingLoad :
    ¬(panickingLoad.run (Engine.new u64Max 0)).2.Invariants :=
  LifecycleCall.panicked_not_invariants ⟨u64Max, 0, [], .nil _⟩ rfl

theorem new_invariants : (Engine.new u64Max 0 : Engine Nat Unit Nat).Invariants where
  groups name := by
    constructor
    · intro hsome
      cases hsome
    · rintro ⟨script, hscript, -⟩
      cases hscript
  counts _ _ hg := by cases hg
  sources _ _ _ hs := absurd rfl hs
  origins _ hs := absurd rfl hs
  resolutions _ _ hs := absurd rfl hs
  groupedGraphs _ hg := by cases hg
  envs _ he := absurd rfl he

/-- Where nothing was loaded, the panic leaves a group that counts no script, an environment and
a module. -/
theorem panickingLoad_leaves_group :
    let before : Engine Nat Unit Nat := Engine.new u64Max 0
    let after := (panickingLoad.run before).2
    before.Invariants ∧ (panickingLoad.run before).1 = .panicked ∧ after.scripts.values = [] ∧
      (after.groups ['g']).map (·.scripts) = some 0 ∧ after.envs 0 ≠ none ∧
      after.store.origins (runtimeModuleId 0 ['a']) ≠ none ∧ ¬after.Invariants := by
  refine ⟨new_invariants, rfl, rfl, rfl, by decide, by decide, ?_⟩
  intro hinv
  obtain ⟨script, hscript, -⟩ := (hinv.groups ['g']).mp rfl
  cases hscript

end RustTS.Runner
