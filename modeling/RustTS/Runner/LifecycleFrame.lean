import RustTS.Runner.Lifecycle

/-! A load, reload or unload changes the engine through a few updates only. A property none
of them breaks holds after the whole call, wherever the call ends. -/
namespace RustTS.Runner.Engine
open ModuleLoader

variable {Live Origin T : Type} [Min T]

/-- A property of the engine that no update breaks which running JavaScript or retiring a
version makes. -/
structure Closed (P : Engine Live Origin T → Prop) : Prop where
  enter : ∀ {e}, P e → P e.enter
  leave : ∀ {e}, P e → P e.leave
  ticks : ∀ {e} ts, P e → P (e.onExecution (·.ticks ts))
  runStage : ∀ {e} stage, P e → P (e.runStage stage)
  scripts : ∀ {e} scripts, P e → P { e with scripts := scripts }
  groups : ∀ {e} groups, P e → P { e with groups := groups }
  dropEnv : ∀ {e} k, P e → P { e with envs := Function.update e.envs k none }
  imported : ∀ {e} entry, P e →
    P { e with store := (e.store.hostImportStart entry).hostImportEnd }
  remove : ∀ {e} ids, P e → P { e with store := e.store.removeModules ids }

/-- Nor one that mounting graph `g` makes. -/
structure ClosedUnder (g : GraphId) (P : Engine Live Origin T → Prop) : Prop extends Closed P where
  saveEnv : ∀ {e} env, P e → P { e with envs := Function.update e.envs g (some env) }
  mark : ∀ {e}, P e → P { e with store := e.store.markGrouped g }

namespace Closed

variable {P : Engine Live Origin T → Prop} {e : Engine Live Origin T}

theorem requests (hP : Closed P) (n : Nat) (h : P e) : P (e.requests n) := hP.ticks _ h

theorem finish (hP : Closed P) {α : Type} (s : Settling) (result : Except VmError α)
    (h : P e) : P (e.finish s result).2 := hP.leave h

theorem leaveGroup (hP : Closed P) (group : Option Text) (h : P e) : P (e.leaveGroup group) := by
  unfold Engine.leaveGroup
  cases group with
  | none => exact h
  | some name =>
    dsimp only
    cases e.groups name with
    | none => exact h
    | some _ => exact hP.groups _ h

theorem joinGroup (hP : Closed P) (group : Option Text) (h : P e) : P (e.joinGroup group) := by
  unfold Engine.joinGroup
  cases group with
  | none => exact h
  | some name =>
    dsimp only
    cases e.groups name with
    | none => exact h
    | some _ => exact hP.groups _ h

theorem discardGraph (hP : Closed P) (id : ScriptId) (graph : RuntimeModuleGraph)
    (origin : ScriptOrigin) (h : P e) : P (e.discardGraph id graph origin) := by
  unfold Engine.discardGraph
  cases origin.project with
  | none => exact hP.remove _ h
  | some project => exact hP.scripts _ (hP.remove _ h)

theorem runHook (hP : Closed P) (run : HookRun Live T) (h : P e) : P (e.runHook run).2 :=
  hP.finish _ _ (hP.runStage _ (hP.enter h))

theorem saveHotData (hP : Closed P) (id : ScriptId) (run : HookRun Live T) (h : P e) :
    P (e.saveHotData id run).2 := by
  have hr := hP.runHook run h
  unfold Engine.saveHotData
  cases e.scripts.get? id with
  | none => exact h
  | some _ =>
    dsimp only
    generalize e.runHook run = r at hr ⊢
    obtain ⟨outcome, e'⟩ := r
    cases outcome <;> exact hr

theorem target (hP : Closed P) (group : Option Text) (run : MountRun Live T) (h : P e) :
    P (e.target group run).2 := by
  unfold Engine.target
  cases group.bind e.groups with
  | some existing => exact h
  | none =>
    cases run.context with
    | error error => exact h
    | ok context =>
      cases hp : run.prelude with
      | error error => exact hP.ticks _ h
      | ok prelude =>
        cases group with
        | none => exact hP.ticks _ h
        | some name => exact hP.groups _ (hP.ticks _ h)

theorem unmount (hP : Closed P) (graph : RuntimeModuleGraph)
    (group : Option Text) (created : Bool) (h : P e) : P (e.unmount graph group created) :=
  hP.groups _ (hP.dropEnv _ h)

theorem retire (hP : Closed P) (script : EngineScript Live) (run : HookRun Live T) (h : P e) :
    P (e.retire script run).2 := by
  have hr := hP.runHook run h
  unfold Engine.retire
  dsimp only
  generalize e.runHook run = r at hr ⊢
  obtain ⟨outcome, e'⟩ := r
  cases outcome with
  | ok value => exact hP.leaveGroup _ (hP.dropEnv _ (hP.remove _ hr))
  | err error => exact hP.leaveGroup _ (hP.dropEnv _ (hP.remove _ hr))
  | panicked => exact hr

theorem replaceScript (hP : Closed P) (id : ScriptId) (script : EngineScript Live)
    (run : HookRun Live T) (h : P e) : P (e.replaceScript id script run).2 := by
  have hs := hP.scripts (e.scripts.insert id script) h
  unfold Engine.replaceScript
  dsimp only
  cases e.scripts.get? id with
  | none => exact hs
  | some previous =>
    have hr := hP.retire previous run hs
    dsimp only
    generalize Engine.retire previous run { e with scripts := e.scripts.insert id script } = r
      at hr ⊢
    obtain ⟨outcome, e'⟩ := r
    cases outcome <;> exact hr

theorem unloadScript (hP : Closed P) (id : ScriptId) (before : Nat) (run : HookRun Live T)
    (h : P e) : P (e.unloadScript id before run).2 := by
  have hb := hP.requests before h
  unfold Engine.unloadScript
  dsimp only
  generalize e.requests before = e' at hb ⊢
  cases e'.scripts.get? id with
  | none => exact hb
  | some script =>
    have hr := hP.retire script run (hP.scripts (e'.scripts.erase id) hb)
    dsimp only
    generalize Engine.retire script run { e' with scripts := e'.scripts.erase id } = r at hr ⊢
    obtain ⟨outcome, e''⟩ := r
    cases outcome <;> exact hr

end Closed

namespace ClosedUnder

variable {P : Engine Live Origin T → Prop} {e : Engine Live Origin T}

theorem markGraph {graph : RuntimeModuleGraph} (hP : ClosedUnder graph.graphId P)
    (group : Option Text) (h : P e) : P (e.markGraph graph group) := by
  unfold Engine.markGraph
  split
  · exact hP.mark h
  · exact h

theorem importEntry {graph : RuntimeModuleGraph} (hP : ClosedUnder graph.graphId P)
    (group : Option Text) (run : MountRun Live T) (h : P e) :
    P (e.importEntry graph group run).2 := by
  unfold Engine.importEntry
  cases run.env with
  | error error => exact h
  | ok made =>
    cases group with
    | none => exact hP.imported _ h
    | some name => exact hP.imported _ (hP.saveEnv _ h)

theorem mount {graph : RuntimeModuleGraph} (hP : ClosedUnder graph.graphId P) (group : Option Text)
    (run : MountRun Live T) (h : P e) : P (e.mount graph group run).2 := by
  have ht := hP.target group run (hP.enter h)
  unfold Engine.mount
  dsimp only
  generalize e.enter.target group run = r at ht ⊢
  obtain ⟨target, e'⟩ := r
  cases target with
  | error error => exact hP.finish _ _ (hP.runStage _ ht)
  | ok target =>
    dsimp only
    have hi := hP.importEntry group run (hP.runStage run.stage (hP.markGraph group ht))
    generalize ((e'.markGraph graph group).runStage run.stage).importEntry graph group run = imported
      at hi ⊢
    have hf := hP.finish run.settling imported.1 hi
    generalize imported.2.finish run.settling imported.1 = r at hf ⊢
    obtain ⟨outcome, e''⟩ := r
    cases outcome with
    | ok made => exact hf
    | err error => exact hP.unmount graph _ _ hf
    | panicked => exact hf

theorem mountGraph {graph : RuntimeModuleGraph} (hP : ClosedUnder graph.graphId P) (id : ScriptId)
    (origin : ScriptOrigin) (group : Option Text) (run : LoadRun Live T) (h : P e) :
    P (e.mountGraph id graph origin group run).2 := by
  have hs := hP.saveHotData id run.save h
  unfold Engine.mountGraph
  generalize e.saveHotData id run.save = r at hs ⊢
  obtain ⟨saved, e'⟩ := r
  cases saved with
  | panicked => exact hs
  | err error => exact hP.discardGraph _ _ _ hs
  | ok data =>
    have hm := hP.mount group run.mount (hP.requests run.afterSave hs)
    dsimp only
    generalize (e'.requests run.afterSave).mount graph group run.mount = r at hm ⊢
    obtain ⟨mounted, e''⟩ := r
    cases mounted with
    | panicked => exact hm
    | err error => exact hP.discardGraph _ _ _ hm
    | ok mounted => exact hP.replaceScript _ _ _ (hP.joinGroup _ (hP.requests _ hm))

end ClosedUnder

end RustTS.Runner.Engine
