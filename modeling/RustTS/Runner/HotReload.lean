import RustTS.Runner.Groups
import RustTS.Runner.RunTimers

/-! What the versions of a script hand over through `ctx.hot`: the callbacks they register with the
prelude, and the order in which loads and unloads call them. -/
namespace RustTS.Runner
open ModuleLoader Compiler

/-- The value `undefined`. -/
def undefinedId : ObjectId := 0

inductive HotMethod
  | save
  | dispose
  deriving DecidableEq, Repr

def HotMethod.name : HotMethod → Text
  | .save => "save".toList
  | .dispose => "dispose".toList

/-- What `hotReload` keeps for a version: its data and the callbacks it registered. -/
structure HotReload (F : Type) where
  data : ObjectId
  save : Option F
  disposers : List F
  deriving DecidableEq, Repr

namespace HotReload
variable {F : Type}

def new (hotData : Option ObjectId) : HotReload F := ⟨hotData.getD undefinedId, none, []⟩

/-- `ctx.hot.save(fn)` and `ctx.hot.dispose(fn)`; what is no function is `none`. -/
def register (method : HotMethod) (fn : Option F) (hot : HotReload F) :
    Except Text Unit × HotReload F :=
  match fn with
  | none => (.error ("ctx.hot.".toList ++ method.name ++ " expects a function".toList), hot)
  | some fn =>
    match method with
    | .save => (.ok (), { hot with save := some fn })
    | .dispose => (.ok (), { hot with disposers := hot.disposers ++ [fn] })

end HotReload

/-- A call of `ctx.hot` by the code of a version. -/
structure HotCall (F : Type) where
  version : GraphId
  method : HotMethod
  fn : Option F

/-- What one callback does: the calls of `ctx.hot` it makes, and how it ends. -/
structure CallbackRun (F : Type) where
  calls : List (HotCall F)
  ending : RunEnd VmError

/-- What a `save` hook does: the calls of `ctx.hot` in it, and what the registered callback gives where
there is one. An abort may strike before the callback is called. -/
structure SaveRun (F : Type) where
  calls : List (HotCall F)
  callback : Except VmError ObjectId
  abort : Option VmError

/-- What a `dispose` hook does: its disposers, in order, and the jobs they queued; an abort is the
error `abort`. -/
structure DisposeRun (F : Type) where
  disposers : List (CallbackRun F)
  jobs : List (HotCall F)
  abort : VmError

namespace HotReload
variable {F : Type}

/-- The hook `save`: the callback registered last, which gives `undefined` where none is. -/
def saveHook (run : SaveRun F) (hot : HotReload F) : Except VmError ObjectId :=
  match run.abort with
  | some error => .error error
  | none =>
    match hot.save with
    | none => .ok undefinedId
    | some _ => run.callback

end HotReload

/-- How a call of the hook `dispose` returns to the engine. -/
def DisposeRun.returned {F : Type} (run : DisposeRun F) : RunEnd VmError → Except VmError ObjectId
  | .returned => .ok undefinedId
  | .threw error => .error error
  | .aborted => .error run.abort

/-- The hot reload state of every version. -/
abbrev Hots (F : Type) := GraphId → HotReload F

/-- A call of the hook `dispose`: the disposers it called, what the versions keep then, and how it
ended. -/
structure Disposal (F : Type) where
  called : List F
  hots : Hots F
  ending : RunEnd VmError

namespace Hots
variable {F : Type}

def call (hots : Hots F) (c : HotCall F) : Hots F :=
  Function.update hots c.version ((hots c.version).register c.method c.fn).2

def calls (hots : Hots F) (cs : List (HotCall F)) : Hots F := cs.foldl call hots

/-- The loop of the hook `dispose` from its disposer `next` on, with the first error so far. Every
disposer runs even after one throws. An abort may strike between two calls: there `runs` ends. -/
def dispose (version : GraphId) (next : Nat) (failure : Option VmError) (hots : Hots F) :
    List (CallbackRun F) → Disposal F
  | [] =>
    match (hots version).disposers[next]? with
    | none => ⟨[], hots, failure.elim .returned .threw⟩
    | some _ => ⟨[], hots, .aborted⟩
  | run :: runs =>
    match (hots version).disposers[next]? with
    | none => ⟨[], hots, failure.elim .returned .threw⟩
    | some disposer =>
      let rest (failure : Option VmError) : Disposal F :=
        let rest := dispose version (next + 1) failure (hots.calls run.calls) runs
        { rest with called := disposer :: rest.called }
      match run.ending with
      | .aborted => ⟨[disposer], hots.calls run.calls, .aborted⟩
      | .returned => rest failure
      | .threw error => rest (failure.or (some error))

/-- A version keeps its data and its disposers, to which it may have added. -/
def Grown (hots hots' : Hots F) : Prop :=
  ∀ v, (hots' v).data = (hots v).data ∧ (hots v).disposers <+: (hots' v).disposers

theorem Grown.refl (hots : Hots F) : Grown hots hots := fun _ => ⟨rfl, List.prefix_rfl⟩

theorem Grown.trans {hots hots' hots'' : Hots F} (h : Grown hots hots') (h' : Grown hots' hots'') :
    Grown hots hots'' :=
  fun v => ⟨(h' v).1.trans (h v).1, (h v).2.trans (h' v).2⟩

theorem grown_call (hots : Hots F) (c : HotCall F) : Grown hots (hots.call c) := by
  intro v
  unfold call
  by_cases hv : v = c.version
  · subst hv
    rw [Function.update_self]
    unfold HotReload.register
    cases c.fn with
    | none => exact ⟨rfl, List.prefix_rfl⟩
    | some fn =>
      cases c.method with
      | save => exact ⟨rfl, List.prefix_rfl⟩
      | dispose => exact ⟨rfl, List.prefix_append _ _⟩
  · rw [Function.update_of_ne hv]
    exact ⟨rfl, List.prefix_rfl⟩

theorem grown_calls (hots : Hots F) (cs : List (HotCall F)) : Grown hots (hots.calls cs) := by
  unfold calls
  induction cs generalizing hots with
  | nil => exact .refl hots
  | cons c cs ih => exact (grown_call hots c).trans (ih _)

private theorem drop_eq_cons {l : List F} {i : Nat} {a : F} (h : l[i]? = some a) :
    l.drop i = a :: l.drop (i + 1) := by
  obtain ⟨hi, rfl⟩ := List.getElem?_eq_some_iff.mp h
  exact List.drop_eq_getElem_cons hi

/-- What a call of the hook from its disposer `next` on does: it calls disposers in the order of
their registration, each one once, and all of them unless it is aborted, in a disposer or between
two. -/
structure Disposes (hots : Hots F) (version : GraphId) (next : Nat) (runs : List (CallbackRun F))
    (disposal : Disposal F) : Prop where
  grown : Grown hots disposal.hots
  called : disposal.called <+: (disposal.hots version).disposers.drop next
  all : disposal.ending ≠ .aborted →
    disposal.called = (disposal.hots version).disposers.drop next
  uncut : (∀ run ∈ runs, run.ending ≠ .aborted) →
    (disposal.hots version).disposers.length ≤ next + runs.length → disposal.ending ≠ .aborted

theorem Disposes.ended {hots : Hots F} {version : GraphId} {next : Nat}
    (h : (hots version).disposers[next]? = none) (runs : List (CallbackRun F))
    (failure : Option VmError) :
    Disposes hots version next runs ⟨[], hots, failure.elim .returned .threw⟩ where
  grown := .refl hots
  called := List.nil_prefix
  all _ := (List.drop_eq_nil_of_le (List.getElem?_eq_none_iff.mp h)).symm
  uncut _ _ := by cases failure <;> exact fun heq => by cases heq

theorem dispose_spec (version : GraphId) (runs : List (CallbackRun F)) (next : Nat)
    (failure : Option VmError) (hots : Hots F) :
    Disposes hots version next runs (hots.dispose version next failure runs) := by
  induction runs generalizing next failure hots with
  | nil =>
    unfold dispose
    cases hd : (hots version).disposers[next]? with
    | none => exact .ended hd _ _
    | some disposer =>
      have hlt : next < (hots version).disposers.length := (List.getElem?_eq_some_iff.mp hd).1
      refine ⟨.refl hots, List.nil_prefix, fun h => absurd rfl h, fun _ hlength => ?_⟩
      exact absurd hlength (Nat.not_le.mpr hlt)
  | cons run runs ih =>
    unfold dispose
    cases hd : (hots version).disposers[next]? with
    | none => exact .ended hd _ _
    | some disposer =>
      have hcalls := grown_calls hots run.calls
      -- The registered disposers only grow, so the one called stays at its place.
      have hkept : ∀ {hots'}, Grown (hots.calls run.calls) hots' →
          (hots' version).disposers.drop next =
            disposer :: (hots' version).disposers.drop (next + 1) := by
        intro hots' hgrown
        obtain ⟨added, hadded⟩ := ((hcalls.trans hgrown) version).2
        apply drop_eq_cons
        rw [← hadded, List.getElem?_append_left (List.getElem?_eq_some_iff.mp hd).1]
        exact hd
      have hrest : ∀ {rest : Disposal F},
          Disposes (hots.calls run.calls) version (next + 1) runs rest →
            Disposes hots version next (run :: runs)
              { rest with called := disposer :: rest.called } := by
        intro rest hrest
        have hdrop := hkept hrest.grown
        constructor
        · exact hcalls.trans hrest.grown
        · rw [hdrop]
          exact (List.prefix_cons_inj disposer).mpr hrest.called
        · intro hending
          rw [hdrop]
          exact congrArg (disposer :: ·) (hrest.all hending)
        · intro hruns hlength
          refine hrest.uncut (fun r hr => hruns r (List.mem_cons_of_mem _ hr)) ?_
          rw [List.length_cons] at hlength
          exact hlength.trans_eq (by omega)
      dsimp only
      cases hending : run.ending with
      | returned => exact hrest (ih _ _ _)
      | threw error => exact hrest (ih _ _ _)
      | aborted =>
        constructor
        · exact hcalls
        · dsimp only
          rw [hkept (.refl _)]
          exact (List.prefix_cons_inj disposer).mpr List.nil_prefix
        · intro h
          exact absurd rfl h
        · intro hruns
          exact absurd hending (hruns run List.mem_cons_self)

end Hots

/-- What an engine does with a version: it calls the hook `save`, builds the environment of the
next version with the value saved, evaluates that version, swaps it in for its script, and calls
the hook `dispose`. -/
inductive HotEvent (F : Type)
  | save (version : GraphId) (callback : Option F) (returned : Except VmError ObjectId)
  | makeEnv (version : GraphId) (data : ObjectId)
  | evaluate (version : GraphId) (completed : Bool)
  | swap (id : ScriptId) (version : GraphId)
  | dispose (version : GraphId) (registered called : List F) (ending : RunEnd VmError)

def HotEvent.version {F : Type} : HotEvent F → GraphId
  | .save version _ _ => version
  | .makeEnv version _ => version
  | .evaluate version _ => version
  | .swap _ version => version
  | .dispose version _ _ _ => version

/-- The version whose hook `dispose` the event is a call of. -/
def HotEvent.disposed? {F : Type} : HotEvent F → Option GraphId
  | .dispose version _ _ _ => some version
  | _ => none

/-- What the versions keep, and all events so far. -/
structure HotTrace (F : Type) where
  hots : Hots F
  log : List (HotEvent F)

/-- The calls of `ctx.hot` in the stages of a load or an unload, and in another operation. -/
structure HotCalls (F : Type) where
  saving : SaveRun F
  mounting : List (HotCall F)
  disposing : DisposeRun F
  operating : List (HotCall F)

def HotCalls.none {F : Type} : HotCalls F :=
  ⟨⟨[], .ok undefinedId, Option.none⟩, [], ⟨[], [], .interrupted⟩, []⟩

namespace HotTrace
variable {Live Origin T F : Type} [Min T]

/-- The versions whose hook `dispose` was called. -/
def disposed (t : HotTrace F) : List GraphId := t.log.filterMap HotEvent.disposed?

/-- The events of `saveHotData`. -/
def saveHotData (id : ScriptId) (run : SaveRun F) (e : Engine Live Origin T) (t : HotTrace F) :
    HotTrace F :=
  match e.scripts.get? id with
  | none => t
  | some script =>
    ⟨t.hots.calls run.calls, t.log ++ [.save script.graphId (t.hots script.graphId).save
      ((t.hots script.graphId).saveHook run)]⟩

/-- The events of `mount`, in which a version with an environment is evaluated. -/
def mount (graph : RuntimeModuleGraph) (hotData : Option ObjectId) (group : Option Text)
    (run : MountRun Live T) (calls : List (HotCall F)) (e : Engine Live Origin T)
    (t : HotTrace F) : HotTrace F :=
  match (e.enter.target group run).1, run.env with
  | .ok _, .ok _ =>
    ⟨Hots.calls (Function.update t.hots graph.graphId (.new hotData)) calls,
      t.log ++ [.makeEnv graph.graphId (hotData.getD undefinedId),
        .evaluate graph.graphId run.imported.isOk]⟩
  | _, _ => ⟨t.hots.calls calls, t.log⟩

/-- The event of `retire`. -/
def retire (version : GraphId) (run : DisposeRun F) (t : HotTrace F) : HotTrace F :=
  let disposal := t.hots.dispose version 0 none run.disposers
  ⟨disposal.hots.calls run.jobs, t.log ++
    [.dispose version (disposal.hots version).disposers disposal.called disposal.ending]⟩

/-- The events of `replaceScript`. -/
def replaceScript (id : ScriptId) (version : GraphId) (run : DisposeRun F)
    (e : Engine Live Origin T) (t : HotTrace F) : HotTrace F :=
  let replaced : HotTrace F := ⟨t.hots, t.log ++ [.swap id version]⟩
  match e.scripts.get? id with
  | none => replaced
  | some previous => replaced.retire previous.graphId run

/-- The events of `mountGraph`. -/
def mountGraph (id : ScriptId) (graph : RuntimeModuleGraph) (group : Option Text)
    (run : LoadRun Live T) (calls : HotCalls F) (e : Engine Live Origin T)
    (t : HotTrace F) : HotTrace F :=
  let t := t.saveHotData id calls.saving e
  match e.saveHotData id run.save with
  | (.ok hotData, e) =>
    let e := e.requests run.afterSave
    let t := t.mount graph hotData group run.mount calls.mounting e
    match e.mount graph group run.mount with
    | (.ok _, e) =>
      t.replaceScript id graph.graphId calls.disposing
        ((e.requests run.afterMount).joinGroup group)
    | _ => t
  | _ => t

/-- The events of a call. -/
def call (calls : HotCalls F) (e : Engine Live Origin T) (t : HotTrace F) :
    LifecycleCall Live Origin T → HotTrace F
  | .inline group id (.ok script) (.ok modules) run =>
    let e := (e.requests run.before).installHostModules modules
    let (graph, store) := e.store.insertInline id script.js script.moduleOrigin e.nextGraphId
    t.mountGraph id graph group run calls (e.insertGraph store)
  | .project group id _ (.ok _) (.ok compiled) (.ok modules) run =>
    let e := (e.requests run.before).installHostModules modules
    match e.store.insertProject compiled.entryModuleId compiled.modules e.nextGraphId with
    | .ok (graph, store) => t.mountGraph id graph group run calls (e.insertGraph store)
    | .error _ => t
  | .unload id _ _ _ =>
    match e.scripts.get? id with
    | none => t
    | some script => t.retire script.graphId calls.disposing
  | _ => t

/-- The events of a step; operations other than loads and unloads call no hook. -/
def step (calls : HotCalls F) (e : Engine Live Origin T) (t : HotTrace F) :
    EngineStep Live Origin T → HotTrace F
  | .call c => t.call calls e c
  | .operate _ _ => ⟨t.hots.calls calls.operating, t.log⟩
  | .restamp _ _ => t

end HotTrace

/-- The version of script `id` that is loaded. -/
def Engine.versions {Live Origin T : Type} (e : Engine Live Origin T) (id : ScriptId) :
    Option GraphId :=
  (e.scripts.get? id).map EngineScript.graphId

/-- The value handed over by the version `old`: what its hook `save` returns, and `undefined` when no
version is loaded. -/
def HandedOver {F : Type} (hots : Hots F) (run : SaveRun F) (old : Option GraphId) (data : ObjectId) :
    Prop :=
  match old with
  | none => data = undefinedId
  | some v => (hots v).saveHook run = .ok data

/-- A call of the hook `dispose` of a version whose disposers are those in `hots`, and any registered
until its end: it calls them in order, and all of them unless it is aborted. -/
structure DisposedAs {F : Type} (hots : Hots F) (run : DisposeRun F) (version : GraphId)
    (registered called : List F) (ending : RunEnd VmError) : Prop where
  before : (hots version).disposers <+: registered
  order : called <+: registered
  all : ending ≠ .aborted → called = registered
  uncut : (∀ r ∈ run.disposers, r.ending ≠ .aborted) → registered.length ≤ run.disposers.length →
    ending ≠ .aborted

theorem DisposedAs.earlier {F : Type} {hots hots' : Hots F} {run : DisposeRun F} {version : GraphId}
    {registered called : List F} {ending : RunEnd VmError}
    (h : DisposedAs hots' run version registered called ending)
    (hgrown : (hots version).disposers <+: (hots' version).disposers) :
    DisposedAs hots run version registered called ending :=
  ⟨hgrown.trans h.before, h.order, h.all, h.uncut⟩

/-- The call of the hook `save` of a version: of the callback it registered. -/
def saveEvent {F : Type} (hots : Hots F) (run : SaveRun F) (version : GraphId) : HotEvent F :=
  .save version (hots version).save ((hots version).saveHook run)

/-- The events of a load of script `id`, which makes the version `new` while `old` is loaded, and
whether it swaps `new` in. -/
inductive LoadEvents {F : Type} (hots : Hots F) (calls : HotCalls F) (id : ScriptId)
    (old : Option GraphId) (new : GraphId) : Bool → List (HotEvent F) → Prop
  | refused : LoadEvents hots calls id old new false []
  | saved : LoadEvents hots calls id old new false (old.toList.map (saveEvent hots calls.saving))
  | failed (data : ObjectId) (completed : Bool) (handed : HandedOver hots calls.saving old data) :
      LoadEvents hots calls id old new false ((old.toList.map (saveEvent hots calls.saving)) ++
        [.makeEnv new data, .evaluate new completed])
  | swapped (data : ObjectId) (registered called : List F) (ending : RunEnd VmError)
      (handed : HandedOver hots calls.saving old data)
      (disposed : ∀ v ∈ old, DisposedAs hots calls.disposing v registered called ending) :
      LoadEvents hots calls id old new true ((old.toList.map (saveEvent hots calls.saving)) ++
        [.makeEnv new data, .evaluate new true, .swap id new] ++
        old.toList.map fun v => .dispose v registered called ending)

namespace Engine
variable {Live Origin T : Type} {e e' : Engine Live Origin T}

theorem versions_mapValues {change : ScriptId → EngineScript Live → EngineScript Live}
    (h : e'.scripts = e.scripts.mapValues change)
    (hchange : ∀ id script, (change id script).graphId = script.graphId) :
    e'.versions = e.versions := by
  funext id
  unfold versions
  rw [h, IndexMap.get?_mapValues, Option.map_map]
  apply Option.map_congr
  intro script _
  exact hchange id script

theorem versions_watchFailedAttempt (id : ScriptId) (watched : WatchedFiles)
    (e : Engine Live Origin T) : (e.watchFailedAttempt id watched).versions = e.versions := by
  have hscripts : (e.watchFailedAttempt id watched).scripts = e.scripts.mapValues fun k script =>
      if k = id then { script with origin := script.origin.watch watched } else script := rfl
  apply versions_mapValues hscripts
  intro k script
  split_ifs <;> rfl

private theorem versions_discardGraph (id : ScriptId) (graph : RuntimeModuleGraph) (origin : ScriptOrigin)
    (e : Engine Live Origin T) : (e.discardGraph id graph origin).versions = e.versions := by
  unfold discardGraph
  cases origin.project with
  | none => rfl
  | some project =>
    exact versions_watchFailedAttempt id project.watched
      { e with store := e.store.removeModules graph.moduleIds }

private theorem versions_joinGroup (group : Option Text) (e : Engine Live Origin T) :
    (e.joinGroup group).versions = e.versions := by
  unfold versions
  rw [joinGroup_scripts]

private theorem versions_insert {e' : Engine Live Origin T} {id : ScriptId} {script : EngineScript Live}
    (h : e'.scripts = e.scripts.insert id script) :
    e'.versions = Function.update e.versions id (some script.graphId) := by
  funext k
  unfold versions
  rw [h]
  by_cases hk : k = id
  · rw [hk, Function.update_self, IndexMap.get?_insert_self]
    rfl
  · rw [Function.update_of_ne hk, IndexMap.get?_insert_of_ne _ _ hk]

theorem versions_erase {e' : Engine Live Origin T} {id : ScriptId}
    (h : e'.scripts = e.scripts.erase id) :
    e'.versions = Function.update e.versions id none := by
  funext k
  unfold versions
  rw [h]
  by_cases hk : k = id
  · rw [hk, Function.update_self, IndexMap.get?_erase_self]
    rfl
  · rw [Function.update_of_ne hk, IndexMap.get?_erase_of_ne _ hk]

variable [Min T]

private theorem versions_saveHotData (id : ScriptId) (run : HookRun Live T) (e : Engine Live Origin T) :
    (e.saveHotData id run).2.versions = e.versions :=
  versions_mapValues (saveHotData_kept 0 [] id run e).scripts fun _ _ => rfl

private theorem versions_mount (graph : RuntimeModuleGraph) (group : Option Text) (run : MountRun Live T)
    (e : Engine Live Origin T) : (e.mount graph group run).2.versions = e.versions :=
  versions_mapValues (mount_scripts graph group run e) fun _ _ => rfl

theorem versions_retire (script : EngineScript Live) (run : HookRun Live T)
    (e : Engine Live Origin T) : (e.retire script run).2.versions = e.versions := by
  have hhook : (e.runHook run).2.versions = e.versions :=
    versions_mapValues (runHook_kept 0 [] run e).scripts fun _ _ => rfl
  unfold retire
  dsimp only
  generalize e.runHook run = r at hhook
  obtain ⟨outcome, e₁⟩ := r
  have hrelease : (leaveGroup script.group { e₁ with
      store := e₁.store.removeModules script.moduleIds
      envs := Function.update e₁.envs script.graphId none }).versions = e.versions := by
    unfold versions
    rw [leaveGroup_scripts]
    exact hhook
  cases outcome with
  | ok _ => exact hrelease
  | err _ => exact hrelease
  | panicked => exact hhook

theorem versions_replaceScript (id : ScriptId) (script : EngineScript Live) (run : HookRun Live T)
    (e : Engine Live Origin T) : (e.replaceScript id script run).2.versions =
      Function.update e.versions id (some script.graphId) := by
  have hinsert : versions { e with scripts := e.scripts.insert id script } =
      Function.update e.versions id (some script.graphId) := versions_insert rfl
  unfold replaceScript
  dsimp only
  cases e.scripts.get? id with
  | none => exact hinsert
  | some previous =>
    have hretire := versions_retire previous run { e with scripts := e.scripts.insert id script }
    dsimp only
    generalize retire previous run { e with scripts := e.scripts.insert id script } = r at hretire ⊢
    obtain ⟨outcome, e₁⟩ := r
    cases outcome <;> exact hretire.trans hinsert

theorem nextGraphId_closedUnder (g n : GraphId) :
    ClosedUnder g (fun e : Engine Live Origin T => e.nextGraphId = n) where
  enter h := h
  leave h := h
  ticks _ h := h
  runStage _ h := h
  scripts _ h := h
  groups _ h := h
  dropEnv _ h := h
  imported _ h := h
  remove _ h := h
  saveEnv _ h := h
  mark h := h

theorem saveHotData_handed {F : Type} {hots : Hots F} {save : SaveRun F} {id : ScriptId}
    {run : HookRun Live T} {hotData : Option ObjectId}
    (hreturned : ∀ v, e.versions id = some v → run.returned = (hots v).saveHook save)
    (h : e.saveHotData id run = (.ok hotData, e')) :
    HandedOver hots save (e.versions id) (hotData.getD undefinedId) := by
  unfold saveHotData at h
  unfold HandedOver
  unfold versions at hreturned ⊢
  cases hs : e.scripts.get? id with
  | none =>
    rw [hs] at h
    cases h
    rfl
  | some script =>
    rw [hs] at h hreturned
    dsimp only [Option.map_some] at h hreturned ⊢
    rw [← hreturned script.graphId rfl]
    unfold runHook finish at h
    generalize hr : attributeInterrupt _ (settle _ run.settling run.returned) = outcome at h
    cases outcome with
    | ok data =>
      cases h
      exact (attributeInterrupt_settle_eq_ok.mp hr).1
    | err error => cases h
    | panicked => cases h

/-- A version that mounts has an environment, and its code completed. -/
theorem mount_evaluated {graph : RuntimeModuleGraph} {group : Option Text} {run : MountRun Live T}
    {m : Mounted Live} (h : e.mount graph group run = (.ok m, e')) :
    (∃ target, (e.enter.target group run).1 = .ok target) ∧ (∃ env, run.env = .ok env) ∧
      run.imported.isOk := by
  unfold mount at h
  dsimp only at h
  generalize e.enter.target group run = r at h ⊢
  obtain ⟨target, e₁⟩ := r
  cases target with
  | error error =>
    have herror : (attributeInterrupt _ (settle _ run.settling (Except.error error)) :
      Outcome (Mounted Live)) = .ok m := congrArg Prod.fst h
    rw [attributeInterrupt_settle_eq_ok] at herror
    cases herror.1
  | ok target =>
    dsimp only at h
    generalize hi : ((e₁.markGraph graph group).runStage run.stage).importEntry graph group run = r
      at h
    obtain ⟨imported, e₂⟩ := r
    dsimp only at h
    generalize hfin : e₂.finish run.settling imported = r at h
    obtain ⟨outcome, e₃⟩ := r
    cases outcome with
    | err error => cases h
    | panicked => cases h
    | ok made =>
      have hmade : imported = .ok made :=
        (attributeInterrupt_settle_eq_ok.mp (congrArg Prod.fst hfin)).1
      unfold importEntry at hi
      cases henv : run.env with
      | error error =>
        rw [henv] at hi
        cases hi
        cases hmade
      | ok env =>
        rw [henv] at hi
        have himported : (run.imported.map fun exports => (exports, env.2)) = .ok made :=
          (congrArg Prod.fst hi).trans hmade
        cases hok : run.imported with
        | error error =>
          rw [hok] at himported
          cases himported
        | ok exports => exact ⟨⟨target, rfl⟩, ⟨env, rfl⟩, rfl⟩

end Engine

/-- What a load of script `id` does to the versions and the events, when `new` is the version it may
make: the load swaps `new` in or leaves every version as it was. -/
def LoadLaw {Live Origin T F : Type} (calls : HotCalls F) (id : ScriptId) (new : GraphId)
    (e e' : Engine Live Origin T) (t t' : HotTrace F) (outcome : Outcome Disposed) : Prop :=
  ∃ loaded events, LoadEvents t.hots calls id (e.versions id) new loaded events ∧
    t'.log = t.log ++ events ∧
    (loaded = true ↔ ∃ disposed, outcome = .ok disposed) ∧
    e'.versions = if loaded then Function.update e.versions id (some new) else e.versions

/-- An unload of script `id` calls the hook `dispose` of its loaded version. -/
def UnloadLaw {Live Origin T F : Type} (calls : HotCalls F) (id : ScriptId)
    (e e' : Engine Live Origin T) (t t' : HotTrace F) : Prop :=
  (∃ registered called ending,
    (∀ v ∈ e.versions id, DisposedAs t.hots calls.disposing v registered called ending) ∧
    t'.log = t.log ++ (e.versions id).toList.map fun v => .dispose v registered called ending) ∧
    e'.versions = Function.update e.versions id none

namespace HotTrace
variable {Live Origin T F : Type} {e : Engine Live Origin T}

theorem saveHotData_log (id : ScriptId) (run : SaveRun F) (e : Engine Live Origin T)
    (t : HotTrace F) : (t.saveHotData id run e).log =
      t.log ++ (e.versions id).toList.map (saveEvent t.hots run) := by
  unfold saveHotData Engine.versions
  cases e.scripts.get? id with
  | none => exact (List.append_nil _).symm
  | some script => rfl

private theorem saveHotData_grown (id : ScriptId) (run : SaveRun F) (e : Engine Live Origin T)
    (t : HotTrace F) : Hots.Grown t.hots (t.saveHotData id run e).hots := by
  unfold saveHotData
  cases e.scripts.get? id with
  | none => exact .refl _
  | some script => exact Hots.grown_calls _ _

theorem retire_log (version : GraphId) (run : DisposeRun F) (t : HotTrace F) :
    ∃ registered called ending, DisposedAs t.hots run version registered called ending ∧
      (t.retire version run).log = t.log ++ [.dispose version registered called ending] := by
  have h := Hots.dispose_spec version run.disposers 0 none t.hots
  refine ⟨_, _, _, ⟨(h.grown version).2, h.called, h.all, fun hruns hlength => ?_⟩, rfl⟩
  exact h.uncut hruns (hlength.trans_eq (Nat.zero_add _).symm)

theorem replaceScript_log (id : ScriptId) (version : GraphId) (run : DisposeRun F)
    (e : Engine Live Origin T) (t : HotTrace F) : ∃ registered called ending,
      (∀ v ∈ e.versions id, DisposedAs t.hots run v registered called ending) ∧
      (t.replaceScript id version run e).log = t.log ++ .swap id version ::
        (e.versions id).toList.map fun v => .dispose v registered called ending := by
  unfold replaceScript Engine.versions
  cases e.scripts.get? id with
  | none => exact ⟨[], [], .returned, fun v hv => (by cases hv), rfl⟩
  | some previous =>
    obtain ⟨registered, called, ending, hdisposed, hlog⟩ :=
      retire_log previous.graphId run ⟨t.hots, t.log ++ [.swap id version]⟩
    refine ⟨registered, called, ending, fun v hv => ?_, hlog.trans ?_⟩
    · obtain rfl : previous.graphId = v := Option.some.inj hv
      exact hdisposed
    · rw [List.append_assoc]
      rfl

private theorem mount_disposers {graph : RuntimeModuleGraph} {version : GraphId}
    (hne : version ≠ graph.graphId) (hotData : Option ObjectId) (group : Option Text)
    (run : MountRun Live T) (calls : List (HotCall F)) (e : Engine Live Origin T) (t : HotTrace F) :
    (t.hots version).disposers <+: ((t.mount graph hotData group run calls e).hots version).disposers := by
  unfold mount
  split
  · have hgrown := (Hots.grown_calls
      (Function.update t.hots graph.graphId (.new hotData)) calls version).2
    rwa [Function.update_of_ne hne] at hgrown
  · exact (Hots.grown_calls t.hots calls version).2

private theorem mount_log (graph : RuntimeModuleGraph) (hotData : Option ObjectId) (group : Option Text)
    (run : MountRun Live T) (calls : List (HotCall F)) (e : Engine Live Origin T)
    (t : HotTrace F) :
    (t.mount graph hotData group run calls e).log = t.log ∨
      (t.mount graph hotData group run calls e).log =
        t.log ++ [.makeEnv graph.graphId (hotData.getD undefinedId),
          .evaluate graph.graphId run.imported.isOk] := by
  unfold mount
  split
  · exact .inr rfl
  · exact .inl rfl

variable [Min T]

private theorem mount_log_ok {graph : RuntimeModuleGraph} {group : Option Text} {run : MountRun Live T}
    {m : Mounted Live} {e' : Engine Live Origin T} (h : e.mount graph group run = (.ok m, e'))
    (hotData : Option ObjectId) (calls : List (HotCall F)) (t : HotTrace F) :
    (t.mount graph hotData group run calls e).log =
      t.log ++ [.makeEnv graph.graphId (hotData.getD undefinedId),
        .evaluate graph.graphId true] := by
  obtain ⟨⟨target, htarget⟩, ⟨env, henv⟩, hok⟩ := Engine.mount_evaluated h
  unfold mount
  rw [htarget, henv, hok]

/-- The stages of a load, whichever of them fails. -/
theorem mountGraph_law {id : ScriptId} {graph : RuntimeModuleGraph} {origin : ScriptOrigin}
    {group : Option Text} {run : LoadRun Live T} {calls : HotCalls F} {t : HotTrace F}
    (hnew : ∀ v, e.versions id = some v → v ≠ graph.graphId)
    (hreturned : ∀ v, e.versions id = some v →
      run.save.returned = (t.hots v).saveHook calls.saving)
    (hret : (e.mountGraph id graph origin group run).1 ≠ .panicked) :
    LoadLaw calls id graph.graphId e (e.mountGraph id graph origin group run).2 t
      (t.mountGraph id graph group run calls e) (e.mountGraph id graph origin group run).1 := by
  have hsave := saveHotData_log id calls.saving e t
  have hgrown := saveHotData_grown id calls.saving e t
  have hsaved := Engine.versions_saveHotData id run.save e
  unfold Engine.mountGraph at hret
  unfold Engine.mountGraph mountGraph
  generalize ht₁ : t.saveHotData id calls.saving e = t₁ at hsave hgrown
  generalize hs : e.saveHotData id run.save = r at hsaved hret ⊢
  obtain ⟨saved, e₁⟩ := r
  have hv₁ : e₁.versions = e.versions := hsaved
  have hdiscard : ∀ e₂ : Engine Live Origin T, e₂.versions = e.versions →
      (e₂.discardGraph id graph origin).versions = e.versions := by
    intro e₂ he₂
    rw [Engine.versions_discardGraph, he₂]
  cases saved with
  | panicked => exact absurd rfl hret
  | err failure =>
    refine ⟨false, _, .saved, hsave, ?_, hdiscard e₁ hv₁⟩
    simp
  | ok hotData =>
    have hdata := Engine.saveHotData_handed hreturned hs
    have hmount := Engine.versions_mount graph group run.mount (e₁.requests run.afterSave)
    have hv₂ : (e₁.requests run.afterSave).versions = e.versions := hv₁
    dsimp only at hret ⊢
    rw [hv₂] at hmount
    have hlog := mount_log graph hotData group run.mount calls.mounting
      (e₁.requests run.afterSave) t₁
    generalize hm : (e₁.requests run.afterSave).mount graph group run.mount = r at hmount hret ⊢
    obtain ⟨mounted, e₂⟩ := r
    have hv₃ : e₂.versions = e.versions := hmount
    cases mounted with
    | panicked => exact absurd rfl hret
    | err failure =>
      dsimp only
      rcases hlog with hlog | hlog
      · refine ⟨false, _, .saved, hlog.trans hsave, ?_, hdiscard e₂ hv₃⟩
        simp
      · refine ⟨false, _, .failed _ run.mount.imported.isOk hdata, ?_, ?_, hdiscard e₂ hv₃⟩
        · rw [hlog, hsave, List.append_assoc]
        · simp
    | ok m =>
      have hlog := mount_log_ok hm hotData calls.mounting t₁
      have hkept (v : GraphId) (hv : v ≠ graph.graphId) := mount_disposers hv hotData group run.mount
        calls.mounting (e₁.requests run.afterSave) t₁
      have hjoined : ((e₂.requests run.afterMount).joinGroup group).versions = e.versions :=
        (Engine.versions_joinGroup group _).trans hv₃
      dsimp only at hret ⊢
      generalize ht₂ : t₁.mount graph hotData group run.mount calls.mounting
        (e₁.requests run.afterSave) = t₂ at hlog hkept
      generalize (e₂.requests run.afterMount).joinGroup group = e₃ at hjoined hret ⊢
      obtain ⟨registered, called, ending, hdisposed, hswap⟩ :=
        replaceScript_log id graph.graphId calls.disposing e₃ t₂
      have hv₄ := Engine.versions_replaceScript id
        { context := m.context
          group := group
          graphId := graph.graphId
          hooks := m.hooks
          exports := m.exports
          live := m.live
          moduleIds := graph.moduleIds
          origin := origin } run.dispose e₃
      generalize hrep : e₃.replaceScript id _ run.dispose = r at hret hv₄ ⊢
      obtain ⟨outcome, e₄⟩ := r
      cases outcome with
      | panicked => exact absurd rfl hret
      | err error =>
        exact absurd (congrArg Prod.fst hrep) (Engine.replaceScript_ne_err _ _ _ error)
      | ok disposed =>
        refine ⟨true, _, .swapped _ registered called ending hdata (fun v hv => ?_), ?_, ?_, ?_⟩
        · have hbefore := hdisposed v (hjoined ▸ hv)
          exact hbefore.earlier ((hgrown v).2.trans (hkept v (hnew v hv)))
        · rw [hswap, hjoined, hlog, hsave]
          simp
        · simp
        · rw [hjoined] at hv₄
          exact hv₄

theorem unloadScript_law (id : ScriptId) (before : Nat) (run : HookRun Live T) (after : Nat)
    (calls : HotCalls F) (e : Engine Live Origin T) (t : HotTrace F) :
    UnloadLaw calls id e ((LifecycleCall.unload id before run after).run e).2 t
      (t.call calls e (.unload id before run after)) := by
  unfold UnloadLaw LifecycleCall.run Engine.unloadScript call
  have herase : Engine.versions { e.requests before with
      scripts := (e.requests before).scripts.erase id } = Function.update e.versions id none :=
    Engine.versions_erase rfl
  have hscripts : (e.requests before).scripts = e.scripts := rfl
  dsimp only
  rw [hscripts] at herase ⊢
  cases hs : e.scripts.get? id with
  | none =>
    have hnone : e.versions id = none := by
      unfold Engine.versions
      rw [hs]
      rfl
    refine ⟨⟨[], [], .returned, fun v hv => ?_, ?_⟩, ?_⟩
    · rw [hnone] at hv
      cases hv
    · rw [hnone]
      exact (List.append_nil _).symm
    · exact (Function.update_eq_self_iff.mpr hnone.symm).symm
  | some script =>
    have hsome : e.versions id = some script.graphId := by
      unfold Engine.versions
      rw [hs]
      rfl
    have hretire := Engine.versions_retire script run
      { e.requests before with scripts := e.scripts.erase id }
    obtain ⟨registered, called, ending, hdisposed, hlog⟩ :=
      retire_log script.graphId calls.disposing t
    refine ⟨⟨registered, called, ending, fun v hv => ?_, ?_⟩, ?_⟩
    · obtain rfl : script.graphId = v := Option.some.inj (hsome.symm.trans hv)
      exact hdisposed
    · rw [hsome]
      exact hlog
    · dsimp only
      generalize Engine.retire script run
        { e.requests before with scripts := e.scripts.erase id } = r at hretire ⊢
      obtain ⟨outcome, e₁⟩ := r
      cases outcome <;> exact hretire.trans herase

end HotTrace

/-- The stages of a call return what the hooks of the loaded version give there. -/
def LifecycleCall.Hooked {Live Origin T F : Type} (calls : HotCalls F) (e : Engine Live Origin T)
    (t : HotTrace F) : LifecycleCall Live Origin T → Prop
  | .inline _ id _ _ run | .project _ id _ _ _ _ run => ∀ v, e.versions id = some v →
    run.save.returned = (t.hots v).saveHook calls.saving ∧
    run.dispose.returned = calls.disposing.returned
      (((t.hots.calls calls.saving.calls).calls calls.mounting).dispose v 0 none
        calls.disposing.disposers).ending
  | .unload id _ run _ => ∀ v, e.versions id = some v →
    run.returned = calls.disposing.returned
      (t.hots.dispose v 0 none calls.disposing.disposers).ending

def EngineStep.Hooked {Live Origin T F : Type} (calls : HotCalls F) (e : Engine Live Origin T)
    (t : HotTrace F) : EngineStep Live Origin T → Prop
  | .call c => c.Hooked calls e t
  | .operate _ _ => True
  | .restamp _ _ => True

/-- What a step does to the versions and the events. A load numbers its version with the next graph
id; no event before it is of that version. -/
def EngineStep.HandsOver {Live Origin T F : Type} [Min T] (calls : HotCalls F)
    (e e' : Engine Live Origin T) (t t' : HotTrace F) : EngineStep Live Origin T → Prop
  | .call (.unload id _ _ _) => UnloadLaw calls id e e' t t'
  | .call c => LoadLaw calls c.id e.nextGraphId e e' t t' (c.run e).1
  | _ => e'.versions = e.versions ∧ t'.log = t.log

theorem LoadLaw.refused {Live Origin T F : Type} {calls : HotCalls F} {id : ScriptId} {new : GraphId}
    {e e' : Engine Live Origin T} (t : HotTrace F) {error : VmError}
    (h : e'.versions = e.versions) : LoadLaw calls id new e e' t t (.err error) := by
  refine ⟨false, [], .refused, (List.append_nil _).symm, ?_, h⟩
  simp

namespace HotTrace
variable {Live Origin T F : Type} [Min T] {e : Engine Live Origin T}

theorem step_law {calls : HotCalls F} {t : HotTrace F} {step : EngineStep Live Origin T}
    (hbelow : ∀ id v, e.versions id = some v → v < e.nextGraphId) (hret : step.Returns e)
    (hhooked : step.Hooked calls e t) :
    step.HandsOver calls e (step.next e) t (t.step calls e step) := by
  cases step with
  | operate stage earliest =>
    refine ⟨?_, rfl⟩
    have hscripts : (EngineStep.next e (.operate stage earliest)).scripts = e.scripts.mapValues
        fun k script => { script with live := stage.live k script.live } := rfl
    exact Engine.versions_mapValues hscripts fun _ _ => rfl
  | restamp id stamped =>
    refine ⟨?_, rfl⟩
    have hscripts : (EngineStep.next e (.restamp id stamped)).scripts =
        e.scripts.mapValues fun k script =>
          if k = id then { script with origin := { script.origin with
            project := script.origin.project.map fun p => { p with watched := stamped p.watched } } }
          else script := rfl
    apply Engine.versions_mapValues hscripts
    intro k script
    split_ifs <;> rfl
  | call c =>
    cases c with
    | unload id before run after => exact unloadScript_law id before run after calls e t
    | inline group id transpiled modules run =>
      cases transpiled with
      | error error => exact .refused t rfl
      | ok script =>
        cases modules with
        | error error => exact .refused t rfl
        | ok modules =>
          exact mountGraph_law (e := Engine.insertGraph _
            ((e.requests run.before).installHostModules modules))
            (fun v hv => Nat.ne_of_lt (hbelow id v hv)) (fun v hv => (hhooked v hv).1) hret
    | project group id path names transpiled modules run =>
      cases names with
      | error error => exact .refused t rfl
      | ok _ =>
        cases transpiled with
        | error failure => exact .refused t (Engine.versions_watchFailedAttempt id failure.watched e)
        | ok compiled =>
          cases modules with
          | error error => exact .refused t rfl
          | ok modules =>
            unfold EngineStep.Returns LifecycleCall.run Engine.mountProject at hret
            unfold EngineStep.HandsOver EngineStep.next LifecycleCall.run Engine.mountProject
              HotTrace.step call
            dsimp only at hret ⊢
            generalize hins : ModuleStore.insertProject
              ((e.requests run.before).installHostModules modules).store compiled.entryModuleId
              compiled.modules ((e.requests run.before).installHostModules modules).nextGraphId =
              inserted at hret ⊢
            cases inserted with
            | error error => exact .refused t rfl
            | ok made =>
              obtain ⟨graph, store⟩ := made
              obtain ⟨hgraph, -⟩ := ModuleStore.insertProject_eq_ok hins
              have hnew : ∀ v, e.versions id = some v → v ≠ graph.graphId := fun v hv =>
                hgraph ▸ Nat.ne_of_lt (hbelow id v hv)
              have hlaw := mountGraph_law (e := Engine.insertGraph store
                ((e.requests run.before).installHostModules modules)) hnew
                (fun v hv => (hhooked v hv).1) hret
              rw [hgraph] at hlaw
              exact hlaw

/-- A load numbers its version before it calls anything; an unload calls a hook of a version that is
loaded. -/
theorem step_numbers (calls : HotCalls F) (t : HotTrace F) (step : EngineStep Live Origin T) :
    (step.next e).nextGraphId = e.nextGraphId + 1 ∨
      (step.next e).nextGraphId = e.nextGraphId ∧ ∀ event ∈ (t.step calls e step).log,
        event ∈ t.log ∨ ∃ id, e.versions id = some event.version := by
  have hsame : ∀ event ∈ t.log, event ∈ t.log ∨ ∃ id, e.versions id = some event.version :=
    fun _ hevent => .inl hevent
  cases step with
  | operate stage earliest => exact .inr ⟨rfl, hsame⟩
  | restamp id stamped => exact .inr ⟨rfl, hsame⟩
  | call c =>
    cases c with
    | unload id before run after =>
      refine .inr ⟨(Engine.nextGraphId_closedUnder 0 _).unloadScript id before run rfl, ?_⟩
      intro event hevent
      obtain ⟨registered, called, ending, -, hlog⟩ :=
        (unloadScript_law id before run after calls e t).1
      rw [show (t.step calls e (.call (.unload id before run after))).log = _ from hlog] at hevent
      rcases List.mem_append.mp hevent with hold | hnew
      · exact .inl hold
      · obtain ⟨v, hv, rfl⟩ := List.mem_map.mp hnew
        exact .inr ⟨id, Option.mem_toList.mp hv⟩
    | inline group id transpiled modules run =>
      cases transpiled with
      | error error => exact .inr ⟨rfl, hsame⟩
      | ok script =>
        cases modules with
        | error error => exact .inr ⟨rfl, hsame⟩
        | ok modules => exact .inl ((Engine.nextGraphId_closedUnder _ _).mountGraph _ _ _ _ rfl)
    | project group id path names transpiled modules run =>
      cases names with
      | error error => exact .inr ⟨rfl, hsame⟩
      | ok _ =>
        cases transpiled with
        | error failure => exact .inr ⟨rfl, hsame⟩
        | ok compiled =>
          cases modules with
          | error error => exact .inr ⟨rfl, hsame⟩
          | ok modules =>
            left
            unfold EngineStep.next LifecycleCall.run Engine.mountProject
            dsimp only
            generalize ModuleStore.insertProject
              ((e.requests run.before).installHostModules modules).store compiled.entryModuleId
              compiled.modules ((e.requests run.before).installHostModules modules).nextGraphId =
              inserted
            cases inserted with
            | error error => rfl
            | ok made => exact (Engine.nextGraphId_closedUnder _ _).mountGraph _ _ _ _ rfl

end HotTrace

end RustTS.Runner
