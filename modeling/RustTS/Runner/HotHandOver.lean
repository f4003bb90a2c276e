import RustTS.Runner.HotReload

/-! The hand-over over whole histories: which versions were retired, and what they were given. -/
namespace RustTS.Runner
open ModuleLoader Compiler

/-- What the events of a history say of the versions: those whose hook `dispose` was called are those
that were swapped in and are not loaded any more. -/
structure Retired {Live Origin T F : Type} (e : Engine Live Origin T) (t : HotTrace F) : Prop where
  below : ∀ {event}, event ∈ t.log → event.version < e.nextGraphId
  loaded : ∀ {id v}, e.versions id = some v → .swap id v ∈ t.log
  swappedOnce : ∀ {id id' v}, .swap id v ∈ t.log → .swap id' v ∈ t.log → id = id'
  disposedOnce : t.disposed.Nodup
  disposed : ∀ {v}, v ∈ t.disposed ↔ (∃ id, .swap id v ∈ t.log) ∧ ∀ id, e.versions id ≠ some v

namespace Retired
variable {Live Origin T F : Type} {e e' : Engine Live Origin T} {t t' : HotTrace F}

theorem unswapped (h : Retired e t) {events : List (HotEvent F)}
    (hlog : t'.log = t.log ++ events) (hversions : e'.versions = e.versions)
    (hnext : ∀ event ∈ t'.log, event.version < e'.nextGraphId)
    (hswap : ∀ id v, .swap id v ∉ events) (hdispose : events.filterMap HotEvent.disposed? = []) :
    Retired e' t' := by
  have hdisposed : t'.disposed = t.disposed := by
    unfold HotTrace.disposed
    rw [hlog, List.filterMap_append, hdispose, List.append_nil]
  have hmem : ∀ {id v}, .swap id v ∈ t'.log ↔ .swap id v ∈ t.log := by
    intro id v
    rw [hlog, List.mem_append]
    exact or_iff_left (hswap id v)
  constructor
  · intro event hevent
    exact hnext event hevent
  · intro id v hv
    rw [hversions] at hv
    exact hmem.mpr (h.loaded hv)
  · intro id id' v hv hv'
    exact h.swappedOnce (hmem.mp hv) (hmem.mp hv')
  · rw [hdisposed]
    exact h.disposedOnce
  · intro v
    rw [hdisposed, hversions, h.disposed]
    simp only [hmem]

/-- The loaded version of a script is retired. -/
theorem retire (h : Retired e t) {id : ScriptId} {registered called : List F}
    {ending : RunEnd VmError}
    (hlog : t'.log = t.log ++ (e.versions id).toList.map fun v => .dispose v registered called ending)
    (hversions : e'.versions = Function.update e.versions id none)
    (hnext : e'.nextGraphId = e.nextGraphId) : Retired e' t' := by
  have hdisposed : t'.disposed = t.disposed ++ (e.versions id).toList := by
    unfold HotTrace.disposed
    rw [hlog, List.filterMap_append]
    cases e.versions id <;> rfl
  have hmem : ∀ {k v}, .swap k v ∈ t'.log ↔ .swap k v ∈ t.log := by
    intro k v
    rw [hlog, List.mem_append]
    apply or_iff_left
    intro hnew
    obtain ⟨v', -, heq⟩ := List.mem_map.mp hnew
    cases heq
  have hkept : ∀ {k v}, e'.versions k = some v → k ≠ id ∧ e.versions k = some v := by
    intro k v hv
    rw [hversions] at hv
    have hk : k ≠ id := by
      rintro rfl
      rw [Function.update_self] at hv
      cases hv
    rw [Function.update_of_ne hk] at hv
    exact ⟨hk, hv⟩
  constructor
  · intro event hevent
    rw [hnext]
    rw [hlog] at hevent
    rcases List.mem_append.mp hevent with hold | hnew
    · exact h.below hold
    · obtain ⟨v, hv, rfl⟩ := List.mem_map.mp hnew
      have hbelow := h.below (h.loaded (Option.mem_toList.mp hv))
      exact hbelow
  · intro k v hv
    exact hmem.mpr (h.loaded (hkept hv).2)
  · intro k k' v hv hv'
    exact h.swappedOnce (hmem.mp hv) (hmem.mp hv')
  · rw [hdisposed]
    cases hv : e.versions id with
    | none => simpa using h.disposedOnce
    | some v =>
      have hnot : v ∉ t.disposed := fun hd => (h.disposed.mp hd).2 id hv
      exact List.nodup_append.mpr ⟨h.disposedOnce, List.nodup_singleton v, by
        rintro a ha b hb rfl
        exact hnot (List.mem_singleton.mp hb ▸ ha)⟩
  · intro v
    rw [hdisposed, List.mem_append, Option.mem_toList]
    constructor
    · rintro (hd | hv)
      · obtain ⟨⟨k, hk⟩, hnot⟩ := h.disposed.mp hd
        exact ⟨⟨k, hmem.mpr hk⟩, fun k' hv => hnot k' (hkept hv).2⟩
      · have hswap := h.loaded hv
        refine ⟨⟨id, hmem.mpr hswap⟩, fun k hv' => ?_⟩
        obtain ⟨hk, hv'⟩ := hkept hv'
        exact hk (h.swappedOnce (h.loaded hv') hswap)
    · rintro ⟨⟨k, hk⟩, hnot⟩
      by_cases hv : e.versions id = some v
      · exact .inr hv
      · left
        refine h.disposed.mpr ⟨⟨k, hmem.mp hk⟩, fun k' hv' => hnot k' ?_⟩
        rw [hversions, Function.update_of_ne, hv']
        rintro rfl
        exact hv hv'

/-- A new version is swapped in for a script that is not loaded. -/
theorem swapIn (h : Retired e t) (id : ScriptId) (new : GraphId) (hid : e.versions id = none)
    (hnew : ∀ k, .swap k new ∉ t.log)
    (hlog : t'.log = t.log ++ [.swap id new])
    (hversions : e'.versions = Function.update e.versions id (some new))
    (hnext : ∀ event ∈ t'.log, event.version < e'.nextGraphId) : Retired e' t' := by
  have hdisposed : t'.disposed = t.disposed := by
    unfold HotTrace.disposed
    rw [hlog, List.filterMap_append]
    exact List.append_nil _
  have hmem : ∀ {k v}, .swap k v ∈ t'.log ↔ .swap k v ∈ t.log ∨ k = id ∧ v = new := by
    intro k v
    rw [hlog, List.mem_append, List.mem_singleton, HotEvent.swap.injEq]
  have hold : ∀ {k v}, e.versions k = some v → e'.versions k = some v := by
    intro k v hv
    rw [hversions, Function.update_of_ne, hv]
    rintro rfl
    rw [hid] at hv
    cases hv
  have hloaded : ∀ {k v}, e'.versions k = some v →
      e.versions k = some v ∨ k = id ∧ v = new := by
    intro k v hv
    rw [hversions] at hv
    by_cases hk : k = id
    · rw [hk, Function.update_self] at hv
      exact .inr ⟨hk, (Option.some.inj hv).symm⟩
    · rw [Function.update_of_ne hk] at hv
      exact .inl hv
  constructor
  · intro event hevent
    exact hnext event hevent
  · intro k v hv
    exact hmem.mpr ((hloaded hv).imp h.loaded fun hnew => hnew)
  · intro k k' v hv hv'
    rcases hmem.mp hv with hv | ⟨rfl, rfl⟩
    · rcases hmem.mp hv' with hv' | ⟨-, rfl⟩
      · exact h.swappedOnce hv hv'
      · exact absurd hv (hnew _)
    · rcases hmem.mp hv' with hv' | ⟨hk', -⟩
      · exact absurd hv' (hnew _)
      · exact hk'.symm
  · rw [hdisposed]
    exact h.disposedOnce
  · intro v
    rw [hdisposed, h.disposed]
    constructor
    · rintro ⟨⟨k, hk⟩, hnot⟩
      refine ⟨⟨k, hmem.mpr (.inl hk)⟩, fun k' hv => ?_⟩
      rcases hloaded hv with hv | ⟨-, rfl⟩
      · exact hnot k' hv
      · exact hnew _ hk
    · rintro ⟨⟨k, hk⟩, hnot⟩
      rcases hmem.mp hk with hk | ⟨rfl, rfl⟩
      · exact ⟨⟨k, hk⟩, fun k' hv => hnot k' (hold hv)⟩
      · refine absurd ?_ (hnot k)
        rw [hversions, Function.update_self]

/-- The order of the events does not matter here. -/
theorem perm (h : Retired e t) (hlog : t'.log.Perm t.log) : Retired e t' := by
  have hdisposed : t'.disposed.Perm t.disposed := hlog.filterMap _
  constructor
  · intro event hevent
    exact h.below (hlog.mem_iff.mp hevent)
  · intro id v hv
    exact hlog.mem_iff.mpr (h.loaded hv)
  · intro id id' v hv hv'
    exact h.swappedOnce (hlog.mem_iff.mp hv) (hlog.mem_iff.mp hv')
  · exact hdisposed.nodup_iff.mpr h.disposedOnce
  · intro v
    rw [hdisposed.mem_iff, h.disposed]
    simp only [hlog.mem_iff]

/-- A new version is swapped in, and the one it replaces is retired. -/
theorem replace (h : Retired e t) (id : ScriptId) (new : GraphId) (registered called : List F)
    (ending : RunEnd VmError) (hnew : ∀ k, .swap k new ∉ t.log)
    (hlog : t'.log = t.log ++ .swap id new ::
      (e.versions id).toList.map fun v => .dispose v registered called ending)
    (hversions : e'.versions = Function.update e.versions id (some new))
    (hnext : ∀ event ∈ t'.log, event.version < e'.nextGraphId) : Retired e' t' := by
  have herased : Engine.versions { e with scripts := e.scripts.erase id } =
      Function.update e.versions id none := Engine.versions_erase rfl
  have hretired : Retired { e with scripts := e.scripts.erase id } (F := F)
      ⟨t.hots, t.log ++ (e.versions id).toList.map fun v => .dispose v registered called ending⟩ :=
    h.retire rfl herased rfl
  have hperm : t'.log.Perm
      (t.log ++ ((e.versions id).toList.map fun v => .dispose v registered called ending) ++
        [.swap id new]) := by
    rw [hlog, List.append_assoc]
    exact (List.perm_append_singleton _ _).symm.append_left t.log
  have hswapped : Retired e' (F := F) ⟨t.hots, t.log ++
      ((e.versions id).toList.map fun v => .dispose v registered called ending) ++ [.swap id new]⟩ := by
    have hgone : Engine.versions { e with scripts := e.scripts.erase id } id = none := by
      rw [herased, Function.update_self]
    refine hretired.swapIn id new hgone ?_ ?_ ?_ ?_
    · intro k hswap
      rcases List.mem_append.mp hswap with hold | hdispose
      · exact hnew k hold
      · obtain ⟨v, -, heq⟩ := List.mem_map.mp hdispose
        cases heq
    · rfl
    · rw [hversions, herased, Function.update_idem]
    · intro event hevent
      exact hnext event (hperm.mem_iff.mpr hevent)
  exact hswapped.perm hperm

theorem version_of_loadEvents {hots : Hots F} {calls : HotCalls F} {id : ScriptId}
    {old : Option GraphId} {new : GraphId} {loaded : Bool} {events : List (HotEvent F)}
    (h : LoadEvents hots calls id old new loaded events) {event : HotEvent F}
    (hevent : event ∈ events) : event.version = new ∨ old = some event.version := by
  have hsave : event ∈ old.toList.map (saveEvent hots calls.saving) → old = some event.version := by
    intro hmem
    obtain ⟨v, hv, rfl⟩ := List.mem_map.mp hmem
    exact Option.mem_toList.mp hv
  cases h with
  | refused => cases hevent
  | saved => exact .inr (hsave hevent)
  | failed data completed _ =>
    rcases List.mem_append.mp hevent with hmem | hmem
    · exact .inr (hsave hmem)
    · simp only [List.mem_cons, List.not_mem_nil, or_false] at hmem
      rcases hmem with rfl | rfl <;> exact .inl rfl
  | swapped data registered called ending _ _ =>
    rcases List.mem_append.mp hevent with hmem | hmem
    · rcases List.mem_append.mp hmem with hmem | hmem
      · exact .inr (hsave hmem)
      · simp only [List.mem_cons, List.not_mem_nil, or_false] at hmem
        rcases hmem with rfl | rfl | rfl <;> exact .inl rfl
    · obtain ⟨v, hv, rfl⟩ := List.mem_map.mp hmem
      exact .inr (Option.mem_toList.mp hv)

theorem load (h : Retired e t) {calls : HotCalls F} {id : ScriptId} {outcome : Outcome Disposed}
    (hlaw : LoadLaw calls id e.nextGraphId e e' t t' outcome)
    (hnumbers : e'.nextGraphId = e.nextGraphId + 1 ∨ e'.nextGraphId = e.nextGraphId ∧
      ∀ event ∈ t'.log, event ∈ t.log ∨ ∃ k, e.versions k = some event.version) :
    Retired e' t' := by
  obtain ⟨loaded, events, hevents, hlog, -, hversions⟩ := hlaw
  have hloaded : ∀ {k v}, e.versions k = some v → v < e.nextGraphId := by
    intro k v hv
    have hbelow := h.below (h.loaded hv)
    exact hbelow
  have hnext : ∀ event ∈ t'.log, event.version < e'.nextGraphId := by
    intro event hevent
    rcases hnumbers with hnumber | ⟨hnumber, hold⟩
    · rw [hlog] at hevent
      rw [hnumber]
      rcases List.mem_append.mp hevent with hmem | hmem
      · exact Nat.lt_succ_of_lt (h.below hmem)
      · rcases version_of_loadEvents hevents hmem with hv | hv
        · rw [hv]
          exact Nat.lt_succ_self _
        · exact Nat.lt_succ_of_lt (hloaded hv)
    · rw [hnumber]
      rcases hold event hevent with hmem | ⟨k, hk⟩
      · exact h.below hmem
      · exact hloaded hk
  have hsaves : ((e.versions id).toList.map (saveEvent t.hots calls.saving)).filterMap
      HotEvent.disposed? = [] := by
    cases e.versions id <;> rfl
  have hunswapped : ∀ k v, .swap k v ∉ (e.versions id).toList.map (saveEvent t.hots calls.saving) := by
    intro k v hmem
    obtain ⟨v', -, heq⟩ := List.mem_map.mp hmem
    cases heq
  cases hevents with
  | refused => exact h.unswapped hlog hversions hnext (fun _ _ => List.not_mem_nil) rfl
  | saved => exact h.unswapped hlog hversions hnext hunswapped hsaves
  | failed data completed _ =>
    apply h.unswapped hlog hversions hnext (by simp [hunswapped])
    rw [List.filterMap_append, hsaves]
    rfl
  | swapped data registered called ending _ _ =>
    have hevaluated : Retired { e with nextGraphId := e'.nextGraphId } (F := F)
        ⟨t.hots, t.log ++ (((e.versions id).toList.map (saveEvent t.hots calls.saving)) ++
          [.makeEnv e.nextGraphId data, .evaluate e.nextGraphId true])⟩ := by
      refine @unswapped _ _ _ _ e { e with nextGraphId := e'.nextGraphId } t ⟨t.hots, _⟩ h _ rfl rfl
        ?_ ?_ ?_
      · intro event hevent
        apply hnext event
        rw [hlog]
        rcases List.mem_append.mp hevent with hmem | hmem
        · exact List.mem_append_left _ hmem
        · apply List.mem_append_right
          simp only [List.mem_append, List.mem_cons, List.not_mem_nil, or_false] at hmem ⊢
          tauto
      · simp [hunswapped]
      · rw [List.filterMap_append, hsaves]
        rfl
    refine hevaluated.replace id e.nextGraphId registered called ending ?_ ?_ hversions hnext
    · intro k hswap
      rcases List.mem_append.mp hswap with hmem | hmem
      · have hbelow := h.below hmem
        exact absurd hbelow (Nat.lt_irrefl _)
      · simp [hunswapped] at hmem
    · rw [hlog]
      simp only [List.append_assoc, List.cons_append, List.nil_append]
      rfl

variable [Min T]

omit [Min T] in
theorem version_lt (h : Retired e t) (id : ScriptId) (v : GraphId) (hv : e.versions id = some v) :
    v < e.nextGraphId := by
  have hbelow := h.below (h.loaded hv)
  exact hbelow

theorem step (h : Retired e t) {calls : HotCalls F} {step : EngineStep Live Origin T}
    (hret : step.Returns e) (hhooked : step.Hooked calls e t) :
    Retired (step.next e) (t.step calls e step) := by
  have hlaw := HotTrace.step_law h.version_lt hret hhooked
  have hnumbers := HotTrace.step_numbers (e := e) calls t step
  cases step with
  | call c =>
    cases c with
    | inline group id transpiled modules run => exact h.load hlaw hnumbers
    | project group id path names transpiled modules run => exact h.load hlaw hnumbers
    | unload id before run after =>
      obtain ⟨⟨registered, called, ending, -, hlog⟩, hversions⟩ := hlaw
      exact h.retire hlog hversions
        ((Engine.nextGraphId_closedUnder 0 _).unloadScript id before run rfl)
  | operate stage earliest =>
    exact h.unswapped ((List.append_nil _).symm : t.log = t.log ++ []) hlaw.1
      (fun _ hevent => h.below hevent) (fun _ _ => List.not_mem_nil) rfl
  | restamp id stamped =>
    exact h.unswapped ((List.append_nil _).symm : t.log = t.log ++ []) hlaw.1
      (fun _ hevent => h.below hevent) (fun _ _ => List.not_mem_nil) rfl

end Retired

/-- What the events say the versions got and did is what the versions keep. -/
structure HotKept {F : Type} (t : HotTrace F) : Prop where
  handed : ∀ {v data}, .makeEnv v data ∈ t.log → (t.hots v).data = data
  called : ∀ {v registered called ending}, .dispose v registered called ending ∈ t.log →
    called <+: registered ∧ registered <+: (t.hots v).disposers ∧
      (ending ≠ .aborted → called = registered)

namespace HotKept
variable {Live Origin T F : Type} {e e' : Engine Live Origin T} {t : HotTrace F}

theorem grown (h : HotKept t) {hots : Hots F} (hgrown : Hots.Grown t.hots hots) :
    HotKept ⟨hots, t.log⟩ where
  handed hevent := (hgrown _).1.trans (h.handed hevent)
  called hevent := (h.called hevent).imp_right fun hkept =>
    hkept.imp_left fun hregistered => hregistered.trans (hgrown _).2

theorem snoc (h : HotKept t) {event : HotEvent F} (henv : ∀ v data, event ≠ .makeEnv v data)
    (hdispose : ∀ v registered called ending, event ≠ .dispose v registered called ending) :
    HotKept ⟨t.hots, t.log ++ [event]⟩ := by
  constructor
  · intro v data hevent
    rcases List.mem_append.mp hevent with hold | hnew
    · exact h.handed hold
    · exact absurd (List.mem_singleton.mp hnew).symm (henv v data)
  · intro v registered called ending hevent
    rcases List.mem_append.mp hevent with hold | hnew
    · exact h.called hold
    · exact absurd (List.mem_singleton.mp hnew).symm (hdispose v registered called ending)

theorem saveHotData (h : HotKept t) (id : ScriptId) (run : SaveRun F) :
    HotKept (t.saveHotData id run e) := by
  unfold HotTrace.saveHotData
  cases e.scripts.get? id with
  | none => exact h
  | some script => exact (h.snoc (by simp) (by simp)).grown (Hots.grown_calls t.hots run.calls)

theorem retire (h : HotKept t) (version : GraphId) (run : DisposeRun F) :
    HotKept (t.retire version run) := by
  have hd := Hots.dispose_spec version run.disposers 0 none t.hots
  have hjobs := Hots.grown_calls (t.hots.dispose version 0 none run.disposers).hots run.jobs
  have hgrown := h.grown (hd.grown.trans hjobs)
  unfold HotTrace.retire
  constructor
  · intro v data hevent
    rcases List.mem_append.mp hevent with hold | hnew
    · exact hgrown.handed hold
    · cases List.mem_singleton.mp hnew
  · intro v registered called ending hevent
    rcases List.mem_append.mp hevent with hold | hnew
    · exact hgrown.called hold
    · cases List.mem_singleton.mp hnew
      exact ⟨hd.called, (hjobs version).2, hd.all⟩

theorem replaceScript (h : HotKept t) (id : ScriptId) (version : GraphId) (run : DisposeRun F) :
    HotKept (t.replaceScript id version run e) := by
  have hswap : HotKept ⟨t.hots, t.log ++ [.swap id version]⟩ := h.snoc (by simp) (by simp)
  unfold HotTrace.replaceScript
  cases e.scripts.get? id with
  | none => exact hswap
  | some previous => exact hswap.retire previous.graphId run

/-- The environment of a version is made once. -/
theorem mount (h : HotKept t) {graph : RuntimeModuleGraph}
    (hfresh : ∀ event ∈ t.log, event.version ≠ graph.graphId) (hotData : Option ObjectId)
    (group : Option Text) (run : MountRun Live T) (calls : List (HotCall F)) :
    HotKept (t.mount graph hotData group run calls e) := by
  unfold HotTrace.mount
  split
  · have hmade : HotKept (F := F) ⟨Function.update t.hots graph.graphId (.new hotData),
        t.log ++ [.makeEnv graph.graphId (hotData.getD undefinedId)]⟩ := by
      constructor
      · intro v data hevent
        dsimp only
        rcases List.mem_append.mp hevent with hold | hnew
        · have hne : v ≠ graph.graphId := hfresh _ hold
          rw [Function.update_of_ne hne]
          exact h.handed hold
        · cases List.mem_singleton.mp hnew
          rw [Function.update_self]
          rfl
      · intro v registered called ending hevent
        dsimp only
        rcases List.mem_append.mp hevent with hold | hnew
        · have hne : v ≠ graph.graphId := hfresh _ hold
          rw [Function.update_of_ne hne]
          exact h.called hold
        · cases List.mem_singleton.mp hnew
    have hevaluated : HotKept (F := F) ⟨Function.update t.hots graph.graphId (.new hotData),
        t.log ++ [.makeEnv graph.graphId (hotData.getD undefinedId)] ++
          [.evaluate graph.graphId run.imported.isOk]⟩ := hmade.snoc (by simp) (by simp)
    rw [List.append_assoc] at hevaluated
    exact hevaluated.grown (Hots.grown_calls _ calls)
  · exact h.grown (Hots.grown_calls t.hots calls)

variable [Min T]

theorem mountGraph (h : HotKept t) {id : ScriptId} {graph : RuntimeModuleGraph}
    (hfresh : ∀ event ∈ t.log, event.version ≠ graph.graphId)
    (hold : ∀ v, e.versions id = some v → v ≠ graph.graphId) (group : Option Text)
    (run : LoadRun Live T) (calls : HotCalls F) :
    HotKept (t.mountGraph id graph group run calls e) := by
  have hsaved := h.saveHotData (e := e) id calls.saving
  have hlog := HotTrace.saveHotData_log id calls.saving e t
  have hfresh' : ∀ event ∈ (t.saveHotData id calls.saving e).log,
      event.version ≠ graph.graphId := by
    intro event hevent
    rw [hlog] at hevent
    rcases List.mem_append.mp hevent with hmem | hmem
    · exact hfresh event hmem
    · obtain ⟨v, hv, rfl⟩ := List.mem_map.mp hmem
      exact hold v (Option.mem_toList.mp hv)
  unfold HotTrace.mountGraph
  dsimp only
  generalize t.saveHotData id calls.saving e = t₁ at hsaved hfresh' ⊢
  generalize e.saveHotData id run.save = r
  obtain ⟨saved, e₁⟩ := r
  cases saved with
  | err failure => exact hsaved
  | panicked => exact hsaved
  | ok hotData =>
    have hmounted := hsaved.mount (e := e₁.requests run.afterSave) hfresh' hotData group run.mount
      calls.mounting
    dsimp only
    generalize (e₁.requests run.afterSave).mount graph group run.mount = r
    obtain ⟨mounted, e₂⟩ := r
    cases mounted with
    | err failure => exact hmounted
    | panicked => exact hmounted
    | ok m => exact hmounted.replaceScript _ _ _

theorem step (h : HotKept t) (hr : Retired e t) (calls : HotCalls F)
    (step : EngineStep Live Origin T) : HotKept (t.step calls e step) := by
  have hfresh : ∀ event ∈ t.log, event.version ≠ e.nextGraphId :=
    fun event hevent => Nat.ne_of_lt (hr.below hevent)
  have hold : ∀ {id} v, e.versions id = some v → v ≠ e.nextGraphId := by
    intro id v hv
    have hbelow := hr.below (hr.loaded hv)
    exact Nat.ne_of_lt hbelow
  cases step with
  | operate stage earliest => exact h.grown (Hots.grown_calls t.hots calls.operating)
  | restamp id stamped => exact h
  | call c =>
    cases c with
    | unload id before run after =>
      unfold HotTrace.step HotTrace.call
      dsimp only
      cases e.scripts.get? id with
      | none => exact h
      | some script => exact h.retire script.graphId calls.disposing
    | inline group id transpiled modules run =>
      cases transpiled with
      | error error => exact h
      | ok script =>
        cases modules with
        | error error => exact h
        | ok modules =>
          refine h.mountGraph (e := Engine.insertGraph _
            ((e.requests run.before).installHostModules modules)) ?_ ?_ group run calls
          · exact hfresh
          · exact hold
    | project group id path names transpiled modules run =>
      cases names with
      | error error => exact h
      | ok _ =>
        cases transpiled with
        | error failure => exact h
        | ok compiled =>
          cases modules with
          | error error => exact h
          | ok modules =>
            unfold HotTrace.step HotTrace.call
            dsimp only
            split
            · next graph store hins =>
              obtain ⟨hgraph, -⟩ := ModuleStore.insertProject_eq_ok hins
              rw [← show graph.graphId = e.nextGraphId from hgraph] at hfresh hold
              exact h.mountGraph (e := Engine.insertGraph store
                ((e.requests run.before).installHostModules modules)) hfresh hold group run calls
            · exact h

end HotKept

/-- An engine, what its scripts' versions keep, and the events so far. -/
structure HandOver (Live Origin T F : Type) where
  engine : Engine Live Origin T
  trace : HotTrace F

namespace HandOver
variable {Live Origin T F : Type} [Min T]

def new (executionTimeout : Nat) (never : T) : HandOver Live Origin T F :=
  ⟨.new executionTimeout never, fun _ => .new none, []⟩

/-- Performs a step, with the calls of `ctx.hot` its JavaScript makes. -/
def next (s : HandOver Live Origin T F) (step : EngineStep Live Origin T) (calls : HotCalls F) :
    HandOver Live Origin T F :=
  ⟨step.next s.engine, s.trace.step calls s.engine step⟩

/-- A step whose call returns: no host function panics. Its stages return what the hooks give. -/
def Step (s : HandOver Live Origin T F) (step : EngineStep Live Origin T × HotCalls F)
    (s' : HandOver Live Origin T F) : Prop :=
  step.1.Returns s.engine ∧ step.1.Hooked step.2 s.engine s.trace ∧ s.next step.1 step.2 = s'

def Reached (s : HandOver Live Origin T F) : Prop :=
  ∃ timeout never steps, Transition.Run Step (HandOver.new timeout never) steps s

variable {s : HandOver Live Origin T F}

theorem Reached.recorded (h : s.Reached) :
    Retired s.engine s.trace ∧ HotKept s.trace := by
  obtain ⟨timeout, never, steps, hrun⟩ := h
  have hpreserves : Transition.Preserves (Step : HandOver Live Origin T F → _)
      fun s => Retired s.engine s.trace ∧ HotKept s.trace := by
    rintro s ⟨step, calls⟩ s' ⟨hr, hrec⟩ ⟨hret, hhooked, rfl⟩
    exact ⟨hr.step hret hhooked, hrec.step hr calls step⟩
  apply hrun.invariant hpreserves
  constructor
  · refine ⟨nofun, nofun, nofun, List.nodup_nil, fun {v} => ?_⟩
    constructor
    · intro hd
      cases hd
    · rintro ⟨⟨id, hswap⟩, -⟩
      cases hswap
  · exact ⟨nofun, nofun⟩

/-- In every history the hook `dispose` of a version is called once at most, and was called exactly
for the versions that were swapped in and are not loaded any more. Each call runs the disposers that
the version registered in the order of their registration, none twice, and all of them unless an abort
cuts it; `ctx.hot.data` is what the environment was made with. The next step only retires a version by
an unload, or by a load that evaluated and swapped in another one; a load calls the callback that the
loaded version registered with `save` before it makes or evaluates its version, with what that call
returned, and with `undefined` where none is loaded or registered. -/
theorem hand_over_law (h : s.Reached) :
    s.trace.disposed.Nodup ∧
    (∀ v, v ∈ s.trace.disposed ↔
      (∃ id, .swap id v ∈ s.trace.log) ∧ ∀ id, s.engine.versions id ≠ some v) ∧
    (∀ v registered called ending, .dispose v registered called ending ∈ s.trace.log →
      called <+: registered ∧ registered <+: (s.trace.hots v).disposers ∧
        (ending ≠ .aborted → called = registered)) ∧
    (∀ v data, .makeEnv v data ∈ s.trace.log → (s.trace.hots v).data = data) ∧
    (∀ event ∈ s.trace.log, event.version < s.engine.nextGraphId) ∧
    ∀ (step : EngineStep Live Origin T) (calls : HotCalls F), step.Returns s.engine →
      step.Hooked calls s.engine s.trace →
      step.HandsOver calls s.engine (s.next step calls).engine s.trace (s.next step calls).trace := by
  obtain ⟨hretired, hrecorded⟩ := h.recorded
  refine ⟨hretired.disposedOnce, fun v => hretired.disposed, ?_, ?_, ?_, ?_⟩
  · intro v registered called ending hevent
    exact hrecorded.called hevent
  · intro v data hevent
    exact hrecorded.handed hevent
  · intro event hevent
    exact hretired.below hevent
  · intro step calls hret hhooked
    exact HotTrace.step_law hretired.version_lt hret hhooked

end HandOver

/-- A load of script `a` during which the hook `save` of the loaded version returns `saved`, and its
hook `dispose` `disposed`. -/
def hotLoad (saved disposed imported : Except VmError ObjectId) : LifecycleCall Nat Unit Nat :=
  .inline none ['a'] (.ok ⟨[], (), []⟩) (.ok ⟨noModules, noModules⟩)
    { before := 0
      save := ⟨.quiet [], saved, .quiet⟩
      afterSave := 0
      mount := ⟨.ok 0, [], .ok 0, .quiet [], .ok (0, 0), imported, 0, .quiet⟩
      afterMount := 0
      dispose := ⟨.quiet [], disposed, .quiet⟩
      after := 0 }

/-- A load, a reload that fails, one that succeeds, and an unload. Version 0 registers a callback to
save and two disposers, the first of which throws; version 2 registers nothing. -/
def hotSteps : List (EngineStep Nat Unit Nat × HotCalls Nat) :=
  let disposing : DisposeRun Nat := ⟨[⟨[], .threw .cancelled⟩, ⟨[], .returned⟩], [], .interrupted⟩
  [(.call (hotLoad (.ok 0) (.ok 0) (.ok 0)), { HotCalls.none with
      mounting := [⟨0, .save, some 4⟩, ⟨0, .dispose, some 7⟩, ⟨0, .dispose, some 8⟩] }),
    (.call (hotLoad (.ok 5) (.error .cancelled) (.error .cancelled)), { HotCalls.none with
      saving := ⟨[], .ok 5, none⟩, disposing := disposing }),
    (.call (hotLoad (.ok 6) (.error .cancelled) (.ok 0)), { HotCalls.none with
      saving := ⟨[], .ok 6, none⟩, disposing := disposing }),
    (.call (.unload ['a'] 0 (.quiet []) 0), .none)]

def afterHotSteps : HandOver Nat Unit Nat Nat :=
  hotSteps.foldl (fun s step => s.next step.1 step.2) (.new u64Max 0)

theorem hand_over_law_hotSteps :
    afterHotSteps.trace.disposed = [0, 2] ∧ afterHotSteps.trace.disposed.Nodup ∧
      (afterHotSteps.trace.hots 2).data = 6 ∧ [7, 8] <+: (afterHotSteps.trace.hots 0).disposers := by
  have hreached : afterHotSteps.Reached := by
    refine ⟨u64Max, 0, hotSteps, ?_⟩
    refine .cons ⟨nofun, fun v hv => ?_, rfl⟩ (.cons ⟨nofun, fun v hv => ?_, rfl⟩
      (.cons ⟨nofun, fun v hv => ?_, rfl⟩ (.cons ⟨nofun, fun v hv => ?_, rfl⟩ (.nil _))))
    · cases hv
    · cases hv
      exact ⟨rfl, rfl⟩
    · cases hv
      exact ⟨rfl, rfl⟩
    · cases hv
      rfl
  obtain ⟨honce, -, hcalled, hhanded, -, -⟩ := HandOver.hand_over_law hreached
  have hlog : afterHotSteps.trace.log =
      [.makeEnv 0 undefinedId, .evaluate 0 true, .swap ['a'] 0,
        .save 0 (some 4) (.ok 5), .makeEnv 1 5, .evaluate 1 false,
        .save 0 (some 4) (.ok 6), .makeEnv 2 6, .evaluate 2 true, .swap ['a'] 2,
        .dispose 0 [7, 8] [7, 8] (.threw .cancelled), .dispose 2 [] [] .returned] := rfl
  have hdisposed := hcalled 0 [7, 8] [7, 8] (.threw .cancelled) (by simp [hlog])
  refine ⟨rfl, honce, hhanded 2 6 ?_, hdisposed.2.1⟩
  simp [hlog]

end RustTS.Runner
