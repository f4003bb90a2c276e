import RustTS.Runner.FailedLoad

/-! Counts of the context groups. Every loaded script holds a place in its group, a load takes
its version's place before the replaced one gives up its own, and a group goes with its last
place. -/
namespace RustTS.Runner
open ModuleLoader Compiler

variable {Live Origin T : Type}

/-- A place in a group, or outside of every group, and the context it is held in. -/
abbrev Place := Option Text × ContextId

/-- The groups count the places held in them; only the group `pending` may have none yet. -/
structure Held (groups : Text → Option ScriptGroup) (pending : Option Text) (places : List Place) :
    Prop where
  counted : ∀ {name g}, groups name = some g →
    g.scripts = places.countP fun place => decide (place.1 = some name)
  used : ∀ {name g}, groups name = some g → pending ≠ some name → 0 < g.scripts
  context : ∀ {name c}, (some name, c) ∈ places → ∃ g, groups name = some g ∧ g.context = c

namespace Held

variable {groups : Text → Option ScriptGroup} {pending group : Option Text} {places : List Place}
  {c : ContextId}

theorem perm {places' : List Place} (h : Held groups pending places)
    (hp : places.Perm places') : Held groups pending places' where
  counted hg := (h.counted hg).trans (hp.countP_eq _)
  used := h.used
  context hc := h.context (hp.mem_iff.mpr hc)

private theorem pend (h : Held groups none places) (pending : Option Text) : Held groups pending places :=
  ⟨h.counted, fun hg _ => h.used hg nofun, h.context⟩

/-- A group that is named by no place and has no entry may be made. -/
theorem create {name : Text} {g : ScriptGroup} (h : Held groups none places)
    (hname : groups name = none) (hg : g.scripts = 0) :
    Held (Function.update groups name (some g)) (some name) places where
  counted {other k} hk := by
    by_cases hother : other = name
    · subst hother
      obtain rfl : g = k := by simpa using hk
      rw [hg, eq_comm, List.countP_eq_zero]
      rintro ⟨group, c⟩ hplace hin
      obtain rfl : group = some other := by simpa using hin
      obtain ⟨k, hk', -⟩ := h.context hplace
      rw [hname] at hk'
      cases hk'
    · exact h.counted (by simpa [hother] using hk)
  used {other k} hk hne := by
    have hother : other ≠ name := fun ho => hne (by rw [ho])
    exact h.used (by simpa [hother] using hk) nofun
  context {other c} hplace := by
    obtain ⟨k, hk, hc⟩ := h.context hplace
    have hother : other ≠ name := by
      rintro rfl
      rw [hname] at hk
      cases hk
    exact ⟨k, by simpa [hother] using hk, hc⟩

/-- A place in a group whose context it is held in. -/
theorem join {name : Text} {g : ScriptGroup} (h : Held groups pending places)
    (hpending : pending = none ∨ pending = some name) (hg : groups name = some g) :
    Held (Function.update groups name (some { g with scripts := g.scripts + 1 })) none
      ((some name, g.context) :: places) where
  counted {other k} hk := by
    by_cases hother : other = name
    · subst hother
      obtain rfl : { g with scripts := g.scripts + 1 } = k := by simpa using hk
      simp [h.counted hg]
    · have hk' : groups other = some k := by simpa [hother] using hk
      have hne : ¬name = other := fun ho => hother ho.symm
      simp [h.counted hk', hne]
  used {other k} hk _ := by
    by_cases hother : other = name
    · subst hother
      obtain rfl : { g with scripts := g.scripts + 1 } = k := by simpa using hk
      exact Nat.succ_pos _
    · apply h.used (by simpa [hother] using hk)
      rintro rfl
      rcases hpending with hp | hp
      · cases hp
      · exact hother (Option.some.inj hp)
  context {other c} hplace := by
    rcases List.mem_cons.mp hplace with heq | hplace
    · obtain ⟨hname, rfl⟩ := Prod.mk.inj heq
      obtain rfl := Option.some.inj hname
      exact ⟨_, Function.update_self _ _ _, rfl⟩
    · obtain ⟨k, hk, hc⟩ := h.context hplace
      by_cases hother : other = name
      · subst hother
        obtain rfl : g = k := by
          rw [hg] at hk
          exact Option.some.inj hk
        exact ⟨_, Function.update_self _ _ _, hc⟩
      · exact ⟨k, by simpa [hother] using hk, hc⟩

theorem outside (h : Held groups none places) (c : ContextId) :
    Held groups none ((none, c) :: places) where
  counted hg := by simp [h.counted hg]
  used := h.used
  context hplace := by
    rcases List.mem_cons.mp hplace with heq | hplace
    · cases heq
    · exact h.context hplace

private theorem positive {name : Text} (h : Held groups none ((some name, c) :: places)) :
    ∃ g, groups name = some g ∧ 0 < g.scripts := by
  obtain ⟨g, hg, -⟩ := h.context List.mem_cons_self
  exact ⟨g, hg, h.used hg nofun⟩

/-- Giving up a place: the group goes with its last one. -/
theorem leave {name : Text} {g : ScriptGroup} (h : Held groups none ((some name, c) :: places))
    (hg : groups name = some g) :
    Held (Function.update groups name
      (if g.scripts - 1 = 0 then none else some { g with scripts := g.scripts - 1 })) none places := by
  have hcount : g.scripts = (places.countP fun place => decide (place.1 = some name)) + 1 := by
    have hcounted := h.counted hg
    simpa using hcounted
  have hother : ∀ {other}, other ≠ name → ∀ value, Function.update groups name value other =
      groups other := fun ho value => Function.update_of_ne ho _ _
  constructor
  · intro other k hk
    by_cases ho : other = name
    · subst ho
      rw [Function.update_self] at hk
      split_ifs at hk
      obtain rfl := Option.some.inj hk
      show g.scripts - 1 = _
      omega
    · rw [hother ho] at hk
      have hne : ¬name = other := fun hname => ho hname.symm
      simpa [hne] using h.counted hk
  · intro other k hk _
    by_cases ho : other = name
    · subst ho
      rw [Function.update_self] at hk
      split_ifs at hk with hzero
      obtain rfl := Option.some.inj hk
      exact Nat.pos_of_ne_zero hzero
    · rw [hother ho] at hk
      exact h.used hk nofun
  · intro other c' hplace
    obtain ⟨k, hk, hc⟩ := h.context (List.mem_cons_of_mem _ hplace)
    by_cases ho : other = name
    · subst ho
      obtain rfl : g = k := by
        rw [hg] at hk
        exact Option.some.inj hk
      have hpos : 0 < places.countP fun place => decide (place.1 = some other) :=
        List.countP_pos_iff.mpr ⟨_, hplace, by simp⟩
      have hleft : g.scripts - 1 ≠ 0 := by omega
      exact ⟨{ g with scripts := g.scripts - 1 }, by rw [Function.update_self, if_neg hleft], hc⟩
    · exact ⟨k, by rw [hother ho, hk], hc⟩

end Held

/-- The place a script holds. -/
def EngineScript.place (script : EngineScript Live) : Place := (script.group, script.context)

namespace Engine

def places (e : Engine Live Origin T) : List Place :=
  e.scripts.values.map EngineScript.place

/-- The groups count the loaded scripts, every one of which is in its group's context. -/
def GroupsHeld (e : Engine Live Origin T) : Prop := Held e.groups none e.places

variable {e e' : Engine Live Origin T} {group : Option Text}

theorem joinGroup_held {places : List Place} {c : ContextId} (h : Held e.groups group places)
    (hcontext : ∀ name, group = some name → ∃ g, e.groups name = some g ∧ g.context = c) :
    Held (e.joinGroup group).groups none ((group, c) :: places) := by
  unfold joinGroup
  cases group with
  | none => exact h.outside c
  | some name =>
    obtain ⟨g, hg, rfl⟩ := hcontext name rfl
    simp only [hg]
    exact h.join (.inr rfl) hg

private theorem leaveGroup_held {place : Place} {places : List Place}
    (h : Held e.groups none (place :: places)) : Held (e.leaveGroup place.1).groups none places := by
  obtain ⟨group, c⟩ := place
  unfold leaveGroup
  cases group with
  | none =>
    exact ⟨fun hg => by simpa using h.counted hg, h.used,
      fun hc => h.context (List.mem_cons_of_mem _ hc)⟩
  | some name =>
    obtain ⟨g, hg, -⟩ := h.positive
    simp only [hg]
    exact h.leave hg

theorem leaveGroup_scripts (group : Option Text) (e : Engine Live Origin T) :
    (e.leaveGroup group).scripts = e.scripts := by
  unfold leaveGroup
  cases group with
  | none => rfl
  | some name =>
    dsimp only
    cases e.groups name <;> rfl

theorem joinGroup_scripts (group : Option Text) (e : Engine Live Origin T) :
    (e.joinGroup group).scripts = e.scripts := by
  unfold joinGroup
  cases group with
  | none => rfl
  | some name =>
    dsimp only
    cases e.groups name <;> rfl

theorem map_values_eq {α : Type} {f : EngineScript Live → α}
    {change : ScriptId → EngineScript Live → EngineScript Live}
    (h : e'.scripts = e.scripts.mapValues change)
    (hchange : ∀ id script, f (change id script) = f script) :
    e'.scripts.values.map f = e.scripts.values.map f := by
  rw [h, IndexMap.values_mapValues, List.map_map]
  show e.scripts.entries.map (fun entry => f (change entry.1 entry.2)) = _
  simp only [hchange, IndexMap.values, List.map_map]
  rfl

theorem watchFailedAttempt_map {α : Type} {f : EngineScript Live → α}
    (hf : ∀ script origin, f { script with origin := origin } = f script) (id : ScriptId)
    (watched : WatchedFiles) (e : Engine Live Origin T) :
    (e.watchFailedAttempt id watched).scripts.values.map f = e.scripts.values.map f := by
  have hscripts : (e.watchFailedAttempt id watched).scripts = e.scripts.mapValues fun k script =>
      if k = id then { script with origin := script.origin.watch watched } else script := rfl
  apply map_values_eq hscripts
  intro k script
  split_ifs
  · exact hf _ _
  · rfl

theorem discardGraph_map {α : Type} {f : EngineScript Live → α}
    (hf : ∀ script origin, f { script with origin := origin } = f script) (id : ScriptId)
    (graph : RuntimeModuleGraph) (origin : ScriptOrigin) (e : Engine Live Origin T) :
    (e.discardGraph id graph origin).scripts.values.map f = e.scripts.values.map f := by
  unfold discardGraph
  cases origin.project with
  | none => rfl
  | some project =>
    exact watchFailedAttempt_map hf id project.watched
      { e with store := e.store.removeModules graph.moduleIds }

private theorem discardGraph_groups (id : ScriptId) (graph : RuntimeModuleGraph) (origin : ScriptOrigin)
    (e : Engine Live Origin T) : (e.discardGraph id graph origin).groups = e.groups := by
  unfold discardGraph
  cases origin.project <;> rfl

private theorem importEntry_scripts (graph : RuntimeModuleGraph) (group : Option Text)
    (run : MountRun Live T) (e : Engine Live Origin T) :
    (e.importEntry graph group run).2.scripts = e.scripts := by
  unfold importEntry
  cases run.env with
  | error error => rfl
  | ok made => cases group <;> rfl

theorem importEntry_groups (graph : RuntimeModuleGraph) (group : Option Text)
    (run : MountRun Live T) (e : Engine Live Origin T) :
    (e.importEntry graph group run).2.groups = e.groups := by
  unfold importEntry
  cases run.env with
  | error error => rfl
  | ok made => cases group <;> rfl

theorem target_held {run : MountRun Live T} {t : Target} {places : List Place}
    (hh : Held e.groups none places) (h : e.target group run = (.ok t, e')) :
    Held e'.groups group places ∧
      ∀ name, group = some name → ∃ g, e'.groups name = some g ∧ g.context = t.context := by
  unfold target at h
  cases group with
  | none =>
    dsimp only [Option.bind_none] at h
    split at h
    · cases h
    · split at h
      · cases h
      · cases h
        exact ⟨hh, nofun⟩
  | some name =>
    dsimp only [Option.bind_some] at h
    cases hg : e.groups name with
    | some existing =>
      rw [hg] at h
      cases h
      refine ⟨hh.pend _, fun other ho => ?_⟩
      obtain rfl := Option.some.inj ho
      exact ⟨existing, hg, rfl⟩
    | none =>
      rw [hg] at h
      dsimp only at h
      split at h
      · cases h
      · split at h
        · cases h
        · cases h
          refine ⟨hh.create hg rfl, fun other ho => ?_⟩
          obtain rfl := Option.some.inj ho
          exact ⟨_, Function.update_self _ _ _, rfl⟩

section
variable [Min T]

private theorem runHook_held (run : HookRun Live T) (e : Engine Live Origin T) :
    (e.runHook run).2.groups = e.groups ∧ (e.runHook run).2.places = e.places :=
  ⟨rfl, map_values_eq (runHook_kept 0 [] run e).scripts fun _ _ => rfl⟩

theorem retire_held {script : EngineScript Live} {run : HookRun Live T} {disposed : Disposed}
    (h : Held e.groups none (script.place :: e.places))
    (hr : e.retire script run = (.ok disposed, e')) : e'.GroupsHeld := by
  obtain ⟨hgroups, hplaces⟩ := runHook_held run e
  have hheld : Held (e.runHook run).2.groups none (script.place :: (e.runHook run).2.places) := by
    rw [hgroups, hplaces]
    exact h
  unfold retire at hr
  dsimp only at hr
  generalize e.runHook run = r at hr hheld
  obtain ⟨outcome, e₁⟩ := r
  have hleave : Held (leaveGroup script.group { e₁ with
      store := e₁.store.removeModules script.moduleIds
      envs := Function.update e₁.envs script.graphId none }).groups none e₁.places :=
    @leaveGroup_held _ _ _ _ script.place e₁.places hheld
  have hresult : e'.groups = (leaveGroup script.group { e₁ with
      store := e₁.store.removeModules script.moduleIds
      envs := Function.update e₁.envs script.graphId none }).groups ∧ e'.scripts = e₁.scripts := by
    cases outcome with
    | panicked => cases hr
    | _ =>
      obtain rfl := (congrArg Prod.snd hr).symm
      exact ⟨rfl, leaveGroup_scripts _ _⟩
  unfold GroupsHeld places
  rw [hresult.1, hresult.2]
  exact hleave

/-- What a mount does to the entries of the loaded scripts: their code may have changed them. -/
theorem mount_scripts (graph : RuntimeModuleGraph) (group : Option Text) (run : MountRun Live T)
    (e : Engine Live Origin T) : (e.mount graph group run).2.scripts =
      e.scripts.mapValues fun k script => { script with live := run.stage.live k script.live } := by
  have hf := target_frame group run e.enter
  unfold mount
  dsimp only
  generalize e.enter.target group run = r at hf ⊢
  obtain ⟨target, e₁⟩ := r
  have hscripts : e₁.scripts = e.scripts := hf.1
  cases target with
  | error error => exact runStage_scripts run.stage hscripts
  | ok t =>
    have hms := (markGraph_frame graph group e₁).1
    have hi := importEntry_scripts graph group run ((e₁.markGraph graph group).runStage run.stage)
    dsimp only
    generalize ((e₁.markGraph graph group).runStage run.stage).importEntry graph group run = r
      at hi ⊢
    obtain ⟨imported, e₂⟩ := r
    have hstage := hi.trans (runStage_scripts run.stage (hms.trans hscripts))
    dsimp only
    generalize hfin : e₂.finish run.settling imported = r
    obtain ⟨outcome, e₃⟩ := r
    obtain rfl : e₃ = e₂.leave := (congrArg Prod.snd hfin).symm
    cases outcome <;> exact hstage

theorem mount_ok_held {graph : RuntimeModuleGraph} {run : MountRun Live T} {m : Mounted Live}
    {places : List Place} (hh : Held e.groups none places)
    (h : e.mount graph group run = (.ok m, e')) :
    Held e'.groups group places ∧
      ∀ name, group = some name → ∃ g, e'.groups name = some g ∧ g.context = m.context := by
  unfold mount at h
  dsimp only at h
  cases hr : e.enter.target group run with
  | mk target e₁ =>
    rw [hr] at h
    cases target with
    | error failure =>
      have herror : (attributeInterrupt _ (settle _ run.settling (Except.error failure)) :
        Outcome (Mounted Live)) = .ok m := congrArg Prod.fst h
      rw [attributeInterrupt_settle_eq_ok] at herror
      cases herror.1
    | ok t =>
      have hheld := target_held (e := e.enter) hh hr
      have hmg := (markGraph_frame graph group e₁).2.1
      have hi := importEntry_groups graph group run ((e₁.markGraph graph group).runStage run.stage)
      dsimp only at h
      generalize ((e₁.markGraph graph group).runStage run.stage).importEntry graph group run = r
        at h hi
      obtain ⟨imported, e₂⟩ := r
      have hgroups : e₂.groups = e₁.groups := hi.trans hmg
      dsimp only at h
      generalize hfin : e₂.finish run.settling imported = r at h
      obtain ⟨outcome, e₃⟩ := r
      obtain rfl : e₃ = e₂.leave := (congrArg Prod.snd hfin).symm
      cases outcome with
      | err failure => cases h
      | panicked => cases h
      | ok made =>
        cases h
        have hleft : e₂.leave.groups = e₁.groups := hgroups
        rw [hleft]
        exact hheld

theorem mount_err_groups {graph : RuntimeModuleGraph} {run : MountRun Live T} {error : VmError}
    (h : e.mount graph group run = (.err error, e')) : e'.groups = e.groups := by
  unfold mount at h
  dsimp only at h
  cases hr : e.enter.target group run with
  | mk target e₁ =>
    rw [hr] at h
    cases target with
    | error failure =>
      obtain rfl : e' = (e₁.runStage run.stage).leave := (congrArg Prod.snd h).symm
      have hgroups := target_error hr
      exact hgroups
    | ok t =>
      have hmg := (markGraph_frame graph group e₁).2.1
      have hi := importEntry_groups graph group run ((e₁.markGraph graph group).runStage run.stage)
      dsimp only at h
      generalize ((e₁.markGraph graph group).runStage run.stage).importEntry graph group run = r
        at h hi
      obtain ⟨imported, e₂⟩ := r
      have hgroups : e₂.groups = e₁.groups := hi.trans hmg
      dsimp only at h
      generalize hfin : e₂.finish run.settling imported = r at h
      obtain ⟨outcome, e₃⟩ := r
      obtain rfl : e₃ = e₂.leave := (congrArg Prod.snd hfin).symm
      cases outcome with
      | ok made => cases h
      | panicked => cases h
      | err failure =>
        obtain rfl : e' = e₂.leave.unmount graph group _ := (congrArg Prod.snd h).symm
        exact (congrArg (removeGroup _) hgroups).trans (target_ok hr)

theorem saveHotData_held (id : ScriptId) (run : HookRun Live T) (e : Engine Live Origin T) :
    (e.saveHotData id run).2.groups = e.groups ∧ (e.saveHotData id run).2.places = e.places := by
  have hk := saveHotData_kept 0 [] id run e
  exact ⟨hk.groups, map_values_eq hk.scripts fun _ _ => rfl⟩

theorem replaceScript_held {id : ScriptId} {script : EngineScript Live} {run : HookRun Live T}
    {disposed : Disposed} (h : Held e.groups none (script.place :: e.places))
    (hr : e.replaceScript id script run = (.ok disposed, e')) : e'.GroupsHeld := by
  unfold replaceScript at hr
  dsimp only at hr
  cases hp : e.scripts.get? id with
  | none =>
    rw [hp] at hr
    cases hr
    exact h.perm ((IndexMap.values_insert_perm_of_not_mem script hp).map EngineScript.place)
  | some previous =>
    rw [hp] at hr
    dsimp only at hr
    generalize hret : retire previous run { e with scripts := e.scripts.insert id script } = r at hr
    obtain ⟨outcome, e₁⟩ := r
    cases outcome with
    | err error => cases hr
    | panicked => cases hr
    | ok disposed' =>
      obtain rfl : e' = e₁ := (congrArg Prod.snd hr).symm
      exact retire_held (e := { e with scripts := e.scripts.insert id script })
        (h.perm ((IndexMap.values_insert_perm hp).map EngineScript.place)) hret

theorem mountGraph_held {id : ScriptId} {graph : RuntimeModuleGraph} {origin : ScriptOrigin}
    {run : LoadRun Live T} (h : e.GroupsHeld)
    (hret : (e.mountGraph id graph origin group run).1 ≠ .panicked) :
    (e.mountGraph id graph origin group run).2.GroupsHeld := by
  have hs := saveHotData_held id run.save e
  unfold mountGraph at hret ⊢
  generalize e.saveHotData id run.save = r at hs hret ⊢
  obtain ⟨saved, e₁⟩ := r
  have hheld : Held e₁.groups none e₁.places := by
    rw [hs.1, hs.2]
    exact h
  have hdiscard : ∀ e₂ : Engine Live Origin T, e₂.groups = e₁.groups → e₂.places = e₁.places →
      (e₂.discardGraph id graph origin).GroupsHeld := by
    intro e₂ hgroups hplaces
    have hmap := discardGraph_map (f := EngineScript.place) (fun _ _ => rfl) id graph origin e₂
    unfold GroupsHeld places
    rw [discardGraph_groups, hmap, hgroups]
    show Held e₁.groups none e₂.places
    rw [hplaces]
    exact hheld
  cases saved with
  | panicked => exact absurd rfl hret
  | err failure => exact hdiscard e₁ rfl rfl
  | ok data =>
    have hplaces : ((e₁.requests run.afterSave).mount graph group run.mount).2.places = e₁.places :=
      map_values_eq (e := e₁.requests run.afterSave) (mount_scripts graph group run.mount _)
        fun _ _ => rfl
    dsimp only at hret ⊢
    generalize hm : (e₁.requests run.afterSave).mount graph group run.mount = r at hplaces hret ⊢
    obtain ⟨mounted, e₂⟩ := r
    cases mounted with
    | panicked => exact absurd rfl hret
    | err failure => exact hdiscard e₂ (mount_err_groups (e := e₁.requests run.afterSave) hm) hplaces
    | ok m =>
      obtain ⟨hpending, hcontext⟩ := mount_ok_held (e := e₁.requests run.afterSave) hheld hm
      dsimp only at hret ⊢
      have hjoined := joinGroup_held (e := e₂.requests run.afterMount) hpending hcontext
      have hjoinedPlaces : ((e₂.requests run.afterMount).joinGroup group).places = e₁.places := by
        unfold places
        rw [joinGroup_scripts]
        exact hplaces
      generalize (e₂.requests run.afterMount).joinGroup group = e₃ at hjoined hjoinedPlaces hret ⊢
      generalize hrep : e₃.replaceScript id _ run.dispose = r at hret ⊢
      obtain ⟨outcome, e₄⟩ := r
      cases outcome with
      | panicked => exact absurd rfl hret
      | err error => exact absurd (congrArg Prod.fst hrep) (replaceScript_ne_err _ _ _ error)
      | ok disposed =>
        rw [← hjoinedPlaces] at hjoined
        exact replaceScript_held hjoined hrep

theorem unloadScript_held {id : ScriptId} {before : Nat} {run : HookRun Live T} (h : e.GroupsHeld)
    (hret : (e.unloadScript id before run).1 ≠ .panicked) :
    (e.unloadScript id before run).2.GroupsHeld := by
  unfold unloadScript at hret ⊢
  dsimp only at hret ⊢
  have hheld : (e.requests before).GroupsHeld := h
  generalize e.requests before = e₀ at hheld hret ⊢
  cases hs : e₀.scripts.get? id with
  | none => exact hheld
  | some script =>
    rw [hs] at hret
    dsimp only at hret ⊢
    have hplaces := hheld.perm ((IndexMap.values_erase_perm hs).map EngineScript.place)
    generalize hr : retire script run { e₀ with scripts := e₀.scripts.erase id } = r at hret ⊢
    obtain ⟨outcome, e₁⟩ := r
    cases outcome with
    | panicked => exact absurd rfl hret
    | err error => exact absurd (congrArg Prod.fst hr) (retire_ne_err script run error)
    | ok disposed => exact retire_held (e := { e₀ with scripts := e₀.scripts.erase id }) hplaces hr

theorem mountInline_held {id : ScriptId} {transpiled : Except VmError (TranspiledScript Origin)}
    {modules : Except VmError HostModules} {run : LoadRun Live T} (h : e.GroupsHeld)
    (hret : (e.mountInline group id transpiled modules run).1 ≠ .panicked) :
    (e.mountInline group id transpiled modules run).2.GroupsHeld := by
  unfold mountInline at hret ⊢
  cases transpiled with
  | error error => exact h
  | ok script =>
    cases modules with
    | error error => exact h
    | ok modules =>
      dsimp only at hret ⊢
      exact mountGraph_held (e := insertGraph _ ((e.requests run.before).installHostModules modules))
        h hret

theorem mountProject_held {id : ScriptId} {entryPath : Text} {names : Except VmError Unit}
    {transpiled : Except ProjectFailure (TranspiledProject Origin)}
    {modules : Except VmError HostModules} {run : LoadRun Live T} (h : e.GroupsHeld)
    (hret : (e.mountProject group id entryPath names transpiled modules run).1 ≠ .panicked) :
    (e.mountProject group id entryPath names transpiled modules run).2.GroupsHeld := by
  unfold mountProject at hret ⊢
  cases names with
  | error error => exact h
  | ok _ =>
    cases transpiled with
    | error failure =>
      have hmap := watchFailedAttempt_map (f := EngineScript.place) (fun _ _ => rfl) id
        failure.watched (e.requests run.before)
      show Held e.groups none ((watchFailedAttempt id failure.watched
        (e.requests run.before)).scripts.values.map EngineScript.place)
      rw [hmap]
      exact h
    | ok project =>
      cases modules with
      | error error => exact h
      | ok modules =>
        dsimp only at hret ⊢
        split at hret
        · exact h
        · next graph store hins =>
          exact mountGraph_held
            (e := insertGraph store ((e.requests run.before).installHostModules modules)) h hret

end

end Engine

namespace Engine
variable [Min T]

/-- The count that giving up the place of a version lowers. -/
def lowered (script : EngineScript Live) (e : Engine Live Origin T) : Option ScriptGroup :=
  script.group.bind e.groups

/-- The count a load lowers for the version it replaces, after that version's last hook: hooks
change no group. -/
def loweredByMount (id : ScriptId) (graph : RuntimeModuleGraph) (group : Option Text)
    (run : LoadRun Live T) (e : Engine Live Origin T) : Option ScriptGroup :=
  match e.saveHotData id run.save with
  | (.ok _, e) =>
    match (e.requests run.afterSave).mount graph group run.mount with
    | (.ok _, e) =>
      let e := (e.requests run.afterMount).joinGroup group
      (e.scripts.get? id).bind fun previous => e.lowered previous
    | _ => none
  | _ => none

end Engine

/-- The call of a step returns normally. -/
def EngineStep.Returns [Min T] (e : Engine Live Origin T) : EngineStep Live Origin T → Prop
  | .call c => (c.run e).1 ≠ .panicked
  | _ => True

/-- A state reached by calls that return normally. -/
def Engine.ReachedByReturns [Min T] (e : Engine Live Origin T) : Prop :=
  ∃ timeout never steps, Transition.Run (fun e step e' => EngineStep.Returns e step ∧
    EngineStep.next e step = e') (Engine.new timeout never) steps e

/-- The count a call lowers, if it retires a version of a group. -/
def LifecycleCall.lowered [Min T] (e : Engine Live Origin T) :
    LifecycleCall Live Origin T → Option ScriptGroup
  | .inline group id (.ok script) (.ok modules) run =>
    let e := (e.requests run.before).installHostModules modules
    let (graph, store) := e.store.insertInline id script.js script.moduleOrigin e.nextGraphId
    (e.insertGraph store).loweredByMount id graph group run
  | .project group id _ (.ok _) (.ok compiled) (.ok modules) run =>
    let e := (e.requests run.before).installHostModules modules
    match e.store.insertProject compiled.entryModuleId compiled.modules e.nextGraphId with
    | .ok (graph, store) => (e.insertGraph store).loweredByMount id graph group run
    | .error _ => none
  | .unload id _ _ _ => (e.scripts.get? id).bind fun script => e.lowered script
  | _ => none

namespace Engine
variable {e : Engine Live Origin T} {group : Option Text} {g : ScriptGroup}

theorem lowered_pos {script : EngineScript Live} {places : List Place}
    (h : Held e.groups none places) (hg : e.lowered script = some g) : 0 < g.scripts := by
  obtain ⟨name, -, hgroup⟩ := Option.bind_eq_some_iff.mp hg
  exact h.used hgroup nofun

variable [Min T]

theorem loweredByMount_pos {id : ScriptId} {graph : RuntimeModuleGraph} {run : LoadRun Live T}
    (h : e.GroupsHeld) (hg : e.loweredByMount id graph group run = some g) : 0 < g.scripts := by
  have hs := saveHotData_held id run.save e
  unfold loweredByMount at hg
  generalize e.saveHotData id run.save = r at hs hg
  obtain ⟨saved, e₁⟩ := r
  have hheld : Held e₁.groups none e₁.places := by
    rw [hs.1, hs.2]
    exact h
  cases saved with
  | panicked => cases hg
  | err failure => cases hg
  | ok data =>
    dsimp only at hg
    generalize hm : (e₁.requests run.afterSave).mount graph group run.mount = r at hg
    obtain ⟨mounted, e₂⟩ := r
    cases mounted with
    | panicked => cases hg
    | err failure => cases hg
    | ok m =>
      obtain ⟨hpending, hcontext⟩ := mount_ok_held (e := e₁.requests run.afterSave) hheld hm
      have hjoined := joinGroup_held (e := e₂.requests run.afterMount) hpending hcontext
      obtain ⟨previous, -, hprevious⟩ := Option.bind_eq_some_iff.mp hg
      exact lowered_pos hjoined hprevious

theorem GroupsHeld.step (h : e.GroupsHeld) (step : EngineStep Live Origin T)
    (hret : step.Returns e) : (step.next e).GroupsHeld := by
  cases step with
  | call c =>
    cases c with
    | inline group id transpiled modules run => exact mountInline_held h hret
    | project group id path names transpiled modules run => exact mountProject_held h hret
    | unload id before run after => exact unloadScript_held h hret
  | operate stage earliest =>
    unfold GroupsHeld
    have hplaces : (EngineStep.next e (.operate stage earliest)).places = e.places :=
      map_values_eq (runStage_scripts stage rfl) fun _ _ => rfl
    rw [hplaces]
    exact h
  | restamp id stamped =>
    unfold GroupsHeld
    have hplaces : (EngineStep.next e (.restamp id stamped)).places = e.places := by
      have hscripts : (EngineStep.next e (.restamp id stamped)).scripts =
          e.scripts.mapValues fun k script =>
            if k = id then { script with origin := { script.origin with
              project := script.origin.project.map fun p =>
                { p with watched := stamped p.watched } } }
            else script := rfl
      apply map_values_eq hscripts
      intro k script
      split_ifs <;> rfl
    rw [hplaces]
    exact h

theorem ReachedByReturns.held (h : e.ReachedByReturns) : e.GroupsHeld := by
  obtain ⟨timeout, never, steps, hrun⟩ := h
  have hpreserves : Transition.Preserves (fun (e : Engine Live Origin T) step e' =>
      EngineStep.Returns e step ∧ EngineStep.next e step = e') GroupsHeld := by
    rintro e step e' hheld ⟨hret, rfl⟩
    exact hheld.step step hret
  exact hrun.invariant hpreserves ⟨nofun, nofun, nofun⟩

/-- The groups are those of the loaded scripts, and count them. -/
theorem group_counts (h : e.ReachedByReturns) :
    (∀ name, (e.groups name).isSome ↔ ∃ script ∈ e.scripts.values, script.group = some name) ∧
    (∀ name g, e.groups name = some g →
      g.scripts = e.scripts.values.countP (fun script => decide (script.group = some name)) ∧
      ∀ script ∈ e.scripts.values, script.group = some name → script.context = g.context) ∧
    ∀ (call : LifecycleCall Live Origin T) g, call.lowered e = some g → 0 < g.scripts := by
  have hheld := h.held
  have hcount : ∀ name, e.places.countP (fun place => decide (place.1 = some name)) =
      e.scripts.values.countP fun script => decide (script.group = some name) := by
    intro name
    exact List.countP_map
  have hplace : ∀ script ∈ e.scripts.values, ∀ name, script.group = some name →
      (some name, script.context) ∈ e.places := by
    rintro script hscript name hname
    have hmem := List.mem_map_of_mem (f := EngineScript.place) hscript
    unfold EngineScript.place at hmem
    rwa [hname] at hmem
  refine ⟨fun name => ⟨fun hsome => ?_, ?_⟩, fun name g hg => ⟨?_, ?_⟩, ?_⟩
  · obtain ⟨g, hg⟩ := Option.isSome_iff_exists.mp hsome
    have hpos := hheld.used hg nofun
    rw [hheld.counted hg, hcount, List.countP_pos_iff] at hpos
    obtain ⟨script, hscript, hname⟩ := hpos
    exact ⟨script, hscript, by simpa using hname⟩
  · rintro ⟨script, hscript, hname⟩
    obtain ⟨g, hg, -⟩ := hheld.context (hplace script hscript name hname)
    rw [hg]
    rfl
  · rw [hheld.counted hg, hcount]
  · intro script hscript hname
    obtain ⟨k, hk, hcontext⟩ := hheld.context (hplace script hscript name hname)
    obtain rfl : g = k := by
      rw [hg] at hk
      exact Option.some.inj hk
    exact hcontext.symm
  · intro call g hg
    cases call with
    | inline group id transpiled modules run =>
      cases transpiled with
      | error error => cases hg
      | ok script =>
        cases modules with
        | error error => cases hg
        | ok modules =>
          exact loweredByMount_pos
            (e := insertGraph _ ((e.requests run.before).installHostModules modules)) hheld hg
    | project group id path names transpiled modules run =>
      cases names with
      | error error => cases hg
      | ok _ =>
        cases transpiled with
        | error error => cases hg
        | ok compiled =>
          cases modules with
          | error error => cases hg
          | ok modules =>
            unfold LifecycleCall.lowered at hg
            dsimp only at hg
            split at hg
            · next graph store hins =>
              exact loweredByMount_pos
                (e := insertGraph store ((e.requests run.before).installHostModules modules)) hheld hg
            · cases hg
    | unload id before run after =>
      obtain ⟨script, -, hscript⟩ := Option.bind_eq_some_iff.mp hg
      exact lowered_pos hheld hscript

end Engine

/-- A load of script `id` into group `name`. -/
def groupLoad (name : Text) (id : ScriptId) : LifecycleCall Nat Unit Nat :=
  .inline (some name) id (.ok ⟨[], (), []⟩) (.ok ⟨noModules, noModules⟩)
    { before := 0
      save := .quiet []
      afterSave := 0
      mount := ⟨.ok 0, [], .ok 0, .quiet [], .ok (0, 0), .ok 0, 0, .quiet⟩
      afterMount := 0
      dispose := .quiet []
      after := 0 }

/-- Two scripts of a group, one of which is reloaded into another group and then unloaded. -/
def groupSteps : List (EngineStep Nat Unit Nat) :=
  [.call (groupLoad ['g'] ['a']), .call (groupLoad ['g'] ['b']), .call (groupLoad ['h'] ['a']),
    .call (.unload ['a'] 0 (.quiet []) 0)]

def engineAfterGroupSteps : Engine Nat Unit Nat :=
  groupSteps.foldl EngineStep.next (Engine.new u64Max 0)

theorem group_counts_groupSteps :
    (∃ g, engineAfterGroupSteps.groups ['g'] = some g ∧ g.scripts = 1) ∧
      engineAfterGroupSteps.groups ['h'] = none := by
  have hreached : engineAfterGroupSteps.ReachedByReturns := by
    refine ⟨u64Max, 0, groupSteps, ?_⟩
    exact .cons ⟨nofun, rfl⟩ (.cons ⟨nofun, rfl⟩ (.cons ⟨nofun, rfl⟩ (.cons ⟨nofun, rfl⟩ (.nil _))))
  obtain ⟨hused, hcounts, -⟩ := Engine.group_counts hreached
  constructor
  · refine ⟨_, rfl, ?_⟩
    exact (hcounts ['g'] _ rfl).1
  · cases hh : engineAfterGroupSteps.groups ['h'] with
    | none => rfl
    | some g =>
      obtain ⟨script, hscript, hname⟩ := (hused ['h']).mp (by rw [hh]; rfl)
      obtain rfl : script = _ := List.mem_singleton.mp hscript
      cases hname

end RustTS.Runner
