import RustTS.Compiler.Incremental
import RustTS.Runner.Groups
import RustTS.Runner.ReloadChanged

/-! Edits that a later `reload_changed` sees, and those it does not: what a failed reload attempt
leaves recorded are the stamps its own restamp took. -/
namespace RustTS.Runner
open ModuleLoader Compiler

variable {Live Origin T : Type}

namespace Engine

/-- What a script was loaded from. -/
def originOf (id : ScriptId) (e : Engine Live Origin T) : Option ScriptOrigin :=
  (e.scripts.get? id).map (·.origin)

theorem watchedOf_originOf (id : ScriptId) (e : Engine Live Origin T) :
    e.watchedOf id = ((e.originOf id).bind (·.project)).map (·.watched) := by
  unfold watchedOf originOf
  cases e.scripts.get? id <;> rfl

variable {e e' : Engine Live Origin T} {id k : ScriptId}

theorem originOf_mapValues {change : ScriptId → EngineScript Live → EngineScript Live}
    (h : e'.scripts = e.scripts.mapValues change)
    (hchange : ∀ script, (change k script).origin = script.origin) :
    e'.originOf k = e.originOf k := by
  unfold originOf
  rw [h, IndexMap.get?_mapValues, Option.map_map]
  exact congrArg (Option.map · _) (funext hchange)

theorem originOf_congr (h : e'.scripts = e.scripts) : e'.originOf k = e.originOf k :=
  congrArg (fun scripts => (scripts.get? k).map (·.origin)) h

theorem watchFailedAttempt_originOf (hk : k ≠ id) (watched : WatchedFiles)
    (e : Engine Live Origin T) : (e.watchFailedAttempt id watched).originOf k = e.originOf k := by
  have hscripts : (e.watchFailedAttempt id watched).scripts = e.scripts.mapValues fun k script =>
      if k = id then { script with origin := script.origin.watch watched } else script := rfl
  apply originOf_mapValues hscripts
  intro script
  rw [if_neg hk]

theorem discardGraph_originOf (hk : k ≠ id) (graph : RuntimeModuleGraph) (origin : ScriptOrigin)
    (e : Engine Live Origin T) : (e.discardGraph id graph origin).originOf k = e.originOf k := by
  unfold discardGraph
  cases origin.project with
  | none => rfl
  | some project => exact watchFailedAttempt_originOf hk project.watched _

section
variable [Min T]

private theorem runHook_originOf (run : HookRun Live T) (e : Engine Live Origin T) :
    (e.runHook run).2.originOf k = e.originOf k :=
  originOf_mapValues (runHook_kept 0 [] run e).scripts fun _ => rfl

private theorem retire_originOf (script : EngineScript Live) (run : HookRun Live T)
    (e : Engine Live Origin T) : (e.retire script run).2.originOf k = e.originOf k := by
  have hhook := runHook_originOf (k := k) run e
  unfold retire
  dsimp only
  generalize e.runHook run = r at hhook ⊢
  obtain ⟨outcome, e₁⟩ := r
  cases outcome with
  | panicked => exact hhook
  | _ => exact (originOf_congr (leaveGroup_scripts _ _)).trans hhook

theorem replaceScript_originOf (hk : k ≠ id) (script : EngineScript Live) (run : HookRun Live T)
    (e : Engine Live Origin T) : (e.replaceScript id script run).2.originOf k = e.originOf k := by
  have hinserted : ({ e with scripts := e.scripts.insert id script } :
      Engine Live Origin T).originOf k = e.originOf k :=
    congrArg (Option.map _) (IndexMap.get?_insert_of_ne _ _ hk)
  unfold replaceScript
  dsimp only
  cases e.scripts.get? id with
  | none => exact hinserted
  | some previous =>
    have hretired := retire_originOf (k := k) previous run
      { e with scripts := e.scripts.insert id script }
    dsimp only
    generalize retire previous run { e with scripts := e.scripts.insert id script } = r
      at hretired ⊢
    obtain ⟨outcome, e₁⟩ := r
    cases outcome <;> exact hretired.trans hinserted

theorem mountGraph_originOf (hk : k ≠ id) (graph : RuntimeModuleGraph) (origin : ScriptOrigin)
    (group : Option Text) (run : LoadRun Live T) (e : Engine Live Origin T) :
    (e.mountGraph id graph origin group run).2.originOf k = e.originOf k := by
  have hsave : (e.saveHotData id run.save).2.originOf k = e.originOf k :=
    originOf_mapValues (saveHotData_kept 0 [] id run.save e).scripts fun _ => rfl
  unfold mountGraph
  generalize e.saveHotData id run.save = r at hsave ⊢
  obtain ⟨saved, e₁⟩ := r
  cases saved with
  | panicked => exact hsave
  | err error => exact (discardGraph_originOf hk graph origin e₁).trans hsave
  | ok data =>
    have hmount : ((e₁.requests run.afterSave).mount graph group run.mount).2.originOf k =
        e.originOf k :=
      (originOf_mapValues (mount_scripts graph group run.mount _) fun _ => rfl).trans hsave
    dsimp only
    generalize (e₁.requests run.afterSave).mount graph group run.mount = r at hmount ⊢
    obtain ⟨mounted, e₂⟩ := r
    cases mounted with
    | panicked => exact hmount
    | err error => exact (discardGraph_originOf hk graph origin e₂).trans hmount
    | ok mounted =>
      have hjoined : ((e₂.requests run.afterMount).joinGroup group).originOf k = e.originOf k :=
        (originOf_congr (joinGroup_scripts group _)).trans hmount
      exact (replaceScript_originOf hk _ run.dispose _).trans hjoined

theorem mountProject_originOf (hk : k ≠ id) (group : Option Text) (entryPath : Text)
    (names : Except VmError Unit) (transpiled : Except ProjectFailure (TranspiledProject Origin))
    (modules : Except VmError HostModules) (run : LoadRun Live T) (e : Engine Live Origin T) :
    (e.mountProject group id entryPath names transpiled modules run).2.originOf k =
      e.originOf k := by
  unfold mountProject
  cases names with
  | error error => rfl
  | ok _ =>
    cases transpiled with
    | error failure => exact watchFailedAttempt_originOf hk failure.watched _
    | ok project =>
      cases modules with
      | error error => rfl
      | ok modules =>
        dsimp only
        split
        · rfl
        · exact mountGraph_originOf hk _ _ group run _

private theorem restamp_originOf (hk : k ≠ id) (stamped : WatchedFiles → WatchedFiles)
    (e : Engine Live Origin T) :
    (EngineStep.next e (.restamp id stamped)).originOf k = e.originOf k := by
  have hscripts : (EngineStep.next e (.restamp id stamped)).scripts =
      e.scripts.mapValues fun k script =>
        if k = id then { script with origin := { script.origin with
          project := script.origin.project.map fun p => { p with watched := stamped p.watched } } }
        else script := rfl
  apply originOf_mapValues hscripts
  intro script
  rw [if_neg hk]

private theorem restamp_watchedOf (watched : WatchedFiles) (e : Engine Live Origin T) :
    (EngineStep.next e (.restamp id fun _ => watched)).watchedOf id =
      (e.watchedOf id).map fun _ => watched := by
  unfold EngineStep.next watchedOf
  dsimp only
  rw [IndexMap.get?_mapValues]
  cases e.scripts.get? id with
  | none => rfl
  | some script =>
    simp only [Option.map_some, Option.bind_some, if_pos, Option.map_map]
    rfl

end

end Engine

namespace Reloader

variable [Min T] {parser : Parser} {fuel : Nat} {attempt : Attempt Live Origin T}
  {attempts : ScriptId → Attempt Live Origin T} {S : Type}
  {answer : (q : FileQuestion) → S → q.Answer × S} {s s' : S} {r r' : Reloader Live Origin T}
  {project : Engine.ChangedProject} {projects : List Engine.ChangedProject} {id : ScriptId}

theorem mountProject_originOf {outcome : Outcome Disposed} (hid : id ≠ project.1)
    (h : (r.mountProject parser fuel attempt project).run answer s = (some (outcome, r'), s')) :
    r'.engine.originOf id = r.engine.originOf id := by
  obtain ⟨k, entryPath, group⟩ := project
  unfold mountProject at h
  dsimp only at h
  cases hnames : attempt.names with
  | error error =>
    rw [hnames] at h
    cases h
    exact Engine.mountProject_originOf hid group entryPath _ _ _ _ r.engine
  | ok names =>
    rw [hnames] at h
    dsimp only at h
    rw [Asking.run_bind_eq] at h
    generalize (transpileProject _ _ _ _ _ _).run answer s = transpiled at h
    obtain ⟨_ | ⟨transpiled, kept⟩, s₁⟩ := transpiled
    · cases h
    · have hmounted := Engine.mountProject_originOf hid group entryPath (.ok ()) transpiled
        attempt.modules attempt.run r.engine
      dsimp only at h
      generalize r.engine.mountProject group k entryPath (.ok ()) transpiled attempt.modules
        attempt.run = mounted at h hmounted
      obtain ⟨ended, e⟩ := mounted
      cases h
      cases ended <;> exact hmounted

theorem reload_cases {outcome : Outcome Disposed}
    (h : (r.reload parser fuel attempt project).run answer s = (some (outcome, r'), s')) :
    ∃ r₁ s₁, (r.mountProject parser fuel attempt project).run answer s = (some (outcome, r₁), s₁) ∧
      ((∃ error, outcome = .err error ∧
          ((r₁.engine.restamp project.1).run answer s₁).2 = s' ∧
          r' = { r₁ with engine := ((r₁.engine.restamp project.1).run answer s₁).1 }) ∨
        (∀ error, outcome ≠ .err error) ∧ r' = r₁ ∧ s' = s₁) := by
  unfold reload at h
  rw [Asking.run_bind_eq] at h
  generalize (r.mountProject parser fuel attempt project).run answer s = mounted at h ⊢
  obtain ⟨_ | ⟨ended, r₁⟩, s₁⟩ := mounted
  · cases h
  · cases ended with
    | err error =>
      dsimp only at h
      rw [Asking.run_bind_eq] at h
      cases h
      exact ⟨r₁, s₁, rfl, .inl ⟨error, rfl, rfl, rfl⟩⟩
    | ok disposed =>
      cases h
      exact ⟨_, _, rfl, .inr ⟨nofun, rfl, rfl⟩⟩
    | panicked =>
      cases h
      exact ⟨_, _, rfl, .inr ⟨nofun, rfl, rfl⟩⟩

private theorem engine_restamp_originOf (hid : id ≠ project.1) (e : Engine Live Origin T) :
    ((e.restamp project.1).run answer s).1.originOf id = e.originOf id := by
  unfold Engine.restamp
  cases e.watchedOf project.1 with
  | none => rfl
  | some watched =>
    dsimp only
    rw [Asking.run_bind_eq]
    exact Engine.restamp_originOf hid _ e

private theorem reload_originOf {outcome : Outcome Disposed} (hid : id ≠ project.1)
    (h : (r.reload parser fuel attempt project).run answer s = (some (outcome, r'), s')) :
    r'.engine.originOf id = r.engine.originOf id := by
  obtain ⟨r₁, s₁, hmount, ⟨error, -, -, rfl⟩ | ⟨-, rfl, -⟩⟩ := reload_cases h
  · exact (engine_restamp_originOf hid r₁.engine).trans (mountProject_originOf hid hmount)
  · exact mountProject_originOf hid hmount

end Reloader

/-- The scripts whose reload a call attempted. -/
def ReloadReport.attempted (report : ReloadReport) : List ScriptId :=
  report.reloaded ++ report.failed.map Prod.fst

namespace Reloader

variable [Min T] {parser : Parser} {fuel : Nat} {attempts : ScriptId → Attempt Live Origin T}
  {S : Type} {answer : (q : FileQuestion) → S → q.Answer × S} {s s' : S}
  {r r' : Reloader Live Origin T} {project : Engine.ChangedProject}
  {projects : List Engine.ChangedProject} {id : ScriptId} {report report' : ReloadReport}

theorem reloadAll_cons
    (h : (reloadAll parser fuel attempts (project :: projects) report r).run answer s =
      (some (.ok report', r'), s')) :
    ∃ outcome r₁ s₁ report₁,
      (r.reload parser fuel (attempts project.1) project).run answer s =
        (some (outcome, r₁), s₁) ∧
      (reloadAll parser fuel attempts projects report₁ r₁).run answer s₁ =
        (some (.ok report', r'), s') ∧
      ((∃ error, outcome = .err error ∧ report₁.reloaded = report.reloaded ∧
          report₁.failed = report.failed ++ [(project.1, error)]) ∨
        ∃ disposed, outcome = .ok disposed ∧ report₁.reloaded = report.reloaded ++ [project.1] ∧
          report₁.failed = report.failed) := by
  unfold reloadAll at h
  dsimp only at h
  rw [Asking.run_bind_eq] at h
  generalize (r.reload parser fuel (attempts project.1) project).run answer s = reloaded at h ⊢
  obtain ⟨_ | ⟨outcome, r₁⟩, s₁⟩ := reloaded
  · cases h
  · cases outcome with
    | panicked => cases h
    | err error => exact ⟨_, r₁, s₁, _, rfl, h, .inl ⟨error, rfl, rfl, rfl⟩⟩
    | ok disposed => exact ⟨_, r₁, s₁, _, rfl, h, .inr ⟨disposed, rfl, rfl, rfl⟩⟩

theorem reloadAll_attempted
    (h : (reloadAll parser fuel attempts projects report r).run answer s =
      (some (.ok report', r'), s')) :
    id ∈ report'.attempted ↔ id ∈ report.attempted ∨ id ∈ projects.map Prod.fst := by
  induction projects generalizing report r s with
  | nil =>
    cases h
    simp only [List.map_nil, List.not_mem_nil, or_false]
  | cons project projects ih =>
    obtain ⟨outcome, r₁, s₁, report₁, -, hrest, hreport⟩ := reloadAll_cons h
    rw [ih hrest, List.map_cons, List.mem_cons]
    unfold ReloadReport.attempted
    rcases hreport with ⟨error, -, hreloaded, hfailed⟩ | ⟨disposed, -, hreloaded, hfailed⟩
    all_goals
      rw [hreloaded, hfailed]
      simp only [List.map_append, List.map_cons, List.map_nil, List.mem_append, List.mem_singleton]
      tauto

theorem reloadAll_failed_mem
    (h : (reloadAll parser fuel attempts projects report r).run answer s =
      (some (.ok report', r'), s')) (hfailed : id ∈ report'.failed.map Prod.fst) :
    id ∈ report.failed.map Prod.fst ∨ id ∈ projects.map Prod.fst := by
  induction projects generalizing report r s with
  | nil =>
    cases h
    exact .inl hfailed
  | cons project projects ih =>
    obtain ⟨outcome, r₁, s₁, report₁, -, hrest, hreport⟩ := reloadAll_cons h
    rcases ih hrest with hbefore | hlater
    · rcases hreport with ⟨error, -, -, hreport⟩ | ⟨disposed, -, -, hreport⟩
      all_goals rw [hreport] at hbefore
      · rw [List.map_append, List.mem_append] at hbefore
        rcases hbefore with hbefore | hproject
        · exact .inl hbefore
        · exact .inr (List.mem_cons.mpr (.inl (List.mem_singleton.mp hproject)))
      · exact .inl hbefore
    · exact .inr (List.mem_cons_of_mem _ hlater)

theorem reloadAll_originOf (hid : id ∉ projects.map Prod.fst)
    (h : (reloadAll parser fuel attempts projects report r).run answer s =
      (some (.ok report', r'), s')) : r'.engine.originOf id = r.engine.originOf id := by
  induction projects generalizing report r s with
  | nil =>
    cases h
    rfl
  | cons project projects ih =>
    obtain ⟨outcome, r₁, s₁, report₁, hreload, hrest, -⟩ := reloadAll_cons h
    obtain ⟨hproject, hprojects⟩ := not_or.mp (mt List.mem_cons.mpr hid)
    exact (ih hprojects hrest).trans (reload_originOf hproject hreload)

end Reloader

/-- The attempt at one project within a call: the project, the state before, and the instant. -/
structure AttemptStart (Live Origin T : Type) where
  project : Engine.ChangedProject
  reloader : Reloader Live Origin T
  instant : Nat

section
variable [Min T]

/-- Where a call attempts the project `id`. -/
def attemptStart (clock : Clock) (parser : Parser) (fuel : Nat)
    (attempts : ScriptId → Attempt Live Origin T) (id : ScriptId) :
    List Engine.ChangedProject → Reloader Live Origin T → Nat →
      Option (AttemptStart Live Origin T)
  | [], _, _ => none
  | project :: projects, r, n =>
    if project.1 = id then some ⟨project, r, n⟩
    else match (r.reload parser fuel (attempts project.1) project).run clock.answer n with
      | (some (.err _, r), n) | (some (.ok _, r), n) =>
        attemptStart clock parser fuel attempts id projects r n
      | _ => none

/-- Where `reload_changed` attempts the project `id`. -/
def Reloader.attemptOf (clock : Clock) (parser : Parser) (fuel : Nat)
    (attempts : ScriptId → Attempt Live Origin T) (id : ScriptId) (r : Reloader Live Origin T)
    (n : Nat) : Option (AttemptStart Live Origin T) :=
  let changed := (Engine.changedProjects r.engine.scripts.entries).run clock.answer n
  attemptStart clock parser fuel attempts id changed.1 r changed.2

namespace AttemptStart
variable (clock : Clock) (parser : Parser) (fuel : Nat) (attempt : Attempt Live Origin T)
  (a : AttemptStart Live Origin T)

/-- The instant at which the load ended. -/
def mounted : Nat :=
  ((a.reloader.mountProject parser fuel attempt a.project).run clock.answer a.instant).2

/-- What the attempt asked, the restamp that follows a failed one included, and when. -/
def asked : List (FileQuestion × Nat) :=
  (a.reloader.reload parser fuel attempt a.project).asked clock.answer a.instant

/-- What the restamp alone asked. -/
def restamped : List (FileQuestion × Nat) :=
  match (a.reloader.mountProject parser fuel attempt a.project).run clock.answer a.instant with
  | (some (.err _, r), n) => (r.engine.restamp a.project.1).asked clock.answer n
  | _ => []

end AttemptStart

/-- What a call asks to find out whether the project `id` changed, and when. -/
def checked (clock : Clock) (id : ScriptId) :
    List (ScriptId × EngineScript Live) → Nat → List (FileQuestion × Nat)
  | [], _ => []
  | (k, script) :: scripts, n =>
    match script.origin.project with
    | none => checked clock id scripts n
    | some project =>
      if k = id then project.watched.changed.asked clock.answer n
      else checked clock id scripts (project.watched.changed.run clock.answer n).2

/-- The stamps recorded are those of the instants that asked for them. -/
def Recorded (clock : Clock) (asked : List (FileQuestion × Nat)) (watched : Option WatchedFiles) :
    Prop :=
  ∀ path stamp, (∃ w, watched = some w ∧ (path, stamp) ∈ w.files.entries) ↔
    ∃ t, (.stamp path, t) ∈ asked ∧ stamp = clock t (.stamp path)

variable {clock : Clock}

theorem restamp_recorded (id : ScriptId) (e : Engine Live Origin T) (n : Nat) :
    Recorded clock ((e.restamp id).asked clock.answer n)
      (((e.restamp id).run clock.answer n).1.watchedOf id) := by
  intro path stamp
  unfold Engine.restamp
  cases hwatched : e.watchedOf id with
  | none =>
    constructor
    · rintro ⟨w, hw, -⟩
      exact absurd (hwatched.symm.trans hw) nofun
    · rintro ⟨t, ht, -⟩
      cases ht
  | some watched =>
    dsimp only
    rw [Asking.run_bind_eq, Asking.asked_bind, Asking.run_pure, Asking.asked_pure, List.append_nil,
      Engine.restamp_watchedOf, hwatched, ← Clock.restamp_mem]
    constructor
    · rintro ⟨w, hw, hmem⟩
      cases hw
      exact hmem
    · exact fun hmem => ⟨_, rfl, hmem⟩

namespace AttemptStart
variable {parser : Parser} {fuel : Nat} {attempt : Attempt Live Origin T}
  {attempts : ScriptId → Attempt Live Origin T} {a : AttemptStart Live Origin T}
  {r' : Reloader Live Origin T} {n' : Nat}

theorem recorded {error : VmError}
    (h : (a.reloader.reload parser fuel attempt a.project).run clock.answer a.instant =
      (some (.err error, r'), n')) :
    Recorded clock (a.restamped clock parser fuel attempt) (r'.engine.watchedOf a.project.1) ∧
      ∀ q t, (q, t) ∈ a.restamped clock parser fuel attempt →
        a.mounted clock parser fuel attempt ≤ t ∧ t < n' := by
  obtain ⟨r₁, n₁, hmount, ⟨_, -, rfl, rfl⟩ | ⟨hne, -, -⟩⟩ := Reloader.reload_cases h
  · unfold restamped mounted
    rw [hmount]
    exact ⟨restamp_recorded a.project.1 r₁.engine n₁, (Clock.asked_instant _ n₁).2⟩
  · exact absurd rfl (hne error)

end AttemptStart

section
variable {parser : Parser} {fuel : Nat} {attempts : ScriptId → Attempt Live Origin T}
  {r r' : Reloader Live Origin T} {n n' : Nat} {id : ScriptId}
  {projects : List Engine.ChangedProject} {report report' : ReloadReport}

/-- A project that the report of a call lists as failed has the stamps that its restamp took. -/
theorem reloadAll_failed (hnodup : (projects.map Prod.fst).Nodup)
    (h : (Reloader.reloadAll parser fuel attempts projects report r).run clock.answer n =
      (some (.ok report', r'), n'))
    (hbefore : id ∉ report.failed.map Prod.fst) (hfailed : id ∈ report'.failed.map Prod.fst) :
    ∃ a, attemptStart clock parser fuel attempts id projects r n = some a ∧
      Recorded clock (a.restamped clock parser fuel (attempts id)) (r'.engine.watchedOf id) ∧
      ∀ q t, (q, t) ∈ a.restamped clock parser fuel (attempts id) →
        a.mounted clock parser fuel (attempts id) ≤ t ∧ t < n' := by
  induction projects generalizing report r n with
  | nil =>
    cases h
    exact absurd hfailed hbefore
  | cons project projects ih =>
    obtain ⟨hproject, hprojects⟩ := List.nodup_cons.mp hnodup
    obtain ⟨outcome, r₁, n₁, report₁, hreload, hrest, hreport⟩ := Reloader.reloadAll_cons h
    unfold attemptStart
    by_cases hid : project.1 = id
    · rw [if_pos hid]
      subst hid
      refine ⟨_, rfl, ?_⟩
      rcases hreport with ⟨error, rfl, -, -⟩ | ⟨disposed, rfl, -, hreport⟩
      · obtain ⟨hrecorded, hinstants⟩ := AttemptStart.recorded (a := ⟨project, r, n⟩) hreload
        have hkept : r'.engine.watchedOf project.1 = r₁.engine.watchedOf project.1 := by
          rw [Engine.watchedOf_originOf, Engine.watchedOf_originOf,
            Reloader.reloadAll_originOf hproject hrest]
        have hlater : n₁ ≤ n' := by
          have hmono := (@Clock.asked_instant clock _
            (Reloader.reloadAll parser fuel attempts projects report₁ r₁) n₁).1
          rw [hrest] at hmono
          exact hmono
        rw [hkept]
        refine ⟨hrecorded, fun q t hasked => ?_⟩
        obtain ⟨hafter, hbefore⟩ := hinstants q t hasked
        exact ⟨hafter, Nat.lt_of_lt_of_le hbefore hlater⟩
      · rw [← hreport] at hbefore
        rcases Reloader.reloadAll_failed_mem hrest hfailed with hmem | hmem
        · exact absurd hmem hbefore
        · exact absurd hmem hproject
    · rw [if_neg hid, hreload]
      have hbefore₁ : id ∉ report₁.failed.map Prod.fst := by
        rcases hreport with ⟨error, -, -, hreport⟩ | ⟨disposed, -, -, hreport⟩
        all_goals rw [hreport]
        · rw [List.map_append, List.mem_append]
          rintro (hmem | hmem)
          · exact hbefore hmem
          · exact hid (List.mem_singleton.mp hmem).symm
        · exact hbefore
      have hrest' := ih hprojects hrest hbefore₁
      rcases hreport with ⟨error, rfl, -, -⟩ | ⟨disposed, rfl, -, -⟩ <;> exact hrest'

end

theorem changedProjects_cons {scripts : List (ScriptId × EngineScript Live)} {k : ScriptId}
    {script : EngineScript Live} {project : ProjectFiles} (h : script.origin.project = some project)
    (n : Nat) :
    ((Engine.changedProjects ((k, script) :: scripts)).run clock.answer n).1 =
      let changed := project.watched.changed.run clock.answer n
      let others := (Engine.changedProjects scripts).run clock.answer changed.2
      if changed.1 then (k, project.entryPath, script.group) :: others.1 else others.1 := by
  rw [Engine.changedProjects, h]
  dsimp only
  rw [Asking.run_bind_eq, Asking.run_bind_eq, Asking.run_pure]

theorem changedProjects_subset {scripts : List (ScriptId × EngineScript Live)} (n : Nat) :
    (((Engine.changedProjects scripts).run clock.answer n).1.map Prod.fst).Sublist
      (scripts.map Prod.fst) := by
  induction scripts generalizing n with
  | nil => exact .slnil
  | cons entry scripts ih =>
    obtain ⟨k, script⟩ := entry
    cases hproject : script.origin.project with
    | none =>
      unfold Engine.changedProjects
      rw [hproject]
      exact (ih n).cons k
    | some project =>
      rw [changedProjects_cons hproject]
      dsimp only
      split
      · exact (ih _).cons_cons k
      · exact (ih _).cons k

/-- A stamp recorded for the project `id`. -/
def WatchedIn (scripts : List (ScriptId × EngineScript Live)) (id : ScriptId) (path : Path)
    (stamp : Option FileStamp) : Prop :=
  ∃ script project, (id, script) ∈ scripts ∧ script.origin.project = some project ∧
    (path, stamp) ∈ project.watched.files.entries

section
variable {scripts : List (ScriptId × EngineScript Live)} {id k : ScriptId}
  {script : EngineScript Live} {path : Path} {stamp : Option FileStamp}

theorem watchedIn_cons_of_ne (h : id ≠ k ∨ script.origin.project = none) :
    WatchedIn ((k, script) :: scripts) id path stamp ↔ WatchedIn scripts id path stamp := by
  constructor
  · rintro ⟨script', project, hmem, hproject, hstamp⟩
    rcases List.mem_cons.mp hmem with heq | hmem
    · cases heq
      rcases h with hne | hnone
      · exact absurd rfl hne
      · exact absurd (hnone.symm.trans hproject) nofun
    · exact ⟨script', project, hmem, hproject, hstamp⟩
  · rintro ⟨script', project, hmem, hproject, hstamp⟩
    exact ⟨script', project, List.mem_cons_of_mem _ hmem, hproject, hstamp⟩

private theorem watchedIn_cons_self {project : ProjectFiles} (hk : k ∉ scripts.map Prod.fst)
    (h : script.origin.project = some project) :
    WatchedIn ((k, script) :: scripts) k path stamp ↔
      (path, stamp) ∈ project.watched.files.entries := by
  constructor
  · rintro ⟨script', project', hmem, hproject, hstamp⟩
    rcases List.mem_cons.mp hmem with heq | hmem
    · cases heq
      cases h.symm.trans hproject
      exact hstamp
    · exact absurd (List.mem_map_of_mem hmem) hk
  · exact fun hstamp => ⟨script, project, List.mem_cons_self, h, hstamp⟩

omit [Min T] in
theorem watchedIn_iff {e : Engine Live Origin T} :
    WatchedIn e.scripts.entries id path stamp ↔
      ∃ w, e.watchedOf id = some w ∧ (path, stamp) ∈ w.files.entries := by
  unfold Engine.watchedOf
  constructor
  · rintro ⟨script, project, hmem, hproject, hstamp⟩
    refine ⟨project.watched, ?_, hstamp⟩
    rw [IndexMap.get?_eq_some.mpr hmem, Option.bind_some, hproject, Option.map_some]
  · rintro ⟨w, hw, hstamp⟩
    obtain ⟨project, hbind, rfl⟩ := Option.map_eq_some_iff.mp hw
    obtain ⟨script, hscript, hproject⟩ := Option.bind_eq_some_iff.mp hbind
    exact ⟨script, project, IndexMap.get?_eq_some.mp hscript, hproject, hstamp⟩

end

/-- A project counts as changed exactly where its check sees another stamp than one recorded. -/
theorem changedProjects_iff {scripts : List (ScriptId × EngineScript Live)} {id : ScriptId}
    (hnodup : (scripts.map Prod.fst).Nodup) (n : Nat) :
    id ∈ ((Engine.changedProjects scripts).run clock.answer n).1.map Prod.fst ↔
      ∃ path stamp t, WatchedIn scripts id path stamp ∧
        (.stamp path, t) ∈ checked clock id scripts n ∧ clock t (.stamp path) ≠ stamp := by
  induction scripts generalizing n with
  | nil =>
    constructor
    · exact nofun
    · rintro ⟨_, _, _, -, hchecked, -⟩
      cases hchecked
  | cons entry scripts ih =>
    obtain ⟨k, script⟩ := entry
    obtain ⟨hk, hscripts⟩ := List.nodup_cons.mp hnodup
    cases hproject : script.origin.project with
    | none =>
      unfold Engine.changedProjects checked
      rw [hproject]
      dsimp only
      rw [ih hscripts]
      simp only [watchedIn_cons_of_ne (.inr hproject)]
    | some project =>
      rw [changedProjects_cons hproject]
      unfold checked
      rw [hproject]
      dsimp only
      by_cases hid : k = id
      · subst hid
        have hnot (n : Nat) :
            k ∉ ((Engine.changedProjects scripts).run clock.answer n).1.map Prod.fst :=
          fun hmem => hk ((changedProjects_subset n).subset hmem)
        have hchanged := @Clock.anyChanged_iff clock _ project.watched.files.nodup n
        rw [if_pos rfl]
        simp only [watchedIn_cons_self hk hproject]
        refine Iff.trans ?_ hchanged
        show _ ↔ (project.watched.changed.run clock.answer n).1 = true
        split_ifs with h
        · exact ⟨fun _ => h, fun _ => List.mem_cons_self⟩
        · exact ⟨fun hmem => absurd hmem (hnot _), fun h' => absurd h' h⟩
      · simp only [watchedIn_cons_of_ne (.inl (Ne.symm hid))]
        rw [if_neg hid, ← ih hscripts]
        split_ifs
        · rw [List.map_cons, List.mem_cons]
          exact ⟨fun hmem => hmem.resolve_left (Ne.symm hid), .inr⟩
        · rfl

theorem checked_instant {scripts : List (ScriptId × EngineScript Live)} {id : ScriptId} {n t : Nat}
    {q : FileQuestion} (h : (q, t) ∈ checked clock id scripts n) :
    n ≤ t ∧ t < ((Engine.changedProjects scripts).run clock.answer n).2 := by
  induction scripts generalizing n with
  | nil => cases h
  | cons entry scripts ih =>
    obtain ⟨k, script⟩ := entry
    unfold checked at h
    cases hproject : script.origin.project with
    | none =>
      rw [hproject] at h
      rw [Engine.changedProjects, hproject]
      exact ih h
    | some project =>
      rw [hproject] at h
      dsimp only at h
      rw [Engine.changedProjects, hproject]
      dsimp only
      rw [Asking.run_bind_eq, Asking.run_bind_eq, Asking.run_pure]
      dsimp only
      obtain ⟨hmono, hinstants⟩ := @Clock.asked_instant clock _ project.watched.changed n
      have hrest := (@Clock.asked_instant clock _ (Engine.changedProjects scripts)
        (project.watched.changed.run clock.answer n).2).1
      split_ifs at h
      · obtain ⟨hafter, hbefore⟩ := hinstants q t h
        exact ⟨hafter, hbefore.trans_le hrest⟩
      · obtain ⟨hafter, hbefore⟩ := ih h
        exact ⟨hmono.trans hafter, hbefore⟩

/-- Any number of later calls, none of which attempts the project `id`, with time between. -/
inductive Later (clock : Clock) (parser : Parser) (id : ScriptId) (r : Reloader Live Origin T)
    (n : Nat) : Reloader Live Origin T → Nat → Prop
  | here : Later clock parser id r n r n
  | wait {r' n' n''} : Later clock parser id r n r' n' → n' ≤ n'' →
      Later clock parser id r n r' n''
  | call {r' n' r'' n'' fuel attempts report} : Later clock parser id r n r' n' →
      (r'.reloadChanged parser fuel attempts).run clock.answer n' =
        (some (.ok report, r''), n'') →
      id ∉ report.attempted → Later clock parser id r n r'' n''

section
variable {parser : Parser} {fuel : Nat} {attempts : ScriptId → Attempt Live Origin T}
  {r r' : Reloader Live Origin T} {n n' : Nat} {id : ScriptId} {report : ReloadReport}

theorem reloadChanged_attempted
    (h : (r.reloadChanged parser fuel attempts).run clock.answer n = (some (.ok report, r'), n')) :
    id ∈ report.attempted ↔ id ∈ ((Engine.changedProjects
      r.engine.scripts.entries).run clock.answer n).1.map Prod.fst := by
  unfold Reloader.reloadChanged at h
  rw [Asking.run_bind_eq] at h
  rw [Reloader.reloadAll_attempted h]
  exact or_iff_right List.not_mem_nil

private theorem reloadChanged_originOf
    (h : (r.reloadChanged parser fuel attempts).run clock.answer n = (some (.ok report, r'), n'))
    (hid : id ∉ report.attempted) : r'.engine.originOf id = r.engine.originOf id := by
  rw [reloadChanged_attempted h] at hid
  unfold Reloader.reloadChanged at h
  rw [Asking.run_bind_eq] at h
  exact Reloader.reloadAll_originOf hid h

private theorem reloadChanged_instant
    (h : (r.reloadChanged parser fuel attempts).run clock.answer n = (some (.ok report, r'), n')) :
    n ≤ n' := by
  have hmono := (@Clock.asked_instant clock _ (r.reloadChanged parser fuel attempts) n).1
  rw [h] at hmono
  exact hmono

private theorem reloadChanged_checked {q : FileQuestion} {t : Nat}
    (h : (r.reloadChanged parser fuel attempts).run clock.answer n = (some (.ok report, r'), n'))
    (hchecked : (q, t) ∈ checked clock id r.engine.scripts.entries n) : n ≤ t ∧ t < n' := by
  obtain ⟨hafter, hbefore⟩ := checked_instant hchecked
  unfold Reloader.reloadChanged at h
  rw [Asking.run_bind_eq] at h
  generalize (Engine.changedProjects r.engine.scripts.entries).run clock.answer n = changed at h hbefore
  have hmono := (@Clock.asked_instant clock _
    (Reloader.reloadAll parser fuel attempts changed.1 .empty r) changed.2).1
  rw [h] at hmono
  exact ⟨hafter, hbefore.trans_le hmono⟩

theorem Later.kept (h : Later clock parser id r n r' n') :
    n ≤ n' ∧ r'.engine.originOf id = r.engine.originOf id := by
  induction h with
  | here => exact ⟨le_rfl, rfl⟩
  | wait _ hwait ih => exact ⟨ih.1.trans hwait, ih.2⟩
  | call _ hcall hid ih =>
    exact ⟨ih.1.trans (reloadChanged_instant hcall), (reloadChanged_originOf hcall hid).trans ih.2⟩

private theorem reloadChanged_failed
    (h : (r.reloadChanged parser fuel attempts).run clock.answer n = (some (.ok report, r'), n'))
    (hfailed : id ∈ report.failed.map Prod.fst) :
    ∃ a, r.attemptOf clock parser fuel attempts id n = some a ∧
      Recorded clock (a.restamped clock parser fuel (attempts id)) (r'.engine.watchedOf id) ∧
      ∀ q t, (q, t) ∈ a.restamped clock parser fuel (attempts id) →
        a.mounted clock parser fuel (attempts id) ≤ t ∧ t < n' := by
  unfold Reloader.reloadChanged at h
  rw [Asking.run_bind_eq] at h
  have hnodup := r.engine.scripts.nodup.sublist (@changedProjects_subset _ clock _ n)
  exact reloadAll_failed hnodup h List.not_mem_nil hfailed

end

/-- A file that was stamped or read has another stamp at a later instant, up to `n`. -/
def EditedSince (clock : Clock) (asked : List (FileQuestion × Nat)) (n : Nat) : Prop :=
  ∃ path q t t', (q, t) ∈ asked ∧ (q = .stamp path ∨ q = .read path) ∧ t < t' ∧ t' ≤ n ∧
    clock t' (.stamp path) ≠ clock t (.stamp path)

/-- A file that a restamp stamped has another stamp when a later check looks at it. -/
def SeenChanged (clock : Clock) (restamped checked : List (FileQuestion × Nat)) : Prop :=
  ∃ path t t', (.stamp path, t) ∈ restamped ∧ (.stamp path, t') ∈ checked ∧
    clock t' (.stamp path) ≠ clock t (.stamp path)

/-- No file is edited from one instant to another. -/
def Quiet (clock : Clock) (n n' : Nat) : Prop :=
  ∀ path t t', n ≤ t → t ≤ n' → n ≤ t' → t' ≤ n' → clock t (.stamp path) = clock t' (.stamp path)

/-- After a failed reload, and any calls that leave its project alone, the next call attempts the
reload again on account of an edit exactly where its check finds a file with another stamp than the
restamp at the end of the failed attempt took; without an edit it attempts none. -/
theorem reloadChanged_edits {parser : Parser} {fuel fuel' : Nat}
    {attempts attempts' : ScriptId → Attempt Live Origin T} {r r₁ r₂ r₃ : Reloader Live Origin T}
    {n n₁ n₂ n₃ : Nat} {id : ScriptId} {report report' : ReloadReport}
    (hcall : (r.reloadChanged parser fuel attempts).run clock.answer n =
      (some (.ok report, r₁), n₁))
    (hfailed : id ∈ report.failed.map Prod.fst)
    (hlater : Later clock parser id r₁ n₁ r₂ n₂)
    (hcall' : (r₂.reloadChanged parser fuel' attempts').run clock.answer n₂ =
      (some (.ok report', r₃), n₃)) :
    ∃ a, r.attemptOf clock parser fuel attempts id n = some a ∧
      let edited := EditedSince clock (a.asked clock parser fuel (attempts id)) n₂
      let quiet := Quiet clock (a.mounted clock parser fuel (attempts id)) n₃
      (((edited → id ∈ report'.attempted) ∧ (quiet → id ∉ report'.attempted)) ↔
        (edited → SeenChanged clock (a.restamped clock parser fuel (attempts id))
          (checked clock id r₂.engine.scripts.entries n₂))) := by
  obtain ⟨a, ha, hrecorded, hinstants⟩ := reloadChanged_failed hcall hfailed
  obtain ⟨hinstant, horigin⟩ := hlater.kept
  have hwatched : r₂.engine.watchedOf id = r₁.engine.watchedOf id := by
    rw [Engine.watchedOf_originOf, Engine.watchedOf_originOf, horigin]
  have hattempted : id ∈ report'.attempted ↔ SeenChanged clock
      (a.restamped clock parser fuel (attempts id))
      (checked clock id r₂.engine.scripts.entries n₂) := by
    rw [reloadChanged_attempted hcall', changedProjects_iff r₂.engine.scripts.nodup]
    constructor
    · rintro ⟨path, stamp, t', hrecord, hchecked, hne⟩
      rw [watchedIn_iff, hwatched] at hrecord
      obtain ⟨t, hrestamped, rfl⟩ := (hrecorded path stamp).mp hrecord
      exact ⟨path, t, t', hrestamped, hchecked, hne⟩
    · rintro ⟨path, t, t', hrestamped, hchecked, hne⟩
      refine ⟨path, _, t', ?_, hchecked, hne⟩
      rw [watchedIn_iff, hwatched]
      exact (hrecorded path _).mpr ⟨t, hrestamped, rfl⟩
  refine ⟨a, ha, ?_⟩
  dsimp only
  rw [hattempted]
  refine and_iff_left ?_
  rintro hquiet ⟨path, t, t', hrestamped, hchecked, hne⟩
  obtain ⟨hmounted, hbefore⟩ := hinstants _ t hrestamped
  obtain ⟨hafter', hbefore'⟩ := reloadChanged_checked hcall' hchecked
  apply hne
  apply hquiet path t' t <;> omega

end

/-- A project of one file, which its version 1 breaks. -/
def editedFile (version : Nat) : FileSystem where
  node path :=
    if path = "/main.ts".toList then
      some ⟨⟨0, some version⟩, .file (.ok (if version = 1 then "broken".toList else []))⟩
    else if path = "/".toList then some ⟨⟨0, some 0⟩, .directory ["main.ts".toList]⟩
    else none
  canonical path := .ok path

/-- The file is edited before the check of the first call, and again after the attempt read it:
the attempt's questions come at the instants 9 to 13, those of its restamp at 14 and 15. -/
def editedClock : Clock := fun n =>
  (editedFile (if n < 8 then 0 else if n < 14 then 1 else 2)).answer (fun _ _ _ _ => .error "")
    fun _ _ _ => .error ""

def editedParser : Parser where
  importsOf source _ := if source = [] then .ok [] else .error (.transpile "syntax error")
  extendsOf _ _ := []

def editedAttempt : Attempt Unit Unit Nat where
  names := .ok []
  transpile project := .ok (project.modules.map fun m => ⟨m.moduleId, m.source, (), []⟩, [])
  modules := .ok ⟨fun _ => none, fun _ => none⟩
  run :=
    { before := 0
      save := .quiet []
      afterSave := 0
      mount := ⟨.ok 0, [], .ok 0, .quiet [], .ok (0, 0), .ok 0, (), .quiet⟩
      afterMount := 0
      dispose := .quiet []
      after := 0 }

/-- The engine after its first load of the project. -/
def editedLoaded : Reloader Unit Unit Nat :=
  let new : Reloader Unit Unit Nat := ⟨Engine.new u64Max 0, fun _ => none⟩
  let load := (new.mountProject editedParser 2 editedAttempt
    (['a'], "/main.ts".toList, none)).run editedClock.answer 0
  (load.1.map Prod.snd).getD new

abbrev CallResult := Option (Outcome ReloadReport × Reloader Unit Unit Nat) × Nat

def editedCall (r : Reloader Unit Unit Nat) (n : Nat) : CallResult :=
  (r.reloadChanged editedParser 2 fun _ => editedAttempt).run editedClock.answer n

def editedFailed : Reloader Unit Unit Nat :=
  ((editedCall editedLoaded 7).1.map Prod.snd).getD editedLoaded

def editedReport : ReloadReport := ⟨[], [(['a'], .transpile "syntax error")], []⟩

theorem callResult_eq {call : CallResult} {report : ReloadReport} {n : Nat}
    (h : call.1.map Prod.fst = some (.ok report)) (hn : call.2 = n) (r : Reloader Unit Unit Nat) :
    call = (some (.ok report, (call.1.map Prod.snd).getD r), n) := by
  obtain ⟨_ | ⟨outcome, r'⟩, n'⟩ := call
  · cases h
  · cases h
    cases hn
    rfl

theorem editedCall_first : editedCall editedLoaded 7 = (some (.ok editedReport, editedFailed), 16) :=
  callResult_eq (by decide +kernel) (by decide +kernel) editedLoaded

theorem editedCall_second : ∃ r, editedCall editedFailed 16 = (some (.ok .empty, r), 18) :=
  ⟨_, callResult_eq (by decide +kernel) (by decide +kernel) editedLoaded⟩

theorem editedStart : ∃ a, editedLoaded.attemptOf editedClock editedParser 2
    (fun _ => editedAttempt) ['a'] 7 = some a ∧
      EditedSince editedClock (a.asked editedClock editedParser 2 editedAttempt) 16 := by
  have hasked : (editedLoaded.attemptOf editedClock editedParser 2 (fun _ => editedAttempt)
      ['a'] 7).map (fun a => decide ((.read "/main.ts".toList, 13) ∈
        a.asked editedClock editedParser 2 editedAttempt)) = some true := by decide +kernel
  obtain ⟨a, ha, hread⟩ := Option.map_eq_some_iff.mp hasked
  have hedit : editedClock 14 (.stamp "/main.ts".toList) ≠
      editedClock 13 (.stamp "/main.ts".toList) := by decide +kernel
  exact ⟨a, ha, _, _, 13, 14, of_decide_eq_true hread, .inr rfl, by decide, by decide, hedit⟩

/-- An edit between the read of a failed attempt and its restamp goes unnoticed. -/
theorem racingEdit_lost :
    (∃ a, editedLoaded.attemptOf editedClock editedParser 2 (fun _ => editedAttempt) ['a'] 7 =
        some a ∧ EditedSince editedClock (a.asked editedClock editedParser 2 editedAttempt) 16) ∧
      (editedLoaded.reloadChanged editedParser 2 fun _ => editedAttempt).run editedClock.answer 7 =
        (some (.ok ⟨[], [(['a'], .transpile "syntax error")], []⟩, editedFailed), 16) ∧
      ∃ r, (editedFailed.reloadChanged editedParser 2 fun _ => editedAttempt).run
        editedClock.answer 16 = (some (.ok ⟨[], [], []⟩, r), 18) :=
  ⟨editedStart, editedCall_first, editedCall_second⟩

theorem reloadChanged_edits_racingEdit :
    ∃ a, editedLoaded.attemptOf editedClock editedParser 2 (fun _ => editedAttempt) ['a'] 7 =
        some a ∧
      ¬SeenChanged editedClock (a.restamped editedClock editedParser 2 editedAttempt)
        (checked editedClock ['a'] editedFailed.engine.scripts.entries 16) := by
  obtain ⟨r, hsecond⟩ := editedCall_second
  have hfailed : ['a'] ∈ editedReport.failed.map Prod.fst := by decide
  obtain ⟨a, ha, hiff⟩ := reloadChanged_edits editedCall_first hfailed .here hsecond
  obtain ⟨_, ha', hedited⟩ := editedStart
  cases ha.symm.trans ha'
  refine ⟨a, ha, fun hseen => ?_⟩
  have hattempted := (hiff.mpr fun _ => hseen).1 hedited
  exact absurd hattempted (by decide)

end RustTS.Runner
