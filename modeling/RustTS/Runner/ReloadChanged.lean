import RustTS.Compiler.Project
import RustTS.Runner.HostPanics

/-! `Engine::reload_changed`, asking the file system while other programs edit it. The file system
is what it answers at each instant, and every question takes one. -/
namespace RustTS.Runner
open ModuleLoader Compiler

variable {Live Origin T : Type}

/-- What a reload finds besides files: the names of the host modules, what the transpiler and the
registry give, and what JavaScript does. -/
structure Attempt (Live Origin T : Type) where
  names : Except VmError (List Text)
  transpile : DiscoveredProject → Except VmError (List (CompiledModule Origin) × List Text)
  modules : Except VmError HostModules
  run : LoadRun Live T

/-- The engine and the discovery states that its transpiler keeps by entry path. -/
structure Reloader (Live Origin T : Type) where
  engine : Engine Live Origin T
  projects : Path → Option ProjectState

structure ReloadReport where
  reloaded : List ScriptId
  failed : List (ScriptId × VmError)
  disposeFailed : List (ScriptId × VmError)
  deriving DecidableEq

def ReloadReport.empty : ReloadReport := ⟨[], [], []⟩

/-- `Transpiler::project`. -/
def transpileProject (parser : Parser) (fuel : Nat) (entryPath : Path)
    (externalModules : List Text)
    (transpile : DiscoveredProject → Except VmError (List (CompiledModule Origin) × List Text))
    (projects : Path → Option ProjectState) :
    Looking (Option (Except ProjectFailure (TranspiledProject Origin) ×
      (Path → Option ProjectState))) := do
  let left := Function.update projects entryPath none
  match ← discoverProject parser fuel entryPath externalModules (projects entryPath) with
  | none => pure none
  | some (.error failure) => pure (some (.error ⟨failure.error, failure.watched⟩, left))
  | some (.ok (project, state)) =>
    let kept := Function.update projects entryPath (some state)
    match transpile project with
    | .error error => pure (some (.error ⟨error, project.watched⟩, kept))
    | .ok (modules, keys) =>
      pure (some (.ok ⟨project.entryModuleId, modules, keys, project.watched⟩, kept))

namespace Engine

/-- The files watched for a loaded project. -/
def watchedOf (id : ScriptId) (e : Engine Live Origin T) : Option WatchedFiles :=
  ((e.scripts.get? id).bind fun script => script.origin.project).map (·.watched)

/-- Takes a project's files as they are now as seen. -/
def restamp [Min T] (id : ScriptId) (e : Engine Live Origin T) : Looking (Engine Live Origin T) :=
  match e.watchedOf id with
  | none => pure e
  | some watched => do
    let watched ← watched.restamp
    pure (EngineStep.next e (.restamp id fun _ => watched))

/-- A project whose files changed: its id, entry path and group. -/
abbrev ChangedProject := ScriptId × Path × Option Text

/-- The projects whose files changed, in load order. -/
def changedProjects : List (ScriptId × EngineScript Live) → Looking (List ChangedProject)
  | [] => pure []
  | (id, script) :: scripts =>
    match script.origin.project with
    | none => changedProjects scripts
    | some project => do
      let changed ← project.watched.changed
      let others ← changedProjects scripts
      pure (if changed then (id, project.entryPath, script.group) :: others else others)

end Engine

namespace Reloader
variable [Min T]

/-- Forgets the states of projects that no loaded script uses anymore. -/
def retainUsed (r : Reloader Live Origin T) : Reloader Live Origin T :=
  { r with projects := fun path =>
      if r.engine.scripts.values.any fun script =>
          script.origin.project.any fun project => project.entryPath = path
      then r.projects path else none }

/-- `mount_project`, with the files it asks for. -/
def mountProject (parser : Parser) (fuel : Nat) (attempt : Attempt Live Origin T)
    (project : Engine.ChangedProject) (r : Reloader Live Origin T) :
    Looking (Option (Outcome Disposed × Reloader Live Origin T)) :=
  let (id, entryPath, group) := project
  match attempt.names with
  | .error error =>
    let (outcome, engine) := r.engine.mountProject group id entryPath (.error error)
      (.error ⟨error, .empty⟩) attempt.modules attempt.run
    pure (some (outcome, { r with engine := engine }))
  | .ok names => do
    match ← transpileProject parser fuel entryPath (names ++ [envSpecifier]) attempt.transpile
        r.projects with
    | none => pure none
    | some (transpiled, projects) =>
      let (outcome, engine) := r.engine.mountProject group id entryPath (.ok ()) transpiled
        attempt.modules attempt.run
      let mounted : Reloader Live Origin T := ⟨engine, projects⟩
      pure (some (outcome, match outcome with
        | .ok _ => mounted.retainUsed
        | _ => mounted))

/-- One changed project: a reload that fails takes the files as they are now as seen. -/
def reload (parser : Parser) (fuel : Nat) (attempt : Attempt Live Origin T)
    (project : Engine.ChangedProject) (r : Reloader Live Origin T) :
    Looking (Option (Outcome Disposed × Reloader Live Origin T)) := do
  match ← r.mountProject parser fuel attempt project with
  | some (.err error, r) => do
    let engine ← r.engine.restamp project.1
    pure (some (.err error, { r with engine := engine }))
  | ended => pure ended

/-- The changed projects, one after another. -/
def reloadAll (parser : Parser) (fuel : Nat) (attempts : ScriptId → Attempt Live Origin T) :
    List Engine.ChangedProject → ReloadReport → Reloader Live Origin T →
      Looking (Option (Outcome ReloadReport × Reloader Live Origin T))
  | [], report, r => pure (some (.ok report, r))
  | project :: projects, report, r => do
    let id := project.1
    match ← r.reload parser fuel (attempts id) project with
    | none => pure none
    | some (.panicked, r) => pure (some (.panicked, r))
    | some (.err error, r) =>
      reloadAll parser fuel attempts projects
        { report with failed := report.failed ++ [(id, error)] } r
    | some (.ok disposed, r) =>
      let disposeFailed := match disposed with
        | .ok _ => report.disposeFailed
        | .error error => report.disposeFailed ++ [(id, error)]
      reloadAll parser fuel attempts projects
        { report with reloaded := report.reloaded ++ [id], disposeFailed := disposeFailed } r

/-- `reload_changed`. -/
def reloadChanged (parser : Parser) (fuel : Nat) (attempts : ScriptId → Attempt Live Origin T)
    (r : Reloader Live Origin T) :
    Looking (Option (Outcome ReloadReport × Reloader Live Origin T)) := do
  let changed ← Engine.changedProjects r.engine.scripts.entries
  reloadAll parser fuel attempts changed .empty r

end Reloader

/-- The file system at each instant. -/
abbrev Clock := Nat → (q : FileQuestion) → q.Answer

/-- Answers at an instant, and goes on to the next. -/
def Clock.answer (clock : Clock) (q : FileQuestion) (n : Nat) : q.Answer × Nat := (clock n q, n + 1)

namespace Clock
variable {clock : Clock} {X : Type}

theorem asked_instant (p : Looking X) (n : Nat) : n ≤ (p.run clock.answer n).2 ∧
    ∀ q t, (q, t) ∈ p.asked clock.answer n → n ≤ t ∧ t < (p.run clock.answer n).2 := by
  induction p generalizing n with
  | done x => exact ⟨le_rfl, nofun⟩
  | ask q k ih =>
    obtain ⟨hle, hasked⟩ := ih (clock n q) (n + 1)
    refine ⟨Nat.le_of_succ_le hle, fun r t hmem => ?_⟩
    rcases List.mem_cons.mp hmem with heq | hmem
    · cases heq
      exact ⟨le_rfl, hle⟩
    · obtain ⟨hn, ht⟩ := hasked r t hmem
      exact ⟨Nat.le_of_succ_le hn, ht⟩

theorem restampAll_mem {paths : List Path} (hnodup : paths.Nodup) (watched : WatchedFiles)
    (n : Nat) (path : Path) (stamp : Option FileStamp) :
    (path, stamp) ∈ ((WatchedFiles.restampAll paths watched).run clock.answer n).1.files.entries ↔
      path ∉ paths ∧ (path, stamp) ∈ watched.files.entries ∨
      ∃ t, (.stamp path, t) ∈ (WatchedFiles.restampAll paths watched).asked clock.answer n ∧
        stamp = clock t (.stamp path) := by
  induction paths generalizing watched n with
  | nil =>
    constructor
    · exact fun hmem => .inl ⟨List.not_mem_nil, hmem⟩
    · rintro (⟨-, hmem⟩ | ⟨t, ht, -⟩)
      · exact hmem
      · cases ht
  | cons first paths ih =>
    obtain ⟨hfirst, hpaths⟩ := List.nodup_cons.mp hnodup
    have hrest := ih hpaths (watched.watchStamped first (clock n (.stamp first))) (n + 1)
    constructor
    · intro hmem
      rcases hrest.mp hmem with ⟨hnot, hold⟩ | ⟨t, ht, hstamp⟩
      · rcases IndexMap.mem_insert.mp hold with ⟨rfl, rfl⟩ | ⟨hne, hold⟩
        · exact .inr ⟨n, List.mem_cons_self, rfl⟩
        · exact .inl ⟨List.not_mem_cons_of_ne_of_not_mem hne hnot, hold⟩
      · exact .inr ⟨t, List.mem_cons_of_mem _ ht, hstamp⟩
    · rintro (⟨hnot, hold⟩ | ⟨t, ht, rfl⟩)
      · obtain ⟨hne, hnot⟩ := not_or.mp (mt List.mem_cons.mpr hnot)
        exact hrest.mpr (.inl ⟨hnot, IndexMap.mem_insert.mpr (.inr ⟨hne, hold⟩)⟩)
      · rcases List.mem_cons.mp ht with heq | ht
        · cases heq
          exact hrest.mpr (.inl ⟨hfirst, IndexMap.mem_insert.mpr (.inl ⟨rfl, rfl⟩)⟩)
        · exact hrest.mpr (.inr ⟨t, ht, rfl⟩)

theorem restamp_mem (watched : WatchedFiles) (n : Nat) (path : Path) (stamp : Option FileStamp) :
    (path, stamp) ∈ (watched.restamp.run clock.answer n).1.files.entries ↔
      ∃ t, (.stamp path, t) ∈ watched.restamp.asked clock.answer n ∧
        stamp = clock t (.stamp path) := by
  have hmem := @restampAll_mem clock _ watched.files.nodup watched n path stamp
  constructor
  · intro h
    rcases hmem.mp h with ⟨hnot, hold⟩ | hasked
    · exact absurd (IndexMap.mem_keys.mpr ⟨stamp, hold⟩) hnot
    · exact hasked
  · exact fun h => hmem.mpr (.inr h)

theorem anyChanged_cons (first : Path) (stamped : Option FileStamp)
    (entries : List (Path × Option FileStamp)) (n : Nat) :
    ((WatchedFiles.anyChanged ((first, stamped) :: entries)).run clock.answer n).1 =
        (if clock n (.stamp first) ≠ stamped then true
          else ((WatchedFiles.anyChanged entries).run clock.answer (n + 1)).1) ∧
      (WatchedFiles.anyChanged ((first, stamped) :: entries)).asked clock.answer n =
        (.stamp first, n) :: if clock n (.stamp first) ≠ stamped then []
          else (WatchedFiles.anyChanged entries).asked clock.answer (n + 1) := by
  have hask : WatchedFiles.anyChanged ((first, stamped) :: entries) =
      .ask (.stamp first) fun stamp =>
        if stamp ≠ stamped then pure true else WatchedFiles.anyChanged entries := rfl
  rw [hask, Asking.run_ask, Asking.asked]
  unfold Clock.answer
  dsimp only
  split_ifs <;> exact ⟨rfl, rfl⟩

theorem anyChanged_asked {entries : List (Path × Option FileStamp)} {n t : Nat} {path : Path}
    (h : (.stamp path, t) ∈ (WatchedFiles.anyChanged entries).asked clock.answer n) :
    path ∈ entries.map Prod.fst := by
  induction entries generalizing n with
  | nil => cases h
  | cons entry entries ih =>
    obtain ⟨first, stamped⟩ := entry
    rw [(anyChanged_cons first stamped entries n).2] at h
    rcases List.mem_cons.mp h with heq | hrest
    · cases heq
      exact List.mem_cons_self
    · split_ifs at hrest
      · cases hrest
      · exact List.mem_cons_of_mem _ (ih hrest)

/-- A check finds a change exactly where it sees another stamp than the one recorded. -/
theorem anyChanged_iff {entries : List (Path × Option FileStamp)}
    (hnodup : (entries.map Prod.fst).Nodup) (n : Nat) :
    ((WatchedFiles.anyChanged entries).run clock.answer n).1 = true ↔
      ∃ path stamp t, (path, stamp) ∈ entries ∧
        (.stamp path, t) ∈ (WatchedFiles.anyChanged entries).asked clock.answer n ∧
        clock t (.stamp path) ≠ stamp := by
  induction entries generalizing n with
  | nil =>
    constructor
    · intro h
      cases h
    · rintro ⟨_, _, _, hmem, -⟩
      cases hmem
  | cons entry entries ih =>
    obtain ⟨first, stamped⟩ := entry
    obtain ⟨hfirst, hentries⟩ := List.nodup_cons.mp hnodup
    obtain ⟨hrun, hasked⟩ := @anyChanged_cons clock first stamped entries n
    rw [hrun, hasked]
    by_cases hdiffers : clock n (.stamp first) ≠ stamped
    · rw [if_pos hdiffers, if_pos hdiffers]
      constructor
      · intro _
        exact ⟨first, stamped, n, List.mem_cons_self, List.mem_cons_self, hdiffers⟩
      · exact fun _ => rfl
    · rw [if_neg hdiffers, if_neg hdiffers, ih hentries]
      constructor
      · rintro ⟨path, stamp, t, hmem, ht, hne⟩
        exact ⟨path, stamp, t, List.mem_cons_of_mem _ hmem, List.mem_cons_of_mem _ ht, hne⟩
      · rintro ⟨path, stamp, t, hmem, ht, hne⟩
        rcases List.mem_cons.mp hmem with heq | hmem
        all_goals rcases List.mem_cons.mp ht with heq' | ht
        · cases heq
          cases heq'
          exact absurd hne hdiffers
        · cases heq
          exact absurd (anyChanged_asked ht) hfirst
        · cases heq'
          exact absurd (List.mem_map_of_mem hmem) hfirst
        · exact ⟨path, stamp, t, hmem, ht, hne⟩

end Clock

end RustTS.Runner
