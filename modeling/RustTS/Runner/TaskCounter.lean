import Mathlib.Algebra.Order.Ring.Nat
import RustTS.Runner.DeferredInvariant

/-! `active_tasks`, which spares an operation the look at every script when no task waits. It is
kept by additions and differences of unsigned numbers; the checked steps are those of an engine
that stops at a difference below zero, and at a poll that is spared though a task waits. -/
namespace RustTS.Runner
open ModuleLoader

variable {V : Type}

namespace Deferred

/-- The counter less `n`. -/
def uncount (n : Nat) (d : Deferred V) : Option (Deferred V) :=
  if n ≤ d.activeTasks then some { d with activeTasks := d.activeTasks - n } else none

/-- The length of the task list of script `id`. -/
def taskCount (id : Text) (d : Deferred V) : Nat :=
  ((d.scripts.get? id).map (·.tasks.length)).getD 0

/-- `poll_tasks` for one script, with the one difference it takes off the counter. -/
def pollChecked (making : Option RequestId) (polls : Polls V) (id : Text) (d : Deferred V) :
    Option (Deferred V) :=
  let before := d.taskCount id
  let polled := d.pollScript making polls id
  let left := polled.taskCount id
  if left ≤ before then { polled with activeTasks := d.activeTasks }.uncount (before - left)
  else none

def harvestChecked (making : Option RequestId) (polls : Polls V) (d : Deferred V) :
    Option (Deferred V) :=
  if d.activeTasks = 0 then if d.tasks.isEmpty then some d else none
  else d.scripts.keys.foldlM (fun d id => d.pollChecked making polls id) d

/-- What `call_deferred` does before it settles. -/
def called (id : Text) (returned : Returned V) (d : Deferred V) : Deferred V :=
  match returned with
  | .threw _ => d
  | .plain decoded => d.newCall.finish (.call d.nextCall) decoded
  | .promise _ (.error _) => d
  | .promise p (.ok _) => d.newCall.spawn id ⟨p, .call d.nextCall⟩

/-- What `request_deferred` does before it settles. -/
def delivered (handled : List (Text × Returned V)) (d : Deferred V) : Deferred V :=
  handled.foldl (fun e h => e.deliver d.nextRequest h) { d with nextRequest := d.nextRequest + 1 }

/-- And after it has settled. -/
def concluded (r : RequestId) (outcome : Outcome Unit) (d : Deferred V) : Deferred V :=
  match outcome with
  | .panicked => d
  | .ok _ => requestDeferred.retainAll r (d.onRequest r (·.activate))
  | .err error => requestDeferred.retainAll r ((d.onRequest r (·.fail error)).onRequest r (·.activate))

def requestChecked (handled : List (Text × Returned V)) (ending : Option (DispatchEnd V))
    (d : Deferred V) : Option (Deferred V) :=
  let settled := match ending with
    | none => some (d.delivered handled)
    | some ending => (d.delivered handled).harvestChecked (some d.nextRequest) ending.polls
  settled.map (concluded d.nextRequest (dispatched handled ending))

def retireChecked (script : DeferredScript) (polls : Polls V) (d : Deferred V) :
    Option (Deferred V) := do
  let counted ← (script.requestGuards.foldl (cancelGuard script.tasks) d).uncount
    script.tasks.length
  (script.tasks.foldl (fun d task => d.cancelTask task.target) counted).harvestChecked none polls

end Deferred

/-- The step, unless it takes too much off the counter or spares a poll that is due. -/
def DeferredStep.checked (d : Deferred V) : DeferredStep V → Option (Deferred V)
  | .settle polls => d.harvestChecked none polls
  | .callDeferred id returned polls =>
    match d.scripts.get? id with
    | none => some d
    | some _ => (d.called id returned).harvestChecked none polls
  | .requestDeferred handled ending => d.requestChecked handled ending
  | .replace id polls =>
    let swapped := { d with scripts := d.scripts.insert id ⟨[], []⟩ }
    match d.scripts.get? id with
    | none => some swapped
    | some previous => swapped.retireChecked previous polls
  | .unload id polls =>
    match d.scripts.get? id with
    | none => some d
    | some script => { d with scripts := d.scripts.erase id }.retireChecked script polls
  | .takeCall h => some (d.onCall h (·.take.2))
  | .takeRequest r => some (d.onRequest r fun q => { q with handle := q.handle.take.2 })

namespace Deferred

variable {d : Deferred V} {id : Text} {script : DeferredScript}

/-- The counter is the number of tasks. -/
def Exact (d : Deferred V) : Prop := d.activeTasks = d.tasks.length

@[simp] theorem finish_tasks (target : TaskTarget) (outcome : Except VmError V) :
    (d.finish target outcome).tasks = d.tasks := by
  cases target <;> rfl

@[simp] theorem finish_activeTasks (target : TaskTarget) (outcome : Except VmError V) :
    (d.finish target outcome).activeTasks = d.activeTasks := by
  cases target <;> rfl

@[simp] theorem finish_scripts (target : TaskTarget) (outcome : Except VmError V) :
    (d.finish target outcome).scripts = d.scripts := by
  cases target <;> rfl

@[simp] theorem cancelTask_tasks (target : TaskTarget) : (d.cancelTask target).tasks = d.tasks := by
  cases target <;> rfl

@[simp] theorem cancelTask_activeTasks (target : TaskTarget) :
    (d.cancelTask target).activeTasks = d.activeTasks := by
  cases target <;> rfl

theorem exact_harvestClosed : HarvestClosed (Exact (V := V)) where
  finish := by
    intro d id script kept task rest outcome hs ht h
    obtain ⟨pre, post, htasks, hleft⟩ := tasks_remove hs ht
    unfold Exact at h ⊢
    rw [finish_tasks, finish_activeTasks]
    have hlength : ({ d.onScript id fun script => { script with tasks := kept ++ rest } with
        activeTasks := d.activeTasks - 1 } : Deferred V).tasks.length = (pre ++ post).length :=
      congrArg List.length hleft
    rw [hlength, h, htasks]
    simp only [List.length_append, List.length_cons]
    omega
  retain := by
    intro d making id h
    have htasks : (d.retainGuards making id).tasks = d.tasks := tasks_onScript_of_eq fun _ => rfl
    unfold Exact
    rw [htasks]
    exact h

private theorem count_harvestClosed (n : Nat) : HarvestClosed fun d : Deferred V => d.activeTasks ≤ n where
  finish := by
    intro d id script kept task rest outcome _ _ h
    rw [finish_activeTasks]
    show d.activeTasks - 1 ≤ n
    omega
  retain making id h := h

theorem erase_onScript (f : DeferredScript → DeferredScript) :
    (d.onScript id f).scripts.erase id = d.scripts.erase id := by
  ext1
  show (d.scripts.entries.map _).filter _ = d.scripts.entries.filter _
  rw [List.filter_map]
  have hfilter : (fun e : Text × DeferredScript => decide (e.1 ≠ id)) ∘
      (fun e : Text × DeferredScript => (e.1, if e.1 = id then f e.2 else e.2)) =
        fun e => decide (e.1 ≠ id) := rfl
  refine (List.map_congr_left fun e he => ?_).trans (List.map_id _)
  have hne : e.1 ≠ id := by simpa using (List.mem_filter.mp he).2
  simp [hne]

private theorem erase_pollFrom (polled : Nat → Polled V) (rest : List ScriptTask) :
    ∀ (i : Nat) (kept : List ScriptTask) (d : Deferred V),
      (d.pollFrom id polled i kept rest).scripts.erase id = d.scripts.erase id := by
  induction rest with
  | nil => exact fun _ _ _ => rfl
  | cons task rest ih =>
    intro i kept d
    unfold Deferred.pollFrom
    split
    · exact ih _ _ _
    · rw [ih, finish_scripts]
      exact erase_onScript _

theorem erase_pollScript (making : Option RequestId) (polls : Polls V) :
    (d.pollScript making polls id).scripts.erase id = d.scripts.erase id := by
  unfold Deferred.pollScript
  split
  · rfl
  · unfold Deferred.retainGuards
    rw [erase_onScript, erase_pollFrom]

theorem length_tasks (d : Deferred V) (id : Text) :
    d.tasks.length =
      ({ d with scripts := d.scripts.erase id } : Deferred V).tasks.length + d.taskCount id := by
  unfold taskCount
  cases hs : d.scripts.get? id with
  | none =>
    have hsame : d.scripts.erase id = d.scripts := by
      ext1
      apply List.filter_eq_self.mpr
      intro e he
      have hid : id ∉ d.scripts.keys := IndexMap.get?_eq_none.mp hs
      have hne : e.1 ≠ id := fun heq => hid (IndexMap.mem_keys.mpr ⟨e.2, heq ▸ he⟩)
      simpa using hne
    rw [hsame]
    rfl
  | some script =>
    obtain ⟨pre, post, htasks, hleft, -⟩ := tasks_split hs
    rw [htasks, hleft]
    simp only [List.length_append, Option.map_some, Option.getD_some]
    omega

theorem pollChecked_eq (h : d.Exact) (making : Option RequestId) (polls : Polls V) (id : Text) :
    d.pollChecked making polls id = some (d.pollScript making polls id) := by
  have hpolled := exact_harvestClosed.pollScript making polls id h
  have hle := (count_harvestClosed d.activeTasks).pollScript making polls id (le_refl _)
  have hbefore := length_tasks d id
  have hafter := length_tasks (d.pollScript making polls id) id
  have hothers : ({ d.pollScript making polls id with
      scripts := (d.pollScript making polls id).scripts.erase id } : Deferred V).tasks =
        ({ d with scripts := d.scripts.erase id } : Deferred V).tasks := by
    unfold tasks
    rw [erase_pollScript]
  rw [hothers] at hafter
  unfold Exact at h hpolled
  unfold pollChecked uncount
  dsimp only
  rw [if_pos (by omega), if_pos (by omega)]
  have hcount : d.activeTasks - (d.taskCount id - (d.pollScript making polls id).taskCount id) =
      (d.pollScript making polls id).activeTasks := by
    omega
  rw [hcount]

theorem harvestChecked_eq (h : d.Exact) (making : Option RequestId) (polls : Polls V) :
    d.harvestChecked making polls = some (d.harvest making polls) := by
  unfold harvestChecked Deferred.harvest
  split
  · next hzero =>
    have hnone : d.tasks = [] := by
      unfold Exact at h
      exact List.eq_nil_of_length_eq_zero (h.symm.trans hzero)
    rw [hnone]
    rfl
  · clear * - h
    generalize d.scripts.keys = ids
    induction ids generalizing d with
    | nil => rfl
    | cons id ids ih =>
      rw [List.foldlM_cons, pollChecked_eq h]
      exact ih (exact_harvestClosed.pollScript making polls id h)

theorem Exact.harvest (h : d.Exact) (making : Option RequestId) (polls : Polls V) :
    (d.harvest making polls).Exact :=
  exact_harvestClosed.harvest making polls h

theorem Exact.spawn (h : d.Exact) (hs : d.scripts.get? id = some script) (task : ScriptTask) :
    (d.spawn id task).Exact := by
  obtain ⟨pre, post, htasks, hspawn⟩ := tasks_spawn hs task
  unfold Exact at h ⊢
  have hcount : (d.spawn id task).activeTasks = d.activeTasks + 1 := rfl
  rw [hcount, hspawn, h, htasks]
  simp only [List.length_append, List.length_cons]
  omega

theorem Exact.finish (h : d.Exact) (target : TaskTarget) (outcome : Except VmError V) :
    (d.finish target outcome).Exact := by
  unfold Exact
  rw [finish_tasks, finish_activeTasks]
  exact h

theorem Exact.called (h : d.Exact) (hs : d.scripts.get? id = some script) (returned : Returned V) :
    (d.called id returned).Exact := by
  unfold Deferred.called
  split
  · exact h
  · exact Exact.finish (d := d.newCall) h _ _
  · exact h
  · exact Exact.spawn (d := d.newCall) h hs _

theorem Exact.observe (h : d.Exact) (r : RequestId) (id : Text) : (d.observe r id).Exact := by
  unfold Exact
  rw [observe_tasks]
  exact h

theorem Exact.deliver (h : d.Exact) (r : RequestId) (handled : Text × Returned V) :
    (d.deliver r handled).Exact := by
  obtain ⟨id, returned⟩ := handled
  rcases deliver_cases (d := d) r id returned with ⟨heq, -⟩ | ⟨script, hs, hcase⟩
  · rw [heq]
    exact h
  · rcases hcase with ⟨p, error, -, heq⟩ | ⟨decoded, -, heq⟩ | ⟨p, watched, -, heq⟩
    · rw [heq]
      exact h.observe r id
    · rw [heq]
      exact (h.observe r id).finish _ _
    · rw [heq]
      exact (h.observe r id).spawn (get?_observe hs) _

theorem Exact.delivered (h : d.Exact) (handled : List (Text × Returned V)) :
    (d.delivered handled).Exact :=
  List.foldlRecOn (motive := Exact) handled _ h fun _ he a _ => he.deliver _ a

theorem Exact.concluded (h : d.Exact) (r : RequestId) (outcome : Outcome Unit) :
    (d.concluded r outcome).Exact := by
  have hretain : ∀ {e : Deferred V}, e.Exact → (requestDeferred.retainAll r e).Exact :=
    fun he => exact_harvestClosed.retainAll r he
  cases outcome with
  | panicked => exact h
  | ok _ => exact hretain h
  | err error => exact hretain h

theorem cancelGuards_counts (dropped : List ScriptTask) (guards : List RequestId) :
    (guards.foldl (cancelGuard dropped) d).activeTasks = d.activeTasks ∧
      (guards.foldl (cancelGuard dropped) d).tasks = d.tasks := by
  refine List.foldlRecOn (motive := fun e : Deferred V =>
    e.activeTasks = d.activeTasks ∧ e.tasks = d.tasks) guards _ ⟨rfl, rfl⟩ ?_
  intro e he r _
  unfold Deferred.cancelGuard
  split_ifs
  · exact he
  · exact he

private theorem cancelTasks_counts (tasks : List ScriptTask) :
    (tasks.foldl (fun d task => d.cancelTask task.target) d).activeTasks = d.activeTasks ∧
      (tasks.foldl (fun d task => d.cancelTask task.target) d).tasks = d.tasks := by
  refine List.foldlRecOn (motive := fun e : Deferred V =>
    e.activeTasks = d.activeTasks ∧ e.tasks = d.tasks) tasks _ ⟨rfl, rfl⟩ ?_
  intro e he task _
  rw [cancelTask_activeTasks, cancelTask_tasks]
  exact he

theorem exact_dropped (hcount : d.activeTasks = d.tasks.length + script.tasks.length) :
    (d.dropped script).Exact := by
  obtain ⟨hactive, htasks⟩ := cancelGuards_counts (d := d) script.tasks script.requestGuards
  obtain ⟨hactive', htasks'⟩ := cancelTasks_counts (d := d.cancelled script) script.tasks
  have hcancelled : (d.cancelled script).activeTasks = d.activeTasks - script.tasks.length :=
    congrArg (· - script.tasks.length) hactive
  have hlists : (d.cancelled script).tasks = d.tasks := htasks
  show (script.tasks.foldl _ (d.cancelled script)).activeTasks =
    (script.tasks.foldl _ (d.cancelled script)).tasks.length
  rw [hactive', htasks', hcancelled, hlists]
  omega

theorem retireChecked_eq (hcount : d.activeTasks = d.tasks.length + script.tasks.length)
    (polls : Polls V) :
    d.retireChecked script polls = some (d.retire script polls) ∧ (d.retire script polls).Exact := by
  obtain ⟨hactive, -⟩ := cancelGuards_counts (d := d) script.tasks script.requestGuards
  have hdropped := exact_dropped hcount
  refine ⟨?_, ?_⟩
  · unfold retireChecked uncount
    rw [if_pos (by omega), retire_eq]
    exact harvestChecked_eq hdropped none polls
  · rw [retire_eq]
    exact hdropped.harvest none polls

theorem Exact.without (h : d.Exact) {scripts : IndexMap Text DeferredScript}
    (hw : Without script d scripts) :
    ({ d with scripts := scripts } : Deferred V).activeTasks =
      ({ d with scripts := scripts } : Deferred V).tasks.length + script.tasks.length := by
  obtain ⟨pre, post, htasks, hleft⟩ := hw.tasks
  rw [hleft]
  show d.activeTasks = _
  unfold Exact at h
  rw [h, htasks]
  simp only [List.length_append]
  omega

theorem tasks_insert_of_not_mem (hs : d.scripts.get? id = none) :
    ({ d with scripts := d.scripts.insert id ⟨[], []⟩ } : Deferred V).tasks = d.tasks := by
  unfold tasks
  rw [IndexMap.values_insert_of_not_mem _ hs, List.flatMap_append]
  exact List.append_nil _

/-- No step takes too much off an exact counter, or spares a poll that is due, and it leaves the
counter exact. -/
theorem Exact.next (h : d.Exact) (step : DeferredStep V) :
    step.checked d = some (step.next d) ∧ (step.next d).Exact := by
  cases step with
  | settle polls => exact ⟨harvestChecked_eq h none polls, h.harvest none polls⟩
  | callDeferred id returned polls =>
    show (match d.scripts.get? id with
      | none => some d
      | some _ => (d.called id returned).harvestChecked none polls) =
        some (d.callDeferred id returned polls) ∧ (d.callDeferred id returned polls).Exact
    have heq : ∀ script, d.scripts.get? id = some script →
        d.callDeferred id returned polls = (d.called id returned).harvest none polls := by
      intro script hs
      unfold Deferred.callDeferred
      rw [hs]
      rfl
    cases hs : d.scripts.get? id with
    | none =>
      have hnone : d.callDeferred id returned polls = d := by
        unfold Deferred.callDeferred
        rw [hs]
      rw [hnone]
      exact ⟨rfl, h⟩
    | some script =>
      have hcalled := h.called hs returned
      rw [heq script hs]
      exact ⟨harvestChecked_eq hcalled none polls, hcalled.harvest none polls⟩
  | requestDeferred handled ending =>
    have heq : d.requestDeferred handled ending =
        Deferred.concluded d.nextRequest (dispatched handled ending) (match ending with
          | none => d.delivered handled
          | some ending => (d.delivered handled).harvest (some d.nextRequest) ending.polls) := by
      rw [requestDeferred_eq]
      unfold Deferred.concluded Deferred.handled Deferred.delivered
      cases dispatched handled ending <;> rfl
    have hdelivered := h.delivered handled
    show d.requestChecked handled ending = some (d.requestDeferred handled ending) ∧
      (d.requestDeferred handled ending).Exact
    rw [heq]
    unfold requestChecked
    cases ending with
    | none => exact ⟨rfl, hdelivered.concluded _ _⟩
    | some ending =>
      dsimp only
      rw [harvestChecked_eq hdelivered]
      exact ⟨rfl, (hdelivered.harvest _ _).concluded _ _⟩
  | replace id polls =>
    show (match d.scripts.get? id with
      | none => some { d with scripts := d.scripts.insert id ⟨[], []⟩ }
      | some previous =>
        ({ d with scripts := d.scripts.insert id ⟨[], []⟩ } : Deferred V).retireChecked previous
          polls) = some (d.replace id polls) ∧ (d.replace id polls).Exact
    unfold Deferred.replace
    cases hs : d.scripts.get? id with
    | none =>
      refine ⟨rfl, ?_⟩
      unfold Exact
      rw [tasks_insert_of_not_mem hs]
      exact h
    | some script => exact retireChecked_eq (h.without (without_insert hs)) polls
  | unload id polls =>
    show (match d.scripts.get? id with
      | none => some d
      | some script =>
        ({ d with scripts := d.scripts.erase id } : Deferred V).retireChecked script polls) =
          some (d.unload id polls) ∧ (d.unload id polls).Exact
    unfold Deferred.unload
    cases hs : d.scripts.get? id with
    | none => exact ⟨rfl, h⟩
    | some script => exact retireChecked_eq (h.without (without_erase hs)) polls
  | takeCall _ => exact ⟨rfl, h⟩
  | takeRequest _ => exact ⟨rfl, h⟩

private theorem exact_run (steps : List (DeferredStep V)) (h : d.Exact) :
    (steps.foldl DeferredStep.next d).Exact :=
  List.foldlRecOn (motive := Exact) steps _ h fun _ he step _ => (he.next step).2

private theorem length_tasks_eq_sum (d : Deferred V) :
    d.tasks.length = (d.scripts.values.map (·.tasks.length)).sum := by
  unfold tasks
  rw [List.length_flatMap]

/-- After any operations the counter is the sum of the lengths of the loaded scripts' task lists;
no operation takes more off it than it holds, or spares a poll while a task waits. -/
theorem counter_exact (steps : List (DeferredStep V)) :
    let d := steps.foldl DeferredStep.next Deferred.default
    d.activeTasks = (d.scripts.values.map (·.tasks.length)).sum ∧
      (d.activeTasks = 0 → ∀ script ∈ d.scripts.values, script.tasks = []) ∧
      ∀ step : DeferredStep V, step.checked d = some (step.next d) := by
  have h : (steps.foldl DeferredStep.next (Deferred.default : Deferred V)).Exact :=
    exact_run steps rfl
  refine ⟨h.trans (length_tasks_eq_sum _), ?_, fun step => (h.next step).1⟩
  intro hzero script hscript
  have hsum := h.symm.trans hzero
  have hnone := List.eq_nil_of_length_eq_zero hsum
  exact List.flatMap_eq_nil_iff.mp hnone script hscript

end Deferred

end RustTS.Runner
