import RustTS.Runner.TaskCounter

/-! What an operation leaves to the next one: Promise jobs in the runtime's queue, and deferred
tasks whose Promise has settled. Settling runs every job, then reads the results of the tasks, and
reading a result may run getters. -/
namespace RustTS.Runner
open ModuleLoader

/-- What JavaScript has done when it returns: what it made of the scripts' values, the jobs it
queued and the Promises it settled. -/
structure Effect (H J : Type) where
  heap : H
  queued : List J
  settles : List Nat

/-- The scripts' values, the job queue, and the Promises that have settled. -/
structure Realm (H J : Type) where
  heap : H
  jobs : List J
  settled : List Nat

namespace Realm
variable {H J : Type}

/-- A settled Promise stays so, and only the engine takes jobs off the queue. -/
def after (r : Realm H J) (effect : Effect H J) : Realm H J :=
  ⟨effect.heap, r.jobs ++ effect.queued, r.settled ++ effect.settles⟩

end Realm

/-- The scripts' code: what a job does, and what reading and decoding the result of a task comes to,
with what the getters it runs do. `restore` fails on a Promise the runtime no longer holds. -/
structure RealmCode (V H J : Type) where
  job : J → Realm H J → Effect H J
  restore : Nat → Except VmError Unit
  read : ScriptTask → Realm H J → Except VmError V × Effect H J

variable {V H J : Type}

namespace RealmCode
variable (code : RealmCode V H J)

/-- The job loop: it ends with an empty queue. -/
inductive Drains : Realm H J → Realm H J → Prop
  | done {r : Realm H J} (empty : r.jobs = []) : Drains r r
  | job {r t : Realm H J} {job : J} {rest : List J} (next : r.jobs = job :: rest)
      (more : Drains ({ r with jobs := rest }.after (code.job job { r with jobs := rest })) t) :
      Drains r t

/-- `ScriptTask::poll`. -/
def poll (task : ScriptTask) (r : Realm H J) : Polled V × Realm H J :=
  match code.restore task.promise with
  | .error error => (.unrestorable error, r)
  | .ok _ =>
    if task.promise ∈ r.settled then
      let (outcome, effect) := code.read task r
      (.settled outcome, r.after effect)
    else (.pending, r)

def pollTasks : List ScriptTask → Realm H J → List (Polled V) × Realm H J
  | [], r => ([], r)
  | task :: tasks, r =>
    let (found, r) := code.poll task r
    let (others, r) := pollTasks tasks r
    (found :: others, r)

/-- What the polls of a harvest find, script after script. -/
def pollScripts : List (Text × DeferredScript) → Realm H J → Polls V × Realm H J
  | [], r => (fun _ _ => .pending, r)
  | (id, script) :: scripts, r =>
    let (found, r) := code.pollTasks script.tasks r
    let (polls, r) := pollScripts scripts r
    (fun k i => if k = id then (found[i]?).getD .pending else polls k i, r)

end RealmCode

/-- The state in which a step begins to settle, what its polls find, and the request it is making:
none where it runs no JavaScript. -/
def DeferredStep.settling (d : Deferred V) :
    DeferredStep V → Option (Option RequestId × Deferred V × Polls V)
  | .settle polls => some (none, d, polls)
  | .callDeferred id returned polls => (d.scripts.get? id).map fun _ => (none, d.called id returned, polls)
  | .requestDeferred handled ending =>
    ending.map fun ending => (some d.nextRequest, d.delivered handled, ending.polls)
  | .replace id polls =>
    (d.scripts.get? id).map fun previous =>
      (none, ({ d with scripts := d.scripts.insert id ⟨[], []⟩ } : Deferred V).dropped previous, polls)
  | .unload id polls =>
    (d.scripts.get? id).map fun script =>
      (none, ({ d with scripts := d.scripts.erase id } : Deferred V).dropped script, polls)
  | .takeCall _ => none
  | .takeRequest _ => none

/-- The engine's deferred work and the realm its scripts share. -/
structure Working (V H J : Type) where
  deferred : Deferred V
  realm : Realm H J

/-- An operation with the JavaScript it runs before it settles, or one that the budget or an
interrupt stops. -/
inductive WorkLabel (V H J : Type)
  | operation (effect : Effect H J) (step : DeferredStep V)
  | stopped (step : DeferredStep V)

namespace Working
variable (code : RealmCode V H J)

/-- An operation settles once its JavaScript has run, and its polls find what is there; without
JavaScript it leaves the realm alone, and a request no script listens to enters no handler. What is
left when an operation is stopped is not said. -/
inductive Step : Working V H J → WorkLabel V H J → Working V H J → Prop
  | settled {s : Working V H J} {effect : Effect H J} {step : DeferredStep V}
      {making : Option RequestId} {begun : Deferred V} {polls : Polls V} {drained : Realm H J}
      (settling : step.settling s.deferred = some (making, begun, polls))
      (drains : code.Drains (s.realm.after effect) drained)
      (found : polls = (code.pollScripts begun.scripts.entries drained).1) :
      Step s (.operation effect step)
        ⟨step.next s.deferred, (code.pollScripts begun.scripts.entries drained).2⟩
  | silent {s : Working V H J} {effect : Effect H J} {step : DeferredStep V}
      (settling : step.settling s.deferred = none)
      (unheard : ∀ handled, step = .requestDeferred handled none → handled = []) :
      Step s (.operation effect step) ⟨step.next s.deferred, s.realm⟩
  | stopped {s : Working V H J} {step : DeferredStep V} (realm : Realm H J) :
      Step s (.stopped step) ⟨step.next s.deferred, realm⟩

def new (heap : H) : Working V H J := ⟨.default, ⟨heap, [], []⟩⟩

/-- Nothing is left for the next operation. -/
def Clean (s : Working V H J) : Prop :=
  s.realm.jobs = [] ∧ ∀ task ∈ s.deferred.tasks, task.promise ∉ s.realm.settled

end Working

namespace RealmCode
variable (code : RealmCode V H J)

/-- Reading the results of these tasks, one after another, queues no job and settles the Promise of
no task that was looked at before and is kept. -/
def Quiet : List ScriptTask → List ScriptTask → Realm H J → Prop
  | _, [], _ => True
  | kept, task :: tasks, r =>
    match code.restore task.promise with
    | .error _ => Quiet kept tasks r
    | .ok _ =>
      if task.promise ∈ r.settled then
        let effect := (code.read task r).2
        (effect.queued = [] ∧ ∀ other ∈ kept, other.promise ∉ effect.settles) ∧
          Quiet kept tasks (r.after effect)
      else Quiet (kept ++ [task]) tasks r

end RealmCode

/-- No result that the settling of this operation reads does. -/
def Working.Undisturbed (code : RealmCode V H J) (s : Working V H J) (effect : Effect H J)
    (step : DeferredStep V) : Prop :=
  ∀ making begun polls, step.settling s.deferred = some (making, begun, polls) →
    ∀ drained, code.Drains (s.realm.after effect) drained → code.Quiet [] begun.tasks drained

namespace Deferred
variable {d : Deferred V} {id : Text} {script : DeferredScript}

/-- The tasks whose polls find a pending Promise; the first is at place `i`. -/
def waitingFrom (polled : Nat → Polled V) : Nat → List ScriptTask → List ScriptTask
  | _, [] => []
  | i, task :: tasks =>
    if (polled i).outcome.isNone then task :: waitingFrom polled (i + 1) tasks
    else waitingFrom polled (i + 1) tasks

theorem pollFrom_tasks (polled : Nat → Polled V) (rest : List ScriptTask) :
    ∀ (i : Nat) (kept : List ScriptTask) (d : Deferred V) (script : DeferredScript),
      d.scripts.get? id = some script → script.tasks = kept ++ rest →
        ((d.pollFrom id polled i kept rest).scripts.get? id).map (·.tasks) =
          some (kept ++ waitingFrom polled i rest) := by
  induction rest with
  | nil =>
    intro i kept d script hs ht
    unfold pollFrom waitingFrom
    rw [hs, ← ht]
    rfl
  | cons task rest ih =>
    intro i kept d script hs ht
    unfold pollFrom waitingFrom
    cases hpolled : (polled i).outcome with
    | none =>
      have hkept : script.tasks = (kept ++ [task]) ++ rest := by simpa using ht
      simpa using ih (i + 1) (kept ++ [task]) d script hs hkept
    | some outcome =>
      have hget : (Deferred.finish task.target outcome
          { d.onScript id fun script => { script with tasks := kept ++ rest } with
            activeTasks := d.activeTasks - 1 }).scripts.get? id =
          some { script with tasks := kept ++ rest } := by
        rw [finish_scripts]
        show (d.onScript id _).scripts.get? id = _
        rw [get?_onScript, hs]
        simp
      exact ih (i + 1) kept _ _ hget rfl

theorem pollScript_tasks (making : Option RequestId) (polls : Polls V) (id k : Text) :
    ((d.pollScript making polls id).scripts.get? k).map (·.tasks) =
      if k = id then (d.scripts.get? k).map fun script => waitingFrom (polls k) 0 script.tasks
      else (d.scripts.get? k).map (·.tasks) := by
  split_ifs with hk
  · subst hk
    unfold pollScript
    cases hs : d.scripts.get? k with
    | none => simp [hs]
    | some script =>
      have htasks := pollFrom_tasks (polls k) script.tasks 0 [] d script hs rfl
      dsimp only
      unfold retainGuards
      rw [get?_onScript, Option.map_map]
      simpa [Function.comp_def, apply_ite DeferredScript.tasks] using htasks
  · have herase : (d.pollScript making polls id).scripts.erase id = d.scripts.erase id :=
      erase_pollScript making polls
    have hget : ((d.pollScript making polls id).scripts.erase id).get? k =
        (d.scripts.erase id).get? k := by rw [herase]
    rw [IndexMap.get?_erase_of_ne _ hk, IndexMap.get?_erase_of_ne _ hk] at hget
    rw [hget]

theorem pollScripts_tasks (making : Option RequestId) (polls : Polls V) (k : Text) (ids : List Text) :
    ∀ d : Deferred V, ids.Nodup →
      ((ids.foldl (fun d id => d.pollScript making polls id) d).scripts.get? k).map (·.tasks) =
        if k ∈ ids then (d.scripts.get? k).map fun script => waitingFrom (polls k) 0 script.tasks
        else (d.scripts.get? k).map (·.tasks) := by
  induction ids with
  | nil => exact fun d _ => by simp
  | cons id ids ih =>
    intro d hnodup
    obtain ⟨hnot, hrest⟩ := List.nodup_cons.mp hnodup
    rw [List.foldl_cons, ih _ hrest]
    have hscript := pollScript_tasks (d := d) making polls id k
    by_cases hk : k = id
    · subst hk
      rw [if_neg hnot, if_pos List.mem_cons_self, hscript, if_pos rfl]
    · rw [if_neg hk] at hscript
      have hwaiting : ((d.pollScript making polls id).scripts.get? k).map
          (fun script => waitingFrom (polls k) 0 script.tasks) =
            (d.scripts.get? k).map fun script => waitingFrom (polls k) 0 script.tasks := by
        have hmapped := congrArg (Option.map (waitingFrom (polls k) 0)) hscript
        rwa [Option.map_map, Option.map_map] at hmapped
      have hmem : k ∈ id :: ids ↔ k ∈ ids := by simp [hk]
      rw [hwaiting, hscript]
      by_cases hids : k ∈ ids
      · rw [if_pos hids, if_pos (hmem.mpr hids)]
      · rw [if_neg hids, if_neg (mt hmem.mp hids)]

/-- The tasks a harvest leaves are those whose polls find a pending Promise. -/
theorem mem_harvest_tasks (h : d.Exact) (making : Option RequestId) (polls : Polls V) {task : ScriptTask} :
    task ∈ (d.harvest making polls).tasks ↔ ∃ id script, d.scripts.get? id = some script ∧
      task ∈ waitingFrom (polls id) 0 script.tasks := by
  have hget : ∀ k, ((d.harvest making polls).scripts.get? k).map (·.tasks) =
      (d.scripts.get? k).map fun script => waitingFrom (polls k) 0 script.tasks := by
    intro k
    unfold harvest
    split_ifs with hcount
    · have hnone : d.tasks = [] := List.eq_nil_of_length_eq_zero (h.symm.trans hcount)
      cases hs : d.scripts.get? k with
      | none => rfl
      | some script =>
        have hempty : script.tasks = [] := by
          rw [List.eq_nil_iff_forall_not_mem]
          intro task htask
          have hmem : task ∈ d.tasks := mem_tasks.mpr ⟨k, script, hs, htask⟩
          rw [hnone] at hmem
          cases hmem
        rw [Option.map_some, Option.map_some, hempty]
        rfl
    · rw [pollScripts_tasks making polls k d.scripts.keys d d.scripts.nodup]
      split_ifs with hmem
      · rfl
      · rw [IndexMap.get?_eq_none.mpr hmem]
        rfl
  rw [mem_tasks]
  constructor
  · rintro ⟨id, script, hs, htask⟩
    have hid := hget id
    rw [hs, Option.map_some, eq_comm, Option.map_eq_some_iff] at hid
    obtain ⟨before, hbefore, hwaiting⟩ := hid
    rw [← hwaiting] at htask
    exact ⟨id, before, hbefore, htask⟩
  · rintro ⟨id, script, hs, htask⟩
    have hid := hget id
    rw [hs, Option.map_some, Option.map_eq_some_iff] at hid
    obtain ⟨after, hafter, hwaiting⟩ := hid
    rw [← hwaiting] at htask
    exact ⟨id, after, hafter, htask⟩

end Deferred

namespace RealmCode
variable {code : RealmCode V H J} {r : Realm H J}

/-- The tasks whose polls, one after another, find a pending Promise. -/
def waiting (code : RealmCode V H J) : List ScriptTask → Realm H J → List ScriptTask
  | [], _ => []
  | task :: tasks, r =>
    let (found, r) := code.poll task r
    if found.outcome.isNone then task :: waiting code tasks r else waiting code tasks r

theorem waiting_cons (task : ScriptTask) (tasks : List ScriptTask) (r : Realm H J) :
    code.waiting (task :: tasks) r =
      if (code.poll task r).1.outcome.isNone then task :: code.waiting tasks (code.poll task r).2
      else code.waiting tasks (code.poll task r).2 := rfl

private theorem pollTasks_append (xs ys : List ScriptTask) (r : Realm H J) :
    (code.pollTasks (xs ++ ys) r).2 = (code.pollTasks ys (code.pollTasks xs r).2).2 := by
  induction xs generalizing r with
  | nil => rfl
  | cons task xs ih => exact ih _

private theorem waiting_append (xs ys : List ScriptTask) (r : Realm H J) :
    code.waiting (xs ++ ys) r = code.waiting xs r ++ code.waiting ys (code.pollTasks xs r).2 := by
  induction xs generalizing r with
  | nil => rfl
  | cons task xs ih =>
    rw [List.cons_append, waiting_cons, waiting_cons, ih]
    split_ifs <;> rfl

theorem waitingFrom_pollTasks (polled : Nat → Polled V) (tasks : List ScriptTask) :
    ∀ (i : Nat) (r : Realm H J),
      (∀ k, k < tasks.length → polled (i + k) = (((code.pollTasks tasks r).1[k]?).getD .pending)) →
        Deferred.waitingFrom polled i tasks = code.waiting tasks r := by
  induction tasks with
  | nil => exact fun _ _ _ => rfl
  | cons task tasks ih =>
    intro i r hpolled
    have hfirst : polled i = (code.poll task r).1 := hpolled 0 (Nat.zero_lt_succ _)
    have hrest := ih (i + 1) (code.poll task r).2 fun k hk => by
      have hnext := hpolled (k + 1) (Nat.succ_lt_succ hk)
      rw [← Nat.add_assoc, Nat.add_right_comm] at hnext
      exact hnext
    unfold Deferred.waitingFrom waiting
    rw [hfirst, hrest]

private theorem pollScripts_realm (scripts : List (Text × DeferredScript)) (r : Realm H J) :
    (code.pollScripts scripts r).2 = (code.pollTasks (scripts.flatMap (·.2.tasks)) r).2 := by
  induction scripts generalizing r with
  | nil => rfl
  | cons e scripts ih =>
    rw [List.flatMap_cons, pollTasks_append]
    exact ih _

/-- The polls of a harvest keep the tasks that polling all tasks, one after another, keeps. -/
theorem mem_waiting_iff (scripts : List (Text × DeferredScript)) (r : Realm H J)
    (hnodup : (scripts.map Prod.fst).Nodup) {task : ScriptTask} :
    task ∈ code.waiting (scripts.flatMap (·.2.tasks)) r ↔ ∃ e ∈ scripts,
      task ∈ Deferred.waitingFrom ((code.pollScripts scripts r).1 e.1) 0 e.2.tasks := by
  induction scripts generalizing r with
  | nil => simp [waiting]
  | cons e scripts ih =>
    rw [List.map_cons, List.nodup_cons] at hnodup
    obtain ⟨hnot, hrest⟩ := hnodup
    have hself : Deferred.waitingFrom ((code.pollScripts (e :: scripts) r).1 e.1) 0 e.2.tasks =
        code.waiting e.2.tasks r := by
      apply waitingFrom_pollTasks
      intro k _
      rw [Nat.zero_add]
      exact if_pos rfl
    have hothers : ∀ other ∈ scripts, (code.pollScripts (e :: scripts) r).1 other.1 =
        (code.pollScripts scripts (code.pollTasks e.2.tasks r).2).1 other.1 := by
      intro other hother
      have hne : other.1 ≠ e.1 := fun heq => hnot (heq ▸ List.mem_map_of_mem hother)
      funext i
      exact if_neg hne
    rw [List.flatMap_cons, waiting_append, List.mem_append, ih _ hrest, List.exists_mem_cons_iff,
      hself]
    constructor
    · rintro (hmem | ⟨other, hother, hmem⟩)
      · exact .inl hmem
      · rw [← hothers other hother] at hmem
        exact .inr ⟨other, hother, hmem⟩
    · rintro (hmem | ⟨other, hother, hmem⟩)
      · exact .inl hmem
      · rw [hothers other hother] at hmem
        exact .inr ⟨other, hother, hmem⟩

theorem pollTasks_keeps (tasks : List ScriptTask) (r : Realm H J) :
    (∀ job ∈ r.jobs, job ∈ (code.pollTasks tasks r).2.jobs) ∧
      ∀ promise ∈ r.settled, promise ∈ (code.pollTasks tasks r).2.settled := by
  induction tasks generalizing r with
  | nil => exact ⟨fun _ h => h, fun _ h => h⟩
  | cons task tasks ih =>
    obtain ⟨hjobs, hsettled⟩ := ih (code.poll task r).2
    have hpoll : (∀ job ∈ r.jobs, job ∈ (code.poll task r).2.jobs) ∧
        ∀ promise ∈ r.settled, promise ∈ (code.poll task r).2.settled := by
      unfold poll
      split
      · exact ⟨fun _ h => h, fun _ h => h⟩
      · split_ifs
        · exact ⟨fun _ h => List.mem_append_left _ h, fun _ h => List.mem_append_left _ h⟩
        · exact ⟨fun _ h => h, fun _ h => h⟩
    exact ⟨fun job h => hjobs job (hpoll.1 job h), fun promise h => hsettled promise (hpoll.2 promise h)⟩

/-- Reading the results leaves nothing exactly when it disturbs nothing. -/
theorem quiet_iff (tasks : List ScriptTask) :
    ∀ (kept : List ScriptTask) (r : Realm H J), r.jobs = [] →
      (∀ task ∈ kept, task.promise ∉ r.settled) →
        (((code.pollTasks tasks r).2.jobs = [] ∧
          ∀ task ∈ kept ++ code.waiting tasks r, task.promise ∉ (code.pollTasks tasks r).2.settled) ↔
        code.Quiet kept tasks r) := by
  induction tasks with
  | nil =>
    intro kept r hjobs hkept
    unfold waiting Quiet
    rw [List.append_nil]
    exact iff_of_true ⟨hjobs, hkept⟩ trivial
  | cons task tasks ih =>
    intro kept r hjobs hkept
    have hpolled : (code.pollTasks (task :: tasks) r).2 =
        (code.pollTasks tasks (code.poll task r).2).2 := rfl
    rw [hpolled, waiting_cons]
    unfold Quiet
    cases hrestore : code.restore task.promise with
    | error error =>
      have hpoll : code.poll task r = (.unrestorable error, r) := by
        unfold poll
        rw [hrestore]
      rw [hpoll]
      exact ih kept r hjobs hkept
    | ok _ =>
      dsimp only
      by_cases hsettled : task.promise ∈ r.settled
      · have hpoll : code.poll task r =
            (.settled (code.read task r).1, r.after (code.read task r).2) := by
          unfold poll
          rw [hrestore]
          exact if_pos hsettled
        rw [hpoll, if_pos hsettled]
        obtain ⟨hjobsKept, hsettledKept⟩ := code.pollTasks_keeps tasks (r.after (code.read task r).2)
        constructor
        · intro ⟨hclean, hwaiting⟩
          have hqueued : (code.read task r).2.queued = [] := by
            rw [List.eq_nil_iff_forall_not_mem]
            intro job hjob
            have hleft := hjobsKept job (List.mem_append_right _ hjob)
            rw [hclean] at hleft
            cases hleft
          have hothers : ∀ other ∈ kept, other.promise ∉ (code.read task r).2.settles := by
            intro other hother hdone
            exact hwaiting other (List.mem_append_left _ hother)
              (hsettledKept _ (List.mem_append_right _ hdone))
          refine ⟨⟨hqueued, hothers⟩, (ih kept _ ?_ ?_).mp ⟨hclean, hwaiting⟩⟩
          · exact List.append_eq_nil_iff.mpr ⟨hjobs, hqueued⟩
          · exact fun other hother hdone =>
              (List.mem_append.mp hdone).elim (hkept other hother) (hothers other hother)
        · intro ⟨⟨hqueued, hothers⟩, hquiet⟩
          refine (ih kept _ ?_ ?_).mpr hquiet
          · exact List.append_eq_nil_iff.mpr ⟨hjobs, hqueued⟩
          · exact fun other hother hdone =>
              (List.mem_append.mp hdone).elim (hkept other hother) (hothers other hother)
      · have hpoll : code.poll task r = (.pending, r) := by
          unfold poll
          rw [hrestore]
          exact if_neg hsettled
        rw [hpoll, if_neg hsettled]
        have hkept' : ∀ other ∈ kept ++ [task], other.promise ∉ r.settled := by
          intro other hother
          obtain hmem | hmem := List.mem_append.mp hother
          · exact hkept other hmem
          · rw [List.mem_singleton.mp hmem]
            exact hsettled
        have hrest := ih (kept ++ [task]) r hjobs hkept'
        rwa [List.append_assoc] at hrest

end RealmCode

namespace Deferred
variable {d : Deferred V}

theorem concluded_tasks (r : RequestId) (outcome : Outcome Unit) :
    (d.concluded r outcome).tasks = d.tasks := by
  have hretain : ∀ e : Deferred V, (requestDeferred.retainAll r e).tasks = e.tasks := by
    intro e
    refine List.foldlRecOn (motive := fun x : Deferred V => x.tasks = e.tasks) _ _ rfl ?_
    intro x hx id _
    have htasks : (x.retainGuards (some r) id).tasks = x.tasks := tasks_onScript_of_eq fun _ => rfl
    rw [htasks]
    exact hx
  cases outcome with
  | panicked => rfl
  | ok _ => exact hretain _
  | err error => exact hretain _

/-- What a step that settles makes of the tasks. -/
theorem next_settling (h : d.Exact) {step : DeferredStep V} {making : Option RequestId}
    {begun : Deferred V} {polls : Polls V} (hstep : step.settling d = some (making, begun, polls)) :
    begun.Exact ∧ (step.next d).tasks = (begun.harvest making polls).tasks := by
  cases step with
  | settle polls =>
    cases hstep
    exact ⟨h, rfl⟩
  | callDeferred id returned polls =>
    unfold DeferredStep.settling at hstep
    obtain ⟨script, hs, heq⟩ := Option.map_eq_some_iff.mp hstep
    cases heq
    refine ⟨h.called hs returned, ?_⟩
    show (d.callDeferred id returned polls).tasks = _
    unfold Deferred.callDeferred
    rw [hs]
    rfl
  | requestDeferred handled ending =>
    obtain ⟨ending, rfl, heq⟩ := Option.map_eq_some_iff.mp hstep
    cases heq
    refine ⟨h.delivered handled, ?_⟩
    exact concluded_tasks (d := (d.delivered handled).harvest _ _) d.nextRequest _
  | replace id polls =>
    obtain ⟨previous, hs, heq⟩ := Option.map_eq_some_iff.mp hstep
    cases heq
    refine ⟨exact_dropped (h.without (without_insert hs)), ?_⟩
    show (d.replace id polls).tasks = _
    unfold Deferred.replace
    rw [hs]
    rfl
  | unload id polls =>
    obtain ⟨script, hs, heq⟩ := Option.map_eq_some_iff.mp hstep
    cases heq
    refine ⟨exact_dropped (h.without (without_erase hs)), ?_⟩
    show (d.unload id polls).tasks = _
    unfold Deferred.unload
    rw [hs]
    rfl
  | takeCall _ => cases hstep
  | takeRequest _ => cases hstep

/-- A step without JavaScript makes no task. -/
theorem next_silent {step : DeferredStep V} (hstep : step.settling d = none)
    (hunheard : ∀ handled, step = .requestDeferred handled none → handled = []) :
    ∀ task ∈ (step.next d).tasks, task ∈ d.tasks := by
  cases step with
  | settle polls => cases hstep
  | callDeferred id returned polls =>
    have hs : d.scripts.get? id = none := Option.map_eq_none_iff.mp hstep
    have hnext : DeferredStep.next d (.callDeferred id returned polls) = d := by
      show d.callDeferred id returned polls = d
      unfold Deferred.callDeferred
      rw [hs]
    rw [hnext]
    exact fun _ h => h
  | requestDeferred handled ending =>
    obtain rfl : ending = none := Option.map_eq_none_iff.mp hstep
    obtain rfl := hunheard handled rfl
    intro task htask
    have htasks : (DeferredStep.next d (.requestDeferred [] none)).tasks = d.tasks :=
      concluded_tasks (d := d.delivered []) d.nextRequest (.ok ())
    rwa [htasks] at htask
  | replace id polls =>
    have hs : d.scripts.get? id = none := Option.map_eq_none_iff.mp hstep
    intro task htask
    have hnext : DeferredStep.next d (.replace id polls) =
        { d with scripts := d.scripts.insert id ⟨[], []⟩ } := by
      show d.replace id polls = _
      unfold Deferred.replace
      rw [hs]
    rw [hnext, tasks_insert_of_not_mem hs] at htask
    exact htask
  | unload id polls =>
    have hs : d.scripts.get? id = none := Option.map_eq_none_iff.mp hstep
    have hnext : DeferredStep.next d (.unload id polls) = d := by
      show d.unload id polls = d
      unfold Deferred.unload
      rw [hs]
    rw [hnext]
    exact fun _ h => h
  | takeCall _ => exact fun _ h => h
  | takeRequest _ => exact fun _ h => h

end Deferred

namespace RealmCode
variable {code : RealmCode V H J} {r t u : Realm H J}

theorem Drains.empty (h : code.Drains r t) : t.jobs = [] := by
  induction h with
  | done empty => exact empty
  | job _ _ ih => exact ih

theorem Drains.unique (h : code.Drains r t) (h' : code.Drains r u) : t = u := by
  induction h with
  | done empty =>
    cases h' with
    | done => rfl
    | job next _ => cases empty.symm.trans next
  | job next _ ih =>
    cases h' with
    | done empty => cases empty.symm.trans next
    | job next' more =>
      cases next.symm.trans next'
      exact ih more

end RealmCode

namespace Working
variable {code : RealmCode V H J} {s t : Working V H J}

theorem exact_step : Transition.Preserves (Step code) fun s => s.deferred.Exact := by
  intro s label t h hstep
  cases hstep with
  | settled => exact (h.next _).2
  | silent => exact (h.next _).2
  | stopped => exact (h.next _).2

/-- An operation that settles leaves nothing exactly when no result it reads disturbs it. -/
theorem clean_settled (hexact : s.deferred.Exact) {effect : Effect H J} {step : DeferredStep V}
    (hstep : Step code s (.operation effect step) t) (hran : (step.settling s.deferred).isSome) :
    t.Clean ↔ s.Undisturbed code effect step := by
  cases hstep with
  | silent settling _ =>
    rw [settling] at hran
    cases hran
  | settled settling drains found =>
    rename_i making begun polls drained
    obtain ⟨hbegun, htasks⟩ := Deferred.next_settling hexact settling
    have hlist : begun.scripts.entries.flatMap (·.2.tasks) = begun.tasks := by
      unfold Deferred.tasks IndexMap.values
      rw [List.flatMap_map]
    have hmem : ∀ task, task ∈ (step.next s.deferred).tasks ↔ task ∈ code.waiting begun.tasks drained := by
      intro task
      rw [htasks, Deferred.mem_harvest_tasks hbegun, ← hlist,
        RealmCode.mem_waiting_iff _ _ begun.scripts.nodup, found]
      constructor
      · intro ⟨id, script, hs, hwaiting⟩
        exact ⟨(id, script), IndexMap.get?_eq_some.mp hs, hwaiting⟩
      · intro ⟨e, he, hwaiting⟩
        exact ⟨e.1, e.2, IndexMap.get?_eq_some.mpr he, hwaiting⟩
    have hquiet := @RealmCode.quiet_iff V H J code begun.tasks [] drained drains.empty (by simp)
    have hclean : (⟨step.next s.deferred, (code.pollScripts begun.scripts.entries drained).2⟩ :
        Working V H J).Clean ↔ code.Quiet [] begun.tasks drained := by
      unfold Clean
      rw [← hquiet, RealmCode.pollScripts_realm, hlist]
      simp only [hmem, List.nil_append]
    rw [hclean]
    constructor
    · intro hq making' begun' polls' hsettling drained' hdrained
      cases settling.symm.trans hsettling
      rwa [← drains.unique hdrained]
    · intro hundisturbed
      exact hundisturbed _ _ _ settling _ drains

private theorem clean_silent (h : s.Clean) {effect : Effect H J} {step : DeferredStep V}
    (hstep : Step code s (.operation effect step) t) (hsilent : step.settling s.deferred = none) :
    t.Clean := by
  cases hstep with
  | silent _ unheard =>
    exact ⟨h.1, fun task htask => h.2 task (Deferred.next_silent hsilent unheard task htask)⟩
  | settled settling => cases settling.symm.trans hsilent

/-- Results that are read without running code disturb nothing. -/
theorem undisturbed_of_plain
    (h : ∀ task r, (code.read task r).2.queued = [] ∧ (code.read task r).2.settles = [])
    (s : Working V H J) (effect : Effect H J) (step : DeferredStep V) : s.Undisturbed code effect step := by
  have hquiet : ∀ (tasks kept : List ScriptTask) (r : Realm H J), code.Quiet kept tasks r := by
    intro tasks
    induction tasks with
    | nil => exact fun _ _ => trivial
    | cons task tasks ih =>
      intro kept r
      unfold RealmCode.Quiet
      split
      · exact ih _ _
      · split_ifs
        · obtain ⟨hqueued, hsettles⟩ := h task r
          refine ⟨⟨hqueued, fun other _ => ?_⟩, ih _ _⟩
          rw [hsettles]
          exact List.not_mem_nil
        · exact ih _ _
  exact fun _ _ _ _ _ _ => hquiet _ _ _

/-- **What is left for the next operation.** In any run, stopped operations among it, an operation
that ran JavaScript and was not stopped returns with an empty job queue and no task of a settled
Promise exactly when none of the results it reads queues a job or settles the Promise of a task it
has looked at before and kept. So nothing is ever left in a run of such operations. -/
theorem nothing_left_iff (heap : H) {labels : List (WorkLabel V H J)}
    (h : Transition.Run (Step code) (new heap) labels s) :
    (∀ effect step t, Step code s (.operation effect step) t →
      (step.settling s.deferred).isSome → (t.Clean ↔ s.Undisturbed code effect step)) ∧
    (Transition.Run (Transition.Guarded (fun u label => ∃ effect step, label = .operation effect step ∧
      u.Undisturbed code effect step) (Step code)) (new heap) labels s → s.Clean) := by
  have hexact : s.deferred.Exact := h.invariant exact_step rfl
  refine ⟨fun effect step t hstep hran => clean_settled hexact hstep hran, fun hguarded => ?_⟩
  have hboth := hguarded.invariant (I := fun u => u.deferred.Exact ∧ u.Clean) ?_ ⟨rfl, rfl, nofun⟩
  · exact hboth.2
  · rintro u label v ⟨hu, hclean⟩ ⟨⟨effect, step, rfl, hundisturbed⟩, hstep⟩
    refine ⟨exact_step u _ v hu hstep, ?_⟩
    cases hsettling : step.settling u.deferred with
    | none => exact clean_silent hclean hstep hsettling
    | some settling =>
      refine (clean_settled hu hstep ?_).mpr hundisturbed
      rw [hsettling]
      rfl

/-- Scripts whose results have a getter that queues these jobs. -/
def getterCode (queued : List Unit) : RealmCode Unit Unit Unit :=
  ⟨fun _ _ => ⟨(), [], []⟩, fun _ => .ok (), fun _ _ => (.ok (), ⟨(), queued, []⟩)⟩

theorem settled_call (queued : List Unit) : ∃ s t labels effect step,
    Transition.Run (Step (getterCode queued)) (new ()) labels s ∧
      Step (getterCode queued) s (.operation effect step) t ∧
      (step.settling s.deferred).isSome ∧ t.realm.jobs = queued := by
  have hloaded : Transition.Run (Step (getterCode queued)) (new ())
      [.operation ⟨(), [], []⟩ (.replace ['a'] fun _ _ => .pending)] _ := .single (.silent rfl nofun)
  exact ⟨_, _, _, ⟨(), [], [0]⟩, .callDeferred ['a'] (.promise 0 (.ok ()))
    ((getterCode queued).pollScripts [(['a'], ⟨[⟨0, .call 0⟩], []⟩)] ⟨(), [], [0]⟩).1,
    hloaded, .settled rfl (.done rfl) rfl, rfl, rfl⟩

/-- Without getters nothing is left. -/
theorem nothing_left_iff_plain : ∃ s t labels effect step,
    Transition.Run (Step (getterCode [])) (new ()) labels s ∧
      Step (getterCode []) s (.operation effect step) t ∧ t.Clean := by
  obtain ⟨s, t, labels, effect, step, hrun, hstep, hran, -⟩ := settled_call []
  have hclean := ((nothing_left_iff () hrun).1 effect step t hstep hran).mpr
    (undisturbed_of_plain (fun _ _ => ⟨rfl, rfl⟩) s effect step)
  exact ⟨s, t, labels, effect, step, hrun, hstep, hclean⟩

/-- A getter that queues a job leaves it to the next operation. -/
theorem getter_leaves_job : ∃ s t labels effect step,
    Transition.Run (Step (getterCode [()])) (new ()) labels s ∧
      Step (getterCode [()]) s (.operation effect step) t ∧
      (step.settling s.deferred).isSome ∧ ¬ t.Clean := by
  obtain ⟨s, t, labels, effect, step, hrun, hstep, hran, hjobs⟩ := settled_call [()]
  refine ⟨s, t, labels, effect, step, hrun, hstep, hran, fun hclean => ?_⟩
  cases hjobs.symm.trans hclean.1

end Working

end RustTS.Runner
