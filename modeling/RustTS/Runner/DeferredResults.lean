import RustTS.Runner.DeferredInvariant

/-! How often the handles of deferred work yield: a handle whose result was taken yields again
only when a retired script drops a task of its request. -/
namespace RustTS.Runner
open ModuleLoader

variable {V : Type}

namespace RequestResults

variable {q : RequestResults V}

theorem completeIfReady_yieldsOnce (hu : q.finished = false → q.handle.taken = false)
    (hy : q.handle.YieldsOnce) : q.completeIfReady.handle.YieldsOnce := by
  obtain ⟨heq, -⟩ | ⟨hf, -, heq⟩ := q.completeIfReady_cases
  · rwa [heq]
  · rw [heq]
    exact PendingCall.yieldsOnce_complete.mpr (hu hf)

private theorem cancel_yieldsOnce (hs : q.Sound) (hy : q.handle.YieldsOnce) :
    q.cancel.handle.YieldsOnce := by
  unfold cancel
  split_ifs with hf
  · exact hy
  · exact PendingCall.yieldsOnce_complete.mpr (hs.unfinished (Bool.eq_false_iff.mpr hf)).2

theorem completeIfReady_isSome (h : q.handle.result.isSome = true) :
    q.completeIfReady.handle.result.isSome = true := by
  obtain ⟨heq, -⟩ | ⟨-, -, heq⟩ := q.completeIfReady_cases <;> rw [heq]
  · exact h
  · exact PendingCall.complete_isSome _ _

private theorem cancel_isSome (h : q.handle.result.isSome = true) :
    q.cancel.handle.result.isSome = true := by
  unfold cancel
  split_ifs
  · exact h
  · exact PendingCall.complete_isSome _ _

theorem cancel_taken (q : RequestResults V) : q.cancel.handle.taken = q.handle.taken := by
  unfold cancel
  split_ifs <;> rfl

end RequestResults

namespace Deferred

variable {d : Deferred V} {id : Text} {script : DeferredScript} {r : RequestId}

/-- A property of a request that everything but dropping a task and taking the result keeps. -/
structure RequestClosed (Q : RequestResults V → Prop) : Prop where
  reserve : ∀ {q}, Q q → Q q.reserve
  record : ∀ {q} slot result, Q q → Q (q.record slot result)
  fail : ∀ {q} error, Q q → Q (q.fail error)
  activate : ∀ {q}, Q q → Q q.activate
  cancel : ∀ {q}, Q q → Q q.cancel

namespace RequestClosed

variable {Q : RequestResults V → Prop}

variable (hQ : RequestClosed Q) (k : RequestId)

include hQ in
theorem finish (target : TaskTarget) (outcome : Except VmError V) (h : Q (d.requests k)) :
    Q ((d.finish target outcome).requests k) := by
  cases target with
  | call c => exact h
  | reply r slot id => exact onRequest_keeps (Q := Q) (hQ.record slot _) h

include hQ in
theorem harvestClosed : HarvestClosed fun d : Deferred V => Q (d.requests k) where
  finish outcome _ _ h := hQ.finish k _ outcome h
  retain _ _ h := h

include hQ in
theorem callDeferred (id : Text) (returned : Returned V) (polls : Polls V)
    (h : Q (d.requests k)) : Q ((d.callDeferred id returned polls).requests k) := by
  unfold Deferred.callDeferred
  cases d.scripts.get? id with
  | none => exact h
  | some script =>
    refine (hQ.harvestClosed k).harvest none polls ?_
    cases returned with
    | threw error => exact h
    | plain decoded => exact hQ.finish (d := d.newCall) k _ decoded h
    | promise p watched => cases watched <;> exact h

include hQ in
theorem requestDeferred (hs : List (Text × Returned V)) (ending : Option (DispatchEnd V))
    (h : Q (d.requests k)) : Q ((d.requestDeferred hs ending).requests k) := by
  have hfold := List.foldlRecOn (motive := fun e : Deferred V => Q (e.requests k)) hs
    (fun e h => e.deliver d.nextRequest h) (b := { d with nextRequest := d.nextRequest + 1 }) h
    fun _ he a _ => deliver_keeps (Q := Q) hQ.reserve hQ.record _ k a.1 a.2 he
  have hhandled : Q ((d.handled d.nextRequest hs ending).requests k) := by
    unfold Deferred.handled
    cases ending with
    | none => exact hfold
    | some ending => exact (hQ.harvestClosed k).harvest _ _ hfold
  rw [requestDeferred_eq]
  cases dispatched hs ending with
  | panicked => exact hhandled
  | ok _ => exact (hQ.harvestClosed k).retainAll _ (onRequest_keeps (Q := Q) hQ.activate hhandled)
  | err error =>
    exact (hQ.harvestClosed k).retainAll _
      (onRequest_keeps (Q := Q) hQ.activate (onRequest_keeps (Q := Q) (hQ.fail error) hhandled))

include hQ in
theorem cancelled (script : DeferredScript) (h : Q (d.requests k)) :
    Q ((d.cancelled script).requests k) := by
  refine List.foldlRecOn (motive := fun e : Deferred V => Q (e.requests k))
    script.requestGuards (cancelGuard script.tasks) h fun e he q _ => ?_
  unfold cancelGuard
  split_ifs
  · exact onRequest_keeps (Q := Q) hQ.cancel he
  · exact he

end RequestClosed

/-- No handle yields twice. -/
structure YieldsOnce (d : Deferred V) : Prop where
  calls : ∀ c, (d.calls c).YieldsOnce
  requests : ∀ r, (d.requests r).handle.YieldsOnce

theorem yieldsOnce_closed :
    RequestClosed fun q : RequestResults V => q.Sound ∧ q.handle.YieldsOnce where
  reserve h := ⟨h.1.reserve, h.2⟩
  record {q} slot result h := ⟨h.1.record slot result,
    RequestResults.completeIfReady_yieldsOnce (q := { q with replies := _ })
      (fun hf => (h.1.unfinished hf).2) h.2⟩
  fail {q} error h := ⟨h.1.fail error,
    RequestResults.completeIfReady_yieldsOnce (q := { q with replies := _ })
      (fun hf => (h.1.unfinished hf).2) h.2⟩
  activate {q} h := ⟨h.1.activate,
    RequestResults.completeIfReady_yieldsOnce (q := { q with active := true })
      (fun hf => (h.1.unfinished hf).2) h.2⟩
  cancel h := ⟨h.1.cancel, RequestResults.cancel_yieldsOnce h.1 h.2⟩

private theorem refilled_closed : RequestClosed fun q : RequestResults V =>
    q.handle.taken = true ∧ q.handle.result.isSome = true where
  reserve h := h
  record _ _ h := ⟨(RequestResults.completeIfReady_taken _).trans h.1,
    RequestResults.completeIfReady_isSome h.2⟩
  fail _ h := ⟨(RequestResults.completeIfReady_taken _).trans h.1,
    RequestResults.completeIfReady_isSome h.2⟩
  activate h := ⟨(RequestResults.completeIfReady_taken _).trans h.1,
    RequestResults.completeIfReady_isSome h.2⟩
  cancel h := ⟨(RequestResults.cancel_taken _).trans h.1, RequestResults.cancel_isSome h.2⟩

/-- The tasks of the script include one for a request whose result was taken. -/
def HoldsTaken (script : DeferredScript) (d : Deferred V) : Prop :=
  ∃ task ∈ script.tasks, ∃ r slot k, task.target = .reply r slot k ∧
    (d.requests r).handle.taken = true

theorem cancelTask_taken (target : TaskTarget) (r : RequestId) :
    ((d.cancelTask target).requests r).handle.taken = (d.requests r).handle.taken := by
  cases target with
  | call c => rfl
  | reply q slot k =>
    by_cases hq : r = q
    · subst hq
      simp [cancelTask, Deferred.onRequest, RequestResults.dropTask]
    · simp [cancelTask, Deferred.onRequest, hq]

theorem cancelTask_isSome {target : TaskTarget}
    (h : (d.requests r).handle.result.isSome = true ∨ ∃ slot k, target = .reply r slot k) :
    ((d.cancelTask target).requests r).handle.result.isSome = true := by
  cases target with
  | call c => simpa [cancelTask, onCall] using h
  | reply q slot k =>
    by_cases hq : r = q
    · subst hq
      simp [cancelTask, Deferred.onRequest, RequestResults.dropTask]
    · simpa [cancelTask, Deferred.onRequest, hq, Ne.symm hq] using h

theorem cancelled_taken (script : DeferredScript) (r : RequestId) :
    ((d.cancelled script).requests r).handle.taken = (d.requests r).handle.taken := by
  refine List.foldlRecOn
    (motive := fun e : Deferred V => (e.requests r).handle.taken = (d.requests r).handle.taken)
    script.requestGuards (cancelGuard script.tasks) rfl fun e he q _ => ?_
  rw [← he]
  unfold cancelGuard
  split_ifs
  · by_cases hq : r = q
    · subst hq
      simp [Deferred.onRequest, RequestResults.cancel_taken]
    · simp [Deferred.onRequest, hq]
  · rfl

private theorem dropTasks_taken (tasks : List ScriptTask) (r : RequestId) :
    ((tasks.foldl (fun d task => d.cancelTask task.target) d).requests r).handle.taken =
      (d.requests r).handle.taken :=
  List.foldlRecOn
    (motive := fun e : Deferred V => (e.requests r).handle.taken = (d.requests r).handle.taken)
    tasks _ rfl fun _ he _ _ => (cancelTask_taken _ r).trans he

theorem dropTasks_isSome {tasks : List ScriptTask}
    (h : (d.requests r).handle.result.isSome = true ∨
      ∃ task ∈ tasks, ∃ slot k, task.target = .reply r slot k) :
    ((tasks.foldl (fun d task => d.cancelTask task.target) d).requests r).handle.result.isSome =
      true := by
  induction tasks generalizing d with
  | nil => simpa using h
  | cons task tasks ih =>
    refine ih ?_
    obtain h | ⟨other, hother, slot, k, htarget⟩ := h
    · exact .inl (cancelTask_isSome (.inl h))
    · obtain rfl | hother := List.mem_cons.mp hother
      · exact .inl (cancelTask_isSome (.inr ⟨slot, k, htarget⟩))
      · exact .inr ⟨other, hother, slot, k, htarget⟩

private theorem cancelTask_yieldsOnce {target : TaskTarget}
    (hno : ∀ slot k, target = .reply r slot k → (d.requests r).handle.taken = false)
    (hy : (d.requests r).handle.YieldsOnce) :
    ((d.cancelTask target).requests r).handle.YieldsOnce := by
  cases target with
  | call c => exact hy
  | reply q slot k =>
    by_cases hq : r = q
    · subst hq
      simpa [cancelTask, Deferred.onRequest, RequestResults.dropTask] using
        PendingCall.yieldsOnce_complete.mpr (hno slot k rfl)
    · simpa [cancelTask, Deferred.onRequest, hq] using hy

private theorem dropped_yieldsOnce (hno : ¬ d.HoldsTaken script)
    (hy : ((d.cancelled script).requests r).handle.YieldsOnce) :
    ((d.dropped script).requests r).handle.YieldsOnce := by
  refine (List.foldlRecOn (motive := fun e : Deferred V => (e.requests r).handle.YieldsOnce ∧
    (e.requests r).handle.taken = (d.requests r).handle.taken) script.tasks
      (fun d task => d.cancelTask task.target) ⟨hy, cancelled_taken script r⟩ ?_).1
  rintro e ⟨hye, htaken⟩ task ht
  refine ⟨cancelTask_yieldsOnce (fun slot k htarget => ?_) hye, (cancelTask_taken _ r).trans htaken⟩
  rw [htaken]
  exact Bool.eq_false_iff.mpr fun htrue => hno ⟨task, ht, r, slot, k, htarget, htrue⟩

/-- Dropping tasks lets a handle yield again exactly when one of them is for a request whose
result was taken. -/
theorem retire_yieldsOnce (h : (d.dropped script).Inv) (hs : ∀ r, (d.requests r).Sound)
    (hy : ∀ r, (d.requests r).handle.YieldsOnce) (polls : Polls V) :
    (∀ r, ((d.retire script polls).requests r).handle.YieldsOnce) ↔ ¬ d.HoldsTaken script := by
  rw [retire_eq]
  constructor
  · rintro hall ⟨task, ht, r, slot, k, htarget, htaken⟩
    have hdropped : ((d.dropped script).requests r).handle.taken = true ∧
        ((d.dropped script).requests r).handle.result.isSome = true :=
      ⟨(dropTasks_taken _ r).trans ((cancelled_taken script r).trans htaken),
        dropTasks_isSome (.inr ⟨task, ht, slot, k, htarget⟩)⟩
    obtain ⟨htaken', hsome⟩ := (refilled_closed.harvestClosed r).harvest none polls hdropped
    simp [hall r htaken'] at hsome
  · intro hno r
    have hcancelled := yieldsOnce_closed.cancelled r script ⟨hs r, hy r⟩
    have hdropped := dropped_yieldsOnce hno hcancelled.2
    exact ((yieldsOnce_closed.harvestClosed r).harvest none polls ⟨h.sound r, hdropped⟩).2

/-- The step retires a script one of whose tasks is for a request with its result taken. -/
def Refills (d : Deferred V) : DeferredStep V → Prop
  | .replace id _ | .unload id _ => ∃ script, d.scripts.get? id = some script ∧ d.HoldsTaken script
  | _ => False

/-- A step makes a handle yield again exactly when it refills one. -/
theorem yieldsOnce_step (h : d.Inv) (hy : d.YieldsOnce) (step : DeferredStep V) :
    (step.next d).YieldsOnce ↔ ¬ d.Refills step := by
  suffices (∀ r, ((step.next d).requests r).handle.YieldsOnce) ↔ ¬ d.Refills step from
    ⟨fun hall => this.mp hall.requests, fun hno => ⟨(h.next step).yieldsOnce, this.mpr hno⟩⟩
  have hclosed (r : RequestId) : (d.requests r).Sound ∧ (d.requests r).handle.YieldsOnce :=
    ⟨h.sound r, hy.requests r⟩
  cases step with
  | settle polls =>
    exact iff_of_true
      (fun r => ((yieldsOnce_closed.harvestClosed r).harvest none polls (hclosed r)).2) id
  | callDeferred id returned polls =>
    exact iff_of_true
      (fun r => (yieldsOnce_closed.callDeferred r id returned polls (hclosed r)).2) (fun h => h)
  | requestDeferred hs ending =>
    exact iff_of_true (fun r => (yieldsOnce_closed.requestDeferred r hs ending (hclosed r)).2) id
  | replace id polls =>
    cases hs : d.scripts.get? id with
    | none =>
      refine iff_of_true (fun r => ?_) (by rintro ⟨_, hsome, _⟩; simp [hs] at hsome)
      simpa [DeferredStep.next, replace, hs] using hy.requests r
    | some script =>
      have hdropped := h.dropped_without hs (without_insert hs)
      have hretire : _ ↔ ¬ d.HoldsTaken script :=
        retire_yieldsOnce hdropped h.sound hy.requests polls
      simpa [DeferredStep.next, replace, hs, Refills] using hretire
  | unload id polls =>
    cases hs : d.scripts.get? id with
    | none =>
      refine iff_of_true (fun r => ?_) (by rintro ⟨_, hsome, _⟩; simp [hs] at hsome)
      simpa [DeferredStep.next, unload, hs] using hy.requests r
    | some script =>
      have hdropped := h.dropped_without hs (without_erase hs)
      have hretire : _ ↔ ¬ d.HoldsTaken script :=
        retire_yieldsOnce hdropped h.sound hy.requests polls
      simpa [DeferredStep.next, unload, hs, Refills] using hretire
  | takeCall c => exact iff_of_true hy.requests id
  | takeRequest q =>
    refine iff_of_true (fun r => ?_) id
    by_cases hq : r = q
    · subst hq
      simpa [DeferredStep.next, Deferred.onRequest] using PendingCall.YieldsOnce.take
    · simpa [DeferredStep.next, Deferred.onRequest, hq] using hy.requests r

/-- Along a run no handle yields twice exactly when no step drops a task of a request whose
result was taken. -/
theorem yieldsOnce_iff (ls : List (DeferredStep V)) (d : Deferred V) :
    (∀ ms ns u, ls = ms ++ ns → Transition.Run DeferredStep.Step .default ms u →
      Transition.Run DeferredStep.Step u ns d → u.YieldsOnce) ↔
    ∀ ms l ns u v, ls = ms ++ l :: ns → Transition.Run DeferredStep.Step .default ms u →
      DeferredStep.Step u l v → Transition.Run DeferredStep.Step v ns d → ¬ u.Refills l :=
  Transition.Run.always_iff ls d inv_preserved inv_default ⟨fun _ => nofun, fun _ => nofun⟩
    fun s l t hinv hy hst => by
      obtain rfl : l.next s = t := hst
      exact yieldsOnce_step hinv hy l

/-- A request that two scripts answer with pending Promises: unloading one cancels it, its
result is taken, and unloading the other drops a task of it. -/
def unloadedTwice : List (DeferredStep Unit) :=
  let pending : Polls Unit := fun _ _ => .pending
  [.replace ['a'] pending, .replace ['b'] pending,
    .requestDeferred [(['a'], .promise 0 (.ok ())), (['b'], .promise 1 (.ok ()))]
      (some ⟨.default, .quiet, pending⟩),
    .unload ['a'] pending, .takeRequest 0, .unload ['b'] pending]

theorem unloadedTwice_yields_twice :
    ∃ d, Transition.Run DeferredStep.Step .default unloadedTwice d ∧
      (d.requests 0).handle = ⟨some (.error .cancelled), true⟩ ∧ ¬ d.YieldsOnce := by
  refine ⟨_, .cons rfl (.cons rfl (.cons rfl (.cons rfl (.cons rfl (.cons rfl (.nil _)))))),
    rfl, fun h => ?_⟩
  have := h.requests 0 rfl
  cases this

end Deferred

end RustTS.Runner
