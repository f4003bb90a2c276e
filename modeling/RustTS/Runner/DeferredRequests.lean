import RustTS.Runner.DeferredInvariant

/-! Which deferred requests can finish: every reply a started request waits for has a task of a
loaded script, unless the Promise of the reply could not be watched. -/
namespace RustTS.Runner
open ModuleLoader

variable {V : Type}

/-- The request has not finished and waits for the reply of the slot. -/
structure RequestResults.Awaits (q : RequestResults V) (slot : Nat) : Prop where
  unfinished : q.finished = false
  empty : q.Empty slot

namespace RequestResults.Awaits

variable {q : RequestResults V} {slot : Nat}

theorem completeIfReady (h : q.Awaits slot) : q.completeIfReady.Awaits slot := by
  rw [completeIfReady_of_empty h.empty]
  exact h

theorem reserve (h : q.Awaits slot) : q.reserve.Awaits slot :=
  ⟨h.unfinished, reserve_empty.mpr (.inl h.empty)⟩

theorem record (h : q.Awaits slot) {k : Nat} (hk : slot ≠ k)
    (result : Except VmError (Text × V)) : (q.record k result).Awaits slot := by
  have hrecord : (q.record k result).Empty slot := record_empty.mpr ⟨h.empty, hk⟩
  have hempty := completeIfReady_empty.mp hrecord
  exact completeIfReady (q := { q with replies := q.replies.set k _ }) ⟨h.unfinished, hempty⟩

theorem fail (h : q.Awaits slot) (error : VmError) : (q.fail error).Awaits slot := by
  have hfail : (q.fail error).Empty slot := fail_empty.mpr h.empty
  have hempty := completeIfReady_empty.mp hfail
  exact completeIfReady (q := { q with replies := _ }) ⟨h.unfinished, hempty⟩

theorem activate (h : q.Awaits slot) : q.activate.Awaits slot ∧ q.activate.active = true := by
  have heq : q.activate = { q with active := true } :=
    completeIfReady_of_empty (q := { q with active := true }) h.empty
  rw [heq]
  exact ⟨⟨h.unfinished, h.empty⟩, rfl⟩

end RequestResults.Awaits

namespace Deferred

variable {d : Deferred V} {id : Text} {script : DeferredScript} {task : ScriptTask}
  {r q : RequestId} {slot : Nat}

/-- Every reply the request waits for has its task. -/
def Covered (d : Deferred V) (r : RequestId) : Prop :=
  (d.requests r).finished = false → ∀ slot, (d.requests r).Empty slot →
    ∃ task ∈ d.tasks, task.target.key = .inr (r, slot)

/-- No task fills the slot any more, and the request still waits for it. -/
structure Lost (d : Deferred V) (r : RequestId) (slot : Nat) : Prop where
  awaits : (d.requests r).Awaits slot
  untended : ∀ task ∈ d.tasks, task.target.key ≠ .inr (r, slot)

/-- What a step keeps of the flags and the slots of another's request. -/
structure Kept (q q' : RequestResults V) : Prop where
  active : q'.active = true → q.active = true
  finished : q'.finished = false → q.finished = false
  empty : ∀ slot, q'.Empty slot → q.Empty slot

theorem Kept.refl (q : RequestResults V) : Kept q q := ⟨fun h => h, fun h => h, fun _ h => h⟩

theorem Kept.trans {q₁ q₂ q₃ : RequestResults V} (h : Kept q₁ q₂) (h' : Kept q₂ q₃) :
    Kept q₁ q₃ :=
  ⟨fun h₃ => h.active (h'.active h₃), fun h₃ => h.finished (h'.finished h₃),
    fun slot h₃ => h.empty slot (h'.empty slot h₃)⟩

private theorem kept_cancel (q : RequestResults V) : Kept q q.cancel where
  active h := by
    unfold RequestResults.cancel at h
    split_ifs at h <;> exact h
  finished h := by simp [RequestResults.cancel_finished] at h
  empty _ := RequestResults.cancel_empty.mp

private theorem kept_record (q : RequestResults V) (slot : Nat) (result : Except VmError (Text × V)) :
    Kept q (q.record slot result) where
  active := RequestResults.completeIfReady_active (q := { q with replies := _ })
  finished := RequestResults.completeIfReady_finished (q := { q with replies := _ })
  empty _ h := (RequestResults.record_empty.mp h).1

private theorem kept_fail (q : RequestResults V) (error : VmError) : Kept q (q.fail error) where
  active := RequestResults.completeIfReady_active (q := { q with replies := _ })
  finished := RequestResults.completeIfReady_finished (q := { q with replies := _ })
  empty _ := RequestResults.fail_empty.mp

theorem kept_onRequest {f : RequestResults V → RequestResults V} (hf : ∀ q, Kept q (f q)) :
    Kept (d.requests q) ((d.onRequest r f).requests q) := by
  by_cases hq : q = r
  · subst hq
    simpa [Deferred.onRequest] using hf _
  · simpa [Deferred.onRequest, hq] using Kept.refl _

theorem kept_finish {e : Deferred V} (hrequests : e.requests = d.requests) (target : TaskTarget)
    (outcome : Except VmError V) : Kept (d.requests q) ((e.finish target outcome).requests q) := by
  rw [← hrequests]
  cases target with
  | call c => exact .refl _
  | reply r slot id => exact kept_onRequest fun q => kept_record q slot _

theorem covered_finish {target : TaskTarget} {e : Deferred V} (outcome : Except VmError V)
    (hrequests : e.requests = d.requests)
    (htasks : ∀ task ∈ d.tasks, task.target.key ≠ target.key → task ∈ e.tasks)
    (h : d.Covered r) : (e.finish target outcome).Covered r := by
  intro hf slot hslot
  have hkept : Kept (d.requests r) _ := kept_finish hrequests target outcome
  obtain ⟨task, ht, hkey⟩ := h (hkept.finished hf) slot (hkept.empty slot hslot)
  have hne : task.target.key ≠ target.key := by
    intro heq
    obtain ⟨id, rfl⟩ := TaskTarget.key_eq_inr.mp (heq.symm.trans hkey)
    simp only [Deferred.finish, Deferred.onRequest, Function.update_self] at hslot
    exact (RequestResults.record_empty.mp hslot).2 rfl
  refine ⟨task, ?_, hkey⟩
  cases target <;> exact htasks task ht hne

private theorem mem_of_removed {kept rest : List ScriptTask} {other : ScriptTask}
    (hs : d.scripts.get? id = some script) (ht : script.tasks = kept ++ task :: rest)
    (hother : other ∈ d.tasks) (hne : other.target.key ≠ task.target.key) :
    other ∈ (d.onScript id fun script => { script with tasks := kept ++ rest }).tasks := by
  obtain ⟨pre, post, htasks, hleft⟩ := tasks_remove hs ht
  rw [hleft]
  rw [htasks] at hother
  obtain hother | hother := List.mem_append.mp hother
  · exact List.mem_append_left _ hother
  · obtain rfl | hother := List.mem_cons.mp hother
    · exact absurd rfl hne
    · exact List.mem_append_right _ hother

@[simp] theorem retainGuards_tasks (making : Option RequestId) (id : Text) :
    (d.retainGuards making id).tasks = d.tasks := tasks_onScript_of_eq fun _ => rfl

theorem covered_harvestClosed (r : RequestId) :
    HarvestClosed fun d : Deferred V => d.Covered r where
  finish := by
    intro d id script kept task rest outcome hs ht h
    exact covered_finish (d := d) outcome rfl (fun _ => mem_of_removed hs ht) h
  retain {d} making id h hf slot hslot := by
    obtain ⟨task, ht, hkey⟩ := h hf slot hslot
    exact ⟨task, (retainGuards_tasks making id).symm ▸ ht, hkey⟩

theorem started_harvestClosed (r : RequestId) :
    HarvestClosed fun d : Deferred V => (d.requests r).active = true → d.Covered r where
  finish := by
    intro d id script kept task rest outcome hs ht h ha
    have hactive : (d.requests r).active = true :=
      Kept.active (kept_finish (by rfl) task.target outcome) ha
    exact (covered_harvestClosed r).finish outcome hs ht (h hactive)
  retain making id h ha := (covered_harvestClosed r).retain making id (h ha)

theorem lost_finish {target : TaskTarget} {e : Deferred V} (outcome : Except VmError V)
    (hrequests : e.requests = d.requests) (htasks : ∀ task ∈ e.tasks, task ∈ d.tasks)
    (hne : target.key ≠ .inr (r, slot)) (h : d.Lost r slot) :
    (e.finish target outcome).Lost r slot where
  awaits := by
    have hawaits := h.awaits
    rw [← hrequests] at hawaits
    cases target with
    | call c => exact hawaits
    | reply q k id =>
      by_cases hq : r = q
      · subst hq
        have hk : slot ≠ k := fun heq => hne (by rw [heq]; rfl)
        simpa [Deferred.finish, Deferred.onRequest] using hawaits.record hk _
      · simpa [Deferred.finish, Deferred.onRequest, hq] using hawaits
  untended task ht := by
    refine h.untended task (htasks task ?_)
    cases target <;> exact ht

private theorem lost_harvestClosed (r : RequestId) (slot : Nat) :
    HarvestClosed fun d : Deferred V => d.Lost r slot where
  finish := by
    intro d id script kept task rest outcome hs ht h
    obtain ⟨pre, post, htasks, hleft⟩ := tasks_remove hs ht
    have hmem : task ∈ d.tasks := htasks ▸ List.mem_append_right _ List.mem_cons_self
    refine lost_finish (d := d) outcome rfl (fun other hother => ?_) (h.untended task hmem) h
    have hother : other ∈ pre ++ post := hleft ▸ hother
    rw [htasks]
    exact (List.sublist_cons_self task post).append_left pre |>.subset hother
  retain making id h := ⟨h.awaits, by simpa using h.untended⟩

private theorem finish_reply_tasks (r : RequestId) (slot : Nat) (id : Text) (outcome : Except VmError V) :
    (d.finish (.reply r slot id) outcome).tasks = d.tasks := rfl

/-- The handler gave a Promise that could not be watched. -/
def Unwatched (h : Text × Returned V) : Prop := ∃ p error, h.2 = .promise p (.error error)

theorem deliver_keys (r : RequestId) (id : Text) (returned : Returned V) :
    (d.deliver r (id, returned)).scripts.keys = d.scripts.keys := by
  obtain ⟨heq, -⟩ | ⟨script, -, hcase⟩ := d.deliver_cases r id returned
  · rw [heq]
  · obtain ⟨p, error, -, heq⟩ | ⟨decoded, -, heq⟩ | ⟨p, watched, -, heq⟩ := hcase <;> rw [heq] <;>
      simp [observe, finish, spawn, Deferred.onRequest, onScript]

private theorem deliver_tasks {other : ScriptTask} (returned : Returned V) (h : other ∈ d.tasks) :
    other ∈ (d.deliver r (id, returned)).tasks := by
  obtain ⟨heq, -⟩ | ⟨script, hs, hcase⟩ := d.deliver_cases r id returned
  · rwa [heq]
  · rw [← observe_tasks r id] at h
    obtain ⟨p, error, -, heq⟩ | ⟨decoded, -, heq⟩ | ⟨p, watched, -, heq⟩ := hcase <;> rw [heq]
    · exact h
    · exact h
    · exact (mem_tasks_spawn (get?_observe hs)).mpr (.inl h)

theorem deliver_other (hq : q ≠ r) (returned : Returned V) :
    (d.deliver r (id, returned)).requests q = d.requests q := by
  obtain ⟨heq, -⟩ | ⟨script, -, hcase⟩ := d.deliver_cases r id returned
  · rw [heq]
  · obtain ⟨p, error, -, heq⟩ | ⟨decoded, -, heq⟩ | ⟨p, watched, -, heq⟩ := hcase <;> rw [heq] <;>
      simp [observe, finish, spawn, Deferred.onRequest, onScript, hq]

theorem covered_deliver (returned : Returned V)
    (hw : id ∈ d.scripts.keys → ¬ Unwatched (id, returned)) (h : d.Covered r) :
    (d.deliver r (id, returned)).Covered r := by
  obtain ⟨heq, -⟩ | ⟨script, hs, hcase⟩ := d.deliver_cases r id returned
  · rwa [heq]
  · have hid : id ∈ d.scripts.keys := IndexMap.mem_keys.mpr ⟨script, IndexMap.get?_eq_some.mp hs⟩
    obtain ⟨p, error, hreturned, -⟩ | ⟨decoded, -, heq⟩ | ⟨p, watched, -, heq⟩ := hcase
    · exact absurd ⟨p, error, hreturned⟩ (hw hid)
    · rw [heq]
      intro hf slot hslot
      have hkept : Kept ((d.observe r id).requests r) _ :=
        kept_finish rfl (.reply r (d.requests r).replies.length id) decoded
      have hunfinished : (d.requests r).finished = false := by
        simpa [observe, Deferred.onRequest, onScript, RequestResults.reserve] using
          hkept.finished hf
      have hne : slot ≠ (d.requests r).replies.length := by
        simp only [Deferred.finish, Deferred.onRequest, Function.update_self] at hslot
        exact (RequestResults.record_empty.mp hslot).2
      have hold := ((observe_empty r id).mp (hkept.empty slot hslot)).resolve_right hne
      obtain ⟨task, ht, hkey⟩ := h hunfinished slot hold
      exact ⟨task, by rwa [finish_reply_tasks, observe_tasks], hkey⟩
    · rw [heq]
      intro hf slot hslot
      have hunfinished : (d.requests r).finished = false := by
        simpa [spawn, observe, Deferred.onRequest, onScript, RequestResults.reserve] using hf
      obtain hold | rfl := (observe_empty r id).mp hslot
      · obtain ⟨task, ht, hkey⟩ := h hunfinished slot hold
        rw [← observe_tasks r id] at ht
        exact ⟨task, (mem_tasks_spawn (get?_observe hs)).mpr (.inl ht), hkey⟩
      · exact ⟨_, (mem_tasks_spawn (get?_observe hs)).mpr (.inr rfl), rfl⟩

theorem lost_deliver (returned : Returned V) (h : d.Lost r slot) :
    (d.deliver r (id, returned)).Lost r slot := by
  have hlt : slot < (d.requests r).replies.length := (List.getElem?_eq_some_iff.mp h.awaits.empty).1
  have hobserve : (d.observe r id).Lost r slot :=
    ⟨onRequest_keeps (Q := (·.Awaits slot)) (d := d.onScript id _) (fun h => h.reserve) h.awaits,
      by simpa using h.untended⟩
  have hne : TaskTarget.key (.reply r (d.requests r).replies.length id) ≠ .inr (r, slot) := by
    simpa [TaskTarget.key] using (Nat.ne_of_lt hlt).symm
  obtain ⟨heq, -⟩ | ⟨script, hs, hcase⟩ := d.deliver_cases r id returned
  · rwa [heq]
  · obtain ⟨p, error, -, heq⟩ | ⟨decoded, -, heq⟩ | ⟨p, watched, -, heq⟩ := hcase <;> rw [heq]
    · exact hobserve
    · exact lost_finish decoded rfl (fun _ ht => ht) hne hobserve
    · refine ⟨hobserve.awaits, fun task ht => ?_⟩
      obtain ht | rfl := (mem_tasks_spawn (get?_observe hs)).mp ht
      · exact hobserve.untended task ht
      · exact hne

theorem lost_unwatched (hinv : d.Inv) {returned : Returned V} (hid : id ∈ d.scripts.keys)
    (hw : Unwatched (id, returned)) (hf : (d.requests r).finished = false) :
    (d.deliver r (id, returned)).Lost r (d.requests r).replies.length := by
  obtain ⟨p, error, hreturned⟩ := hw
  obtain rfl : returned = .promise p (.error error) := hreturned
  obtain ⟨script, hscript⟩ := IndexMap.mem_keys.mp hid
  have hs := IndexMap.get?_eq_some.mpr hscript
  have heq : d.deliver r (id, .promise p (.error error)) = d.observe r id := by
    simp [deliver, hs]
  rw [heq]
  refine ⟨⟨?_, (observe_empty r id).mpr (.inr rfl)⟩, ?_⟩
  · simpa [observe, Deferred.onRequest, onScript, RequestResults.reserve] using hf
  · rw [observe_tasks]
    exact fun _ => hinv.next_slot

/-- A started request waits only for replies with a task; one no task replies to any more is
finished, with a result that is there or was taken. -/
structure NotStuck (d : Deferred V) : Prop where
  covered : ∀ r slot, (d.requests r).active = true → (d.requests r).finished = false →
    (d.requests r).Empty slot → ∃ task ∈ d.tasks, ∃ id, task.target = .reply r slot id
  finishes : ∀ r, (d.requests r).active = true ∨ (d.requests r).finished = true →
    (∀ task ∈ d.tasks, task.target.isReplyTo r = false) → (d.requests r).finished = true ∧
      ((d.requests r).handle.isFinished = true ∨ (d.requests r).handle.taken = true)

theorem notStuck_iff (h : d.Inv) :
    d.NotStuck ↔ ∀ r, (d.requests r).active = true → d.Covered r := by
  constructor
  · intro hns r ha hf slot hslot
    obtain ⟨task, ht, id, htarget⟩ := hns.covered r slot ha hf hslot
    exact ⟨task, ht, TaskTarget.key_eq_inr.mpr ⟨id, htarget⟩⟩
  · intro hc
    refine ⟨fun r slot ha hf hslot => ?_, fun r hstarted hno => ?_⟩
    · obtain ⟨task, ht, hkey⟩ := hc r ha hf slot hslot
      exact ⟨task, ht, TaskTarget.key_eq_inr.mp hkey⟩
    · have hfinished : (d.requests r).finished = true := by
        by_contra hf
        have hf := Bool.not_eq_true _ ▸ hf
        obtain ha | hf' := hstarted
        · obtain ⟨slot, hslot⟩ := RequestResults.waits_iff.mp ((h.sound r).waits ha hf)
          obtain ⟨task, ht, hkey⟩ := hc r ha hf slot hslot
          obtain ⟨id, htarget⟩ := TaskTarget.key_eq_inr.mp hkey
          simpa [TaskTarget.isReplyTo_iff.mpr ⟨slot, id, htarget⟩] using hno task ht
        · exact absurd hf' (by simp [hf])
      exact ⟨hfinished, (h.sound r).published hfinished⟩

private theorem retainAll_eq (r : RequestId) (d : Deferred V) :
    (requestDeferred.retainAll r d).tasks = d.tasks ∧
      (requestDeferred.retainAll r d).requests = d.requests :=
  List.foldlRecOn (motive := fun e : Deferred V => e.tasks = d.tasks ∧ e.requests = d.requests)
    d.scripts.keys _ ⟨rfl, rfl⟩ fun _ he id _ => ⟨(retainGuards_tasks _ id).trans he.1, he.2⟩

/-- The step leaves the reply of a handler it entered without a task: the handler's Promise
could not be watched, and the request went on. -/
def Abandons (d : Deferred V) : DeferredStep V → Prop
  | .requestDeferred handled ending =>
    (∃ h ∈ handled, h.1 ∈ d.scripts.keys ∧ Unwatched h) ∧ dispatched handled ending ≠ .panicked
  | _ => False

/-- A request while it is made. -/
structure Making (d : Deferred V) (r : RequestId) : Prop where
  inv : d.Inv
  numbered : r < d.nextRequest
  idle : (d.requests r).active = false ∧ (d.requests r).finished = false

theorem making_new (h : d.Inv) :
    Making { d with nextRequest := d.nextRequest + 1 } d.nextRequest :=
  ⟨h.newRequest, Nat.lt_succ_self _, by simp [h.freshRequests (Nat.le_refl _), RequestResults.new]⟩

private theorem idle_record {q : RequestResults V} (slot : Nat) (result : Except VmError (Text × V))
    (h : q.active = false ∧ q.finished = false) :
    (q.record slot result).active = false ∧ (q.record slot result).finished = false := by
  simp [RequestResults.record, RequestResults.completeIfReady, h]

theorem Making.deliver (h : d.Making r) (returned : Returned V) :
    (d.deliver r (id, returned)).Making r :=
  ⟨h.inv.deliver h.numbered id returned, deliver_nextRequest (d := d) r id returned ▸ h.numbered,
    deliver_keeps (Q := fun q : RequestResults V => q.active = false ∧ q.finished = false)
      (fun h => h) idle_record r r id returned h.idle⟩

theorem Making.handlers (h : d.Making r) (hs : List (Text × Returned V)) :
    (hs.foldl (fun e a => e.deliver r a) d).Making r ∧
      (hs.foldl (fun e a => e.deliver r a) d).scripts.keys = d.scripts.keys :=
  List.foldlRecOn (motive := fun e : Deferred V => e.Making r ∧ e.scripts.keys = d.scripts.keys)
    hs _ ⟨h, rfl⟩ fun _ he a _ => ⟨he.1.deliver a.2, (deliver_keys r a.1 a.2).trans he.2⟩

/-- If the Promises its handlers gave could be watched, a request waits only for replies with
a task. -/
theorem covered_handlers (hs : List (Text × Returned V))
    (hw : ∀ h ∈ hs, h.1 ∈ d.scripts.keys → ¬ Unwatched h) (hr : d.Covered r) :
    (hs.foldl (fun e a => e.deliver r a) d).Covered r := by
  refine (List.foldlRecOn (motive := fun e : Deferred V => e.Covered r ∧
    e.scripts.keys = d.scripts.keys) hs (fun e a => e.deliver r a) ⟨hr, rfl⟩ ?_).1
  rintro e ⟨her, hkeys⟩ ⟨id, returned⟩ hmem
  exact ⟨covered_deliver returned (hkeys ▸ hw _ hmem) her, (deliver_keys r id returned).trans hkeys⟩

private theorem started_handlers (hs : List (Text × Returned V)) (hq : q ≠ r)
    (h : (d.requests q).active = true → d.Covered q) :
    ((hs.foldl (fun e a => e.deliver r a) d).requests q).active = true →
      (hs.foldl (fun e a => e.deliver r a) d).Covered q := by
  refine List.foldlRecOn (motive := fun e : Deferred V => (e.requests q).active = true → e.Covered q)
    hs (fun e a => e.deliver r a) h ?_
  rintro e he ⟨id, returned⟩ - ha hf slot hslot
  rw [deliver_other hq] at ha hf hslot
  obtain ⟨task, ht, hkey⟩ := he ha hf slot hslot
  exact ⟨task, deliver_tasks returned ht, hkey⟩

private theorem lost_handlers (h : d.Making r) {hs : List (Text × Returned V)} {a : Text × Returned V}
    (hmem : a ∈ hs) (hid : a.1 ∈ d.scripts.keys) (hw : Unwatched a) :
    ∃ slot, (hs.foldl (fun e a => e.deliver r a) d).Lost r slot := by
  obtain ⟨id, returned⟩ := a
  obtain ⟨pre, post, rfl⟩ := List.append_of_mem hmem
  obtain ⟨hpre, hkeys⟩ := h.handlers pre
  have hlost := lost_unwatched hpre.inv (hkeys ▸ hid) hw hpre.idle.2
  rw [List.foldl_append, List.foldl_cons]
  exact ⟨_, List.foldlRecOn (motive := fun e : Deferred V => e.Lost r _) post _ hlost
    fun _ he b _ => lost_deliver b.2 he⟩

theorem HarvestClosed.handled {P : Deferred V → Prop} (hP : HarvestClosed P)
    {hs : List (Text × Returned V)} {ending : Option (DispatchEnd V)}
    (h : P (hs.foldl (fun e a => e.deliver r a) { d with nextRequest := r + 1 })) :
    P (d.handled r hs ending) := by
  unfold Deferred.handled
  cases ending with
  | none => exact h
  | some ending => exact hP.harvest _ _ h

/-- Starting a request: the requests made before are untouched, its own counts as started,
and what it waits for stays. -/
structure Activated (r : RequestId) (d e : Deferred V) : Prop where
  tasks : e.tasks = d.tasks
  others : ∀ q ≠ r, e.requests q = d.requests q
  unfinished : (e.requests r).finished = false → (d.requests r).finished = false
  empty : ∀ slot, (e.requests r).Empty slot → (d.requests r).Empty slot
  awaits : ∀ slot, (d.requests r).Awaits slot →
    (e.requests r).Awaits slot ∧ (e.requests r).active = true

theorem Activated.covered {e : Deferred V} (h : Activated r d e) (hr : d.Covered r)
    (hold : ∀ q ≠ r, (d.requests q).active = true → d.Covered q) :
    ∀ q, (e.requests q).active = true → e.Covered q := by
  intro q ha hf slot hslot
  rw [h.tasks]
  by_cases hq : q = r
  · subst hq
    exact hr (h.unfinished hf) slot (h.empty slot hslot)
  · rw [h.others q hq] at ha hf hslot
    exact hold q hq ha hf slot hslot

theorem activated_ok (r : RequestId) (d : Deferred V) :
    Activated r d (requestDeferred.retainAll r (d.onRequest r (·.activate))) := by
  obtain ⟨htasks, hrequests⟩ := retainAll_eq r (d.onRequest r (·.activate))
  refine ⟨htasks, fun q hq => ?_, fun hf => ?_, fun slot hslot => ?_, fun slot ha => ?_⟩ <;>
    rw [hrequests] at *
  · simp [Deferred.onRequest, hq]
  · simp only [Deferred.onRequest, Function.update_self] at hf
    exact RequestResults.completeIfReady_finished (q := { d.requests r with active := true }) hf
  · simp only [Deferred.onRequest, Function.update_self] at hslot
    exact RequestResults.activate_empty.mp hslot
  · simpa [Deferred.onRequest] using ha.activate

theorem activated_err (r : RequestId) (d : Deferred V) (error : VmError) :
    Activated r d
      (requestDeferred.retainAll r ((d.onRequest r (·.fail error)).onRequest r (·.activate))) := by
  have hok := activated_ok r (d.onRequest r (·.fail error))
  have hself : (d.onRequest r (·.fail error)).requests r = (d.requests r).fail error := by
    simp [Deferred.onRequest]
  have hfail := kept_fail (d.requests r) error
  refine ⟨hok.tasks, fun q hq => (hok.others q hq).trans ?_, fun hf => ?_, fun slot hslot => ?_,
    fun slot ha => ?_⟩
  · simp [Deferred.onRequest, hq]
  · exact hfail.finished (hself ▸ hok.unfinished hf)
  · exact hfail.empty slot (hself ▸ hok.empty slot hslot)
  · exact hok.awaits slot (hself.symm ▸ ha.fail error)

theorem requestDeferred_cases (hs : List (Text × Returned V)) (ending : Option (DispatchEnd V)) :
    (dispatched hs ending = .panicked ∧
      d.requestDeferred hs ending = d.handled d.nextRequest hs ending) ∨
    (dispatched hs ending ≠ .panicked ∧
      Activated d.nextRequest (d.handled d.nextRequest hs ending)
        (d.requestDeferred hs ending)) := by
  rw [requestDeferred_eq]
  cases hout : dispatched hs ending with
  | panicked => exact .inl ⟨rfl, rfl⟩
  | ok _ => exact .inr ⟨nofun, activated_ok _ _⟩
  | err error => exact .inr ⟨nofun, activated_err _ _ error⟩

/-- A request leaves one stuck exactly when it abandons a reply. -/
theorem notStuck_request (h : d.Inv) (hns : d.NotStuck) (hs : List (Text × Returned V))
    (ending : Option (DispatchEnd V)) :
    (d.requestDeferred hs ending).NotStuck ↔ ¬ d.Abandons (.requestDeferred hs ending) := by
  have hold := (notStuck_iff h).mp hns
  have hmaking := making_new h
  constructor
  · rintro hns' ⟨⟨a, hmem, hid, hw⟩, hpanic⟩
    obtain ⟨slot, hlost⟩ := lost_handlers hmaking hmem hid hw
    have hlost : (d.handled d.nextRequest hs ending).Lost d.nextRequest slot :=
      (lost_harvestClosed d.nextRequest slot).handled hlost
    obtain ⟨hpanicked, -⟩ | ⟨-, hactivated⟩ := d.requestDeferred_cases hs ending
    · exact hpanic hpanicked
    · obtain ⟨hawaits, ha⟩ := hactivated.awaits slot hlost.awaits
      obtain ⟨task, ht, id, htarget⟩ := hns'.covered _ slot ha hawaits.unfinished hawaits.empty
      rw [hactivated.tasks] at ht
      exact hlost.untended task ht (TaskTarget.key_eq_inr.mpr ⟨id, htarget⟩)
  · intro hno
    rw [notStuck_iff (h.requestDeferred hs ending)]
    have hothers (q : RequestId) (hq : q ≠ d.nextRequest) :
        ((d.handled d.nextRequest hs ending).requests q).active = true →
          (d.handled d.nextRequest hs ending).Covered q :=
      (started_harvestClosed q).handled
        (started_handlers (d := { d with nextRequest := d.nextRequest + 1 }) hs hq (hold q))
    obtain ⟨-, heq⟩ | ⟨hpanic, hactivated⟩ := d.requestDeferred_cases hs ending
    · rw [heq]
      intro q
      by_cases hq : q = d.nextRequest
      · subst hq
        have hidle := (hmaking.handlers hs).1.idle.1
        exact (started_harvestClosed _).handled fun ha => absurd ha (by simp [hidle])
      · exact hothers q hq
    · have hempty : Covered { d with nextRequest := d.nextRequest + 1 } d.nextRequest := by
        intro _ slot hslot
        simp [h.freshRequests (Nat.le_refl _), RequestResults.new, RequestResults.Empty] at hslot
      have hcovered := covered_handlers (d := { d with nextRequest := d.nextRequest + 1 }) hs
        (fun a hmem hid hw => hno ⟨⟨a, hmem, hid, hw⟩, hpanic⟩) hempty
      exact hactivated.covered ((covered_harvestClosed _).handled hcovered) hothers

theorem cancelGuard_scripts (dropped : List ScriptTask) (r : RequestId) :
    (d.cancelGuard dropped r).scripts = d.scripts := by
  unfold cancelGuard
  split_ifs <;> rfl

theorem cancelTask_scripts (target : TaskTarget) :
    (d.cancelTask target).scripts = d.scripts := by
  cases target <;> rfl

theorem cancelled_scripts (script : DeferredScript) :
    (d.cancelled script).scripts = d.scripts :=
  List.foldlRecOn (motive := fun e : Deferred V => e.scripts = d.scripts) script.requestGuards
    (cancelGuard script.tasks) rfl fun _ he r _ => (cancelGuard_scripts _ r).trans he

theorem dropped_tasks (script : DeferredScript) : (d.dropped script).tasks = d.tasks := by
  have hscripts : (d.dropped script).scripts = d.scripts :=
    List.foldlRecOn (motive := fun e : Deferred V => e.scripts = d.scripts) script.tasks
      (fun d task => d.cancelTask task.target) (cancelled_scripts script)
      fun _ he task _ => (cancelTask_scripts task.target).trans he
  simp only [tasks, hscripts]

theorem kept_dropped (script : DeferredScript) (r : RequestId) :
    Kept (d.requests r) ((d.dropped script).requests r) := by
  have hcancelled : Kept (d.requests r) ((d.cancelled script).requests r) := by
    refine List.foldlRecOn (motive := fun e : Deferred V => Kept (d.requests r) (e.requests r))
      script.requestGuards (cancelGuard script.tasks) (.refl _) fun e he q _ => he.trans ?_
    unfold cancelGuard
    split_ifs
    · exact kept_onRequest kept_cancel
    · exact .refl _
  refine List.foldlRecOn (motive := fun e : Deferred V => Kept (d.requests r) (e.requests r))
    script.tasks (fun d task => d.cancelTask task.target) hcancelled fun e he task _ => he.trans ?_
  cases task.target with
  | call c => exact .refl _
  | reply q slot id =>
    exact kept_onRequest (f := RequestResults.dropTask) fun q => ⟨fun h => h, fun h => h, fun _ h => h⟩

private theorem dropped_finished {script : DeferredScript} (ht : task ∈ script.tasks)
    (htarget : task.target = .reply r slot id)
    (hg : (d.requests r).finished = false → r ∈ script.requestGuards) :
    ((d.dropped script).requests r).finished = true :=
  List.foldlRecOn (motive := fun e : Deferred V => (e.requests r).finished = true) script.tasks
    (fun d task => d.cancelTask task.target) (cancelGuards_finished ht htarget hg)
    fun _ he _ _ => cancelTask_finished he

theorem started_dropped (h : d.Inv) (hs : d.scripts.get? id = some script)
    {scripts : IndexMap Text DeferredScript} (hw : Without script d scripts)
    (hold : (d.requests r).active = true → d.Covered r) :
    ((({ d with scripts := scripts } : Deferred V).dropped script).requests r).active = true →
      (({ d with scripts := scripts } : Deferred V).dropped script).Covered r := by
  intro ha hf slot hslot
  have hkept : Kept (d.requests r) _ := kept_dropped (d := { d with scripts := scripts }) script r
  obtain ⟨task, ht, hkey⟩ :=
    hold (hkept.active ha) (hkept.finished hf) slot (hkept.empty slot hslot)
  obtain ⟨k, htarget⟩ := TaskTarget.key_eq_inr.mp hkey
  obtain ⟨pre, post, htasks, hleft⟩ := hw.tasks
  rw [dropped_tasks, hleft]
  have hnot : task ∉ script.tasks := fun hmem => by
    have hfinished := dropped_finished (d := { d with scripts := scripts }) hmem htarget
      (h.guarded hs hmem htarget)
    simp [hfinished] at hf
  refine ⟨task, ?_, hkey⟩
  rw [htasks] at ht
  simp only [List.mem_append] at ht ⊢
  tauto

theorem started_callDeferred (returned : Returned V) (polls : Polls V)
    (h : (d.requests r).active = true → d.Covered r) :
    ((d.callDeferred id returned polls).requests r).active = true →
      (d.callDeferred id returned polls).Covered r := by
  unfold Deferred.callDeferred
  cases hs : d.scripts.get? id with
  | none => exact h
  | some script =>
    refine (started_harvestClosed r).harvest none polls ?_
    cases returned with
    | threw error => exact h
    | plain decoded => exact h
    | promise p watched =>
      cases watched with
      | error error => exact h
      | ok _ =>
        intro ha hf slot hslot
        obtain ⟨task, ht, hkey⟩ := h ha hf slot hslot
        exact ⟨task, (mem_tasks_spawn (d := d.newCall) hs).mpr (.inl ht), hkey⟩

/-- A step leaves a request stuck exactly when it abandons a reply. -/
theorem notStuck_step (h : d.Inv) (hns : d.NotStuck) (step : DeferredStep V) :
    (step.next d).NotStuck ↔ ¬ d.Abandons step := by
  have hold := (notStuck_iff h).mp hns
  have hnext := notStuck_iff (h.next step)
  cases step with
  | settle polls =>
    exact iff_of_true
      (hnext.mpr fun r => (started_harvestClosed r).harvest none polls (hold r)) (fun h => h)
  | callDeferred id returned polls =>
    exact iff_of_true
      (hnext.mpr fun r => started_callDeferred returned polls (hold r)) (fun h => h)
  | requestDeferred hs ending => exact notStuck_request h hns hs ending
  | replace id polls =>
    refine iff_of_true (hnext.mpr fun r => ?_) (fun h => h)
    cases hs : d.scripts.get? id with
    | none =>
      have htasks : ({ d with scripts := d.scripts.insert id ⟨[], []⟩ } : Deferred V).tasks =
          d.tasks := by
        simp [tasks, IndexMap.values_insert_of_not_mem _ hs]
      intro ha hf slot hslot
      simp only [DeferredStep.next, replace, hs] at ha hf hslot ⊢
      rw [htasks]
      exact hold r ha hf slot hslot
    | some script =>
      simp only [DeferredStep.next, replace, hs, retire_eq]
      exact (started_harvestClosed r).harvest none polls
        (started_dropped h hs (without_insert hs) (hold r))
  | unload id polls =>
    refine iff_of_true (hnext.mpr fun r => ?_) (fun h => h)
    cases hs : d.scripts.get? id with
    | none => simpa only [DeferredStep.next, unload, hs] using hold r
    | some script =>
      simp only [DeferredStep.next, unload, hs, retire_eq]
      exact (started_harvestClosed r).harvest none polls
        (started_dropped h hs (without_erase hs) (hold r))
  | takeCall c => exact iff_of_true (hnext.mpr hold) (fun h => h)
  | takeRequest q =>
    refine iff_of_true (hnext.mpr fun r ha hf slot hslot => ?_) (fun h => h)
    by_cases hq : r = q
    · subst hq
      simp only [DeferredStep.next, Deferred.onRequest, Function.update_self] at ha hf hslot
      exact hold r ha hf slot hslot
    · simp only [DeferredStep.next, Deferred.onRequest, Function.update_of_ne hq] at ha hf hslot
      exact hold r ha hf slot hslot

/-- Along a run no deferred request is stuck exactly when no request abandons a reply. -/
theorem notStuck_run_iff (ls : List (DeferredStep V)) (d : Deferred V) :
    (∀ ms ns u, ls = ms ++ ns → Transition.Run DeferredStep.Step .default ms u →
      Transition.Run DeferredStep.Step u ns d → u.NotStuck) ↔
    ∀ ms l ns u v, ls = ms ++ l :: ns → Transition.Run DeferredStep.Step .default ms u →
      DeferredStep.Step u l v → Transition.Run DeferredStep.Step v ns d → ¬ u.Abandons l :=
  Transition.Run.always_iff ls d inv_preserved inv_default
    ((notStuck_iff inv_default).mpr fun _ => nofun) fun s l t hinv hns hst => by
      obtain rfl : l.next s = t := hst
      exact notStuck_step hinv hns l

/-- A script answers a request with a Promise whose own `catch` throws. -/
def throwingCatch : List (DeferredStep Unit) :=
  let none : Polls Unit := fun _ _ => .pending
  [.replace ['a'] none,
    .requestDeferred [(['a'], .promise 0 (.error (.execution "catch")))]
      (some ⟨.default, .quiet, none⟩)]

theorem throwingCatch_stuck : ∃ d, Transition.Run DeferredStep.Step .default throwingCatch d ∧
    (d.requests 0).active = true ∧ (d.requests 0).finished = false ∧ d.tasks = [] ∧
      ¬ d.NotStuck := by
  refine ⟨_, .cons rfl (.cons rfl (.nil _)), rfl, rfl, rfl, fun h => ?_⟩
  obtain ⟨hfinished, -⟩ := h.finishes 0 (.inl rfl) (by decide)
  cases hfinished

end Deferred

end RustTS.Runner
