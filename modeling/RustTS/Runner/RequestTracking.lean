import RustTS.Runner.RequestSlots
import RustTS.Runner.TaskCounter

/-! How a deferred request fares while the engine polls, delivers other requests and retires scripts:
it waits, or published its replies, or was cancelled. -/
namespace RustTS.Runner
open ModuleLoader

variable {V : Type}

namespace Deferred

variable {d e : Deferred V} {id : Text} {script : DeferredScript} {r : RequestId}

/-- A script keeps the guard of the request. -/
def Guards (d : Deferred V) (r : RequestId) (id : Text) : Prop :=
  ∃ script, d.scripts.get? id = some script ∧ r ∈ script.requestGuards

/-- Some task replies to the request. -/
def Tended (d : Deferred V) (r : RequestId) : Prop := ∃ task ∈ d.tasks, task.target.isReplyTo r = true

/-- A request as its delivery left it: its slots, and how the delivery ended. -/
structure Delivered (V : Type) where
  slots : List (Text × Option (Except VmError V))
  outcome : Outcome Unit

namespace Delivered

def failed (a : Delivered V) : Option VmError :=
  match a.outcome with
  | .err error => some error
  | _ => none

def scripts (a : Delivered V) : List Text := a.slots.map Prod.fst

/-- The replies of the request, and the error of its delivery, after what its tasks gave. -/
def replies (a : Delivered V) (given : List (Given V)) (r : RequestId) :
    List (Option (Except VmError (Text × V))) :=
  repliesOf given r a.slots a.failed

/-- Every reply came, and the delivery was not cut off. -/
def Answered (a : Delivered V) (given : List (Given V)) (r : RequestId) : Prop :=
  a.outcome ≠ .panicked ∧ ∀ reply ∈ a.replies given r, reply.isSome = true

end Delivered

/-- The request still waits; while it is made, as if its delivery had been cut off. Once one of its
scripts was retired (`early`) no task replies to it. -/
structure Waits (making : Option RequestId) (r : RequestId) (a : Delivered V)
    (early withdrawn : Prop) (given : List (Given V)) (d : Deferred V) : Prop where
  unfinished : (d.requests r).finished = false
  replies : (d.requests r).replies = a.replies given r
  active : (d.requests r).active = true ↔ a.outcome ≠ .panicked
  owned : ∀ task ∈ d.tasks, ∀ slot id, task.target = .reply r slot id →
    (a.slots[slot]?).map Prod.fst = some id
  guarded : making = some r ∨ d.Tended r → ∀ id ∈ a.scripts, d.Guards r id
  guards : ∀ id, d.Guards r id → id ∈ a.scripts
  early : early → ¬ d.Tended r
  pending : ¬ withdrawn

/-- The request published its replies. -/
structure Published (r : RequestId) (a : Delivered V) (early : Prop) (given : List (Given V))
    (d : Deferred V) : Prop where
  finished : (d.requests r).finished = true
  answered : a.Answered given r
  untended : ¬ d.Tended r
  handle : (d.requests r).handle = ⟨some (RequestResults.publish (a.replies given r)), false⟩ ∨
    (d.requests r).handle = ⟨none, true⟩
  timely : ¬ early

/-- The request was cancelled. -/
structure Cancelled (r : RequestId) (withdrawn : Prop) (d : Deferred V) : Prop where
  finished : (d.requests r).finished = true
  handle : (d.requests r).handle.result = some (.error .cancelled) ∨
    (d.requests r).handle = ⟨none, true⟩
  withdrawn : withdrawn

/-- The request waits, or published its replies, or was cancelled. -/
structure Tracked (making : Option RequestId) (r : RequestId) (a : Delivered V)
    (early withdrawn : Prop) (given : List (Given V)) (d : Deferred V) : Prop where
  inv : d.Inv
  numbered : r < d.nextRequest
  state : Waits making r a early withdrawn given d ∨ Published r a early given d ∨
    Cancelled r withdrawn d

section
variable {making : Option RequestId} {a : Delivered V} {early withdrawn : Prop}
  {given : List (Given V)} {task : ScriptTask}

/-- Two states that no step of the request lies between. -/
structure Frame (r : RequestId) (d e : Deferred V) : Prop where
  request : e.requests r = d.requests r
  tasks : ∀ task ∈ e.tasks, task.target.isReplyTo r = true → task ∈ d.tasks
  guards : ∀ id, e.Guards r id ↔ d.Guards r id

theorem Frame.refl (r : RequestId) (d : Deferred V) : Frame r d d := ⟨rfl, fun _ h _ => h, fun _ => .rfl⟩

theorem Frame.trans {f : Deferred V} (h : Frame r d e) (h' : Frame r e f) : Frame r d f :=
  ⟨h'.request.trans h.request, fun task ht hr => h.tasks task (h'.tasks task ht hr) hr,
    fun id => (h'.guards id).trans (h.guards id)⟩

theorem Frame.tended (h : Frame r d e) (he : e.Tended r) : d.Tended r := by
  obtain ⟨task, ht, hr⟩ := he
  exact ⟨task, h.tasks task ht hr, hr⟩

theorem Waits.frame (h : Waits making r a early withdrawn given d) (hf : Frame r d e) :
    Waits making r a early withdrawn given e where
  unfinished := hf.request ▸ h.unfinished
  replies := hf.request ▸ h.replies
  active := hf.request ▸ h.active
  owned task ht slot id htarget :=
    h.owned task (hf.tasks task ht (TaskTarget.isReplyTo_iff.mpr ⟨slot, id, htarget⟩)) slot id htarget
  guarded ht id hid := (hf.guards id).mpr (h.guarded (ht.imp_right hf.tended) id hid)
  guards id hid := h.guards id ((hf.guards id).mp hid)
  early he ht := h.early he (hf.tended ht)
  pending := h.pending

theorem Tracked.frame (h : Tracked making r a early withdrawn given d) (hf : Frame r d e)
    (hinv : e.Inv) (hnext : d.nextRequest ≤ e.nextRequest) :
    Tracked making r a early withdrawn given e where
  inv := hinv
  numbered := Nat.lt_of_lt_of_le h.numbered hnext
  state := by
    obtain hw | hp | hc := h.state
    · exact .inl (hw.frame hf)
    · exact .inr (.inl ⟨hf.request ▸ hp.finished, hp.answered, fun ht => hp.untended (hf.tended ht),
        hf.request ▸ hp.handle, hp.timely⟩)
    · exact .inr (.inr ⟨hf.request ▸ hc.finished, hf.request ▸ hc.handle, hc.withdrawn⟩)

@[simp] theorem onRequest_self (f : RequestResults V → RequestResults V) :
    (d.onRequest r f).requests r = f (d.requests r) := by
  simp [Deferred.onRequest]

theorem onRequest_other {q : RequestId} (hq : r ≠ q) (f : RequestResults V → RequestResults V) :
    (d.onRequest q f).requests r = d.requests r := by
  simp [Deferred.onRequest, hq]

/-- A request that waits, once its replies are filled in, waits on or publishes. -/
theorem Waits.completeIfReady {q : RequestResults V} (hinv : e.Inv)
    (h : Waits making r a early withdrawn given (e.onRequest r fun _ => q)) (hearly : ¬ early)
    (hrequest : e.requests r = q.completeIfReady) (hhandle : q.handle = .new) :
    Waits making r a early withdrawn given e ∨ Published r a early given e := by
  have hself : (e.onRequest r fun _ => q).requests r = q := onRequest_self _
  unfold RequestResults.completeIfReady at hrequest
  split_ifs at hrequest with hready
  · refine .inl (h.frame ⟨hrequest.trans hself.symm, fun task ht _ => ht, fun _ => .rfl⟩)
  · simp only [Bool.not_eq_true, Bool.or_eq_false_iff, Bool.not_eq_false_eq_eq_true] at hready
    have hreplies : q.replies = a.replies given r := hself ▸ h.replies
    have hactive : q.active = true := by simpa using hready.1.2
    refine .inr ⟨by rw [hrequest], ⟨(hself ▸ h.active).mp hactive, fun reply hreply => ?_⟩, ?_, .inl ?_,
      hearly⟩
    · have hwaits : q.replies.any Option.isNone = false := hready.2
      rw [hreplies] at hwaits
      have hsome := List.any_eq_false.mp hwaits reply hreply
      cases reply with
      | none => exact absurd rfl hsome
      | some reply => rfl
    · rintro ⟨task, ht, hr⟩
      obtain ⟨slot, id, htarget⟩ := TaskTarget.isReplyTo_iff.mp hr
      have hempty := hinv.waiting task ht
      rw [htarget] at hempty
      have hempty : (e.requests r).replies[slot]? = some none := hempty
      rw [hrequest] at hempty
      simp at hempty
    · rw [hrequest, ← hreplies]
      simp [hhandle, PendingCall.complete, PendingCall.new]

theorem guards_onScript {f : DeferredScript → DeferredScript}
    (hf : ∀ script, (f script).requestGuards = script.requestGuards) (k : Text) :
    (d.onScript id f).Guards r k ↔ d.Guards r k := by
  unfold Guards
  rw [get?_onScript]
  constructor
  · rintro ⟨script, hs, hr⟩
    obtain ⟨script', hs', rfl⟩ := Option.map_eq_some_iff.mp hs
    refine ⟨script', hs', ?_⟩
    split_ifs at hr
    · rwa [hf] at hr
    · exact hr
  · rintro ⟨script, hs, hr⟩
    refine ⟨_, by rw [hs]; rfl, ?_⟩
    split_ifs
    · rwa [hf]
    · exact hr

theorem guards_spawn (task : ScriptTask) (k : Text) : (d.spawn id task).Guards r k ↔ d.Guards r k :=
  guards_onScript (f := fun script => { script with tasks := script.tasks ++ [task] }) (fun _ => rfl) k

theorem guards_finish (target : TaskTarget) (outcome : Except VmError V) (k : Text) :
    (d.finish target outcome).Guards r k ↔ d.Guards r k := by
  cases target <;> rfl

private theorem Tracked.given_other (h : Tracked making r a early withdrawn given d) {g : Given V}
    (hg : ∀ i, g.1.key ≠ .inr (r, i)) : Tracked making r a early withdrawn (given ++ [g]) d := by
  have hreplies : a.replies (given ++ [g]) r = a.replies given r := repliesOf_append_of_ne hg _
  refine ⟨h.inv, h.numbered, ?_⟩
  obtain hw | hp | hc := h.state
  · exact .inl { hw with replies := hw.replies.trans hreplies.symm }
  · refine .inr (.inl ⟨hp.finished, ⟨hp.answered.1, ?_⟩, hp.untended, ?_, hp.timely⟩)
    · rw [hreplies]
      exact hp.answered.2
    · rw [hreplies]
      exact hp.handle
  · exact .inr (.inr hc)

theorem frame_removed {kept rest : List ScriptTask} {n : Nat} (hs : d.scripts.get? id = some script)
    (ht : script.tasks = kept ++ task :: rest) :
    Frame r d { d.onScript id fun script => { script with tasks := kept ++ rest } with
      activeTasks := n } where
  request := rfl
  tasks other hother _ := by
    obtain ⟨pre, post, htasks, hleft⟩ := tasks_remove hs ht
    have hother : other ∈ pre ++ post := hleft ▸ hother
    rw [htasks]
    exact (List.sublist_cons_self task post).append_left pre |>.subset hother
  guards := guards_onScript fun _ => rfl

private theorem frame_finish {target : TaskTarget} (htarget : target.isReplyTo r = false)
    (outcome : Except VmError V) : Frame r d (d.finish target outcome) := by
  cases target with
  | call c => exact ⟨rfl, fun _ h _ => h, fun _ => .rfl⟩
  | reply q slot k =>
    have hq : r ≠ q := fun heq => by simp [TaskTarget.isReplyTo, heq] at htarget
    exact ⟨onRequest_other hq _, fun _ h _ => h, fun _ => .rfl⟩

/-- The reply of a slot's task is recorded. -/
theorem Waits.record {slot : Nat} {k : Text} {outcome : Except VmError V}
    (h : Waits making r a early withdrawn given d) (hearly : ¬ early) (hslots : d.Inv)
    (hempty : (d.requests r).Empty slot) (hid : (a.slots[slot]?).map Prod.fst = some k)
    (hinv : (d.finish (.reply r slot k) outcome).Inv) :
    Waits making r a early withdrawn (given ++ [(.reply r slot k, outcome)])
        (d.finish (.reply r slot k) outcome) ∨
      Published r a early (given ++ [(.reply r slot k, outcome)])
        (d.finish (.reply r slot k) outcome) := by
  have hreplies : a.replies (given ++ [(.reply r slot k, outcome)]) r =
      (a.replies given r).set slot (some (outcome.map fun reply => (k, reply))) := by
    refine repliesOf_append_self ?_ hid
    exact (congrArg (·[slot]?) h.replies).symm.trans hempty
  obtain ⟨hresult, htaken⟩ := (hslots.sound r).unfinished h.unfinished
  refine Waits.completeIfReady (q := { d.requests r with
    replies := (d.requests r).replies.set slot (some (outcome.map fun reply => (k, reply))) })
    hinv ?_ hearly (onRequest_self _) ?_
  · have hself := onRequest_self (d := d.finish (.reply r slot k) outcome) (r := r)
      fun _ => { d.requests r with
        replies := (d.requests r).replies.set slot (some (outcome.map fun reply => (k, reply))) }
    refine ⟨by rw [hself]; exact h.unfinished, ?_, by rw [hself]; exact h.active, h.owned, h.guarded,
      h.guards, h.early, h.pending⟩
    rw [hself, hreplies, ← h.replies]
  · show (d.requests r).handle = ⟨none, false⟩
    rw [← hresult, ← htaken]

theorem isPending_iff : d.isPending making d.tasks r = true ↔
    (making = some r ∨ d.Tended r) ∧ (d.requests r).finished = false := by
  simp [isPending, Tended, List.any_eq_true]

theorem guards_of_retained {k : Text} (h : (d.retainGuards making id).Guards r k) : d.Guards r k := by
  obtain ⟨script, hs, hr⟩ := h
  obtain ⟨script', hs', rfl⟩ := Option.map_eq_some_iff.mp ((get?_onScript _ _).symm.trans hs)
  refine ⟨script', hs', ?_⟩
  split_ifs at hr
  · exact (List.mem_filter.mp hr).1
  · exact hr

private theorem guards_retained {k : Text} (hpending : d.isPending making d.tasks r = true)
    (h : d.Guards r k) : (d.retainGuards making id).Guards r k := by
  obtain ⟨script, hs, hr⟩ := h
  refine ⟨_, (get?_onScript _ k).trans (congrArg _ hs), ?_⟩
  dsimp only
  split_ifs
  · exact List.mem_filter.mpr ⟨hr, hpending⟩
  · exact hr

/-- Polling the tasks of a script takes the request along. -/
theorem tracked_harvest (making : Option RequestId) (r : RequestId) (a : Delivered V)
    (early withdrawn : Prop) : HarvestTracked making (Tracked making r a early withdrawn) where
  finish := by
    intro given d id script kept task rest outcome hs ht h
    have hinv := inv_harvestClosed.finish outcome hs ht h.inv
    have hmem : task ∈ d.tasks := mem_tasks.mpr ⟨id, script, hs, by simp [ht]⟩
    have hframe := frame_removed (r := r) (n := d.activeTasks - 1) hs ht
    cases hreply : task.target.isReplyTo r with
    | false =>
      have hkey (i : Nat) : task.target.key ≠ .inr (r, i) := fun hkey => by
        obtain ⟨k, htarget⟩ := TaskTarget.key_eq_inr.mp hkey
        simp [TaskTarget.isReplyTo_iff.mpr ⟨i, k, htarget⟩] at hreply
      refine (h.given_other hkey).frame (hframe.trans (frame_finish hreply outcome)) hinv ?_
      rw [finish_nextRequest]
      exact Nat.le_refl _
    | true =>
      obtain ⟨slot, k, htarget⟩ := TaskTarget.isReplyTo_iff.mp hreply
      have htended : d.Tended r := ⟨task, hmem, hreply⟩
      rw [htarget] at hinv ⊢
      refine ⟨hinv, by rw [finish_nextRequest]; exact h.numbered, ?_⟩
      obtain hw | hp | hc := h.state
      · have hempty := h.inv.waiting task hmem
        rw [htarget] at hempty
        have hremoved := h.inv.removeTask hs ht (d.activeTasks - 1)
        refine (Waits.record (hw.frame hframe) (fun he => hw.early he htended) hremoved hempty
          (hw.owned task hmem slot k htarget) hinv).imp_right .inl
      · exact absurd htended hp.untended
      · have hrecord : ((d.requests r).record slot
            (outcome.map fun reply => (k, reply))).handle = (d.requests r).handle ∧
            ((d.requests r).record slot (outcome.map fun reply => (k, reply))).finished = true := by
          simp [RequestResults.record, RequestResults.completeIfReady, hc.finished]
        have hself := onRequest_self (r := r)
          (d := { d.onScript id fun script => { script with tasks := kept ++ rest } with
            activeTasks := d.activeTasks - 1 })
          (·.record slot (outcome.map fun reply => (k, reply)))
        refine .inr (.inr ⟨?_, ?_, hc.withdrawn⟩)
        · exact (congrArg (·.finished) hself).trans hrecord.2
        · have hhandle := (congrArg (·.handle) hself).trans hrecord.1
          exact hhandle ▸ hc.handle
  retain := by
    intro given d id h
    refine ⟨h.inv.retainGuards making id, h.numbered, ?_⟩
    have htasks := d.retainGuards_tasks making id
    have htended : (d.retainGuards making id).Tended r ↔ d.Tended r := by
      unfold Tended
      rw [htasks]
    obtain hw | hp | hc := h.state
    · refine .inl ⟨hw.unfinished, hw.replies, hw.active, htasks.symm ▸ hw.owned, fun ht k hk => ?_,
        fun k hk => hw.guards k (guards_of_retained hk), fun he => htended.not.mpr (hw.early he),
        hw.pending⟩
      have ht := ht.imp_right htended.mp
      exact guards_retained (isPending_iff.mpr ⟨ht, hw.unfinished⟩) (hw.guarded ht k hk)
    · exact .inr (.inl ⟨hp.finished, hp.answered, htended.not.mpr hp.untended, hp.handle, hp.timely⟩)
    · exact .inr (.inr ⟨hc.finished, hc.handle, hc.withdrawn⟩)

private theorem slots_append (hs hs' : List (Text × Returned V)) :
    d.slots (hs ++ hs') = d.slots hs ++ d.slots hs' := List.filterMap_append

private theorem slots_congr (h : e.scripts.keys = d.scripts.keys) (hs : List (Text × Returned V)) :
    e.slots hs = d.slots hs := by
  have hloaded (id : Text) : (e.scripts.get? id).isSome = (d.scripts.get? id).isSome := by
    rw [Bool.eq_iff_iff, ← not_iff_not]
    simp [IndexMap.get?_eq_none, h]
  unfold slots
  simp only [hloaded]

theorem repliesOf_nil_snoc (slots : List (Text × Option (Except VmError V))) (id : Text)
    (slot : Option (Except VmError V)) :
    repliesOf [] r (slots ++ [(id, slot)]) none =
      repliesOf [] r slots none ++ [slot.map fun outcome => outcome.map fun reply => (id, reply)] := by
  simp [repliesOf, replyAt, givenFor, List.mapIdx_append]

theorem guards_observe {k : Text} (hs : d.scripts.get? id = some script) :
    (d.observe r id).Guards r k ↔ d.Guards r k ∨ k = id := by
  have hget : (d.observe r id).scripts.get? k = _ := get?_onScript _ k
  unfold Guards
  rw [hget]
  by_cases hk : k = id
  · subst hk
    simp [hs]
  · simp [hk]

/-- Observing a reply makes its slot. -/
theorem Waits.observe {slots : List (Text × Option (Except VmError V))}
    (h : Waits (some r) r ⟨slots, .panicked⟩ early withdrawn [] d)
    (hs : d.scripts.get? id = some script) :
    Waits (some r) r ⟨slots ++ [(id, none)], .panicked⟩ early withdrawn [] (d.observe r id) := by
  have hrequest : (d.observe r id).requests r = (d.requests r).reserve := onRequest_self _
  have htasks : (d.observe r id).tasks = d.tasks := observe_tasks r id
  have htended : (d.observe r id).Tended r ↔ d.Tended r := by
    unfold Tended
    rw [htasks]
  refine ⟨by rw [hrequest]; exact h.unfinished, ?_, by rw [hrequest]; exact h.active, ?_, ?_, ?_,
    fun he => htended.not.mpr (h.early he), h.pending⟩
  · rw [hrequest]
    have hold : (d.requests r).replies = repliesOf [] r slots none := h.replies
    show (d.requests r).replies ++ [none] = repliesOf [] r (slots ++ [(id, none)]) none
    rw [repliesOf_nil_snoc, hold]
    rfl
  · intro task ht slot k htarget
    rw [htasks] at ht
    have howned : (slots[slot]?).map Prod.fst = some k := h.owned task ht slot k htarget
    obtain ⟨x, hx, -⟩ := Option.map_eq_some_iff.mp howned
    show ((slots ++ [(id, none)])[slot]?).map Prod.fst = some k
    rwa [List.getElem?_append_left (List.getElem?_eq_some_iff.mp hx).1]
  · intro _ k hk
    refine (guards_observe hs).mpr ?_
    rw [Delivered.scripts, List.map_append, List.mem_append] at hk
    exact hk.imp (h.guarded (.inl rfl) k) (fun hk => by simpa using hk)
  · intro k hk
    rw [Delivered.scripts, List.map_append, List.mem_append]
    exact ((guards_observe hs).mp hk).imp (h.guards k) (fun hk => by simp [hk])

private theorem waits_length {slots : List (Text × Option (Except VmError V))}
    (h : Waits making r ⟨slots, .panicked⟩ early withdrawn given d) :
    (d.requests r).replies.length = slots.length := by
  have hreplies : (d.requests r).replies = repliesOf given r slots none := h.replies
  simp [hreplies, repliesOf]

/-- A handler that returned makes its slot, filled at once when it gave no Promise. -/
theorem Waits.deliver {slots : List (Text × Option (Except VmError V))} (returned : Returned V)
    (h : Waits (some r) r ⟨slots, .panicked⟩ False withdrawn [] d) :
    Waits (some r) r ⟨slots ++ d.slots [(id, returned)], .panicked⟩ False withdrawn []
      (d.deliver r (id, returned)) := by
  obtain ⟨heq, hcase⟩ | ⟨script, hs, hcase⟩ := d.deliver_cases r id returned
  · have hslots : d.slots [(id, returned)] = [] := by
      obtain hnone | ⟨error, rfl⟩ := hcase
      · simp [Deferred.slots, hnone]
      · simp [Deferred.slots, Returned.slot]
    rw [heq, hslots, List.append_nil]
    exact h
  · have hobserve := h.observe hs
    obtain ⟨p, error, rfl, heq⟩ | ⟨decoded, rfl, heq⟩ | ⟨p, watched, rfl, heq⟩ := hcase <;> rw [heq]
    · have hslots : d.slots [(id, .promise p (.error error))] = [(id, none)] := by
        simp [Deferred.slots, hs, Returned.slot]
      rw [hslots]
      exact hobserve
    · have hslots : d.slots [(id, .plain decoded)] = [(id, some decoded)] := by
        simp [Deferred.slots, hs, Returned.slot]
      have hinactive : ((d.observe r id).requests r).active = false := by
        simpa using mt hobserve.active.mp (by simp)
      have hrequest : ((d.observe r id).finish (.reply r (d.requests r).replies.length id)
          decoded).requests r = { (d.observe r id).requests r with
            replies := ((d.observe r id).requests r).replies.set (d.requests r).replies.length
              (some (decoded.map fun reply => (id, reply))) } := by
        refine (onRequest_self _).trans ?_
        unfold RequestResults.record RequestResults.completeIfReady
        simp [hinactive]
      rw [hslots]
      refine ⟨by rw [hrequest]; exact hobserve.unfinished, ?_, by rw [hrequest]; exact hobserve.active,
        fun task ht slot k htarget => ?_, fun ht k hk => ?_, fun k hk => ?_, fun he => he.elim, h.pending⟩
      · rw [hrequest]
        have hold : ((d.observe r id).requests r).replies =
            repliesOf [] r (slots ++ [(id, none)]) none := hobserve.replies
        have hlength : (d.requests r).replies.length = (repliesOf [] r slots none).length :=
          congrArg List.length h.replies
        show ((d.observe r id).requests r).replies.set (d.requests r).replies.length _ =
          repliesOf [] r (slots ++ [(id, some decoded)]) none
        rw [hold, hlength, repliesOf_nil_snoc, repliesOf_nil_snoc, List.set_append_right _ _ (Nat.le_refl _)]
        simp
      · have howned : ((slots ++ [(id, none)])[slot]?).map Prod.fst = some k :=
          hobserve.owned task ht slot k htarget
        show ((slots ++ [(id, some decoded)])[slot]?).map Prod.fst = some k
        rwa [← List.getElem?_map, List.map_append] at howned ⊢
      · have hguarded := hobserve.guarded ht k (by simpa [Delivered.scripts] using hk)
        exact hguarded
      · simpa [Delivered.scripts] using hobserve.guards k hk
    · have hslots : d.slots [(id, .promise p (.ok watched))] = [(id, none)] := by
        simp [Deferred.slots, hs, Returned.slot]
      rw [hslots]
      refine ⟨hobserve.unfinished, hobserve.replies, hobserve.active, fun task ht slot k htarget => ?_,
        fun _ k hk => (guards_spawn _ k).mpr (hobserve.guarded (.inl rfl) k hk),
        fun k hk => hobserve.guards k ((guards_spawn _ k).mp hk), fun he => he.elim, h.pending⟩
      obtain ht | rfl := (mem_tasks_spawn (get?_observe hs)).mp ht
      · exact hobserve.owned task ht slot k htarget
      · obtain ⟨-, rfl, rfl⟩ := TaskTarget.reply.inj htarget
        rw [waits_length h]
        simp

theorem Waits.deliverAll (hs : List (Text × Returned V))
    {slots : List (Text × Option (Except VmError V))} (hkeys : e.scripts.keys = d.scripts.keys)
    (h : Waits (some r) r ⟨slots, .panicked⟩ False withdrawn [] e) :
    Waits (some r) r ⟨slots ++ d.slots hs, .panicked⟩ False withdrawn []
      (hs.foldl (fun e h => e.deliver r h) e) := by
  induction hs generalizing e slots with
  | nil => simpa [Deferred.slots] using h
  | cons handled hs ih =>
    obtain ⟨id, returned⟩ := handled
    have hdeliver : Waits (some r) r ⟨slots ++ e.slots [(id, returned)], .panicked⟩ False withdrawn []
        (e.deliver r (id, returned)) := h.deliver returned
    rw [slots_congr hkeys] at hdeliver
    have hrest := ih ((deliver_keys r id returned).trans hkeys) hdeliver
    rwa [List.append_assoc, ← slots_append] at hrest

/-- The scripts guard only requests that were made. -/
def GuardsMade (d : Deferred V) : Prop := ∀ q id, d.Guards q id → q < d.nextRequest

/-- What the tasks polled at the end of a request's delivery give. -/
def foundWhileMade (d : Deferred V) (handled : List (Text × Returned V)) :
    Option (DispatchEnd V) → List (Given V)
  | none => []
  | some ending => (d.delivered handled).found ending.polls

/-- When its handlers have run and were polled, the request waits for the end of its delivery. -/
theorem tracked_handled (hinv : d.Inv) (hmade : d.GuardsMade) (hs : List (Text × Returned V))
    (ending : Option (DispatchEnd V)) :
    Tracked (some d.nextRequest) d.nextRequest ⟨d.slots hs, .panicked⟩ False False
      (d.foundWhileMade hs ending) (d.handled d.nextRequest hs ending) := by
  have hfresh := hinv.freshRequests (Nat.le_refl d.nextRequest)
  have hunguarded (id : Text) : ¬ d.Guards d.nextRequest id := fun h =>
    Nat.lt_irrefl _ (hmade _ id h)
  have huntended : ¬ d.Tended d.nextRequest := by
    rintro ⟨task, ht, hreply⟩
    obtain ⟨slot, id, htarget⟩ := TaskTarget.isReplyTo_iff.mp hreply
    have hn := hinv.numbered task ht
    rw [htarget] at hn
    exact Nat.lt_irrefl _ hn
  have hnew : Waits (some d.nextRequest) d.nextRequest ⟨[], .panicked⟩ False False []
      { d with nextRequest := d.nextRequest + 1 } := by
    refine ⟨?_, ?_, ?_, fun task ht slot id htarget => ?_, fun _ id hid => ?_,
      fun id hid => absurd hid (hunguarded id), fun he => he.elim, fun h => h⟩
    · simp [hfresh, RequestResults.new]
    · simp [hfresh, RequestResults.new, Delivered.replies, Delivered.failed, repliesOf]
    · simp [hfresh, RequestResults.new]
    · exact absurd ⟨task, ht, TaskTarget.isReplyTo_iff.mpr ⟨slot, id, htarget⟩⟩ huntended
    · simp [Delivered.scripts] at hid
  have hmaking := ((making_new hinv).handlers hs).1
  have hdelivered := Waits.deliverAll (d := d) hs (by rfl) hnew
  rw [List.nil_append] at hdelivered
  unfold Deferred.handled foundWhileMade
  cases ending with
  | none => exact ⟨hmaking.inv, hmaking.numbered, .inl hdelivered⟩
  | some ending =>
    have htracked : Tracked (some d.nextRequest) d.nextRequest ⟨d.slots hs, .panicked⟩ False False []
        (hs.foldl (fun e h => e.deliver d.nextRequest h)
          { d with nextRequest := d.nextRequest + 1 }) :=
      ⟨hmaking.inv, hmaking.numbered, .inl hdelivered⟩
    have hharvest := (tracked_harvest _ _ _ _ _).harvest ending.polls htracked
    rwa [List.nil_append] at hharvest

theorem Waits.activated {a : Delivered V}
    (h : Waits (some r) r ⟨a.slots, .panicked⟩ False False given d) (ha : a.outcome ≠ .panicked)
    (hd : d.Inv) (he : e.Inv) (hscripts : e.scripts = d.scripts)
    (hrequest : e.requests r = RequestResults.completeIfReady { d.requests r with
      replies := (d.requests r).replies ++ a.failed.toList.map fun error => some (.error error)
      active := true }) :
    Waits (some r) r a False False given e ∨ Published r a False given e := by
  obtain ⟨hresult, htaken⟩ := (hd.sound r).unfinished h.unfinished
  refine Waits.completeIfReady he ?_ (fun h => h) hrequest ?_
  · have hself := onRequest_self (d := e) (r := r) fun _ => { d.requests r with
      replies := (d.requests r).replies ++ a.failed.toList.map fun error => some (.error error)
      active := true }
    have htasks : e.tasks = d.tasks := by simp only [tasks, hscripts]
    have hguards (id : Text) : e.Guards r id ↔ d.Guards r id := by
      unfold Guards
      rw [hscripts]
    refine ⟨by rw [hself]; exact h.unfinished, ?_, by rw [hself]; simpa using ha,
      fun task ht => h.owned task (htasks ▸ ht), fun _ id hid => (hguards id).mpr (h.guarded (.inl rfl) id hid),
      fun id hid => h.guards id ((hguards id).mp hid), fun he => he.elim, fun h => h⟩
    rw [hself]
    have hold : (d.requests r).replies = repliesOf given r a.slots none := h.replies
    show (d.requests r).replies ++ _ = repliesOf given r a.slots a.failed
    rw [hold]
    simp [repliesOf]
  · show (d.requests r).handle = ⟨none, false⟩
    rw [← hresult, ← htaken]

theorem Tracked.made (h : Tracked making r a early withdrawn given d) :
    Tracked none r a early withdrawn given d :=
  ⟨h.inv, h.numbered, h.state.imp_left fun hw =>
    { hw with guarded := fun ht => hw.guarded (.inr (ht.resolve_left (by rintro ⟨⟩))) }⟩

theorem HarvestTracked.retainAll {P : List (Given V) → Deferred V → Prop}
    (hP : HarvestTracked (some r) P) (h : P given d) : P given (requestDeferred.retainAll r d) :=
  List.foldlRecOn _ _ h fun _ hd id _ => hP.retain id hd

/-- A request as `request_deferred` leaves it. -/
theorem tracked_request (hinv : d.Inv) (hmade : d.GuardsMade) (hs : List (Text × Returned V))
    (ending : Option (DispatchEnd V)) :
    Tracked none d.nextRequest ⟨d.slots hs, dispatched hs ending⟩ False False
      (d.foundWhileMade hs ending) (d.requestDeferred hs ending) := by
  have hhandled := tracked_handled hinv hmade hs ending
  have hwaits : Waits (some d.nextRequest) d.nextRequest ⟨d.slots hs, .panicked⟩ False False
      (d.foundWhileMade hs ending) (d.handled d.nextRequest hs ending) := by
    obtain hw | hp | hc := hhandled.state
    · exact hw
    · exact absurd rfl hp.answered.1
    · exact hc.withdrawn.elim
  have hinactive : ((d.handled d.nextRequest hs ending).requests d.nextRequest).active = false := by
    simpa using mt hwaits.active.mp (by simp)
  rw [requestDeferred_eq]
  cases hout : dispatched hs ending with
  | panicked => exact hhandled.made
  | ok _ =>
    have hactivated := hhandled.inv.activate hhandled.numbered
    refine Tracked.made ((tracked_harvest _ _ _ _ _).retainAll ⟨hactivated, hhandled.numbered, ?_⟩)
    refine (Waits.activated (a := ⟨d.slots hs, .ok ()⟩) hwaits (by simp) hhandled.inv hactivated rfl ?_)
      |>.imp_right .inl
    refine (onRequest_self _).trans ?_
    simp [RequestResults.activate, Delivered.failed]
  | err error =>
    have hfailed := hhandled.inv.fail hhandled.numbered error
    have hactivated := hfailed.activate hhandled.numbered
    refine Tracked.made ((tracked_harvest _ _ _ _ _).retainAll ⟨hactivated, hhandled.numbered, ?_⟩)
    refine (Waits.activated (a := ⟨d.slots hs, .err error⟩) hwaits (by simp) hhandled.inv hactivated
      rfl ?_).imp_right .inl
    refine (onRequest_self _).trans ?_
    rw [onRequest_self]
    have hfail : ((d.handled d.nextRequest hs ending).requests d.nextRequest).fail error =
        { (d.handled d.nextRequest hs ending).requests d.nextRequest with
          replies := ((d.handled d.nextRequest hs ending).requests d.nextRequest).replies ++
            [some (.error error)] } := by
      unfold RequestResults.fail RequestResults.completeIfReady
      simp [hinactive]
    rw [hfail]
    simp [RequestResults.activate, Delivered.failed]

theorem isPending_false {tasks : List ScriptTask} (h : (d.requests r).finished = true) :
    d.isPending making tasks r = false := by
  simp [isPending, h]

theorem cancelGuard_request (dropped : List ScriptTask) (q : RequestId) :
    (d.cancelGuard dropped q).requests r =
      if r = q ∧ d.isPending none (d.tasks ++ dropped) r = true then (d.requests r).cancel
      else d.requests r := by
  unfold cancelGuard
  by_cases hq : r = q
  · subst hq
    by_cases hpending : d.isPending none (d.tasks ++ dropped) r = true
    · rw [if_pos hpending, if_pos ⟨rfl, hpending⟩, onRequest_self]
    · rw [if_neg hpending, if_neg fun h => hpending h.2]
  · have hother : ¬ (r = q ∧ d.isPending none (d.tasks ++ dropped) r = true) := fun h => hq h.1
    rw [if_neg hother]
    split_ifs
    · exact onRequest_other hq _
    · rfl

theorem cancelGuards_request {dropped : List ScriptTask} (guards : List RequestId) :
    ((guards.foldl (cancelGuard dropped) d).requests r) =
      if r ∈ guards ∧ d.isPending none (d.tasks ++ dropped) r = true then (d.requests r).cancel
      else d.requests r := by
  induction guards generalizing d with
  | nil => simp
  | cons q guards ih =>
    have htasks : (d.cancelGuard dropped q).tasks = d.tasks := by
      simp only [tasks, cancelGuard_scripts]
    rw [List.foldl_cons, ih, htasks, cancelGuard_request]
    by_cases hself : r = q ∧ d.isPending none (d.tasks ++ dropped) r = true
    · have hdone : (d.cancelGuard dropped q).isPending none (d.tasks ++ dropped) r = false := by
        refine isPending_false ?_
        rw [cancelGuard_request, if_pos hself]
        exact RequestResults.cancel_finished _
      rw [if_neg (by simp [hdone]), if_pos hself, if_pos ⟨List.mem_cons.mpr (.inl hself.1), hself.2⟩]
    · have hpending : (d.cancelGuard dropped q).isPending none (d.tasks ++ dropped) r =
          d.isPending none (d.tasks ++ dropped) r := by
        unfold isPending
        rw [cancelGuard_request, if_neg hself]
      rw [hpending, if_neg hself]
      refine if_congr ?_ rfl rfl
      rw [List.mem_cons]
      tauto

theorem Cancelled.cancelTask (h : Cancelled r withdrawn d) (target : TaskTarget) :
    Cancelled r withdrawn (d.cancelTask target) := by
  refine ⟨cancelTask_finished h.finished, ?_, h.withdrawn⟩
  cases target with
  | call c => exact h.handle
  | reply q slot k =>
    by_cases hq : r = q
    · subst hq
      have hself : (d.cancelTask (.reply r slot k)).requests r = (d.requests r).dropTask := onRequest_self _
      rw [hself]
      obtain hresult | hhandle := h.handle
      · exact .inl (by simp [RequestResults.dropTask, PendingCall.complete, hresult])
      · exact .inl (by simp [RequestResults.dropTask, PendingCall.complete, hhandle])
    · have hother : (d.cancelTask (.reply q slot k)).requests r = d.requests r := onRequest_other hq _
      rw [hother]
      exact h.handle

private theorem dropTasks_request {tasks : List ScriptTask} (h : ∀ task ∈ tasks, task.target.isReplyTo r = false) :
    ((tasks.foldl (fun d task => d.cancelTask task.target) d).requests r) = d.requests r := by
  refine List.foldlRecOn (motive := fun e : Deferred V => e.requests r = d.requests r) tasks _ rfl
    fun e he task ht => ?_
  have hreply := h task ht
  rw [← he]
  cases htarget : task.target with
  | call c => rfl
  | reply q slot k =>
    have hq : r ≠ q := fun heq => by simp [htarget, TaskTarget.isReplyTo, heq] at hreply
    exact onRequest_other hq _

theorem dropped_scripts (script : DeferredScript) : (d.dropped script).scripts = d.scripts :=
  List.foldlRecOn (motive := fun e : Deferred V => e.scripts = d.scripts) script.tasks
    (fun d task => d.cancelTask task.target) (cancelled_scripts script)
    fun _ he task _ => (cancelTask_scripts task.target).trans he

theorem dropped_nextRequest (script : DeferredScript) :
    (d.dropped script).nextRequest = d.nextRequest := by
  have hcancelled : (d.cancelled script).nextRequest = d.nextRequest := by
    refine List.foldlRecOn (motive := fun e : Deferred V => e.nextRequest = d.nextRequest)
      script.requestGuards (cancelGuard script.tasks) rfl fun e he q _ => ?_
    rw [← he]
    unfold cancelGuard
    split_ifs <;> rfl
  refine List.foldlRecOn (motive := fun e : Deferred V => e.nextRequest = d.nextRequest)
    script.tasks (fun d task => d.cancelTask task.target) hcancelled fun e he task _ => ?_
  rw [← he]
  cases task.target <;> rfl

/-- The scripts after `id` was retired: the others, and a new version without guards, if any. -/
structure Retired (id : Text) (d : Deferred V) (scripts : IndexMap Text DeferredScript) : Prop where
  others : ∀ k ≠ id, scripts.get? k = d.scripts.get? k
  fresh : ∀ script, scripts.get? id = some script → script.requestGuards = []

theorem retired_erase (id : Text) (d : Deferred V) : Retired id d (d.scripts.erase id) where
  others k hk := by
    refine Option.ext fun script => ?_
    rw [IndexMap.get?_eq_some, IndexMap.get?_eq_some, IndexMap.mem_erase]
    exact and_iff_right hk
  fresh script hs := by
    rw [IndexMap.get?_eq_some, IndexMap.mem_erase] at hs
    exact absurd rfl hs.1

theorem retired_insert (id : Text) (d : Deferred V) : Retired id d (d.scripts.insert id ⟨[], []⟩) where
  others k hk := IndexMap.get?_insert_of_ne _ _ hk
  fresh script hs := by
    rw [IndexMap.get?_insert_self] at hs
    exact Option.some.inj hs ▸ rfl

/-- What retiring script `id` does to the request before the other tasks are polled. -/
structure Drops (r : RequestId) (id : Text) (script : DeferredScript) (d e : Deferred V) : Prop where
  own : ∀ task ∈ script.tasks, task ∈ d.tasks
  tasks : ∀ task ∈ e.tasks, task ∈ d.tasks
  guards : ∀ k ≠ id, e.Guards r k ↔ d.Guards r k
  unguarded : ¬ e.Guards r id
  kept : (∀ task ∈ script.tasks, task.target.isReplyTo r = false) →
    ¬ (r ∈ script.requestGuards ∧ d.isPending none d.tasks r = true) → e.requests r = d.requests r
  cancelled : ∀ {withdrawn : Prop}, (Cancelled r withdrawn d ∨ withdrawn ∧
    (d.requests r).finished = false ∧ (d.requests r).handle.result = none ∧
      r ∈ script.requestGuards ∧ d.isPending none d.tasks r = true) → Cancelled r withdrawn e

theorem drops_dropped {scripts : IndexMap Text DeferredScript} (hw : Without script d scripts)
    (hretired : Retired id d scripts) :
    Drops r id script d (({ d with scripts := scripts } : Deferred V).dropped script) := by
  obtain ⟨pre, post, htasks, hleft⟩ := hw.tasks
  have hpending : ({ d with scripts := scripts } : Deferred V).isPending none
      (({ d with scripts := scripts } : Deferred V).tasks ++ script.tasks) r =
        d.isPending none d.tasks r := by
    have hany : ((pre ++ post) ++ script.tasks).any (·.target.isReplyTo r) =
        d.tasks.any (·.target.isReplyTo r) := by
      rw [htasks, List.any_append, List.any_append, List.any_append, List.any_append, Bool.or_assoc,
        Bool.or_assoc, Bool.or_comm (post.any _)]
    unfold isPending
    rw [hleft, hany]
  have hcancelled : ((({ d with scripts := scripts } : Deferred V).cancelled script).requests r) =
      if r ∈ script.requestGuards ∧ d.isPending none d.tasks r = true then (d.requests r).cancel
      else d.requests r := by
    rw [← hpending]
    exact cancelGuards_request script.requestGuards
  have hfold {withdrawn : Prop}
      (h : Cancelled r withdrawn (({ d with scripts := scripts } : Deferred V).cancelled script)) :
      Cancelled r withdrawn (({ d with scripts := scripts } : Deferred V).dropped script) :=
    List.foldlRecOn (motive := fun e : Deferred V => Cancelled r withdrawn e) script.tasks
      (fun d task => d.cancelTask task.target) h fun e he task _ => he.cancelTask task.target
  refine ⟨fun task ht => by simp [htasks, ht], fun task ht => ?_, fun k hk => ?_, ?_,
    fun hnone hkept => (dropTasks_request hnone).trans (hcancelled.trans (if_neg hkept)), fun h => hfold ?_⟩
  · rw [dropped_tasks, hleft] at ht
    rw [htasks]
    simp only [List.mem_append] at ht ⊢
    tauto
  · unfold Guards
    rw [dropped_scripts]
    show (∃ sc, scripts.get? k = some sc ∧ r ∈ sc.requestGuards) ↔ _
    rw [hretired.others k hk]
  · rintro ⟨sc, hsc, hr⟩
    rw [dropped_scripts] at hsc
    simp [hretired.fresh sc hsc] at hr
  · obtain hc | ⟨hwithdrawn, hunfinished, hresult, hguard⟩ := h
    · have hsame := hcancelled.trans (if_neg fun hk => by simp [isPending_false hc.finished] at hk)
      exact ⟨hsame ▸ hc.finished, hsame ▸ hc.handle, hc.withdrawn⟩
    · have hcancel := hcancelled.trans (if_pos hguard)
      refine ⟨?_, .inl ?_, hwithdrawn⟩
      · rw [hcancel]
        exact RequestResults.cancel_finished _
      · rw [hcancel]
        simp [RequestResults.cancel, hunfinished, PendingCall.complete, hresult]

/-- A request that waits is cancelled when one of its own scripts is retired while it is pending, and
waits on when another is, or when no task replies to it. -/
theorem Waits.dropped (h : Waits none r a early withdrawn given d) (hinv : d.Inv)
    (hs : d.scripts.get? id = some script) (hdrops : Drops r id script d e) :
    Waits none r a (early ∨ id ∈ a.scripts ∧ (d.requests r).finished = false)
        (withdrawn ∨ id ∈ a.scripts ∧ d.isPending none d.tasks r = true) given e ∨
      Cancelled r (withdrawn ∨ id ∈ a.scripts ∧ d.isPending none d.tasks r = true) e := by
  by_cases hpending : d.isPending none d.tasks r = true
  · have htended : d.Tended r := (isPending_iff.mp hpending).1.resolve_left (by rintro ⟨⟩)
    by_cases hid : id ∈ a.scripts
    · obtain ⟨sc, hsc, hr⟩ := h.guarded (.inr htended) id hid
      obtain rfl : sc = script := Option.some.inj (hsc.symm.trans hs)
      exact .inr (hdrops.cancelled (.inr ⟨.inr ⟨hid, hpending⟩, h.unfinished,
        ((hinv.sound r).unfinished h.unfinished).1, hr, hpending⟩))
    · have hguard : r ∉ script.requestGuards := fun hr => hid (h.guards id ⟨script, hs, hr⟩)
      have hnone : ∀ task ∈ script.tasks, task.target.isReplyTo r = false := fun task ht => by
        by_contra hreply
        obtain ⟨slot, k, htarget⟩ := TaskTarget.isReplyTo_iff.mp (Bool.not_eq_false _ ▸ hreply)
        exact hguard (hinv.guarded hs ht htarget h.unfinished)
      have hframe : Frame r d e := by
        refine ⟨hdrops.kept hnone fun hk => hguard hk.1, fun task ht _ => hdrops.tasks task ht,
          fun k => ?_⟩
        by_cases hk : k = id
        · subst hk
          exact iff_of_false hdrops.unguarded fun hg => hid (h.guards k hg)
        · exact hdrops.guards k hk
      have hsame := h.frame hframe
      exact .inl { hsame with
        early := fun he => hsame.early (he.resolve_right fun he => hid he.1)
        pending := fun hw => h.pending (hw.resolve_right fun hw => hid hw.1) }
  · have huntended : ¬ d.Tended r := fun ht => hpending (isPending_iff.mpr ⟨.inr ht, h.unfinished⟩)
    have hnone : ∀ task ∈ script.tasks, task.target.isReplyTo r = false := fun task ht =>
      Bool.eq_false_iff.mpr fun hreply => huntended ⟨task, hdrops.own task ht, hreply⟩
    have hrequest := hdrops.kept hnone fun hk => hpending hk.2
    have hleave : ¬ e.Tended r := by
      rintro ⟨task, ht, hreply⟩
      exact huntended ⟨task, hdrops.tasks task ht, hreply⟩
    refine .inl ⟨hrequest ▸ h.unfinished, hrequest ▸ h.replies, hrequest ▸ h.active,
      fun task ht => h.owned task (hdrops.tasks task ht),
      fun ht => absurd (ht.resolve_left (by rintro ⟨⟩)) hleave, fun k hk => ?_, fun _ => hleave, ?_⟩
    · by_cases hkid : k = id
      · subst hkid
        exact absurd hk hdrops.unguarded
      · exact h.guards k ((hdrops.guards k hkid).mp hk)
    · rintro (hw | ⟨-, hp⟩)
      · exact h.pending hw
      · exact hpending hp

theorem Published.dropped (h : Published r a early given d) (hdrops : Drops r id script d e) :
    Published r a (early ∨ id ∈ a.scripts ∧ (d.requests r).finished = false) given e := by
  have hnone : ∀ task ∈ script.tasks, task.target.isReplyTo r = false := fun task ht =>
    Bool.eq_false_iff.mpr fun hreply => h.untended ⟨task, hdrops.own task ht, hreply⟩
  have hrequest := hdrops.kept hnone fun hk => by simp [isPending_false h.finished] at hk
  refine ⟨hrequest ▸ h.finished, h.answered, ?_, hrequest ▸ h.handle, ?_⟩
  · rintro ⟨task, ht, hreply⟩
    exact h.untended ⟨task, hdrops.tasks task ht, hreply⟩
  · rintro (he | ⟨-, hf⟩)
    · exact h.timely he
    · simp [h.finished] at hf

/-- Retiring a script takes the request along. -/
theorem Tracked.dropped (h : Tracked none r a early withdrawn given d)
    (hs : d.scripts.get? id = some script) {scripts : IndexMap Text DeferredScript}
    (hw : Without script d scripts) (hretired : Retired id d scripts) :
    Tracked none r a (early ∨ id ∈ a.scripts ∧ (d.requests r).finished = false)
      (withdrawn ∨ id ∈ a.scripts ∧ d.isPending none d.tasks r = true) given
      (({ d with scripts := scripts } : Deferred V).dropped script) := by
  have hdrops := drops_dropped (r := r) hw hretired
  refine ⟨h.inv.dropped_without hs hw, by rw [dropped_nextRequest]; exact h.numbered, ?_⟩
  obtain hwaits | hp | hc := h.state
  · exact (hwaits.dropped h.inv hs hdrops).imp_right .inr
  · exact .inr (.inl (hp.dropped hdrops))
  · have hcancelled : Cancelled r
        (withdrawn ∨ id ∈ a.scripts ∧ d.isPending none d.tasks r = true) d :=
      { hc with withdrawn := .inl hc.withdrawn }
    exact .inr (.inr (hdrops.cancelled (.inl hcancelled)))

theorem GuardsMade.mono (h : d.GuardsMade) (hguards : ∀ q k, e.Guards q k → d.Guards q k)
    (hnext : d.nextRequest ≤ e.nextRequest) : e.GuardsMade :=
  fun q k hk => Nat.lt_of_lt_of_le (h q k (hguards q k hk)) hnext

theorem guardsMade_harvestClosed : HarvestClosed (GuardsMade (V := V)) where
  finish := by
    intro d id script kept task rest outcome hs ht h
    refine h.mono (fun q k hk => ?_) (by rw [finish_nextRequest]; exact Nat.le_refl _)
    exact ((frame_removed (n := d.activeTasks - 1) hs ht).guards k).mp ((guards_finish _ _ k).mp hk)
  retain making id h := h.mono (fun _ _ => guards_of_retained) (Nat.le_refl _)

theorem GuardsMade.deliver (h : d.GuardsMade) (hr : r < d.nextRequest) (returned : Returned V) :
    (d.deliver r (id, returned)).GuardsMade := by
  intro q k hk
  rw [deliver_nextRequest]
  obtain ⟨heq, -⟩ | ⟨script, hs, hcase⟩ := d.deliver_cases r id returned
  · rw [heq] at hk
    exact h q k hk
  · have hobserve : (d.observe r id).Guards q k → q < d.nextRequest := by
      intro hk
      by_cases hq : q = r
      · exact hq ▸ hr
      · refine h q k ?_
        obtain ⟨sc, hsc, hmem⟩ := hk
        obtain ⟨sc', hsc', rfl⟩ := Option.map_eq_some_iff.mp ((get?_onScript _ k).symm.trans hsc)
        refine ⟨sc', hsc', ?_⟩
        split_ifs at hmem
        · simpa [hq] using hmem
        · exact hmem
    obtain ⟨p, error, -, heq⟩ | ⟨decoded, -, heq⟩ | ⟨p, watched, -, heq⟩ := hcase <;> rw [heq] at hk
    · exact hobserve hk
    · exact hobserve hk
    · exact hobserve ((guards_spawn _ k).mp hk)

theorem GuardsMade.handled (h : d.GuardsMade) (hs : List (Text × Returned V))
    (ending : Option (DispatchEnd V)) : (d.handled d.nextRequest hs ending).GuardsMade := by
  have hstart : GuardsMade { d with nextRequest := d.nextRequest + 1 } :=
    h.mono (fun _ _ hk => hk) (Nat.le_succ _)
  have hfold := (List.foldlRecOn
    (motive := fun e : Deferred V => e.GuardsMade ∧ d.nextRequest < e.nextRequest) hs
    (fun e h => e.deliver d.nextRequest h) ⟨hstart, Nat.lt_succ_self _⟩ fun e he x _ =>
      ⟨he.1.deliver he.2 x.2, deliver_nextRequest (d := e) _ x.1 x.2 ▸ he.2⟩).1
  exact guardsMade_harvestClosed.handled hfold

theorem GuardsMade.dropped (h : d.GuardsMade) {scripts : IndexMap Text DeferredScript}
    (hretired : Retired id d scripts) (script : DeferredScript) :
    (({ d with scripts := scripts } : Deferred V).dropped script).GuardsMade := by
  refine h.mono (fun q k hk => ?_) (by rw [dropped_nextRequest])
  obtain ⟨sc, hsc, hmem⟩ := hk
  rw [dropped_scripts] at hsc
  by_cases hid : k = id
  · subst hid
    simp [hretired.fresh sc hsc] at hmem
  · exact ⟨sc, (hretired.others k hid) ▸ hsc, hmem⟩

theorem GuardsMade.next (h : d.GuardsMade) (step : DeferredStep V) : (step.next d).GuardsMade := by
  cases step with
  | settle polls => exact guardsMade_harvestClosed.harvest none polls h
  | callDeferred id returned polls =>
    show (d.callDeferred id returned polls).GuardsMade
    unfold Deferred.callDeferred
    cases d.scripts.get? id with
    | none => exact h
    | some script =>
      refine guardsMade_harvestClosed.harvest none polls ?_
      cases returned with
      | threw error => exact h
      | plain decoded => exact h
      | promise p watched =>
        cases watched with
        | error error => exact h
        | ok _ => exact h.mono (fun q k hk => (guards_spawn (d := d.newCall) _ k).mp hk) (Nat.le_refl _)
  | requestDeferred hs ending =>
    have hhandled := h.handled hs ending
    show (d.requestDeferred hs ending).GuardsMade
    rw [requestDeferred_eq]
    cases dispatched hs ending with
    | panicked => exact hhandled
    | ok _ => exact guardsMade_harvestClosed.retainAll _ hhandled
    | err error => exact guardsMade_harvestClosed.retainAll _ hhandled
  | replace id polls =>
    show (d.replace id polls).GuardsMade
    unfold Deferred.replace
    cases hs : d.scripts.get? id with
    | none =>
      refine h.mono (fun q k hk => ?_) (Nat.le_refl _)
      obtain ⟨sc, hsc, hmem⟩ := hk
      by_cases hid : k = id
      · subst hid
        simp [(retired_insert k d).fresh sc hsc] at hmem
      · exact ⟨sc, ((retired_insert id d).others k hid) ▸ hsc, hmem⟩
    | some script =>
      exact guardsMade_harvestClosed.harvest none polls (h.dropped (retired_insert id d) script)
  | unload id polls =>
    show (d.unload id polls).GuardsMade
    unfold Deferred.unload
    cases hs : d.scripts.get? id with
    | none => exact h
    | some script =>
      exact guardsMade_harvestClosed.harvest none polls (h.dropped (retired_erase id d) script)
  | takeCall c => exact h
  | takeRequest q => exact h

theorem frame_called (hs : d.scripts.get? id = some script) (returned : Returned V) (r : RequestId) :
    Frame r d (d.called id returned) ∧ (d.called id returned).nextRequest = d.nextRequest := by
  cases returned with
  | threw error => exact ⟨.refl r d, rfl⟩
  | plain decoded => exact ⟨⟨rfl, fun _ h _ => h, fun _ => .rfl⟩, rfl⟩
  | promise p watched =>
    cases watched with
    | error error => exact ⟨.refl r d, rfl⟩
    | ok _ =>
      refine ⟨⟨rfl, fun task ht hreply => ?_, guards_spawn (d := d.newCall) _⟩, rfl⟩
      obtain ht | rfl := (mem_tasks_spawn (d := d.newCall) hs).mp ht
      · exact ht
      · simp [TaskTarget.isReplyTo] at hreply

theorem Inv.called (h : d.Inv) (hs : d.scripts.get? id = some script) (returned : Returned V) :
    (d.called id returned).Inv := by
  have hlt : d.newCall.Numbered (.call d.nextCall) := Nat.lt_succ_self d.nextCall
  have hw : d.newCall.Waiting (.call d.nextCall) := by
    have hfresh := h.freshCalls (Nat.le_refl d.nextCall)
    simp [Waiting, Deferred.newCall, hfresh, PendingCall.new]
  have hno : ∀ other ∈ d.newCall.tasks, other.target.key ≠ .inl d.nextCall := by
    intro other hother heq
    have hn := h.numbered other hother
    rw [TaskTarget.key_eq_inl.mp heq] at hn
    exact Nat.lt_irrefl _ hn
  cases returned with
  | threw error => exact h
  | plain decoded => exact h.newCall.finish hlt hw hno decoded
  | promise p watched =>
    cases watched with
    | error error => exact h
    | ok _ => exact h.newCall.spawn hs hlt hw hno (by rintro _ _ _ ⟨⟩)

theorem frame_deliver {q : RequestId} (hq : r ≠ q) (returned : Returned V) :
    Frame r d (d.deliver q (id, returned)) := by
  refine ⟨deliver_other hq returned, fun task ht hreply => ?_, fun k => ?_⟩
  · obtain ⟨heq, -⟩ | ⟨script, hs, hcase⟩ := d.deliver_cases q id returned
    · rwa [heq] at ht
    · obtain ⟨p, error, -, heq⟩ | ⟨decoded, -, heq⟩ | ⟨p, watched, -, heq⟩ := hcase <;> rw [heq] at ht
      · rwa [observe_tasks] at ht
      · exact observe_tasks q id ▸ ht
      · obtain ht | rfl := (mem_tasks_spawn (get?_observe hs)).mp ht
        · rwa [observe_tasks] at ht
        · simp [TaskTarget.isReplyTo, Ne.symm hq] at hreply
  · obtain ⟨heq, -⟩ | ⟨script, hs, hcase⟩ := d.deliver_cases q id returned
    · rw [heq]
    · have hobserve : (d.observe q id).Guards r k ↔ d.Guards r k := by
        have hget : (d.observe q id).scripts.get? k = _ := get?_onScript _ k
        unfold Guards
        rw [hget]
        by_cases hk : k = id
        · subst hk
          simp [hs, hq]
        · simp [hk]
      obtain ⟨p, error, -, heq⟩ | ⟨decoded, -, heq⟩ | ⟨p, watched, -, heq⟩ := hcase <;> rw [heq]
      · exact hobserve
      · exact (guards_finish _ _ k).trans hobserve
      · exact (guards_spawn _ k).trans hobserve

/-- Another request takes this one along. -/
theorem Tracked.request (h : Tracked none r a early withdrawn given d) (hs : List (Text × Returned V))
    (ending : Option (DispatchEnd V)) :
    Tracked none r a early withdrawn (given ++ d.foundWhileMade hs ending)
      (d.requestDeferred hs ending) := by
  have hq : r ≠ d.nextRequest := Nat.ne_of_lt h.numbered
  have hmaking := ((making_new h.inv).handlers hs).1
  have hframe : Frame r d (hs.foldl (fun e h => e.deliver d.nextRequest h)
      { d with nextRequest := d.nextRequest + 1 }) :=
    List.foldlRecOn (motive := fun e : Deferred V => Frame r d e) hs _
      (⟨rfl, fun _ h _ => h, fun _ => .rfl⟩ : Frame r d { d with nextRequest := d.nextRequest + 1 })
      fun e he x _ => he.trans (frame_deliver hq x.2)
  have hdelivered := h.frame hframe hmaking.inv (Nat.le_of_lt hmaking.numbered)
  have hmade : Tracked (some d.nextRequest) r a early withdrawn
      (given ++ d.foundWhileMade hs ending) (d.handled d.nextRequest hs ending) := by
    have hmaking : Tracked (some d.nextRequest) r a early withdrawn given
        (hs.foldl (fun e h => e.deliver d.nextRequest h)
          { d with nextRequest := d.nextRequest + 1 }) :=
      ⟨hdelivered.inv, hdelivered.numbered, hdelivered.state.imp_left fun hw => { hw with
        guarded := fun ht => hw.guarded (.inr (ht.resolve_left fun heq => hq (Option.some.inj heq).symm)) }⟩
    unfold Deferred.handled foundWhileMade
    cases ending with
    | none => rwa [List.append_nil]
    | some ending => exact (tracked_harvest _ _ _ _ _).harvest ending.polls hmaking
  have hhandled := h.inv.handled hs ending
  have hother {e : Deferred V} {f : RequestResults V → RequestResults V}
      (he : Tracked (some d.nextRequest) r a early withdrawn (given ++ d.foundWhileMade hs ending) e)
      (hinv : (e.onRequest d.nextRequest f).Inv) :
      Tracked (some d.nextRequest) r a early withdrawn (given ++ d.foundWhileMade hs ending)
        (e.onRequest d.nextRequest f) :=
    he.frame ⟨onRequest_other hq f, fun _ h _ => h, fun _ => .rfl⟩ hinv (Nat.le_refl _)
  rw [requestDeferred_eq]
  cases dispatched hs ending with
  | panicked => exact hmade.made
  | ok _ =>
    have hactivated := hother hmade (hhandled.1.activate hhandled.2)
    exact Tracked.made ((tracked_harvest _ _ _ _ _).retainAll hactivated)
  | err error =>
    have hfailed := hhandled.1.fail hhandled.2 error
    have hactivated := hother (hother hmade hfailed) (hfailed.activate hhandled.2)
    exact Tracked.made ((tracked_harvest _ _ _ _ _).retainAll hactivated)

/-- Taking the result of a request leaves it as it is, but for the result. -/
theorem Tracked.takeRequest (h : Tracked none r a early withdrawn given d) (q : RequestId) :
    Tracked none r a early withdrawn given
      (d.onRequest q fun q => { q with handle := q.handle.take.2 }) := by
  have hinv := h.inv.takeRequest q
  by_cases hq : r = q
  · subst hq
    have hself := onRequest_self (d := d) (r := r) fun q => { q with handle := q.handle.take.2 }
    obtain hw | hp | hc := h.state
    · obtain ⟨hresult, htaken⟩ := (h.inv.sound r).unfinished hw.unfinished
      refine h.frame ⟨hself.trans ?_, fun _ h _ => h, fun _ => .rfl⟩ hinv (Nat.le_refl _)
      have hhandle : (d.requests r).handle = ⟨none, false⟩ := by rw [← hresult, ← htaken]
      have htake : (d.requests r).handle.take.2 = (d.requests r).handle := by
        rw [hhandle]
        rfl
      rw [htake]
    · refine ⟨hinv, h.numbered, .inr (.inl ⟨by rw [hself]; exact hp.finished, hp.answered, hp.untended,
        .inr ?_, hp.timely⟩)⟩
      rw [hself]
      obtain hhandle | hhandle := hp.handle <;> simp [PendingCall.take, hhandle]
    · refine ⟨hinv, h.numbered, .inr (.inr ⟨by rw [hself]; exact hc.finished, .inr ?_, hc.withdrawn⟩)⟩
      rw [hself]
      obtain hhandle | hhandle := hc.handle <;> simp [PendingCall.take, hhandle]
  · exact h.frame ⟨onRequest_other hq _, fun _ h _ => h, fun _ => .rfl⟩ hinv (Nat.le_refl _)

/-- A script that is not loaded takes part only in requests that no task replies to. -/
theorem Tracked.unloaded (h : Tracked none r a early withdrawn given d) (hs : d.scripts.get? id = none) :
    Tracked none r a (early ∨ id ∈ a.scripts ∧ (d.requests r).finished = false)
      (withdrawn ∨ id ∈ a.scripts ∧ d.isPending none d.tasks r = true) given d := by
  refine ⟨h.inv, h.numbered, ?_⟩
  obtain hw | hp | hc := h.state
  · have hid (ht : d.Tended r) : id ∉ a.scripts := fun hid => by
      obtain ⟨script, hs', -⟩ := hw.guarded (.inr ht) id hid
      simp [hs] at hs'
    refine .inl { hw with early := fun he ht => ?_, pending := fun hw' => ?_ }
    · exact he.elim (fun he => hw.early he ht) fun he => hid ht he.1
    · obtain hw' | ⟨hmem, hpending⟩ := hw'
      · exact hw.pending hw'
      · exact hid ((isPending_iff.mp hpending).1.resolve_left (by rintro ⟨⟩)) hmem
  · refine .inr (.inl { hp with timely := fun he => ?_ })
    obtain he | ⟨-, hf⟩ := he
    · exact hp.timely he
    · simp [hp.finished] at hf
  · exact .inr (.inr { hc with withdrawn := .inl hc.withdrawn })

end

end Deferred

end RustTS.Runner
