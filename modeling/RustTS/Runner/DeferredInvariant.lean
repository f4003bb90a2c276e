import RustTS.Runner.Deferred

/-! What every state of an engine's deferred work keeps: a task of an unfinished request has
its script's guard, and what a task fills is empty and no other task's. -/
namespace RustTS.Runner
open ModuleLoader

variable {V : Type}

namespace TaskTarget

/-- What the task fills: the handle of a call, or a slot of a request. -/
def key : TaskTarget → CallHandle ⊕ RequestId × Nat
  | .call h => .inl h
  | .reply r slot _ => .inr (r, slot)

@[simp] theorem key_eq_inl {target : TaskTarget} {h : CallHandle} :
    target.key = .inl h ↔ target = .call h := by
  cases target <;> simp [key]

@[simp] theorem key_eq_inr {target : TaskTarget} {r : RequestId} {slot : Nat} :
    target.key = .inr (r, slot) ↔ ∃ id, target = .reply r slot id := by
  cases target <;> simp [key]

theorem isReplyTo_iff {target : TaskTarget} {r : RequestId} :
    target.isReplyTo r = true ↔ ∃ slot id, target = .reply r slot id := by
  cases target <;> simp [isReplyTo]

end TaskTarget

namespace Deferred

variable {d : Deferred V} {id : Text} {script : DeferredScript}

theorem mem_tasks {task : ScriptTask} :
    task ∈ d.tasks ↔ ∃ id script, d.scripts.get? id = some script ∧ task ∈ script.tasks := by
  simp only [tasks, List.mem_flatMap, IndexMap.mem_values, IndexMap.get?_eq_some]
  constructor
  · rintro ⟨script, ⟨id, hs⟩, ht⟩
    exact ⟨id, script, hs, ht⟩
  · rintro ⟨id, script, hs, ht⟩
    exact ⟨script, ⟨id, hs⟩, ht⟩

@[simp] theorem get?_onScript (f : DeferredScript → DeferredScript) (k : Text) :
    (d.onScript id f).scripts.get? k =
      (d.scripts.get? k).map fun script => if k = id then f script else script :=
  IndexMap.get?_mapValues _ _ _

theorem tasks_split (h : d.scripts.get? id = some script) :
    ∃ pre post, d.tasks = pre ++ script.tasks ++ post ∧
      ({ d with scripts := d.scripts.erase id } : Deferred V).tasks = pre ++ post ∧
      ∀ f, (d.onScript id f).tasks = pre ++ (f script).tasks ++ post := by
  obtain ⟨pre, post, hvalues, herase, hmap⟩ := IndexMap.values_split h
  refine ⟨pre.flatMap (·.tasks), post.flatMap (·.tasks), ?_, ?_, fun f => ?_⟩
  · simp [tasks, hvalues]
  · simp [tasks, herase]
  · have := hmap f
    simp only [tasks, onScript, this]
    simp

/-- A change of a script that keeps its tasks. -/
theorem tasks_onScript_of_eq {f : DeferredScript → DeferredScript}
    (hf : ∀ script, (f script).tasks = script.tasks) : (d.onScript id f).tasks = d.tasks := by
  cases h : d.scripts.get? id with
  | none =>
    have hsame : d.onScript id f = d := by
      have hid : ∀ e ∈ d.scripts.entries, e.1 ≠ id := fun e he heq =>
        IndexMap.get?_eq_none.mp h (IndexMap.mem_keys.mpr ⟨e.2, heq ▸ he⟩)
      have hscripts : (d.scripts.mapValues fun k script => if k = id then f script else script) =
          d.scripts := by
        ext1
        refine (List.map_congr_left fun e he => ?_).trans (List.map_id _)
        simp [hid e he]
      simp only [onScript, hscripts]
    rw [hsame]
  | some script =>
    obtain ⟨pre, post, htasks, -, hon⟩ := tasks_split h
    rw [hon, hf, htasks]

/-- What a task refers to was made before. -/
def Numbered (d : Deferred V) : TaskTarget → Prop
  | .call h => h < d.nextCall
  | .reply r _ _ => r < d.nextRequest

/-- What a task fills is still empty. -/
def Waiting (d : Deferred V) : TaskTarget → Prop
  | .call h => (d.calls h).result = none ∧ (d.calls h).taken = false
  | .reply r slot _ => (d.requests r).Empty slot

structure Inv (d : Deferred V) : Prop where
  guarded : ∀ {id script task r slot k}, d.scripts.get? id = some script → task ∈ script.tasks →
    task.target = .reply r slot k → (d.requests r).finished = false → r ∈ script.requestGuards
  sound : ∀ r, (d.requests r).Sound
  numbered : ∀ task ∈ d.tasks, d.Numbered task.target
  freshCalls : ∀ {h}, d.nextCall ≤ h → d.calls h = .new
  freshRequests : ∀ {r}, d.nextRequest ≤ r → d.requests r = .new
  once : (d.tasks.map (·.target.key)).Nodup
  waiting : ∀ task ∈ d.tasks, d.Waiting task.target
  yieldsOnce : ∀ h, (d.calls h).YieldsOnce

theorem inv_default : (Deferred.default : Deferred V).Inv where
  guarded h := by cases h
  sound _ := RequestResults.sound_new
  numbered _ h := by cases h
  freshCalls _ := rfl
  freshRequests _ := rfl
  once := .nil
  waiting _ h := by cases h
  yieldsOnce _ := nofun

/-- A property of the deferred work that polling the tasks keeps: it holds after a task that
settled is removed and completes its handle, and after guards are dropped that hold nothing
back. -/
structure HarvestClosed (P : Deferred V → Prop) : Prop where
  finish : ∀ {d : Deferred V} {id script kept task rest} outcome,
    d.scripts.get? id = some script → script.tasks = kept ++ task :: rest → P d →
    P (Deferred.finish task.target outcome
      { d.onScript id fun script => { script with tasks := kept ++ rest } with
        activeTasks := d.activeTasks - 1 })
  retain : ∀ {d : Deferred V} making id, P d → P (d.retainGuards making id)

namespace HarvestClosed

variable {P Q : Deferred V → Prop}

theorem and (hP : HarvestClosed P) (hQ : HarvestClosed Q) :
    HarvestClosed fun d => P d ∧ Q d where
  finish outcome hs ht h := ⟨hP.finish outcome hs ht h.1, hQ.finish outcome hs ht h.2⟩
  retain making id h := ⟨hP.retain making id h.1, hQ.retain making id h.2⟩

theorem pollFrom (hP : HarvestClosed P) (polled : Nat → Polled V) {rest : List ScriptTask} :
    ∀ {i kept d script}, d.scripts.get? id = some script → script.tasks = kept ++ rest → P d →
      P (d.pollFrom id polled i kept rest) := by
  induction rest with
  | nil => exact fun _ _ h => h
  | cons task rest ih =>
    intro i kept d script hs ht h
    unfold Deferred.pollFrom
    split
    · exact ih hs (by simpa using ht) h
    · next outcome _ =>
      have hfinish := hP.finish outcome hs ht h
      have hget : (Deferred.finish task.target outcome
          { d.onScript id fun script => { script with tasks := kept ++ rest } with
            activeTasks := d.activeTasks - 1 }).scripts.get? id =
          some { script with tasks := kept ++ rest } := by
        cases task.target <;> simp [Deferred.finish, onCall, onRequest, onScript,
          IndexMap.get?_mapValues, hs]
      exact ih hget rfl hfinish

theorem pollScript (hP : HarvestClosed P) (making : Option RequestId) (polls : Polls V)
    (id : Text) (h : P d) : P (d.pollScript making polls id) := by
  unfold Deferred.pollScript
  cases hs : d.scripts.get? id with
  | none => exact h
  | some script => exact hP.retain making id (hP.pollFrom (polls id) hs rfl h)

theorem harvest (hP : HarvestClosed P) (making : Option RequestId) (polls : Polls V) (h : P d) :
    P (d.harvest making polls) := by
  unfold Deferred.harvest
  split
  · exact h
  · exact List.foldlRecOn _ _ h fun _ hd id _ => hP.pollScript making polls id hd

theorem retainAll (hP : HarvestClosed P) (r : RequestId) (h : P d) :
    P (requestDeferred.retainAll r d) :=
  List.foldlRecOn _ _ h fun _ hd id _ => hP.retain (some r) id hd

end HarvestClosed

variable {task : ScriptTask} {r : RequestId}

theorem tasks_remove {kept rest : List ScriptTask} (hs : d.scripts.get? id = some script)
    (ht : script.tasks = kept ++ task :: rest) :
    ∃ pre post, d.tasks = pre ++ task :: post ∧
      (d.onScript id fun script => { script with tasks := kept ++ rest }).tasks = pre ++ post := by
  obtain ⟨pre, post, htasks, -, hon⟩ := tasks_split hs
  refine ⟨pre ++ kept, rest ++ post, ?_, ?_⟩
  · rw [htasks, ht]
    simp
  · rw [hon]
    simp

private theorem key_ne_of_split {pre post : List ScriptTask}
    (hn : ((pre ++ task :: post).map (·.target.key)).Nodup) :
    ∀ other ∈ pre ++ post, other.target.key ≠ task.target.key := by
  intro other hother heq
  have hperm : (pre ++ task :: post).Perm (task :: (pre ++ post)) := List.perm_middle
  have hn' := (hperm.map (·.target.key)).nodup_iff.mp hn
  rw [List.map_cons] at hn'
  exact (List.nodup_cons.mp hn').1 (List.mem_map.mpr ⟨other, hother, heq⟩)

/-- A change of a request that keeps it sound, does not revive it and leaves the slots of its
tasks empty. -/
theorem Inv.onRequest (h : d.Inv) (hr : r < d.nextRequest)
    {f : RequestResults V → RequestResults V} (hs : (f (d.requests r)).Sound)
    (hf : (f (d.requests r)).finished = false → (d.requests r).finished = false)
    (he : ∀ task ∈ d.tasks, ∀ slot id, task.target = .reply r slot id →
      (f (d.requests r)).Empty slot) :
    (d.onRequest r f).Inv where
  guarded {id script task q slot k} hid ht htarget hfin := by
    refine h.guarded hid ht htarget ?_
    by_cases hq : q = r
    · subst hq
      exact hf (by simpa [Deferred.onRequest] using hfin)
    · simpa [Deferred.onRequest, hq] using hfin
  sound q := by
    by_cases hq : q = r
    · subst hq
      simpa [Deferred.onRequest] using hs
    · simpa [Deferred.onRequest, hq] using h.sound q
  numbered := h.numbered
  freshCalls := h.freshCalls
  freshRequests {q} hq := by
    have hne : q ≠ r := fun heq => absurd (heq ▸ hr) (Nat.not_lt.mpr hq)
    simpa [Deferred.onRequest, hne] using h.freshRequests hq
  once := h.once
  waiting task ht := by
    have hw := h.waiting task ht
    cases htarget : task.target with
    | call c =>
      rw [htarget] at hw
      exact hw
    | reply q slot id =>
      by_cases hq : q = r
      · subst hq
        simpa [Waiting, Deferred.onRequest] using he task ht slot id htarget
      · simpa [htarget, Waiting, Deferred.onRequest, hq] using hw
  yieldsOnce := h.yieldsOnce

/-- A change of the handle of a call that no task completes. -/
theorem Inv.onCall (h : d.Inv) {c : CallHandle} (hc : c < d.nextCall)
    (hno : ∀ task ∈ d.tasks, task.target ≠ .call c) {f : PendingCall V → PendingCall V}
    (hf : (f (d.calls c)).YieldsOnce) : (d.onCall c f).Inv where
  guarded := h.guarded
  sound := h.sound
  numbered := h.numbered
  freshCalls {k} hk := by
    have hne : k ≠ c := fun heq => absurd (heq ▸ hc) (Nat.not_lt.mpr hk)
    simpa [Deferred.onCall, hne] using h.freshCalls hk
  freshRequests := h.freshRequests
  once := h.once
  waiting task ht := by
    have hw := h.waiting task ht
    cases htarget : task.target with
    | call k =>
      have hne : k ≠ c := fun heq => hno task ht (heq ▸ htarget)
      simpa [htarget, Waiting, Deferred.onCall, hne] using hw
    | reply q slot id =>
      rw [htarget] at hw
      exact hw
  yieldsOnce k := by
    by_cases hk : k = c
    · subst hk
      simpa [Deferred.onCall] using hf
    · simpa [Deferred.onCall, hk] using h.yieldsOnce k

theorem Inv.ofSublist (h : d.Inv) {scripts : IndexMap Text DeferredScript} (n : Nat)
    (hsub : ({ d with scripts := scripts } : Deferred V).tasks.Sublist d.tasks)
    (hg : ∀ {id script task r slot k}, scripts.get? id = some script → task ∈ script.tasks →
      task.target = .reply r slot k → (d.requests r).finished = false →
        r ∈ script.requestGuards) :
    ({ d with scripts := scripts, activeTasks := n } : Deferred V).Inv where
  guarded := hg
  sound := h.sound
  numbered task ht := h.numbered task (hsub.subset ht)
  freshCalls := h.freshCalls
  freshRequests := h.freshRequests
  once := h.once.sublist (hsub.map _)
  waiting task ht := h.waiting task (hsub.subset ht)
  yieldsOnce := h.yieldsOnce

theorem Inv.removeTask (h : d.Inv) {kept rest : List ScriptTask}
    (hs : d.scripts.get? id = some script) (ht : script.tasks = kept ++ task :: rest) (n : Nat) :
    ({ d.onScript id fun script => { script with tasks := kept ++ rest } with
      activeTasks := n } : Deferred V).Inv := by
  obtain ⟨pre, post, htasks, hleft⟩ := tasks_remove hs ht
  refine h.ofSublist n ?_ ?_
  · exact hleft ▸ htasks ▸ List.Sublist.append_left (List.sublist_cons_self _ _) _
  · intro k sc other r slot i hsc hother htarget hf
    obtain ⟨sc', hk, rfl⟩ := Option.map_eq_some_iff.mp ((get?_onScript _ _).symm.trans hsc)
    by_cases hid : k = id
    · subst hid
      obtain rfl : sc' = script := Option.some.inj (hk.symm.trans hs)
      rw [if_pos rfl] at hother ⊢
      have hmem : other ∈ sc'.tasks := by
        rw [ht]
        simp only [List.mem_append, List.mem_cons] at hother ⊢
        tauto
      exact (h.guarded hs hmem htarget hf : r ∈ sc'.requestGuards)
    · rw [if_neg hid] at hother ⊢
      exact h.guarded hk hother htarget hf

/-- Guards of requests that are finished, or that no task of the script replies to, can go. -/
theorem Inv.retainGuards (h : d.Inv) (making : Option RequestId) (id : Text) :
    (d.retainGuards making id).Inv := by
  have htasks : (d.retainGuards making id).tasks = d.tasks := tasks_onScript_of_eq fun _ => rfl
  have hsub : (d.retainGuards making id).tasks.Sublist d.tasks := by rw [htasks]
  refine h.ofSublist d.activeTasks hsub ?_
  · intro k sc task r slot i hsc ht htarget hf
    obtain ⟨sc', hk, rfl⟩ := Option.map_eq_some_iff.mp ((get?_onScript _ _).symm.trans hsc)
    by_cases hid : k = id
    · rw [if_pos hid] at ht ⊢
      have hmem : task ∈ d.tasks := mem_tasks.mpr ⟨k, sc', hk, ht⟩
      refine List.mem_filter.mpr ⟨h.guarded hk ht htarget hf, ?_⟩
      have hany : d.tasks.any (·.target.isReplyTo r) = true :=
        List.any_eq_true.mpr ⟨task, hmem, TaskTarget.isReplyTo_iff.mpr ⟨slot, i, htarget⟩⟩
      simp [isPending, hany, hf]
    · rw [if_neg hid] at ht ⊢
      exact h.guarded hk ht htarget hf

/-- A task that is no longer among the others fills what was empty. -/
theorem Inv.finish (h : d.Inv) {target : TaskTarget} (hn : d.Numbered target)
    (hw : d.Waiting target) (hno : ∀ task ∈ d.tasks, task.target.key ≠ target.key)
    (outcome : Except VmError V) : (d.finish target outcome).Inv := by
  cases target with
  | call c =>
    refine h.onCall hn (fun task ht heq => hno task ht (by rw [heq])) ?_
    exact PendingCall.yieldsOnce_complete.mpr hw.2
  | reply q slot k =>
    refine h.onRequest hn ((h.sound q).record slot _)
      (RequestResults.completeIfReady_finished (q := { d.requests q with replies := _ })) ?_
    intro task ht slot' id htarget
    refine RequestResults.record_empty.mpr ⟨?_, fun heq => ?_⟩
    · simpa [htarget, Waiting] using h.waiting task ht
    · exact hno task ht (by rw [htarget, heq]; rfl)

theorem inv_harvestClosed : HarvestClosed (Inv (V := V)) where
  finish := by
    intro d id script kept task rest outcome hs ht h
    have hrest := h.removeTask hs ht (d.activeTasks - 1)
    obtain ⟨pre, post, htasks, hleft⟩ := tasks_remove hs ht
    have hmem : task ∈ d.tasks := htasks ▸ List.mem_append_right _ List.mem_cons_self
    have hno := key_ne_of_split (htasks ▸ h.once)
    exact hrest.finish (h.numbered task hmem) (h.waiting task hmem)
      (fun other hother => hno other (hleft ▸ hother)) outcome
  retain making id h := h.retainGuards making id

theorem Inv.newCall (h : d.Inv) : d.newCall.Inv where
  guarded := h.guarded
  sound := h.sound
  numbered task ht := by
    have hn := h.numbered task ht
    cases htarget : task.target with
    | call c =>
      rw [htarget] at hn
      exact Nat.lt_succ_of_lt hn
    | reply q slot id =>
      rw [htarget] at hn
      exact hn
  freshCalls hk := h.freshCalls (Nat.le_of_succ_le hk)
  freshRequests := h.freshRequests
  once := h.once
  waiting := h.waiting
  yieldsOnce := h.yieldsOnce

theorem Inv.newRequest (h : d.Inv) : ({ d with nextRequest := d.nextRequest + 1 } : Deferred V).Inv where
  guarded := h.guarded
  sound := h.sound
  numbered task ht := by
    have hn := h.numbered task ht
    cases htarget : task.target with
    | call c =>
      rw [htarget] at hn
      exact hn
    | reply q slot id =>
      rw [htarget] at hn
      exact Nat.lt_succ_of_lt hn
  freshCalls := h.freshCalls
  freshRequests hk := h.freshRequests (Nat.le_of_succ_le hk)
  once := h.once
  waiting := h.waiting
  yieldsOnce := h.yieldsOnce

theorem tasks_spawn (hs : d.scripts.get? id = some script) (task : ScriptTask) :
    ∃ pre post, d.tasks = pre ++ post ∧ (d.spawn id task).tasks = pre ++ task :: post := by
  obtain ⟨pre, post, htasks, -, hon⟩ := tasks_split hs
  refine ⟨pre ++ script.tasks, post, htasks, ?_⟩
  exact (hon fun script => { script with tasks := script.tasks ++ [task] }).trans (by simp)

theorem mem_tasks_spawn (hs : d.scripts.get? id = some script) {other : ScriptTask} :
    other ∈ (d.spawn id task).tasks ↔ other ∈ d.tasks ∨ other = task := by
  obtain ⟨pre, post, htasks, hspawn⟩ := tasks_spawn hs task
  rw [htasks, hspawn]
  simp only [List.mem_append, List.mem_cons]
  tauto

/-- A new task fills what is empty and no other task's, under the guard of its script. -/
theorem Inv.spawn (h : d.Inv) (hs : d.scripts.get? id = some script)
    (hn : d.Numbered task.target) (hw : d.Waiting task.target)
    (hno : ∀ other ∈ d.tasks, other.target.key ≠ task.target.key)
    (hg : ∀ r slot k, task.target = .reply r slot k → r ∈ script.requestGuards) :
    (d.spawn id task).Inv where
  guarded {k sc other r slot i} hsc hother htarget hf := by
    obtain ⟨sc', hk, rfl⟩ := Option.map_eq_some_iff.mp ((get?_onScript _ _).symm.trans hsc)
    by_cases hid : k = id
    · subst hid
      obtain rfl : sc' = script := Option.some.inj (hk.symm.trans hs)
      rw [if_pos rfl] at hother ⊢
      obtain hother | rfl := (List.mem_append.mp hother).imp_right List.mem_singleton.mp
      · exact (h.guarded hk hother htarget hf : r ∈ sc'.requestGuards)
      · exact hg r slot i htarget
    · rw [if_neg hid] at hother ⊢
      exact h.guarded hk hother htarget hf
  sound := h.sound
  numbered other hother := by
    obtain hother | rfl := (mem_tasks_spawn hs).mp hother
    · exact h.numbered other hother
    · exact hn
  freshCalls := h.freshCalls
  freshRequests := h.freshRequests
  once := by
    obtain ⟨pre, post, htasks, hspawn⟩ := tasks_spawn hs task
    have hold := htasks ▸ h.once
    rw [hspawn, List.map_append, List.map_cons, List.nodup_middle, List.nodup_cons,
      ← List.map_append]
    refine ⟨fun hmem => ?_, hold⟩
    obtain ⟨other, hother, heq⟩ := List.mem_map.mp hmem
    exact hno other (htasks ▸ hother) heq
  waiting other hother := by
    obtain hother | rfl := (mem_tasks_spawn hs).mp hother
    · exact h.waiting other hother
    · exact hw
  yieldsOnce := h.yieldsOnce

theorem Inv.guard (h : d.Inv) (r : RequestId) (id : Text) :
    (d.onScript id fun script =>
      { script with requestGuards := script.requestGuards ++ [r] }).Inv := by
  have htasks : (d.onScript id fun script =>
      { script with requestGuards := script.requestGuards ++ [r] }).tasks = d.tasks :=
    tasks_onScript_of_eq fun _ => rfl
  have hsub : (d.onScript id fun script =>
      { script with requestGuards := script.requestGuards ++ [r] }).tasks.Sublist d.tasks := by
    rw [htasks]
  refine h.ofSublist d.activeTasks hsub ?_
  intro k sc task q slot i hsc ht htarget hf
  obtain ⟨sc', hk, rfl⟩ := Option.map_eq_some_iff.mp ((get?_onScript _ _).symm.trans hsc)
  split_ifs at ht ⊢ with hid
  · exact List.mem_append_left _ (h.guarded hk ht htarget hf)
  · exact h.guarded hk ht htarget hf

theorem Inv.observe (h : d.Inv) (hr : r < d.nextRequest) (id : Text) : (d.observe r id).Inv := by
  refine (h.guard r id).onRequest hr (h.sound r).reserve (fun hf => hf) fun task ht slot k htarget => ?_
  have hw := (h.guard r id).waiting task ht
  rw [htarget] at hw
  exact RequestResults.reserve_empty.mpr (.inl hw)

@[simp] theorem observe_tasks (r : RequestId) (id : Text) : (d.observe r id).tasks = d.tasks :=
  tasks_onScript_of_eq fun _ => rfl

theorem observe_empty (r : RequestId) (id : Text) {slot : Nat} :
    ((d.observe r id).requests r).Empty slot ↔
      (d.requests r).Empty slot ∨ slot = (d.requests r).replies.length := by
  simp [observe, Deferred.onRequest, onScript, RequestResults.reserve_empty]

theorem Inv.next_slot (h : d.Inv) (ht : task ∈ d.tasks) :
    task.target.key ≠ .inr (r, (d.requests r).replies.length) := by
  intro heq
  obtain ⟨id, htarget⟩ := TaskTarget.key_eq_inr.mp heq
  have hw := h.waiting task ht
  rw [htarget] at hw
  exact absurd (List.getElem?_eq_some_iff.mp hw).1 (Nat.lt_irrefl _)

theorem get?_observe (hs : d.scripts.get? id = some script) :
    (d.observe r id).scripts.get? id =
      some { script with requestGuards := script.requestGuards ++ [r] } := by
  have hget : (d.observe r id).scripts.get? id = _ := get?_onScript _ id
  simpa [hs] using hget

/-- What a request does with the outcome of one handler. -/
theorem deliver_cases (r : RequestId) (id : Text) (returned : Returned V) :
    (d.deliver r (id, returned) = d ∧
      (d.scripts.get? id = none ∨ ∃ error, returned = .threw error)) ∨
    ∃ script, d.scripts.get? id = some script ∧
      ((∃ p error, returned = .promise p (.error error) ∧
        d.deliver r (id, returned) = d.observe r id) ∨
      (∃ decoded, returned = .plain decoded ∧ d.deliver r (id, returned) =
        (d.observe r id).finish (.reply r (d.requests r).replies.length id) decoded) ∨
      ∃ p watched, returned = .promise p (.ok watched) ∧ d.deliver r (id, returned) =
        (d.observe r id).spawn id ⟨p, .reply r (d.requests r).replies.length id⟩) := by
  cases hs : d.scripts.get? id with
  | none => exact .inl ⟨by simp [Deferred.deliver, hs], .inl rfl⟩
  | some script =>
    cases returned with
    | threw error => exact .inl ⟨by simp [Deferred.deliver, hs], .inr ⟨error, rfl⟩⟩
    | plain decoded =>
      exact .inr ⟨script, rfl, .inr (.inl ⟨decoded, rfl, by simp [Deferred.deliver, hs]⟩)⟩
    | promise p watched =>
      cases watched with
      | error error =>
        exact .inr ⟨script, rfl, .inl ⟨p, error, rfl, by simp [Deferred.deliver, hs]⟩⟩
      | ok watched =>
        exact .inr ⟨script, rfl, .inr (.inr ⟨p, watched, rfl, by simp [Deferred.deliver, hs]⟩)⟩

theorem onRequest_keeps {Q : RequestResults V → Prop} {f : RequestResults V → RequestResults V}
    (hf : ∀ {q}, Q q → Q (f q)) {k : RequestId} (h : Q (d.requests k)) :
    Q ((d.onRequest r f).requests k) := by
  by_cases hk : k = r
  · subst hk
    simpa [Deferred.onRequest] using hf h
  · simpa [Deferred.onRequest, hk] using h

theorem deliver_keeps {Q : RequestResults V → Prop} (hreserve : ∀ {q}, Q q → Q q.reserve)
    (hrecord : ∀ {q} slot result, Q q → Q (q.record slot result)) (r k : RequestId) (id : Text)
    (returned : Returned V) (h : Q (d.requests k)) :
    Q ((d.deliver r (id, returned)).requests k) := by
  have hobserve : Q ((d.observe r id).requests k) :=
    onRequest_keeps (Q := Q) (d := d.onScript id _) hreserve h
  obtain ⟨heq, -⟩ | ⟨script, -, hcase⟩ := d.deliver_cases r id returned
  · rwa [heq]
  · obtain ⟨p, error, -, heq⟩ | ⟨decoded, -, heq⟩ | ⟨p, watched, -, heq⟩ := hcase <;> rw [heq]
    · exact hobserve
    · exact onRequest_keeps (Q := Q) (hrecord _ _) hobserve
    · exact hobserve

theorem Inv.deliver (h : d.Inv) (hr : r < d.nextRequest) (id : Text) (returned : Returned V) :
    (d.deliver r (id, returned)).Inv := by
  have hobserve := h.observe hr id
  have hnumbered : (d.observe r id).Numbered (.reply r (d.requests r).replies.length id) := hr
  have hslot := (observe_empty (d := d) r id).mpr (.inr rfl)
  have hnext : ∀ other ∈ (d.observe r id).tasks,
      other.target.key ≠ .inr (r, (d.requests r).replies.length) := by
    rw [observe_tasks]
    exact fun other => h.next_slot
  obtain ⟨heq, -⟩ | ⟨script, hs, hcase⟩ := d.deliver_cases r id returned
  · rw [heq]
    exact h
  · obtain ⟨p, error, -, heq⟩ | ⟨decoded, -, heq⟩ | ⟨p, watched, -, heq⟩ := hcase <;> rw [heq]
    · exact hobserve
    · exact hobserve.finish hnumbered hslot hnext decoded
    · refine hobserve.spawn (get?_observe hs) hnumbered hslot hnext fun q slot k htarget => ?_
      obtain ⟨rfl, -, -⟩ := TaskTarget.reply.inj htarget
      exact List.mem_append_right _ List.mem_cons_self

theorem Inv.callDeferred (h : d.Inv) (id : Text) (returned : Returned V) (polls : Polls V) :
    (d.callDeferred id returned polls).Inv := by
  have hlt : d.newCall.Numbered (.call d.nextCall) := Nat.lt_succ_self d.nextCall
  have hw : d.newCall.Waiting (.call d.nextCall) := by
    have hfresh := h.freshCalls (Nat.le_refl d.nextCall)
    simp [Waiting, Deferred.newCall, hfresh, PendingCall.new]
  have hno : ∀ other ∈ d.newCall.tasks, other.target.key ≠ .inl d.nextCall := by
    intro other hother heq
    have hn := h.numbered other hother
    rw [TaskTarget.key_eq_inl.mp heq] at hn
    exact Nat.lt_irrefl _ hn
  unfold Deferred.callDeferred
  cases hs : d.scripts.get? id with
  | none => exact h
  | some script =>
    refine inv_harvestClosed.harvest none polls ?_
    cases returned with
    | threw error => exact h
    | plain decoded => exact h.newCall.finish hlt hw hno decoded
    | promise p watched =>
      cases watched with
      | error error => exact h
      | ok _ => exact h.newCall.spawn hs hlt hw hno nofun

@[simp] theorem finish_nextRequest (target : TaskTarget) (outcome : Except VmError V) :
    (d.finish target outcome).nextRequest = d.nextRequest := by
  cases target <;> rfl

theorem deliver_nextRequest (r : RequestId) (id : Text) (returned : Returned V) :
    (d.deliver r (id, returned)).nextRequest = d.nextRequest := by
  obtain ⟨heq, -⟩ | ⟨script, -, hcase⟩ := d.deliver_cases r id returned
  · rw [heq]
  · obtain ⟨p, error, -, heq⟩ | ⟨decoded, -, heq⟩ | ⟨p, watched, -, heq⟩ := hcase <;> rw [heq]
    · rfl
    · exact finish_nextRequest _ _
    · rfl

private theorem nextRequest_harvestClosed (r : RequestId) :
    HarvestClosed fun d : Deferred V => r < d.nextRequest where
  finish _ _ _ h := by
    rw [finish_nextRequest]
    exact h
  retain _ _ h := h

theorem Inv.fail (h : d.Inv) (hr : r < d.nextRequest) (error : VmError) :
    (d.onRequest r (·.fail error)).Inv := by
  refine h.onRequest hr ((h.sound r).fail error)
    (RequestResults.completeIfReady_finished (q := { d.requests r with replies := _ })) ?_
  intro task ht slot id htarget
  have hw := h.waiting task ht
  rw [htarget] at hw
  exact RequestResults.fail_empty.mpr hw

theorem Inv.activate (h : d.Inv) (hr : r < d.nextRequest) :
    (d.onRequest r (·.activate)).Inv := by
  refine h.onRequest hr (h.sound r).activate
    (RequestResults.completeIfReady_finished (q := { d.requests r with active := true })) ?_
  intro task ht slot id htarget
  have hw := h.waiting task ht
  rw [htarget] at hw
  exact RequestResults.activate_empty.mpr hw

/-- The deferred work once the handlers of a request have run and were polled. -/
def handled (r : RequestId) (handled : List (Text × Returned V))
    (ending : Option (DispatchEnd V)) (d : Deferred V) : Deferred V :=
  let d := handled.foldl (fun d h => d.deliver r h) { d with nextRequest := r + 1 }
  match ending with
  | none => d
  | some ending => d.harvest (some r) ending.polls

theorem requestDeferred_eq (hs : List (Text × Returned V)) (ending : Option (DispatchEnd V)) :
    d.requestDeferred hs ending =
      match dispatched hs ending with
      | .panicked => d.handled d.nextRequest hs ending
      | .ok _ => requestDeferred.retainAll d.nextRequest
        ((d.handled d.nextRequest hs ending).onRequest d.nextRequest (·.activate))
      | .err error => requestDeferred.retainAll d.nextRequest
        (((d.handled d.nextRequest hs ending).onRequest d.nextRequest (·.fail error)).onRequest
          d.nextRequest (·.activate)) := rfl

theorem Inv.handled (h : d.Inv) (hs : List (Text × Returned V))
    (ending : Option (DispatchEnd V)) :
    (d.handled d.nextRequest hs ending).Inv ∧
      d.nextRequest < (d.handled d.nextRequest hs ending).nextRequest := by
  have hfold := List.foldlRecOn (motive := fun e : Deferred V => e.Inv ∧ d.nextRequest < e.nextRequest)
    hs (fun e h => e.deliver d.nextRequest h) ⟨h.newRequest, Nat.lt_succ_self _⟩
    fun e he a _ => ⟨he.1.deliver he.2 a.1 a.2, deliver_nextRequest (d := e) _ a.1 a.2 ▸ he.2⟩
  unfold Deferred.handled
  cases ending with
  | none => exact hfold
  | some ending =>
    exact (inv_harvestClosed.and (nextRequest_harvestClosed _)).harvest _ _ hfold

theorem Inv.requestDeferred (h : d.Inv) (hs : List (Text × Returned V))
    (ending : Option (DispatchEnd V)) : (d.requestDeferred hs ending).Inv := by
  obtain ⟨hinv, hr⟩ := h.handled hs ending
  rw [requestDeferred_eq]
  cases dispatched hs ending with
  | panicked => exact hinv
  | ok _ => exact inv_harvestClosed.retainAll _ (hinv.activate hr)
  | err error => exact inv_harvestClosed.retainAll _ ((hinv.fail hr error).activate hr)

/-- Tasks that no script holds any more, and what they fill. -/
structure Detached (dropped : List ScriptTask) (d : Deferred V) : Prop where
  numbered : ∀ task ∈ dropped, d.Numbered task.target
  others : ∀ task ∈ dropped, ∀ other ∈ d.tasks, other.target.key ≠ task.target.key
  untaken : ∀ task ∈ dropped, ∀ c, task.target = .call c → (d.calls c).taken = false

theorem Inv.detach (h : d.Inv) {pre dropped post : List ScriptTask}
    {scripts : IndexMap Text DeferredScript} (htasks : d.tasks = pre ++ dropped ++ post)
    (hleft : ({ d with scripts := scripts } : Deferred V).tasks = pre ++ post) :
    Detached dropped { d with scripts := scripts } where
  numbered task ht := h.numbered task (by simp [htasks, ht])
  others task ht other hother heq := by
    have hperm : d.tasks.Perm (dropped ++ (pre ++ post)) := by
      rw [htasks, List.append_assoc]
      exact List.perm_append_comm_assoc _ _ _
    have hnodup := (hperm.map (·.target.key)).nodup_iff.mp h.once
    rw [List.map_append] at hnodup
    refine (List.nodup_append.mp hnodup).2.2 _ (List.mem_map_of_mem ht) _
      (List.mem_map_of_mem (hleft ▸ hother)) heq.symm
  untaken task ht c htarget := by
    have hw := h.waiting task (by simp [htasks, ht])
    rw [htarget] at hw
    exact hw.2

/-- What cancelling one guard of a retired script does. -/
def cancelGuard (dropped : List ScriptTask) (d : Deferred V) (r : RequestId) : Deferred V :=
  if d.isPending none (d.tasks ++ dropped) r then d.onRequest r (·.cancel) else d

theorem onRequest_finished {f : RequestResults V → RequestResults V}
    (hf : ∀ q : RequestResults V, q.finished = true → (f q).finished = true) {q : RequestId}
    (h : (d.requests q).finished = true) : ((d.onRequest r f).requests q).finished = true := by
  by_cases hq : q = r
  · subst hq
    simpa [Deferred.onRequest] using hf _ h
  · simpa [Deferred.onRequest, hq] using h

private theorem cancelGuard_finished {dropped : List ScriptTask} {q : RequestId}
    (h : (d.requests q).finished = true) :
    ((d.cancelGuard dropped r).requests q).finished = true := by
  unfold cancelGuard
  split_ifs
  · exact onRequest_finished (fun q _ => q.cancel_finished) h
  · exact h

private theorem cancelGuard_self {dropped : List ScriptTask} {slot : Nat} (ht : task ∈ dropped)
    (htarget : task.target = .reply r slot id) :
    ((d.cancelGuard dropped r).requests r).finished = true := by
  have hany : (d.tasks ++ dropped).any (·.target.isReplyTo r) = true :=
    List.any_eq_true.mpr ⟨task, List.mem_append_right _ ht,
      TaskTarget.isReplyTo_iff.mpr ⟨slot, id, htarget⟩⟩
  unfold cancelGuard isPending
  cases hf : (d.requests r).finished with
  | true => simp [hf]
  | false => simp [hany, Deferred.onRequest, RequestResults.cancel_finished]

theorem Inv.cancelGuard (h : d.Inv) {dropped : List ScriptTask} (hd : Detached dropped d)
    (r : RequestId) :
    (d.cancelGuard dropped r).Inv ∧ Detached dropped (d.cancelGuard dropped r) := by
  unfold Deferred.cancelGuard
  split_ifs with hpending
  · have hr : r < d.nextRequest := by
      simp only [isPending, Bool.and_eq_true, Bool.or_eq_true] at hpending
      obtain ⟨hmaking | hany, -⟩ := hpending
      · simp at hmaking
      · obtain ⟨task, ht, hreply⟩ := List.any_eq_true.mp hany
        obtain ⟨slot, id, htarget⟩ := TaskTarget.isReplyTo_iff.mp hreply
        have hn := (List.mem_append.mp ht).elim (h.numbered task) (hd.numbered task)
        rw [htarget] at hn
        exact hn
    refine ⟨h.onRequest hr (h.sound r).cancel ?_ ?_, hd.numbered, hd.others, hd.untaken⟩
    · simp [RequestResults.cancel_finished]
    · intro task ht slot id htarget
      have hw := h.waiting task ht
      rw [htarget] at hw
      exact RequestResults.cancel_empty.mpr hw
  · exact ⟨h, hd⟩

private theorem Inv.cancelGuards (h : d.Inv) {dropped : List ScriptTask} (hd : Detached dropped d)
    (guards : List RequestId) : (guards.foldl (Deferred.cancelGuard dropped) d).Inv ∧
      Detached dropped (guards.foldl (Deferred.cancelGuard dropped) d) :=
  List.foldlRecOn (motive := fun e => e.Inv ∧ Detached dropped e) guards _ ⟨h, hd⟩
    fun _ he r _ => he.1.cancelGuard he.2 r

theorem cancelGuards_finished {dropped : List ScriptTask} {guards : List RequestId} {slot : Nat}
    (ht : task ∈ dropped) (htarget : task.target = .reply r slot id)
    (hr : (d.requests r).finished = false → r ∈ guards) :
    ((guards.foldl (cancelGuard dropped) d).requests r).finished = true := by
  induction guards generalizing d with
  | nil => simpa using hr
  | cons q guards ih =>
    refine ih fun hf => ?_
    by_cases hq : r = q
    · subst hq
      simp [cancelGuard_self ht htarget] at hf
    · have hunfinished : (d.requests r).finished = false := by
        by_contra hfin
        simp [cancelGuard_finished (Bool.not_eq_false _ ▸ hfin)] at hf
      exact (List.mem_cons.mp (hr hunfinished)).resolve_left hq

theorem Inv.cancelTask (h : d.Inv) {dropped : List ScriptTask} (hd : Detached dropped d)
    (ht : task ∈ dropped)
    (hf : ∀ r slot k, task.target = .reply r slot k → (d.requests r).finished = true) :
    (d.cancelTask task.target).Inv ∧ Detached dropped (d.cancelTask task.target) := by
  have hn := hd.numbered task ht
  cases htarget : task.target with
  | call c =>
    rw [htarget] at hn
    have huntaken := hd.untaken task ht c htarget
    refine ⟨h.onCall hn (fun other hother heq => hd.others task ht other hother ?_)
      (PendingCall.yieldsOnce_complete.mpr huntaken), hd.numbered, hd.others, ?_⟩
    · rw [heq, htarget]
    · intro other hother k hk
      by_cases hkc : k = c
      · subst hkc
        simpa [Deferred.cancelTask, Deferred.onCall] using huntaken
      · simpa [Deferred.cancelTask, Deferred.onCall, hkc] using hd.untaken other hother k hk
  | reply r slot k =>
    rw [htarget] at hn
    refine ⟨h.onRequest hn ((h.sound r).dropTask (hf r slot k htarget)) (fun hfin => hfin) ?_,
      hd.numbered, hd.others, hd.untaken⟩
    intro other hother slot' id hother'
    have hw := h.waiting other hother
    rw [hother'] at hw
    exact hw

theorem cancelTask_finished {target : TaskTarget} (h : (d.requests r).finished = true) :
    ((d.cancelTask target).requests r).finished = true := by
  cases target with
  | call c => exact h
  | reply q slot k =>
    exact onRequest_finished (f := RequestResults.dropTask) (fun _ hq => hq) h

/-- The deferred work once the requests of a retired script are cancelled. -/
def cancelled (script : DeferredScript) (d : Deferred V) : Deferred V :=
  let cancelled := script.requestGuards.foldl (cancelGuard script.tasks) d
  { cancelled with activeTasks := cancelled.activeTasks - script.tasks.length }

/-- And once its tasks are dropped. -/
def dropped (script : DeferredScript) (d : Deferred V) : Deferred V :=
  script.tasks.foldl (fun d task => d.cancelTask task.target) (d.cancelled script)

theorem retire_eq (polls : Polls V) :
    d.retire script polls = (d.dropped script).harvest none polls := rfl

theorem Inv.dropped (h : d.Inv) (hd : Detached script.tasks d)
    (hg : ∀ task ∈ script.tasks, ∀ r slot k, task.target = .reply r slot k →
      (d.requests r).finished = false → r ∈ script.requestGuards) : (d.dropped script).Inv := by
  obtain ⟨hinv, hdetached⟩ := h.cancelGuards hd script.requestGuards
  have hsub : (d.cancelled script).tasks.Sublist
      (script.requestGuards.foldl (Deferred.cancelGuard script.tasks) d).tasks :=
    List.Sublist.refl _
  have hcancelled : (d.cancelled script).Inv := hinv.ofSublist _ hsub hinv.guarded
  refine (List.foldlRecOn (motive := fun e : Deferred V => (e.Inv ∧ Detached script.tasks e) ∧
    ∀ task ∈ script.tasks, ∀ r slot k, task.target = .reply r slot k →
      (e.requests r).finished = true) script.tasks _ ⟨⟨hcancelled, ?_⟩, ?_⟩ ?_).1.1
  · exact ⟨hdetached.numbered, hdetached.others, hdetached.untaken⟩
  · exact fun task ht r slot k htarget => cancelGuards_finished ht htarget (hg task ht r slot k htarget)
  · intro e he task ht
    refine ⟨he.1.1.cancelTask he.1.2 ht (he.2 task ht), fun other hother r slot k htarget => ?_⟩
    exact cancelTask_finished (he.2 other hother r slot k htarget)

/-- `scripts` without the tasks of `script`. -/
structure Without (script : DeferredScript) (d : Deferred V)
    (scripts : IndexMap Text DeferredScript) : Prop where
  tasks : ∃ pre post, d.tasks = pre ++ script.tasks ++ post ∧
    ({ d with scripts := scripts } : Deferred V).tasks = pre ++ post
  get? : ∀ {k sc}, scripts.get? k = some sc → d.scripts.get? k = some sc ∨ sc.tasks = []

theorem without_erase (hs : d.scripts.get? id = some script) :
    Without script d (d.scripts.erase id) where
  tasks := by
    obtain ⟨pre, post, htasks, hleft, -⟩ := tasks_split hs
    exact ⟨pre, post, htasks, hleft⟩
  get? hk := .inl (IndexMap.get?_eq_some.mpr (IndexMap.mem_erase.mp (IndexMap.get?_eq_some.mp hk)).2)

theorem get?_insert_fresh {scripts : IndexMap Text DeferredScript} {k : Text} {sc : DeferredScript}
    (hk : (scripts.insert id ⟨[], []⟩).get? k = some sc) :
    scripts.get? k = some sc ∨ sc.tasks = [] := by
  by_cases hid : k = id
  · subst hid
    rw [IndexMap.get?_insert_self] at hk
    obtain rfl := Option.some.inj hk
    exact .inr rfl
  · rw [IndexMap.get?_insert_of_ne _ _ hid] at hk
    exact .inl hk

theorem without_insert (hs : d.scripts.get? id = some script) :
    Without script d (d.scripts.insert id ⟨[], []⟩) where
  tasks := by
    obtain ⟨pre, post, htasks, -, hon⟩ := tasks_split hs
    refine ⟨pre, post, htasks, ?_⟩
    have hleft := hon fun _ => ⟨[], []⟩
    simp only [onScript, ← IndexMap.insert_of_mem hs] at hleft
    simpa [Deferred.tasks] using hleft
  get? := get?_insert_fresh

/-- Once its tasks are dropped, a retired script leaves the invariant as it was. -/
theorem Inv.dropped_without (h : d.Inv) (hs : d.scripts.get? id = some script)
    {scripts : IndexMap Text DeferredScript} (hw : Without script d scripts) :
    (({ d with scripts := scripts } : Deferred V).dropped script).Inv := by
  obtain ⟨pre, post, htasks, hleft⟩ := hw.tasks
  have hsub : ({ d with scripts := scripts } : Deferred V).tasks.Sublist d.tasks := by
    rw [hleft, htasks]
    exact (List.sublist_append_left _ _).append (List.Sublist.refl _)
  refine (h.ofSublist d.activeTasks hsub ?_).dropped (h.detach htasks hleft) ?_
  · intro k sc task r slot i hk ht htarget hf
    obtain hk | hnil := hw.get? hk
    · exact h.guarded hk ht htarget hf
    · simp [hnil] at ht
  · exact fun task ht r slot k htarget hf => h.guarded hs ht htarget hf

theorem Inv.unload (h : d.Inv) (id : Text) (polls : Polls V) : (d.unload id polls).Inv := by
  unfold Deferred.unload
  cases hs : d.scripts.get? id with
  | none => exact h
  | some script =>
    exact inv_harvestClosed.harvest none polls (h.dropped_without hs (without_erase hs))

theorem Inv.replace (h : d.Inv) (id : Text) (polls : Polls V) : (d.replace id polls).Inv := by
  unfold Deferred.replace
  cases hs : d.scripts.get? id with
  | none =>
    have htasks : ({ d with scripts := d.scripts.insert id ⟨[], []⟩ } : Deferred V).tasks =
        d.tasks := by
      simp [tasks, IndexMap.values_insert_of_not_mem _ hs]
    have hsub : ({ d with scripts := d.scripts.insert id ⟨[], []⟩ } : Deferred V).tasks.Sublist
        d.tasks := by rw [htasks]
    refine h.ofSublist d.activeTasks hsub fun {k sc task r slot i} hk ht htarget hf => ?_
    obtain hk | hnil := get?_insert_fresh hk
    · exact h.guarded hk ht htarget hf
    · simp [hnil] at ht
  | some script =>
    exact inv_harvestClosed.harvest none polls (h.dropped_without hs (without_insert hs))

theorem Inv.takeCall (h : d.Inv) (c : CallHandle) : (d.onCall c (·.take.2)).Inv where
  guarded := h.guarded
  sound := h.sound
  numbered := h.numbered
  freshCalls {k} hk := by
    have hfresh := h.freshCalls hk
    by_cases hkc : k = c
    · subst hkc
      simp [Deferred.onCall, hfresh, PendingCall.take, PendingCall.new]
    · simpa [Deferred.onCall, hkc] using hfresh
  freshRequests := h.freshRequests
  once := h.once
  waiting task ht := by
    have hw := h.waiting task ht
    cases htarget : task.target with
    | call k =>
      rw [htarget] at hw
      by_cases hkc : k = c
      · subst hkc
        simpa [Waiting, Deferred.onCall, PendingCall.take, hw.1] using hw.2
      · simpa [Waiting, Deferred.onCall, hkc] using hw
    | reply q slot id =>
      rw [htarget] at hw
      exact hw
  yieldsOnce k := by
    by_cases hkc : k = c
    · subst hkc
      simpa [Deferred.onCall] using PendingCall.YieldsOnce.take
    · simpa [Deferred.onCall, hkc] using h.yieldsOnce k

theorem Inv.takeRequest (h : d.Inv) (r : RequestId) :
    (d.onRequest r fun q => { q with handle := q.handle.take.2 }).Inv := by
  by_cases hr : r < d.nextRequest
  · refine h.onRequest hr (h.sound r).take (fun hf => hf) fun task ht slot id htarget => ?_
    have hw := h.waiting task ht
    rw [htarget] at hw
    exact hw
  · have hfresh := h.freshRequests (Nat.not_lt.mp hr)
    have htake : ({ d.requests r with handle := (d.requests r).handle.take.2 } :
        RequestResults V) = d.requests r := by
      simp [hfresh, RequestResults.new, PendingCall.take, PendingCall.new]
    simp only [Deferred.onRequest, htake, Function.update_eq_self]
    exact h

theorem Inv.next (h : d.Inv) (step : DeferredStep V) : (step.next d).Inv := by
  cases step with
  | settle polls => exact inv_harvestClosed.harvest none polls h
  | callDeferred id returned polls => exact h.callDeferred id returned polls
  | requestDeferred handled ending => exact h.requestDeferred handled ending
  | replace id polls => exact h.replace id polls
  | unload id polls => exact h.unload id polls
  | takeCall c => exact h.takeCall c
  | takeRequest r => exact h.takeRequest r

end Deferred

/-- The engine's deferred work, step by step. -/
def DeferredStep.Step (d : Deferred V) (step : DeferredStep V) (e : Deferred V) : Prop :=
  step.next d = e

theorem Deferred.inv_preserved :
    Transition.Preserves DeferredStep.Step (Deferred.Inv (V := V)) := by
  rintro d step e h rfl
  exact h.next step

end RustTS.Runner
