import RustTS.Runner.RequestTracking

/-! What deferred requests publish: their replies in delivery order, whatever the order in which the
handlers' Promises settle, or that a script which takes part was retired first. -/
namespace RustTS.Runner
open ModuleLoader

variable {V : Type}

/-- The script that a step retires, if it is loaded. -/
def DeferredStep.retires : DeferredStep V → Option Text
  | .replace id _ => some id
  | .unload id _ => some id
  | _ => none

/-- What the tasks that a step polls give. -/
def DeferredStep.found (d : Deferred V) : DeferredStep V → List (Given V)
  | .settle polls => d.found polls
  | .callDeferred id returned polls =>
    match d.scripts.get? id with
    | none => []
    | some _ => (d.called id returned).found polls
  | .requestDeferred handled ending => d.foundWhileMade handled ending
  | .replace id polls =>
    match d.scripts.get? id with
    | none => []
    | some previous =>
      (({ d with scripts := d.scripts.insert id ⟨[], []⟩ } : Deferred V).dropped previous).found polls
  | .unload id polls =>
    match d.scripts.get? id with
    | none => []
    | some script => (({ d with scripts := d.scripts.erase id } : Deferred V).dropped script).found polls
  | .takeCall _ => []
  | .takeRequest _ => []

namespace Deferred

variable {d d' : Deferred V} {r : RequestId} {a : Delivered V} {given : List (Given V)}

/-- The step retires a script that takes part in a request which is not finished. -/
def RetiresEarly (r : RequestId) (a : Delivered V) (d : Deferred V) (step : DeferredStep V) : Prop :=
  ∃ id ∈ a.scripts, step.retires = some id ∧ (d.requests r).finished = false

/-- The step retires a script that takes part in a request some task still replies to. -/
def Withdraws (r : RequestId) (a : Delivered V) (d : Deferred V) (step : DeferredStep V) : Prop :=
  ∃ id ∈ a.scripts, step.retires = some id ∧ d.isPending none d.tasks r = true

/-- What the tasks give along a run. -/
def foundAlong (d : Deferred V) : List (DeferredStep V) → List (Given V)
  | [] => []
  | step :: steps => step.found d ++ foundAlong (step.next d) steps

/-- Some step of a run is as described. -/
def SomeStep (p : Deferred V → DeferredStep V → Prop) (d : Deferred V) : List (DeferredStep V) → Prop
  | [] => False
  | step :: steps => p d step ∨ SomeStep p (step.next d) steps

theorem retires_iff {p : Prop} {step : DeferredStep V} {id : Text} (h : step.retires = some id) :
    (∃ k ∈ a.scripts, step.retires = some k ∧ p) ↔ id ∈ a.scripts ∧ p := by
  rw [h]
  constructor
  · rintro ⟨k, hk, heq, hp⟩
    obtain rfl := Option.some.inj heq
    exact ⟨hk, hp⟩
  · rintro ⟨hk, hp⟩
    exact ⟨id, hk, rfl, hp⟩

/-- Every step takes the request along. -/
theorem Tracked.next {early withdrawn : Prop} (h : Tracked none r a early withdrawn given d)
    (step : DeferredStep V) :
    Tracked none r a (early ∨ RetiresEarly r a d step) (withdrawn ∨ Withdraws r a d step)
      (given ++ step.found d) (step.next d) := by
  have hnone (hretires : step.retires = none)
      (hnext : Tracked none r a early withdrawn (given ++ step.found d) (step.next d)) :
      Tracked none r a (early ∨ RetiresEarly r a d step) (withdrawn ∨ Withdraws r a d step)
        (given ++ step.found d) (step.next d) := by
    have hearly : ¬ RetiresEarly r a d step := by
      rintro ⟨id, -, hid, -⟩
      simp [hretires] at hid
    have hwithdraws : ¬ Withdraws r a d step := by
      rintro ⟨id, -, hid, -⟩
      simp [hretires] at hid
    rwa [or_iff_left hearly, or_iff_left hwithdraws]
  have hretired {id : Text} (hretires : step.retires = some id)
      (hnext : Tracked none r a (early ∨ id ∈ a.scripts ∧ (d.requests r).finished = false)
        (withdrawn ∨ id ∈ a.scripts ∧ d.isPending none d.tasks r = true) (given ++ step.found d)
        (step.next d)) :
      Tracked none r a (early ∨ RetiresEarly r a d step) (withdrawn ∨ Withdraws r a d step)
        (given ++ step.found d) (step.next d) := by
    unfold RetiresEarly Withdraws
    rwa [retires_iff hretires, retires_iff hretires]
  cases step with
  | settle polls => exact hnone rfl ((tracked_harvest _ _ _ _ _).harvest polls h)
  | callDeferred id returned polls =>
    refine hnone rfl ?_
    simp only [DeferredStep.next, DeferredStep.found, Deferred.callDeferred]
    cases hs : d.scripts.get? id with
    | none => rwa [List.append_nil]
    | some script =>
      obtain ⟨hframe, hnext⟩ := frame_called hs returned r
      exact (tracked_harvest _ _ _ _ _).harvest polls
        (h.frame hframe (h.inv.called hs returned) (Nat.le_of_eq hnext.symm))
  | requestDeferred hs ending => exact hnone rfl (h.request hs ending)
  | replace id polls =>
    refine hretired rfl ?_
    have hinv := h.inv.replace id polls
    simp only [DeferredStep.next, DeferredStep.found, Deferred.replace] at hinv ⊢
    cases hs : d.scripts.get? id with
    | none =>
      simp only [hs] at hinv ⊢
      rw [List.append_nil]
      refine (h.unloaded hs).frame ⟨rfl, fun task ht _ => ?_, fun k => ?_⟩ hinv (Nat.le_refl _)
      · simpa [tasks, IndexMap.values_insert_of_not_mem _ hs] using ht
      · unfold Guards
        by_cases hk : k = id
        · subst hk
          simp [hs, IndexMap.get?_insert_self]
        · rw [IndexMap.get?_insert_of_ne _ _ hk]
    | some script =>
      exact (tracked_harvest _ _ _ _ _).harvest polls
        (h.dropped hs (without_insert hs) (retired_insert id d))
  | unload id polls =>
    refine hretired rfl ?_
    simp only [DeferredStep.next, DeferredStep.found, Deferred.unload]
    cases hs : d.scripts.get? id with
    | none =>
      simp only []
      rw [List.append_nil]
      exact h.unloaded hs
    | some script =>
      exact (tracked_harvest _ _ _ _ _).harvest polls
        (h.dropped hs (without_erase hs) (retired_erase id d))
  | takeCall c =>
    refine hnone rfl ?_
    simp only [DeferredStep.found, List.append_nil]
    exact h.frame ⟨rfl, fun _ h _ => h, fun _ => .rfl⟩ (h.inv.takeCall c) (Nat.le_refl _)
  | takeRequest q =>
    refine hnone rfl ?_
    simp only [DeferredStep.found, List.append_nil]
    exact h.takeRequest q

theorem Tracked.run {early withdrawn : Prop} {steps : List (DeferredStep V)}
    (hrun : Transition.Run DeferredStep.Step d steps d')
    (h : Tracked none r a early withdrawn given d) :
    Tracked none r a (early ∨ SomeStep (RetiresEarly r a) d steps)
      (withdrawn ∨ SomeStep (Withdraws r a) d steps) (given ++ d.foundAlong steps) d' := by
  induction hrun generalizing early withdrawn given with
  | nil d => simpa [SomeStep, foundAlong] using h
  | @cons d e d' step steps hstep hrun ih =>
    obtain rfl : step.next d = e := hstep
    have hnext := ih (h.next step)
    rw [or_assoc, or_assoc, List.append_assoc] at hnext
    exact hnext

/-- The first error among replies that all came. -/
def firstError (replies : List (Option (Except VmError (Text × V)))) : Option VmError :=
  replies.findSome? fun reply => match reply with
    | some (.error error) => some error
    | _ => none

theorem publish_ok {slots : List (Option (Except VmError (Text × V)))} {replies : List (Text × V)}
    (hsome : ∀ slot ∈ slots, slot.isSome = true) (h : RequestResults.publish slots = .ok replies) :
    slots = replies.map fun reply => some (.ok reply) := by
  induction slots generalizing replies with
  | nil =>
    obtain rfl : [] = replies := Except.ok.inj h
    rfl
  | cons slot slots ih =>
    cases slot with
    | none => simpa using hsome none
    | some outcome =>
      cases outcome with
      | error error => cases h
      | ok reply =>
        have hmap : (RequestResults.publish slots).map (reply :: ·) = .ok replies := h
        cases hrest : RequestResults.publish slots with
        | error error => simp [hrest, Except.map] at hmap
        | ok rest =>
          obtain rfl : reply :: rest = replies := by simpa [hrest, Except.map] using hmap
          rw [ih (fun slot hslot => hsome slot (List.mem_cons_of_mem _ hslot)) hrest, List.map_cons]

theorem publish_error {slots : List (Option (Except VmError (Text × V)))} {error : VmError}
    (h : RequestResults.publish slots = .error error) : firstError slots = some error := by
  induction slots with
  | nil => cases h
  | cons slot slots ih =>
    unfold firstError at ih ⊢
    cases slot with
    | none => simpa using ih h
    | some outcome =>
      cases outcome with
      | error error' =>
        obtain rfl : error' = error := Except.error.inj h
        simp
      | ok reply =>
        have hmap : (RequestResults.publish slots).map (reply :: ·) = .error error := h
        cases hrest : RequestResults.publish slots with
        | error error' =>
          obtain rfl : error' = error := by simpa [hrest, Except.map] using hmap
          simpa using ih hrest
        | ok rest => simp [hrest, Except.map] at hmap

theorem Delivered.replies_ok {replies : List (Text × V)} (h : a.Answered given r)
    (hpublish : RequestResults.publish (a.replies given r) = .ok replies) :
    a.outcome = .ok () ∧ a.slots.mapIdx (replyAt given r) = replies.map fun reply => some (.ok reply) := by
  have hlist : a.slots.mapIdx (replyAt given r) ++ a.failed.toList.map (fun error => some (.error error)) =
      replies.map fun reply => some (.ok reply) := publish_ok h.2 hpublish
  cases hout : a.outcome with
  | panicked => exact absurd hout h.1
  | ok _ =>
    have hfailed : a.failed = none := by simp [Delivered.failed, hout]
    rw [hfailed] at hlist
    exact ⟨rfl, by simpa using hlist⟩
  | err error =>
    have hfailed : a.failed = some error := by simp [Delivered.failed, hout]
    have hmem : some (.error error) ∈ replies.map fun reply : Text × V =>
        some (Except.ok (ε := VmError) reply) := by
      rw [← hlist, hfailed]
      simp
    simp at hmem

/-- A request as its delivery to the handlers leaves it. -/
def delivery (d : Deferred V) (handled : List (Text × Returned V)) (ending : Option (DispatchEnd V)) :
    Delivered V := ⟨d.slots handled, dispatched handled ending⟩

/-- What the tasks give from the delivery of a request on. -/
def givenSince (d : Deferred V) (handled : List (Text × Returned V)) (ending : Option (DispatchEnd V))
    (after : List (DeferredStep V)) : List (Given V) :=
  d.foundWhileMade handled ending ++ (d.requestDeferred handled ending).foundAlong after

private theorem guardsMade_preserved : Transition.Preserves DeferredStep.Step (GuardsMade (V := V)) := by
  rintro d step e h rfl
  exact h.next step

/-- Whatever the engine does after the delivery of a request, the request finishes exactly when a
script that takes part is retired while a task replies to it, which cancels it, or every handler
replied. The list it publishes has one reply for each handler, in delivery order, and none of its
scripts was retired before; otherwise the error is the first of the replies and of the delivery. -/
theorem request_answered {before after : List (DeferredStep V)} {handled : List (Text × Returned V)}
    {ending : Option (DispatchEnd V)} (hbefore : Transition.Run DeferredStep.Step .default before d)
    (hafter : Transition.Run DeferredStep.Step (d.requestDeferred handled ending) after d') :
    ((d'.requests d.nextRequest).finished = true ↔
      SomeStep (Withdraws d.nextRequest (d.delivery handled ending)) (d.requestDeferred handled ending)
          after ∨
        (d.delivery handled ending).Answered (d.givenSince handled ending after) d.nextRequest) ∧
    ((d'.requests d.nextRequest).finished = true →
      (d'.requests d.nextRequest).handle.result.isSome = true ∨
        (d'.requests d.nextRequest).handle.taken = true) ∧
    (∀ replies, (d'.requests d.nextRequest).handle.result = some (.ok replies) →
      dispatched handled ending = .ok () ∧
      (d.slots handled).mapIdx (replyAt (d.givenSince handled ending after) d.nextRequest) =
        replies.map (fun reply => some (.ok reply)) ∧
      ¬ SomeStep (RetiresEarly d.nextRequest (d.delivery handled ending))
          (d.requestDeferred handled ending) after) ∧
    ∀ error, (d'.requests d.nextRequest).handle.result = some (.error error) →
      error = .cancelled ∧ SomeStep (Withdraws d.nextRequest (d.delivery handled ending))
          (d.requestDeferred handled ending) after ∨
        firstError ((d.delivery handled ending).replies (d.givenSince handled ending after)
          d.nextRequest) = some error ∧
        ¬ SomeStep (RetiresEarly d.nextRequest (d.delivery handled ending))
            (d.requestDeferred handled ending) after := by
  have hinv := hbefore.invariant inv_preserved inv_default
  have hguards := hbefore.invariant guardsMade_preserved (by rintro q id ⟨script, hs, -⟩; cases hs)
  have htracked := (tracked_request hinv hguards handled ending).run hafter
  rw [false_or, false_or] at htracked
  have hpublished := (htracked.inv.sound d.nextRequest).published
  obtain hw | hp | hc := htracked.state
  · obtain ⟨hresult, -⟩ := (htracked.inv.sound d.nextRequest).unfinished hw.unfinished
    have hunfinished := Bool.not_eq_true _ ▸ hw.unfinished
    refine ⟨iff_of_false hunfinished ?_, hpublished, ?_, ?_⟩
    · rintro (hwithdrawn | ⟨hout, hsome⟩)
      · exact hw.pending hwithdrawn
      · have hwaits := (htracked.inv.sound d.nextRequest).waits (hw.active.mpr hout) hw.unfinished
        obtain ⟨slot, hslot, hnone⟩ := List.any_eq_true.mp hwaits
        rw [hw.replies] at hslot
        have hslot := hsome slot hslot
        cases slot <;> simp at hslot hnone
    · rintro replies hreplies
      simp [hresult] at hreplies
    · rintro error herror
      simp [hresult] at herror
  · have hpublish {result : Except VmError (List (Text × V))}
        (hresult : (d'.requests d.nextRequest).handle.result = some result) :
        RequestResults.publish ((d.delivery handled ending).replies
          (d.givenSince handled ending after) d.nextRequest) = result := by
      obtain hhandle | hhandle := hp.handle
      · exact Option.some.inj ((congrArg (·.result) hhandle).symm.trans hresult)
      · cases (congrArg (·.result) hhandle).symm.trans hresult
    refine ⟨iff_of_true hp.finished (.inr hp.answered), hpublished, fun replies hreplies => ?_,
      fun error herror => .inr ⟨publish_error (hpublish herror), hp.timely⟩⟩
    obtain ⟨hout, hlist⟩ := Delivered.replies_ok hp.answered (hpublish hreplies)
    exact ⟨hout, hlist, hp.timely⟩
  · refine ⟨iff_of_true hc.finished (.inl hc.withdrawn), hpublished, fun replies hreplies => ?_,
      fun error herror => .inl ⟨?_, hc.withdrawn⟩⟩
    · obtain hresult | hhandle := hc.handle
      · simp [hresult] at hreplies
      · simp [hhandle] at hreplies
    · obtain hresult | hhandle := hc.handle
      · simpa [hresult] using herror.symm
      · simp [hhandle] at herror

/-- Two scripts that are loaded. -/
def twoLoaded : Deferred Nat :=
  ((Deferred.default : Deferred Nat).replace ['a'] fun _ _ => .pending).replace ['b'] fun _ _ => .pending

/-- Both answer a request with a Promise. -/
def twoPromises : List (Text × Returned Nat) :=
  [(['a'], .promise 0 (.ok ())), (['b'], .promise 1 (.ok ()))]

/-- The dispatch ends while both are pending. -/
def bothPending : Option (DispatchEnd Nat) := some ⟨.default, .quiet, fun _ _ => .pending⟩

/-- The Promise of the second settles first. -/
def settledBackwards : List (DeferredStep Nat) :=
  [.settle fun id _ => if id = ['b'] then .settled (.ok 2) else .pending,
    .settle fun _ _ => .settled (.ok 1)]

/-- The replies come in the order in which the handlers were called. -/
theorem request_answered_backwards :
    ((settledBackwards.foldl (fun d step => step.next d)
        (twoLoaded.requestDeferred twoPromises bothPending)).requests 0).handle.result =
      some (.ok [(['a'], 1), (['b'], 2)]) ∧
    (twoLoaded.slots twoPromises).mapIdx
      (replyAt (twoLoaded.givenSince twoPromises bothPending settledBackwards) 0) =
        [some (.ok (['a'], 1)), some (.ok (['b'], 2))] := by
  have hbefore : Transition.Run DeferredStep.Step (.default : Deferred Nat)
      [.replace ['a'] fun _ _ => .pending, .replace ['b'] fun _ _ => .pending] twoLoaded :=
    .cons rfl (.cons rfl (.nil _))
  have hafter : Transition.Run DeferredStep.Step (twoLoaded.requestDeferred twoPromises bothPending)
      settledBackwards (settledBackwards.foldl (fun d step => step.next d)
        (twoLoaded.requestDeferred twoPromises bothPending)) := .cons rfl (.cons rfl (.nil _))
  have hresult : ((settledBackwards.foldl (fun d step => step.next d)
      (twoLoaded.requestDeferred twoPromises bothPending)).requests 0).handle.result =
        some (.ok [(['a'], 1), (['b'], 2)]) := rfl
  obtain ⟨-, -, hok, -⟩ := request_answered hbefore hafter
  exact ⟨hresult, (hok _ hresult).2.1⟩

end Deferred

end RustTS.Runner
