import Mathlib.Data.List.Indexes
import RustTS.Runner.DeferredRequests

/-! What the tasks of deferred requests give, and the replies that their slots hold for it. -/
namespace RustTS.Runner
open ModuleLoader

variable {V : Type}

/-- What a handler's return gives the request: a slot, filled at once when it is no Promise. -/
def Returned.slot : Returned V → Option (Option (Except VmError V))
  | .threw _ => none
  | .plain decoded => some (some decoded)
  | .promise _ _ => some none

/-- What a task gives when it settles. -/
abbrev Given (V : Type) := TaskTarget × Except VmError V

/-- What was given for slot `i` of request `r`. -/
def givenFor (given : List (Given V)) (r : RequestId) (i : Nat) : Option (Except VmError V) :=
  given.findSome? fun g => if g.1.key = .inr (r, i) then some g.2 else none

/-- The reply in slot `i`, once it came. -/
def replyAt (given : List (Given V)) (r : RequestId) (i : Nat)
    (slot : Text × Option (Except VmError V)) : Option (Except VmError (Text × V)) :=
  (slot.2.or (givenFor given r i)).map fun outcome => outcome.map fun reply => (slot.1, reply)

/-- The replies of a request in delivery order, and the error the delivery ended with. -/
def repliesOf (given : List (Given V)) (r : RequestId)
    (slots : List (Text × Option (Except VmError V))) (failed : Option VmError) :
    List (Option (Except VmError (Text × V))) :=
  slots.mapIdx (replyAt given r) ++ failed.toList.map fun error => some (.error error)

section
variable {given : List (Given V)} {r : RequestId} {slots : List (Text × Option (Except VmError V))}

theorem givenFor_append (i : Nat) (g : Given V) :
    givenFor (given ++ [g]) r i =
      (givenFor given r i).or (if g.1.key = .inr (r, i) then some g.2 else none) := by
  unfold givenFor
  rw [List.findSome?_append, List.findSome?_singleton]

theorem replyAt_append_of_ne {i : Nat} {g : Given V} (h : g.1.key ≠ .inr (r, i))
    (slot : Text × Option (Except VmError V)) :
    replyAt (given ++ [g]) r i slot = replyAt given r i slot := by
  unfold replyAt
  rw [givenFor_append, if_neg h, Option.or_none]

theorem repliesOf_append_of_ne {g : Given V} (h : ∀ i, g.1.key ≠ .inr (r, i))
    (failed : Option VmError) :
    repliesOf (given ++ [g]) r slots failed = repliesOf given r slots failed := by
  unfold repliesOf
  congr 1
  exact congrArg (slots.mapIdx ·) (funext fun i => funext fun slot => replyAt_append_of_ne (h i) slot)

/-- What the task of an empty slot gives fills the slot. -/
theorem repliesOf_append_self {i : Nat} {id : Text} {outcome : Except VmError V}
    {failed : Option VmError} (hempty : (repliesOf given r slots failed)[i]? = some none)
    (hid : (slots[i]?).map Prod.fst = some id) :
    repliesOf (given ++ [(.reply r i id, outcome)]) r slots failed =
      (repliesOf given r slots failed).set i (some (outcome.map fun reply => (id, reply))) := by
  obtain ⟨slot, hslot, rfl⟩ := Option.map_eq_some_iff.mp hid
  have hlt : i < slots.length := (List.getElem?_eq_some_iff.mp hslot).1
  unfold repliesOf at hempty ⊢
  rw [List.getElem?_append_left (by simpa using hlt), List.getElem?_mapIdx, hslot,
    Option.map_some] at hempty
  have hnone : slot.2.or (givenFor given r i) = none :=
    Option.map_eq_none_iff.mp (Option.some.inj hempty)
  rw [List.set_append_left _ _ (by simpa using hlt)]
  congr 1
  refine List.ext_getElem? fun j => ?_
  rw [List.getElem?_set, List.getElem?_mapIdx, List.getElem?_mapIdx, List.length_mapIdx]
  by_cases hj : i = j
  · subst hj
    have hgiven : givenFor (given ++ [(.reply r i slot.1, outcome)]) r i =
        (givenFor given r i).or (some outcome) :=
      (givenFor_append i _).trans (congrArg _ (if_pos rfl))
    rw [if_pos rfl, if_pos hlt, hslot, Option.map_some]
    unfold replyAt
    rw [hgiven, ← Option.or_assoc, hnone, Option.none_or]
    rfl
  · rw [if_neg hj]
    refine Option.map_congr fun _ _ => replyAt_append_of_ne (fun hkey => hj ?_) _
    exact (Prod.mk.inj (Sum.inr.inj hkey)).2

end

namespace Deferred

variable {d e : Deferred V} {id : Text} {script : DeferredScript} {r : RequestId}

/-- The slots of a request, one for each handler of a loaded script that returned, in delivery order. -/
def slots (d : Deferred V) (handled : List (Text × Returned V)) :
    List (Text × Option (Except VmError V)) :=
  handled.filterMap fun h =>
    if (d.scripts.get? h.1).isSome then h.2.slot.map fun slot => (h.1, slot) else none

/-- What the tasks of a list that settled give, polled from place `i` on. -/
def foundFrom (polled : Nat → Polled V) : Nat → List ScriptTask → List (Given V)
  | _, [] => []
  | i, task :: rest =>
    match (polled i).outcome with
    | none => foundFrom polled (i + 1) rest
    | some outcome => (task.target, outcome) :: foundFrom polled (i + 1) rest

def foundIn (polls : Polls V) (d : Deferred V) (id : Text) : List (Given V) :=
  match d.scripts.get? id with
  | none => []
  | some script => foundFrom (polls id) 0 script.tasks

/-- What the tasks that one settling polls give. -/
def found (polls : Polls V) (d : Deferred V) : List (Given V) :=
  if d.activeTasks = 0 then [] else d.scripts.keys.flatMap (d.foundIn polls)

/-- A property of the deferred work and of what its tasks gave so far, kept as those of
`HarvestClosed` are. -/
structure HarvestTracked (making : Option RequestId)
    (P : List (Given V) → Deferred V → Prop) : Prop where
  finish : ∀ {given : List (Given V)} {d : Deferred V} {id script kept task rest} outcome,
    d.scripts.get? id = some script → script.tasks = kept ++ task :: rest → P given d →
    P (given ++ [(task.target, outcome)]) (Deferred.finish task.target outcome
      { d.onScript id fun script => { script with tasks := kept ++ rest } with
        activeTasks := d.activeTasks - 1 })
  retain : ∀ {given : List (Given V)} {d : Deferred V} id, P given d → P given (d.retainGuards making id)

namespace HarvestTracked

variable {making : Option RequestId} {P : List (Given V) → Deferred V → Prop}

theorem pollFrom (hP : HarvestTracked making P) (polled : Nat → Polled V) {rest : List ScriptTask} :
    ∀ {i kept d script given}, d.scripts.get? id = some script → script.tasks = kept ++ rest →
      P given d → P (given ++ foundFrom polled i rest) (d.pollFrom id polled i kept rest) := by
  induction rest with
  | nil =>
    intro i kept d script given hs ht h
    rwa [foundFrom, List.append_nil]
  | cons task rest ih =>
    intro i kept d script given hs ht h
    unfold Deferred.pollFrom foundFrom
    cases houtcome : (polled i).outcome with
    | none => exact ih hs (by simpa using ht) h
    | some outcome =>
      have hfinish := hP.finish outcome hs ht h
      have hget : (Deferred.finish task.target outcome
          { d.onScript id fun script => { script with tasks := kept ++ rest } with
            activeTasks := d.activeTasks - 1 }).scripts.get? id =
          some { script with tasks := kept ++ rest } := by
        cases task.target <;> simp [Deferred.finish, onCall, onRequest, onScript,
          IndexMap.get?_mapValues, hs]
      have hrest := ih (i := i + 1) hget rfl hfinish
      rwa [List.append_assoc] at hrest

theorem pollScript (hP : HarvestTracked making P) (polls : Polls V) (id : Text)
    {given : List (Given V)} (h : P given d) :
    P (given ++ d.foundIn polls id) (d.pollScript making polls id) := by
  unfold Deferred.pollScript foundIn
  cases hs : d.scripts.get? id with
  | none => simpa using h
  | some script => exact hP.retain id (hP.pollFrom (polls id) hs rfl h)

end HarvestTracked

theorem pollFrom_other (polled : Nat → Polled V) {k : Text} (hk : k ≠ id) {rest : List ScriptTask} :
    ∀ {i : Nat} {kept : List ScriptTask} {d : Deferred V},
      (d.pollFrom id polled i kept rest).scripts.get? k = d.scripts.get? k := by
  induction rest with
  | nil => intro i kept d; rfl
  | cons task rest ih =>
    intro i kept d
    unfold Deferred.pollFrom
    cases (polled i).outcome with
    | none => exact ih
    | some outcome =>
      refine ih.trans ?_
      cases task.target <;> simp [Deferred.finish, onCall, onRequest, onScript,
        IndexMap.get?_mapValues, hk]

theorem foundIn_pollScript (making : Option RequestId) (polls : Polls V) {k : Text} (hk : k ≠ id) :
    (d.pollScript making polls id).foundIn polls k = d.foundIn polls k := by
  have hget : (d.pollScript making polls id).scripts.get? k = d.scripts.get? k := by
    unfold Deferred.pollScript
    cases d.scripts.get? id with
    | none => rfl
    | some script =>
      dsimp only
      unfold retainGuards
      rw [get?_onScript, pollFrom_other _ hk]
      simp [hk]
  unfold foundIn
  rw [hget]

theorem HarvestTracked.harvest {making : Option RequestId} {P : List (Given V) → Deferred V → Prop}
    (hP : HarvestTracked making P) (polls : Polls V) {given : List (Given V)} (h : P given d) :
    P (given ++ d.found polls) (d.harvest making polls) := by
  have hscripts (ids : List Text) (hnodup : ids.Nodup) : ∀ {e : Deferred V} {given}, P given e →
      P (given ++ ids.flatMap (e.foundIn polls))
        (ids.foldl (fun e id => e.pollScript making polls id) e) := by
    induction ids with
    | nil =>
      intro e given h
      rwa [List.flatMap_nil, List.append_nil]
    | cons id ids ih =>
      intro e given h
      obtain ⟨hid, hnodup⟩ := List.nodup_cons.mp hnodup
      have hrest : ids.flatMap ((e.pollScript making polls id).foundIn polls) =
          ids.flatMap (e.foundIn polls) :=
        List.flatMap_congr fun k hk =>
          foundIn_pollScript making polls fun heq => hid (heq ▸ hk)
      have hids := ih hnodup (hP.pollScript polls id h)
      rwa [hrest, List.append_assoc, ← List.flatMap_cons] at hids
  unfold Deferred.harvest found
  split_ifs
  · rwa [List.append_nil]
  · exact hscripts _ d.scripts.nodup h

end Deferred

end RustTS.Runner
