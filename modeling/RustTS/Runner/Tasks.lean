import Mathlib.Data.List.GetD
import RustTS.Error
import RustTS.Runner.ModuleLoader.Graph

/-! Results of JavaScript operations that stay suspended between host calls: the handle the
host polls, and the replies of a request that still waits for some of its handlers. -/
namespace RustTS.Runner
open ModuleLoader

/-- A handle, which all its clones share; `taken` tells whether a `take` gave its result. -/
structure PendingCall (R : Type) where
  result : Option (Except VmError R)
  taken : Bool

namespace PendingCall

variable {R : Type}

def new : PendingCall R := ⟨none, false⟩

def complete (value : Except VmError R) (c : PendingCall R) : PendingCall R :=
  { c with result := c.result.or (some value) }

def isFinished (c : PendingCall R) : Bool := c.result.isSome

def take (c : PendingCall R) : Option (Except VmError R) × PendingCall R :=
  (c.result, ⟨none, c.taken || c.result.isSome⟩)

/-- A result that was taken is gone for good. -/
def YieldsOnce (c : PendingCall R) : Prop := c.taken = true → c.result = none

@[simp] theorem complete_taken (value : Except VmError R) (c : PendingCall R) :
    (c.complete value).taken = c.taken := rfl

@[simp] theorem complete_isSome (value : Except VmError R) (c : PendingCall R) :
    (c.complete value).result.isSome = true := by
  cases h : c.result <;> simp [complete, h]

theorem YieldsOnce.take {c : PendingCall R} : c.take.2.YieldsOnce := fun _ => rfl

theorem yieldsOnce_complete {value : Except VmError R} {c : PendingCall R} :
    (c.complete value).YieldsOnce ↔ c.taken = false := by
  unfold YieldsOnce
  have hs := c.complete_isSome value
  rw [complete_taken]
  cases c.taken with
  | false => simp
  | true => simpa using fun h => by simp [h] at hs

end PendingCall

/-- `RequestResults`: the handle of a request and a slot for each reply, in delivery order. -/
structure RequestResults (V : Type) where
  handle : PendingCall (List (Text × V))
  replies : List (Option (Except VmError (Text × V)))
  active : Bool
  finished : Bool

namespace RequestResults

variable {V : Type}

def new : RequestResults V := ⟨.new, [], false, false⟩

/-- What a request publishes once no slot is empty: the replies, or the first error. -/
def publish : List (Option (Except VmError (Text × V))) → Except VmError (List (Text × V))
  | [] => .ok []
  | none :: slots => publish slots
  | some (.error error) :: _ => .error error
  | some (.ok reply) :: slots => (publish slots).map (reply :: ·)

/-- Whether some handler's reply is still missing. -/
def waits (q : RequestResults V) : Bool := q.replies.any Option.isNone

def completeIfReady (q : RequestResults V) : RequestResults V :=
  if q.finished || !q.active || q.waits then q
  else { q with
    handle := q.handle.complete (publish q.replies)
    replies := []
    active := false
    finished := true }

/-- Reserves the slot of one handler's reply. -/
def reserve (q : RequestResults V) : RequestResults V := { q with replies := q.replies ++ [none] }

def record (slot : Nat) (result : Except VmError (Text × V)) (q : RequestResults V) :
    RequestResults V :=
  { q with replies := q.replies.set slot (some result) }.completeIfReady

def fail (error : VmError) (q : RequestResults V) : RequestResults V :=
  { q with replies := q.replies ++ [some (Except.error error)] }.completeIfReady

def activate (q : RequestResults V) : RequestResults V :=
  { q with active := true }.completeIfReady

/-- `RequestLifetime::cancel`. -/
def cancel (q : RequestResults V) : RequestResults V :=
  if q.finished then q
  else { q with finished := true, handle := q.handle.complete (.error .cancelled) }

/-- What a task that drops does to the handle of its request. -/
def dropTask (q : RequestResults V) : RequestResults V :=
  { q with handle := q.handle.complete (.error .cancelled) }

/-- Whether the request waits for the reply of the slot. -/
def Empty (q : RequestResults V) (slot : Nat) : Prop := q.replies[slot]? = some none

theorem waits_iff {q : RequestResults V} : q.waits = true ↔ ∃ slot, q.Empty slot := by
  simp only [waits, Empty, List.any_eq_true, Option.isNone_iff_eq_none]
  constructor
  · rintro ⟨_, hmem, rfl⟩
    exact List.getElem?_of_mem hmem
  · rintro ⟨slot, hslot⟩
    exact ⟨none, List.mem_of_getElem? hslot, rfl⟩

/-- A request that has not finished waits for some reply, and one that has gave its handle a
result. -/
structure Sound (q : RequestResults V) : Prop where
  waits : q.active = true → q.finished = false → q.waits = true
  published : q.finished = true → q.handle.result.isSome = true ∨ q.handle.taken = true
  unfinished : q.finished = false → q.handle.result = none ∧ q.handle.taken = false

theorem sound_new : (RequestResults.new : RequestResults V).Sound :=
  ⟨nofun, nofun, fun _ => ⟨rfl, rfl⟩⟩

theorem completeIfReady_cases (q : RequestResults V) :
    (q.completeIfReady = q ∧ (q.finished = true ∨ q.active = false ∨ q.waits = true)) ∨
      (q.finished = false ∧ q.waits = false ∧
        q.completeIfReady = ⟨q.handle.complete (publish q.replies), [], false, true⟩) := by
  unfold completeIfReady
  cases hf : q.finished <;> cases ha : q.active <;> cases hw : q.waits <;> simp

theorem Sound.completeIfReady {q : RequestResults V}
    (hp : q.finished = true → q.handle.result.isSome = true ∨ q.handle.taken = true)
    (hu : q.finished = false → q.handle.result = none ∧ q.handle.taken = false) :
    q.completeIfReady.Sound := by
  obtain ⟨heq, hcase⟩ | ⟨-, -, heq⟩ := q.completeIfReady_cases
  · rw [heq]
    refine ⟨fun ha hf => ?_, hp, hu⟩
    obtain hf' | ha' | hw := hcase
    · simp [hf] at hf'
    · simp [ha] at ha'
    · exact hw
  · rw [heq]
    exact ⟨nofun, fun _ => .inl (by simp), nofun⟩

variable {q : RequestResults V}

theorem Sound.record (h : q.Sound) (slot : Nat) (result : Except VmError (Text × V)) :
    (q.record slot result).Sound :=
  Sound.completeIfReady (q := { q with replies := q.replies.set slot (some result) })
    h.published h.unfinished

theorem Sound.fail (h : q.Sound) (error : VmError) : (q.fail error).Sound :=
  Sound.completeIfReady (q := { q with replies := q.replies ++ [some (.error error)] })
    h.published h.unfinished

theorem Sound.activate (h : q.Sound) : q.activate.Sound :=
  Sound.completeIfReady (q := { q with active := true }) h.published h.unfinished

theorem Sound.reserve (h : q.Sound) : q.reserve.Sound :=
  ⟨fun _ _ => by simp [RequestResults.waits, RequestResults.reserve], h.published, h.unfinished⟩

theorem Sound.cancel (h : q.Sound) : q.cancel.Sound := by
  unfold RequestResults.cancel
  split_ifs with hf
  · exact h
  · exact ⟨nofun, fun _ => .inl (by simp), nofun⟩

theorem cancel_finished (q : RequestResults V) : q.cancel.finished = true := by
  unfold RequestResults.cancel
  split_ifs with hf
  · exact hf
  · rfl

theorem Sound.dropTask (h : q.Sound) (hf : q.finished = true) : q.dropTask.Sound :=
  ⟨fun ha hf' => h.waits ha hf', fun _ => .inl (by simp [RequestResults.dropTask]),
    fun hf' => by simp [RequestResults.dropTask, hf] at hf'⟩

theorem Sound.take (h : q.Sound) : ({ q with handle := q.handle.take.2 } : RequestResults V).Sound :=
  ⟨h.waits, fun hf => .inr (by
    have := h.published hf
    cases ht : q.handle.taken <;> simp_all [PendingCall.take]), fun hf => by
    obtain ⟨hr, ht⟩ := h.unfinished hf
    simp [PendingCall.take, hr, ht]⟩

theorem completeIfReady_finished (h : q.completeIfReady.finished = false) :
    q.finished = false := by
  obtain ⟨heq, -⟩ | ⟨hf, -⟩ := q.completeIfReady_cases
  · rwa [heq] at h
  · exact hf

theorem completeIfReady_taken (q : RequestResults V) :
    q.completeIfReady.handle.taken = q.handle.taken := by
  obtain ⟨heq, -⟩ | ⟨-, -, heq⟩ := q.completeIfReady_cases <;> rw [heq]
  rfl

theorem completeIfReady_active (h : q.completeIfReady.active = true) : q.active = true := by
  obtain ⟨heq, -⟩ | ⟨-, -, heq⟩ := q.completeIfReady_cases
  · rwa [heq] at h
  · simp [heq] at h

theorem completeIfReady_of_empty {slot : Nat} (h : q.Empty slot) : q.completeIfReady = q := by
  obtain ⟨heq, -⟩ | ⟨-, hw, -⟩ := q.completeIfReady_cases
  · exact heq
  · simp [waits_iff.mpr ⟨slot, h⟩] at hw

theorem completeIfReady_empty {slot : Nat} : q.completeIfReady.Empty slot ↔ q.Empty slot := by
  constructor
  · intro h
    obtain ⟨heq, -⟩ | ⟨-, -, heq⟩ := q.completeIfReady_cases
    · rwa [heq] at h
    · simp [heq, Empty] at h
  · intro h
    rwa [completeIfReady_of_empty h]

theorem record_empty {slot k : Nat} {result : Except VmError (Text × V)} :
    (q.record slot result).Empty k ↔ q.Empty k ∧ k ≠ slot := by
  unfold record
  rw [completeIfReady_empty]
  simp only [Empty, List.getElem?_set]
  split_ifs with hk hlt
  · simp [hk]
  · simp [hk]
  · simp [Ne.symm hk]

theorem fail_empty {k : Nat} {error : VmError} : (q.fail error).Empty k ↔ q.Empty k := by
  unfold fail
  rw [completeIfReady_empty]
  simp only [Empty, List.getElem?_append]
  split_ifs with hk
  · rfl
  · have hnone : q.replies[k]? = none := List.getElem?_eq_none (Nat.not_lt.mp hk)
    cases hn : k - q.replies.length <;> simp [hnone]

theorem activate_empty {k : Nat} : q.activate.Empty k ↔ q.Empty k :=
  completeIfReady_empty (q := { q with active := true })

theorem reserve_empty {k : Nat} : q.reserve.Empty k ↔ q.Empty k ∨ k = q.replies.length := by
  simp only [Empty, reserve, List.getElem?_append]
  split_ifs with hk
  · simp [Nat.ne_of_lt hk]
  · have hnone : q.replies[k]? = none := List.getElem?_eq_none (Nat.not_lt.mp hk)
    cases hn : k - q.replies.length with
    | zero => simp [hnone]; omega
    | succ n => simp [hnone]; omega

theorem cancel_empty {k : Nat} : q.cancel.Empty k ↔ q.Empty k := by
  unfold cancel
  split_ifs <;> rfl

end RequestResults

end RustTS.Runner
