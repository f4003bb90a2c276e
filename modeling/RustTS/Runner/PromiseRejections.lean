import RustTS.Runner.Settle

/-! Promise rejections that no handler caught, reported when an operation ends: each operation reports
its own, and the first of them. -/
namespace RustTS.Runner

variable {P α : Type} [DecidableEq P]

structure Rejection (P : Type) where
  promise : P
  details : String
  deriving DecidableEq, Repr

/-- The rejections without a handler, in the order in which they happened. -/
abbrev UnhandledRejections (P : Type) := List (Rejection P)

namespace UnhandledRejections

/-- What the tracker does when QuickJS reports a rejection, or a handler of one. -/
def track (tracked : UnhandledRejections P) (promise : P) (reason : String) (isHandled : Bool) :
    UnhandledRejections P :=
  if isHandled then tracked.filter fun rejection => decide (rejection.promise ≠ promise)
  else tracked ++ [⟨promise, reason⟩]

/-- Stops tracking a Promise, whose rejection the caller reports itself. -/
def forget (tracked : UnhandledRejections P) (promise : P) : UnhandledRejections P :=
  tracked.filter fun rejection => decide (rejection.promise ≠ promise)

/-- The first rejection still unhandled; it clears them all. -/
def take (tracked : UnhandledRejections P) : Option VmError × UnhandledRejections P :=
  (tracked.head?.map fun rejection =>
    .execution ("unhandled promise rejection: " ++ rejection.details), [])

end UnhandledRejections

/-- What the tracker hears of while an operation runs. -/
inductive RejectionEvent (P : Type)
  | reported (promise : P) (reason : String) (isHandled : Bool)
  | forgotten (promise : P)
  deriving DecidableEq, Repr

namespace RejectionEvent

def next (tracked : UnhandledRejections P) : RejectionEvent P → UnhandledRejections P
  | .reported promise reason isHandled => tracked.track promise reason isHandled
  | .forgotten promise => tracked.forget promise

/-- A handler of the Promise, or that its rejection is reported otherwise. -/
def answers (promise : P) : RejectionEvent P → Bool
  | .reported other _ isHandled => isHandled && decide (promise = other)
  | .forgotten other => decide (promise = other)

end RejectionEvent

/-- The rejections that nothing after them answers. -/
def unanswered : List (RejectionEvent P) → List (Rejection P)
  | [] => []
  | .reported promise reason false :: later =>
    if later.any (·.answers promise) then unanswered later else ⟨promise, reason⟩ :: unanswered later
  | _ :: later => unanswered later

/-- What is tracked after some events: what they do not answer of before, and of their own. -/
theorem foldl_next (events : List (RejectionEvent P)) (tracked : UnhandledRejections P) :
    events.foldl RejectionEvent.next tracked =
      (tracked.filter fun rejection => !events.any (·.answers rejection.promise)) ++
        unanswered events := by
  induction events generalizing tracked with
  | nil =>
    have hall : (tracked.filter fun _ => true) = tracked := List.filter_eq_self.mpr fun _ _ => rfl
    simp [unanswered, hall]
  | cons event later ih =>
    rw [List.foldl_cons, ih]
    have hremoved (promise : P) : (tracked.filter fun rejection =>
          decide (rejection.promise ≠ promise)).filter
            (fun rejection => !later.any (·.answers rejection.promise)) =
        tracked.filter fun rejection =>
          !(decide (rejection.promise = promise) || later.any (·.answers rejection.promise)) := by
      rw [List.filter_filter]
      refine List.filter_congr fun rejection _ => ?_
      by_cases hsame : rejection.promise = promise <;> simp [hsame]
    cases event with
    | forgotten promise =>
      rw [RejectionEvent.next, UnhandledRejections.forget, hremoved]
      rfl
    | reported promise reason isHandled =>
      cases isHandled with
      | true =>
        rw [RejectionEvent.next, UnhandledRejections.track, if_pos rfl, hremoved]
        rfl
      | false =>
        rw [RejectionEvent.next, UnhandledRejections.track, if_neg Bool.false_ne_true,
          List.filter_append, List.append_assoc]
        refine congrArg₂ (· ++ ·) rfl ?_
        by_cases hanswered : later.any (·.answers promise) = true
        · simp [unanswered, hanswered]
        · simp [unanswered, hanswered]

/-- Each rejection that the events report is answered by a later one. -/
def AllAnswered (events : List (RejectionEvent P)) : Prop :=
  ∀ before promise reason later, events = before ++ .reported promise reason false :: later →
    later.any (·.answers promise) = true

theorem allAnswered_cons {event : RejectionEvent P} {later : List (RejectionEvent P)} :
    AllAnswered (event :: later) ↔ AllAnswered later ∧
      ∀ promise reason, event = .reported promise reason false →
        later.any (·.answers promise) = true := by
  constructor
  · intro h
    refine ⟨fun before promise reason rest heq => ?_, fun promise reason heq => ?_⟩
    · exact h (event :: before) promise reason rest (by rw [heq, List.cons_append])
    · exact h [] promise reason later (by rw [heq, List.nil_append])
  · rintro ⟨hlater, hevent⟩ before promise reason rest heq
    cases before with
    | nil =>
      obtain ⟨hfirst, rfl⟩ := List.cons.inj heq
      exact hevent promise reason hfirst
    | cons first before =>
      exact hlater before promise reason rest (List.cons.inj heq).2

theorem unanswered_eq_nil {events : List (RejectionEvent P)} :
    unanswered events = [] ↔ AllAnswered events := by
  induction events with
  | nil => simp [unanswered, AllAnswered]
  | cons event later ih =>
    rw [allAnswered_cons, ← ih]
    cases event with
    | forgotten promise => simp [unanswered]
    | reported promise reason isHandled =>
      cases isHandled with
      | true => simp [unanswered]
      | false =>
        by_cases hanswered : later.any (·.answers promise) = true
        · rw [unanswered, if_pos hanswered]
          refine ⟨fun h => ⟨h, fun promise' reason' heq => ?_⟩, And.left⟩
          obtain ⟨rfl, -, -⟩ := RejectionEvent.reported.inj heq
          exact hanswered
        · rw [unanswered, if_neg hanswered]
          exact iff_of_false (List.cons_ne_nil _ _) fun h => hanswered (h.2 promise reason rfl)

/-- A rejection that nothing answers, while those before it are answered. -/
def FirstUnanswered (events : List (RejectionEvent P)) (rejection : Rejection P) : Prop :=
  ∃ before later,
    events = before ++ .reported rejection.promise rejection.details false :: later ∧
    later.any (·.answers rejection.promise) = false ∧
    ∀ earlier promise reason between,
      before = earlier ++ .reported promise reason false :: between →
      (between ++ .reported rejection.promise rejection.details false :: later).any
        (·.answers promise) = true

theorem unanswered_cons {events : List (RejectionEvent P)} {rejection : Rejection P}
    {rest : List (Rejection P)} (h : unanswered events = rejection :: rest) :
    FirstUnanswered events rejection := by
  induction events with
  | nil => cases h
  | cons event events ih =>
    have hlater (heq : unanswered events = rejection :: rest)
        (hevent : ∀ promise reason, event = .reported promise reason false →
          events.any (·.answers promise) = true) : FirstUnanswered (event :: events) rejection := by
      obtain ⟨before, later, rfl, hnot, hearlier⟩ := ih heq
      refine ⟨event :: before, later, rfl, hnot, fun earlier promise reason between hbefore => ?_⟩
      cases earlier with
      | nil =>
        obtain ⟨hfirst, rfl⟩ := List.cons.inj hbefore
        exact hevent promise reason hfirst
      | cons first earlier =>
        exact hearlier earlier promise reason between (List.cons.inj hbefore).2
    cases event with
    | forgotten promise => exact hlater h (by simp)
    | reported promise reason isHandled =>
      cases isHandled with
      | true => exact hlater h (by simp)
      | false =>
        by_cases hanswered : events.any (·.answers promise) = true
        · have heq : unanswered events = rejection :: rest := by simpa [unanswered, hanswered] using h
          refine hlater heq fun promise' reason' hevent => ?_
          obtain ⟨rfl, -, -⟩ := RejectionEvent.reported.inj hevent
          exact hanswered
        · have heq : (⟨promise, reason⟩ : Rejection P) :: unanswered events = rejection :: rest := by
            simpa [unanswered, hanswered] using h
          obtain ⟨rfl, -⟩ := List.cons.inj heq
          refine ⟨[], events, rfl, Bool.eq_false_iff.mpr hanswered, ?_⟩
          intro earlier promise' reason' between hbefore
          cases earlier <;> cases hbefore

/-- An operation up to its end: what the tracker hears of while it runs, and what settling finds but
for the rejections. -/
structure EndedOperation (P α : Type) where
  events : List (RejectionEvent P)
  control : ExecutionControl
  found : Settling
  result : Except VmError α

namespace EndedOperation

/-- What settling finds, with the rejections that are tracked. -/
def settling (op : EndedOperation P α) (tracked : UnhandledRejections P) : Settling :=
  { op.found with unhandled := (op.events.foldl RejectionEvent.next tracked).take.1 }

/-- How the operation ends, and the rejections that it leaves. -/
def settled (op : EndedOperation P α) (tracked : UnhandledRejections P) :
    Outcome α × UnhandledRejections P :=
  (attributeInterrupt op.control (settle op.control (op.settling tracked) op.result),
    (op.events.foldl RejectionEvent.next tracked).take.2)

/-- How operations end, one after another. -/
def outcomes (tracked : UnhandledRejections P) : List (EndedOperation P α) → List (Outcome α)
  | [] => []
  | op :: ops => (op.settled tracked).1 :: outcomes (op.settled tracked).2 ops

private theorem outcomes_eq (ops : List (EndedOperation P α)) :
    outcomes [] ops = ops.map fun op => (op.settled []).1 := by
  induction ops with
  | nil => rfl
  | cons op ops ih => exact congrArg _ ih

private theorem settling_unhandled (op : EndedOperation P α) :
    (op.settling []).unhandled = (unanswered op.events).head?.map fun rejection =>
      .execution ("unhandled promise rejection: " ++ rejection.details) := by
  simp [settling, UnhandledRejections.take, foldl_next]

/-- In every run of operations, each reports the rejections that happened in it and no others: it
succeeds exactly when it gave a value, nothing else failed, and each rejection was answered before its
end; and if only rejections were not, the first of these is its error. -/
theorem rejections_reported (ops : List (EndedOperation P α)) (n : Nat) (op : EndedOperation P α)
    (hop : ops[n]? = some op) : ∃ outcome, (outcomes [] ops)[n]? = some outcome ∧
      (∀ value, outcome = .ok value ↔ op.result = .ok value ∧ op.found.panicked = false ∧
        op.found.jobError = none ∧ op.control.budgetExpired op.found.now = false ∧
        AllAnswered op.events) ∧
      ((∃ value, op.result = .ok value) → op.found.panicked = false → op.found.jobError = none →
        op.control.budgetExpired op.found.now = false → ¬ AllAnswered op.events →
        ∃ rejection, FirstUnanswered op.events rejection ∧
          outcome = .err (if op.control.interruptRequested then .interrupted else
            op.found.reported
              (.execution ("unhandled promise rejection: " ++ rejection.details)))) := by
  have hunhandled := op.settling_unhandled
  refine ⟨(op.settled []).1, ?_, fun value => ?_, ?_⟩
  · rw [outcomes_eq, List.getElem?_map, hop]
    rfl
  · have herror : (op.settling []).error op.control = none ↔ op.found.jobError = none ∧
        op.control.budgetExpired op.found.now = false ∧ AllAnswered op.events := by
      rw [← unanswered_eq_nil]
      unfold Settling.error
      rw [hunhandled]
      show (op.found.jobError.or (if op.control.budgetExpired op.found.now then _ else _)).or _ =
        none ↔ _
      cases op.found.jobError <;> cases op.control.budgetExpired op.found.now <;> simp
    refine attributeInterrupt_settle_eq_ok.trans ?_
    rw [herror]
    exact Iff.rfl
  · rintro ⟨value, hvalue⟩ hpanicked hjob hbudget hnot
    cases hfirst : unanswered op.events with
    | nil => exact absurd (unanswered_eq_nil.mp hfirst) hnot
    | cons rejection rest =>
      refine ⟨rejection, unanswered_cons hfirst, ?_⟩
      have herror : (op.settling []).error op.control =
          some (.execution ("unhandled promise rejection: " ++ rejection.details)) := by
        unfold Settling.error
        rw [hunhandled, hfirst]
        show (op.found.jobError.or (if op.control.budgetExpired op.found.now then _ else _)).or _ = _
        rw [hjob, hbudget]
        rfl
      have hsettled : settle op.control (op.settling []) op.result =
          .err (op.found.reported
            (.execution ("unhandled promise rejection: " ++ rejection.details))) := by
        unfold settle
        rw [hvalue]
        have hno : (op.settling []).panicked = false := hpanicked
        rw [hno, if_neg Bool.false_ne_true, herror]
        rfl
      show attributeInterrupt op.control (settle op.control (op.settling []) op.result) = _
      rw [hsettled]
      rfl

/-- A Promise is rejected in one operation, and gets its handler in the next. -/
def handledLate : List (EndedOperation Nat Nat) :=
  [⟨[.reported 0 "a" false], .default, .quiet, .ok 1⟩,
    ⟨[.reported 0 "a" true], .default, .quiet, .ok 2⟩]

/-- The first operation fails, and the next does not. -/
theorem rejections_reported_handledLate :
    (outcomes [] handledLate)[0]? = some (.err (.execution "unhandled promise rejection: a")) ∧
      (outcomes [] handledLate)[1]? = some (.ok 2) := by
  obtain ⟨first, hfirst, -, hrejected⟩ := rejections_reported handledLate 0 _ rfl
  obtain ⟨second, hsecond, hok, -⟩ := rejections_reported handledLate 1 _ rfl
  have hnot : ¬ AllAnswered [RejectionEvent.reported 0 "a" false] := fun h => by
    have hnil := unanswered_eq_nil.mpr h
    cases hnil
  refine ⟨?_, ?_⟩
  · obtain ⟨rejection, ⟨before, later, hevents, -, -⟩, herror⟩ :=
      hrejected ⟨1, rfl⟩ rfl rfl rfl hnot
    have hdetails : rejection.details = "a" := by
      cases before with
      | nil => exact (RejectionEvent.reported.inj (List.cons.inj hevents).1).2.1.symm
      | cons event before => simp at hevents
    rw [hfirst, herror, hdetails]
    rfl
  · rw [hsecond, (hok 2).mpr ⟨rfl, rfl, rfl, rfl, unanswered_eq_nil.mp rfl⟩]

end EndedOperation

end RustTS.Runner
