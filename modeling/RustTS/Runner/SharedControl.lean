import RustTS.Lib.Interfered
import RustTS.Lib.Transition
import RustTS.Runner.Execution
import Mathlib.Tactic.SplitIfs

/-! The execution control between the engine's thread and those that request interrupts: the
methods as programs of atomic accesses, with requests and the clock's steps between any two. -/
namespace RustTS.Runner

/-- The control, the time it is, and when the operation under way first read the clock. -/
structure SharedControl where
  control : ExecutionControl
  now : Nat
  started : Option Nat
  deriving DecidableEq, Repr

namespace SharedControl

/-- An atomic load. -/
def load {A : Type} (field : ExecutionControl → A) : Accesses SharedControl A :=
  .once fun s => (field s.control, s)

/-- An atomic store. -/
def store (change : ExecutionControl → ExecutionControl) : Accesses SharedControl Unit :=
  .once fun s => ((), { s with control := change s.control })

/-- Reads the clock. -/
def elapsedNanos : Accesses SharedControl Nat :=
  .once fun s =>
    (ExecutionControl.elapsedNanos s.now, { s with started := s.started.or (some s.now) })

def startClock : Accesses SharedControl Unit := do
  if (← load (·.deadline)) ≠ pending then
    pure ()
  else
    let elapsed ← elapsedNanos
    let budget ← load (·.budget)
    let deadline := (checkedAdd elapsed budget).filter fun d => decide (d < pending)
    store fun c => { c with deadline := deadline.getD noDeadline }

def budgetExpired : Accesses SharedControl Bool := do
  let deadline ← load (·.deadline)
  if deadline = noDeadline ∨ deadline = pending then
    pure false
  else
    let elapsed ← elapsedNanos
    pure (decide (deadline ≤ elapsed))

/-- Whether JavaScript must stop: the deadline is not looked at once a request was seen. -/
def mustStop : Accesses SharedControl Bool := do
  if ← load (·.interruptRequested) then
    pure true
  else
    budgetExpired

def interrupted : Accesses SharedControl Bool := do
  startClock
  let stop ← mustStop
  if stop then
    store fun c => { c with stopped := true }
    pure stop
  else
    pure stop

def shouldStop : Accesses SharedControl Bool := do
  if ← load (·.interruptRequested) then
    pure true
  else
    load (·.stopped)

def enter (budget : Nat) : Accesses SharedControl Unit := do
  store fun c => { c with interruptRequested := false }
  store fun c => { c with stopped := false }
  if budget < pending then
    store fun c => { c with budget := budget }
    store fun c => { c with deadline := pending }
  else
    store fun c => { c with deadline := noDeadline }

def leave : Accesses SharedControl Unit :=
  store fun c => { c with deadline := noDeadline }

/-- What may happen at any moment: time passes, or another thread requests an interrupt. -/
inductive Others : SharedControl → SharedControl → Prop
  | elapse (s : SharedControl) (nanos : Nat) : Others s { s with now := s.now + nanos }
  | request (s : SharedControl) : Others s { s with control := s.control.requestInterrupt }

section Alone
variable (s : SharedControl)

theorem startClock_alone : (startClock.alone s).2.control = s.control.startClock s.now := by
  unfold startClock ExecutionControl.startClock load
  rw [Accesses.alone_bind, Accesses.alone_once]
  by_cases h : s.control.deadline = pending
  · rw [if_pos h, if_neg (not_not.mpr h)]
    rfl
  · rw [if_neg h, if_pos h]
    rfl

private theorem startClock_alone_now : (startClock.alone s).2.now = s.now := by
  unfold startClock load
  rw [Accesses.alone_bind, Accesses.alone_once]
  dsimp only
  split_ifs <;> rfl

private theorem budgetExpired_alone :
    (budgetExpired.alone s).1 = s.control.budgetExpired s.now ∧
      (budgetExpired.alone s).2.control = s.control := by
  unfold budgetExpired ExecutionControl.budgetExpired load
  rw [Accesses.alone_bind, Accesses.alone_once]
  dsimp only
  split_ifs with h
  · exact ⟨rfl, rfl⟩
  · exact ⟨rfl, rfl⟩

private theorem mustStop_alone :
    (mustStop.alone s).1 = (s.control.interruptRequested || s.control.budgetExpired s.now) ∧
      (mustStop.alone s).2.control = s.control := by
  unfold mustStop
  rw [Accesses.alone_bind, load, Accesses.alone_once]
  dsimp only
  split_ifs with h
  · rw [h]
    exact ⟨rfl, rfl⟩
  · rw [Bool.eq_false_iff.mpr h]
    exact budgetExpired_alone s

theorem interrupted_alone :
    ((interrupted.alone s).1, (interrupted.alone s).2.control) = s.control.interrupted s.now := by
  obtain ⟨hstop, hcontrol⟩ := mustStop_alone (startClock.alone s).2
  rw [startClock_alone, startClock_alone_now] at hstop
  rw [startClock_alone] at hcontrol
  unfold interrupted ExecutionControl.interrupted
  rw [Accesses.alone_bind, Accesses.alone_bind]
  dsimp only
  rw [← hstop, ← hcontrol]
  split_ifs <;> rfl

theorem shouldStop_alone : shouldStop.alone s = (s.control.shouldStop, s) := by
  unfold shouldStop ExecutionControl.shouldStop
  rw [Accesses.alone_bind, load, Accesses.alone_once]
  dsimp only
  split_ifs with h
  · rw [h]
    rfl
  · rw [Bool.eq_false_iff.mpr h]
    rfl

theorem enter_alone (budget : Nat) : ((enter budget).alone s).2.control = s.control.enter budget := by
  unfold enter ExecutionControl.enter
  rw [Accesses.alone_bind, Accesses.alone_bind]
  split_ifs <;> rfl

theorem leave_alone : (leave.alone s).2.control = s.control.leave := rfl

end Alone

/-- What calls other than `enter` and `interrupted` leave alone: the clock and requests only go on. -/
structure Frame (s t : SharedControl) : Prop where
  budget : t.control.budget = s.control.budget
  stopped : t.control.stopped = s.control.stopped
  now : s.now ≤ t.now
  requested : s.control.interruptRequested = true → t.control.interruptRequested = true

/-- What the others can do. -/
structure Later (s t : SharedControl) : Prop extends Frame s t where
  deadline : t.control.deadline = s.control.deadline
  started : t.started = s.started

section Later
variable {s t u : SharedControl}

theorem Frame.refl (s : SharedControl) : Frame s s := ⟨rfl, rfl, Nat.le_refl _, id⟩

theorem Frame.trans (h : Frame s t) (h' : Frame t u) : Frame s u :=
  ⟨h'.budget.trans h.budget, h'.stopped.trans h.stopped, Nat.le_trans h.now h'.now,
    h'.requested ∘ h.requested⟩

theorem Others.later (h : Others s t) : Later s t := by
  cases h with
  | elapse nanos => exact ⟨⟨rfl, rfl, Nat.le_add_right _ _, id⟩, rfl, rfl⟩
  | request => exact ⟨⟨rfl, rfl, Nat.le_refl _, fun _ => rfl⟩, rfl, rfl⟩

theorem later_of_others (h : Relation.ReflTransGen Others s t) : Later s t := by
  induction h with
  | refl => exact ⟨.refl s, rfl, rfl⟩
  | tail _ hstep ih =>
    have hlater := hstep.later
    exact ⟨ih.toFrame.trans hlater.toFrame, hlater.deadline.trans ih.deadline,
      hlater.started.trans ih.started⟩

end Later

/-- The deadline of a budget whose clock started at a time: none past the end of the range. -/
def deadlineFrom (started budget : Nat) : Nat :=
  if started + budget < pending then started + budget else noDeadline

private theorem u64Max_eq : u64Max = 18446744073709551615 := rfl

private theorem elapsedNanos_lt (now : Nat) : ExecutionControl.elapsedNanos now < pending ↔ now < pending := by
  unfold ExecutionControl.elapsedNanos noDeadline pending
  rw [u64Max_eq]
  split_ifs <;> omega

theorem elapsedNanos_of_lt {now : Nat} (h : now < pending) : ExecutionControl.elapsedNanos now = now := by
  unfold ExecutionControl.elapsedNanos
  unfold pending at h
  exact if_pos (by omega)

theorem stored_deadline (now budget : Nat) :
    ((checkedAdd (ExecutionControl.elapsedNanos now) budget).filter
      fun d => decide (d < pending)).getD noDeadline = deadlineFrom now budget := by
  unfold checkedAdd deadlineFrom
  by_cases hin : now + budget < pending
  · have hnow : ExecutionControl.elapsedNanos now = now := elapsedNanos_of_lt (by omega)
    have hmax : now + budget ≤ u64Max := by
      unfold pending at hin
      omega
    rw [hnow, if_pos hmax, if_pos hin, Option.filter_some, if_pos (decide_eq_true hin), Option.getD_some]
  · have hout : ¬ ExecutionControl.elapsedNanos now + budget < pending := by
      intro hsum
      have hnow := (elapsedNanos_lt now).mp (by omega)
      rw [elapsedNanos_of_lt hnow] at hsum
      exact hin hsum
    rw [if_neg hin]
    split_ifs with hmax
    · rw [Option.filter_some, decide_eq_false hout]
      rfl
    · rfl

theorem elapsedNanos_reaches {deadline now : Nat} (h : deadline < pending) :
    deadline ≤ ExecutionControl.elapsedNanos now ↔ deadline ≤ now := by
  unfold ExecutionControl.elapsedNanos noDeadline
  unfold pending at h
  split_ifs <;> omega

/-- The state of the clock between calls: `asked` is when the operation first called a method that
starts it. -/
inductive Clocked (asked : Option Nat) (s : SharedControl) : (operation : Option Nat) → Prop
  | idle (deadline : s.control.deadline = noDeadline) : Clocked asked s none
  | unlimited {budget : Nat} (large : pending ≤ budget) (deadline : s.control.deadline = noDeadline)
      (started : s.started = none) : Clocked asked s (some budget)
  | waiting {budget : Nat} (small : budget < pending) (unasked : asked = none)
      (deadline : s.control.deadline = pending) (held : s.control.budget = budget)
      (started : s.started = none) : Clocked asked s (some budget)
  | running {budget first start : Nat} (small : budget < pending) (called : asked = some first)
      (deadline : s.control.deadline = deadlineFrom start budget) (started : s.started = some start)
      (since : first ≤ start) (past : start ≤ s.now) : Clocked asked s (some budget)

/-- The budget of the operation is used up: its clock was started, and the budget has passed
since, within the range of times. -/
def Expired (operation started : Option Nat) (now : Nat) : Prop :=
  ∃ budget start, operation = some budget ∧ started = some start ∧ start + budget < pending ∧
    start + budget ≤ now

section Specs
variable {s t : SharedControl} {operation asked : Option Nat}

theorem noDeadline_ne_pending : noDeadline ≠ pending := by decide

theorem deadlineFrom_eq {start budget : Nat} (h : start + budget < pending) :
    deadlineFrom start budget = start + budget ∧ start + budget ≠ noDeadline ∧
      start + budget ≠ pending := by
  have hmax : pending < noDeadline := by decide
  exact ⟨if_pos h, by omega, by omega⟩

/-- The state of the clock is in these words and times. -/
theorem Clocked.same (h : Clocked asked s operation)
    (hdeadline : t.control.deadline = s.control.deadline)
    (hbudget : t.control.budget = s.control.budget) (hstarted : t.started = s.started)
    (hnow : s.now ≤ t.now) : Clocked asked t operation := by
  cases h with
  | idle deadline => exact .idle (hdeadline.trans deadline)
  | unlimited large deadline started =>
    exact .unlimited large (hdeadline.trans deadline) (hstarted.trans started)
  | waiting small unasked deadline held started =>
    exact .waiting small unasked (hdeadline.trans deadline) (hbudget.trans held)
      (hstarted.trans started)
  | running small called deadline started since past =>
    exact .running small called (hdeadline.trans deadline) (hstarted.trans started) since
      (Nat.le_trans past hnow)

theorem Clocked.later (h : Clocked asked s operation) (hlater : Later s t) :
    Clocked asked t operation :=
  h.same hlater.deadline hlater.budget hlater.started hlater.now

theorem Clocked.of_pending (h : Clocked asked s operation) (hdeadline : s.control.deadline = pending) :
    ∃ budget, operation = some budget ∧ budget < pending ∧ asked = none ∧
      s.control.budget = budget ∧ s.started = none := by
  cases h with
  | idle deadline => exact absurd (deadline.symm.trans hdeadline) noDeadline_ne_pending
  | unlimited _ deadline _ => exact absurd (deadline.symm.trans hdeadline) noDeadline_ne_pending
  | waiting small unasked _ held started => exact ⟨_, rfl, small, unasked, held, started⟩
  | running _ _ deadline _ _ _ =>
    rw [hdeadline] at deadline
    unfold deadlineFrom at deadline
    split_ifs at deadline with hin
    · omega
    · exact absurd deadline.symm noDeadline_ne_pending

private theorem Clocked.asked_or (h : Clocked asked s operation) (hdeadline : s.control.deadline ≠ pending)
    (now : Nat) : Clocked (asked.or (some now)) s operation := by
  cases h with
  | idle deadline => exact .idle deadline
  | unlimited large deadline started => exact .unlimited large deadline started
  | waiting _ _ deadline _ _ => exact absurd deadline hdeadline
  | running small called deadline started since past =>
    rw [called]
    exact .running small rfl deadline started since past

theorem startClock_spec (h : Clocked asked s operation) {first : Nat} (hfirst : first ≤ s.now) :
    startClock.wp Others
      (fun _ t => Clocked (asked.or (some first)) t operation ∧ Frame s t) s := by
  unfold startClock load
  rw [Accesses.wp_once_bind]
  intro t₁ h₁
  have hlater₁ := later_of_others h₁
  have hclock₁ := h.later hlater₁
  dsimp only
  by_cases hdeadline : t₁.control.deadline = pending
  · rw [if_neg (not_not.mpr hdeadline)]
    obtain ⟨budget, rfl, hsmall, rfl, hheld, hstarted⟩ := hclock₁.of_pending hdeadline
    intro t₂ h₂ t₃ h₃ t₄ h₄ t₅ h₅
    have hlater₂ := later_of_others h₂
    have hlater₃ := later_of_others h₃
    have hlater₄ := later_of_others h₄
    have hlater₅ := later_of_others h₅
    have hread : Frame t₂ t₃ := ⟨hlater₃.budget, hlater₃.stopped, hlater₃.now, hlater₃.requested⟩
    have hstore : Frame t₄ t₅ := ⟨hlater₅.budget, hlater₅.stopped, hlater₅.now, hlater₅.requested⟩
    have hframe₃ : Frame t₁ t₃ := hlater₂.toFrame.trans hread
    have hframe : Frame t₂ t₅ := hread.trans (hlater₄.toFrame.trans hstore)
    have hbudget : t₃.control.budget = budget := hframe₃.budget.trans hheld
    have hnone : t₂.started = none := hlater₂.started.trans hstarted
    have hsome : t₅.started = some t₂.now := by
      rw [hlater₅.started]
      show t₄.started = some t₂.now
      rw [hlater₄.started, hlater₃.started]
      show t₂.started.or (some t₂.now) = some t₂.now
      rw [hnone]
      rfl
    have hafter : t₅.control.deadline = deadlineFrom t₂.now budget := by
      rw [hlater₅.deadline, ← hbudget]
      exact stored_deadline t₂.now t₃.control.budget
    have hfirst₂ : first ≤ t₂.now :=
      Nat.le_trans hfirst (Nat.le_trans hlater₁.now hlater₂.now)
    constructor
    · exact .running hsmall rfl hafter hsome hfirst₂ hframe.now
    · exact hlater₁.toFrame.trans (hlater₂.toFrame.trans hframe)
  · rw [if_pos hdeadline]
    intro t₂ h₂
    have hlater₂ := later_of_others h₂
    refine ⟨(hclock₁.asked_or hdeadline first).later hlater₂, ?_⟩
    exact hlater₁.toFrame.trans hlater₂.toFrame

theorem Clocked.of_deadline (h : Clocked asked s operation)
    (hdeadline : ¬ (s.control.deadline = noDeadline ∨ s.control.deadline = pending)) :
    ∃ budget start, operation = some budget ∧ s.started = some start ∧ start + budget < pending ∧
      s.control.deadline = start + budget := by
  cases h with
  | idle deadline => exact absurd (.inl deadline) hdeadline
  | unlimited _ deadline _ => exact absurd (.inl deadline) hdeadline
  | waiting _ _ deadline _ _ => exact absurd (.inr deadline) hdeadline
  | @running budget first start _ _ deadline started _ _ =>
    unfold deadlineFrom at deadline
    split_ifs at deadline with hin
    · exact ⟨budget, start, rfl, started, hin, deadline⟩
    · exact absurd (.inl deadline) hdeadline

private theorem Clocked.of_started (h : Clocked asked s operation) {budget start : Nat}
    (hoperation : operation = some budget) (hstarted : s.started = some start)
    (hin : start + budget < pending) : s.control.deadline = start + budget := by
  cases h with
  | idle => cases hoperation
  | unlimited _ _ started => cases started.symm.trans hstarted
  | waiting _ _ _ _ started => cases started.symm.trans hstarted
  | running _ _ deadline started _ _ =>
    cases hoperation
    cases started.symm.trans hstarted
    exact deadline.trans (deadlineFrom_eq hin).1

theorem Clocked.expired_iff (h : Clocked asked s operation) (now : Nat) :
    Expired operation s.started now ↔
      ¬ (s.control.deadline = noDeadline ∨ s.control.deadline = pending) ∧
        s.control.deadline ≤ now := by
  constructor
  · intro ⟨budget, start, hoperation, hstarted, hin, hnow⟩
    obtain ⟨-, hlimit, hpending⟩ := deadlineFrom_eq hin
    rw [h.of_started hoperation hstarted hin]
    exact ⟨fun hs => hs.elim hlimit hpending, hnow⟩
  · intro ⟨hdeadline, hnow⟩
    obtain ⟨budget, start, hoperation, hstarted, hin, hword⟩ := h.of_deadline hdeadline
    rw [hword] at hnow
    exact ⟨budget, start, hoperation, hstarted, hin, hnow⟩

private theorem started_or {start : Nat} (h : s.started = some start) :
    { s with started := s.started.or (some s.now) } = s := by
  rw [h]
  cases s
  exact congrArg (SharedControl.mk _ _) h.symm

/-- `budget_expired` tells, of a moment during the call, whether the budget was used up then. -/
theorem budgetExpired_spec (h : Clocked asked s operation) :
    budgetExpired.wp Others (fun verdict t => Clocked asked t operation ∧ Frame s t ∧
      ∃ now, s.now ≤ now ∧ now ≤ t.now ∧ (verdict = true ↔ Expired operation t.started now)) s := by
  unfold budgetExpired load
  rw [Accesses.wp_once_bind]
  intro t₁ h₁
  have hlater₁ := later_of_others h₁
  dsimp only
  split_ifs with hdeadline
  · intro t₂ h₂
    have hlater₂ := later_of_others h₂
    have hframe := hlater₁.toFrame.trans hlater₂.toFrame
    have hclock₂ := (h.later hlater₁).later hlater₂
    refine ⟨hclock₂, hframe, t₂.now, hframe.now, Nat.le_refl _, ?_⟩
    rw [hclock₂.expired_iff, hlater₂.deadline]
    simp [hdeadline]
  · intro t₂ h₂ t₃ h₃
    have hlater₂ := later_of_others h₂
    have hclock₂ := (h.later hlater₁).later hlater₂
    have hdeadline₂ := hdeadline
    rw [← hlater₂.deadline] at hdeadline₂
    obtain ⟨budget, start, -, hstarted, hin, hword⟩ := hclock₂.of_deadline hdeadline₂
    have hlater₃ : Later t₂ t₃ := by
      have hlater := later_of_others h₃
      change Later { t₂ with started := t₂.started.or (some t₂.now) } t₃ at hlater
      rwa [started_or hstarted] at hlater
    have hframe := hlater₁.toFrame.trans hlater₂.toFrame
    refine ⟨hclock₂.later hlater₃, hframe.trans hlater₃.toFrame, t₂.now, hframe.now, hlater₃.now, ?_⟩
    have hreaches : start + budget ≤ ExecutionControl.elapsedNanos t₂.now ↔ start + budget ≤ t₂.now :=
      elapsedNanos_reaches hin
    rw [hlater₃.started, hclock₂.expired_iff, decide_eq_true_iff]
    show t₁.control.deadline ≤ ExecutionControl.elapsedNanos t₂.now ↔ _
    rw [← hlater₂.deadline, hword, hreaches, ← hword, and_iff_right hdeadline₂]

/-- What an interrupt check finds: it stops JavaScript when the budget was used up at a moment
during the check, and only then or for a request. -/
theorem mustStop_spec (h : Clocked asked s operation) :
    mustStop.wp Others (fun verdict t => Clocked asked t operation ∧ Frame s t ∧
      ∃ now, s.now ≤ now ∧ now ≤ t.now ∧ (Expired operation t.started now → verdict = true) ∧
        (verdict = true → t.control.interruptRequested = true ∨ Expired operation t.started now)) s := by
  unfold mustStop load
  rw [Accesses.wp_once_bind]
  intro t₁ h₁
  have hlater₁ := later_of_others h₁
  dsimp only
  split_ifs with hrequested
  · intro t₂ h₂
    have hlater₂ := later_of_others h₂
    have hframe := hlater₁.toFrame.trans hlater₂.toFrame
    exact ⟨(h.later hlater₁).later hlater₂, hframe, t₂.now, hframe.now, Nat.le_refl _, fun _ => rfl,
      fun _ => .inl (hlater₂.requested hrequested)⟩
  · apply Accesses.wp_mono (budgetExpired_spec (h.later hlater₁))
    intro verdict t ⟨hclock, hframe, now, hsince, hnow, hexpired⟩
    exact ⟨hclock, hlater₁.toFrame.trans hframe, now, Nat.le_trans hlater₁.now hsince, hnow,
      hexpired.mpr, fun hverdict => .inr (hexpired.mp hverdict)⟩

theorem interrupted_spec (h : Clocked asked s operation) {first : Nat} (hfirst : first ≤ s.now) :
    interrupted.wp Others (fun verdict t => Clocked (asked.or (some first)) t operation ∧
      t.control.budget = s.control.budget ∧
      (s.control.stopped = true ∨ verdict = true → t.control.stopped = true) ∧
      ∃ now, s.now ≤ now ∧ now ≤ t.now ∧ (Expired operation t.started now → verdict = true) ∧
        (verdict = true → t.control.interruptRequested = true ∨ Expired operation t.started now)) s := by
  unfold interrupted
  rw [Accesses.wp_bind]
  apply Accesses.wp_mono (startClock_spec h hfirst)
  intro _ t₁ ⟨hclock₁, hframe₁⟩
  rw [Accesses.wp_bind]
  apply Accesses.wp_mono (mustStop_spec hclock₁)
  intro verdict t₂ ⟨hclock₂, hframe₂, now, hsince, hnow, hstops, hfor⟩
  have hframe := hframe₁.trans hframe₂
  split_ifs with hverdict
  · intro t₃ h₃ t₄ h₄
    have hlater₃ := later_of_others h₃
    have hlater₄ := later_of_others h₄
    have hclock₄ : Clocked (asked.or (some first)) t₄ operation :=
      (hclock₂.later hlater₃).same hlater₄.deadline hlater₄.budget hlater₄.started hlater₄.now
    have hbudget : t₄.control.budget = t₂.control.budget := hlater₄.budget.trans hlater₃.budget
    have hstarted : t₄.started = t₂.started := hlater₄.started.trans hlater₃.started
    have hnow₄ : t₂.now ≤ t₄.now := Nat.le_trans hlater₃.now hlater₄.now
    refine ⟨hclock₄, hbudget.trans hframe.budget, fun _ => hlater₄.stopped, now,
      Nat.le_trans hframe₁.now hsince, Nat.le_trans hnow hnow₄, ?_, ?_⟩
    · exact fun _ => hverdict
    · intro htrue
      rw [hstarted]
      exact (hfor htrue).imp (hlater₄.requested ∘ hlater₃.requested) id
  · intro t₃ h₃
    have hlater₃ := later_of_others h₃
    refine ⟨hclock₂.later hlater₃, hlater₃.budget.trans hframe.budget, ?_, now,
      Nat.le_trans hframe₁.now hsince, Nat.le_trans hnow hlater₃.now, ?_, ?_⟩
    · intro hstopped
      rw [hlater₃.stopped, hframe.stopped]
      exact hstopped.resolve_right hverdict
    · rw [hlater₃.started]
      exact hstops
    · exact fun htrue => absurd htrue hverdict

theorem shouldStop_spec (h : Clocked asked s operation) :
    shouldStop.wp Others (fun verdict t => Clocked asked t operation ∧ Frame s t ∧
      (s.control.stopped = true → verdict = true)) s := by
  unfold shouldStop load
  rw [Accesses.wp_once_bind]
  intro t₁ h₁
  have hlater₁ := later_of_others h₁
  dsimp only
  split_ifs with hrequested
  · intro t₂ h₂
    have hlater₂ := later_of_others h₂
    exact ⟨(h.later hlater₁).later hlater₂, hlater₁.toFrame.trans hlater₂.toFrame, fun _ => rfl⟩
  · intro t₂ h₂ t₃ h₃
    have hlater₂ := later_of_others h₂
    have hlater₃ := later_of_others h₃
    have hframe := hlater₁.toFrame.trans hlater₂.toFrame
    refine ⟨((h.later hlater₁).later hlater₂).later hlater₃, hframe.trans hlater₃.toFrame, ?_⟩
    exact fun hstopped => hframe.stopped.trans hstopped

theorem enter_spec (hstarted : s.started = none) (hbudget : s.control.budget < pending) (budget : Nat) :
    (enter budget).wp Others
      (fun _ t => Clocked none t (some budget) ∧ t.control.budget < pending ∧ s.now ≤ t.now) s := by
  unfold enter store
  intro t₁ h₁ t₂ h₂
  have hlater₁ := later_of_others h₁
  have hlater₂ := later_of_others h₂
  have hstarted₂ : t₂.started = none := (hlater₂.started.trans hlater₁.started).trans hstarted
  have hbudget₂ : t₂.control.budget = s.control.budget := hlater₂.budget.trans hlater₁.budget
  have hnow₂ : s.now ≤ t₂.now := Nat.le_trans hlater₁.now hlater₂.now
  split_ifs with hsmall
  · intro t₃ h₃ t₄ h₄ t₅ h₅
    have hlater₃ := later_of_others h₃
    have hlater₄ := later_of_others h₄
    have hlater₅ := later_of_others h₅
    have hheld : t₅.control.budget = budget := hlater₅.budget.trans hlater₄.budget
    have hstarted : t₅.started = none :=
      hlater₅.started.trans (hlater₄.started.trans (hlater₃.started.trans hstarted₂))
    have hnow : t₂.now ≤ t₅.now :=
      Nat.le_trans hlater₃.now (Nat.le_trans hlater₄.now hlater₅.now)
    refine ⟨.waiting hsmall rfl hlater₅.deadline hheld hstarted, ?_, Nat.le_trans hnow₂ hnow⟩
    rw [hheld]
    exact hsmall
  · intro t₃ h₃ t₄ h₄
    have hlater₃ := later_of_others h₃
    have hlater₄ := later_of_others h₄
    have hheld : t₄.control.budget = t₂.control.budget := hlater₄.budget.trans hlater₃.budget
    have hstarted : t₄.started = none := hlater₄.started.trans (hlater₃.started.trans hstarted₂)
    have hnow : t₂.now ≤ t₄.now := Nat.le_trans hlater₃.now hlater₄.now
    refine ⟨.unlimited (by omega) hlater₄.deadline hstarted, ?_, Nat.le_trans hnow₂ hnow⟩
    rw [hheld, hbudget₂]
    exact hbudget

private theorem leave_spec :
    leave.wp Others (fun _ t => Clocked asked t none ∧ Frame s t) s := by
  intro t₁ h₁ t₂ h₂
  have hlater₁ := later_of_others h₁
  have hlater₂ := later_of_others h₂
  refine ⟨.idle hlater₂.deadline, hlater₁.toFrame.trans ?_⟩
  exact ⟨hlater₂.budget, hlater₂.stopped, hlater₂.now, hlater₂.requested⟩

end Specs

end SharedControl

/-- A call of the engine's thread; `leave` is the drop of the guard. -/
inductive ControlCall
  | enter (budget : Nat)
  | leave
  | startClock
  | interrupted
  | budgetExpired
  | shouldStop
  deriving DecidableEq, Repr

namespace ControlCall

/-- The program of a call, with its verdict if it has one. -/
def program : ControlCall → Accesses SharedControl (Option Bool)
  | .enter budget => do
    SharedControl.enter budget
    pure none
  | .leave => do
    SharedControl.leave
    pure none
  | .startClock => do
    SharedControl.startClock
    pure none
  | .interrupted => do
    let stop ← SharedControl.interrupted
    pure (some stop)
  | .budgetExpired => do
    let expired ← SharedControl.budgetExpired
    pure (some expired)
  | .shouldStop => do
    let stop ← SharedControl.shouldStop
    pure (some stop)

/-- The budget of the operation after a call. -/
def operation (before : Option Nat) : ControlCall → Option Nat
  | .enter budget => some budget
  | .leave => none
  | _ => before

/-- Whether a call's verdict is a check's that says to stop. -/
def tells (verdict : Option Bool) : ControlCall → Bool
  | .interrupted => verdict = some true
  | _ => false

end ControlCall

/-- The engine's thread, whose calls do not nest, and the others: the control, the call under way
with what is left of it and the time it began, the budget of the operation whose guard lives, when
the operation first called a method that starts the clock, and whether a check has said to stop
since an operation last began. -/
structure ControlRun where
  shared : SharedControl
  underWay : Option (ControlCall × Accesses SharedControl (Option Bool))
  began : Nat
  operation : Option Nat
  asked : Option Nat
  told : Bool

inductive ControlLabel
  | elapse (nanos : Nat)
  | request
  | call (call : ControlCall)
  | access
  | answer (verdict : Option Bool)
  deriving DecidableEq, Repr

namespace ControlRun

def new : ControlRun := ⟨⟨.default, 0, none⟩, none, 0, none, none, false⟩

/-- Operations do not nest. -/
def Allowed (s : ControlRun) : ControlCall → Bool
  | .enter _ => s.operation.isNone
  | .leave => s.operation.isSome
  | _ => true

def begin (s : ControlRun) (call : ControlCall) : ControlRun :=
  let s := { s with underWay := some (call, call.program), began := s.shared.now }
  match call with
  | .enter _ => { s with shared := { s.shared with started := none }, asked := none, told := false }
  | .startClock | .interrupted => { s with asked := s.asked.or (some s.shared.now) }
  | _ => s

def finish (s : ControlRun) (call : ControlCall) (verdict : Option Bool) : ControlRun :=
  { s with
    underWay := none
    operation := call.operation s.operation
    told := s.told || call.tells verdict }

inductive Step : ControlRun → ControlLabel → ControlRun → Prop
  | elapse {s : ControlRun} (nanos : Nat) :
      Step s (.elapse nanos) { s with shared := { s.shared with now := s.shared.now + nanos } }
  | request {s : ControlRun} :
      Step s .request { s with shared := { s.shared with control := s.shared.control.requestInterrupt } }
  | call {s : ControlRun} (call : ControlCall) (idle : s.underWay = none)
      (allowed : s.Allowed call = true) : Step s (.call call) (s.begin call)
  | access {s : ControlRun} {call : ControlCall} {R : Type} {act : SharedControl → R × SharedControl}
      {next : R → Accesses SharedControl (Option Bool)}
      (underWay : s.underWay = some (call, .access act next)) :
      Step s .access { s with
        shared := (act s.shared).2, underWay := some (call, next (act s.shared).1) }
  | answer {s : ControlRun} {call : ControlCall} {verdict : Option Bool}
      (underWay : s.underWay = some (call, .done verdict)) :
      Step s (.answer verdict) (s.finish call verdict)

/-- Between calls: the state of the clock, and a check that said to stop is remembered. -/
structure Ready (operation asked : Option Nat) (told : Bool) (s : SharedControl) : Prop where
  clock : SharedControl.Clocked asked s operation
  budget : s.control.budget < pending
  remembered : told = true → s.control.stopped = true

/-- What the verdict of a call that began at a time says, where it ends. -/
def Answers (operation : Option Nat) (told : Bool) (began : Nat) (s : SharedControl) :
    ControlCall → Option Bool → Prop
  | .budgetExpired, some verdict =>
    ∃ now, began ≤ now ∧ now ≤ s.now ∧
      (verdict = true ↔ SharedControl.Expired operation s.started now)
  | .interrupted, some verdict =>
    ∃ now, began ≤ now ∧ now ≤ s.now ∧
      (SharedControl.Expired operation s.started now → verdict = true) ∧
      (verdict = true → s.control.interruptRequested = true ∨
        SharedControl.Expired operation s.started now)
  | .shouldStop, some verdict => told = true → verdict = true
  | _, _ => True

/-- What a call under way ends in, whatever the others do. -/
def Ends (s : ControlRun) (call : ControlCall) (verdict : Option Bool) (t : SharedControl) : Prop :=
  Ready (call.operation s.operation) s.asked (s.told || call.tells verdict) t ∧
    Answers s.operation s.told s.began t call verdict

def Inv (s : ControlRun) : Prop :=
  match s.underWay with
  | none => Ready s.operation s.asked s.told s.shared
  | some (call, program) => program.wp SharedControl.Others (s.Ends call) s.shared

section Calls
variable {s : ControlRun}

theorem Ready.later {operation asked : Option Nat} {told : Bool} {s t : SharedControl}
    (h : Ready operation asked told s) (hlater : SharedControl.Later s t) :
    Ready operation asked told t := by
  refine ⟨h.clock.later hlater, ?_, fun htold => hlater.stopped.trans (h.remembered htold)⟩
  rw [hlater.budget]
  exact h.budget

theorem Ready.frame {operation asked : Option Nat} {told : Bool} {s t : SharedControl}
    (h : Ready operation asked told s) (hframe : SharedControl.Frame s t) {operation' asked' : Option Nat}
    (hclock : SharedControl.Clocked asked' t operation') : Ready operation' asked' told t := by
  refine ⟨hclock, ?_, fun htold => hframe.stopped.trans (h.remembered htold)⟩
  rw [hframe.budget]
  exact h.budget

private theorem begin_enter (h : Ready s.operation s.asked s.told s.shared) (budget : Nat) :
    (s.begin (.enter budget)).Inv := by
  have hspec := SharedControl.enter_spec (s := { s.shared with started := none }) rfl h.budget budget
  show Accesses.wp _ _ (SharedControl.enter budget >>= fun _ => pure none) _
  rw [Accesses.wp_bind]
  refine Accesses.wp_mono hspec ?_
  intro _ t ⟨hclock, hbudget, _⟩ u hu
  have hready : Ready (some budget) none false t := ⟨hclock, hbudget, nofun⟩
  exact ⟨hready.later (SharedControl.later_of_others hu), trivial⟩

private theorem begin_leave (h : Ready s.operation s.asked s.told s.shared) : (s.begin .leave).Inv := by
  have hspec := @SharedControl.leave_spec s.shared s.asked
  show Accesses.wp _ _ (SharedControl.leave >>= fun _ => pure none) _
  rw [Accesses.wp_bind]
  refine Accesses.wp_mono hspec ?_
  intro _ t ⟨hclock, hframe⟩ u hu
  have hready := (h.frame hframe hclock).later (SharedControl.later_of_others hu)
  rw [← s.told.or_false] at hready
  exact ⟨hready, trivial⟩

private theorem begin_startClock (h : Ready s.operation s.asked s.told s.shared) :
    (s.begin .startClock).Inv := by
  have hspec := SharedControl.startClock_spec h.clock (Nat.le_refl _)
  show Accesses.wp _ _ (SharedControl.startClock >>= fun _ => pure none) _
  rw [Accesses.wp_bind]
  refine Accesses.wp_mono hspec ?_
  intro _ t ⟨hclock, hframe⟩ u hu
  have hready := (h.frame hframe hclock).later (SharedControl.later_of_others hu)
  rw [← s.told.or_false] at hready
  exact ⟨hready, trivial⟩

theorem begin_interrupted (h : Ready s.operation s.asked s.told s.shared) :
    (s.begin .interrupted).Inv := by
  have hspec := SharedControl.interrupted_spec h.clock (Nat.le_refl _)
  show Accesses.wp _ _ (SharedControl.interrupted >>= fun stop => pure (some stop)) _
  rw [Accesses.wp_bind]
  refine Accesses.wp_mono hspec ?_
  intro stop t ⟨hclock, hbudget, hstopped, now, hbegan, hnow, hstops, hfor⟩ u hu
  have hlater := SharedControl.later_of_others hu
  have hready : Ready s.operation (s.asked.or (some s.shared.now)) (s.told || stop) t := by
    refine ⟨hclock, ?_, fun htold => hstopped ?_⟩
    · rw [hbudget]
      exact h.budget
    · exact (Bool.or_eq_true_iff.mp htold).imp h.remembered id
  have htells : ControlCall.interrupted.tells (some stop) = stop := by
    cases stop <;> rfl
  rw [← htells] at hready
  refine ⟨hready.later hlater, now, hbegan, Nat.le_trans hnow hlater.now, ?_, ?_⟩
  · rw [hlater.started]
    exact hstops
  · rw [hlater.started]
    exact fun hstop => (hfor hstop).imp hlater.requested id

theorem begin_budgetExpired (h : Ready s.operation s.asked s.told s.shared) :
    (s.begin .budgetExpired).Inv := by
  have hspec := SharedControl.budgetExpired_spec h.clock
  show Accesses.wp _ _ (SharedControl.budgetExpired >>= fun expired => pure (some expired)) _
  rw [Accesses.wp_bind]
  refine Accesses.wp_mono hspec ?_
  intro expired t ⟨hclock, hframe, now, hbegan, hnow, hexpired⟩ u hu
  have hlater := SharedControl.later_of_others hu
  have hready := (h.frame hframe hclock).later hlater
  rw [← s.told.or_false] at hready
  refine ⟨hready, now, hbegan, Nat.le_trans hnow hlater.now, ?_⟩
  rw [hlater.started]
  exact hexpired

private theorem begin_shouldStop (h : Ready s.operation s.asked s.told s.shared) :
    (s.begin .shouldStop).Inv := by
  have hspec := SharedControl.shouldStop_spec h.clock
  show Accesses.wp _ _ (SharedControl.shouldStop >>= fun stop => pure (some stop)) _
  rw [Accesses.wp_bind]
  refine Accesses.wp_mono hspec ?_
  intro stop t ⟨hclock, hframe, hstopped⟩ u hu
  have hready := (h.frame hframe hclock).later (SharedControl.later_of_others hu)
  rw [← s.told.or_false] at hready
  exact ⟨hready, hstopped ∘ h.remembered⟩

private theorem inv_begin (h : Ready s.operation s.asked s.told s.shared) (call : ControlCall) :
    (s.begin call).Inv := by
  cases call with
  | enter budget => exact begin_enter h budget
  | leave => exact begin_leave h
  | startClock => exact begin_startClock h
  | interrupted => exact begin_interrupted h
  | budgetExpired => exact begin_budgetExpired h
  | shouldStop => exact begin_shouldStop h

theorem inv_others {t : SharedControl} (h : s.Inv) (hothers : SharedControl.Others s.shared t) :
    Inv { s with shared := t } := by
  unfold Inv at h ⊢
  dsimp only
  cases hcall : s.underWay with
  | none =>
    rw [hcall] at h
    exact Ready.later h hothers.later
  | some underWay =>
    rw [hcall] at h
    exact Accesses.wp_others h (.single hothers)

theorem inv_step : Transition.Preserves Step Inv := by
  intro s label t h hstep
  cases hstep with
  | elapse nanos => exact inv_others h (.elapse s.shared nanos)
  | request => exact inv_others h (.request s.shared)
  | call call idle _ =>
    unfold Inv at h
    rw [idle] at h
    exact inv_begin h call
  | access underWay =>
    unfold Inv at h
    rw [underWay] at h
    exact Accesses.wp_access h
  | answer underWay =>
    unfold Inv at h
    rw [underWay] at h
    exact (Accesses.wp_done h).1

theorem inv_run {labels : List ControlLabel} (h : Transition.Run Step new labels s) : s.Inv :=
  h.invariant inv_step ⟨.idle rfl, by decide, nofun⟩

theorem Ready.started {operation asked : Option Nat} {told : Bool} {s : SharedControl}
    (h : Ready operation asked told s) {budget first : Nat} (hoperation : operation = some budget)
    (hsmall : budget < pending) (hasked : asked = some first) :
    ∃ start, s.started = some start ∧ first ≤ start ∧ start ≤ s.now := by
  cases h.clock with
  | idle => cases hoperation
  | unlimited large _ _ =>
    cases hoperation
    omega
  | waiting _ unasked _ _ _ => cases unasked.symm.trans hasked
  | running _ called _ started since past =>
    cases called.symm.trans hasked
    exact ⟨_, started, since, past⟩

theorem Ready.budgetExpired {operation asked : Option Nat} {told : Bool} {s : SharedControl}
    (h : Ready operation asked told s) (now : Nat) :
    s.control.budgetExpired now = true ↔ SharedControl.Expired operation s.started now := by
  rw [h.clock.expired_iff]
  unfold ExecutionControl.budgetExpired
  split_ifs with hdeadline
  · simp [hdeadline]
  · obtain ⟨budget, start, -, -, hin, hword⟩ := h.clock.of_deadline hdeadline
    rw [decide_eq_true_iff, hword, SharedControl.elapsedNanos_reaches hin]
    simp [← hword, hdeadline]

private theorem expired_in_range {operation started : Option Nat} {now : Nat} (h : now < pending) :
    SharedControl.Expired operation started now ↔ ∃ budget start, operation = some budget ∧
      started = some start ∧ start + budget ≤ now := by
  constructor
  · intro ⟨budget, start, hoperation, hstarted, _, hnow⟩
    exact ⟨budget, start, hoperation, hstarted, hnow⟩
  · intro ⟨budget, start, hoperation, hstarted, hnow⟩
    exact ⟨budget, start, hoperation, hstarted, by omega, hnow⟩

/-- An interrupt check stops an operation that has used up its budget at a moment during the check,
and one that is not to be interrupted for nothing else. -/
theorem check_verdict {labels : List ControlLabel} (h : Transition.Run Step new labels s) {stop : Bool}
    (hcall : s.underWay = some (.interrupted, .done (some stop))) :
    ∃ now, s.began ≤ now ∧ now ≤ s.shared.now ∧
      (SharedControl.Expired s.operation s.shared.started now → stop = true) ∧
      (stop = true → s.shared.control.interruptRequested = true ∨
        SharedControl.Expired s.operation s.shared.started now) := by
  have hinv := inv_run h
  unfold Inv at hinv
  rw [hcall] at hinv
  exact (Accesses.wp_done hinv).2

/-- **The execution budget.** In any run of calls, with the others' requests and the clock's steps
anywhere: `budget_expired` says, of a moment during the call, whether an operation is under way
whose clock was started its budget before; so would it at any time between calls. Past the end of
the range of times a deadline that is not in it never expires. The clock of a limited budget starts
in the first call that may start it. Once a check has said to stop, `should_stop` says so until an
operation begins. -/
theorem budget_law {labels : List ControlLabel} (h : Transition.Run Step new labels s) :
    (∀ expired, s.underWay = some (.budgetExpired, .done (some expired)) →
      ∃ now, s.began ≤ now ∧ now ≤ s.shared.now ∧
        (expired = true ↔ SharedControl.Expired s.operation s.shared.started now)) ∧
    (s.underWay = none → ∀ now, s.shared.control.budgetExpired now = true ↔
      SharedControl.Expired s.operation s.shared.started now) ∧
    (∀ now, now < pending → (SharedControl.Expired s.operation s.shared.started now ↔
      ∃ budget start, s.operation = some budget ∧ s.shared.started = some start ∧
        start + budget ≤ now)) ∧
    (s.underWay = none → ∀ budget first, s.operation = some budget → budget < pending →
      s.asked = some first →
        ∃ start, s.shared.started = some start ∧ first ≤ start ∧ start ≤ s.shared.now) ∧
    ∀ stop, s.underWay = some (.shouldStop, .done (some stop)) → s.told = true → stop = true := by
  have hinv := inv_run h
  unfold Inv at hinv
  refine ⟨fun expired hcall => ?_, fun hidle => ?_, fun now hnow => expired_in_range hnow,
    fun hidle budget first hoperation hsmall hasked => ?_, fun stop hcall => ?_⟩
  · rw [hcall] at hinv
    exact (Accesses.wp_done hinv).2
  · rw [hidle] at hinv
    exact Ready.budgetExpired hinv
  · rw [hidle] at hinv
    exact Ready.started hinv hoperation hsmall hasked
  · rw [hcall] at hinv
    exact (Accesses.wp_done hinv).2

/-- A budget of 5 whose clock starts at 3, and a request, looked at when it is 8. -/
theorem budget_law_expired :
    ∃ s : ControlRun, ∃ labels, Transition.Run Step new labels s ∧
      s.underWay = some (.budgetExpired, .done (some true)) ∧ s.operation = some 5 ∧
      s.shared.started = some 3 ∧ SharedControl.Expired s.operation s.shared.started 8 := by
  have henter : Transition.Run Step new [.call (.enter 5), .access, .access, .access, .access,
      .answer none] _ :=
    .cons (.call _ rfl rfl) (.cons (.access rfl) (.cons (.access rfl) (.cons (.access rfl)
      (.cons (.access rfl) (.single (.answer rfl))))))
  have hstart : Transition.Run Step new _ _ :=
    henter.append (.cons (.elapse 3) (.cons (.call .startClock rfl rfl) (.cons (.access rfl)
      (.cons (.access rfl) (.cons .request (.cons (.access rfl) (.cons (.access rfl)
        (.single (.answer rfl)))))))))
  have hcheck : Transition.Run Step new _ _ :=
    hstart.append (.cons (.elapse 5) (.cons (.call .budgetExpired rfl rfl) (.cons (.access rfl)
      (.single (.access rfl)))))
  obtain ⟨now, hbegan, hnow, hexpired⟩ := (budget_law hcheck).1 true rfl
  have height : now = 8 := Nat.le_antisymm hnow hbegan
  rw [height] at hexpired
  exact ⟨_, _, hcheck, rfl, rfl, rfl, hexpired.mp rfl⟩

end Calls

end ControlRun
end RustTS.Runner
