import RustTS.Lib.Binary64

/-! Script timers (`setTimeout`, `setInterval`) on a clock the host advances. Each version keeps
its own in its prelude, with the least due time the engine was told; the engine keeps a time no
later than any of those. Times are milliseconds, and no time is negative or NaN: the delay
`Math.max(0, Number(delay) || 0)` is not, and no other time is written. -/
namespace RustTS.Runner
open Binary64

structure Timer where
  id : Nat
  due : Double
  interval : Option Double
  cancelled : Bool
  deriving DecidableEq

/-- A timer that was neither cleared nor has finished. -/
def Timer.Live (timer : Timer) : Prop := timer.cancelled = false

/-- The timers of one version: those in creation order, the ids that `clearTimeout` finds, and
`NextTimer`, the cell that `schedule` writes. -/
structure Timers where
  live : List Timer
  byId : List Nat
  nextTimerId : Nat
  earliest : Double
  finished : Nat
  nextTimer : Double

/-- A version as it starts, with no timer. -/
def Timers.fresh : Timers := ⟨[], [], 1, ⊤, 0, ⊤⟩

/-- `EarliestDue::lower`. -/
def lower (earliestTimer due : Double) : Double := if due < earliestTimer then due else earliestTimer

/-- The timers of a version and the engine's `EarliestDue`, which its prelude writes together. -/
structure Scheduled where
  timers : Timers
  earliestTimer : Double

namespace Scheduled

/-- The hook that records the due time of the version's earliest timer. -/
def schedule (due : Double) (s : Scheduled) : Scheduled :=
  ⟨{ s.timers with nextTimer := due }, lower s.earliestTimer due⟩

def reschedule (s : Scheduled) : Scheduled :=
  let due := s.timers.live.foldl (fun due timer =>
    if !timer.cancelled && timer.due < due then timer.due else due) ⊤
  schedule due { s with timers := { s.timers with earliest := due } }

/-- `setTimeout` and `setInterval` with a callback, at engine time `now`. -/
def addTimer (now wait : Double) (repeats : Bool) (s : Scheduled) : Scheduled :=
  let t := s.timers
  let timer : Timer := ⟨t.nextTimerId, add now wait, if repeats then some wait else none, false⟩
  let s := { s with timers :=
    { t with
      live := t.live ++ [timer]
      byId := timer.id :: t.byId
      nextTimerId := t.nextTimerId + 1 } }
  if timer.due < s.timers.earliest then
    schedule timer.due { s with timers := { s.timers with earliest := timer.due } }
  else s

/-- Writes to the timer object with id `id`, which `live` holds as long as it is not cancelled. -/
def modify (id : Nat) (f : Timer → Timer) (live : List Timer) : List Timer :=
  live.map fun timer => if timer.id = id then f timer else timer

def retire (id : Nat) (t : Timers) : Timers :=
  { t with
    live := modify id (fun timer => { timer with cancelled := true }) t.live
    byId := t.byId.filter (· ≠ id)
    finished := t.finished + 1 }

/-- `clearTimeout` and `clearInterval`; a value that is no timer's id finds nothing. -/
def clearTimer (id : Nat) (s : Scheduled) : Scheduled :=
  match s.timers.live.find? fun timer => timer.id = id ∧ id ∈ s.timers.byId with
  | none => s
  | some timer =>
    let s := { s with timers := retire id s.timers }
    if timer.due = s.timers.earliest then s.reschedule else s

/-- The timers due at `time`, in due order, then creation order, as `runTimers` collects them. -/
def dueAt (time : Double) (t : Timers) : List Nat :=
  ((t.live.filter fun timer => !(timer.cancelled || time < timer.due)).mergeSort
    fun left right => left.due < right.due ∨ left.due = right.due ∧ left.id ≤ right.id).map (·.id)

/-- What `fire` does before it calls the timer's callback, and whether it calls it: a callback
that ran before may have cleared the timer. -/
def fire (id : Nat) (t : Timers) : Option Timers :=
  match t.live.find? (·.id = id) with
  | none => none
  | some timer =>
    if timer.cancelled then none
    else match timer.interval with
      | none => some (retire id t)
      | some interval =>
        some { t with
          live := modify id (fun timer => { timer with due := add timer.due interval }) t.live }

/-- Drops the cancelled timers, once a run is over. -/
def sweep (t : Timers) : Timers :=
  if 0 < t.finished then { t with live := t.live.filter (!·.cancelled), finished := 0 } else t

/-- The end of `runTimers`, when every due timer has been fired. -/
def endRun (s : Scheduled) : Scheduled := reschedule { s with timers := sweep s.timers }

end Scheduled

/-- What a script can ask of its timers. -/
inductive TimerCall
  | set (wait : Double) (repeats : Bool)
  | clear (id : Nat)

def TimerCall.run (now : Double) (s : Scheduled) : TimerCall → Scheduled
  | .set wait repeats => s.addTimer now wait repeats
  | .clear id => s.clearTimer id

/-- The due time a version recorded is the one its prelude keeps, and not past that of any live
timer. -/
structure Timers.Recorded (t : Timers) : Prop where
  cell : t.nextTimer = t.earliest
  notPast : ∀ timer ∈ t.live, timer.Live → t.nextTimer ≤ timer.due

theorem Timers.fresh_recorded : Timers.fresh.Recorded := ⟨rfl, nofun⟩

/-- What every prelude function keeps: the engine's time only falls, and stays below the due time
the version recorded. -/
structure Scheduled.Keeps (s s' : Scheduled) : Prop where
  recorded : s'.timers.Recorded
  lowered : s'.earliestTimer ≤ s.earliestTimer
  below : s.earliestTimer ≤ s.timers.nextTimer → s'.earliestTimer ≤ s'.timers.nextTimer

theorem lower_le (earliestTimer due : Double) : lower earliestTimer due ≤ earliestTimer := by
  unfold lower
  split_ifs with h
  · exact h.le
  · exact le_rfl

theorem lower_le_due (earliestTimer due : Double) : lower earliestTimer due ≤ due := by
  unfold lower
  split_ifs with h
  · exact le_rfl
  · exact not_lt.mp h

namespace Scheduled

/-- The least due time of the live timers, as `reschedule` finds it. -/
theorem foldl_due_le (live : List Timer) (due : Double) :
    let least := live.foldl (fun due timer =>
      if !timer.cancelled && timer.due < due then timer.due else due) due
    least ≤ due ∧ ∀ timer ∈ live, timer.Live → least ≤ timer.due := by
  induction live generalizing due with
  | nil => exact ⟨le_rfl, nofun⟩
  | cons timer live ih =>
    have hstep : (if !timer.cancelled && timer.due < due then timer.due else due) ≤ due ∧
        (timer.Live → (if !timer.cancelled && timer.due < due then timer.due else due) ≤
          timer.due) := by
      unfold Timer.Live
      split_ifs with h
      · rw [Bool.and_eq_true, decide_eq_true_eq] at h
        exact ⟨h.2.le, fun _ => le_rfl⟩
      · refine ⟨le_rfl, fun hlive => ?_⟩
        rw [hlive] at h
        simpa using h
    obtain ⟨hle, hall⟩ := ih (if !timer.cancelled && timer.due < due then timer.due else due)
    refine ⟨hle.trans hstep.1, fun t ht hlive => ?_⟩
    rcases List.mem_cons.mp ht with rfl | ht
    · exact hle.trans (hstep.2 hlive)
    · exact hall t ht hlive

theorem reschedule_keeps (s : Scheduled) : s.Keeps s.reschedule where
  recorded := ⟨rfl, (foldl_due_le s.timers.live ⊤).2⟩
  lowered := lower_le _ _
  below _ := lower_le_due _ _

variable {s s' s'' : Scheduled}

theorem Keeps.trans (h : s.Keeps s') (h' : s'.Keeps s'') : s.Keeps s'' where
  recorded := h'.recorded
  lowered := h'.lowered.trans h.lowered
  below hs := h'.below (h.below hs)

/-- Only the timers change, and every live one was there, or is due no earlier. -/
theorem Keeps.of_timers {t : Timers} (h : s.timers.Recorded) (hnext : t.nextTimer = s.timers.nextTimer)
    (hearliest : t.earliest = s.timers.earliest)
    (hlive : ∀ timer ∈ t.live, timer.Live →
      ∃ old ∈ s.timers.live, old.Live ∧ old.due ≤ timer.due) : s.Keeps { s with timers := t } where
  recorded := by
    refine ⟨hnext.trans (h.cell.trans hearliest.symm), fun timer ht hl => ?_⟩
    obtain ⟨old, hold, holdLive, hdue⟩ := hlive timer ht hl
    show t.nextTimer ≤ timer.due
    rw [hnext]
    exact (h.notPast old hold holdLive).trans hdue
  lowered := le_rfl
  below hs := by
    show s.earliestTimer ≤ t.nextTimer
    rwa [hnext]

theorem addTimer_keeps (h : s.timers.Recorded) (now wait : Double) (repeats : Bool) :
    s.Keeps (s.addTimer now wait repeats) := by
  unfold addTimer
  dsimp only
  split_ifs with hdue
  all_goals first
    | refine ⟨⟨rfl, fun timer ht hl => ?_⟩, lower_le _ _, fun _ => lower_le_due _ _⟩
      rw [← h.cell] at hdue
      rcases List.mem_append.mp ht with ht | ht
      · exact hdue.le.trans (h.notPast timer ht hl)
      · rw [List.mem_singleton.mp ht]
        exact le_rfl
    | refine ⟨⟨h.cell, fun timer ht hl => ?_⟩, le_rfl, id⟩
      rw [← h.cell] at hdue
      rcases List.mem_append.mp ht with ht | ht
      · exact h.notPast timer ht hl
      · rw [List.mem_singleton.mp ht]
        exact not_lt.mp hdue

theorem modify_live {id : Nat} {f : Timer → Timer} (hf : ∀ timer, (f timer).Live → timer.Live)
    (hdue : ∀ timer, timer.due ≤ (f timer).due) {live : List Timer} :
    ∀ timer ∈ modify id f live, timer.Live →
      ∃ old ∈ live, old.Live ∧ old.due ≤ timer.due := by
  intro timer ht hlive
  obtain ⟨old, hold, rfl⟩ := List.mem_map.mp ht
  split_ifs at hlive ⊢
  · exact ⟨old, hold, hf old hlive, hdue old⟩
  · exact ⟨old, hold, hlive, le_rfl⟩

theorem retire_keeps (h : s.timers.Recorded) (id : Nat) :
    s.Keeps { s with timers := retire id s.timers } := by
  refine Keeps.of_timers h rfl rfl ?_
  apply modify_live
  · intro timer hlive
    cases hlive
  · exact fun timer => le_rfl

private theorem clearTimer_keeps (h : s.timers.Recorded) (id : Nat) : s.Keeps (s.clearTimer id) := by
  unfold clearTimer
  split
  · exact ⟨h, le_rfl, fun hs => hs⟩
  · have hretired := retire_keeps h id
    dsimp only
    split_ifs
    · exact hretired.trans (reschedule_keeps _)
    · exact hretired

theorem fire_keeps (h : s.timers.Recorded) {id : Nat} {t : Timers} (hf : fire id s.timers = some t) :
    s.Keeps { s with timers := t } := by
  unfold fire at hf
  split at hf
  · cases hf
  · next timer hfind =>
    split_ifs at hf
    split at hf
    · cases hf
      exact retire_keeps h id
    · next interval hinterval =>
      cases hf
      refine Keeps.of_timers h rfl rfl ?_
      apply modify_live
      · exact fun timer hlive => hlive
      · exact fun timer => le_add _ _

theorem endRun_keeps (h : s.timers.Recorded) : s.Keeps s.endRun := by
  have hsweep : s.Keeps { s with timers := sweep s.timers } := by
    unfold sweep
    split_ifs
    · refine Keeps.of_timers h rfl rfl ?_
      intro timer ht hlive
      exact ⟨timer, (List.mem_filter.mp ht).1, hlive, le_rfl⟩
    · exact ⟨h, le_rfl, fun hs => hs⟩
  exact hsweep.trans (reschedule_keeps _)

end Scheduled

theorem TimerCall.run_keeps {s : Scheduled} (h : s.timers.Recorded) (now : Double)
    (call : TimerCall) : s.Keeps (call.run now s) := by
  cases call with
  | set wait repeats => exact Scheduled.addTimer_keeps h now wait repeats
  | clear id => exact Scheduled.clearTimer_keeps h id

end RustTS.Runner
