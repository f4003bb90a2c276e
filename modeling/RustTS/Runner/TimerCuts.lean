import RustTS.Lib.Interruptible
import RustTS.Lib.Transition
import RustTS.Runner.AdvanceTimers

/-! The prelude's timer functions, each function call of which may be cut by an interrupt or an
exhausted budget, and the engine that runs them. -/
namespace RustTS.Runner
open Binary64

/-- The functions that the timer code calls. QuickJS looks for interrupts at each call, before the
function is entered. -/
inductive Callee
  | runTimers
  | addTimer
  | number
  | max
  | now
  | livePush
  | byIdSet
  | schedule
  | byIdGet
  | retire
  | byIdDelete
  | reschedule
  | duePush
  | sort
  | fire
  | callback
  deriving DecidableEq, Repr

/-- The timers of one version: the objects made so far, by their ids, those in the array `live`
and in the Map `byId`, and `NextTimer`, the cell that `schedule` writes. -/
structure PreludeTimers where
  objects : Nat → Timer
  live : List Nat
  byId : List Nat
  nextTimerId : Nat
  earliest : Double
  finished : Nat
  failed : Bool
  nextTimer : Double

namespace PreludeTimers

/-- A version as it starts, with no timer. -/
def fresh : PreludeTimers := ⟨fun id => ⟨id, ⊤, none, true⟩, [], [], 1, ⊤, 0, false, ⊤⟩

def setObject (id : Nat) (timer : Timer) (t : PreludeTimers) : PreludeTimers :=
  { t with objects := Function.update t.objects id timer }

/-- The least due time of the live timers, as the loop of `reschedule` finds it. -/
def leastDue (t : PreludeTimers) : Double :=
  (t.live.map t.objects).foldl (fun due timer =>
    if !timer.cancelled && timer.due < due then timer.due else due) ⊤

/-- The timers due at `time`, in creation order, as the loop of `runTimers` collects them. -/
def collect (time : Double) (t : PreludeTimers) : List Nat :=
  t.live.filter fun id => !((t.objects id).cancelled || time < (t.objects id).due)

/-- `due.sort`, by due time and then creation. -/
def sortDue (t : PreludeTimers) (due : List Nat) : List Nat :=
  due.mergeSort fun left right =>
    (t.objects left).due < (t.objects right).due ∨
      (t.objects left).due = (t.objects right).due ∧ left ≤ right

/-- Drops the cancelled timers. -/
def sweep (t : PreludeTimers) : PreludeTimers :=
  if 0 < t.finished then
    { t with live := t.live.filter fun id => !(t.objects id).cancelled, finished := 0 }
  else t

end PreludeTimers

/-- What the prelude functions of a version read and write: its timers, and the engine's
`EarliestDue`. -/
structure PreludeState where
  timers : PreludeTimers
  earliestTimer : Double

/-- A prelude function. -/
abbrev PreludeRun (A : Type) := Interruptible Callee PreludeState A

namespace Prelude
open Interruptible

def onTimers (f : PreludeTimers → PreludeTimers) : PreludeRun Unit :=
  modify fun s => { s with timers := f s.timers }

/-- The hook that records the due time of the version's earliest timer. -/
def schedule (due : Double) : PreludeRun Unit := do
  check .schedule
  modify fun s => ⟨{ s.timers with nextTimer := due }, lower s.earliestTimer due⟩

def reschedule : PreludeRun Unit := do
  check .reschedule
  let s ← get
  let due := s.timers.leastDue
  onTimers fun t => { t with earliest := due }
  schedule due

/-- `setTimeout` and `setInterval` with a callback, at engine time `clock`; `wait` is what
`Math.max(0, Number(delay) || 0)` is. -/
def addTimer (clock wait : Double) (repeats : Bool) : PreludeRun Nat := do
  check .addTimer
  check .number
  check .max
  let s ← get
  let id := s.timers.nextTimerId
  onTimers fun t => { t with nextTimerId := t.nextTimerId + 1 }
  check .now
  let due := add clock wait
  onTimers fun t => t.setObject id ⟨id, due, if repeats then some wait else none, false⟩
  check .livePush
  onTimers fun t => { t with live := t.live ++ [id] }
  check .byIdSet
  onTimers fun t => { t with byId := id :: t.byId }
  let s ← get
  if due < s.timers.earliest then do
    onTimers fun t => { t with earliest := due }
    schedule due
    pure id
  else pure id

def retire (id : Nat) : PreludeRun Unit := do
  check .retire
  onTimers fun t => t.setObject id { t.objects id with cancelled := true }
  check .byIdDelete
  onTimers fun t => { t with byId := t.byId.filter (· ≠ id), finished := t.finished + 1 }

/-- `clearTimeout` and `clearInterval`; a value that is no timer's id finds nothing. -/
def clearTimer (id : Nat) : PreludeRun Unit := do
  check .byIdGet
  let s ← get
  if id ∈ s.timers.byId then do
    retire id
    let s ← get
    if (s.timers.objects id).due = s.timers.earliest then reschedule else pure ()
  else pure ()

/-- What `fire` does up to the callback, and whether it enters it: a callback that ran before may
have cleared the timer. -/
def fire (id : Nat) : PreludeRun Bool := do
  check .fire
  let s ← get
  let timer := s.timers.objects id
  if timer.cancelled then pure false
  else do
    match timer.interval with
    | none => retire id
    | some interval =>
      onTimers fun t => t.setObject id { t.objects id with due := add timer.due interval }
    check .callback
    pure true

/-- A callback threw. -/
def caught (t : PreludeTimers) : PreludeTimers := { t with failed := true }

/-- The start of `runTimers`: the timers to fire, if any. The sort calls its comparison, which
changes nothing. -/
def beginRun (time : Double) : PreludeRun (List Nat) := do
  check .runTimers
  let s ← get
  let due := s.timers.collect time
  if due = [] then do
    reschedule
    pure []
  else do
    if 2 < due.length then check .duePush else pure ()
    onTimers fun t => { t with failed := false }
    if 1 < due.length then check .sort else pure ()
    pure (s.timers.sortDue due)

/-- The end of `runTimers`, when every due timer has been fired, and whether it throws. -/
def endRun : PreludeRun Bool := do
  onTimers PreludeTimers.sweep
  reschedule
  let s ← get
  onTimers fun t => { t with failed := false }
  pure s.timers.failed

/-- A call of one of the timer functions. -/
def call (clock : Double) : TimerCall → PreludeRun Unit
  | .set wait repeats => do
    let _ ← addTimer clock wait repeats
    pure ()
  | .clear id => clearTimer id

end Prelude

/-- The cell of a version is not past the least due time its prelude keeps, which is not past that
of any live timer. -/
structure PreludeTimers.Kept (t : PreludeTimers) : Prop where
  cell : t.nextTimer ≤ t.earliest
  notPast : ∀ id ∈ t.live, (t.objects id).Live → t.earliest ≤ (t.objects id).due
  known : ∀ id ∈ t.live, id < t.nextTimerId

namespace PreludeTimers
variable {t t' : PreludeTimers} {id : Nat}

theorem fresh_kept : fresh.Kept := ⟨le_rfl, nofun, nofun⟩

/-- The timer is live, and due at `now`. -/
def Waits (t : PreludeTimers) (id : Nat) (now : Double) : Prop :=
  id ∈ t.live ∧ (t.objects id).Live ∧ (t.objects id).due ≤ now

/-- The timer was cleared, or has finished. -/
def Retired (t : PreludeTimers) (id : Nat) : Prop :=
  id < t.nextTimerId ∧ (t.objects id).cancelled = true

/-- A timer that waits does so afterwards, unless it is retired, which it stays. -/
def Carries (t t' : PreludeTimers) (id : Nat) : Prop :=
  (∀ now, t.Waits id now → t'.Waits id now ∨ t'.Retired id) ∧ (t.Retired id → t'.Retired id)

theorem Carries.refl (t : PreludeTimers) (id : Nat) : t.Carries t id :=
  ⟨fun _ h => .inl h, fun h => h⟩

theorem Carries.trans {t'' : PreludeTimers} (h : t.Carries t' id) (h' : t'.Carries t'' id) :
    t.Carries t'' id := by
  refine ⟨fun now hw => ?_, fun hr => h'.2 (h.2 hr)⟩
  rcases h.1 now hw with hw | hr
  · exact h'.1 now hw
  · exact .inr (h'.2 hr)

theorem Carries.of_frame (hknown : ∀ id ∈ t.live, id < t.nextTimerId)
    (hobject : id < t.nextTimerId → t'.objects id = t.objects id)
    (hlive : id ∈ t.live → (t.objects id).Live → id ∈ t'.live)
    (hnext : t.nextTimerId ≤ t'.nextTimerId) : t.Carries t' id := by
  constructor
  · intro now ⟨hmem, hl, hdue⟩
    have hobj := hobject (hknown id hmem)
    exact .inl ⟨hlive hmem hl, by rwa [hobj], by rwa [hobj]⟩
  · intro ⟨hlt, hcancelled⟩
    exact ⟨hlt.trans_le hnext, by rwa [hobject hlt]⟩

theorem le_leastDue {due : Double} (h : ∀ id ∈ t.live, (t.objects id).Live → due ≤ (t.objects id).due) :
    due ≤ t.leastDue := by
  have hall : ∀ (timers : List Timer) (least : Double), due ≤ least →
      (∀ timer ∈ timers, timer.Live → due ≤ timer.due) →
        due ≤ timers.foldl (fun due timer =>
          if !timer.cancelled && timer.due < due then timer.due else due) least := by
    intro timers
    induction timers with
    | nil => exact fun least hleast _ => hleast
    | cons timer timers ih =>
      intro least hleast htimers
      apply ih
      · dsimp only
        split_ifs with hless
        · rw [Bool.and_eq_true, Bool.not_eq_true'] at hless
          exact htimers timer List.mem_cons_self hless.1
        · exact hleast
      · exact fun other hother => htimers other (List.mem_cons_of_mem _ hother)
  apply hall _ _ le_top
  intro timer htimer hlive
  obtain ⟨id, hid, rfl⟩ := List.mem_map.mp htimer
  exact h id hid hlive

private theorem leastDue_le (hid : id ∈ t.live) (hlive : (t.objects id).Live) :
    t.leastDue ≤ (t.objects id).due :=
  (Scheduled.foldl_due_le (t.live.map t.objects) ⊤).2 _ (List.mem_map_of_mem hid) hlive

theorem Kept.cancel {t : PreludeTimers} (h : t.Kept) (id : Nat) :
    (t.setObject id { t.objects id with cancelled := true }).Kept where
  cell := h.cell
  notPast other hother hlive := by
    have hne : other ≠ id := by
      rintro rfl
      simp [setObject, Timer.Live] at hlive
    simp only [setObject, Function.update_of_ne hne] at hlive ⊢
    exact h.notPast other hother hlive
  known := h.known

theorem Kept.carries_cancel {t : PreludeTimers} (h : t.Kept) (id other : Nat) :
    t.Carries (t.setObject id { t.objects id with cancelled := true }) other := by
  by_cases hother : other = id
  · subst hother
    constructor
    · intro now ⟨hmem, _, _⟩
      exact .inr ⟨h.known other hmem, by simp [setObject]⟩
    · intro ⟨hlt, _⟩
      exact ⟨hlt, by simp [setObject]⟩
  · refine Carries.of_frame h.known (fun _ => ?_) (fun hid _ => hid) le_rfl
    simp [setObject, hother]

/-- The timer is listed, and what is live is still due no earlier than `earliest`. -/
theorem Kept.list {t : PreludeTimers} (h : t.Kept) {timer : Timer} {earliest nextTimer : Double}
    (byId : List Nat) (hcell : nextTimer ≤ earliest) (hearliest : earliest ≤ t.earliest)
    (hdue : earliest ≤ timer.due) :
    Kept
      { t with
        objects := Function.update t.objects t.nextTimerId timer
        live := t.live ++ [t.nextTimerId]
        byId := byId
        nextTimerId := t.nextTimerId + 1
        earliest := earliest
        nextTimer := nextTimer } where
  cell := hcell
  notPast id hid hlive := by
    by_cases hnew : id = t.nextTimerId
    · subst hnew
      simpa using hdue
    · have hold : id ∈ t.live := by simpa [hnew] using hid
      simp only [Function.update_of_ne hnew] at hlive ⊢
      exact hearliest.trans (h.notPast id hold hlive)
  known id hid := by
    rcases List.mem_append.mp hid with hid | hid
    · have hlt := h.known id hid
      show id < t.nextTimerId + 1
      omega
    · have heq : id = t.nextTimerId := by simpa using hid
      show id < t.nextTimerId + 1
      omega

/-- A call that is cut once its timer is listed, and that lost no timer then. -/
structure SparesSet (t : PreludeTimers) (due : Double) (cut : Option Callee) : Prop where
  listed : cut = some .byIdSet → t.earliest ≤ due
  told : cut = some .schedule → t.nextTimer ≤ due

end PreludeTimers

/-- What the prelude functions keep, whether they are cut or not: the engine's time only falls, and
stays below the due time the version recorded; the timers that `P` is about are carried along. -/
structure PreludeState.Keeps (P : Nat → Prop) (s s' : PreludeState) : Prop where
  kept : s'.timers.Kept
  lowered : s'.earliestTimer ≤ s.earliestTimer
  below : s.earliestTimer ≤ s.timers.nextTimer → s'.earliestTimer ≤ s'.timers.nextTimer
  carries : ∀ id, P id → s.timers.Carries s'.timers id

namespace PreludeState
variable {P : Nat → Prop} {s s' s'' : PreludeState}

theorem Keeps.refl (h : s.timers.Kept) : s.Keeps P s :=
  ⟨h, le_rfl, fun hs => hs, fun id _ => .refl _ id⟩

theorem Keeps.trans (h : s.Keeps P s') (h' : s'.Keeps P s'') : s.Keeps P s'' where
  kept := h'.kept
  lowered := h'.lowered.trans h.lowered
  below hs := h'.below (h.below hs)
  carries id hid := (h.carries id hid).trans (h'.carries id hid)

theorem Keeps.of_timers {t : PreludeTimers} (hkept : t.Kept)
    (hcell : t.nextTimer = s.timers.nextTimer) (hcarries : ∀ id, P id → s.timers.Carries t id) :
    s.Keeps P { s with timers := t } where
  kept := hkept
  lowered := le_rfl
  below hs := by
    show s.earliestTimer ≤ t.nextTimer
    rwa [hcell]
  carries := hcarries

/-- The specification of a prelude function: it keeps what it has to, cut or not. -/
def Safe (P : Nat → Prop) {A : Type} (c : PreludeRun A) : Prop :=
  ∀ (p : Option Callee) (s : PreludeState), s.timers.Kept →
    Interruptible.wp c p (fun _ t => s.Keeps P t) (s.Keeps P) s

end PreludeState

namespace Prelude
open Interruptible PreludeState
variable {P : Nat → Prop} {s : PreludeState} {p : Option Callee}

private theorem wp_schedule {due : Double} (h : s.timers.Kept) (hdue : due ≤ s.timers.earliest) :
    wp (schedule due) p (fun _ t => s.Keeps P t) (s.Keeps P) s := by
  unfold schedule
  simp only [wp_bind, wp_check, wp_modify]
  split_ifs with hcut
  · exact .refl h
  · refine ⟨⟨hdue, h.notPast, h.known⟩, lower_le _ _, fun _ => lower_le_due _ _, fun id _ => ?_⟩
    exact .of_frame h.known (fun _ => rfl) (fun hid _ => hid) le_rfl

theorem safe_reschedule : Safe P reschedule := by
  intro p s h
  unfold reschedule onTimers
  simp only [wp_bind, wp_check, wp_get, wp_modify]
  split_ifs with hcut
  · exact .refl h
  · have hcell : s.timers.nextTimer ≤ s.timers.leastDue :=
      PreludeTimers.le_leastDue fun id hid hlive => h.cell.trans (h.notPast id hid hlive)
    have hkept : ({ s.timers with earliest := s.timers.leastDue } : PreludeTimers).Kept :=
      ⟨hcell, fun id hid hlive => PreludeTimers.leastDue_le hid hlive, h.known⟩
    have hkeeps : s.Keeps P { s with timers := { s.timers with earliest := s.timers.leastDue } } :=
      .of_timers hkept rfl fun id _ => .of_frame h.known (fun _ => rfl) (fun hid _ => hid) le_rfl
    exact wp_mono (wp_schedule hkept le_rfl) (fun _ t ht => hkeeps.trans ht)
      fun t ht => hkeeps.trans ht

theorem safe_retire (id : Nat) : Safe P (retire id) := by
  intro p s h
  unfold retire onTimers
  simp only [wp_bind, wp_check, wp_modify]
  split_ifs with hcall hdelete
  · exact .refl h
  · exact .of_timers (h.cancel id) rfl fun other _ => h.carries_cancel id other
  · refine .of_timers ⟨(h.cancel id).cell, (h.cancel id).notPast, h.known⟩ rfl fun other _ => ?_
    exact h.carries_cancel id other

private theorem safe_clearTimer (id : Nat) : Safe P (clearTimer id) := by
  intro p s h
  have hrefl : s.Keeps P s := .refl h
  unfold clearTimer
  simp only [wp_bind, wp_check, wp_get, wp_ite, wp_pure]
  split_ifs with hcut hid
  · exact hrefl
  · refine wp_mono (safe_retire id p s h) (fun _ t ht => ?_) fun t ht => ht
    split_ifs with hdue
    · exact wp_mono (safe_reschedule p t ht.kept) (fun _ u hu => ht.trans hu) fun u hu => ht.trans hu
    · exact ht
  · exact hrefl

/-- A call of `setTimeout` or `setInterval` that completes, or is cut before it lists its timer, or
whose timer is not due before those known. -/
theorem wp_addTimer {clock wait : Double} {repeats : Bool} (h : s.timers.Kept)
    (hspares : s.timers.SparesSet (add clock wait) p) :
    wp (addTimer clock wait repeats) p (fun _ t => s.Keeps P t) (s.Keeps P) s := by
  have hcarries : ∀ (t : PreludeTimers) (timer : Timer),
      t.objects = Function.update s.timers.objects s.timers.nextTimerId timer →
      (∀ id ∈ s.timers.live, id ∈ t.live) → s.timers.nextTimerId ≤ t.nextTimerId →
        ∀ id, P id → s.timers.Carries t id := by
    intro t timer hobjects hlive hnext id _
    refine .of_frame h.known (fun hlt => ?_) (fun hid _ => hlive id hid) hnext
    rw [hobjects, Function.update_of_ne (by omega)]
  have hlisted : ∀ id ∈ s.timers.live, id ∈ s.timers.live ++ [s.timers.nextTimerId] :=
    fun id hid => List.mem_append_left _ hid
  have hnext : s.timers.nextTimerId ≤ s.timers.nextTimerId + 1 := Nat.le_succ _
  have hknown : ∀ id ∈ s.timers.live, id < s.timers.nextTimerId + 1 :=
    fun id hid => (h.known id hid).trans_le hnext
  unfold addTimer onTimers schedule
  simp only [wp_bind, wp_check, wp_get, wp_modify, wp_ite, wp_pure, PreludeTimers.setObject]
  generalize (if repeats = true then some wait else none) = interval
  split_ifs with hcall hnumber hmax hnow hpush hset hdue hschedule
  · exact .refl h
  · exact .refl h
  · exact .refl h
  · refine .of_timers ⟨h.cell, h.notPast, hknown⟩ rfl fun id _ => ?_
    exact .of_frame h.known (fun _ => rfl) (fun hid _ => hid) hnext
  · -- the object is made, but not listed
    refine .of_timers ⟨h.cell, fun id hid hlive => ?_, hknown⟩ rfl
      (hcarries _ _ rfl (fun _ hid => hid) hnext)
    have hne : id ≠ s.timers.nextTimerId := (h.known id hid).ne
    simp only [Function.update_of_ne hne] at hlive ⊢
    exact h.notPast id hid hlive
  · exact .of_timers (h.list _ h.cell le_rfl (hspares.listed hset)) rfl (hcarries _ _ rfl hlisted hnext)
  · exact .of_timers (h.list _ (hspares.told hschedule) hdue.le le_rfl) rfl
      (hcarries _ _ rfl hlisted hnext)
  · exact ⟨h.list _ le_rfl hdue.le le_rfl, lower_le _ _, fun _ => lower_le_due _ _,
      hcarries _ _ rfl hlisted hnext⟩
  · exact .of_timers (h.list _ h.cell le_rfl (not_lt.mp hdue)) rfl (hcarries _ _ rfl hlisted hnext)

/-- What `fire` does to the other timers; it changes nothing where the timer is cancelled. -/
theorem wp_fire (id : Nat) (h : s.timers.Kept) :
    wp (fire id) p (fun entered t => s.Keeps (· ≠ id) t ∧
        (entered = false → (s.timers.objects id).cancelled = true ∧ t = s))
      (s.Keeps (· ≠ id)) s := by
  have hrefl : s.Keeps (· ≠ id) s := .refl h
  unfold fire
  simp only [wp_bind, wp_check, wp_get, wp_ite, wp_pure]
  split_ifs with hcall hcancelled
  · exact hrefl
  · exact ⟨hrefl, fun _ => ⟨hcancelled, trivial⟩⟩
  · cases hinterval : (s.timers.objects id).interval with
    | none =>
      simp only [wp_bind, wp_check, wp_pure]
      refine wp_mono (safe_retire id p s h) (fun _ t ht => ?_) fun t ht => ht
      split_ifs
      · exact ht
      · exact ⟨ht, by rintro ⟨⟩⟩
    | some interval =>
      let timer : Timer :=
        { s.timers.objects id with due := add (s.timers.objects id).due interval }
      have hnext : s.Keeps (· ≠ id) { s with timers := s.timers.setObject id timer } := by
        refine .of_timers ⟨h.cell, fun other hother hlive => ?_, h.known⟩ rfl fun other hne => ?_
        · by_cases heq : other = id
          · subst heq
            simp only [PreludeTimers.setObject, Function.update_self] at hlive ⊢
            exact (h.notPast other hother hlive).trans (le_add _ _)
          · simp only [PreludeTimers.setObject, Function.update_of_ne heq] at hlive ⊢
            exact h.notPast other hother hlive
        · refine .of_frame h.known (fun _ => ?_) (fun hid _ => hid) le_rfl
          exact Function.update_of_ne hne _ _
      unfold onTimers
      simp only [wp_bind, wp_check, wp_pure, wp_modify]
      split_ifs
      · exact hnext
      · exact ⟨hnext, by rintro ⟨⟩⟩

theorem keeps_failed (h : s.timers.Kept) (failed : Bool) :
    s.Keeps P { s with timers := { s.timers with failed := failed } } :=
  .of_timers ⟨h.cell, h.notPast, h.known⟩ rfl fun _ _ =>
    .of_frame h.known (fun _ => rfl) (fun hid _ => hid) le_rfl

/-- A run of due timers begins with all that wait. -/
theorem wp_beginRun (time : Double) (h : s.timers.Kept) :
    wp (beginRun time) p (fun due t => s.Keeps P t ∧ ∀ id, s.timers.Waits id time → id ∈ due)
      (s.Keeps P) s := by
  have hrefl : s.Keeps P s := .refl h
  have hfailed : s.Keeps P { s with timers := { s.timers with failed := false } } :=
    keeps_failed h false
  have hcollect : ∀ id, s.timers.Waits id time → id ∈ s.timers.collect time := by
    intro id ⟨hmem, hlive, hdue⟩
    unfold Timer.Live at hlive
    simp [PreludeTimers.collect, hmem, hlive, hdue]
  have hsort : ∀ id, s.timers.Waits id time → id ∈ PreludeTimers.sortDue
      { s.timers with failed := false } (s.timers.collect time) := by
    intro id hid
    exact List.mem_mergeSort.mpr (hcollect id hid)
  unfold beginRun onTimers
  simp only [wp_bind, wp_check, wp_get, wp_ite, wp_pure, wp_modify]
  split_ifs with hcall hnone
  · exact hrefl
  · refine wp_mono (safe_reschedule p s h) (fun _ t ht => ⟨ht, fun id hid => ?_⟩) fun t ht => ht
    rw [← hnone]
    exact hcollect id hid
  all_goals first
    | exact hrefl
    | exact hfailed
    | exact ⟨hfailed, hsort⟩

theorem safe_endRun : Safe P endRun := by
  intro p s h
  have hsweep : s.Keeps P { s with timers := s.timers.sweep } := by
    unfold PreludeTimers.sweep
    split_ifs
    · refine .of_timers ⟨h.cell, fun id hid => ?_, fun id hid => ?_⟩ rfl fun id _ => ?_
      · exact h.notPast id (List.mem_of_mem_filter hid)
      · exact h.known id (List.mem_of_mem_filter hid)
      · refine .of_frame h.known (fun _ => rfl) (fun hid hlive => ?_) le_rfl
        unfold Timer.Live at hlive
        exact List.mem_filter.mpr ⟨hid, by simp [hlive]⟩
    · exact .refl h
  unfold endRun onTimers
  simp only [wp_bind, wp_get, wp_pure, wp_modify]
  refine wp_mono (safe_reschedule p _ hsweep.kept) (fun _ t ht => ?_) fun t ht => hsweep.trans ht
  exact (hsweep.trans ht).trans (keeps_failed ht.kept false)

/-- A call that is cut where it loses no timer. -/
def SparesCall (clock : Double) (t : PreludeTimers) (cut : Option Callee) : TimerCall → Prop
  | .set wait _ => t.SparesSet (add clock wait) cut
  | .clear _ => True

theorem wp_call {clock : Double} {call : TimerCall} (h : s.timers.Kept)
    (hspares : SparesCall clock s.timers p call) :
    wp (Prelude.call clock call) p (fun _ t => s.Keeps P t) (s.Keeps P) s := by
  cases call with
  | set wait repeats =>
    unfold Prelude.call
    rw [wp_bind]
    exact wp_mono (wp_addTimer h hspares) (fun _ t ht => ht) fun t ht => ht
  | clear id => exact safe_clearTimer id p s h

end Prelude

end RustTS.Runner
