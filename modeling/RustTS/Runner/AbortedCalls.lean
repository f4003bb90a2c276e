import RustTS.Runner.TimerCuts

/-! Timer calls and runs that may be aborted at any function call of the prelude, among advances
of the engine clock: when the engine still learns of every live timer. -/
namespace RustTS.Runner
open Binary64 Interruptible

/-- An `advance_timers` call under way: the new time, and the scripts not looked at yet. -/
structure Visit where
  now : Double
  rest : List VersionId

/-- What an engine does: it goes over the scripts, those of one context in one visit, and fires
the due timers of one. -/
inductive VisitPhase
  | idle
  | scanning (a : Visit)
  | visiting (a : Visit) (stretch : List VersionId)
  | running (a : Visit) (stretch : List VersionId) (version : VersionId) (due : List Nat)
  | calling (a : Visit) (stretch : List VersionId) (version : VersionId) (due : List Nat)

/-- The engine's clock and `EarliestDue`, the timers of every version, and the callbacks entered so
far. -/
structure CutEngine where
  clock : Double
  earliestTimer : Double
  timers : VersionId → PreludeTimers
  phase : VisitPhase
  entered : List (VersionId × Nat)

/-- A timer call of any version's JavaScript, at any time; an advance, and its steps. Those that
run a prelude function say where it is cut, if it is. -/
inductive CutStep
  | call (version : VersionId) (call : TimerCall) (cut : Option Callee)
  | advance (elapsed : Double)
  | proceed (cut : Option Callee) (shouldStop : Bool)
  | callbackEnds (ending : Ending) (shouldStop : Bool)

namespace CutEngine

def new : CutEngine :=
  ⟨((⟨0, representable_zero⟩ : {n : ℕ // Representable n}) : Double), ⊤, fun _ => .fresh, .idle, []⟩

variable (e : CutEngine)

/-- Runs a prelude function of a version. -/
def onVersion {A : Type} (version : VersionId) (f : PreludeRun A) (cut : Option Callee) :
    Option A × CutEngine :=
  let (a, s) := f.run cut ⟨e.timers version, e.earliestTimer⟩
  (a, { e with
    timers := Function.update e.timers version s.timers
    earliestTimer := s.earliestTimer })

/-- `NextTimer::is_due`. -/
def isDue (now : Double) (version : VersionId) : Bool := (e.timers version).nextTimer ≤ now

section Step
variable (scripts : List VersionId) (context : VersionId → ContextId)

/-- The end of the loop over the scripts: the engine's time becomes what they report now. -/
def endAdvance : CutEngine :=
  { e with
    earliestTimer := (scripts.map fun version => (e.timers version).nextTimer).foldl min ⊤
    phase := .idle }

/-- The end of a script's run. -/
def afterRun (a : Visit) (stretch : List VersionId) (shouldStop : Bool) : CutEngine :=
  if shouldStop then e.endAdvance scripts else { e with phase := .visiting a stretch }

/-- The step of an advance under way. -/
def proceed (cut : Option Callee) (shouldStop : Bool) : Option CutEngine :=
  match e.phase with
  | .idle => none
  | .calling .. => none
  | .scanning a =>
    match a.rest with
    | [] => some (e.endAdvance scripts)
    | first :: rest =>
      let stretch := first :: rest.takeWhile fun next => context first = context next
      let a := { a with rest := rest.dropWhile fun next => context first = context next }
      some { e with
        phase := if stretch.any (e.isDue a.now) then .visiting a stretch else .scanning a }
  | .visiting a [] => some { e with phase := .scanning a }
  | .visiting a (version :: stretch) =>
    if e.isDue a.now version then
      match e.onVersion version (Prelude.beginRun a.now) cut with
      | (none, e) => some (e.afterRun scripts a stretch shouldStop)
      | (some [], e) => some (e.afterRun scripts a stretch shouldStop)
      | (some due, e) => some { e with phase := .running a stretch version due }
    else some { e with phase := .visiting a stretch }
  | .running a stretch version [] =>
    match e.onVersion version Prelude.endRun cut with
    | (none, e) => some (e.afterRun scripts a stretch shouldStop)
    | (some _, e) => some (e.afterRun scripts a stretch shouldStop)
  | .running a stretch version (id :: due) =>
    match e.onVersion version (Prelude.fire id) cut with
    | (none, e) => some (e.afterRun scripts a stretch shouldStop)
    | (some true, e) => some { e with
        phase := .calling a stretch version due
        entered := e.entered ++ [(version, id)] }
    | (some false, e) => some { e with phase := .running a stretch version due }

/-- The engine after the step, when it is one the engine can take now; `scripts` are those loaded,
in load order. -/
def next : CutStep → Option CutEngine
  | .call version call cut => some (e.onVersion version (Prelude.call e.clock call) cut).2
  | .advance elapsed =>
    match e.phase with
    | .idle =>
      let now := add e.clock elapsed
      let e := { e with clock := now }
      some (if now < e.earliestTimer then e
        else { e with phase := .scanning ⟨now, scripts⟩ })
    | _ => none
  | .proceed cut shouldStop => e.proceed scripts context cut shouldStop
  | .callbackEnds ending shouldStop =>
    match e.phase with
    | .calling a stretch version due =>
      match ending with
      | .returned => some { e with phase := .running a stretch version due }
      | .threw => some { e with
          timers := Function.update e.timers version (Prelude.caught (e.timers version))
          phase := .running a stretch version due }
      | .aborted => some (e.afterRun scripts a stretch shouldStop)
    | _ => none

def Step (e : CutEngine) (step : CutStep) (e' : CutEngine) : Prop :=
  e.next scripts context step = some e'

end Step

/-- No call is cut where it loses a timer: a `setTimeout` or `setInterval` cut at `byId.set` is not
due before the least due time the prelude keeps, and one cut at `schedule` not before the one the
engine holds for the version. -/
def Spares : CutStep → Prop
  | .call version call cut => Prelude.SparesCall e.clock (e.timers version) cut call
  | _ => True

/-- Every version's timers are kept, and the engine's time is not past what a loaded version
recorded. -/
structure Sound (scripts : List VersionId) : Prop where
  kept : ∀ version, (e.timers version).Kept
  below : ∀ version ∈ scripts, e.earliestTimer ≤ (e.timers version).nextTimer

variable {e} {e' : CutEngine} {scripts : List VersionId} {context : VersionId → ContextId}
  {P : Nat → Prop}

theorem new_sound : new.Sound scripts := ⟨fun _ => PreludeTimers.fresh_kept, fun _ _ => le_rfl⟩

/-- What a version's prelude functions read and write. -/
def preludeState (e : CutEngine) (version : VersionId) : PreludeState :=
  ⟨e.timers version, e.earliestTimer⟩

/-- A prelude function ran on a version. -/
structure Ran (P : Nat → Prop) (e : CutEngine) (version : VersionId) (e' : CutEngine) : Prop where
  keeps : (e.preludeState version).Keeps P (e'.preludeState version)
  others : ∀ other, other ≠ version → e'.timers other = e.timers other
  entered : e'.entered = e.entered
  phase : e'.phase = e.phase

/-- What a function's specification says of its run on a version. -/
theorem onVersion_wp {A : Type} {version : VersionId} {f : PreludeRun A} {cut : Option Callee}
    {Q : A → PreludeState → Prop} {C : PreludeState → Prop} {a : Option A}
    (h : wp f cut Q C (e.preludeState version)) (hrun : e.onVersion version f cut = (a, e')) :
    (∀ x, a = some x → Q x (e'.preludeState version)) ∧ (a = none → C (e'.preludeState version)) := by
  unfold wp preludeState at h
  unfold onVersion at hrun
  generalize f.run cut ⟨e.timers version, e.earliestTimer⟩ = run at h hrun
  obtain ⟨b, s⟩ := run
  obtain ⟨rfl, rfl⟩ := Prod.mk.inj hrun
  have hself : preludeState { e with
      timers := Function.update e.timers version s.timers
      earliestTimer := s.earliestTimer } version = s := by
    unfold preludeState
    dsimp only
    rw [Function.update_self]
  rw [hself]
  constructor
  · rintro x rfl
    exact h
  · rintro rfl
    exact h

theorem onVersion_ran {A : Type} {version : VersionId} {f : PreludeRun A} {cut : Option Callee}
    {a : Option A} (h : wp f cut (fun _ t => (e.preludeState version).Keeps P t)
      ((e.preludeState version).Keeps P) (e.preludeState version))
    (hrun : e.onVersion version f cut = (a, e')) : e.Ran P version e' := by
  obtain ⟨hsome, hnone⟩ := onVersion_wp h hrun
  have hkeeps : (e.preludeState version).Keeps P (e'.preludeState version) := by
    cases a with
    | none => exact hnone rfl
    | some a => exact hsome a rfl
  obtain ⟨-, rfl⟩ := Prod.mk.inj hrun
  exact ⟨hkeeps, fun other hother => Function.update_of_ne hother _ _, rfl, rfl⟩

theorem Sound.ran (h : e.Sound scripts) {version : VersionId} (hran : e.Ran P version e') :
    e'.Sound scripts where
  kept other := by
    by_cases hother : other = version
    · subst hother
      exact hran.keeps.kept
    · rw [hran.others other hother]
      exact h.kept other
  below other hmem := by
    by_cases hother : other = version
    · subst hother
      exact hran.keeps.below (h.below other hmem)
    · rw [hran.others other hother]
      exact hran.keeps.lowered.trans (h.below other hmem)

theorem Sound.endAdvance (h : e.Sound scripts) : (e.endAdvance scripts).Sound scripts where
  kept := h.kept
  below _ hmem := TimerEngine.foldl_min_le (List.mem_map_of_mem hmem)

theorem Sound.afterRun (h : e.Sound scripts) (a : Visit) (stretch : List VersionId)
    (shouldStop : Bool) : (e.afterRun scripts a stretch shouldStop).Sound scripts := by
  unfold CutEngine.afterRun
  split_ifs
  · exact h.endAdvance
  · exact ⟨h.kept, h.below⟩

theorem beginRun_ran (h : e.Sound scripts) {version : VersionId} {time : Double}
    {cut : Option Callee} {a : Option (List Nat)}
    (hrun : e.onVersion version (Prelude.beginRun time) cut = (a, e')) : e.Ran P version e' :=
  onVersion_ran (wp_mono (Prelude.wp_beginRun time (h.kept version)) (fun _ _ ht => ht.1)
    fun _ ht => ht) hrun

theorem fire_ran (h : e.Sound scripts) {version : VersionId} {id : Nat} {cut : Option Callee}
    {a : Option Bool} (hrun : e.onVersion version (Prelude.fire id) cut = (a, e')) :
    e.Ran (· ≠ id) version e' :=
  onVersion_ran (wp_mono (Prelude.wp_fire id (h.kept version)) (fun _ _ ht => ht.1)
    fun _ ht => ht) hrun

theorem endRun_ran (h : e.Sound scripts) {version : VersionId} {cut : Option Callee}
    {a : Option Bool} (hrun : e.onVersion version Prelude.endRun cut = (a, e')) :
    e.Ran P version e' :=
  onVersion_ran (Prelude.safe_endRun cut _ (h.kept version)) hrun

theorem caught_ran (h : e.Sound scripts) (version : VersionId) :
    e.Ran P version
      { e with timers := Function.update e.timers version (Prelude.caught (e.timers version)) } where
  keeps := by
    unfold preludeState
    dsimp only
    rw [Function.update_self]
    exact Prelude.keeps_failed (s := e.preludeState version) (h.kept version) true
  others other hother := Function.update_of_ne hother _ _
  entered := rfl
  phase := rfl

theorem Sound.proceed (h : e.Sound scripts) {cut : Option Callee} {shouldStop : Bool}
    (hstep : e.proceed scripts context cut shouldStop = some e') : e'.Sound scripts := by
  unfold CutEngine.proceed at hstep
  split at hstep
  · cases hstep
  · cases hstep
  · split at hstep
    · cases hstep
      exact h.endAdvance
    · cases hstep
      exact ⟨h.kept, h.below⟩
  · cases hstep
    exact ⟨h.kept, h.below⟩
  · split_ifs at hstep
    · split at hstep
      all_goals
        cases hstep
        have hnext := h.ran (beginRun_ran (P := fun _ => True) h ‹_›)
      · exact hnext.afterRun _ _ _
      · exact hnext.afterRun _ _ _
      · exact ⟨hnext.kept, hnext.below⟩
    · cases hstep
      exact ⟨h.kept, h.below⟩
  · split at hstep
    all_goals
      cases hstep
      exact (h.ran (endRun_ran (P := fun _ => True) h ‹_›)).afterRun _ _ _
  · split at hstep
    all_goals
      cases hstep
      have hnext := h.ran (fire_ran h ‹_›)
    · exact hnext.afterRun _ _ _
    · exact ⟨hnext.kept, hnext.below⟩
    · exact ⟨hnext.kept, hnext.below⟩

theorem call_ran (h : e.Sound scripts) {version : VersionId} {call : TimerCall}
    {cut : Option Callee} (hspares : e.Spares (.call version call cut)) :
    e.Ran P version (e.onVersion version (Prelude.call e.clock call) cut).2 :=
  onVersion_ran (Prelude.wp_call (h.kept version) hspares) rfl

/-- A step that is cut where it loses no timer leaves the engine sound. -/
theorem Sound.step (h : e.Sound scripts) {step : CutStep} (hspares : e.Spares step)
    (hstep : e.Step scripts context step e') : e'.Sound scripts := by
  unfold Step next at hstep
  cases step with
  | call version call cut =>
    cases hstep
    exact h.ran (call_ran (P := fun _ => True) h hspares)
  | advance elapsed =>
    dsimp only at hstep
    split at hstep
    · cases hstep
      split_ifs
      · exact ⟨h.kept, h.below⟩
      · exact ⟨h.kept, h.below⟩
    · cases hstep
  | proceed cut shouldStop => exact h.proceed hstep
  | callbackEnds ending shouldStop =>
    dsimp only at hstep
    split at hstep
    · next a stretch version due hphase =>
      cases ending with
      | returned =>
        cases hstep
        exact ⟨h.kept, h.below⟩
      | threw =>
        cases hstep
        have hnext := h.ran (caught_ran (P := fun _ => True) h version)
        exact ⟨hnext.kept, hnext.below⟩
      | aborted =>
        cases hstep
        exact h.afterRun _ _ _
    · cases hstep

/-- Nothing stops the advance that the step is part of. -/
def Completes : CutStep → Prop
  | .proceed cut shouldStop => cut = none ∧ shouldStop = false
  | .callbackEnds ending shouldStop => ending ≠ .aborted ∧ shouldStop = false
  | _ => True

end CutEngine

/-- An advance to `now` is under way, and will get to the timer if it is still due then. -/
def VisitPhase.Comes (version : VersionId) (id : Nat) (now : Double) : VisitPhase → Prop
  | .idle => False
  | .scanning a => a.now = now ∧ version ∈ a.rest
  | .visiting a stretch => a.now = now ∧ (version ∈ stretch ∨ version ∈ a.rest)
  | .running a stretch other due =>
    a.now = now ∧ ((other = version ∧ id ∈ due) ∨ version ∈ stretch ∨ version ∈ a.rest)
  | .calling a stretch other due =>
    a.now = now ∧ ((other = version ∧ id ∈ due) ∨ version ∈ stretch ∨ version ∈ a.rest)

namespace CutEngine
variable {e e' : CutEngine} {scripts : List VersionId} {context : VersionId → ContextId}
  {P : Nat → Prop}

/-- The timer's callback was entered after those of `base`, or the timer was cleared, or it is due
and the advance under way will get to it. -/
def Served (base : List (VersionId × Nat)) (version : VersionId) (id : Nat) (e : CutEngine) : Prop :=
  ∃ later, e.entered = base ++ later ∧
    ((version, id) ∈ later ∨ (e.timers version).Retired id ∨
      ∃ now, (e.timers version).Waits id now ∧ e.phase.Comes version id now)

theorem Sound.isDue_of_waits (h : e.Sound scripts) {version : VersionId} {id : Nat} {now : Double}
    (hw : (e.timers version).Waits id now) : e.isDue now version = true := by
  obtain ⟨hmem, hlive, hdue⟩ := hw
  have hkept := h.kept version
  have hnow : (e.timers version).nextTimer ≤ now :=
    (hkept.cell.trans (hkept.notPast id hmem hlive)).trans hdue
  simpa [isDue] using hnow

theorem Ran.carries {version other : VersionId} {id : Nat} (h : e.Ran P version e')
    (hP : other = version → P id) : (e.timers other).Carries (e'.timers other) id := by
  by_cases hother : other = version
  · subst hother
    exact h.keeps.carries id (hP rfl)
  · rw [h.others other hother]
    exact .refl _ _

/-- A step that enters the timer's callback, or leaves the timer alone and the advance on its way
to it. -/
theorem Served.next {base : List (VersionId × Nat)} {version : VersionId} {id : Nat}
    (h : e.Served base version id) (more : List (VersionId × Nat)) (hentered : e'.entered = e.entered ++ more)
    (hnext : (version, id) ∈ more ∨ ((e.timers version).Carries (e'.timers version) id ∧
      ∀ now, (e.timers version).Waits id now → e.phase.Comes version id now →
        e'.phase.Comes version id now)) : e'.Served base version id := by
  obtain ⟨later, hlater, hserved⟩ := h
  refine ⟨later ++ more, by rw [hentered, hlater, List.append_assoc], ?_⟩
  rcases hnext with hmore | ⟨hcarries, hcomes⟩
  · exact .inl (List.mem_append_right _ hmore)
  · rcases hserved with hmem | hretired | ⟨now, hw, hc⟩
    · exact .inl (List.mem_append_left _ hmem)
    · exact .inr (.inl (hcarries.2 hretired))
    · rcases hcarries.1 now hw with hw' | hr
      · exact .inr (.inr ⟨now, hw', hcomes now hw hc⟩)
      · exact .inr (.inl hr)

theorem Served.move {base : List (VersionId × Nat)} {version : VersionId} {id : Nat}
    (h : e.Served base version id) (hentered : e'.entered = e.entered)
    (htimers : e'.timers = e.timers)
    (hcomes : ∀ now, (e.timers version).Waits id now → e.phase.Comes version id now →
      e'.phase.Comes version id now) : e'.Served base version id := by
  refine h.next [] (by rw [hentered, List.append_nil]) (.inr ⟨?_, hcomes⟩)
  rw [htimers]
  exact .refl _ _

private theorem mem_stretch {first version : VersionId} {rest : List VersionId}
    (h : version ∈ first :: rest) (test : VersionId → Bool) :
    version ∈ first :: rest.takeWhile test ∨ version ∈ rest.dropWhile test := by
  rcases List.mem_cons.mp h with rfl | hrest
  · exact .inl List.mem_cons_self
  · rw [← List.takeWhile_append_dropWhile (p := test) (l := rest)] at hrest
    rcases List.mem_append.mp hrest with hmem | hmem
    · exact .inl (List.mem_cons_of_mem _ hmem)
    · exact .inr hmem

theorem onVersion_uncut {A : Type} {version : VersionId} {f : PreludeRun A} {a : Option A}
    (hrun : e.onVersion version f none = (a, e')) : a ≠ none := by
  have huncut := f.uncut ⟨e.timers version, e.earliestTimer⟩
  unfold onVersion at hrun
  obtain ⟨rfl, -⟩ := Prod.mk.inj hrun
  exact huncut

theorem beginRun_due (h : e.Sound scripts) {version : VersionId} {id : Nat} {time : Double}
    {cut : Option Callee} {due : List Nat}
    (hrun : e.onVersion version (Prelude.beginRun time) cut = (some due, e'))
    (hw : (e.timers version).Waits id time) : id ∈ due :=
  ((onVersion_wp (Prelude.wp_beginRun (P := fun _ => True) time (h.kept version)) hrun).1 due rfl).2
    id hw

theorem fire_cancelled (h : e.Sound scripts) {version : VersionId} {id : Nat} (now : Double)
    {cut : Option Callee} (hrun : e.onVersion version (Prelude.fire id) cut = (some false, e')) :
    ¬(e.timers version).Waits id now ∧ e'.timers version = e.timers version := by
  obtain ⟨-, hentered⟩ := (onVersion_wp (Prelude.wp_fire id (h.kept version)) hrun).1 false rfl
  obtain ⟨hcancelled, hstate⟩ := hentered rfl
  refine ⟨fun hw => ?_, congrArg PreludeState.timers hstate⟩
  have hlive : ((e.timers version).objects id).cancelled = false := hw.2.1
  have hdead : ((e.timers version).objects id).cancelled = true := hcancelled
  rw [hdead] at hlive
  cases hlive

section Served
variable {base : List (VersionId × Nat)} {version : VersionId} {id : Nat}

theorem Served.scanning (h : e.Served base version id) (hsound : e.Sound scripts) {a : Visit}
    (hphase : e.phase = .scanning a) (hstep : e.proceed scripts context none false = some e') :
    e'.Served base version id := by
  unfold CutEngine.proceed at hstep
  rw [hphase] at hstep
  dsimp only at hstep
  split at hstep
  · next hrest =>
    cases hstep
    refine h.move rfl rfl fun now _ hc => ?_
    rw [hphase] at hc
    have hmem : version ∈ a.rest := hc.2
    rw [hrest] at hmem
    cases hmem
  · next first rest hrest =>
    cases hstep
    refine h.move rfl rfl fun now hw hc => ?_
    rw [hphase] at hc
    obtain ⟨hnow, hmem⟩ := hc
    rw [hrest] at hmem
    have hplace := mem_stretch hmem fun next => decide (context first = context next)
    dsimp only
    split_ifs with hany
    · exact ⟨hnow, hplace⟩
    · rcases hplace with hstretch | hlater
      · rw [← hnow] at hw
        exact absurd (List.any_eq_true.mpr ⟨version, hstretch, hsound.isDue_of_waits hw⟩) hany
      · exact ⟨hnow, hlater⟩

/-- The run of the script's due timers begins with the timer, where it is one of them. -/
theorem Served.visiting (h : e.Served base version id) (hsound : e.Sound scripts) {a : Visit}
    {other : VersionId} {stretch : List VersionId}
    (hphase : e.phase = .visiting a (other :: stretch))
    (hstep : e.proceed scripts context none false = some e') : e'.Served base version id := by
  unfold CutEngine.proceed at hstep
  rw [hphase] at hstep
  dsimp only at hstep
  split_ifs at hstep with hdue
  · split at hstep
    · next e₁ hrun => exact absurd rfl (onVersion_uncut hrun)
    · next e₁ hrun =>
      have hran := beginRun_ran (P := fun _ => True) hsound hrun
      cases hstep
      refine h.next [] (by rw [List.append_nil]; exact hran.entered)
        (.inr ⟨hran.carries fun _ => trivial, ?_⟩)
      intro now hw hc
      rw [hphase] at hc
      obtain ⟨hnow, hmem | hmem⟩ := hc
      · rcases List.mem_cons.mp hmem with rfl | hmem
        · rw [← hnow] at hw
          cases beginRun_due hsound hrun hw
        · exact ⟨hnow, .inl hmem⟩
      · exact ⟨hnow, .inr hmem⟩
    · next due e₁ _ hrun =>
      have hran := beginRun_ran (P := fun _ => True) hsound hrun
      cases hstep
      refine h.next [] (by rw [List.append_nil]; exact hran.entered)
        (.inr ⟨hran.carries fun _ => trivial, ?_⟩)
      intro now hw hc
      rw [hphase] at hc
      obtain ⟨hnow, hmem | hmem⟩ := hc
      · rcases List.mem_cons.mp hmem with rfl | hmem
        · rw [← hnow] at hw
          exact ⟨hnow, .inl ⟨rfl, beginRun_due hsound hrun hw⟩⟩
        · exact ⟨hnow, .inr (.inl hmem)⟩
      · exact ⟨hnow, .inr (.inr hmem)⟩
  · cases hstep
    refine h.move rfl rfl fun now hw hc => ?_
    rw [hphase] at hc
    obtain ⟨hnow, hmem | hmem⟩ := hc
    · rcases List.mem_cons.mp hmem with rfl | hmem
      · rw [← hnow] at hw
        exact absurd (hsound.isDue_of_waits hw) hdue
      · exact ⟨hnow, .inl hmem⟩
    · exact ⟨hnow, .inr hmem⟩

theorem Served.ending (h : e.Served base version id) (hsound : e.Sound scripts) {a : Visit}
    {other : VersionId} {stretch : List VersionId}
    (hphase : e.phase = .running a stretch other [])
    (hstep : e.proceed scripts context none false = some e') : e'.Served base version id := by
  have hcomes : ∀ now, e.phase.Comes version id now →
      a.now = now ∧ (version ∈ stretch ∨ version ∈ a.rest) := by
    intro now hc
    rw [hphase] at hc
    obtain ⟨hnow, ⟨-, hmem⟩ | hmem⟩ := hc
    · cases hmem
    · exact ⟨hnow, hmem⟩
  unfold CutEngine.proceed at hstep
  rw [hphase] at hstep
  dsimp only at hstep
  split at hstep
  · next e₁ hrun => exact absurd rfl (onVersion_uncut hrun)
  · next threw e₁ hrun =>
    have hran := endRun_ran (P := fun _ => True) hsound hrun
    cases hstep
    exact h.next [] (by rw [List.append_nil]; exact hran.entered)
      (.inr ⟨hran.carries fun _ => trivial, fun now _ hc => hcomes now hc⟩)

/-- The first timer of a run is entered, or was cancelled and waits no more. -/
theorem Served.firing (h : e.Served base version id) (hsound : e.Sound scripts) {a : Visit}
    {other : VersionId} {stretch : List VersionId} {first : Nat} {due : List Nat}
    (hphase : e.phase = .running a stretch other (first :: due))
    (hstep : e.proceed scripts context none false = some e') : e'.Served base version id := by
  unfold CutEngine.proceed at hstep
  rw [hphase] at hstep
  dsimp only at hstep
  split at hstep
  · next e₁ hrun => exact absurd rfl (onVersion_uncut hrun)
  · next e₁ hrun =>
    have hran := fire_ran hsound hrun
    cases hstep
    refine h.next [(other, first)] (by rw [← hran.entered]) ?_
    by_cases hfirst : version = other ∧ id = first
    · rw [hfirst.1, hfirst.2]
      exact .inl (List.mem_singleton_self _)
    · refine .inr ⟨hran.carries fun hother hid => hfirst ⟨hother, hid⟩, fun now _ hc => ?_⟩
      rw [hphase] at hc
      obtain ⟨hnow, ⟨hother, hmem⟩ | hmem⟩ := hc
      · rcases List.mem_cons.mp hmem with hid | hmem
        · exact absurd ⟨hother.symm, hid⟩ hfirst
        · exact ⟨hnow, .inl ⟨hother, hmem⟩⟩
      · exact ⟨hnow, .inr hmem⟩
  · next e₁ hrun =>
    have hran := fire_ran hsound hrun
    cases hstep
    refine h.next [] (by rw [List.append_nil]; exact hran.entered) (.inr ⟨?_, fun now hw hc => ?_⟩)
    · by_cases hother : version = other
      · rw [hother, (fire_cancelled hsound e.clock hrun).2]
        exact .refl _ _
      · exact hran.carries fun heq => absurd heq hother
    · rw [hphase] at hc
      obtain ⟨hnow, ⟨rfl, hmem⟩ | hmem⟩ := hc
      · rcases List.mem_cons.mp hmem with rfl | hmem
        · exact absurd hw (fire_cancelled hsound _ hrun).1
        · exact ⟨hnow, .inl ⟨rfl, hmem⟩⟩
      · exact ⟨hnow, .inr hmem⟩

/-- An advance that nothing stops serves the timers it comes to. -/
theorem Served.proceed (h : e.Served base version id) (hsound : e.Sound scripts)
    (hstep : e.proceed scripts context none false = some e') : e'.Served base version id := by
  cases hphase : e.phase with
  | idle =>
    rw [CutEngine.proceed, hphase] at hstep
    cases hstep
  | scanning a => exact h.scanning hsound hphase hstep
  | visiting a stretch =>
    cases stretch with
    | nil =>
      rw [CutEngine.proceed, hphase] at hstep
      cases hstep
      refine h.move rfl rfl fun now _ hc => ?_
      rw [hphase] at hc
      obtain ⟨hnow, hmem | hmem⟩ := hc
      · cases hmem
      · exact ⟨hnow, hmem⟩
    | cons other stretch => exact h.visiting hsound hphase hstep
  | running a stretch other due =>
    cases due with
    | nil => exact h.ending hsound hphase hstep
    | cons first due => exact h.firing hsound hphase hstep
  | calling a stretch other due =>
    rw [CutEngine.proceed, hphase] at hstep
    cases hstep

theorem Served.step (h : e.Served base version id) (hsound : e.Sound scripts) {step : CutStep}
    (hspares : e.Spares step) (hcompletes : Completes step)
    (hstep : e.Step scripts context step e') : e'.Served base version id := by
  unfold Step CutEngine.next at hstep
  cases step with
  | call other call cut =>
    have hran := call_ran (P := fun _ => True) hsound hspares
    cases hstep
    refine h.next [] (by rw [List.append_nil]; exact hran.entered)
      (.inr ⟨hran.carries fun _ => trivial, fun now _ hc => ?_⟩)
    rwa [hran.phase]
  | advance elapsed =>
    dsimp only at hstep
    split at hstep
    · next hphase =>
      -- no advance is under way, so the timer is served already
      have hidle : ∀ now, ¬e.phase.Comes version id now := by
        intro now hc
        rw [hphase] at hc
        exact hc
      cases hstep
      split_ifs
      · exact h.move rfl rfl fun now _ hc => absurd hc (hidle now)
      · exact h.move rfl rfl fun now _ hc => absurd hc (hidle now)
    · cases hstep
  | proceed cut shouldStop =>
    obtain ⟨rfl, rfl⟩ := hcompletes
    exact h.proceed hsound hstep
  | callbackEnds ending shouldStop =>
    dsimp only at hstep
    split at hstep
    · next a stretch other due hphase =>
      have hcomes : ∀ now, e.phase.Comes version id now →
          VisitPhase.Comes version id now (.running a stretch other due) := by
        intro now hc
        rwa [hphase] at hc
      cases ending with
      | returned =>
        cases hstep
        exact h.move rfl rfl fun now _ hc => hcomes now hc
      | threw =>
        cases hstep
        have hran := caught_ran (P := fun _ => True) hsound other
        exact h.next [] (List.append_nil _).symm
          (.inr ⟨hran.carries fun _ => trivial, fun now _ hc => hcomes now hc⟩)
      | aborted => exact absurd rfl hcompletes.1
    · cases hstep

theorem Served.run {steps : List CutStep} (h : e.Served base version id) (hsound : e.Sound scripts)
    (hrun : Transition.Run (Transition.Guarded (fun e step => e.Spares step ∧ Completes step)
      (Step scripts context)) e steps e') : e'.Served base version id := by
  have hboth := hrun.invariant (I := fun e => e.Sound scripts ∧ e.Served base version id)
    (fun s step t hs hst => ⟨hs.1.step hst.1.1 hst.2, hs.2.step hs.1 hst.1.1 hst.1.2 hst.2⟩)
    ⟨hsound, h⟩
  exact hboth.2

end Served

theorem served_advance (h : e.Sound scripts) {version : VersionId} (hversion : version ∈ scripts)
    {id : Nat} {elapsed : Double} (hw : (e.timers version).Waits id (add e.clock elapsed))
    (hstep : e.Step scripts context (.advance elapsed) e') : e'.Served e.entered version id := by
  have hreached : e.earliestTimer ≤ add e.clock elapsed := by
    have hkept := h.kept version
    calc
      e.earliestTimer ≤ (e.timers version).nextTimer := h.below version hversion
      _ ≤ (e.timers version).earliest := hkept.cell
      _ ≤ ((e.timers version).objects id).due := hkept.notPast id hw.1 hw.2.1
      _ ≤ add e.clock elapsed := hw.2.2
  unfold Step CutEngine.next at hstep
  dsimp only at hstep
  split at hstep
  · cases hstep
    rw [if_neg (not_lt.mpr hreached)]
    exact ⟨[], (List.append_nil _).symm, .inr (.inr ⟨_, hw, rfl, hversion⟩)⟩
  · cases hstep

/-- Where no timer call is cut between listing a timer that is due first and telling the engine,
the engine holds a due time no later than that of any live timer of a version, after any timer
calls and advances, cut wherever they are; and an advance to when a timer is due, if nothing stops
it, enters its callback unless the timer is cleared before. -/
theorem live_timers_told (scripts : List VersionId) (context : VersionId → ContextId)
    (steps : List CutStep) (e : CutEngine)
    (h : Transition.Run (Transition.Guarded Spares (Step scripts context)) new steps e) :
    (∀ version, ∀ id ∈ (e.timers version).live, ((e.timers version).objects id).Live →
      (e.timers version).nextTimer ≤ ((e.timers version).objects id).due) ∧
    ∀ version ∈ scripts, ∀ id ∈ (e.timers version).live, ((e.timers version).objects id).Live →
      ∀ elapsed, ((e.timers version).objects id).due ≤ add e.clock elapsed →
        ∀ steps' e', Transition.Run
          (Transition.Guarded (fun e step => e.Spares step ∧ Completes step) (Step scripts context))
          e (.advance elapsed :: steps') e' → e'.phase = .idle →
            ∃ later, e'.entered = e.entered ++ later ∧
              ((version, id) ∈ later ∨ (e'.timers version).Retired id) := by
  have hsound : e.Sound scripts := h.invariant (I := fun e : CutEngine => e.Sound scripts)
    (fun s step t hs hst => hs.step hst.1 hst.2) new_sound
  constructor
  · intro version id hid hlive
    have hkept := hsound.kept version
    exact hkept.cell.trans (hkept.notPast id hid hlive)
  · intro version hversion id hid hlive elapsed hdue steps' e' hrun hidle
    cases hrun with
    | cons hfirst hrest =>
      have hserved := served_advance hsound hversion ⟨hid, hlive, hdue⟩ hfirst.2
      have hsound' := hsound.step hfirst.1.1 hfirst.2
      obtain ⟨later, hlater, hmem | hretired | ⟨now, -, hcomes⟩⟩ := hserved.run hsound' hrest
      · exact ⟨later, hlater, .inl hmem⟩
      · exact ⟨later, hlater, .inr hretired⟩
      · rw [hidle] at hcomes
        cases hcomes

/-- A call that is cut at `schedule` leaves the prelude with a least due time that the engine never
learned of, and so does the call after it, which completes. -/
theorem live_timers_not_told :
    ¬∀ (scripts : List VersionId) (context : VersionId → ContextId) (steps : List CutStep)
      (e : CutEngine), Transition.Run (Step scripts context) new steps e →
        ∀ version, ∀ id ∈ (e.timers version).live, ((e.timers version).objects id).Live →
          (e.timers version).nextTimer ≤ ((e.timers version).objects id).due := by
  intro h
  have hrun : Transition.Run (Step [0] fun _ => 0) new
      [.call 0 (.set new.clock false) (some .schedule), .call 0 (.set new.clock false) none] _ :=
    .cons rfl (.cons rfl (.nil _))
  have htold := h _ _ _ _ hrun 0 2 (by decide +kernel) rfl
  exact absurd htold (by decide +kernel)

/-- An engine after a call cut before it lists its timer, and one that completes. -/
def afterCut : CutEngine :=
  let e := (new.onVersion 0 (Prelude.call new.clock (.set new.clock false)) (some .livePush)).2
  (e.onVersion 0 (Prelude.call e.clock (.set new.clock true)) none).2

theorem live_timers_told_cut :
    2 ∈ (afterCut.timers 0).live ∧
      (afterCut.timers 0).nextTimer ≤ ((afterCut.timers 0).objects 2).due := by
  have hrun : Transition.Run (Transition.Guarded Spares (Step [0] fun _ => 0)) new
      [.call 0 (.set new.clock false) (some .livePush), .call 0 (.set new.clock true) none]
      afterCut :=
    .cons ⟨⟨nofun, nofun⟩, rfl⟩ (.cons ⟨⟨nofun, nofun⟩, rfl⟩ (.nil _))
  have hlive : 2 ∈ (afterCut.timers 0).live := by decide +kernel
  exact ⟨hlive, (live_timers_told _ _ _ _ hrun).1 0 2 hlive rfl⟩

end CutEngine

end RustTS.Runner
