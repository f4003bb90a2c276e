import RustTS.Runner.LifecycleFrame

/-! What the interrupt checks of one load, reload or unload see of the requests made
while it runs. Every stage of the call enters the control anew, which clears a request
made before. -/
namespace RustTS.Runner

namespace Observation

theorem asked_append (b : Bool) (xs ys : List Observation) :
    asked b (xs ++ ys) = asked (asked b xs) ys := by
  induction xs generalizing b with
  | nil => rfl
  | cons o xs ih => cases o <;> simp only [List.cons_append, asked, ih]

private theorem asked_of_requested_mem {xs : List Observation} (h : .requested ∈ xs) (b : Bool) :
    asked b xs = asked false xs := by
  induction xs generalizing b with
  | nil => cases h
  | cons o xs ih =>
    cases o with
    | entered => rfl
    | requested => rfl
    | checked r stop =>
      have hxs : .requested ∈ xs := by simpa using h
      simp only [asked, ih hxs b]

/-- Every check of the log read whether a request was made since the last stage was
entered. -/
def Faithful (b : Bool) : List Observation → Prop
  | [] => True
  | .entered :: seen => Faithful false seen
  | .requested :: seen => Faithful true seen
  | .checked r _ :: seen => r = b ∧ Faithful b seen

theorem faithful_append {b : Bool} {xs ys : List Observation} :
    Faithful b (xs ++ ys) ↔ Faithful b xs ∧ Faithful (asked b xs) ys := by
  induction xs generalizing b with
  | nil => simp [Faithful, asked]
  | cons o xs ih => cases o <;> simp only [List.cons_append, Faithful, asked, ih, and_assoc]

theorem Faithful.checked {b r stop : Bool} {pre post : List Observation}
    (h : Faithful b (pre ++ .checked r stop :: post)) : r = asked b pre :=
  (faithful_append.mp h).2.1

/-- Every check made after a request of the log sees it. -/
def Heard (seen : List Observation) : Prop :=
  ∀ pre r stop post, seen = pre ++ .checked r stop :: post → .requested ∈ pre → r = true

/-- Every check made after a request is made after one since its stage was entered. -/
def Timely (seen : List Observation) : Prop :=
  ∀ pre r stop post, seen = pre ++ .checked r stop :: post → .requested ∈ pre →
    asked false pre = true

private theorem Faithful.heard_iff {b : Bool} {seen : List Observation} (h : Faithful b seen) :
    Heard seen ↔ Timely seen := by
  have hr : ∀ {pre r stop post}, seen = pre ++ .checked r stop :: post → .requested ∈ pre →
      r = asked false pre := by
    intro pre r stop post hs hq
    subst hs
    rw [h.checked, asked_of_requested_mem hq]
  constructor
  · intro hh pre r stop post hs hq
    rw [← hr hs hq, hh pre r stop post hs hq]
  · intro ht pre r stop post hs hq
    rw [hr hs hq, ht pre r stop post hs hq]

end Observation

namespace Monitored

/-- The request flag and every check agree with the log. -/
structure Sound (b : Bool) (m : Monitored) : Prop where
  flag : m.control.interruptRequested = Observation.asked b m.seen
  checks : Observation.Faithful b m.seen

variable {b : Bool} {m : Monitored}

theorem Sound.enter (budget : Nat) (h : Sound b m) : Sound b (m.enter budget) := by
  refine ⟨?_, ?_⟩
  · simp [Monitored.enter, Observation.asked_append, Observation.asked]
  · exact Observation.faithful_append.mpr ⟨h.checks, trivial⟩

theorem Sound.tick (t : Tick) (h : Sound b m) : Sound b (m.tick t) := by
  cases t with
  | request =>
    refine ⟨?_, ?_⟩
    · simp [Monitored.tick, Observation.asked_append, Observation.asked]
    · exact Observation.faithful_append.mpr ⟨h.checks, trivial⟩
  | check now =>
    refine ⟨?_, ?_⟩
    · simp [Monitored.tick, Observation.asked_append, Observation.asked, h.flag]
    · exact Observation.faithful_append.mpr ⟨h.checks, h.flag, trivial⟩
  | hostCall now => exact ⟨by simpa [Monitored.tick] using h.flag, h.checks⟩

theorem Sound.ticks (ts : List Tick) (h : Sound b m) : Sound b (m.ticks ts) := by
  induction ts generalizing m with
  | nil => exact h
  | cons t ts ih => exact ih (h.tick t)

end Monitored

section
variable {Live Origin T : Type} [Min T]

/-- The control of the engine agrees with the log. -/
def Engine.Heeds (b : Bool) (e : Engine Live Origin T) : Prop := e.execution.Sound b

theorem Engine.heeds_closed (g : ModuleLoader.GraphId) (b : Bool) :
    Engine.ClosedUnder g (Engine.Heeds b : Engine Live Origin T → Prop) where
  enter h := Monitored.Sound.enter _ h
  leave h := ⟨h.flag, h.checks⟩
  ticks ts h := Monitored.Sound.ticks ts h
  runStage stage h := Monitored.Sound.ticks stage.ticks h
  scripts _ h := h
  groups _ h := h
  saveEnv _ h := h
  dropEnv _ h := h
  mark h := h
  imported _ h := h
  remove _ h := h

namespace LifecycleCall

theorem run_heeds (call : LifecycleCall Live Origin T) {b : Bool} {e : Engine Live Origin T}
    (h : e.Heeds b) : (call.run e).2.Heeds b := by
  have hc (g : ModuleLoader.GraphId) :
      Engine.ClosedUnder g (Engine.Heeds b : Engine Live Origin T → Prop) := Engine.heeds_closed g b
  cases call with
  | inline group id transpiled modules run =>
    refine (hc 0).requests run.after ?_
    have hb := (hc 0).requests run.before h
    cases transpiled with
    | error error => exact hb
    | ok script =>
      cases modules with
      | error error => exact hb
      | ok modules => exact (hc _).mountGraph _ _ _ _ hb
  | project group id path names transpiled modules run =>
    refine (hc 0).requests run.after ?_
    have hb := (hc 0).requests run.before h
    cases names with
    | error error => exact hb
    | ok _ =>
      cases transpiled with
      | error failure => exact hb
      | ok project =>
        cases modules with
        | error error => exact hb
        | ok modules =>
          dsimp only
          split
          · exact hb
          · exact (hc _).mountGraph _ _ _ _ hb
  | unload id before run after => exact (hc 0).requests after ((hc 0).unloadScript id before run h)

/-- What an observer of the control sees of one call. -/
def observed (call : LifecycleCall Live Origin T) (e : Engine Live Origin T) : List Observation :=
  (call.run (e.onExecution fun m => { m with seen := [] })).2.execution.seen

/-- Every check of a load, reload or unload that follows a request made during the call
sees it exactly when a request was also made since the stage of the check was entered. -/
theorem heard_iff_timely (call : LifecycleCall Live Origin T) (e : Engine Live Origin T) :
    Observation.Heard (call.observed e) ↔ Observation.Timely (call.observed e) := by
  have hs : (e.onExecution fun m => { m with seen := [] }).Heeds
      e.execution.control.interruptRequested := ⟨rfl, trivial⟩
  exact (call.run_heeds hs).checks.heard_iff

end LifecycleCall

end

/-- A load of script `a` without an error, with one request while the loaded version's
`ctx.hot.save` runs and one check of the new version's top-level code. -/
def loadAskedDuringSave : LifecycleCall Unit Unit Nat :=
  .inline none ['a'] (.ok ⟨[], (), []⟩) (.ok ⟨fun _ => none, fun _ => none⟩)
    { before := 0
      save := .quiet [.request]
      afterSave := 0
      mount := ⟨.ok 0, [], .ok 0, .quiet [.check 0], .ok (0, 0), .ok 0, (), .quiet⟩
      afterMount := 0
      dispose := .quiet []
      after := 0 }

/-- Reloading a script, a request made during the save hook is lost on the new version's
code. -/
theorem loadAskedDuringSave_not_heard :
    ¬ Observation.Heard (loadAskedDuringSave.observed
      (loadAskedDuringSave.run (Engine.new u64Max 0)).2) := by
  intro h
  have hc := h [.entered, .requested, .entered] false false [.entered] rfl (by decide)
  exact absurd hc (by decide)

end RustTS.Runner
