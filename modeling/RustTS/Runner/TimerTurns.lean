import RustTS.Runner.RunTimers

/-! The turns of a run of timers: what each fired callback makes of the timers, and which of those
due have a turn, when callbacks may clear them. -/
namespace RustTS.Runner
open Binary64

variable {E : Type}

/-- One object for each id, and ids below the counter. -/
structure Timers.Consistent (t : Timers) : Prop where
  objects : ∀ a ∈ t.live, ∀ b ∈ t.live, a.id = b.id → a = b
  bounded : ∀ a ∈ t.live, a.id < t.nextTimerId

/-- The id is that of a timer that was cleared or has finished. -/
def Timers.Gone (t : Timers) (id : Nat) : Prop :=
  id < t.nextTimerId ∧ ∀ a ∈ t.live, a.id = id → ¬a.Live

namespace Timer

def cancelIf (p : Bool) (timer : Timer) : Timer :=
  { timer with cancelled := timer.cancelled || p }

/-- A timer after its turn, when it is fired. -/
def fired (timer : Timer) : Timer :=
  match timer.interval with
  | none => { timer with cancelled := true }
  | some interval => { timer with due := add timer.due interval }

/-- What one fired callback makes of a timer that was there before. -/
def afterFired (f : Fired E) (timer : Timer) : Timer :=
  (if timer.id = f.id then timer.fired else timer).cancelIf (f.cleared.contains timer.id)

/-- What the fired callbacks make of a timer. -/
def through (trace : List (Fired E)) (timer : Timer) : Timer :=
  trace.foldl (fun timer f => timer.afterFired f) timer

/-- Whether the timer is due at the start of a run. -/
def isDue (time : Double) (timer : Timer) : Bool := !(timer.cancelled || time < timer.due)

@[simp] theorem cancelIf_id (p : Bool) (timer : Timer) : (timer.cancelIf p).id = timer.id := rfl

@[simp] theorem cancelIf_interval (p : Bool) (timer : Timer) :
    (timer.cancelIf p).interval = timer.interval := rfl

theorem cancelIf_false (timer : Timer) : timer.cancelIf false = timer := by
  unfold cancelIf
  rw [Bool.or_false]

@[simp] theorem fired_id (timer : Timer) : timer.fired.id = timer.id := by
  unfold fired
  split <;> rfl

@[simp] theorem fired_interval (timer : Timer) : timer.fired.interval = timer.interval := by
  unfold fired
  split <;> rfl

@[simp] theorem afterFired_id (f : Fired E) (timer : Timer) : (timer.afterFired f).id = timer.id := by
  unfold afterFired
  split_ifs <;> simp

@[simp] theorem afterFired_interval (f : Fired E) (timer : Timer) :
    (timer.afterFired f).interval = timer.interval := by
  unfold afterFired
  split_ifs <;> simp

private theorem afterFired_cancelled {f : Fired E} {timer : Timer} (h : timer.cancelled = true) :
    (timer.afterFired f).cancelled = true := by
  unfold afterFired cancelIf fired
  split_ifs
  · split <;> simp [h]
  · simp [h]

private theorem afterFired_of_ne {f : Fired E} {timer : Timer} (hid : f.id ≠ timer.id)
    (hclear : timer.id ∉ f.cleared) : timer.afterFired f = timer := by
  have hcleared : f.cleared.contains timer.id = false := by simpa using hclear
  unfold afterFired
  rw [if_neg (Ne.symm hid), hcleared]
  exact cancelIf_false timer

@[simp] theorem through_nil (timer : Timer) : timer.through ([] : List (Fired E)) = timer := rfl

theorem through_cons (f : Fired E) (trace : List (Fired E)) (timer : Timer) :
    timer.through (f :: trace) = (timer.afterFired f).through trace := rfl

theorem through_append (trace trace' : List (Fired E)) (timer : Timer) :
    timer.through (trace ++ trace') = (timer.through trace).through trace' :=
  List.foldl_append

@[simp] theorem through_id (trace : List (Fired E)) (timer : Timer) :
    (timer.through trace).id = timer.id := by
  induction trace generalizing timer with
  | nil => rfl
  | cons f trace ih => rw [through_cons, ih, afterFired_id]

@[simp] theorem through_interval (trace : List (Fired E)) (timer : Timer) :
    (timer.through trace).interval = timer.interval := by
  induction trace generalizing timer with
  | nil => rfl
  | cons f trace ih => rw [through_cons, ih, afterFired_interval]

theorem through_cancelled {trace : List (Fired E)} {timer : Timer} (h : timer.cancelled = true) :
    (timer.through trace).cancelled = true := by
  induction trace generalizing timer with
  | nil => exact h
  | cons f trace ih => exact ih (afterFired_cancelled h)

theorem through_of_ne {trace : List (Fired E)} {timer : Timer}
    (hid : ∀ f ∈ trace, f.id ≠ timer.id)
    (hclear : ∀ f ∈ trace, timer.id ∉ f.cleared) :
    timer.through trace = timer := by
  induction trace with
  | nil => rfl
  | cons f trace ih =>
    have hstep : timer.afterFired f = timer :=
      afterFired_of_ne (hid f (List.mem_cons_self ..)) (hclear f (List.mem_cons_self ..))
    rw [through_cons, hstep]
    exact ih (fun g hg => hid g (List.mem_cons_of_mem _ hg))
      (fun g hg => hclear g (List.mem_cons_of_mem _ hg))

private theorem through_cleared {trace : List (Fired E)} {timer : Timer} {f : Fired E} (hf : f ∈ trace)
    (hclear : timer.id ∈ f.cleared) :
    (timer.through trace).cancelled = true := by
  obtain ⟨pre, post, rfl⟩ := List.append_of_mem hf
  rw [through_append, through_cons]
  apply through_cancelled
  unfold afterFired
  rw [through_id]
  simp [cancelIf, hclear]

theorem through_finished {trace : List (Fired E)} {timer : Timer} {f : Fired E} (hf : f ∈ trace)
    (hid : f.id = timer.id) (hinterval : timer.interval = none) :
    (timer.through trace).cancelled = true := by
  obtain ⟨pre, post, rfl⟩ := List.append_of_mem hf
  rw [through_append, through_cons]
  apply through_cancelled
  unfold afterFired
  rw [through_id, if_pos hid.symm]
  unfold fired
  rw [through_interval, hinterval]
  rfl

end Timer

/-- The timers of `t` are still there in `t'`, in their places, as `g` makes them; those added
come after them. -/
structure Timers.Moved (g : Timer → Timer) (t t' : Timers) : Prop where
  live : ∃ added, t'.live = t.live.map g ++ added ∧ ∀ a ∈ added, t.nextTimerId ≤ a.id
  counter : t.nextTimerId ≤ t'.nextTimerId
  consistent : t'.Consistent
  distinct : (t.live.map (·.id)).Nodup → (t'.live.map (·.id)).Nodup

/-- What one event after another keeps: a timer that is over stays so. -/
structure Timers.Later (t t' : Timers) : Prop where
  consistent : t'.Consistent
  gone : ∀ id, t.Gone id → t'.Gone id

/-- What every call keeps, also one that is cut off: no timer comes to stand twice. -/
structure Timers.Kept (t t' : Timers) : Prop extends t.Later t' where
  distinct : (t.live.map (·.id)).Nodup → (t'.live.map (·.id)).Nodup

namespace Timers

variable {t t' t'' : Timers} {g h : Timer → Timer}

theorem Moved.refl (ht : t.Consistent) : t.Moved id t where
  live := ⟨[], by rw [List.map_id, List.append_nil], nofun⟩
  counter := le_rfl
  consistent := ht
  distinct h := h

theorem Moved.trans (hg : t.Moved g t') (hh : t'.Moved h t'') (hid : ∀ a, (h a).id = a.id) :
    t.Moved (h ∘ g) t'' where
  live := by
    obtain ⟨added, hlive, hadded⟩ := hg.live
    obtain ⟨added', hlive', hadded'⟩ := hh.live
    refine ⟨added.map h ++ added', ?_, ?_⟩
    · rw [hlive', hlive, List.map_append, List.map_map, List.append_assoc]
    · intro a ha
      rcases List.mem_append.mp ha with ha | ha
      · obtain ⟨b, hb, rfl⟩ := List.mem_map.mp ha
        rw [hid]
        exact hadded b hb
      · exact hg.counter.trans (hadded' a ha)
  counter := hg.counter.trans hh.counter
  consistent := hh.consistent
  distinct h := hh.distinct (hg.distinct h)

theorem Later.refl (ht : t.Consistent) : t.Later t := ⟨ht, fun _ h => h⟩

theorem Later.trans (h : t.Later t') (h' : t'.Later t'') : t.Later t'' where
  consistent := h'.consistent
  gone id hid := h'.gone id (h.gone id hid)

theorem Kept.refl (ht : t.Consistent) : t.Kept t := ⟨.refl ht, fun h => h⟩

theorem Kept.trans (h : t.Kept t') (h' : t'.Kept t'') : t.Kept t'' :=
  ⟨h.toLater.trans h'.toLater, fun hd => h'.distinct (h.distinct hd)⟩

/-- What is over stays so. -/
theorem Moved.kept (hg : t.Moved g t') (hid : ∀ a, (g a).id = a.id)
    (hcancelled : ∀ a, a.cancelled = true → (g a).cancelled = true) : t.Kept t' where
  distinct := hg.distinct
  consistent := hg.consistent
  gone id hgone := by
    obtain ⟨added, hlive, hadded⟩ := hg.live
    refine ⟨hgone.1.trans_le hg.counter, ?_⟩
    intro a ha haid
    rw [hlive] at ha
    rcases List.mem_append.mp ha with ha | ha
    · obtain ⟨b, hb, rfl⟩ := List.mem_map.mp ha
      have hover : b.cancelled = true := by
        have hb' := hgone.2 b hb ((hid b).symm.trans haid)
        unfold Timer.Live at hb'
        simpa using hb'
      unfold Timer.Live
      rw [hcancelled b hover]
      simp
    · have := hadded a ha
      have := hgone.1
      omega

theorem Consistent.later_of_subset (ht : t.Consistent) (hlive : t'.live ⊆ t.live)
    (hnext : t'.nextTimerId = t.nextTimerId) : t.Later t' where
  consistent :=
    { objects := fun a ha b hb => ht.objects a (hlive ha) b (hlive hb)
      bounded := fun a ha => hnext ▸ ht.bounded a (hlive ha) }
  gone id hgone := by
    refine ⟨hnext ▸ hgone.1, ?_⟩
    intro a ha
    exact hgone.2 a (hlive ha)

theorem Consistent.moved_of_map (ht : t.Consistent) (hlive : t'.live = t.live.map g)
    (hnext : t'.nextTimerId = t.nextTimerId) (hid : ∀ a, (g a).id = a.id) : t.Moved g t' where
  live := ⟨[], by rw [hlive, List.append_nil], nofun⟩
  counter := hnext.ge
  consistent := by
    constructor
    · intro a ha b hb hab
      rw [hlive] at ha hb
      obtain ⟨x, hx, rfl⟩ := List.mem_map.mp ha
      obtain ⟨y, hy, rfl⟩ := List.mem_map.mp hb
      rw [hid, hid] at hab
      rw [ht.objects x hx y hy hab]
    · intro a ha
      rw [hlive] at ha
      obtain ⟨x, hx, rfl⟩ := List.mem_map.mp ha
      rw [hid, hnext]
      exact ht.bounded x hx
  distinct h := by
    have hids : t'.live.map (·.id) = t.live.map (·.id) := by
      rw [hlive, List.map_map]
      exact List.map_congr_left fun a _ => hid a
    rw [hids]
    exact h

end Timers

namespace Scheduled
open Timers

variable {s : Scheduled}

private theorem addTimer_timers (now wait : Double) (repeats : Bool) (s : Scheduled) :
    (s.addTimer now wait repeats).timers.live =
        s.timers.live ++ [⟨s.timers.nextTimerId, add now wait,
          if repeats then some wait else none, false⟩] ∧
      (s.addTimer now wait repeats).timers.nextTimerId = s.timers.nextTimerId + 1 := by
  unfold addTimer
  dsimp only
  split_ifs <;> exact ⟨rfl, rfl⟩

/-- A timer joins the others, under the counter's id. -/
theorem moved_of_added {t t' : Timers} (ht : t.Consistent) {timer : Timer}
    (hlive : t'.live = t.live ++ [timer]) (hid : timer.id = t.nextTimerId)
    (hnext : t'.nextTimerId = t.nextTimerId + 1) : t.Moved id t' := by
  have hnew : ∀ a ∈ t.live, a.id ≠ timer.id := fun a ha => hid ▸ (ht.bounded a ha).ne
  constructor
  · refine ⟨[timer], by rw [hlive, List.map_id], ?_⟩
    intro a ha
    rw [List.mem_singleton.mp ha, hid]
  · omega
  · constructor
    · intro a ha b hb hab
      rw [hlive] at ha hb
      rcases List.mem_append.mp ha with ha | ha <;> rcases List.mem_append.mp hb with hb | hb
      · exact ht.objects a ha b hb hab
      · rw [List.mem_singleton.mp hb] at hab
        exact absurd hab (hnew a ha)
      · rw [List.mem_singleton.mp ha] at hab
        exact absurd hab.symm (hnew b hb)
      · rw [List.mem_singleton.mp ha, List.mem_singleton.mp hb]
    · intro a ha
      rw [hlive] at ha
      rw [hnext]
      rcases List.mem_append.mp ha with ha | ha
      · have := ht.bounded a ha
        omega
      · rw [List.mem_singleton.mp ha, hid]
        exact Nat.lt_succ_self _
  · intro h
    rw [hlive, List.map_append]
    apply h.append (List.nodup_singleton _)
    intro i hi hnext
    obtain ⟨a, ha, rfl⟩ := List.mem_map.mp hi
    exact hnew a ha (List.mem_singleton.mp hnext)

private theorem addTimer_moved (hs : s.timers.Consistent) (now wait : Double) (repeats : Bool) :
    s.timers.Moved id (s.addTimer now wait repeats).timers := by
  obtain ⟨hlive, hnext⟩ := addTimer_timers now wait repeats s
  exact moved_of_added hs hlive rfl hnext

theorem moved_of_marked {t t' : Timers} (ht : t.Consistent) {id : Nat}
    (hlive : t'.live = modify id (fun timer => { timer with cancelled := true }) t.live)
    (hnext : t'.nextTimerId = t.nextTimerId) :
    t.Moved (fun a => if a.id = id then { a with cancelled := true } else a) t' := by
  apply ht.moved_of_map hlive hnext
  intro a
  split_ifs <;> rfl

theorem reschedule_moved {t : Timers} {g : Timer → Timer} (h : t.Moved g s.timers) :
    t.Moved g s.reschedule.timers :=
  ⟨h.live, h.counter, ⟨h.consistent.objects, h.consistent.bounded⟩, h.distinct⟩

theorem clearedBy_clear (now : Double) (s : Scheduled) (id : Nat) (calls : List TimerCall) :
    s.clearedBy now (.clear id :: calls) =
      (if (s.timers.live.find? fun timer => timer.id = id ∧ id ∈ s.timers.byId).isSome then [id]
        else []) ++ (s.clearTimer id).clearedBy now calls := rfl

theorem clearedBy_cons (now : Double) (s : Scheduled) (call : TimerCall)
    (calls : List TimerCall) :
    s.clearedBy now (call :: calls) =
      s.clearedBy now [call] ++ (call.run now s).clearedBy now calls := by
  cases call with
  | set wait repeats => rfl
  | clear id =>
    have hone : (s.clearTimer id).clearedBy now [] = [] := rfl
    rw [clearedBy_clear, clearedBy_clear, hone, List.append_nil]
    rfl

theorem cancelIf_nil : (fun a : Timer => a.cancelIf (([] : List Nat).contains a.id)) = id :=
  funext Timer.cancelIf_false

theorem clearTimer_moved (hs : s.timers.Consistent) (now : Double) (id : Nat) :
    s.timers.Moved (fun a => a.cancelIf ((s.clearedBy now [.clear id]).contains a.id))
      (s.clearTimer id).timers := by
  have hone : (s.clearTimer id).clearedBy now [] = [] := rfl
  rw [clearedBy_clear, hone, List.append_nil]
  unfold clearTimer
  cases hfind : s.timers.live.find? fun timer => timer.id = id ∧ id ∈ s.timers.byId with
  | none =>
    rw [if_neg (by simp), cancelIf_nil]
    exact .refl hs
  | some timer =>
    rw [if_pos (Option.isSome_some ..)]
    have hg : ∀ a : Timer, a.cancelIf ([id].contains a.id) =
        if a.id = id then { a with cancelled := true } else a := by
      intro a
      unfold Timer.cancelIf
      split_ifs with hid <;> simp [hid]
    have hretired : s.timers.Moved (fun a => a.cancelIf ([id].contains a.id))
        (retire id s.timers) := by
      rw [funext hg]
      exact moved_of_marked hs rfl rfl
    dsimp only
    split_ifs
    · exact reschedule_moved hretired
    · exact hretired

theorem call_moved (hs : s.timers.Consistent) (now : Double) (call : TimerCall) :
    s.timers.Moved (fun a => a.cancelIf ((s.clearedBy now [call]).contains a.id))
      (call.run now s).timers := by
  cases call with
  | set wait repeats => exact cancelIf_nil ▸ addTimer_moved hs now wait repeats
  | clear id => exact clearTimer_moved hs now id

theorem perform_moved (hs : s.timers.Consistent) (now : Double) (calls : List TimerCall) :
    s.timers.Moved (fun a => a.cancelIf ((s.clearedBy now calls).contains a.id))
      (s.perform now calls).timers := by
  induction calls generalizing s with
  | nil => exact cancelIf_nil ▸ .refl hs
  | cons call calls ih =>
    have hcall := call_moved hs now call
    have hboth := hcall.trans (ih hcall.consistent) (fun a => rfl)
    have hg : ((fun a : Timer => a.cancelIf (((call.run now s).clearedBy now calls).contains a.id)) ∘
        fun a : Timer => a.cancelIf ((s.clearedBy now [call]).contains a.id)) =
          fun a : Timer => a.cancelIf ((s.clearedBy now (call :: calls)).contains a.id) := by
      funext a
      have hboth : (s.clearedBy now (call :: calls)).contains a.id =
          ((s.clearedBy now [call]).contains a.id ||
            ((call.run now s).clearedBy now calls).contains a.id) := by
        rw [clearedBy_cons, List.contains_append]
      rw [hboth]
      unfold Timer.cancelIf
      rw [← Bool.or_assoc]
      rfl
    rw [hg] at hboth
    exact hboth

theorem cancelIf_kept {t t' : Timers} {p : Timer → Bool}
    (h : t.Moved (fun a => a.cancelIf (p a)) t') : t.Kept t' := by
  refine h.kept (fun a => rfl) ?_
  intro a ha
  unfold Timer.cancelIf
  rw [ha]
  rfl

private theorem marked_kept {t t' : Timers} {id : Nat}
    (h : t.Moved (fun a => if a.id = id then { a with cancelled := true } else a) t') :
    t.Kept t' := by
  refine h.kept ?_ ?_
  · intro a
    split_ifs <;> rfl
  · intro a ha
    split_ifs
    · rfl
    · exact ha

/-- An abort that strikes a call leaves it half done, and nothing worse. -/
theorem cutAt_kept (hs : s.timers.Consistent) (now : Double) (call : TimerCall)
    (stage : CallStage) : s.timers.Kept (call.cutAt now s stage).timers := by
  cases call with
  | set wait repeats =>
    have hadded : ∀ {t : Timers}, t.live = s.timers.live ++ [⟨s.timers.nextTimerId, add now wait,
        if repeats then some wait else none, false⟩] →
        t.nextTimerId = s.timers.nextTimerId + 1 → s.timers.Kept t := by
      intro t hlive hnext
      exact (moved_of_added hs hlive rfl hnext).kept (fun _ => rfl) fun _ h => h
    cases stage with
    | counted =>
      refine ⟨⟨⟨hs.objects, fun a ha => ?_⟩, fun id hid => ⟨?_, hid.2⟩⟩, fun h => h⟩
      · exact (hs.bounded a ha).trans (Nat.lt_succ_self _)
      · exact hid.1.trans (Nat.lt_succ_self _)
    | listed | known | lowered => exact hadded rfl rfl
    | marked | retired => exact .refl hs
  | clear id =>
    have hmarked : ∀ {t : Timers},
        t.live = modify id (fun timer => { timer with cancelled := true }) s.timers.live →
        t.nextTimerId = s.timers.nextTimerId → s.timers.Kept t :=
      fun hlive hnext => marked_kept (moved_of_marked hs hlive hnext)
    show s.timers.Kept (s.clearTimerTo stage id).timers
    unfold clearTimerTo
    split
    · exact .refl hs
    · cases stage with
      | marked | retired | lowered => exact hmarked rfl rfl
      | counted | listed | known => exact .refl hs

private theorem perform_kept (hs : s.timers.Consistent) (now : Double) (did : Callback E) :
    s.timers.Kept (did.perform now s).timers := by
  have hcalled : s.timers.Kept (s.perform now did.calls).timers :=
    cancelIf_kept (perform_moved hs now did.calls)
  unfold Callback.perform
  dsimp only
  split
  · exact hcalled.trans (cutAt_kept hcalled.consistent _ _ _)
  · exact hcalled

/-- A timer that is not cancelled has its turn. -/
theorem fire_cases {t : Timers} (ht : t.Consistent) (id : Nat) :
    (fire id t = none ∧ ∀ a ∈ t.live, a.id = id → a.cancelled = true) ∨
      (∃ t', fire id t = some t' ∧ (∃ a ∈ t.live, a.id = id ∧ a.cancelled = false) ∧
        t.Moved (fun a => if a.id = id then a.fired else a) t') := by
  unfold fire
  split
  · next hnone =>
    refine .inl ⟨rfl, fun a ha hid => ?_⟩
    simpa [hid] using List.find?_eq_none.mp hnone a ha
  · next timer hfind =>
    have hmem := List.mem_of_find?_eq_some hfind
    have hid : timer.id = id := by simpa using List.find?_some hfind
    have hsame : ∀ a ∈ t.live, a.id = id → a = timer :=
      fun a ha haid => ht.objects a ha timer hmem (haid.trans hid.symm)
    split_ifs with hcancelled
    · exact .inl ⟨rfl, fun a ha haid => hsame a ha haid ▸ hcancelled⟩
    · refine .inr ?_
      have hlive : timer.cancelled = false := by simpa using hcancelled
      split
      · next hinterval =>
        refine ⟨_, rfl, ⟨timer, hmem, hid, hlive⟩, ?_⟩
        have hretired : t.Moved (fun a => if a.id = id then { a with cancelled := true } else a)
            (retire id t) := moved_of_marked ht rfl rfl
        refine ⟨?_, hretired.counter, hretired.consistent, hretired.distinct⟩
        obtain ⟨added, hmap, hadded⟩ := hretired.live
        refine ⟨added, ?_, hadded⟩
        rw [hmap]
        congr 1
        apply List.map_congr_left
        intro a ha
        split_ifs with haid
        · rw [hsame a ha haid]
          unfold Timer.fired
          rw [hinterval]
        · rfl
      · next interval hinterval =>
        refine ⟨_, rfl, ⟨timer, hmem, hid, hlive⟩, ?_⟩
        apply ht.moved_of_map
        · show modify id _ t.live = _
          apply List.map_congr_left
          intro a ha
          split_ifs with haid
          · rw [hsame a ha haid]
            unfold Timer.fired
            simp only [hinterval]
          · rfl
        · rfl
        · intro a
          split_ifs <;> simp

end Scheduled

def RunEnd.error : RunEnd E → Option E
  | .threw error => some error
  | _ => none

/-- The first error that a callback threw. -/
def firstError (trace : List (Fired E)) : Option E := trace.findSome? (·.did.ending.error)

/-- The turns of a run that starts with the timers `t`: which of the timers `due` are fired, when
those of `trace` have been. -/
inductive Turns (t : Timers) : List (Fired E) → List Nat → List (Fired E) → Prop
  | nil (trace : List (Fired E)) : Turns t trace [] []
  | skip {trace : List (Fired E)} {id : Nat} {due : List Nat} {rest : List (Fired E)}
      (hskip : ∀ a ∈ t.live, a.id = id → (a.through trace).cancelled = true)
      (h : Turns t trace due rest) : Turns t trace (id :: due) rest
  | fire {trace : List (Fired E)} {f : Fired E} {id : Nat} {due : List Nat}
      {rest : List (Fired E)} (hid : f.id = id)
      (hlive : ∃ a ∈ t.live, a.id = f.id ∧ (a.through trace).cancelled = false)
      (h : Turns t (trace ++ [f]) due rest) : Turns t trace (id :: due) (f :: rest)

/-- Whether the id is that of an interval. -/
def Timers.isInterval (t : Timers) (id : Nat) : Bool :=
  t.live.any fun a => a.id = id && a.interval.isSome

theorem isInterval_iff {t : Timers} {id : Nat} :
    t.isInterval id = true ↔ ∃ a ∈ t.live, a.id = id ∧ a.interval.isSome = true := by
  unfold Timers.isInterval
  simp

namespace Turns

variable {t : Timers} {trace rest : List (Fired E)} {due due' : List Nat}

theorem split (h : Turns t trace (due ++ due') rest) :
    ∃ first second, rest = first ++ second ∧ Turns t trace due first ∧
      Turns t (trace ++ first) due' second := by
  induction due generalizing trace rest with
  | nil => exact ⟨[], rest, rfl, .nil _, by rw [List.append_nil]; exact h⟩
  | cons id due ih =>
    cases h with
    | skip hskip h =>
      obtain ⟨first, second, rfl, hfirst, hsecond⟩ := ih h
      exact ⟨first, second, rfl, .skip hskip hfirst, hsecond⟩
    | fire hid hlive h =>
      obtain ⟨first, second, rfl, hfirst, hsecond⟩ := ih h
      refine ⟨_ :: first, second, rfl, .fire hid hlive hfirst, ?_⟩
      rw [List.append_assoc] at hsecond
      exact hsecond

theorem sublist (h : Turns t trace due rest) : (rest.map (·.id)).Sublist due := by
  induction h with
  | nil => exact .slnil
  | skip _ _ ih => exact ih.cons _
  | fire hid _ _ ih =>
    subst hid
    exact ih.cons_cons _

theorem not_mem_of_over (h : Turns t trace due rest) {id : Nat}
    (hover : ∀ a ∈ t.live, a.id = id → (a.through trace).cancelled = true) :
    id ∉ rest.map (·.id) := by
  induction h with
  | nil => exact List.not_mem_nil
  | skip _ _ ih => exact ih hover
  | fire hid hlive _ ih =>
    intro hmem
    rcases List.mem_cons.mp hmem with rfl | hmem
    · obtain ⟨a, ha, haid, hal⟩ := hlive
      have := hover a ha haid
      simp [hal] at this
    · refine ih (fun a ha haid => ?_) hmem
      rw [Timer.through_append]
      exact Timer.through_cancelled (hover a ha haid)

theorem over_of_timeout (h : Turns t trace due rest) {a : Timer} (ha : a ∈ t.live)
    (hid : a.id ∈ due) (hinterval : a.interval = none) :
    (a.through (trace ++ rest)).cancelled = true := by
  induction h with
  | nil => cases hid
  | @skip trace id due rest hskip _ ih =>
    rcases List.mem_cons.mp hid with hid | hid
    · rw [Timer.through_append]
      exact Timer.through_cancelled (hskip a ha hid)
    · exact ih hid
  | @fire trace f id due rest hfid hlive _ ih =>
    subst hfid
    rcases List.mem_cons.mp hid with hid | hid
    · exact Timer.through_finished
        (List.mem_append_right _ (List.mem_cons_self ..)) hid.symm hinterval
    · have hrest := ih hid
      rw [List.append_assoc] at hrest
      exact hrest

/-- No timer is fired twice, unless an interval stands twice among those due. -/
theorem nodup (h : Turns t trace due rest)
    (hdue : (due.filter t.isInterval).Nodup)
    (hfirst : ∀ id ∈ due, (∃ a ∈ t.live, a.id = id ∧ a.interval.isSome = true) →
      id ∉ trace.map (·.id)) :
    (rest.map (·.id)).Nodup ∧ ∀ id ∈ rest.map (·.id), id ∉ trace.map (·.id) := by
  induction h with
  | nil => exact ⟨List.nodup_nil, nofun⟩
  | skip _ _ ih =>
    apply ih
    · exact hdue.sublist ((List.sublist_cons_self ..).filter _)
    · exact fun i hi => hfirst i (List.mem_cons_of_mem _ hi)
  | @fire trace f id due rest hfid hlive hrest ih =>
    subst hfid
    obtain ⟨a, ha, haid, hal⟩ := hlive
    have hsub := hrest.sublist
    -- an interval has no other turn; a timeout whose turn came would be over
    have hnew : f.id ∉ trace.map (·.id) := by
      cases hinterval : a.interval with
      | some interval =>
        apply hfirst f.id (List.mem_cons_self ..)
        exact ⟨a, ha, haid, by rw [hinterval]; rfl⟩
      | none =>
        intro hmem
        obtain ⟨g, hg, hgid⟩ := List.mem_map.mp hmem
        have := Timer.through_finished hg (hgid.trans haid.symm) hinterval
        simp [hal] at this
    have hothers : ∀ id ∈ due, (∃ a ∈ t.live, a.id = id ∧ a.interval.isSome = true) →
        id ∉ (trace ++ [f]).map (·.id) := by
      intro id hid hinterval hmem
      rw [List.map_append, List.map_singleton] at hmem
      rcases List.mem_append.mp hmem with hmem | hmem
      · exact hfirst id (List.mem_cons_of_mem _ hid) hinterval hmem
      · rw [List.mem_singleton.mp hmem] at hid hinterval
        have hsome : t.isInterval f.id = true := isInterval_iff.mpr hinterval
        rw [List.filter_cons, if_pos hsome] at hdue
        exact (List.nodup_cons.mp hdue).1 (List.mem_filter.mpr ⟨hid, hsome⟩)
    obtain ⟨hnodup, hdisjoint⟩ := ih
      (hdue.sublist ((List.sublist_cons_self ..).filter _)) hothers
    refine ⟨?_, ?_⟩
    · rw [List.map_cons]
      apply List.nodup_cons.mpr
      refine ⟨fun hmem => hdisjoint _ hmem ?_, hnodup⟩
      rw [List.map_append]
      exact List.mem_append_right _ (List.mem_singleton_self _)
    · intro id hid
      rcases List.mem_cons.mp hid with rfl | hid
      · exact hnew
      · intro hmem
        apply hdisjoint id hid
        rw [List.map_append]
        exact List.mem_append_left _ hmem

/-- A timer is fired unless a callback fired before its turn clears it. -/
theorem fires_iff {pre post : List Nat} {a : Timer} (ht : t.Consistent) (ha : a ∈ t.live)
    (hlive : a.Live) (h : Turns t [] (pre ++ a.id :: post) rest) (hpre : a.id ∉ pre)
    (hdue : ((pre ++ a.id :: post).filter t.isInterval).Nodup) :
    a.id ∈ rest.map (·.id) ↔
      ∀ f ∈ rest, f.id ∈ pre → a.id ∉ f.cleared := by
  obtain ⟨first, second, rfl, hfirst, hsecond⟩ := h.split
  rw [List.nil_append] at hsecond
  have hnot : ∀ f ∈ first, f.id ≠ a.id := by
    intro f hf hfa
    exact hpre (hfa ▸ hfirst.sublist.subset (List.mem_map_of_mem hf))
  have hsame : ∀ b ∈ t.live, b.id = a.id → b = a := fun b hb hba => ht.objects b hb a ha hba
  cases hsecond with
  | skip hskip hrest =>
    have hover : ¬∀ f ∈ first, a.id ∉ f.cleared := by
      intro hclear
      have hstays : a.through first = a := Timer.through_of_ne hnot hclear
      have := hskip a ha rfl
      rw [hstays, hlive] at this
      cases this
    constructor
    · intro hmem
      rw [List.map_append] at hmem
      rcases List.mem_append.mp hmem with hmem | hmem
      · obtain ⟨f, hf, hfa⟩ := List.mem_map.mp hmem
        exact absurd hfa (hnot f hf)
      · exact absurd hmem (hrest.not_mem_of_over hskip)
    · intro hclear
      refine absurd (fun f hf => ?_) hover
      exact hclear f (List.mem_append_left _ hf) (hfirst.sublist.subset (List.mem_map_of_mem hf))
  | @fire _ e _ _ rest hid he hrest =>
    obtain ⟨b, hb, hba, hbl⟩ := he
    rw [hsame b hb (hba.trans hid)] at hbl
    constructor
    · intro _ f hf hfpre hclear
      rcases List.mem_append.mp hf with hf | hf
      · have := Timer.through_cleared hf hclear
        simp [hbl] at this
      rcases List.mem_cons.mp hf with rfl | hf
      · exact hpre (hid ▸ hfpre)
      · -- its turn came before, so it is an interval, and stands twice
        have hfid : f.id ∈ rest.map (·.id) := List.mem_map_of_mem hf
        have hfpost : f.id ∈ post := hrest.sublist.subset hfid
        by_cases hinterval : t.isInterval f.id = true
        · rw [List.filter_append, List.filter_cons] at hdue
          have hdisjoint := List.disjoint_of_nodup_append hdue
          apply hdisjoint (List.mem_filter.mpr ⟨hfpre, hinterval⟩)
          have hlater := List.mem_filter.mpr ⟨hfpost, hinterval⟩
          split_ifs
          · exact List.mem_cons_of_mem _ hlater
          · exact hlater
        · apply hrest.not_mem_of_over _ hfid
          intro c hc hcf
          rw [Timer.through_append]
          apply Timer.through_cancelled
          apply hfirst.over_of_timeout hc
          · rw [hcf]
            exact hfpre
          · by_contra hsome
            apply hinterval
            exact isInterval_iff.mpr ⟨c, hc, hcf, Option.isSome_iff_ne_none.mpr hsome⟩
    · intro _
      rw [List.map_append, List.map_cons, hid]
      exact List.mem_append_right _ (List.mem_cons_self ..)

end Turns

theorem Timer.through_idle {trace : List (Fired E)} {a : Timer}
    (hinterval : a.interval.isSome = true) (htrace : ∀ f ∈ trace, f.cleared = []) :
    (a.through trace).cancelled = a.cancelled := by
  induction trace generalizing a with
  | nil => rfl
  | cons f trace ih =>
    have hstep : (a.afterFired f).cancelled = a.cancelled := by
      obtain ⟨interval, hsome⟩ := Option.isSome_iff_exists.mp hinterval
      unfold Timer.afterFired Timer.cancelIf Timer.fired
      rw [htrace f (List.mem_cons_self ..), hsome]
      split_ifs <;> exact Bool.or_false _
    rw [Timer.through_cons, ih, hstep]
    · rw [Timer.afterFired_interval]
      exact hinterval
    · exact fun g hg => htrace g (List.mem_cons_of_mem _ hg)

/-- While no callback clears anything every interval due has all its turns. -/
theorem Turns.intervals_sublist {t : Timers} {trace rest : List (Fired E)} {due : List Nat}
    (h : Turns t trace due rest) (hlive : ∀ id ∈ due, ∃ a ∈ t.live, a.id = id ∧ a.Live)
    (ht : t.Consistent) (htrace : ∀ f ∈ trace, f.cleared = [])
    (hrest : ∀ f ∈ rest, f.cleared = []) :
    (due.filter t.isInterval).Sublist (rest.map (·.id)) := by
  induction h with
  | nil => exact .slnil
  | @skip trace id due rest hskip _ ih =>
    have hdue := ih (fun i hi => hlive i (List.mem_cons_of_mem _ hi)) htrace hrest
    have hnot : t.isInterval id = false := by
      apply Bool.eq_false_iff.mpr
      intro hinterval
      obtain ⟨a, ha, haid, hsome⟩ := isInterval_iff.mp hinterval
      obtain ⟨b, hb, hbid, hbl⟩ := hlive id (List.mem_cons_self ..)
      rw [ht.objects b hb a ha (hbid.trans haid.symm)] at hbl
      have hover := hskip a ha haid
      rw [Timer.through_idle hsome htrace, hbl] at hover
      cases hover
    rw [List.filter_cons, hnot]
    exact hdue
  | @fire trace f id due rest hid _ _ ih =>
    have hdue := ih (fun i hi => hlive i (List.mem_cons_of_mem _ hi)) (by
      intro g hg
      rcases List.mem_append.mp hg with hg | hg
      · exact htrace g hg
      · rw [List.mem_singleton.mp hg]
        exact hrest f (List.mem_cons_self ..)) (fun g hg => hrest g (List.mem_cons_of_mem _ hg))
    rw [List.filter_cons, List.map_cons, hid]
    split_ifs
    · exact hdue.cons_cons _
    · exact hdue.cons _

namespace Scheduled
open Timers

variable {s : Scheduled}

private theorem perform_calls (now : Double) (s : Scheduled) {did : Callback E}
    (hending : did.ending ≠ .aborted) : did.perform now s = s.perform now did.calls := by
  unfold Callback.perform
  split
  · next habort _ => exact absurd habort hending
  · rfl

/-- A timer that a call clears is over. -/
theorem gone_of_clear (hs : s.timers.Consistent) (now : Double) (call : TimerCall) {id : Nat}
    (hid : id ∈ s.clearedBy now [call]) : (call.run now s).timers.Gone id := by
  have hmoved := call_moved hs now call
  obtain ⟨added, hlive, hadded⟩ := hmoved.live
  have hbound : id < s.timers.nextTimerId := by
    cases call with
    | set wait repeats => cases hid
    | clear cleared =>
      have hone : (s.clearTimer cleared).clearedBy now [] = [] := rfl
      rw [clearedBy_clear, hone, List.append_nil] at hid
      split_ifs at hid with hfind
      · rw [List.mem_singleton.mp hid]
        obtain ⟨timer, hfind⟩ := Option.isSome_iff_exists.mp hfind
        have hfound := List.find?_some hfind
        rw [decide_eq_true_eq] at hfound
        have := hs.bounded timer (List.mem_of_find?_eq_some hfind)
        omega
      · cases hid
  refine ⟨hbound.trans_le hmoved.counter, fun a ha haid => ?_⟩
  rw [hlive] at ha
  rcases List.mem_append.mp ha with ha | ha
  · obtain ⟨b, hb, rfl⟩ := List.mem_map.mp ha
    have hbid : b.id = id := haid
    have hcontains : (s.clearedBy now [call]).contains b.id = true := by
      rw [hbid]
      exact List.contains_iff_mem.mpr hid
    rw [hcontains]
    unfold Timer.Live Timer.cancelIf
    simp
  · have := hadded a ha
    omega

private theorem gone_of_clearedBy (hs : s.timers.Consistent) (now : Double) (calls : List TimerCall)
    {id : Nat} (hid : id ∈ s.clearedBy now calls) : (s.perform now calls).timers.Gone id := by
  induction calls generalizing s with
  | nil => cases hid
  | cons call calls ih =>
    have hcall := (call_moved hs now call).consistent
    rw [clearedBy_cons] at hid
    rcases List.mem_append.mp hid with hid | hid
    · have hrest := cancelIf_kept (perform_moved hcall now calls)
      exact hrest.gone id (gone_of_clear hs now call hid)
    · exact ih hcall hid

private theorem gone_of_performed (hs : s.timers.Consistent) (now : Double) (did : Callback E) {id : Nat}
    (hid : id ∈ s.clearedBy now did.calls) : (did.perform now s).timers.Gone id := by
  have hgone := gone_of_clearedBy hs now did.calls hid
  have hcalled := (perform_moved hs now did.calls).consistent
  unfold Callback.perform
  dsimp only
  split
  · exact (cutAt_kept hcalled _ _ _).gone id hgone
  · exact hgone

end Scheduled

namespace Firing
open Timers

variable {t : Timers} {f : Firing E}

theorem moved_fired (hf : t.Moved (Timer.through f.trace) f.scheduled.timers) {e : Fired E}
    {now : Double} {before : Scheduled}
    (hfired : f.scheduled.timers.Moved (fun a => if a.id = e.id then a.fired else a) before.timers)
    (hcleared : e.cleared = before.clearedBy now e.did.calls) :
    t.Moved (Timer.through (f.trace ++ [e])) (before.perform now e.did.calls).timers := by
  have hids : ∀ a : Timer, (if a.id = e.id then a.fired else a).id = a.id := by
    intro a
    split_ifs
    · exact a.fired_id
    · rfl
  have hcalled := Scheduled.perform_moved hfired.consistent now e.did.calls
  rw [← hcleared] at hcalled
  have hboth := hf.trans (hfired.trans hcalled fun a => rfl) hids
  have hg : ((fun a : Timer => a.cancelIf (e.cleared.contains a.id)) ∘
      fun a : Timer => if a.id = e.id then a.fired else a) = fun a => a.afterFired e := by
    funext a
    show (if a.id = e.id then a.fired else a).cancelIf
      (e.cleared.contains (if a.id = e.id then a.fired else a).id) = _
    rw [hids]
    rfl
  rw [hg] at hboth
  have hthrough : (fun a : Timer => a.afterFired e) ∘ Timer.through f.trace =
      Timer.through (f.trace ++ [e]) := by
    funext a
    rw [Timer.through_append]
    rfl
  rw [hthrough] at hboth
  exact hboth

/-- One turn: a timer that is over is passed by, and any other is fired. -/
theorem fire_spec (hf : t.Moved (Timer.through f.trace) f.scheduled.timers) {id : Nat}
    (hid : ∃ a ∈ t.live, a.id = id) (callbacks : Callbacks E) (now : Double) :
    (f.fire callbacks now id = f ∧
        ∀ a ∈ t.live, a.id = id → (a.through f.trace).cancelled = true) ∨
      (∃ e : Fired E, e.id = id ∧ (f.fire callbacks now id).trace = f.trace ++ [e] ∧
        (∃ a ∈ t.live, a.id = id ∧ (a.through f.trace).cancelled = false) ∧
        (f.fire callbacks now id).failure = f.failure.or e.did.ending.error ∧
        ((f.fire callbacks now id).aborted = false →
          t.Moved (Timer.through (f.trace ++ [e]))
            (f.fire callbacks now id).scheduled.timers)) := by
  obtain ⟨added, hlive, hadded⟩ := hf.live
  have hin : ∀ a ∈ t.live, a.through f.trace ∈ f.scheduled.timers.live := by
    intro a ha
    rw [hlive]
    exact List.mem_append_left _ (List.mem_map_of_mem ha)
  unfold Firing.fire
  rcases Scheduled.fire_cases hf.consistent id with ⟨hnone, hover⟩ |
    ⟨timers, hsome, ⟨b, hb, hbid, hblive⟩, hmoved⟩
  · rw [hnone]
    refine .inl ⟨rfl, fun a ha haid => ?_⟩
    exact hover _ (hin a ha) (by rw [Timer.through_id, haid])
  · rw [hsome]
    dsimp only
    refine .inr ⟨_, rfl, rfl, ?_, ?_, fun hends => ?_⟩
    · obtain ⟨a, ha, haid⟩ := hid
      refine ⟨a, ha, haid, ?_⟩
      have hsame : a.through f.trace = b :=
        hf.consistent.objects _ (hin a ha) b hb (by rw [Timer.through_id, haid, hbid])
      rw [hsame]
      exact hblive
    · dsimp only
      cases (callbacks f.trace id).ending with
      | threw error => rfl
      | returned => exact Option.or_none.symm
      | aborted => exact Option.or_none.symm
    · have hending : (callbacks f.trace id).ending ≠ .aborted := by
        intro habort
        rw [habort] at hends
        cases hends
      rw [Scheduled.perform_calls now _ hending]
      exact moved_fired hf hmoved rfl

theorem firstError_cons (e : Fired E) (rest : List (Fired E)) :
    firstError (e :: rest) = e.did.ending.error.or (firstError rest) := by
  unfold firstError
  rw [List.findSome?_cons]
  cases e.did.ending.error <;> rfl

/-- The loop fires some of the timers, in the given order. -/
theorem fireAll_moved (hf : t.Moved (Timer.through f.trace) f.scheduled.timers) {due : List Nat}
    (hdue : ∀ id ∈ due, ∃ a ∈ t.live, a.id = id) (callbacks : Callbacks E) (now : Double) :
    ∃ rest, (f.fireAll callbacks now due).trace = f.trace ++ rest ∧
      (rest.map (·.id)).Sublist due ∧
      (f.fireAll callbacks now due).failure = f.failure.or (firstError rest) ∧
      ((f.fireAll callbacks now due).aborted = false → Turns t f.trace due rest ∧
        t.Moved (Timer.through (f.trace ++ rest))
          (f.fireAll callbacks now due).scheduled.timers) := by
  induction due generalizing f with
  | nil =>
    refine ⟨[], (List.append_nil _).symm, .slnil, Option.or_none.symm, fun _ => ⟨.nil _, ?_⟩⟩
    rw [List.append_nil]
    exact hf
  | cons id due ih =>
    have hrest : ∀ id ∈ due, ∃ a ∈ t.live, a.id = id :=
      fun i hi => hdue i (List.mem_cons_of_mem _ hi)
    unfold fireAll
    dsimp only
    rcases fire_spec hf (hdue id (List.mem_cons_self ..)) callbacks now with ⟨hsame, hover⟩ |
      ⟨e, rfl, htrace, hlive, hfailure, hmoved⟩
    · rw [hsame]
      split_ifs with habort
      · refine ⟨[], (List.append_nil _).symm, List.nil_sublist _, Option.or_none.symm, ?_⟩
        intro hno
        rw [habort] at hno
        cases hno
      · obtain ⟨rest, htrace, hsub, hfailure, hends⟩ := ih hf hrest
        refine ⟨rest, htrace, hsub.cons _, hfailure, fun hno => ?_⟩
        exact ⟨.skip hover (hends hno).1, (hends hno).2⟩
    · split_ifs with habort
      · refine ⟨[e], htrace, (List.nil_sublist _).cons_cons _, ?_, ?_⟩
        · rw [hfailure, firstError_cons]
          exact congrArg _ Option.or_none.symm
        · intro hno
          rw [habort] at hno
          cases hno
      · have hmoved := hmoved (by simpa using habort)
        rw [← htrace] at hmoved
        obtain ⟨rest, htrace', hsub, hfailure', hends⟩ := ih hmoved hrest
        rw [htrace, List.append_assoc] at htrace' hends
        refine ⟨e :: rest, htrace', hsub.cons_cons _, ?_, fun hno => ?_⟩
        · rw [hfailure', hfailure, firstError_cons, Option.or_assoc]
        · obtain ⟨hturns, hmoved'⟩ := hends hno
          exact ⟨.fire rfl hlive hturns, hmoved'⟩

theorem fire_kept (hf : f.scheduled.timers.Consistent) (callbacks : Callbacks E) (now : Double)
    (id : Nat) :
    f.scheduled.timers.Kept (f.fire callbacks now id).scheduled.timers ∧
      (f.fire callbacks now id = f ∨ ∃ e : Fired E,
        (f.fire callbacks now id).trace = f.trace ++ [e] ∧
        (∀ id' ∈ e.cleared, (f.fire callbacks now id).scheduled.timers.Gone id') ∧
        ∃ before : Scheduled, e.cleared = before.clearedBy now (callbacks f.trace id).calls) := by
  unfold Firing.fire
  rcases Scheduled.fire_cases hf id with ⟨hnone, -⟩ | ⟨timers, hsome, -, hmoved⟩
  · rw [hnone]
    exact ⟨.refl hf, .inl rfl⟩
  · rw [hsome]
    have hfired : f.scheduled.timers.Kept timers := by
      refine hmoved.kept ?_ ?_
      · intro a
        split_ifs <;> simp
      · intro a ha
        unfold Timer.fired
        split_ifs
        · split
          · rfl
          · exact ha
        · exact ha
    have hcalled := Scheduled.perform_kept (s := { f.scheduled with timers := timers })
      hfired.consistent now (callbacks f.trace id)
    refine ⟨hfired.trans hcalled, .inr ⟨_, rfl, fun id' hid => ?_, _, rfl⟩⟩
    exact Scheduled.gone_of_performed hfired.consistent now _ hid

/-- Without an abort in a callback the loop comes to its end. -/
theorem fireAll_aborted {callbacks : Callbacks E}
    (hcallbacks : ∀ trace id, (callbacks trace id).ending = .returned) (now : Double)
    (due : List Nat) (hf : f.aborted = false) : (f.fireAll callbacks now due).aborted = false := by
  have hfire : ∀ (f : Firing E) (id : Nat), f.aborted = false →
      (f.fire callbacks now id).aborted = false := by
    intro f id hf
    unfold Firing.fire
    split
    · exact hf
    · dsimp only
      rw [hcallbacks]
  induction due generalizing f with
  | nil => exact hf
  | cons id due ih =>
    unfold fireAll
    dsimp only
    rw [hfire f id hf]
    exact ih (hfire f id hf)

/-- The loop, however it ends: what is over stays so, and so does what callbacks clear. -/
theorem fireAll_kept (hf : f.scheduled.timers.Consistent) (callbacks : Callbacks E) (now : Double)
    (due : List Nat) :
    f.scheduled.timers.Kept (f.fireAll callbacks now due).scheduled.timers ∧
      ∀ e ∈ (f.fireAll callbacks now due).trace, e ∈ f.trace ∨
        (∀ id ∈ e.cleared, (f.fireAll callbacks now due).scheduled.timers.Gone id) ∧
        ∃ (before : Scheduled) (trace : List (Fired E)) (id : Nat),
          e.cleared = before.clearedBy now (callbacks trace id).calls := by
  induction due generalizing f with
  | nil => exact ⟨.refl hf, fun e he => .inl he⟩
  | cons id due ih =>
    unfold fireAll
    dsimp only
    obtain ⟨hstep, hsame | ⟨e, htrace, hgone, before, hcleared⟩⟩ := fire_kept hf callbacks now id
    · rw [hsame]
      split_ifs
      · exact ⟨.refl hf, fun e he => .inl he⟩
      · exact ih hf
    · split_ifs
      · refine ⟨hstep, fun g hg => ?_⟩
        rw [htrace] at hg
        rcases List.mem_append.mp hg with hg | hg
        · exact .inl hg
        · rw [List.mem_singleton.mp hg]
          exact .inr ⟨hgone, before, _, _, hcleared⟩
      · obtain ⟨hkept, hrest⟩ := ih hstep.consistent
        refine ⟨hstep.trans hkept, fun g hg => ?_⟩
        rcases hrest g hg with hg | hg
        · rw [htrace] at hg
          rcases List.mem_append.mp hg with hg | hg
          · exact .inl hg
          · rw [List.mem_singleton.mp hg]
            exact .inr ⟨fun i hi => hkept.gone i (hgone i hi), before, _, _, hcleared⟩
        · exact .inr hg

end Firing

end RustTS.Runner
