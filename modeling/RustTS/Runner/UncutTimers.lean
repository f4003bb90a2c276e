import RustTS.Runner.AbortedCalls

/-! Timers that nothing cuts. The prelude's functions then do to the timers a version lists what the
functions of `Scheduled` say in one piece, and the engine that runs them takes the steps of the engine
whose timers are those. -/
namespace RustTS.Runner
open Binary64

namespace PreludeTimers

/-- The timers, as the objects in `live` are. -/
def listed (t : PreludeTimers) : Timers where
  live := t.live.map t.objects
  byId := t.byId
  nextTimerId := t.nextTimerId
  earliest := t.earliest
  finished := t.finished
  nextTimer := t.nextTimer

/-- The objects are listed under their own ids, and the ids that `clearTimeout` finds are of live
timers that are listed. -/
structure Whole (t : PreludeTimers) : Prop where
  ids : ∀ id ∈ t.live, (t.objects id).id = id
  known : ∀ id ∈ t.live, id < t.nextTimerId
  found : ∀ id ∈ t.byId, id ∈ t.live ∧ (t.objects id).Live

private theorem fresh_whole : fresh.Whole := ⟨nofun, nofun, nofun⟩

variable {t : PreludeTimers}

theorem Whole.modify (h : t.Whole) (id : Nat) (f : Timer → Timer) :
    t.live.map (Function.update t.objects id (f (t.objects id))) =
      Scheduled.modify id f (t.live.map t.objects) := by
  unfold Scheduled.modify
  rw [List.map_map]
  apply List.map_congr_left
  intro other hother
  rw [Function.comp_apply, h.ids other hother, Function.update_apply]
  split_ifs with hsame
  · rw [hsame]
  · rfl

private theorem Whole.map_list (h : t.Whole) (timer : Timer) :
    (t.live ++ [t.nextTimerId]).map (Function.update t.objects t.nextTimerId timer) =
      t.live.map t.objects ++ [timer] := by
  rw [List.map_append, List.map_singleton, Function.update_self]
  congr 1
  apply List.map_congr_left
  intro id hid
  exact Function.update_of_ne (h.known id hid).ne _ _

/-- The timers once another is listed. -/
theorem Whole.list (h : t.Whole) (timer : Timer) (hid : timer.id = t.nextTimerId)
    (hlive : timer.Live) (earliest nextTimer : Double) :
    Whole
      { t with
        objects := Function.update t.objects t.nextTimerId timer
        live := t.live ++ [t.nextTimerId]
        byId := t.nextTimerId :: t.byId
        nextTimerId := t.nextTimerId + 1
        earliest := earliest
        nextTimer := nextTimer } := by
  have hold (id : Nat) (hmem : id ∈ t.live) :
      Function.update t.objects t.nextTimerId timer id = t.objects id :=
    Function.update_of_ne (h.known id hmem).ne _ _
  constructor
  · intro id hmem
    dsimp only
    rcases List.mem_append.mp hmem with hmem | hmem
    · rw [hold id hmem]
      exact h.ids id hmem
    · rw [List.mem_singleton.mp hmem, Function.update_self]
      exact hid
  · intro id hmem
    rcases List.mem_append.mp hmem with hmem | hmem
    · exact (h.known id hmem).trans (Nat.lt_succ_self _)
    · rw [List.mem_singleton.mp hmem]
      exact Nat.lt_succ_self _
  · intro id hmem
    dsimp only
    rcases List.mem_cons.mp hmem with rfl | hmem
    · refine ⟨List.mem_append_right _ (List.mem_singleton_self _), ?_⟩
      rw [Function.update_self]
      exact hlive
    · obtain ⟨hlisted, hl⟩ := h.found id hmem
      refine ⟨List.mem_append_left _ hlisted, ?_⟩
      rwa [hold id hlisted]

/-- The timers once one of them changes, but for its id. -/
theorem Whole.set (h : t.Whole) {id : Nat} (timer : Timer) (hid : timer.id = (t.objects id).id)
    {byId : List Nat} (hsub : byId ⊆ t.byId) (hlive : id ∈ byId → timer.Live) (finished : Nat) :
    Whole
      { t with
        objects := Function.update t.objects id timer
        byId := byId
        finished := finished } := by
  refine ⟨fun other hmem => ?_, h.known, fun other hmem => ?_⟩
  · dsimp only
    rw [Function.update_apply]
    split_ifs with hsame
    · rw [hid, hsame.symm]
      exact h.ids other hmem
    · exact h.ids other hmem
  · obtain ⟨hlisted, hl⟩ := h.found other (hsub hmem)
    refine ⟨hlisted, ?_⟩
    dsimp only
    rw [Function.update_apply]
    split_ifs with hsame
    · exact hlive (hsame ▸ hmem)
    · exact hl

theorem Whole.find (h : t.Whole) {id : Nat} (hid : id ∈ t.live) {p : Timer → Bool}
    (hp : p (t.objects id) = true) (hids : ∀ timer, p timer = true → timer.id = id) :
    (t.live.map t.objects).find? p = some (t.objects id) := by
  have hsome : ((t.live.map t.objects).find? p).isSome = true :=
    List.find?_isSome.mpr ⟨t.objects id, List.mem_map_of_mem hid, hp⟩
  obtain ⟨timer, htimer⟩ := Option.isSome_iff_exists.mp hsome
  obtain ⟨other, hother, rfl⟩ := List.mem_map.mp (List.mem_of_find?_eq_some htimer)
  have hsame : other = id := (h.ids other hother).symm.trans (hids _ (List.find?_some htimer))
  rw [htimer, hsame]

theorem Whole.dueAt (h : t.Whole) (time : Double) :
    Scheduled.dueAt time t.listed = t.sortDue (t.collect time) := by
  have hids : ∀ id ∈ t.sortDue (t.collect time), (t.objects id).id = id := by
    intro id hid
    exact h.ids id (List.mem_of_mem_filter (List.mem_mergeSort.mp hid))
  have hsort : ((t.collect time).map t.objects).mergeSort (fun left right =>
        left.due < right.due ∨ left.due = right.due ∧ left.id ≤ right.id) =
      (t.sortDue (t.collect time)).map t.objects := by
    unfold sortDue
    refine (List.map_mergeSort fun left hleft right hright => ?_).symm
    rw [h.ids left (List.mem_of_mem_filter hleft), h.ids right (List.mem_of_mem_filter hright)]
  unfold Scheduled.dueAt listed
  dsimp only
  rw [List.filter_map]
  refine (congrArg (List.map Timer.id) hsort).trans ?_
  rw [List.map_map]
  exact (List.map_congr_left hids).trans (List.map_id _)

end PreludeTimers

namespace PreludeState
variable {s : PreludeState}

def listed (s : PreludeState) : Scheduled := ⟨s.timers.listed, s.earliestTimer⟩

/-- The timers are whole, and listed as those of `s'`. -/
structure Lists (t : PreludeState) (s' : Scheduled) : Prop where
  whole : t.timers.Whole
  listed : t.listed = s'

end PreludeState

namespace Prelude
open Interruptible PreludeState
variable {s : PreludeState}

theorem uncut_reschedule (h : s.timers.Whole) :
    wp reschedule none
      (fun _ t => t.Lists s.listed.reschedule ∧ t.timers.live = s.timers.live) (fun _ => False) s := by
  unfold reschedule schedule onTimers
  simp only [wp_bind, wp_check, wp_get, wp_modify, reduceCtorEq, if_false]
  exact ⟨⟨⟨h.ids, h.known, h.found⟩, rfl⟩, trivial⟩

theorem uncut_addTimer (h : s.timers.Whole) (clock wait : Double) (repeats : Bool) :
    wp (addTimer clock wait repeats) none
      (fun _ t => t.Lists (s.listed.addTimer clock wait repeats) ∧
        ∀ id ∈ s.timers.live, id ∈ t.timers.live) (fun _ => False) s := by
  have hmono : ∀ id ∈ s.timers.live, id ∈ s.timers.live ++ [s.timers.nextTimerId] :=
    fun id hid => List.mem_append_left _ hid
  unfold addTimer schedule onTimers Scheduled.addTimer
  simp only [wp_bind, wp_check, wp_get, wp_modify, wp_ite, wp_pure, reduceCtorEq, if_false,
    PreludeTimers.setObject]
  generalize (if repeats = true then some wait else none) = interval
  let timer : Timer := ⟨s.timers.nextTimerId, add clock wait, interval, false⟩
  have hlive := h.map_list timer
  unfold PreludeState.listed PreludeTimers.listed
  dsimp only
  split_ifs with hdue
  all_goals
    refine ⟨⟨h.list timer rfl rfl _ _, ?_⟩, hmono⟩
    unfold PreludeState.listed PreludeTimers.listed
    dsimp only
    rw [hlive]
  rfl

theorem uncut_retire (h : s.timers.Whole) (id : Nat) :
    wp (retire id) none
      (fun _ t => t.Lists { s.listed with timers := Scheduled.retire id s.timers.listed } ∧
        t.timers.live = s.timers.live ∧ (t.timers.objects id).due = (s.timers.objects id).due)
      (fun _ => False) s := by
  have hmodify := h.modify id fun timer => { timer with cancelled := true }
  unfold retire onTimers
  simp only [wp_bind, wp_check, wp_modify, reduceCtorEq, if_false, PreludeTimers.setObject]
  refine ⟨⟨h.set { s.timers.objects id with cancelled := true } rfl (List.filter_subset_self _)
    (fun hid => ?_) _, ?_⟩, trivial, ?_⟩
  · simp at hid
  · unfold PreludeState.listed PreludeTimers.listed Scheduled.retire
    dsimp only
    rw [hmodify]
  · rw [Function.update_self]

theorem uncut_clearTimer (h : s.timers.Whole) (id : Nat) :
    wp (clearTimer id) none
      (fun _ t => t.Lists (s.listed.clearTimer id) ∧ ∀ id ∈ s.timers.live, id ∈ t.timers.live)
      (fun _ => False) s := by
  unfold clearTimer
  simp only [wp_bind, wp_check, wp_get, wp_ite, wp_pure, reduceCtorEq, if_false]
  split_ifs with hid
  · have hfind : s.listed.timers.live.find? (fun timer => timer.id = id ∧ id ∈ s.timers.byId) =
        some (s.timers.objects id) := by
      have hlisted := (h.found id hid).1
      apply h.find hlisted
      · simpa [hid] using h.ids id hlisted
      · intro timer htimer
        exact (of_decide_eq_true htimer).1
    refine wp_mono (uncut_retire h id) (fun _ t ht => ?_) fun _ hcut => hcut
    obtain ⟨hlists, hlive, hdue⟩ := ht
    have hearliest : t.timers.earliest = s.timers.earliest :=
      congrArg (fun s => s.timers.earliest) hlists.listed
    have hcleared : s.listed.clearTimer id =
        if (s.timers.objects id).due = s.timers.earliest then t.listed.reschedule else t.listed := by
      unfold Scheduled.clearTimer
      rw [show s.listed.timers.byId = s.timers.byId from rfl, hfind, hlists.listed]
      rfl
    rw [hcleared, hdue, hearliest]
    split_ifs with hleast
    · refine wp_mono (uncut_reschedule hlists.whole) (fun _ u hu => ⟨hu.1, ?_⟩) fun _ hcut => hcut
      rw [hu.2, hlive]
      exact fun _ hmem => hmem
    · refine ⟨⟨hlists.whole, rfl⟩, ?_⟩
      rw [hlive]
      exact fun _ hmem => hmem
  · have hfind : s.listed.timers.live.find? (fun timer => timer.id = id ∧ id ∈ s.timers.byId) =
        none := by
      rw [List.find?_eq_none]
      intro timer _ htimer
      exact hid (of_decide_eq_true htimer).2
    refine ⟨⟨h, ?_⟩, fun _ hmem => hmem⟩
    unfold Scheduled.clearTimer
    rw [show s.listed.timers.byId = s.timers.byId from rfl, hfind]

private theorem uncut_call (h : s.timers.Whole) (clock : Double) (call : TimerCall) :
    wp (Prelude.call clock call) none
      (fun _ t => t.Lists (call.run clock s.listed) ∧ ∀ id ∈ s.timers.live, id ∈ t.timers.live)
      (fun _ => False) s := by
  cases call with
  | set wait repeats =>
    unfold Prelude.call
    rw [wp_bind]
    exact wp_mono (uncut_addTimer h clock wait repeats) (fun _ t ht => ht) fun _ hcut => hcut
  | clear id => exact uncut_clearTimer h id

/-- Firing a timer that is listed. -/
theorem uncut_fire (h : s.timers.Whole) {id : Nat} (hid : id ∈ s.timers.live) :
    wp (fire id) none
      (fun entered t => t.timers.live = s.timers.live ∧
        match Scheduled.fire id s.timers.listed with
        | none => entered = false ∧ t.Lists s.listed
        | some timers => entered = true ∧ t.Lists { s.listed with timers := timers })
      (fun _ => False) s := by
  have hfind : s.timers.listed.live.find? (fun timer => timer.id = id) =
      some (s.timers.objects id) :=
    h.find hid (by simpa using h.ids id hid) fun timer htimer => of_decide_eq_true htimer
  unfold fire Scheduled.fire
  rw [hfind]
  simp only [wp_bind, wp_check, wp_get, wp_ite, wp_pure, reduceCtorEq, if_false]
  split_ifs with hcancelled
  · exact ⟨trivial, trivial, h, rfl⟩
  · cases hinterval : (s.timers.objects id).interval with
    | none =>
      simp only [wp_bind, wp_check, wp_pure, reduceCtorEq, if_false]
      exact wp_mono (uncut_retire h id) (fun _ t ht => ⟨ht.2.1, trivial, ht.1⟩) fun _ hcut => hcut
    | some interval =>
      have hmodify := h.modify id fun timer => { timer with due := add timer.due interval }
      unfold onTimers
      simp only [wp_bind, wp_check, wp_modify, wp_pure, reduceCtorEq, if_false,
        PreludeTimers.setObject]
      let timer : Timer :=
        { s.timers.objects id with due := add (s.timers.objects id).due interval }
      refine ⟨trivial, trivial, h.set timer rfl (List.Subset.refl _) (fun hfound => ?_) _, ?_⟩
      · exact (h.found id hfound).2
      · unfold PreludeState.listed PreludeTimers.listed
        dsimp only
        rw [← hmodify]

theorem uncut_beginRun (h : s.timers.Whole) (time : Double) :
    wp (beginRun time) none
      (fun due t => due = Scheduled.dueAt time s.timers.listed ∧ (∀ id ∈ due, id ∈ s.timers.live) ∧
        t.timers.live = s.timers.live ∧ t.Lists (if due = [] then s.listed.reschedule else s.listed))
      (fun _ => False) s := by
  have hsorted : s.timers.sortDue (s.timers.collect time) = [] ↔ s.timers.collect time = [] := by
    unfold PreludeTimers.sortDue
    rw [← List.length_eq_zero_iff, List.length_mergeSort, List.length_eq_zero_iff]
  have hmem : ∀ id ∈ s.timers.sortDue (s.timers.collect time), id ∈ s.timers.live :=
    fun id hid => List.mem_of_mem_filter (List.mem_mergeSort.mp hid)
  rw [h.dueAt]
  unfold beginRun onTimers
  simp only [wp_bind, wp_check, wp_get, wp_modify, wp_ite, wp_pure, reduceCtorEq, if_false]
  have hfailed : Lists { s with timers := { s.timers with failed := false } } s.listed :=
    ⟨⟨h.ids, h.known, h.found⟩, rfl⟩
  split_ifs with hdue
  · refine wp_mono (uncut_reschedule h) (fun _ t ht => ?_) fun _ hcut => hcut
    rw [hsorted.mpr hdue]
    exact ⟨rfl, fun id hid => absurd hid List.not_mem_nil, ht.2, ht.1⟩
  all_goals first
    | exact absurd (hsorted.mp ‹_›) hdue
    | exact ⟨trivial, hmem, trivial, hfailed⟩

theorem uncut_endRun (h : s.timers.Whole) :
    wp endRun none (fun _ t => t.Lists s.listed.endRun) (fun _ => False) s := by
  have hsweep : Lists { s with timers := s.timers.sweep }
      { s.listed with timers := Scheduled.sweep s.timers.listed } := by
    unfold PreludeTimers.sweep Scheduled.sweep
    have hfinished : s.timers.listed.finished = s.timers.finished := rfl
    rw [hfinished]
    split_ifs
    · refine ⟨⟨fun id hid => ?_, fun id hid => ?_, fun id hid => ?_⟩, ?_⟩
      · exact h.ids id (List.mem_of_mem_filter hid)
      · exact h.known id (List.mem_of_mem_filter hid)
      · obtain ⟨hlisted, hlive⟩ := h.found id hid
        refine ⟨List.mem_filter.mpr ⟨hlisted, ?_⟩, hlive⟩
        rw [hlive]
        rfl
      · unfold PreludeState.listed PreludeTimers.listed
        dsimp only
        rw [List.filter_map]
        rfl
    · exact ⟨h, rfl⟩
  unfold endRun onTimers
  simp only [wp_bind, wp_get, wp_modify, wp_pure]
  refine wp_mono (uncut_reschedule hsweep.whole) (fun _ t ht => ?_) fun _ hcut => hcut
  obtain ⟨⟨hwhole, hlisted⟩, -⟩ := ht
  refine ⟨⟨hwhole.ids, hwhole.known, hwhole.found⟩, ?_⟩
  rw [hsweep.listed] at hlisted
  exact hlisted

end Prelude

/-- From `start` up to `stop` the scripts are those of the stretch, and then those left to the
visit. -/
structure Visit.At (scripts : List VersionId) (start stop : Nat) (stretch : List VersionId)
    (a : Visit) (b : Advance) : Prop where
  now : b.now = a.now
  stretch : stretch = (scripts.take stop).drop start
  rest : a.rest = scripts.drop stop
  bound : stop ≤ scripts.length

/-- Both engines are at the same place of an advance. -/
inductive VisitPhase.InStep (scripts : List VersionId) (live : VersionId → List Nat) :
    VisitPhase → Phase → Prop
  | idle : InStep scripts live .idle .idle
  | settling (b : Advance) : InStep scripts live .idle (.settling b)
  | scanning {a : Visit} {b : Advance} (hnow : b.now = a.now)
      (hrest : a.rest = scripts.drop b.index) : InStep scripts live (.scanning a) (.scanning b)
  | visiting {a : Visit} {b : Advance} {stretch : List VersionId} {stop : Nat}
      (hat : a.At scripts b.index stop stretch b) :
      InStep scripts live (.visiting a stretch) (.visiting b stop)
  | running {a : Visit} {b : Advance} {stretch : List VersionId} {stop : Nat}
      {version : VersionId} {due : List Nat} {threw : Bool}
      (hat : a.At scripts (b.index + 1) stop stretch b)
      (hversion : scripts[b.index]? = some version) (hdue : ∀ id ∈ due, id ∈ live version) :
      InStep scripts live (.running a stretch version due) (.running b stop due threw)
  | calling {a : Visit} {b : Advance} {stretch : List VersionId} {stop : Nat}
      {version : VersionId} {due : List Nat} {threw : Bool}
      (hat : a.At scripts (b.index + 1) stop stretch b)
      (hversion : scripts[b.index]? = some version) (hdue : ∀ id ∈ due, id ∈ live version) :
      InStep scripts live (.calling a stretch version due) (.calling b stop due threw)

theorem VisitPhase.InStep.mono {scripts : List VersionId} {live live' : VersionId → List Nat}
    {p : VisitPhase} {q : Phase} (h : p.InStep scripts live q)
    (hlive : ∀ version, ∀ id ∈ live version, id ∈ live' version) : p.InStep scripts live' q := by
  cases h with
  | idle => exact .idle
  | settling b => exact .settling b
  | scanning hnow hrest => exact .scanning hnow hrest
  | visiting hat => exact .visiting hat
  | running hat hversion hdue => exact .running hat hversion fun id hid => hlive _ id (hdue id hid)
  | calling hat hversion hdue => exact .calling hat hversion fun id hid => hlive _ id (hdue id hid)

theorem stretch_from {scripts rest : List VersionId} {start : Nat} {first : VersionId}
    (h : scripts.drop start = first :: rest) (p : VersionId → Bool) :
    let stop := start + 1 + ((scripts.drop (start + 1)).takeWhile p).length
    first :: rest.takeWhile p = (scripts.take stop).drop start ∧
      rest.dropWhile p = scripts.drop stop ∧ stop ≤ scripts.length := by
  have hrest : scripts.drop (start + 1) = rest := by rw [← List.tail_drop, h, List.tail_cons]
  have hparts : rest.takeWhile p ++ rest.dropWhile p = rest := List.takeWhile_append_dropWhile
  have hlength : scripts.length - start = rest.length + 1 := by
    rw [← List.length_drop, h, List.length_cons]
  have hle : (rest.takeWhile p).length ≤ rest.length := (List.takeWhile_prefix p).length_le
  rw [hrest]
  dsimp only
  refine ⟨?_, ?_, by omega⟩
  · rw [List.drop_take, h, show start + 1 + (rest.takeWhile p).length - start =
      (rest.takeWhile p).length + 1 by omega, List.take_succ_cons]
    congr 1
    exact (List.take_left.symm.trans (congrArg (List.take _) hparts))
  · rw [← List.drop_drop, hrest]
    exact (List.drop_left.symm.trans (congrArg (List.drop _) hparts))

private theorem stretch_cons {scripts stretch : List VersionId} {start stop : Nat} {version : VersionId}
    (h : version :: stretch = (scripts.take stop).drop start) :
    start < stop ∧ scripts[start]? = some version ∧
      stretch = (scripts.take stop).drop (start + 1) := by
  have hhead : (scripts.take stop)[start]? = some version := by
    rw [← List.head?_drop, ← h, List.head?_cons]
  rw [List.getElem?_take] at hhead
  split_ifs at hhead with hlt
  exact ⟨hlt, hhead, by rw [← List.tail_drop, ← h, List.tail_cons]⟩

namespace CutEngine

/-- No prelude function is cut in the step, and the calls are those of versions that were mounted. -/
def Uncut (mounted : Nat) : CutStep → Prop
  | .call version _ cut => version < mounted ∧ cut = none
  | .proceed cut _ => cut = none
  | _ => True

/-- The other engine has the same clock, timers and scripts. -/
structure Shows (scripts : List VersionId) (context : VersionId → ContextId) (mounted : Nat)
    (e : CutEngine) (f : TimerEngine) : Prop where
  clock : f.clock = e.clock
  earliestTimer : f.earliestTimer = e.earliestTimer
  timers : ∀ version, f.timers version = (e.timers version).listed
  whole : ∀ version, (e.timers version).Whole
  scripts : f.scripts.values = scripts
  context : f.context = context
  mounted : f.mounted = mounted

/-- The other engine is where this one is. -/
structure InStep (scripts : List VersionId) (context : VersionId → ContextId) (mounted : Nat)
    (e : CutEngine) (f : TimerEngine) : Prop where
  shows : e.Shows scripts context mounted f
  phase : e.phase.InStep scripts (fun version => (e.timers version).live) f.phase

variable {scripts : List VersionId} {context : VersionId → ContextId} {mounted : Nat}
  {e e' : CutEngine} {f : TimerEngine}

theorem Shows.isDue (h : e.Shows scripts context mounted f) (now : Double) (version : VersionId) :
    f.isDue now version = e.isDue now version := by
  unfold TimerEngine.isDue CutEngine.isDue
  rw [h.timers]
  rfl

/-- A prelude function runs on a version. -/
theorem Shows.ran {A : Type} {version : VersionId} {c : PreludeRun A} {x : Option A}
    {g : Scheduled → Scheduled} (h : e.Shows scripts context mounted f)
    (hrun : e.onVersion version c none = (x, e'))
    (hlists : (e'.preludeState version).Lists (g (e.preludeState version).listed)) :
    e'.Shows scripts context mounted (f.onTimers version g) := by
  obtain ⟨-, rfl⟩ := Prod.mk.inj hrun
  have hstate : (⟨f.timers version, f.earliestTimer⟩ : Scheduled) =
      (e.preludeState version).listed := by
    rw [h.timers, h.earliestTimer]
    rfl
  unfold TimerEngine.onTimers
  rw [hstate, ← hlists.listed]
  constructor
  · exact h.clock
  · rfl
  · intro other
    dsimp only
    rw [Function.update_apply]
    split_ifs with hother
    · rw [hother]
      rfl
    · rw [Function.update_of_ne hother]
      exact h.timers other
  · intro other
    by_cases hother : other = version
    · rw [hother]
      exact hlists.whole
    · dsimp only
      rw [Function.update_of_ne hother]
      exact h.whole other
  · exact h.scripts
  · exact h.context
  · exact h.mounted

theorem Shows.ran_same {A : Type} {version : VersionId} {c : PreludeRun A} {x : Option A}
    (h : e.Shows scripts context mounted f) (hrun : e.onVersion version c none = (x, e'))
    (hlists : (e'.preludeState version).Lists (e.preludeState version).listed) :
    e'.Shows scripts context mounted f := by
  have hsame : f.onTimers version id = f := by
    unfold TimerEngine.onTimers
    dsimp only [id_eq]
    rw [Function.update_eq_self]
  rw [← hsame]
  exact h.ran hrun hlists

theorem Shows.phase (h : e.Shows scripts context mounted f) (p : VisitPhase) (q : Phase) :
    Shows scripts context mounted { e with phase := p } { f with phase := q } :=
  ⟨h.clock, h.earliestTimer, h.timers, h.whole, h.scripts, h.context, h.mounted⟩

theorem Shows.endAdvance (h : e.Shows scripts context mounted f) (b : Advance) :
    (e.endAdvance scripts).InStep scripts context mounted (f.endAdvance b) := by
  constructor
  · refine ⟨h.clock, ?_, h.timers, h.whole, h.scripts, h.context, h.mounted⟩
    unfold TimerEngine.endAdvance CutEngine.endAdvance
    dsimp only
    rw [h.scripts]
    congr 1
    apply List.map_congr_left
    intro version _
    rw [h.timers]
    rfl
  · unfold TimerEngine.endAdvance CutEngine.endAdvance
    dsimp only
    split_ifs
    · exact .idle
    · exact .settling b

theorem Shows.afterRun (h : e.Shows scripts context mounted f) {a : Visit} {b : Advance}
    {stretch : List VersionId} {stop : Nat} (hat : a.At scripts (b.index + 1) stop stretch b)
    (threw shouldStop : Bool) :
    (e.afterRun scripts a stretch shouldStop).InStep scripts context mounted
      (f.afterRun b stop threw shouldStop) := by
  unfold CutEngine.afterRun TimerEngine.afterRun
  dsimp only
  split_ifs
  · exact h.endAdvance _
  · refine ⟨h.phase _ _, ?_⟩
    exact .visiting ⟨hat.now, hat.stretch, hat.rest, hat.bound⟩

theorem Shows.scanning (h : e.Shows scripts context mounted f) {a : Visit} {b : Advance}
    (hphase : e.phase = .scanning a) (hphase' : f.phase = .scanning b) (hnow : b.now = a.now)
    (hrest : a.rest = scripts.drop b.index) {shouldStop : Bool}
    (hstep : e.proceed scripts context none shouldStop = some e') :
    e'.InStep scripts context mounted (f.proceed shouldStop) := by
  unfold CutEngine.proceed at hstep
  unfold TimerEngine.proceed
  rw [hphase] at hstep
  rw [hphase']
  dsimp only at hstep ⊢
  rw [h.scripts]
  split at hstep
  · next hnil =>
    cases hstep
    have hnone : scripts[b.index]? = none := by
      rw [← List.head?_drop, ← hrest, hnil, List.head?_nil]
    rw [hnone]
    exact h.endAdvance b
  · next first rest hcons =>
    cases hstep
    have hfirst : scripts[b.index]? = some first := by
      rw [← List.head?_drop, ← hrest, hcons, List.head?_cons]
    have hdrop : scripts.drop b.index = first :: rest := hrest.symm.trans hcons
    obtain ⟨hstretch, hafter, hbound⟩ :=
      stretch_from hdrop fun next => decide (context first = context next)
    have hstop : f.stretchEnd b.index first = b.index + 1 +
        ((scripts.drop (b.index + 1)).takeWhile fun next =>
          decide (context first = context next)).length := by
      unfold TimerEngine.stretchEnd
      rw [h.scripts, h.context]
    have hany : (f.stretch b.index (f.stretchEnd b.index first)).any (f.isDue b.now) =
        (first :: rest.takeWhile fun next => decide (context first = context next)).any
          (e.isDue a.now) := by
      unfold TimerEngine.stretch
      rw [h.scripts, hstop, ← hstretch, hnow]
      congr 1
      funext version
      exact h.isDue a.now version
    rw [hfirst]
    dsimp only
    rw [hany]
    refine ⟨?_, ?_⟩
    · split_ifs
      all_goals exact h.phase _ _
    · split_ifs
      · rw [hstop]
        exact .visiting ⟨hnow, hstretch, hafter, hbound⟩
      · rw [hstop]
        exact .scanning hnow hafter

theorem Shows.leaving (h : e.Shows scripts context mounted f) {a : Visit} {b : Advance} {stop : Nat}
    (hphase : e.phase = .visiting a []) (hphase' : f.phase = .visiting b stop)
    (hat : a.At scripts b.index stop [] b) {shouldStop : Bool}
    (hstep : e.proceed scripts context none shouldStop = some e') :
    e'.InStep scripts context mounted (f.proceed shouldStop) := by
  have hover : stop ≤ b.index := by
    have hlength := congrArg List.length hat.stretch
    have hbound := hat.bound
    simp only [List.length_nil, List.length_drop, List.length_take] at hlength
    omega
  unfold CutEngine.proceed at hstep
  unfold TimerEngine.proceed
  rw [hphase] at hstep
  rw [hphase']
  cases hstep
  dsimp only
  rw [if_pos hover]
  refine ⟨h.phase _ _, ?_⟩
  exact .scanning hat.now hat.rest

theorem Shows.visiting (h : e.Shows scripts context mounted f) {a : Visit} {b : Advance}
    {version : VersionId} {stretch : List VersionId} {stop : Nat}
    (hphase : e.phase = .visiting a (version :: stretch)) (hphase' : f.phase = .visiting b stop)
    (hat : a.At scripts b.index stop (version :: stretch) b) {shouldStop : Bool}
    (hstep : e.proceed scripts context none shouldStop = some e') :
    e'.InStep scripts context mounted (f.proceed shouldStop) := by
  obtain ⟨hlt, hversion, hrest⟩ := stretch_cons hat.stretch
  unfold CutEngine.proceed at hstep
  unfold TimerEngine.proceed
  rw [hphase] at hstep
  rw [hphase']
  dsimp only at hstep ⊢
  rw [if_neg (Nat.not_le.mpr hlt), h.scripts, hversion]
  dsimp only
  rw [h.isDue]
  rw [← hat.now] at hstep
  split_ifs at hstep with hdue
  · rw [hdue, if_neg (by simp), h.timers]
    have hspec {due : List Nat} {e₁ : CutEngine}
        (hrun : e.onVersion version (Prelude.beginRun b.now) none = (some due, e₁)) :=
      (onVersion_wp (Prelude.uncut_beginRun (h.whole version) b.now) hrun).1 due rfl
    split at hstep
    · next e₁ hrun => exact absurd rfl (onVersion_uncut hrun)
    · next e₁ hrun =>
      cases hstep
      obtain ⟨hnone, -, -, hlists⟩ := hspec hrun
      rw [if_pos rfl] at hlists
      rw [show Scheduled.dueAt b.now (e.timers version).listed = [] from hnone.symm]
      exact (h.ran hrun hlists).afterRun (b := { b with fired := b.fired + 1 })
        ⟨hat.now, hrest, hat.rest, hat.bound⟩ false shouldStop
    · next due e₁ hne hrun =>
      cases hstep
      obtain ⟨hsome, hlive, hsame, hlists⟩ := hspec hrun
      rw [if_neg hne] at hlists
      have hshows := h.ran_same hrun hlists
      obtain ⟨first, due, rfl⟩ := List.exists_cons_of_ne_nil hne
      rw [show Scheduled.dueAt b.now (e.timers version).listed = first :: due from hsome.symm]
      refine ⟨hshows.phase _ _, ?_⟩
      refine .running ⟨hat.now, hrest, hat.rest, hat.bound⟩ hversion fun id hid => ?_
      exact hsame.symm ▸ hlive id hid
  · rw [Bool.not_eq_true] at hdue
    cases hstep
    rw [hdue, Bool.not_false, if_pos rfl]
    refine ⟨h.phase _ _, ?_⟩
    exact .visiting ⟨hat.now, hrest, hat.rest, hat.bound⟩

/-- The end of a run of due timers. -/
theorem Shows.ending (h : e.Shows scripts context mounted f) {a : Visit} {b : Advance}
    {version : VersionId} {stretch : List VersionId} {stop : Nat} {threw : Bool}
    (hphase : e.phase = .running a stretch version []) (hphase' : f.phase = .running b stop [] threw)
    (hat : a.At scripts (b.index + 1) stop stretch b) (hversion : scripts[b.index]? = some version)
    {shouldStop : Bool} (hstep : e.proceed scripts context none shouldStop = some e') :
    e'.InStep scripts context mounted (f.proceed shouldStop) := by
  unfold CutEngine.proceed at hstep
  unfold TimerEngine.proceed
  rw [hphase] at hstep
  rw [hphase']
  dsimp only at hstep ⊢
  rw [h.scripts, hversion]
  split at hstep
  · next e₁ hrun => exact absurd rfl (onVersion_uncut hrun)
  · next failed e₁ hrun =>
    cases hstep
    have hlists := (onVersion_wp (Prelude.uncut_endRun (h.whole version)) hrun).1 failed rfl
    exact (h.ran hrun hlists).afterRun hat threw shouldStop

theorem Shows.firing (h : e.Shows scripts context mounted f) {a : Visit} {b : Advance}
    {version : VersionId} {stretch : List VersionId} {stop : Nat} {threw : Bool} {id : Nat}
    {due : List Nat} (hphase : e.phase = .running a stretch version (id :: due))
    (hphase' : f.phase = .running b stop (id :: due) threw)
    (hat : a.At scripts (b.index + 1) stop stretch b) (hversion : scripts[b.index]? = some version)
    (hdue : ∀ other ∈ id :: due, other ∈ (e.timers version).live) {shouldStop : Bool}
    (hstep : e.proceed scripts context none shouldStop = some e') :
    e'.InStep scripts context mounted (f.proceed shouldStop) := by
  have hid : id ∈ (e.timers version).live := hdue id List.mem_cons_self
  have hspec {entered : Bool} {e₁ : CutEngine}
      (hrun : e.onVersion version (Prelude.fire id) none = (some entered, e₁)) :=
    (onVersion_wp (Prelude.uncut_fire (h.whole version) hid) hrun).1 entered rfl
  have hrest {e₁ : CutEngine}
      (hsame : (e₁.preludeState version).timers.live = (e.preludeState version).timers.live) :
      ∀ other ∈ due, other ∈ (e₁.timers version).live := by
    intro other hother
    have hlive : (e₁.timers version).live = (e.timers version).live := hsame
    rw [hlive]
    exact hdue other (List.mem_cons_of_mem _ hother)
  unfold CutEngine.proceed at hstep
  unfold TimerEngine.proceed
  rw [hphase] at hstep
  rw [hphase']
  dsimp only at hstep ⊢
  rw [h.scripts, hversion]
  dsimp only
  rw [h.timers]
  split at hstep
  · next e₁ hrun => exact absurd rfl (onVersion_uncut hrun)
  · next e₁ hrun =>
    cases hstep
    obtain ⟨hsame, hfire⟩ := hspec hrun
    split at hfire
    · cases hfire.1
    · next timers htimers =>
      rw [show Scheduled.fire id (e.timers version).listed = some timers from htimers]
      have hshows := h.ran (g := fun s => { s with timers := timers }) hrun hfire.2
      refine ⟨⟨hshows.clock, hshows.earliestTimer, hshows.timers, hshows.whole, hshows.scripts,
        hshows.context, hshows.mounted⟩, ?_⟩
      exact .calling hat hversion (hrest hsame)
  · next e₁ hrun =>
    cases hstep
    obtain ⟨hsame, hfire⟩ := hspec hrun
    split at hfire
    · next hnone =>
      rw [show Scheduled.fire id (e.timers version).listed = none from hnone]
      refine ⟨(h.ran_same hrun hfire.2).phase _ _, ?_⟩
      exact .running hat hversion (hrest hsame)
    · cases hfire.1

theorem InStep.proceed (h : e.InStep scripts context mounted f) {shouldStop : Bool}
    (hstep : e.proceed scripts context none shouldStop = some e') :
    e'.InStep scripts context mounted (f.proceed shouldStop) := by
  have hphase := h.phase
  generalize hp : e.phase = p, hq : f.phase = q at hphase
  cases hphase with
  | idle =>
    rw [CutEngine.proceed, hp] at hstep
    cases hstep
  | settling b =>
    rw [CutEngine.proceed, hp] at hstep
    cases hstep
  | scanning hnow hrest => exact h.shows.scanning hp hq hnow hrest hstep
  | @visiting a b stretch stop hat =>
    cases stretch with
    | nil => exact h.shows.leaving hp hq hat hstep
    | cons version stretch => exact h.shows.visiting hp hq hat hstep
  | @running a b stretch stop version due threw hat hversion hdue =>
    cases due with
    | nil => exact h.shows.ending hp hq hat hversion hstep
    | cons id due => exact h.shows.firing hp hq hat hversion hdue hstep
  | calling hat hversion hdue =>
    rw [CutEngine.proceed, hp] at hstep
    cases hstep

theorem InStep.call (h : e.InStep scripts context mounted f) {version : VersionId}
    (hversion : version < mounted) (call : TimerCall) :
    f.next (.call version call) = some (f.onTimers version (call.run f.clock)) ∧
      (e.onVersion version (Prelude.call e.clock call) none).2.InStep scripts context mounted
        (f.onTimers version (call.run f.clock)) := by
  refine ⟨if_pos (h.shows.mounted.symm ▸ hversion), ?_⟩
  cases hrun : e.onVersion version (Prelude.call e.clock call) none with
  | mk ended e₁ =>
    obtain ⟨x, rfl⟩ := Option.ne_none_iff_exists'.mp (onVersion_uncut hrun)
    obtain ⟨hlists, hmono⟩ :=
      (onVersion_wp (Prelude.uncut_call (h.shows.whole version) e.clock call) hrun).1 x rfl
    have hclock : call.run f.clock = call.run e.clock := by rw [h.shows.clock]
    rw [hclock]
    refine ⟨h.shows.ran hrun hlists, ?_⟩
    obtain ⟨-, rfl⟩ := Prod.mk.inj hrun
    refine h.phase.mono fun other id hid => ?_
    dsimp only
    rw [Function.update_apply]
    split_ifs with hother
    · have hlive := hmono id (hother ▸ hid)
      unfold preludeState at hlive
      dsimp only at hlive
      rwa [Function.update_self] at hlive
    · exact hid

theorem InStep.advance (h : e.InStep scripts context mounted f) (hidle : f.phase = .idle)
    {elapsed : Double} (hstep : e.Step scripts context (.advance elapsed) e') :
    ∃ f', f.next (.advance elapsed) = some f' ∧ e'.InStep scripts context mounted f' := by
  unfold Step CutEngine.next at hstep
  dsimp only at hstep
  split at hstep
  · next hphase =>
    cases hstep
    unfold TimerEngine.next
    dsimp only
    rw [if_pos hidle, h.shows.clock, h.shows.earliestTimer]
    refine ⟨_, rfl, ?_⟩
    split_ifs
    · refine ⟨⟨rfl, rfl, h.shows.timers, h.shows.whole, h.shows.scripts, h.shows.context,
        h.shows.mounted⟩, ?_⟩
      exact h.phase
    · refine ⟨⟨rfl, rfl, h.shows.timers, h.shows.whole, h.shows.scripts, h.shows.context,
        h.shows.mounted⟩, ?_⟩
      exact .scanning rfl rfl
  · cases hstep

theorem InStep.callbackEnds (h : e.InStep scripts context mounted f) {ending : Ending}
    {shouldStop : Bool} (hstep : e.Step scripts context (.callbackEnds ending shouldStop) e') :
    ∃ f', f.next (.callbackEnds ending shouldStop) = some f' ∧
      e'.InStep scripts context mounted f' := by
  have hphase := h.phase
  unfold Step CutEngine.next at hstep
  dsimp only at hstep
  generalize hp : e.phase = p, hq : f.phase = q at hphase hstep
  cases hphase with
  | @calling a b stretch stop version due threw hat hversion hdue =>
    unfold TimerEngine.next
    rw [hq]
    cases ending with
    | returned =>
      cases hstep
      exact ⟨_, rfl, h.shows.phase _ _, .running hat hversion hdue⟩
    | threw =>
      cases hstep
      have hran : (e.onVersion version (Prelude.onTimers Prelude.caught) none) =
          (some (), { e with
            timers := Function.update e.timers version (Prelude.caught (e.timers version)) }) := rfl
      have hwhole := h.shows.whole version
      have hshows := h.shows.ran_same hran (by
        refine ⟨?_, ?_⟩
        · unfold preludeState
          dsimp only
          rw [Function.update_self]
          exact ⟨hwhole.ids, hwhole.known, hwhole.found⟩
        · unfold preludeState
          dsimp only
          rw [Function.update_self]
          rfl)
      refine ⟨_, rfl, hshows.phase _ _, .running hat hversion fun id hid => ?_⟩
      dsimp only
      rw [Function.update_self]
      exact hdue id hid
    | aborted =>
      cases hstep
      exact ⟨_, rfl, h.shows.afterRun hat true shouldStop⟩
  | _ => cases hstep

/-- Each step that is not cut is one of the other engine, after it has settled. -/
theorem InStep.step (h : e.InStep scripts context mounted f) {step : CutStep}
    (huncut : Uncut mounted step) (hstep : e.Step scripts context step e') :
    ∃ steps f', Transition.Run (fun f step f' => TimerEngine.next f step = some f') f steps f' ∧
      e'.InStep scripts context mounted f' := by
  cases step with
  | call version call cut =>
    obtain ⟨hversion, rfl⟩ := huncut
    obtain ⟨hnext, hin⟩ := h.call hversion call
    cases hstep
    exact ⟨_, _, .single hnext, hin⟩
  | advance elapsed =>
    by_cases hidle : f.phase = .idle
    · obtain ⟨f', hnext, hin⟩ := h.advance hidle hstep
      exact ⟨_, f', .single hnext, hin⟩
    · -- What the callbacks left is settled first.
      have hphase := h.phase
      generalize hp : e.phase = p, hq : f.phase = q at hphase
      cases hphase with
      | idle => exact absurd hq hidle
      | settling b =>
        have hsettled : f.next (.proceed false) = some { f with phase := .idle } := by
          unfold TimerEngine.next TimerEngine.proceed
          rw [hq]
        have hin : e.InStep scripts context mounted { f with phase := .idle } :=
          ⟨h.shows.phase e.phase .idle, hp ▸ .idle⟩
        obtain ⟨f', hnext, hin⟩ := hin.advance rfl hstep
        exact ⟨_, f', .cons hsettled (.single hnext), hin⟩
      | _ =>
        unfold Step CutEngine.next at hstep
        rw [hp] at hstep
        cases hstep
  | proceed cut shouldStop =>
    obtain rfl : cut = none := huncut
    have hnext : f.next (.proceed shouldStop) = some (f.proceed shouldStop) := rfl
    exact ⟨_, _, .single hnext, h.proceed hstep⟩
  | callbackEnds ending shouldStop =>
    obtain ⟨f', hnext, hin⟩ := h.callbackEnds hstep
    exact ⟨_, f', .single hnext, hin⟩

/-- An engine none of whose prelude functions is cut does what the engine of whole functions does. -/
theorem InStep.run {steps : List CutStep} (h : e.InStep scripts context mounted f)
    (hrun : Transition.Run (Transition.Guarded (fun _ step => Uncut mounted step)
      (Step scripts context)) e steps e') :
    ∃ steps' f', Transition.Run (fun f step f' => TimerEngine.next f step = some f') f steps' f' ∧
      e'.InStep scripts context mounted f' :=
  hrun.simulated h fun _ _ _ _ hin hst => hin.step hst.1 hst.2

/-- Both begin with the scripts loaded and no timer set. -/
theorem new_inStep (loaded : IndexMap ScriptId VersionId) (context : VersionId → ContextId)
    (mounted : Nat) :
    new.InStep loaded.values context mounted
      { TimerEngine.new with scripts := loaded, context := context, mounted := mounted } where
  shows := ⟨rfl, rfl, fun _ => rfl, fun _ => PreludeTimers.fresh_whole, rfl, rfl, rfl⟩
  phase := .idle

end CutEngine

end RustTS.Runner
