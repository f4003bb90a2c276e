import RustTS.Runner.TimerTurns

/-! What a run of timers fires, and what it leaves. A run that an abort cuts off while it sweeps can
leave one timer twice in the array, and then fires an interval twice at a time; nothing else can go
wrong. -/
namespace RustTS.Runner
open Binary64

variable {E : Type}

namespace Scheduled
open Timers

variable {s : Scheduled}

/-- What the loop has collected after the timers of the list. -/
def collected (due : List Timer) : Option Timer × Option (List Timer) :=
  (due.head?, if 1 < due.length then some due else none)

theorem foldl_collect (time : Double) (live due : List Timer) :
    live.foldl (collect time) (collected due) =
      collected (due ++ live.filter (·.isDue time)) := by
  induction live generalizing due with
  | nil => rw [List.foldl_nil, List.filter_nil, List.append_nil]
  | cons timer live ih =>
    have hstep : collect time (collected due) timer =
        collected (due ++ [timer].filter (·.isDue time)) := by
      unfold collect
      by_cases hdue : timer.isDue time = true
      · have hnot : (timer.cancelled || decide (time < timer.due)) = false := by
          unfold Timer.isDue at hdue
          simpa using hdue
        simp only [hnot, List.filter_cons, hdue, List.filter_nil]
        match due with
        | [] => rfl
        | [only] => rfl
        | first :: second :: due => rfl
      · have hover : (timer.cancelled || decide (time < timer.due)) = true := by
          unfold Timer.isDue at hdue
          rwa [Bool.not_eq_true', Bool.not_eq_false] at hdue
        simp only [hover, List.filter_cons, hdue, List.filter_nil]
        simp
    rw [List.foldl_cons, hstep, ih, List.append_assoc, ← List.filter_append]
    rfl

theorem dueAt_eq (time : Double) (t : Timers) :
    dueAt time t = ((t.live.filter (·.isDue time)).mergeSort inOrder).map (·.id) := rfl

theorem dueAt_perm (time : Double) (t : Timers) :
    (dueAt time t).Perm ((t.live.filter (·.isDue time)).map (·.id)) := by
  rw [dueAt_eq]
  exact (List.mergeSort_perm _ _).map _

theorem mem_dueAt {time : Double} {t : Timers} {id : Nat} :
    id ∈ dueAt time t ↔ ∃ a ∈ t.live, a.id = id ∧ a.Live ∧ a.due ≤ time := by
  rw [(dueAt_perm time t).mem_iff, List.mem_map]
  constructor
  · rintro ⟨a, ha, hid⟩
    obtain ⟨ha, hdue⟩ := List.mem_filter.mp ha
    unfold Timer.isDue at hdue
    simp only [Bool.not_or, Bool.and_eq_true, Bool.not_eq_true', decide_eq_false_iff_not,
      not_lt] at hdue
    exact ⟨a, ha, hid, hdue⟩
  · rintro ⟨a, ha, hid, hlive, hdue⟩
    refine ⟨a, List.mem_filter.mpr ⟨ha, ?_⟩, hid⟩
    unfold Timer.Live at hlive
    unfold Timer.isDue
    rw [hlive]
    simpa using hdue

/-- A run that gets past the collection fires what is due, whether one timer or more. -/
theorem runTimers_eq (callbacks : Callbacks E) (now time : Double) (cut : Option Cut)
    (s : Scheduled) :
    (cut ≠ none ∧ s.runTimers callbacks now time cut = ⟨s, [], .aborted⟩) ∨
      (cut = none ∧ dueAt time s.timers = [] ∧
        s.runTimers callbacks now time cut = ⟨s.reschedule, [], .returned⟩) ∨
      s.runTimers callbacks now time cut = finishRun cut
        (Firing.fireAll callbacks now (dueAt time s.timers) ⟨s, [], none, false⟩) := by
  have hcollect : s.timers.live.foldl (collect time) (none, none) =
      collected (s.timers.live.filter (·.isDue time)) := by
    have h := foldl_collect time s.timers.live []
    rw [List.nil_append] at h
    exact h
  unfold runTimers
  rw [hcollect, dueAt_eq]
  generalize s.timers.live.filter (·.isDue time) = due
  match due with
  | [] =>
    cases cut with
    | none => exact .inr (.inl ⟨rfl, by rw [List.mergeSort_nil]; rfl, rfl⟩)
    | some cut => cases cut <;> exact .inl ⟨nofun, rfl⟩
  | [only] =>
    have hone : Firing.fireAll callbacks now (([only].mergeSort inOrder).map (·.id))
        ⟨s, [], none, false⟩ = Firing.fire callbacks now only.id ⟨s, [], none, false⟩ := by
      rw [List.mergeSort_singleton]
      show (if (Firing.fire callbacks now only.id ⟨s, [], none, false⟩).aborted = true then _
        else _) = _
      split_ifs <;> rfl
    rw [hone]
    match cut with
    | none | some (.sweeping _) | some .rescheduling => exact .inr (.inr rfl)
    | some .collecting => exact .inl ⟨nofun, rfl⟩
  | first :: second :: due =>
    match cut with
    | none | some (.sweeping _) | some .rescheduling => exact .inr (.inr rfl)
    | some .collecting => exact .inl ⟨nofun, rfl⟩

private theorem sweep_live_subset (t : Timers) : (sweep t).live ⊆ t.live := by
  unfold sweep
  split_ifs
  · exact fun a ha => (List.mem_filter.mp ha).1
  · exact List.Subset.refl _

private theorem mem_sweep {t : Timers} {a : Timer} (ha : a ∈ t.live) (hl : a.Live) :
    a ∈ (sweep t).live := by
  unfold sweep
  split_ifs
  · exact List.mem_filter.mpr ⟨ha, by unfold Timer.Live at hl; simp [hl]⟩
  · exact ha

private theorem sweepFor_live_subset (turns : Nat) (t : Timers) : (sweepFor turns t).live ⊆ t.live := by
  unfold sweepFor
  dsimp only
  split_ifs
  · intro a ha
    rcases List.mem_append.mp ha with ha | ha
    · exact List.mem_of_mem_take (List.mem_filter.mp ha).1
    · exact List.mem_of_mem_drop ha
  · exact List.Subset.refl _

theorem finishRun_later {f : Firing E} (hf : f.scheduled.timers.Consistent) (cut : Option Cut) :
    f.scheduled.timers.Later (finishRun cut f).scheduled.timers := by
  have hsweep : f.scheduled.timers.Later (sweep f.scheduled.timers) := by
    apply hf.later_of_subset (sweep_live_subset _)
    unfold sweep
    split_ifs <;> rfl
  unfold finishRun
  split_ifs
  · exact .refl hf
  · split
    · next turns =>
      apply hf.later_of_subset (sweepFor_live_subset turns _)
      unfold sweepFor
      dsimp only
      split_ifs <;> rfl
    · exact hsweep
    · exact ⟨⟨hsweep.consistent.objects, hsweep.consistent.bounded⟩, hsweep.gone⟩

private theorem finishRun_trace (cut : Option Cut) (f : Firing E) : (finishRun cut f).trace = f.trace := by
  unfold finishRun
  split_ifs
  · rfl
  · split <;> rfl

theorem runTimers_later (hs : s.timers.Consistent) (callbacks : Callbacks E) (now time : Double)
    (cut : Option Cut) :
    s.timers.Later (s.runTimers callbacks now time cut).scheduled.timers ∧
      (s.runTimers callbacks now time cut).fired.Sublist (dueAt time s.timers) := by
  have hdue : ∀ id ∈ dueAt time s.timers, ∃ a ∈ s.timers.live, a.id = id := by
    intro id hid
    obtain ⟨a, ha, haid, _⟩ := mem_dueAt.mp hid
    exact ⟨a, ha, haid⟩
  have hstart : s.timers.Moved (Timer.through (⟨s, [], none, false⟩ : Firing E).trace) s.timers :=
    .refl hs
  obtain ⟨rest, htrace, hsub, -, -⟩ := Firing.fireAll_moved hstart hdue callbacks now
  rcases runTimers_eq callbacks now time cut s with ⟨-, hrun⟩ | ⟨-, -, hrun⟩ | hrun
  · rw [hrun]
    exact ⟨.refl hs, List.nil_sublist _⟩
  · rw [hrun]
    have hsame := reschedule_moved (.refl hs)
    exact ⟨(hsame.kept (fun _ => rfl) fun _ h => h).toLater, List.nil_sublist _⟩
  · rw [hrun]
    refine ⟨?_, ?_⟩
    · have hfired := (Firing.fireAll_kept (f := ⟨s, [], none, false⟩) hs callbacks now
        (dueAt time s.timers)).1
      exact hfired.toLater.trans (finishRun_later hfired.consistent cut)
    · unfold TimerRun.fired
      rw [finishRun_trace, htrace]
      exact hsub

end Scheduled

theorem TimerEvent.next_later {s : Scheduled} (hs : s.timers.Consistent) (event : TimerEvent E) :
    s.timers.Later (event.next s).1.timers ∧
      ∀ id ∈ (event.next s).2, ¬s.timers.Gone id := by
  cases event with
  | ask now call =>
    refine ⟨?_, nofun⟩
    exact (Scheduled.cancelIf_kept (Scheduled.call_moved hs now call)).toLater
  | cutAsk now call stage => exact ⟨(Scheduled.cutAt_kept hs now call stage).toLater, nofun⟩
  | run callbacks now time cut =>
    obtain ⟨hlater, hsub⟩ := Scheduled.runTimers_later hs callbacks now time cut
    refine ⟨hlater, fun id hid hgone => ?_⟩
    obtain ⟨a, ha, haid, hlive, -⟩ := Scheduled.mem_dueAt.mp (hsub.subset hid)
    exact hgone.2 a ha haid hlive

namespace Scheduled
open Timers

variable {s : Scheduled}

theorem after_later (hs : s.timers.Consistent) (events : List (TimerEvent E)) :
    s.timers.Later (s.after events).timers := by
  induction events generalizing s with
  | nil => exact .refl hs
  | cons event events ih =>
    have hstep := (event.next_later hs).1
    exact hstep.trans (ih hstep.consistent)

theorem fresh_consistent : fresh.timers.Consistent := ⟨nofun, nofun⟩

theorem not_mem_firedIn (hs : s.timers.Consistent) {id : Nat} (hid : s.timers.Gone id)
    (events : List (TimerEvent E)) : id ∉ s.firedIn events := by
  induction events generalizing s with
  | nil => exact List.not_mem_nil
  | cons event events ih =>
    obtain ⟨hlater, hfires⟩ := event.next_later hs
    intro hmem
    rcases List.mem_append.mp hmem with hmem | hmem
    · exact hfires id hmem hid
    · exact ih hlater.consistent (hlater.gone id hid) hmem

end Scheduled

/-- `a` is due before `b`, or added before it and due at the same time. -/
def Timer.Before (a b : Timer) : Prop := a.due < b.due ∨ a.due = b.due ∧ a.id < b.id

/-- What is to hold of a run at engine time `now` that is not aborted, with the due times as they
are at its start. Timers that are added have ids from the counter on. -/
structure FiringLaw (now time : Double) (s : Scheduled) (r : TimerRun E) : Prop where
  due : ∀ id ∈ r.fired, id < s.timers.nextTimerId ∧
    ∃ a ∈ s.timers.live, a.id = id ∧ a.Live ∧ a.due ≤ time
  once : r.fired.Nodup
  ordered : r.fired.Pairwise fun i j => ∀ a ∈ s.timers.live, ∀ b ∈ s.timers.live,
    a.id = i → b.id = j → a.Before b
  exactly : ∀ a ∈ s.timers.live, a.Live → a.due ≤ time →
    (a.id ∈ r.fired ↔ ∀ f ∈ r.trace, ∀ b ∈ s.timers.live, b.id = f.id → b.Before a →
      a.id ∉ f.cleared)
  intervals : ∀ a ∈ s.timers.live, a.Live → a.id ∈ r.fired →
    (∀ f ∈ r.trace, a.id ∉ f.cleared) →
    ∀ interval, a.interval = some interval →
      { a with due := add a.due interval } ∈ r.scheduled.timers.live
  others : ∀ a ∈ s.timers.live, a.Live → a.id ∉ r.fired →
    (∀ f ∈ r.trace, a.id ∉ f.cleared) → a ∈ r.scheduled.timers.live
  finished : ∀ a ∈ s.timers.live, a.interval = none → a.id ∈ r.fired →
    r.scheduled.timers.Gone a.id
  cleared : ∀ f ∈ r.trace, ∀ id ∈ f.cleared, r.scheduled.timers.Gone id
  never : ∀ id, r.scheduled.timers.Gone id →
    ∀ later : List (TimerEvent E), id ∉ r.scheduled.firedIn later
  rethrown : r.ending = match firstError r.trace with
    | some error => .threw error
    | none => .returned

/-- No interval that is due stands twice in the array. -/
def Timers.OnceEach (time : Double) (t : Timers) : Prop :=
  ((t.live.filter fun a => a.isDue time && a.interval.isSome).map (·.id)).Nodup

namespace Scheduled
open Timers

variable {s : Scheduled}

theorem inOrder_iff {a b : Timer} :
    inOrder a b = true ↔ a.due < b.due ∨ a.due = b.due ∧ a.id ≤ b.id := by
  unfold inOrder
  rw [decide_eq_true_eq]

/-- The timers due, as they are sorted. -/
def sorted (time : Double) (t : Timers) : List Timer :=
  (t.live.filter (·.isDue time)).mergeSort inOrder

theorem dueAt_sorted (time : Double) (t : Timers) : dueAt time t = (sorted time t).map (·.id) := rfl

theorem mem_sorted {time : Double} {t : Timers} {a : Timer} :
    a ∈ sorted time t ↔ a ∈ t.live ∧ a.Live ∧ a.due ≤ time := by
  unfold sorted
  rw [List.mem_mergeSort, List.mem_filter]
  unfold Timer.isDue Timer.Live
  simp

theorem pairwise_sorted (time : Double) (t : Timers) :
    (sorted time t).Pairwise fun a b => inOrder a b = true := by
  apply List.pairwise_mergeSort
  · intro a b c hab hbc
    rw [inOrder_iff] at hab hbc ⊢
    rcases hab with hab | ⟨hab, hid⟩
    · rcases hbc with hbc | ⟨hbc, -⟩
      · exact .inl (hab.trans hbc)
      · exact .inl (hbc ▸ hab)
    · rcases hbc with hbc | ⟨hbc, hid'⟩
      · exact .inl (hab ▸ hbc)
      · exact .inr ⟨hab.trans hbc, hid.trans hid'⟩
  · intro a b
    rw [Bool.or_eq_true, inOrder_iff, inOrder_iff]
    rcases lt_trichotomy a.due b.due with h | h | h
    · exact .inl (.inl h)
    · rcases Nat.le_total a.id b.id with hid | hid
      · exact .inl (.inr ⟨h, hid⟩)
      · exact .inr (.inr ⟨h.symm, hid⟩)
    · exact .inr (.inl h)

theorem before_of_inOrder {a b : Timer} (h : inOrder a b = true) (hid : a.id ≠ b.id) :
    a.Before b := by
  rcases inOrder_iff.mp h with h | ⟨h, hle⟩
  · exact .inl h
  · exact .inr ⟨h, by omega⟩

private theorem not_inOrder_of_before {a b : Timer} (h : a.Before b) : ¬inOrder b a = true := by
  rw [inOrder_iff]
  rintro (h' | ⟨h', hid⟩)
  · rcases h with h | ⟨h, -⟩
    · exact lt_asymm h h'
    · exact h'.ne' h
  · rcases h with h | ⟨-, hid'⟩
    · exact h.ne' h'
    · omega

private theorem isInterval_of_mem {t : Timers} (ht : t.Consistent) {a : Timer} (ha : a ∈ t.live) :
    t.isInterval a.id = a.interval.isSome := by
  apply Bool.eq_iff_iff.mpr
  rw [isInterval_iff]
  constructor
  · rintro ⟨b, hb, hid, hinterval⟩
    rw [← ht.objects b hb a ha hid]
    exact hinterval
  · intro hinterval
    exact ⟨a, ha, rfl, hinterval⟩

theorem onceEach_iff {t : Timers} (ht : t.Consistent) (time : Double) :
    ((dueAt time t).filter t.isInterval).Nodup ↔ t.OnceEach time := by
  rw [((dueAt_perm time t).filter t.isInterval).nodup_iff, List.filter_map]
  unfold Timers.OnceEach
  have hsame : (t.live.filter (·.isDue time)).filter (t.isInterval ∘ (·.id)) =
      t.live.filter fun a => a.isDue time && a.interval.isSome := by
    rw [List.filter_filter]
    apply List.filter_congr
    intro a ha
    rw [Bool.and_comm]
    congr 1
    exact isInterval_of_mem ht ha
  rw [hsame]

theorem firingLaw_idle (hs : s.timers.Consistent) {now time : Double}
    (hdue : dueAt time s.timers = []) :
    FiringLaw now time s (⟨s.reschedule, [], .returned⟩ : TimerRun E) where
  due := nofun
  once := List.nodup_nil
  ordered := .nil
  exactly a ha hlive hle := by
    have hmem : a.id ∈ dueAt time s.timers := mem_dueAt.mpr ⟨a, ha, rfl, hlive, hle⟩
    rw [hdue] at hmem
    cases hmem
  intervals _ _ _ h := nomatch h
  others a ha _ _ _ := ha
  finished _ _ _ h := nomatch h
  cleared := nofun
  never id hid later := by
    have hsame := reschedule_moved (.refl hs)
    exact not_mem_firedIn hsame.consistent hid later
  rethrown := rfl

theorem mem_pre_iff {time : Double} {t : Timers} (ht : t.Consistent) {a b : Timer}
    (hb : b ∈ t.live) {pre post : List Timer} (hsplit : sorted time t = pre ++ a :: post)
    (hpre : a ∉ pre) (hdue : b.id ∈ dueAt time t) : b.id ∈ pre.map (·.id) ↔ b.Before a := by
  have hsorted := pairwise_sorted time t
  have hin : ∀ c ∈ sorted time t, c ∈ t.live := fun c hc => (mem_sorted.mp hc).1
  have hbmem : b ∈ sorted time t := by
    obtain ⟨c, hc, hcid⟩ := List.mem_map.mp hdue
    rw [← ht.objects c (hin c hc) b hb hcid]
    exact hc
  rw [hsplit] at hsorted hin hbmem
  obtain ⟨-, hafter, hacross⟩ := List.pairwise_append.mp hsorted
  have ha := hin a (List.mem_append_right _ (List.mem_cons_self ..))
  constructor
  · intro hmem
    obtain ⟨c, hc, hcid⟩ := List.mem_map.mp hmem
    have hcb := ht.objects c (hin c (List.mem_append_left _ hc)) b hb hcid
    rw [hcb] at hc
    apply before_of_inOrder (hacross b hc a (List.mem_cons_self ..))
    intro hid
    exact hpre (ht.objects b hb a ha hid ▸ hc)
  · intro hbefore
    rcases List.mem_append.mp hbmem with hmem | hmem
    · exact List.mem_map_of_mem hmem
    · rcases List.mem_cons.mp hmem with rfl | hmem
      · rcases hbefore with h | ⟨-, h⟩
        · exact absurd h (lt_irrefl _)
        · omega
      · exact absurd ((List.pairwise_cons.mp hafter).1 b hmem) (not_inOrder_of_before hbefore)

theorem pairwise_fired {time : Double} {t : Timers} (ht : t.Consistent) {fired : List Nat}
    (hsub : fired.Sublist (dueAt time t)) (hnodup : fired.Nodup) :
    fired.Pairwise fun i j => ∀ a ∈ t.live, ∀ b ∈ t.live, a.id = i → b.id = j → a.Before b := by
  have hordered : (dueAt time t).Pairwise fun i j => ∀ a ∈ t.live, ∀ b ∈ t.live,
      a.id = i → b.id = j → inOrder a b = true := by
    rw [dueAt_sorted, List.pairwise_map]
    refine (pairwise_sorted time t).imp_of_mem ?_
    intro c d hc hd hcd a ha b hb hac hbd
    rw [ht.objects a ha c (mem_sorted.mp hc).1 hac, ht.objects b hb d (mem_sorted.mp hd).1 hbd]
    exact hcd
  refine ((hordered.sublist hsub).and hnodup).imp ?_
  rintro i j ⟨hij, hne⟩ a ha b hb rfl rfl
  exact before_of_inOrder (hij a ha b hb rfl rfl) hne

theorem mem_endRun {s' : Scheduled} {rest : List (Fired E)}
    (hmoved : s.timers.Moved (Timer.through rest) s'.timers) {a a' : Timer}
    (ha : a ∈ s.timers.live) (hthrough : a.through rest = a') (hlive : a'.Live) :
    a' ∈ (endRun s').timers.live := by
  obtain ⟨added, hmap, -⟩ := hmoved.live
  have hmem : a' ∈ s'.timers.live := by
    rw [hmap, ← hthrough]
    exact List.mem_append_left _ (List.mem_map_of_mem ha)
  exact mem_sweep hmem hlive

/-- A timer that one callback is of, and none clears, is fired once. -/
theorem through_interval_of_once {rest : List (Fired E)} {a : Timer} {interval : Double}
    (hnodup : (rest.map (·.id)).Nodup) (hfired : a.id ∈ rest.map (·.id))
    (hclear : ∀ f ∈ rest, a.id ∉ f.cleared)
    (hinterval : a.interval = some interval) :
    a.through rest = { a with due := add a.due interval } := by
  obtain ⟨f, hf, hid⟩ := List.mem_map.mp hfired
  obtain ⟨pre, post, rfl⟩ := List.append_of_mem hf
  rw [List.map_append, List.map_cons] at hnodup
  have hpre : a.through pre = a := by
    apply Timer.through_of_ne
    · intro g hg hga
      have hdisjoint := List.disjoint_of_nodup_append hnodup
      apply hdisjoint (List.mem_map_of_mem hg)
      rw [hga, ← hid]
      exact List.mem_cons_self ..
    · exact fun g hg => hclear g (List.mem_append_left _ hg)
  have hturn : a.afterFired f = { a with due := add a.due interval } := by
    have hnot : f.cleared.contains a.id = false := by
      simpa using hclear f (List.mem_append_right _ (List.mem_cons_self ..))
    unfold Timer.afterFired
    rw [if_pos hid.symm, hnot, Timer.cancelIf_false]
    unfold Timer.fired
    rw [hinterval]
  rw [Timer.through_append, hpre, Timer.through_cons, hturn]
  apply Timer.through_of_ne
  · intro g hg hga
    have hpost := (List.nodup_append.mp hnodup).2.1
    apply (List.nodup_cons.mp hpost).1
    rw [hid, ← show g.id = a.id from hga]
    exact List.mem_map_of_mem hg
  · exact fun g hg => hclear g (List.mem_append_right _ (List.mem_cons_of_mem _ hg))

/-- The law of a run that fires, from the turns it takes. -/
theorem firingLaw_fired (hs : s.timers.Consistent) {now time : Double}
    (honce : s.timers.OnceEach time) {f : Firing E}
    (hmoved : s.timers.Moved (Timer.through f.trace) f.scheduled.timers)
    (hturns : Turns s.timers [] (dueAt time s.timers) f.trace)
    (hfailure : f.failure = firstError f.trace)
    (hcleared : ∀ e ∈ f.trace, ∀ id ∈ e.cleared, f.scheduled.timers.Gone id) :
    FiringLaw now time s (⟨endRun f.scheduled, f.trace, match f.failure with
      | some error => .threw error
      | none => .returned⟩ : TimerRun E) := by
  have hdue := (onceEach_iff hs time).mpr honce
  have hsub := hturns.sublist
  have hnodup := (hturns.nodup hdue fun _ _ _ => List.not_mem_nil).1
  have hlater : f.scheduled.timers.Later (endRun f.scheduled).timers := by
    have h := finishRun_later hmoved.consistent none (f := { f with aborted := false })
    exact h
  constructor
  · intro id hid
    obtain ⟨a, ha, haid, hrest⟩ := mem_dueAt.mp (hsub.subset hid)
    exact ⟨haid ▸ hs.bounded a ha, a, ha, haid, hrest⟩
  · exact hnodup
  · exact pairwise_fired hs hsub hnodup
  · intro a ha hlive hle
    obtain ⟨pre, post, hsplit, hpre⟩ := List.eq_append_cons_of_mem
      (mem_sorted.mpr ⟨ha, hlive, hle⟩)
    have hids : dueAt time s.timers = pre.map (·.id) ++ a.id :: post.map (·.id) := by
      rw [dueAt_sorted, hsplit, List.map_append, List.map_cons]
    have hprein : ∀ c ∈ pre, c ∈ s.timers.live := by
      intro c hc
      have hcs : c ∈ sorted time s.timers := hsplit ▸ List.mem_append_left _ hc
      exact (mem_sorted.mp hcs).1
    have hpreid : a.id ∉ pre.map (·.id) := by
      intro hmem
      obtain ⟨c, hc, hcid⟩ := List.mem_map.mp hmem
      exact hpre (hs.objects c (hprein c hc) a ha hcid ▸ hc)
    rw [hids] at hturns hdue
    refine (hturns.fires_iff hs ha hlive hpreid hdue).trans ?_
    constructor
    · intro h g hg b hb hbg hba
      apply h g hg
      rw [← hbg]
      apply (mem_pre_iff hs hb hsplit hpre ?_).mpr hba
      rw [hbg]
      exact hsub.subset (List.mem_map_of_mem hg)
    · intro h g hg hgpre
      obtain ⟨b, hb, hbg⟩ := List.mem_map.mp hgpre
      have hbefore := (mem_pre_iff hs (hprein b hb) hsplit hpre (by
        rw [hids, hbg]
        exact List.mem_append_left _ hgpre)).mp (hbg ▸ hgpre)
      exact h g hg b (hprein b hb) hbg hbefore
  · intro a ha hlive hfired hclear interval hinterval
    apply mem_endRun hmoved ha
    · exact through_interval_of_once hnodup hfired hclear hinterval
    · exact hlive
  · intro a ha hlive hfired hclear
    apply mem_endRun hmoved ha ?_ hlive
    apply Timer.through_of_ne
    · intro g hg hga
      exact hfired (List.mem_map.mpr ⟨g, hg, hga⟩)
    · exact hclear
  · intro a ha hinterval hfired
    apply hlater.gone
    obtain ⟨g, hg, hga⟩ := List.mem_map.mp hfired
    obtain ⟨added, hmap, hadded⟩ := hmoved.live
    have hbound := hs.bounded a ha
    refine ⟨hbound.trans_le hmoved.counter, fun b hb hba => ?_⟩
    rw [hmap] at hb
    rcases List.mem_append.mp hb with hb | hb
    · obtain ⟨c, hc, rfl⟩ := List.mem_map.mp hb
      rw [Timer.through_id] at hba
      rw [hs.objects c hc a ha hba]
      unfold Timer.Live
      rw [Timer.through_finished hg hga hinterval]
      simp
    · have := hadded b hb
      omega
  · exact fun e he id hid => hlater.gone id (hcleared e he id hid)
  · intro id hid later
    exact not_mem_firedIn hlater.consistent hid later
  · show (match f.failure with
      | some error => RunEnd.threw error
      | none => .returned) = _
    rw [hfailure]

/-- A run that is over without an abort obeys the law, if no interval due stands twice. -/
theorem firingLaw (hs : s.timers.Consistent) {now time : Double} (honce : s.timers.OnceEach time)
    (callbacks : Callbacks E) (cut : Option Cut)
    (hrun : (s.runTimers callbacks now time cut).ending ≠ .aborted) :
    FiringLaw now time s (s.runTimers callbacks now time cut) := by
  have hdue : ∀ id ∈ dueAt time s.timers, ∃ a ∈ s.timers.live, a.id = id := by
    intro id hid
    obtain ⟨a, ha, haid, _⟩ := mem_dueAt.mp hid
    exact ⟨a, ha, haid⟩
  have hstart : s.timers.Moved (Timer.through (⟨s, [], none, false⟩ : Firing E).trace) s.timers :=
    .refl hs
  obtain ⟨rest, htrace, -, hfailure, hends⟩ := Firing.fireAll_moved hstart hdue callbacks now
  have hcleared := (Firing.fireAll_kept (f := ⟨s, [], none, false⟩) hs callbacks now
    (dueAt time s.timers)).2
  rcases runTimers_eq callbacks now time cut s with ⟨-, heq⟩ | ⟨-, hnone, heq⟩ | heq
  · rw [heq] at hrun
    exact absurd rfl hrun
  · rw [heq]
    exact firingLaw_idle hs hnone
  · rw [heq] at hrun ⊢
    generalize Firing.fireAll callbacks now (dueAt time s.timers) ⟨s, [], none, false⟩ = f
      at hrun htrace hfailure hends hcleared ⊢
    rw [List.nil_append] at htrace hends
    subst htrace
    unfold finishRun at hrun ⊢
    split_ifs at hrun ⊢ with habort
    · exact absurd rfl hrun
    · split at hrun
      · exact absurd rfl hrun
      · exact absurd rfl hrun
      · obtain ⟨hturns, hmoved⟩ := hends (by simpa using habort)
        apply firingLaw_fired hs honce hmoved hturns hfailure
        intro e he
        rcases hcleared e he with h | ⟨hgone, -⟩
        · cases h
        · exact hgone

def idleCallbacks : Callbacks E := fun _ _ => ⟨[], .returned, none⟩

/-- With callbacks that do nothing an interval that stands twice is fired twice. -/
theorem idle_fires_intervals (hs : s.timers.Consistent) (now time : Double) :
    (s.runTimers (idleCallbacks (E := E)) now time none).ending ≠ .aborted ∧
      ((dueAt time s.timers).filter s.timers.isInterval).Sublist
        (s.runTimers (idleCallbacks (E := E)) now time none).fired := by
  have hdue : ∀ id ∈ dueAt time s.timers, ∃ a ∈ s.timers.live, a.id = id ∧ a.Live := by
    intro id hid
    obtain ⟨a, ha, haid, hlive, _⟩ := mem_dueAt.mp hid
    exact ⟨a, ha, haid, hlive⟩
  have hin : ∀ id ∈ dueAt time s.timers, ∃ a ∈ s.timers.live, a.id = id := by
    intro id hid
    obtain ⟨a, ha, haid, -⟩ := hdue id hid
    exact ⟨a, ha, haid⟩
  have hstart : s.timers.Moved (Timer.through (⟨s, [], none, false⟩ : Firing E).trace) s.timers :=
    .refl hs
  obtain ⟨rest, htrace, -, -, hturns⟩ :=
    Firing.fireAll_moved hstart hin (idleCallbacks (E := E)) now
  have hidle : ∀ (trace : List (Fired E)) (id : Nat),
      (idleCallbacks trace id).ending = .returned := fun _ _ => rfl
  have hends := Firing.fireAll_aborted (f := ⟨s, [], none, false⟩) hidle now
    (dueAt time s.timers) rfl
  have hdid := (Firing.fireAll_kept (f := ⟨s, [], none, false⟩) hs (idleCallbacks (E := E)) now
    (dueAt time s.timers)).2
  rcases runTimers_eq (idleCallbacks (E := E)) now time none s with ⟨hcut, -⟩ |
    ⟨-, hnone, heq⟩ | heq
  · exact absurd rfl hcut
  · rw [heq, hnone]
    exact ⟨nofun, List.nil_sublist _⟩
  · rw [heq]
    generalize Firing.fireAll idleCallbacks now (dueAt time s.timers) ⟨s, [], none, false⟩ = f
      at htrace hturns hends hdid ⊢
    rw [List.nil_append] at htrace
    subst htrace
    unfold finishRun TimerRun.fired
    rw [if_neg (by simp [hends])]
    refine ⟨?_, (hturns hends).1.intervals_sublist hdue hs nofun ?_⟩
    · cases f.failure <;> exact nofun
    · intro e he
      rcases hdid e he with h | ⟨-, _, _, _, h⟩
      · cases h
      · rw [h]
        rfl

/-- An event that does not cut a sweep off leaves no timer twice in the array. -/
theorem next_distinct (hs : s.timers.Consistent) (hids : (s.timers.live.map (·.id)).Nodup)
    (event : TimerEvent E) (hcut : ∀ callbacks now time turns,
      event ≠ .run callbacks now time (some (.sweeping turns))) :
    ((event.next s).1.timers.live.map (·.id)).Nodup := by
  cases event with
  | ask now call => exact (call_moved hs now call).distinct hids
  | cutAsk now call stage => exact (cutAt_kept hs now call stage).distinct hids
  | run callbacks now time cut =>
    have hfired := (Firing.fireAll_kept (f := ⟨s, [], none, false⟩) hs callbacks now
      (dueAt time s.timers)).1.distinct hids
    have hsweep : ∀ t : Timers, (t.live.map (·.id)).Nodup →
        ((sweep t).live.map (·.id)).Nodup := by
      intro t ht
      unfold sweep
      split_ifs
      · exact ht.sublist (List.filter_sublist.map _)
      · exact ht
    show ((s.runTimers callbacks now time cut).scheduled.timers.live.map (·.id)).Nodup
    rcases runTimers_eq callbacks now time cut s with ⟨-, heq⟩ | ⟨-, -, heq⟩ | heq
    · rw [heq]
      exact hids
    · rw [heq]
      exact hids
    · rw [heq]
      unfold finishRun
      split_ifs
      · exact hfired
      · match cut with
        | none => exact hsweep _ hfired
        | some .collecting => exact hsweep _ hfired
        | some .rescheduling => exact hsweep _ hfired
        | some (.sweeping turns) => exact absurd rfl (hcut callbacks now time turns)

theorem onceEach_of_no_cut (history : List (TimerEvent E))
    (hcut : ∀ event ∈ history, ∀ callbacks now time turns,
      event ≠ .run callbacks now time (some (.sweeping turns))) (time : Double) :
    (fresh.after history).timers.OnceEach time := by
  have hdistinct : ((fresh.after history).timers.live.map (·.id)).Nodup := by
    suffices h : ∀ s : Scheduled, s.timers.Consistent → (s.timers.live.map (·.id)).Nodup →
        ((s.after history).timers.live.map (·.id)).Nodup from
      h fresh fresh_consistent List.nodup_nil
    induction history with
    | nil => exact fun s _ hids => hids
    | cons event history ih =>
      intro s hs hids
      apply ih (fun e he => hcut e (List.mem_cons_of_mem _ he))
      · exact (event.next_later hs).1.consistent
      · exact next_distinct hs hids event (hcut event (List.mem_cons_self ..))
  exact hdistinct.sublist (List.filter_sublist.map _)

/-- After whatever has happened to a version's timers, every run of them that is not aborted obeys
the law, unless an interval that is due stands twice in the array. -/
theorem firingLaw_iff (history : List (TimerEvent E)) (now time : Double) :
    (∀ (callbacks : Callbacks E) (cut : Option Cut),
      ((fresh.after history).runTimers callbacks now time cut).ending ≠ .aborted →
        FiringLaw now time (fresh.after history)
          ((fresh.after history).runTimers callbacks now time cut)) ↔
      (fresh.after history).timers.OnceEach time := by
  have hs := (after_later fresh_consistent history).consistent
  constructor
  · intro hlaw
    obtain ⟨hends, hintervals⟩ := idle_fires_intervals (E := E) hs now time
    have honce := (hlaw idleCallbacks none hends).once
    exact (onceEach_iff hs time).mp (honce.sublist hintervals)
  · intro honce callbacks cut hrun
    exact firingLaw hs honce callbacks cut hrun

def milliseconds (n : Nat) (h : Representable (n * 2 ^ 1074)) : Double :=
  ((⟨n * 2 ^ 1074, h⟩ : {n : ℕ // Representable n}) : Double)

def atStart : Double := milliseconds 0 (by decide +kernel)

def atFive : Double := milliseconds 5 (by decide +kernel)

/-- `setTimeout(f, 0)` and `setInterval(g, 5)`, and a run that an interrupt cuts off at the last
turn of its sweep. -/
def cutOff : List (TimerEvent String) :=
  [.ask atStart (.set atStart false), .ask atStart (.set atFive true),
    .run idleCallbacks atStart atStart (some (.sweeping 2))]

/-- The interval is then fired twice at its time, though nothing aborts this run. -/
theorem cut_sweep_fires_twice :
    let r := (fresh.after cutOff).runTimers (E := String) idleCallbacks atFive atFive none
    r.ending ≠ .aborted ∧ r.fired = [2, 2] ∧
      ¬FiringLaw atFive atFive (fresh.after cutOff) r := by
  have hs := (after_later fresh_consistent cutOff).consistent
  obtain ⟨hends, htwice⟩ := idle_fires_intervals (E := String) hs atFive atFive
  have hdue : dueAt atFive (fresh.after cutOff).timers = [2, 2] := by
    have hperm := dueAt_perm atFive (fresh.after cutOff).timers
    have hids : (((fresh.after cutOff).timers.live.filter (·.isDue atFive)).map (·.id)) =
        List.replicate 2 2 := by
      decide +kernel
    rw [hids] at hperm
    exact List.perm_replicate.mp hperm
  have hintervals : ((dueAt atFive (fresh.after cutOff).timers).filter
      (fresh.after cutOff).timers.isInterval) = [2, 2] := by
    rw [hdue]
    decide +kernel
  have hsub := (runTimers_later hs (idleCallbacks (E := String)) atFive atFive none).2
  rw [hintervals] at htwice
  rw [hdue] at hsub
  have hfired := hsub.antisymm htwice
  refine ⟨hends, hfired, fun hlaw => ?_⟩
  have honce := hlaw.once
  rw [hfired] at honce
  simp at honce

end Scheduled

end RustTS.Runner
