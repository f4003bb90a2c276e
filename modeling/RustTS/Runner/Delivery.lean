import Mathlib.Data.List.Basic
import RustTS.Runner.Dispatch

/-! When a dispatch that succeeds has called every handler that listens: what decides it is how an
interrupt comes about while everything goes well. -/
namespace RustTS.Runner
open ModuleLoader

variable {J H P R : Type}

/-- A moment of delivering an event at which everything went well so far: nothing failed, and no
flag said stop. `due` are the handlers of the script being served that were not called yet, `ahead`
the scripts not reached yet. -/
structure Moment (J H : Type) where
  world : World J
  due : List (Text × H)
  ahead : List LoadedScript

namespace Moment

def shouldStop (m : Moment J H) : Bool := m.world.control.shouldStop

/-- Comes to a script with these handlers. -/
def reach (script : LoadedScript) (handlers : List H) (m : Moment J H) : Moment J H :=
  { m with due := handlers.map (script.id, ·), ahead := m.ahead.tail }

end Moment

namespace Behaviour

variable (B : Behaviour J H P R)

/-- The handlers that listen and were not called yet. -/
def left (m : Moment J H) : List (Text × H) :=
  m.due ++ m.ahead.flatMap fun script =>
    ((B.handlers m.world.js script.id).getD []).map (script.id, ·)

/-- The next flag read. -/
def glance (m : Moment J H) : Course (Moment J H) :=
  .check Moment.shouldStop { m with world := B.elsewhere m.world }

/-- The world once a handler, and what takes its result, returned. -/
def returned (keepResults : Bool) (script : LoadedScript) (payload : P) (handler : H)
    (w : World J) : Option (World J) :=
  match B.call handler payload w with
  | (.error _, _) => none
  | (.ok returned, w) =>
    if keepResults then
      match B.onReturn script.id returned w with
      | (.error _, _) => none
      | (.ok _, w) => some w
    else some w

def smoothCall (keepResults : Bool) (script : LoadedScript) (payload : P) (handler : H)
    (m : Moment J H) : Course (Moment J H) :=
  match B.returned keepResults script payload handler m.world with
  | none => .lost
  | some w => B.glance { m with world := w, due := m.due.tail }

def smoothHandlers (keepResults : Bool) (script : LoadedScript) (payload : P) (handlers : List H)
    (m : Moment J H) : Course (Moment J H) :=
  (Course.each (B.smoothCall keepResults script payload) handlers m).bind B.glance

def smoothScript (keepResults : Bool) (script : LoadedScript) (m : Moment J H) :
    Course (Moment J H) :=
  match B.handlers m.world.js script.id with
  | none => .done (m.reach script [])
  | some handlers =>
    match B.encode script.context m.world with
    | (.ok payload, w) =>
      B.smoothHandlers keepResults script payload handlers { m.reach script handlers with world := w }
    | (.error _, _) => .lost

def smoothMember (keepResults : Bool) (payload : P) (script : LoadedScript) (m : Moment J H) :
    Course (Moment J H) :=
  match B.handlers m.world.js script.id with
  | none => .done (m.reach script [])
  | some handlers =>
    B.smoothHandlers keepResults script payload handlers (m.reach script handlers)

def smoothGroup (keepResults : Bool) (first : LoadedScript) (others : List LoadedScript)
    (m : Moment J H) : Course (Moment J H) :=
  if (first :: others).any (B.listens m.world) then
    match B.encode first.context m.world with
    | (.ok payload, w) =>
      .each (B.smoothMember keepResults payload) (first :: others) { m with world := w }
    | (.error _, _) => .lost
  else .done { m with ahead := m.ahead.drop (first :: others).length }

def smoothVisit (keepResults : Bool) (run : LoadedScript × List LoadedScript) (m : Moment J H) :
    Course (Moment J H) :=
  match run.2 with
  | [] => B.smoothScript keepResults run.1 m
  | other :: others => B.smoothGroup keepResults run.1 (other :: others) m

/-- The handlers, the payload and other threads at work on an event, for as long as everything goes
well: with the moments at which a flag is read. -/
def smooth (keepResults : Bool) (timeout : Nat) (scripts : List LoadedScript) (w : World J) :
    Course (Moment J H) :=
  .each (B.smoothVisit keepResults) (contextRuns scripts)
    ⟨{ w with control := w.control.enter timeout }, [], scripts⟩

variable {B} {keepResults : Bool} {script : LoadedScript} {payload : P} {handler : H}
  {m : Moment J H} {d : Delivery J H} {scripts rest : List LoadedScript} {due : List (Text × H)}

/-- A delivery at a moment of the smooth one. -/
structure Tracks (scripts : List LoadedScript) (m : Moment J H) (d : Delivery J H) : Prop where
  world : d.world = m.world
  sound : d.firstError = none
  listening : d.listening = d.entered ++ m.due
  ahead : scripts.drop d.reached = m.ahead

/-- A delivery at a moment at which these handlers are due and these scripts are ahead. -/
structure At (scripts : List LoadedScript) (due : List (Text × H)) (rest : List LoadedScript)
    (m : Moment J H) (d : Delivery J H) : Prop extends Tracks scripts m d where
  dueNow : m.due = due
  rest : m.ahead = rest

def Failed (d : Delivery J H) : Prop := d.firstError ≠ none

/-- The dispatch, or a part of it, follows the smooth delivery, which leaves it at a moment `R`. -/
abbrev Goes (scripts : List LoadedScript) (R : Moment J H → Delivery J H → Prop) :
    Course (Moment J H) → Bool × Delivery J H → Prop :=
  Course.Follows Moment.shouldStop (Tracks scripts) R Failed

private theorem failed_record {outcome : Except VmError Unit} (h : Failed d) :
    Failed (d.record outcome) := by
  cases outcome with
  | ok _ => exact h
  | error error =>
    intro hnone
    exact h (Option.or_eq_none_iff.mp hnone).1

theorem failed_recordError {error : VmError} : Failed (d.record (.error error)) := by
  show d.firstError.or (some error) ≠ none
  cases d.firstError <;> simp

theorem failed_handle (handler : H) (d : Delivery J H) (h : Failed d) :
    Failed (B.check (B.handle keepResults script payload handler d)).2 := by
  show Failed (B.handle keepResults script payload handler d)
  unfold handle
  dsimp only
  rcases B.call handler payload d.world with ⟨error | returned, w⟩
  · exact failed_recordError
  · dsimp only
    split_ifs
    · exact failed_record h
    · exact h

theorem failed_recheck {left : Bool × Delivery J H} (h : Failed left.2) :
    Failed (B.recheck left).2 := by
  unfold recheck
  split_ifs
  · exact h
  · exact h

theorem failed_deliver {handlers : List H} (h : Failed d) :
    Failed (B.recheck (B.deliver keepResults script payload handlers d)).2 :=
  failed_recheck (breakLoop_keeps failed_handle h)

private theorem failed_script (script : LoadedScript) (d : Delivery J H) (h : Failed d) :
    Failed (B.visitScript keepResults script d).2 := by
  unfold visitScript
  cases B.handlers d.world.js script.id with
  | none => exact h
  | some handlers =>
    dsimp only
    rcases B.encode script.context (d.reach script (some handlers)).world with ⟨error | payload, w⟩
    · exact failed_recordError
    · exact failed_deliver h

theorem failed_member (script : LoadedScript) (d : Delivery J H) (h : Failed d) :
    Failed (B.visitMember keepResults payload script d).2 := by
  unfold visitMember
  cases B.handlers d.world.js script.id with
  | none => exact h
  | some handlers => exact failed_deliver h

theorem failed_passBy {scripts : List LoadedScript} (h : Failed d) :
    Failed (B.passBy scripts d) := by
  induction scripts generalizing d with
  | nil => exact h
  | cons script scripts ih =>
    have hreached : Failed (d.reach script (B.handlers d.world.js script.id)) := h
    exact ih hreached

theorem failed_visit (run : LoadedScript × List LoadedScript) (d : Delivery J H) (h : Failed d) :
    Failed (B.visit keepResults run d).2 := by
  obtain ⟨first, others⟩ := run
  cases others with
  | nil => exact failed_script first d h
  | cons other others =>
    show Failed (B.visitGroup keepResults first (other :: others) d).2
    unfold visitGroup
    split_ifs
    · rcases B.encode first.context d.world with ⟨error | payload, w⟩
      · exact failed_passBy failed_recordError
      · exact breakLoop_keeps failed_member h
    · exact failed_passBy h

theorem goes_glance (h : At scripts due rest m d) :
    Goes scripts (At scripts due rest) (B.glance m) (B.check d) := by
  have hworld : B.elsewhere d.world = B.elsewhere m.world := congrArg B.elsewhere h.world
  have hafter : At scripts due rest { m with world := B.elsewhere m.world } (B.check d).2 :=
    ⟨⟨hworld, h.sound, h.listening, h.ahead⟩, h.dueNow, h.rest⟩
  exact Course.follows_check (congrArg (·.control.shouldStop) hworld) hafter.toTracks hafter

theorem handle_returned {w : World J}
    (h : B.returned keepResults script payload handler d.world = some w) :
    B.handle keepResults script payload handler d =
      Delivery.within w { d with entered := d.entered ++ [(script.id, handler)] } := by
  revert h
  unfold returned handle
  rcases hcall : B.call handler payload d.world with ⟨error | result, w'⟩
  · nofun
  · cases keepResults with
    | false =>
      rintro ⟨⟩
      simp only [hcall]
      rfl
    | true =>
      rcases hreturn : B.onReturn script.id result w' with ⟨error | _, w''⟩
      · simp [hreturn]
      · simp only [hcall, hreturn, if_true]
        rintro ⟨⟩
        rfl

theorem handle_fails (h : B.returned keepResults script payload handler d.world = none) :
    Failed (B.handle keepResults script payload handler d) := by
  revert h
  unfold returned handle
  rcases hcall : B.call handler payload d.world with ⟨error | result, w'⟩
  · intro _
    simp only [hcall]
    exact failed_recordError
  · cases keepResults with
    | false => nofun
    | true =>
      rcases hreturn : B.onReturn script.id result w' with ⟨error | _, w''⟩
      · intro _
        simp only [hcall, hreturn, if_true]
        exact failed_recordError
      · simp [hreturn]

theorem goes_call (h : At scripts ((script.id, handler) :: due) rest m d) :
    Goes scripts (At scripts due rest) (B.smoothCall keepResults script payload handler m)
      (B.check (B.handle keepResults script payload handler d)) := by
  unfold smoothCall
  rw [← h.world]
  cases hreturned : B.returned keepResults script payload handler d.world with
  | none =>
    have hfails : Failed (B.check (B.handle keepResults script payload handler d)).2 :=
      handle_fails hreturned
    exact Course.follows_lost hfails
  | some w =>
    rw [handle_returned hreturned]
    have hdue := h.listening
    rw [h.dueNow] at hdue
    refine goes_glance ⟨⟨rfl, h.sound, ?_, h.ahead⟩, ?_, h.rest⟩
    · show d.listening = d.entered ++ [(script.id, handler)] ++ m.due.tail
      rw [hdue, h.dueNow, List.append_assoc]
      rfl
    · show m.due.tail = due
      rw [h.dueNow]
      rfl

theorem goes_handlers {handlers : List H} (h : At scripts (handlers.map (script.id, ·)) rest m d) :
    Goes scripts (At scripts [] rest) (B.smoothHandlers keepResults script payload handlers m)
      (B.recheck (B.deliver keepResults script payload handlers d)) := by
  have hcall (handler : H) (handlers : List H) (m : Moment J H) (d : Delivery J H)
      (h : At scripts ((script.id, handler) :: handlers.map (script.id, ·)) rest m d) :
      Goes scripts (At scripts (handlers.map (script.id, ·)) rest)
        (B.smoothCall keepResults script payload handler m)
        (B.check (B.handle keepResults script payload handler d)) := goes_call h
  have hdeliver : Goes scripts (At scripts [] rest)
      (Course.each (B.smoothCall keepResults script payload) handlers m)
      (B.deliver keepResults script payload handlers d) :=
    Course.follows_breakLoop (R := fun handlers => At scripts (handlers.map (script.id, ·)) rest)
      hcall failed_handle h
  refine hdeliver.bind (fun hstopped => ?_) failed_recheck (fun hgoes s hs => ?_)
  · have hflag : (B.deliver keepResults script payload handlers d).2.shouldStop = true :=
      breakLoop_stopped (P := fun d => d.shouldStop = true) (fun _ _ hstop => hstop) hstopped
    unfold recheck
    rw [if_pos hstopped, hflag, ← hstopped]
  · unfold recheck
    rw [if_neg (by simp [hgoes])]
    exact goes_glance hs

/-- Coming to the next script. -/
theorem At.reach (handlers : Option (List H)) (h : At scripts [] (script :: rest) m d) :
    At scripts ((handlers.getD []).map (script.id, ·)) rest (m.reach script (handlers.getD []))
      (d.reach script handlers) := by
  have hlistening := h.listening
  rw [h.dueNow, List.append_nil] at hlistening
  refine ⟨⟨h.world, h.sound, ?_, ?_⟩, rfl, ?_⟩
  · show d.listening ++ _ = d.entered ++ _
    rw [hlistening]
    rfl
  · show scripts.drop (d.reached + 1) = m.ahead.tail
    rw [← List.tail_drop, h.ahead]
  · show m.ahead.tail = rest
    rw [h.rest]
    rfl

theorem At.within {w : World J} (h : At scripts due rest m d) :
    At scripts due rest { m with world := w } (d.within w) :=
  ⟨⟨rfl, h.sound, h.listening, h.ahead⟩, h.dueNow, h.rest⟩

theorem goes_script (h : At scripts [] (script :: rest) m d) :
    Goes scripts (At scripts [] rest) (B.smoothScript keepResults script m)
      (B.visitScript keepResults script d) := by
  unfold smoothScript visitScript
  rw [h.world]
  cases hhandlers : B.handlers m.world.js script.id with
  | none => exact Course.follows_done (h.reach none)
  | some handlers =>
    have hworld : (d.reach script (some handlers)).world = m.world := h.world
    dsimp only
    rw [hworld]
    rcases B.encode script.context m.world with ⟨error | payload, w⟩
    · have hfails : Failed (B.check (Delivery.record (.error error)
          ((d.reach script (some handlers)).within w))).2 := failed_recordError
      exact Course.follows_lost hfails
    · exact goes_handlers (h.reach (some handlers)).within

private theorem goes_member (script : LoadedScript) (members : List LoadedScript) (m : Moment J H)
    (d : Delivery J H) (h : At scripts [] (script :: members ++ rest) m d) :
    Goes scripts (At scripts [] (members ++ rest)) (B.smoothMember keepResults payload script m)
      (B.visitMember keepResults payload script d) := by
  unfold smoothMember visitMember
  rw [h.world]
  cases hhandlers : B.handlers m.world.js script.id with
  | none => exact Course.follows_done (h.reach none)
  | some handlers => exact goes_handlers (h.reach (some handlers))

/-- Passing by scripts that do not listen. -/
theorem At.passBy {run : List LoadedScript} (h : At scripts [] (run ++ rest) m d)
    (hsilent : ∀ script ∈ run, B.handlers m.world.js script.id = none) :
    At scripts [] rest { m with ahead := m.ahead.drop run.length } (B.passBy run d) := by
  induction run generalizing m d with
  | nil => exact h
  | cons script run ih =>
    have hnone : B.handlers d.world.js script.id = none := by
      rw [h.world]
      exact hsilent script List.mem_cons_self
    have hnext := ih (h.reach none) fun other hother =>
      hsilent other (List.mem_cons_of_mem _ hother)
    show At scripts [] rest _ (B.passBy run (d.reach script (B.handlers d.world.js script.id)))
    rw [hnone]
    show At scripts [] rest ⟨m.world, m.due, m.ahead.drop (run.length + 1)⟩ _
    rw [h.dueNow, ← List.drop_tail]
    exact hnext

theorem goes_group {first : LoadedScript} {others : List LoadedScript}
    (h : At scripts [] (first :: others ++ rest) m d) :
    Goes scripts (At scripts [] rest) (B.smoothGroup keepResults first others m)
      (B.visitGroup keepResults first others d) := by
  unfold smoothGroup visitGroup
  rw [h.world]
  split_ifs with hany
  · rcases B.encode first.context m.world with ⟨error | payload, w⟩
    · exact Course.follows_lost (failed_passBy failed_recordError)
    · exact Course.follows_breakLoop (R := fun members => At scripts [] (members ++ rest))
        goes_member failed_member h.within
  · have hsilent : ∀ script ∈ first :: others, ¬ B.listens m.world script = true := by
      simpa using hany
    exact Course.follows_done (h.passBy fun script hscript =>
      Option.not_isSome_iff_eq_none.mp (hsilent script hscript))

private theorem goes_visit (run : LoadedScript × List LoadedScript)
    (runs : List (LoadedScript × List LoadedScript)) (m : Moment J H) (d : Delivery J H)
    (h : At scripts [] ((run :: runs).flatMap fun run => run.1 :: run.2) m d) :
    Goes scripts (At scripts [] (runs.flatMap fun run => run.1 :: run.2))
      (B.smoothVisit keepResults run m) (B.visit keepResults run d) := by
  obtain ⟨first, others⟩ := run
  cases others with
  | nil => exact goes_script h
  | cons other others => exact goes_group h

/-- The runs are the scripts, in load order. -/
theorem contextRuns_flatten (scripts : List LoadedScript) :
    (contextRuns scripts).flatMap (fun run => run.1 :: run.2) = scripts := by
  induction scripts with
  | nil => rfl
  | cons script scripts ih =>
    unfold contextRuns
    cases hruns : contextRuns scripts with
    | nil =>
      rw [hruns] at ih
      have hnil : scripts = [] := ih.symm
      rw [hnil]
      rfl
    | cons run runs =>
      rw [hruns] at ih
      dsimp only
      split_ifs
      · exact congrArg (script :: ·) ih
      · exact congrArg (script :: ·) ih

private theorem goes_dispatch (keepResults : Bool) (timeout : Nat) (scripts : List LoadedScript)
    (w : World J) : Goes scripts (At scripts [] []) (B.smooth keepResults timeout scripts w)
      (breakLoop (B.visit keepResults) (contextRuns scripts) (start timeout w)) := by
  refine Course.follows_breakLoop (R := fun runs => At scripts [] (runs.flatMap fun run => run.1 :: run.2))
    goes_visit failed_visit ⟨⟨rfl, rfl, rfl, rfl⟩, rfl, ?_⟩
  exact (contextRuns_flatten scripts).symm

/-- What a part of the dispatch that looks at `n` scripts did, if it counted none. -/
structure Silent (n : Nat) (d : Delivery J H) (r : Bool × Delivery J H) : Prop where
  goesOn : r.1 = false
  delivered : d.delivered = 0
  listening : r.2.listening = d.listening
  entered : r.2.entered = d.entered
  reached : r.2.reached = d.reached + n

theorem silent_reach (script : LoadedScript) (d : Delivery J H)
    (hzero : (d.reach script (B.handlers d.world.js script.id)).delivered = 0) :
    Silent 1 d (false, d.reach script (B.handlers d.world.js script.id)) := by
  cases hhandlers : B.handlers d.world.js script.id with
  | some handlers =>
    rw [hhandlers] at hzero
    exact absurd hzero (Nat.succ_ne_zero _)
  | none =>
    rw [hhandlers] at hzero
    exact ⟨rfl, hzero, List.append_nil _, rfl, rfl⟩

theorem handle_delivered (handler : H) (d : Delivery J H) :
    (B.check (B.handle keepResults script payload handler d)).2.delivered = d.delivered := by
  have hrecord (d : Delivery J H) (outcome : Except VmError Unit) :
      (d.record outcome).delivered = d.delivered := by
    cases outcome <;> rfl
  show (B.handle keepResults script payload handler d).delivered = d.delivered
  unfold handle
  dsimp only
  rcases B.call handler payload d.world with ⟨error | returned, w⟩
  · rfl
  · dsimp only
    split_ifs
    · exact hrecord _ _
    · rfl

theorem deliver_delivered {handlers : List H} (hd : d.delivered ≠ 0) :
    (B.recheck (B.deliver keepResults script payload handlers d)).2.delivered ≠ 0 := by
  have hdeliver : (B.deliver keepResults script payload handlers d).2.delivered ≠ 0 :=
    breakLoop_keeps (P := fun d : Delivery J H => d.delivered ≠ 0)
      (fun handler d hd => (handle_delivered handler d).trans_ne hd) hd
  unfold recheck
  split_ifs
  · exact hdeliver
  · exact hdeliver

theorem silent_script (script : LoadedScript) (d : Delivery J H)
    (hzero : (B.visitScript keepResults script d).2.delivered = 0) :
    Silent 1 d (B.visitScript keepResults script d) := by
  have hreach := silent_reach (B := B) script d
  unfold visitScript at hzero ⊢
  cases hhandlers : B.handlers d.world.js script.id with
  | none =>
    rw [hhandlers] at hreach hzero
    exact hreach hzero
  | some handlers =>
    rw [hhandlers] at hzero
    dsimp only at hzero
    have hcounted (w : World J) : ((d.reach script (some handlers)).within w).delivered ≠ 0 :=
      Nat.succ_ne_zero _
    generalize B.encode script.context (d.reach script (some handlers)).world = encoded at hzero ⊢
    rcases encoded with ⟨error | payload, w⟩
    · exact absurd hzero (hcounted w)
    · exact absurd hzero (deliver_delivered (hcounted w))

theorem silent_member (script : LoadedScript) (d : Delivery J H)
    (hzero : (B.visitMember keepResults payload script d).2.delivered = 0) :
    Silent 1 d (B.visitMember keepResults payload script d) := by
  have hreach := silent_reach (B := B) script d
  unfold visitMember at hzero ⊢
  cases hhandlers : B.handlers d.world.js script.id with
  | none =>
    rw [hhandlers] at hreach hzero
    exact hreach hzero
  | some handlers =>
    rw [hhandlers] at hzero
    have hcounted : (d.reach script (some handlers)).delivered ≠ 0 := Nat.succ_ne_zero _
    exact absurd hzero (deliver_delivered hcounted)

theorem Silent.trans {n k : Nat} {r r' : Bool × Delivery J H} (h : Silent n d r)
    (h' : Silent k r.2 r') : Silent (n + k) d r' :=
  ⟨h'.goesOn, h.delivered, h'.listening.trans h.listening, h'.entered.trans h.entered, by
    rw [h'.reached, h.reached, Nat.add_assoc]⟩

theorem silent_passBy (scripts : List LoadedScript) (d : Delivery J H)
    (hzero : (B.passBy scripts d).delivered = 0) :
    Silent scripts.length d (false, B.passBy scripts d) := by
  induction scripts generalizing d with
  | nil => exact ⟨rfl, hzero, rfl, rfl, rfl⟩
  | cons script scripts ih =>
    have hrest := ih (d.reach script (B.handlers d.world.js script.id)) hzero
    have hfirst := silent_reach (B := B) script d hrest.delivered
    rw [List.length_cons, Nat.add_comm]
    exact hfirst.trans hrest

theorem silent_breakLoop {α : Type} {n : α → Nat} {body : α → Delivery J H → Bool × Delivery J H}
    (hbody : ∀ a d, (body a d).2.delivered = 0 → Silent (n a) d (body a d)) (as : List α)
    (d : Delivery J H) (hzero : (breakLoop body as d).2.delivered = 0) :
    Silent (as.map n).sum d (breakLoop body as d) := by
  induction as generalizing d with
  | nil => exact ⟨rfl, hzero, rfl, rfl, rfl⟩
  | cons a as ih =>
    unfold breakLoop at hzero ⊢
    dsimp only at hzero ⊢
    split_ifs at hzero ⊢ with hstop
    · have hfirst := hbody a d hzero
      rw [hfirst.goesOn] at hstop
      cases hstop
    · have hrest := ih (body a d).2 hzero
      rw [List.map_cons, List.sum_cons]
      exact (hbody a d hrest.delivered).trans hrest

theorem silent_visit (run : LoadedScript × List LoadedScript) (d : Delivery J H)
    (hzero : (B.visit keepResults run d).2.delivered = 0) :
    Silent (run.1 :: run.2).length d (B.visit keepResults run d) := by
  obtain ⟨first, others⟩ := run
  cases others with
  | nil => exact silent_script first d hzero
  | cons other others =>
    change (B.visitGroup keepResults first (other :: others) d).2.delivered = 0 at hzero
    show Silent _ d (B.visitGroup keepResults first (other :: others) d)
    unfold visitGroup at hzero ⊢
    split_ifs at hzero ⊢
    · generalize B.encode first.context d.world = encoded at hzero ⊢
      rcases encoded with ⟨error | payload, w⟩
      · have hpass := silent_passBy (first :: other :: others) _ hzero
        exact ⟨rfl, hpass.delivered, hpass.listening, hpass.entered, hpass.reached⟩
      · have hloop := silent_breakLoop silent_member (first :: other :: others) _ hzero
        refine ⟨hloop.goesOn, hloop.delivered, hloop.listening, hloop.entered, ?_⟩
        have hreached := hloop.reached
        have hlength : ((first :: other :: others).map fun _ => 1).sum =
            (first :: other :: others).length := by
          simp
          omega
        rw [hlength] at hreached
        exact hreached
    · exact silent_passBy (first :: other :: others) d hzero

private theorem silent_dispatch (keepResults : Bool) (timeout : Nat) (scripts : List LoadedScript)
    (w : World J) (hzero : (breakLoop (B.visit keepResults) (contextRuns scripts)
      (start timeout w)).2.delivered = 0) :
    Silent scripts.length (start timeout w)
      (breakLoop (B.visit keepResults) (contextRuns scripts) (start timeout w)) := by
  have hloop := silent_breakLoop silent_visit (contextRuns scripts) (start timeout w) hzero
  have hlength := congrArg List.length (contextRuns_flatten scripts)
  rw [List.length_flatMap] at hlength
  rw [hlength] at hloop
  exact hloop

/-- The handlers that listened when their script was reached were entered, once each and in
order, and no script that was not reached has any. -/
def Complete (B : Behaviour J H P R) (scripts : List LoadedScript) (d : Delivery J H) : Prop :=
  d.entered = d.listening ∧
    ∀ script ∈ scripts.drop d.reached, (B.handlers d.world.js script.id).getD [] = []

theorem complete_iff_left (h : Tracks scripts m d) : B.Complete scripts d ↔ B.left m = [] := by
  unfold Complete left
  rw [h.listening, h.ahead, h.world, List.append_eq_nil_iff, List.flatMap_eq_nil_iff]
  simp

/-- The settling reports an error, or resumes a panic. -/
def Reports (B : Behaviour J H P R) (w : World J) : Prop :=
  (B.settled w).2.panicked = true ∨ (B.settled w).2.error (B.settled w).1 ≠ none

theorem settle_eq_ok : (∃ n, B.settle d = .ok n) ↔ d.firstError = none ∧ ¬ B.Reports d.world := by
  have hok (n : Nat) : B.settle d = .ok n ↔
      d.result = .ok n ∧ (B.settled d.world).2.panicked = false ∧
        (B.settled d.world).2.error (B.settled d.world).1 = none :=
    attributeInterrupt_settle_eq_ok
  constructor
  · rintro ⟨n, hn⟩
    obtain ⟨hresult, hpanicked, herror⟩ := (hok n).mp hn
    refine ⟨?_, fun hreports => hreports.elim (by simp [hpanicked]) (fun h => h herror)⟩
    cases hfirst : d.firstError with
    | none => rfl
    | some error => simp [Delivery.result, hfirst] at hresult
  · rintro ⟨hfirst, hreports⟩
    refine ⟨d.delivered, (hok _).mpr ⟨by rw [Delivery.result, hfirst], ?_, ?_⟩⟩
    · exact Bool.eq_false_iff.mpr fun h => hreports (.inl h)
    · exact not_not.mp fun h => hreports (.inr h)

/-- A dispatch that succeeds left no handler out, exactly when: whenever should-stop is read, all
having gone well so far, and says stop, no handler is left to call, or the settling reports. -/
theorem complete_iff (B : Behaviour J H P R) (keepResults : Bool) (timeout : Nat)
    (scripts : List LoadedScript) (w : World J) :
    (∀ n, (B.dispatch keepResults timeout scripts w).1 = .ok n →
      B.Complete scripts (B.dispatch keepResults timeout scripts w).2) ↔
    ∀ m ∈ (B.smooth keepResults timeout scripts w).seen, m.shouldStop = true →
      B.left m = [] ∨ B.Reports m.world := by
  have hgoes := goes_dispatch (B := B) keepResults timeout scripts w
  have hsilent := silent_dispatch (B := B) keepResults timeout scripts w
  unfold dispatch
  generalize breakLoop (B.visit keepResults) (contextRuns scripts) (start timeout w) = r
    at hgoes hsilent ⊢
  obtain ⟨stopped, d⟩ := r
  dsimp only
  split_ifs with hzero
  · -- No script was counted: nothing listened, and no flag was read.
    have hnone := hsilent hzero
    have hreached : d.reached = scripts.length := hnone.reached.trans (Nat.zero_add _)
    refine iff_of_true (fun _ _ => ⟨hnone.entered.trans hnone.listening.symm, ?_⟩) fun m hm hstop => ?_
    · simp [hreached]
    · have hleft := (hgoes.stops m hm hstop).1
      rw [hnone.goesOn] at hleft
      cases hleft
  · constructor
    · intro h m hm hstop
      have htracks : Tracks scripts m d := (hgoes.stops m hm hstop).2
      by_cases hreports : B.Reports m.world
      · exact .inr hreports
      · rw [← htracks.world] at hreports
        obtain ⟨n, hn⟩ := settle_eq_ok.mpr ⟨htracks.sound, hreports⟩
        exact .inl ((complete_iff_left htracks).mp (h n hn))
    · intro h n hn
      obtain ⟨hsound, hquiet⟩ := settle_eq_ok.mp ⟨n, hn⟩
      by_cases hstops : ∃ m ∈ (B.smooth keepResults timeout scripts w).seen, m.shouldStop = true
      · obtain ⟨m, hm, hstop⟩ := hstops
        have htracks : Tracks scripts m d := (hgoes.stops m hm hstop).2
        rw [htracks.world] at hquiet
        exact (complete_iff_left htracks).mpr ((h m hm hstop).resolve_right hquiet)
      · have hseen : ∀ m ∈ (B.smooth keepResults timeout scripts w).seen, m.shouldStop = false :=
          fun m hm => Bool.eq_false_iff.mpr fun hstop => hstops ⟨m, hm, hstop⟩
        cases hlast : (B.smooth keepResults timeout scripts w).last with
        | none => exact absurd hsound (hgoes.wrong hlast hseen)
        | some m =>
          have hend : At scripts [] [] m d := (hgoes.ends m hlast).2.1
          refine (complete_iff_left hend.toTracks).mpr ?_
          simp [left, hend.dueNow, hend.rest]

/-- A handler that asks to interrupt through a host function and returns. -/
def askingHandler : Behaviour Unit Unit Unit Unit where
  handlers _ _ := some [()]
  encode _ w := (.ok (), w)
  call _ _ w := (.ok (), { w with control := w.control.requestInterrupt })
  onReturn _ _ w := (.ok (), w)
  elsewhere w := w
  settled w := (w.control, .quiet)

theorem askingHandler_leaves_out :
    let scripts : List LoadedScript := [⟨['a'], 0⟩, ⟨['b'], 1⟩]
    let r := askingHandler.dispatch false u64Max scripts ⟨.default, ()⟩
    r.1 = .ok 1 ∧ r.2.entered = [(['a'], ())] ∧ ¬ askingHandler.Complete scripts r.2 := by
  refine ⟨rfl, rfl, fun h => ?_⟩
  have hleft := h.2 ⟨['b'], 1⟩ (by decide)
  cases hleft

end Behaviour

end RustTS.Runner
