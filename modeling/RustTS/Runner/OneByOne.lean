import Mathlib.Algebra.Order.Ring.Nat
import Mathlib.Data.List.Induction
import RustTS.Lib.IndexMap
import RustTS.Runner.Delivery

/-! A dispatch that serves the scripts of a context in one visit, against a loop that visits the
loaded scripts one by one. -/
namespace RustTS.Runner
open ModuleLoader

/-- What changes the loaded scripts: a load, or reload, that succeeds, and an unload. -/
inductive Loading
  | load (script : LoadedScript)
  | unload (id : Text)

/-- `Engine::scripts`, with the context of each. -/
def scriptsAfter (history : List Loading) : IndexMap Text Nat :=
  history.foldl (fun scripts event =>
    match event with
    | .load script => scripts.insert script.id script.context
    | .unload id => scripts.erase id) .empty

/-- The scripts a dispatch visits. -/
def loadedScripts (history : List Loading) : List LoadedScript :=
  (scriptsAfter history).entries.map fun e => ⟨e.1, e.2⟩

/-- Load order: a script that is loaded anew comes last, a reloaded one keeps its place. -/
def inLoadOrder (history : List Loading) : List LoadedScript :=
  history.foldl (fun scripts event =>
    match event with
    | .load script =>
      if scripts.any (·.id = script.id) then
        scripts.map fun other => if other.id = script.id then script else other
      else scripts ++ [script]
    | .unload id => scripts.filter (·.id ≠ id)) []

variable {J H P R : Type}

namespace Behaviour

variable (B : Behaviour J H P R)

/-- The delivery as it goes on before a flag is read. -/
def ahead (d : Delivery J H) : Delivery J H := d.within (B.elsewhere d.world)

def plainDeliver (keepResults : Bool) (script : LoadedScript) (payload : P) (handlers : List H)
    (d : Delivery J H) : Checked (Delivery J H) :=
  .each (fun handler d => .check (B.ahead (B.handle keepResults script payload handler d)))
    handlers d

def plainScript (keepResults : Bool) (script : LoadedScript) (d : Delivery J H) :
    Checked (Delivery J H) :=
  match B.handlers d.world.js script.id with
  | none => .done (d.reach script none)
  | some handlers =>
    let d := d.reach script (some handlers)
    match B.encode script.context d.world with
    | (.ok payload, w) =>
      (B.plainDeliver keepResults script payload handlers (d.within w)).bind
        fun d => .check (B.ahead d)
    | (.error error, w) => .check (B.ahead ((d.within w).record (.error error)))

def plainMember (keepResults : Bool) (payload : P) (script : LoadedScript) (d : Delivery J H) :
    Checked (Delivery J H) :=
  match B.handlers d.world.js script.id with
  | none => .done (d.reach script none)
  | some handlers =>
    (B.plainDeliver keepResults script payload handlers (d.reach script (some handlers))).bind
      fun d => .check (B.ahead d)

def plainGroup (keepResults : Bool) (first : LoadedScript) (others : List LoadedScript)
    (d : Delivery J H) : Checked (Delivery J H) :=
  if (first :: others).any (B.listens d.world) then
    match B.encode first.context d.world with
    | (.ok payload, w) => .each (B.plainMember keepResults payload) (first :: others) (d.within w)
    | (.error error, w) =>
      .done (B.passBy (first :: others) ((d.within w).record (.error error)))
  else .done (B.passBy (first :: others) d)

def plainVisit (keepResults : Bool) (run : LoadedScript × List LoadedScript) (d : Delivery J H) :
    Checked (Delivery J H) :=
  match run.2 with
  | [] => B.plainScript keepResults run.1 d
  | other :: others => B.plainGroup keepResults run.1 (other :: others) d

/-- The delivery of an event that no flag stops, with the states in which it reads them. -/
def plain (keepResults : Bool) (timeout : Nat) (scripts : List LoadedScript) (w : World J) :
    Checked (Delivery J H) :=
  .each (B.plainVisit keepResults) (contextRuns scripts) (start timeout w)

theorem check_eq_cut (d : Delivery J H) :
    B.check d = (Checked.check (B.ahead d)).cut Delivery.shouldStop := by
  rw [Checked.cut_check]
  rfl

theorem deliver_eq_cut (keepResults : Bool) (script : LoadedScript) (payload : P)
    (handlers : List H) (d : Delivery J H) : B.deliver keepResults script payload handlers d =
      (B.plainDeliver keepResults script payload handlers d).cut Delivery.shouldStop :=
  breakLoop_eq_cut (fun _ _ => B.check_eq_cut _) handlers d

theorem recheck_cut (t : Checked (Delivery J H)) :
    B.recheck (t.cut Delivery.shouldStop) =
      (t.bind fun d => .check (B.ahead d)).cut Delivery.shouldStop := by
  rw [Checked.cut_bind]
  unfold recheck
  split_ifs with h
  · rw [Checked.stop_of_cut h, ← h]
  · exact B.check_eq_cut _

theorem visitScript_eq_cut (keepResults : Bool) (script : LoadedScript) (d : Delivery J H) :
    B.visitScript keepResults script d =
      (B.plainScript keepResults script d).cut Delivery.shouldStop := by
  unfold visitScript plainScript
  cases B.handlers d.world.js script.id with
  | none => rfl
  | some handlers =>
    dsimp only
    rcases B.encode script.context (d.reach script (some handlers)).world with ⟨error | payload, w⟩
    · exact B.check_eq_cut _
    · dsimp only
      rw [deliver_eq_cut]
      exact B.recheck_cut _

private theorem visitMember_eq_cut (keepResults : Bool) (payload : P) (script : LoadedScript)
    (d : Delivery J H) : B.visitMember keepResults payload script d =
      (B.plainMember keepResults payload script d).cut Delivery.shouldStop := by
  unfold visitMember plainMember
  cases B.handlers d.world.js script.id with
  | none => rfl
  | some handlers =>
    dsimp only
    rw [deliver_eq_cut]
    exact B.recheck_cut _

private theorem visitGroup_eq_cut (keepResults : Bool) (first : LoadedScript) (others : List LoadedScript)
    (d : Delivery J H) : B.visitGroup keepResults first others d =
      (B.plainGroup keepResults first others d).cut Delivery.shouldStop := by
  unfold visitGroup plainGroup
  split_ifs with h
  · rcases B.encode first.context d.world with ⟨error | payload, w⟩
    · rfl
    · exact breakLoop_eq_cut (B.visitMember_eq_cut keepResults payload) _ _
  · rfl

private theorem visit_eq_cut (keepResults : Bool) (run : LoadedScript × List LoadedScript)
    (d : Delivery J H) : B.visit keepResults run d =
      (B.plainVisit keepResults run d).cut Delivery.shouldStop := by
  unfold visit plainVisit
  cases run.2 with
  | nil => exact B.visitScript_eq_cut keepResults run.1 d
  | cons other others => exact B.visitGroup_eq_cut keepResults run.1 (other :: others) d

private theorem dispatch_eq_cut (keepResults : Bool) (timeout : Nat) (scripts : List LoadedScript)
    (w : World J) : B.dispatch keepResults timeout scripts w =
      let d := ((B.plain keepResults timeout scripts w).cut Delivery.shouldStop).2
      if d.delivered = 0 then (.ok 0, d) else (B.settle d, d) := by
  unfold dispatch plain
  rw [breakLoop_eq_cut (B.visit_eq_cut keepResults)]

/-- Encodes the payload for one script and calls its handlers. -/
def deliverAlone (keepResults : Bool) (d : Delivery J H) (script : LoadedScript) : Delivery J H :=
  match B.handlers d.world.js script.id with
  | none => d.reach script none
  | some handlers =>
    let d := d.reach script (some handlers)
    match B.encode script.context d.world with
    | (.ok payload, w) =>
      B.ahead (handlers.foldl (fun d handler =>
        B.ahead (B.handle keepResults script payload handler d)) (d.within w))
    | (.error error, w) => B.ahead ((d.within w).record (.error error))

/-- The plain loop over the scripts. -/
def oneByOne (keepResults : Bool) (timeout : Nat) (scripts : List LoadedScript) (w : World J) :
    Delivery J H :=
  scripts.foldl (B.deliverAlone keepResults) (start timeout w)

end Behaviour

/-- The two deliveries entered the same handlers in the same order, counted the same scripts, kept
the same first error and did the same, the results handed over included. -/
structure Delivery.Matches (d e : Delivery J H) : Prop where
  entered : d.entered = e.entered
  listening : d.listening = e.listening
  delivered : d.delivered = e.delivered
  firstError : d.firstError = e.firstError
  js : d.world.js = e.world.js

theorem Delivery.Matches.symm {d e : Delivery J H} (h : d.Matches e) : e.Matches d :=
  ⟨h.entered.symm, h.listening.symm, h.delivered.symm, h.firstError.symm, h.js.symm⟩

theorem Delivery.Matches.trans {d e e' : Delivery J H} (h : d.Matches e) (h' : e.Matches e') :
    d.Matches e' :=
  ⟨h.entered.trans h'.entered, h.listening.trans h'.listening, h.delivered.trans h'.delivered,
    h.firstError.trans h'.firstError, h.js.trans h'.js⟩

theorem Delivery.Matches.refl (d : Delivery J H) : d.Matches d := ⟨rfl, rfl, rfl, rfl, rfl⟩

theorem mem_keys_iff_any (scripts : IndexMap Text Nat) (id : Text) :
    (scripts.entries.map fun e => (⟨e.1, e.2⟩ : LoadedScript)).any (·.id = id) = true ↔
      id ∈ scripts.keys := by
  simp [IndexMap.keys]

theorem loadedScripts_eq (history : List Loading) : loadedScripts history = inLoadOrder history := by
  unfold loadedScripts scriptsAfter inLoadOrder
  induction history using List.reverseRecOn with
  | nil => rfl
  | append_singleton history event ih =>
    simp only [List.foldl_append, List.foldl_cons, List.foldl_nil, ← ih]
    generalize List.foldl _ IndexMap.empty history = scripts
    cases event with
    | unload id =>
      show (List.filter _ _).map _ = List.filter _ (List.map _ _)
      rw [List.filter_map]
      rfl
    | load script =>
      show (scripts.insert script.id script.context).entries.map _ =
        if (scripts.entries.map _).any _ = true then _ else _
      by_cases hloaded : script.id ∈ scripts.keys
      · rw [if_pos ((mem_keys_iff_any scripts script.id).mpr hloaded), IndexMap.insert,
          dif_pos hloaded, IndexMap.mapValues, List.map_map, List.map_map]
        refine List.map_congr_left fun e _ => ?_
        by_cases heq : e.1 = script.id
        · simp [heq]
        · simp [heq]
      · rw [if_neg (mt (mem_keys_iff_any scripts script.id).mp hloaded), IndexMap.insert,
          dif_neg hloaded, List.map_append]
        rfl

namespace Behaviour

variable {B : Behaviour J H P R} {keepResults : Bool}

theorem last_plainDeliver (script : LoadedScript) (payload : P) (handlers : List H) (d : Delivery J H) :
    (B.plainDeliver keepResults script payload handlers d).last =
      handlers.foldl (fun d handler =>
        B.ahead (B.handle keepResults script payload handler d)) d := by
  unfold plainDeliver
  induction handlers generalizing d with
  | nil => rfl
  | cons handler handlers ih => exact ih _

section Encodes
variable {payload : P} (hencode : ∀ context w, B.encode context w = (.ok payload, w))
include hencode

private theorem last_plainScript (script : LoadedScript) (d : Delivery J H) :
    (B.plainScript keepResults script d).last = B.deliverAlone keepResults d script := by
  unfold plainScript deliverAlone
  cases B.handlers d.world.js script.id with
  | none => rfl
  | some handlers =>
    dsimp only
    rw [hencode]
    exact congrArg B.ahead (last_plainDeliver script payload handlers _)

private theorem last_plainMember (script : LoadedScript) (d : Delivery J H) :
    (B.plainMember keepResults payload script d).last = B.deliverAlone keepResults d script := by
  unfold plainMember deliverAlone
  cases B.handlers d.world.js script.id with
  | none => rfl
  | some handlers =>
    dsimp only
    rw [hencode]
    exact congrArg B.ahead (last_plainDeliver script payload handlers _)

private theorem last_each_member (scripts : List LoadedScript) (d : Delivery J H) :
    (Checked.each (B.plainMember keepResults payload) scripts d).last =
      scripts.foldl (B.deliverAlone keepResults) d := by
  induction scripts generalizing d with
  | nil => rfl
  | cons script scripts ih =>
    show (Checked.each _ scripts (B.plainMember keepResults payload script d).last).last = _
    rw [ih, last_plainMember hencode]
    rfl

end Encodes

theorem foldl_deliverAlone_quiet {scripts : List LoadedScript} {d : Delivery J H}
    (h : scripts.any (B.listens d.world) = false) :
    scripts.foldl (B.deliverAlone keepResults) d = B.passBy scripts d := by
  unfold passBy
  induction scripts generalizing d with
  | nil => rfl
  | cons script scripts ih =>
    obtain ⟨hscript, hscripts⟩ := Bool.or_eq_false_iff.mp h
    have hnone : B.handlers d.world.js script.id = none :=
      Option.isSome_eq_false_iff.mp hscript |> Option.isNone_iff_eq_none.mp
    have halone : B.deliverAlone keepResults d script = d.reach script none := by
      unfold deliverAlone
      rw [hnone]
    rw [List.foldl_cons, List.foldl_cons, halone, hnone]
    exact ih hscripts

theorem last_plainVisit {payload : P}
    (hencode : ∀ context w, B.encode context w = (.ok payload, w))
    (run : LoadedScript × List LoadedScript) (d : Delivery J H) :
    (B.plainVisit keepResults run d).last =
      (run.1 :: run.2).foldl (B.deliverAlone keepResults) d := by
  unfold plainVisit
  cases hothers : run.2 with
  | nil => exact last_plainScript hencode run.1 d
  | cons other others =>
    show (B.plainGroup keepResults run.1 (other :: others) d).last = _
    unfold plainGroup
    split_ifs with hlistening
    · rw [hencode]
      exact last_each_member hencode _ d
    · rw [foldl_deliverAlone_quiet (Bool.eq_false_iff.mpr hlistening)]
      rfl

theorem last_plain {payload : P} (hencode : ∀ context w, B.encode context w = (.ok payload, w))
    (timeout : Nat) (scripts : List LoadedScript) (w : World J) :
    (B.plain keepResults timeout scripts w).last = B.oneByOne keepResults timeout scripts w := by
  have heach (runs : List (LoadedScript × List LoadedScript)) (d : Delivery J H) :
      (Checked.each (B.plainVisit keepResults) runs d).last =
        (runs.flatMap fun run => run.1 :: run.2).foldl (B.deliverAlone keepResults) d := by
    induction runs generalizing d with
    | nil => rfl
    | cons run runs ih =>
      show (Checked.each _ runs (B.plainVisit keepResults run d).last).last = _
      rw [ih, last_plainVisit hencode, List.flatMap_cons, List.foldl_append]
  unfold plain oneByOne
  rw [heach, contextRuns_flatten]

section Fails
variable (keepResults) {error : VmError} (hencode : ∀ context w, B.encode context w = (.error error, w))
  (helsewhere : ∀ w, (B.elsewhere w).js = w.js)
include hencode helsewhere

theorem deliverAlone_failed {d e : Delivery J H} (h : d.Matches e) (script : LoadedScript) :
    (B.deliverAlone keepResults d script).Matches
      (if B.listens e.world script then
        (e.reach script (B.handlers e.world.js script.id)).record (.error error)
      else e.reach script (B.handlers e.world.js script.id)) := by
  unfold deliverAlone listens
  rw [h.js]
  cases B.handlers e.world.js script.id with
  | none =>
    exact ⟨h.entered, congrArg (· ++ _) h.listening, congrArg (· + _) h.delivered, h.firstError,
      h.js⟩
  | some handlers =>
    dsimp only
    rw [hencode]
    refine ⟨h.entered, congrArg (· ++ _) h.listening, congrArg (· + _) h.delivered, ?_, ?_⟩
    · exact congrArg (Option.or · _) h.firstError
    · exact (helsewhere _).trans h.js

omit hencode helsewhere in
theorem passBy_cons (script : LoadedScript) (scripts : List LoadedScript) (d : Delivery J H) :
    B.passBy (script :: scripts) d =
      B.passBy scripts (d.reach script (B.handlers d.world.js script.id)) := rfl

omit hencode helsewhere in
theorem passBy_record (scripts : List LoadedScript) (outcome : Except VmError Unit)
    (d : Delivery J H) :
    B.passBy scripts (d.record outcome) = (B.passBy scripts d).record outcome := by
  induction scripts generalizing d with
  | nil => rfl
  | cons script scripts ih =>
    rw [passBy_cons, passBy_cons, ← ih]
    cases outcome <;> rfl

omit hencode helsewhere in
private theorem record_record (d : Delivery J H) (error : VmError) :
    (d.record (.error error)).record (.error error) = d.record (.error error) := by
  unfold Delivery.record
  cases d.firstError <;> rfl

theorem foldl_deliverAlone_failed (scripts : List LoadedScript) {d e : Delivery J H}
    (h : d.Matches e) :
    (scripts.foldl (B.deliverAlone keepResults) d).Matches
      (if scripts.any (B.listens e.world) then (B.passBy scripts e).record (.error error)
      else B.passBy scripts e) := by
  induction scripts generalizing d e with
  | nil => exact h
  | cons script scripts ih =>
    have hnext := deliverAlone_failed keepResults hencode helsewhere h script
    rw [List.foldl_cons, List.any_cons, passBy_cons]
    cases hlistens : B.listens e.world script with
    | false =>
      rw [hlistens] at hnext
      exact ih hnext
    | true =>
      rw [hlistens, if_pos rfl] at hnext
      have hrest := ih hnext
      rw [passBy_record, record_record, ite_self] at hrest
      exact hrest

theorem last_plainVisit_failed (run : LoadedScript × List LoadedScript) {d e : Delivery J H}
    (h : d.Matches e) :
    (B.plainVisit keepResults run d).last.Matches
      ((run.1 :: run.2).foldl (B.deliverAlone keepResults) e) := by
  unfold plainVisit
  cases hothers : run.2 with
  | nil =>
    have halone : (B.plainScript keepResults run.1 d).last = B.deliverAlone keepResults d run.1 := by
      unfold plainScript deliverAlone
      cases B.handlers d.world.js run.1.id with
      | none => rfl
      | some handlers =>
        dsimp only
        rw [hencode]
        rfl
    have hleft := deliverAlone_failed keepResults hencode helsewhere
      (.refl d) run.1
    have hright := deliverAlone_failed keepResults hencode helsewhere h.symm run.1
    exact halone ▸ hleft.trans hright.symm
  | cons other others =>
    have hfold : ((run.1 :: other :: others).foldl (B.deliverAlone keepResults) e).Matches _ :=
      foldl_deliverAlone_failed keepResults hencode helsewhere (run.1 :: other :: others) h.symm
    show (B.plainGroup keepResults run.1 (other :: others) d).last.Matches _
    unfold plainGroup
    split_ifs at hfold ⊢ with hlistening
    · rw [← passBy_record] at hfold
      rw [hencode]
      exact hfold.symm
    · exact hfold.symm

theorem last_plain_failed (timeout : Nat) (scripts : List LoadedScript) (w : World J) :
    (B.plain keepResults timeout scripts w).last.Matches
      (B.oneByOne keepResults timeout scripts w) := by
  have heach (runs : List (LoadedScript × List LoadedScript)) {d e : Delivery J H}
      (h : d.Matches e) : (Checked.each (B.plainVisit keepResults) runs d).last.Matches
        ((runs.flatMap fun run => run.1 :: run.2).foldl (B.deliverAlone keepResults) e) := by
    induction runs generalizing d e with
    | nil => exact h
    | cons run runs ih =>
      rw [List.flatMap_cons, List.foldl_append]
      exact ih (last_plainVisit_failed keepResults hencode helsewhere run h)
  unfold plain oneByOne
  have hmatches := heach (contextRuns scripts) (Delivery.Matches.refl (start timeout w))
  rw [contextRuns_flatten] at hmatches
  exact hmatches

end Fails

/-- Where the encoding of the payload does not depend on the context and no flag that the dispatch
reads says stop, the dispatch does what the loop over the scripts in load order does. -/
theorem dispatch_matches_oneByOne (B : Behaviour J H P R) (keepResults : Bool) (timeout : Nat)
    (history : List Loading) (w : World J) (encoded : Except VmError P)
    (hencode : ∀ context w, B.encode context w = (encoded, w))
    (helsewhere : ∀ w, (B.elsewhere w).js = w.js)
    (hstop : ∀ d ∈ (B.plain keepResults timeout (loadedScripts history) w).checks,
      d.shouldStop = false) :
    let d := (B.dispatch keepResults timeout (loadedScripts history) w).2
    let e := B.oneByOne keepResults timeout (inLoadOrder history) w
    d.Matches e ∧ d.result = e.result ∧ (encoded.isOk → d = e) := by
  have hlast : ((B.plain keepResults timeout (loadedScripts history) w).cut
      Delivery.shouldStop).2 = (B.plain keepResults timeout (loadedScripts history) w).last := by
    unfold Checked.cut
    rw [List.find?_eq_none.mpr fun d hd => by simp [hstop d hd]]
  have hdispatch : (B.dispatch keepResults timeout (loadedScripts history) w).2 =
      (B.plain keepResults timeout (loadedScripts history) w).last := by
    rw [dispatch_eq_cut]
    dsimp only
    rw [hlast]
    split_ifs <;> rfl
  dsimp only
  rw [hdispatch, ← loadedScripts_eq]
  cases encoded with
  | ok payload =>
    rw [last_plain hencode]
    exact ⟨.refl _, rfl, fun _ => rfl⟩
  | error error =>
    have hmatches := last_plain_failed keepResults hencode helsewhere timeout
      (loadedScripts history) w
    refine ⟨hmatches, ?_, fun h => by cases h⟩
    unfold Delivery.result
    rw [hmatches.firstError, hmatches.delivered]

/-- Scripts of which `a` stops `b` from listening. -/
def silencing : Behaviour (List Text) Unit Unit Unit where
  handlers listening id := if id ∈ listening then some [()] else none
  encode _ w := (.ok (), w)
  call _ _ w := (.ok (), { w with js := w.js.erase ['b'] })
  onReturn _ _ w := (.ok (), w)
  elsewhere w := w
  settled w := (w.control, .quiet)

def silencingHistory : List Loading :=
  [.load ⟨['a'], 0⟩, .load ⟨['b'], 0⟩, .load ⟨['c'], 1⟩, .load ⟨['a'], 0⟩]

theorem silencing_matches :
    let w : World (List Text) := ⟨.default, [['a'], ['b'], ['c']]⟩
    let d := (silencing.dispatch true u64Max (loadedScripts silencingHistory) w).2
    let e := silencing.oneByOne true u64Max (inLoadOrder silencingHistory) w
    d.Matches e ∧ d.result = e.result ∧
      ((.ok () : Except VmError Unit).isOk → d = e) := by
  have hstop : ∀ d ∈ (silencing.plain true u64Max (loadedScripts silencingHistory)
      ⟨.default, [['a'], ['b'], ['c']]⟩).checks, d.shouldStop = false := by
    decide
  exact dispatch_matches_oneByOne silencing true u64Max silencingHistory _ (.ok ())
    (fun _ _ => rfl) (fun _ => rfl) hstop

end Behaviour

end RustTS.Runner
