import RustTS.Contract.HostResolver
import RustTS.Lib.IndexMap
import RustTS.Lib.Transition
import RustTS.Runner.ModuleLoader.Graph

/-! `Engine::pump` and the flag that tells it an answer waits. Resolvers queue an answer and
raise the flag in two steps, from any thread; the engine's thread lowers the flag, then looks
at the loaded scripts one by one. -/
namespace RustTS.Runner
open Contract ModuleLoader

abbrev ScopeId := Nat

/-- Where the engine's thread is: outside both, in a load whose new version has scope
`scope`, before the next script of the scan, in the poll of a script, or after the scan. -/
inductive PumpPhase
  | idle
  | loading (scope : ScopeId)
  | scanning (rest : List ScopeId) (failed : Bool)
  | polling (scope : ScopeId) (rest : List ScopeId) (failed : Bool)
  | ending (again : Bool)
  deriving DecidableEq, Repr

namespace PumpPhase

/-- The running pump looks at the scope again, or raises the flag for the next one. -/
def Covers (scope : ScopeId) : PumpPhase → Prop
  | .idle | .loading _ => False
  | .scanning rest failed => failed = true ∨ scope ∈ rest
  | .polling current rest failed => failed = true ∨ scope = current ∨ scope ∈ rest
  | .ending again => again = true

end PumpPhase

/-- `host_wake`, the scopes of the loaded scripts in load order, every scope's inbox, and the
number of pushes that queued an answer and have not raised the flag yet. -/
structure PumpState (Reply : Type) where
  wake : Bool
  scripts : IndexMap Text ScopeId
  inboxes : ScopeId → ReplyInbox Reply
  nextScope : ScopeId
  raising : Nat
  phase : PumpPhase

inductive PumpStep (Reply : Type)
  | enqueue (scope : ScopeId) (id : CallId) (settlement : Settlement Reply)
  | raise
  | pump
  | scan (interrupted : Bool)
  | poll (settled : Bool)
  | finish
  | mount
  | mounted (id : Text)
  | abandoned
  | unload (id : Text)
  | retire (scope : ScopeId)

variable {Reply : Type}

namespace PumpState

protected def default : PumpState Reply := ⟨false, .empty, fun _ => .default, 0, 0, .idle⟩

def setInbox (scope : ScopeId) (inbox : ReplyInbox Reply) (s : PumpState Reply) :
    PumpState Reply :=
  { s with inboxes := Function.update s.inboxes scope inbox }

/-- A resolver exists for a scope that was made; loads, unloads and pumps follow one
another on the engine's thread; a retired version is no longer among the scripts. -/
def Enabled (s : PumpState Reply) : PumpStep Reply → Prop
  | .enqueue scope _ _ => scope < s.nextScope
  | .raise => 0 < s.raising
  | .pump | .mount | .unload _ => s.phase = .idle
  | .scan _ => ∃ rest failed, s.phase = .scanning rest failed
  | .poll _ => ∃ scope rest failed, s.phase = .polling scope rest failed
  | .finish => ∃ again, s.phase = .ending again
  | .mounted _ | .abandoned => ∃ scope, s.phase = .loading scope
  | .retire scope => scope ∉ s.scripts.values ∧ s.phase ≠ .loading scope

/-- The part of `ReplyInbox::push` under the lock. -/
def enqueue (scope : ScopeId) (id : CallId) (settlement : Settlement Reply)
    (s : PumpState Reply) : PumpState Reply :=
  match (s.inboxes scope).push id settlement with
  | none => s
  | some inbox => { s.setInbox scope inbox with raising := s.raising + 1 }

/-- The rest of `ReplyInbox::push`. -/
def raise (s : PumpState Reply) : PumpState Reply :=
  { s with wake := true, raising := s.raising - 1 }

/-- The swap `Engine::pump` begins with. -/
def pump (s : PumpState Reply) : PumpState Reply :=
  if s.wake then { s with wake := false, phase := .scanning s.scripts.values false } else s

/-- One turn of the loop over the scripts, up to its poll. -/
def scan (interrupted : Bool) (s : PumpState Reply) : PumpState Reply :=
  match s.phase with
  | .scanning [] failed => { s with phase := .ending failed }
  | .scanning (scope :: rest) failed =>
    if interrupted then { s with phase := .ending true }
    else if (s.inboxes scope).hasReady then { s with phase := .polling scope rest failed }
    else { s with phase := .scanning rest failed }
  | _ => s

/-- One round of `HostPromises::poll`, which a Promise that does not settle ends. -/
def poll (settled : Bool) (s : PumpState Reply) : PumpState Reply :=
  match s.phase with
  | .polling scope rest failed =>
    match (s.inboxes scope).pop with
    | (none, _) => { s with phase := .scanning rest failed }
    | (some _, inbox) =>
      { s.setInbox scope inbox with
        phase := if settled then .polling scope rest failed else .scanning rest true }
  | _ => s

/-- Raises the flag again when the scan stopped or a poll failed. -/
def finish (s : PumpState Reply) : PumpState Reply :=
  match s.phase with
  | .ending again => { s with wake := again || s.wake, phase := .idle }
  | _ => s

/-- A load makes the new version's scope. -/
def mount (s : PumpState Reply) : PumpState Reply :=
  { s with nextScope := s.nextScope + 1, phase := .loading s.nextScope }

def mounted (id : Text) (s : PumpState Reply) : PumpState Reply :=
  match s.phase with
  | .loading scope => { s with scripts := s.scripts.insert id scope, phase := .idle }
  | _ => s

/-- A load that failed drops the new version's scope. -/
def abandoned (s : PumpState Reply) : PumpState Reply :=
  match s.phase with
  | .loading scope => { s.setInbox scope (s.inboxes scope).cancel with phase := .idle }
  | _ => s

def next (step : PumpStep Reply) (s : PumpState Reply) : PumpState Reply :=
  match step with
  | .enqueue scope id settlement => s.enqueue scope id settlement
  | .raise => s.raise
  | .pump => s.pump
  | .scan interrupted => s.scan interrupted
  | .poll settled => s.poll settled
  | .finish => s.finish
  | .mount => s.mount
  | .mounted id => s.mounted id
  | .abandoned => s.abandoned
  | .unload id => { s with scripts := s.scripts.erase id }
  | .retire scope => s.setInbox scope (s.inboxes scope).cancel

/-- The steps that can happen. -/
def Step : PumpState Reply → PumpStep Reply → PumpState Reply → Prop :=
  Transition.Guarded Enabled fun s step t => s.next step = t

/-- A scope of a loaded script, or of the version being loaded. -/
def Live (s : PumpState Reply) (scope : ScopeId) : Prop :=
  scope ∈ s.scripts.values ∨ s.phase = .loading scope

/-- Something makes an engine look at the scope: the flag, a push about to raise it, or the
pump that runs. -/
def Noticed (s : PumpState Reply) (scope : ScopeId) : Prop :=
  s.wake = true ∨ 0 < s.raising ∨ s.phase.Covers scope

structure Inv (s : PumpState Reply) : Prop where
  noticed : ∀ {scope}, s.Live scope → (s.inboxes scope).ready ≠ [] → s.Noticed scope
  fresh : ∀ {scope}, s.nextScope ≤ scope → (s.inboxes scope).ready = []
  made : ∀ {scope}, s.Live scope → scope < s.nextScope

variable {s t : PumpState Reply}

theorem inv_default : (PumpState.default : PumpState Reply).Inv where
  noticed _ hr := absurd rfl hr
  fresh _ := rfl
  made h := by
    obtain h | h := h
    · cases h
    · cases h

theorem Inv.enqueue (h : s.Inv) {scope : ScopeId} (hlt : scope < s.nextScope) (id : CallId)
    (settlement : Settlement Reply) : (s.enqueue scope id settlement).Inv := by
  unfold PumpState.enqueue
  cases hp : (s.inboxes scope).push id settlement with
  | none => exact h
  | some inbox =>
    refine ⟨fun _ _ => .inr (.inl (Nat.succ_pos _)), fun {k} hk => ?_, h.made⟩
    have hne : k ≠ scope := fun heq => absurd (heq ▸ hlt) (Nat.not_lt.mpr hk)
    simpa [setInbox, hne] using h.fresh hk

theorem Inv.pump (h : s.Inv) : s.pump.Inv := by
  unfold PumpState.pump
  split
  · refine ⟨fun {scope} hl _ => .inr (.inr (.inr ?_)), h.fresh, fun {scope} hl => ?_⟩
    · exact hl.resolve_right fun h => by cases h
    · exact h.made (.inl (hl.resolve_right fun h => by cases h))
  · exact h

/-- A step of the running pump: answers are only taken, and what it will look at or report
stays so unless its inbox is empty. -/
theorem Inv.advance (h : s.Inv) {phase : PumpPhase} {inboxes : ScopeId → ReplyInbox Reply}
    (hphase : ∀ scope, phase ≠ .loading scope)
    (hready : ∀ scope, (inboxes scope).ready ≠ [] → (s.inboxes scope).ready ≠ [])
    (hcovers : ∀ scope, (inboxes scope).ready ≠ [] → s.phase.Covers scope → phase.Covers scope) :
    ({ s with inboxes := inboxes, phase := phase } : PumpState Reply).Inv := by
  have hlive {scope : ScopeId}
      (hl : ({ s with inboxes := inboxes, phase := phase } : PumpState Reply).Live scope) :
      s.Live scope := .inl (hl.resolve_right (hphase scope))
  refine ⟨fun {scope} hl hr => ?_, fun {scope} hk => ?_, fun hl => h.made (hlive hl)⟩
  · exact (h.noticed (hlive hl) (hready scope hr)).imp_right (.imp_right (hcovers scope hr))
  · by_contra hr
    exact hready scope hr (h.fresh hk)

theorem Inv.scan (h : s.Inv) (interrupted : Bool) : (s.scan interrupted).Inv := by
  unfold PumpState.scan
  cases hp : s.phase with
  | scanning rest failed =>
    cases rest with
    | nil =>
      refine h.advance (by simp) (fun _ hr => hr) fun scope _ hc => ?_
      simpa [hp, PumpPhase.Covers] using hc
    | cons current rest =>
      dsimp only
      split_ifs with hi hready
      · exact h.advance (by simp) (fun _ hr => hr) fun _ _ _ => rfl
      · refine h.advance (by simp) (fun _ hr => hr) fun scope _ hc => ?_
        simpa [hp, PumpPhase.Covers] using hc
      · refine h.advance (by simp) (fun _ hr => hr) fun scope hr hc => ?_
        have hne : scope ≠ current := by
          rintro rfl
          exact hready (ReplyInbox.hasReady_iff.mpr hr)
        simpa [hp, PumpPhase.Covers, hne] using hc
  | _ => exact h

theorem Inv.poll (h : s.Inv) (settled : Bool) : (s.poll settled).Inv := by
  unfold PumpState.poll ReplyInbox.pop
  cases hp : s.phase with
  | polling current rest failed =>
    dsimp only
    cases hq : (s.inboxes current).ready with
    | nil =>
      refine h.advance (by simp) (fun _ hr => hr) fun scope hr hc => ?_
      have hne : scope ≠ current := by
        rintro rfl
        exact hr hq
      simpa [hp, PumpPhase.Covers, hne] using hc
    | cons e queue =>
      dsimp only [List.head?_cons, List.tail_cons]
      have hready : ∀ scope, (Function.update s.inboxes current
          { s.inboxes current with ready := queue } scope).ready ≠ [] →
          (s.inboxes scope).ready ≠ [] := by
        intro scope hr
        by_cases hs : scope = current
        · simp [hs, hq]
        · simpa [hs] using hr
      cases settled with
      | true =>
        refine h.advance (by simp) hready fun scope _ hc => ?_
        rw [hp] at hc
        exact hc
      | false => exact h.advance (by simp) hready fun _ _ _ => .inl rfl
  | _ => exact h

theorem Inv.finish (h : s.Inv) : s.finish.Inv := by
  unfold PumpState.finish
  cases hp : s.phase with
  | ending again =>
    have hlive {scope : ScopeId}
        (hl : ({ s with wake := again || s.wake, phase := .idle } : PumpState Reply).Live scope) :
        s.Live scope := .inl (hl.resolve_right (by simp))
    refine ⟨fun {scope} hl hr => ?_, h.fresh, fun hl => h.made (hlive hl)⟩
    obtain hw | hraise | hc := h.noticed (hlive hl) hr
    · exact .inl (by simp [hw])
    · exact .inr (.inl hraise)
    · rw [hp] at hc
      exact .inl (by simp [show again = true from hc])
  | _ => exact h

/-- A scope made by a load has no answer yet. -/
theorem Inv.mount (h : s.Inv) (hp : s.phase = .idle) : s.mount.Inv := by
  have hlive {scope : ScopeId} (hl : s.mount.Live scope) :
      s.Live scope ∨ scope = s.nextScope := by
    obtain hl | hl := hl
    · exact .inl (.inl hl)
    · exact .inr (PumpPhase.loading.inj hl).symm
  refine ⟨fun {scope} hl hr => ?_, fun hk => h.fresh (Nat.le_of_succ_le hk), fun {scope} hl => ?_⟩
  · obtain hl | rfl := hlive hl
    · have hn := h.noticed hl hr
      rw [Noticed, hp] at hn
      exact hn
    · exact absurd (h.fresh (Nat.le_refl _)) hr
  · obtain hl | rfl := hlive hl
    · exact Nat.lt_succ_of_lt (h.made hl)
    · exact Nat.lt_succ_self _

theorem Inv.settleDown (h : s.Inv) (hcovers : ∀ scope, ¬ s.phase.Covers scope)
    {scripts : IndexMap Text ScopeId} {inboxes : ScopeId → ReplyInbox Reply}
    (hlive : ∀ scope ∈ scripts.values, s.Live scope)
    (hready : ∀ scope, (inboxes scope).ready ≠ [] → (s.inboxes scope).ready ≠ []) :
    ({ s with scripts := scripts, inboxes := inboxes, phase := .idle } : PumpState Reply).Inv := by
  have hl {scope : ScopeId} (hl : ({ s with
      scripts := scripts, inboxes := inboxes, phase := .idle } : PumpState Reply).Live scope) :
      s.Live scope := hlive scope (hl.resolve_right (by simp))
  refine ⟨fun {scope} hsc hr => ?_, fun {scope} hk => ?_, fun hsc => h.made (hl hsc)⟩
  · obtain hw | hraise | hc := h.noticed (hl hsc) (hready scope hr)
    · exact .inl hw
    · exact .inr (.inl hraise)
    · exact absurd hc (hcovers scope)
  · by_contra hr
    exact hready scope hr (h.fresh hk)

theorem cancel_ready {scope k : ScopeId}
    (hr : (Function.update s.inboxes scope (s.inboxes scope).cancel k).ready ≠ []) :
    (s.inboxes k).ready ≠ [] := by
  by_cases hk : k = scope
  · subst hk
    exact absurd (by simp [ReplyInbox.cancel]) hr
  · simpa [hk] using hr

theorem Inv.mounted (h : s.Inv) (id : Text) : (s.mounted id).Inv := by
  unfold PumpState.mounted
  cases hp : s.phase with
  | loading scope =>
    refine h.settleDown (by simp [hp, PumpPhase.Covers]) (fun k hk => ?_) fun _ hr => hr
    obtain ⟨j, hj⟩ := IndexMap.mem_values.mp hk
    obtain ⟨-, rfl⟩ | ⟨-, hmem⟩ := IndexMap.mem_insert.mp hj
    · exact .inr hp
    · exact .inl (IndexMap.mem_values.mpr ⟨j, hmem⟩)
  | _ => exact h

theorem Inv.abandoned (h : s.Inv) : s.abandoned.Inv := by
  unfold PumpState.abandoned
  cases hp : s.phase with
  | loading scope =>
    exact h.settleDown (by simp [hp, PumpPhase.Covers]) (fun _ hk => .inl hk)
      fun _ hr => cancel_ready hr
  | _ => exact h

theorem inv_preserved : Transition.Preserves Step fun s : PumpState Reply => s.Inv := by
  rintro s step t h ⟨hen, rfl⟩
  cases step with
  | enqueue scope id settlement => exact h.enqueue hen id settlement
  | raise => exact ⟨fun _ _ => .inl rfl, h.fresh, h.made⟩
  | pump => exact h.pump
  | scan interrupted => exact h.scan interrupted
  | poll settled => exact h.poll settled
  | finish => exact h.finish
  | mount => exact h.mount hen
  | mounted id => exact h.mounted id
  | abandoned => exact h.abandoned
  | unload id =>
    have hlive : ∀ scope ∈ (s.scripts.erase id).values, s.Live scope := by
      intro scope hk
      obtain ⟨j, hj⟩ := IndexMap.mem_values.mp hk
      exact .inl (IndexMap.mem_values.mpr ⟨j, (IndexMap.mem_erase.mp hj).2⟩)
    have hd := h.settleDown (by simp [show s.phase = .idle from hen, PumpPhase.Covers]) hlive
      fun _ hr => hr
    rwa [← show s.phase = .idle from hen] at hd
  | retire scope =>
    refine ⟨fun hl hr => h.noticed hl (cancel_ready hr), fun {k} hk => ?_, h.made⟩
    by_contra hr
    exact cancel_ready hr (h.fresh hk)

end PumpState

end RustTS.Runner
