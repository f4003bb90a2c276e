import Mathlib.Data.List.Induction
import Mathlib.Logic.Relation

/-! Labelled transition relations: runs, invariants along a run, and runs every step of
which meets a side condition. Nothing here depends on what the states are. -/
namespace Transition

variable {S L : Type*}

/-- The labels of the list, performed in order, lead from the first state to the second. -/
inductive Run (step : S → L → S → Prop) : S → List L → S → Prop
  | nil (s : S) : Run step s [] s
  | cons {s t u : S} {l : L} {ls : List L} :
      step s l t → Run step t ls u → Run step s (l :: ls) u

/-- Every step from a state satisfying `I` ends in one that satisfies it. -/
def Preserves (step : S → L → S → Prop) (I : S → Prop) : Prop :=
  ∀ s l t, I s → step s l t → I t

/-- The steps of a relation whose state and label meet `ok`. -/
def Guarded (ok : S → L → Prop) (step : S → L → S → Prop) (s : S) (l : L) (t : S) : Prop :=
  ok s l ∧ step s l t

/-- The step relation of a machine that always steps, and answers. -/
def Machine {O : Type*} (next : L → S → S × O) (s : S) (l : L × O) (t : S) : Prop :=
  next l.1 s = (t, l.2)

namespace Run

variable {step : S → L → S → Prop} {s t u : S} {ls ms : List L} {l : L}

theorem single (h : step s l t) : Run step s [l] t := .cons h (.nil t)

theorem append (h : Run step s ls t) (h' : Run step t ms u) : Run step s (ls ++ ms) u := by
  induction h with
  | nil => exact h'
  | cons hst _ ih => exact .cons hst (ih h')

theorem snoc (h : Run step s ls t) (h' : step t l u) : Run step s (ls ++ [l]) u :=
  h.append (single h')

theorem split (h : Run step s (ls ++ ms) u) : ∃ t, Run step s ls t ∧ Run step t ms u := by
  induction ls generalizing s with
  | nil => exact ⟨s, .nil s, h⟩
  | cons l ls ih =>
    cases h with
    | cons hst hrest =>
      obtain ⟨t, h₁, h₂⟩ := ih hrest
      exact ⟨t, .cons hst h₁, h₂⟩

theorem invariant {I : S → Prop} (h : Run step s ls t) (hI : Preserves step I) (h₀ : I s) :
    I t := by
  induction h with
  | nil => exact h₀
  | cons hst _ ih => exact ih (hI _ _ _ h₀ hst)

theorem history {P : List L → S → Prop} (h : Run step s ls t) (h₀ : P [] s)
    (hstep : ∀ ms u l v, P ms u → step u l v → P (ms ++ [l]) v) : P ls t := by
  suffices ∀ ps, P ps s → P (ps ++ ls) t by simpa using this [] h₀
  clear h₀
  induction h with
  | nil => simp
  | cons hst _ ih =>
    intro ps hp
    simpa using ih (ps ++ [_]) (hstep _ _ _ _ hp hst)

theorem mono {step' : S → L → S → Prop} (h : Run step s ls t)
    (hs : ∀ s l t, step s l t → step' s l t) : Run step' s ls t := by
  induction h with
  | nil => exact .nil _
  | cons hst _ ih => exact .cons (hs _ _ _ hst) ih

/-- If a step from a state with `J` and `I` keeps `I` exactly when it meets `ok`, then `I`
holds in every state of a run exactly when every step of the run meets `ok`. -/
theorem always_iff {I J : S → Prop} {ok : S → L → Prop} (ls : List L) (t : S)
    (hJ : Preserves step J) (hJs : J s) (hIs : I s)
    (hstep : ∀ s l t, J s → I s → step s l t → (I t ↔ ok s l)) :
    (∀ ms ns u, ls = ms ++ ns → Run step s ms u → Run step u ns t → I u) ↔
      ∀ ms l ns u v, ls = ms ++ l :: ns → Run step s ms u → step u l v → Run step v ns t →
        ok u l := by
  constructor
  · intro hI ms l ns u v hls hms huv hns
    have hu : I u := hI ms (l :: ns) u hls hms (.cons huv hns)
    have hv : I v := hI (ms ++ [l]) ns v (by simp [hls]) (hms.snoc huv) hns
    exact (hstep u l v (hms.invariant hJ hJs) hu huv).mp hv
  · intro hok ms
    induction ms using List.reverseRecOn with
    | nil =>
      intro ns u _ hms _
      cases hms
      exact hIs
    | append_singleton ms l ih =>
      intro ns u hls hms hns
      obtain ⟨v, hmv, hvu⟩ := hms.split
      have hvu : step v l u := by
        cases hvu with
        | cons hst hnil => cases hnil with | nil => exact hst
      have hls' : ls = ms ++ l :: ns := by simp [hls]
      have hv : I v := ih (l :: ns) v hls' hmv (.cons hvu hns)
      exact (hstep v l u (hmv.invariant hJ hJs) hv hvu).mpr (hok ms l ns v u hls' hmv hvu hns)

/-- Where related states stay related, each step of one relation by a run of the other, every run is
followed by one of the other. -/
theorem simulated {S' L' : Type*} {step' : S' → L' → S' → Prop} {R : S → S' → Prop} {s' : S'}
    (h : Run step s ls t) (hR : R s s')
    (hstep : ∀ s l t s', R s s' → step s l t → ∃ ms t', Run step' s' ms t' ∧ R t t') :
    ∃ ms t', Run step' s' ms t' ∧ R t t' := by
  induction h generalizing s' with
  | nil s => exact ⟨[], s', .nil s', hR⟩
  | cons hst _ ih =>
    obtain ⟨ms, u', hfirst, hu⟩ := hstep _ _ _ s' hR hst
    obtain ⟨ns, t', hrest, ht⟩ := ih hu
    exact ⟨ms ++ ns, t', hfirst.append hrest, ht⟩

end Run

end Transition
