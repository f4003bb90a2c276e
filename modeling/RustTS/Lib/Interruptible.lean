import Mathlib.Tactic.SplitIfs

/-! Computations on a state that may be cut at named points, where the state stays as it is then,
and their preconditions. Nothing here depends on what the states and the points are. -/

/-- What a computation makes of the point where it is cut, if it is at one, and a state: the new
state, and a result unless it was cut. It is cut the first time it gets to the point. -/
structure Interruptible (P S A : Type) where
  run : Option P → S → Option A × S
  uncut : ∀ s, (run none s).1 ≠ none

namespace Interruptible

variable {P S A B : Type}

instance : Monad (Interruptible P S) where
  pure a := ⟨fun _ s => (some a, s), fun _ => nofun⟩
  bind c f :=
    { run := fun p s =>
        match c.run p s with
        | (some a, s) => (f a).run p s
        | (none, s) => (none, s)
      uncut := fun s => by
        have hc := c.uncut s
        generalize c.run none s = r at hc
        obtain ⟨a, t⟩ := r
        cases a with
        | none => exact absurd rfl hc
        | some a => exact (f a).uncut t }

/-- A point where the computation may be cut. -/
def check [DecidableEq P] (point : P) : Interruptible P S Unit :=
  ⟨fun p s => if p = some point then (none, s) else (some (), s), fun _ => nofun⟩

def get : Interruptible P S S := ⟨fun _ s => (some s, s), fun _ => nofun⟩

def modify (f : S → S) : Interruptible P S Unit := ⟨fun _ s => (some (), f s), fun _ => nofun⟩

/-- From `s` the computation ends in a result and a state as `Q` says, or is cut in one as `C`
says. -/
def wp (c : Interruptible P S A) (p : Option P) (Q : A → S → Prop) (C : S → Prop) (s : S) : Prop :=
  match c.run p s with
  | (some a, s) => Q a s
  | (none, s) => C s

variable {p : Option P} {Q : A → S → Prop} {C : S → Prop} {s : S}

@[simp] theorem wp_pure {a : A} : wp (pure a) p Q C s ↔ Q a s := Iff.rfl

@[simp] theorem wp_bind {c : Interruptible P S B} {f : B → Interruptible P S A} :
    wp (c >>= f) p Q C s ↔ wp c p (fun b s => wp (f b) p Q C s) C s := by
  unfold wp
  show (match (match c.run p s with | (some b, s) => (f b).run p s | (none, s) => (none, s)) with
    | (some a, s) => Q a s
    | (none, s) => C s) ↔ _
  generalize c.run p s = r
  obtain ⟨b, t⟩ := r
  cases b <;> rfl

@[simp] theorem wp_check [DecidableEq P] {point : P} {Q : Unit → S → Prop} :
    wp (check point) p Q C s ↔ if p = some point then C s else Q () s := by
  unfold wp check
  dsimp only
  split_ifs <;> rfl

@[simp] theorem wp_get {Q : S → S → Prop} : wp get p Q C s ↔ Q s s := Iff.rfl

@[simp] theorem wp_modify {f : S → S} {Q : Unit → S → Prop} :
    wp (modify f) p Q C s ↔ Q () (f s) := Iff.rfl

@[simp] theorem wp_ite {c : Prop} [Decidable c] {x y : Interruptible P S A} :
    wp (if c then x else y) p Q C s ↔ if c then wp x p Q C s else wp y p Q C s := by
  split_ifs <;> rfl

theorem wp_mono {c : Interruptible P S A} {Q' : A → S → Prop} {C' : S → Prop}
    (h : wp c p Q C s) (hQ : ∀ a t, Q a t → Q' a t) (hC : ∀ t, C t → C' t) : wp c p Q' C' s := by
  unfold wp at h ⊢
  generalize c.run p s = r at h
  obtain ⟨a, t⟩ := r
  cases a with
  | none => exact hC t h
  | some a => exact hQ a t h

end Interruptible
