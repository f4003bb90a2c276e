import Mathlib.Init

/-! Monads with errors in which a computation gives a value exactly where its parts do. -/

class LawfulOutcome (ε : Type) (m : Type → Type) [Monad m] [MonadExcept ε m] : Prop
    extends LawfulMonad m where
  pure_inj {α : Type} {a b : α} : (pure a : m α) = pure b → a = b
  bind_eq_pure {α β : Type} {x : m α} {f : α → m β} {b : β} :
    x >>= f = pure b ↔ ∃ a, x = pure a ∧ f a = pure b
  throw_ne_pure {α : Type} {e : ε} {a : α} : (throw e : m α) ≠ pure a
  tryCatch_eq_pure {α : Type} {x : m α} {handle : ε → m α} {a : α} :
    tryCatch x handle = pure a ↔ x = pure a ∨ ∃ e, x = throw e ∧ handle e = pure a

namespace LawfulOutcome

variable {ε : Type} {m : Type → Type} [Monad m] [MonadExcept ε m] [LawfulOutcome ε m]
  {α β : Type}

include ε in
theorem pure_eq_pure {a b : α} : (pure a : m α) = pure b ↔ a = b := by
  constructor
  · exact pure_inj ε
  · exact congrArg pure

include ε in

theorem rethrow_eq_pure {f : ε → ε} {x : m α} {a : α} :
    tryCatch x (fun e => throw (f e)) = pure a ↔ x = pure a := by
  rw [tryCatch_eq_pure]
  constructor
  · rintro (h | ⟨e, -, h⟩)
    · exact h
    · exact absurd h throw_ne_pure
  · exact Or.inl

theorem ofExcept_eq_pure {r : Except ε α} {a : α} :
    (MonadExcept.ofExcept r : m α) = pure a ↔ r = .ok a := by
  cases r with
  | error e =>
    constructor
    · intro h
      exact absurd h throw_ne_pure
    · intro h
      cases h
  | ok b =>
    have hpure : (pure b : m α) = pure a ↔ b = a := pure_eq_pure (ε := ε)
    rw [Except.ok.injEq]
    exact hpure

end LawfulOutcome

instance {ε : Type} : LawfulOutcome ε (Except ε) where
  pure_inj h := Except.ok.inj h
  bind_eq_pure {_ _ x f b} := by
    constructor
    · intro h
      cases x with
      | error e => cases h
      | ok a => exact ⟨a, rfl, h⟩
    · rintro ⟨a, hx, hf⟩
      rw [hx]
      exact hf
  throw_ne_pure h := by cases h
  tryCatch_eq_pure {_ x handle a} := by
    cases x with
    | error e =>
      constructor
      · exact fun h => .inr ⟨e, rfl, h⟩
      · rintro (h | ⟨_, he, h⟩)
        · cases h
        · cases he
          exact h
    | ok b =>
      constructor
      · exact Or.inl
      · rintro (h | ⟨_, he, -⟩)
        · exact h
        · cases he

/-- Computations that may not end. -/
instance {ε : Type} : LawfulOutcome ε (ExceptT ε Option) where
  pure_inj h := Except.ok.inj (Option.some.inj h)
  bind_eq_pure {_ _ x f b} := by
    constructor
    · intro h
      rcases x with _ | e | a
      · cases h
      · cases h
      · exact ⟨a, rfl, h⟩
    · rintro ⟨a, hx, hf⟩
      rw [hx]
      exact hf
  throw_ne_pure h := by cases h
  tryCatch_eq_pure {_ x handle a} := by
    rcases x with _ | e | b
    · constructor
      · intro h
        cases h
      · rintro (h | ⟨_, he, -⟩)
        · cases h
        · cases he
    · constructor
      · exact fun h => .inr ⟨e, rfl, h⟩
      · rintro (h | ⟨_, he, h⟩)
        · cases h
        · cases he
          exact h
    · constructor
      · exact Or.inl
      · rintro (h | ⟨_, he, -⟩)
        · exact h
        · cases he
