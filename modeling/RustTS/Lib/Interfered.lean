import Mathlib.Logic.Relation

/-! The calls of one thread on a state that other threads change too: a call is a program of
accesses, before and after any of which the others may step. Nothing here depends on what the
state is. -/

/-- A call on a state `S` with a result of `A`. An access happens at once; what it reads decides
how the call goes on. -/
inductive Accesses (S A : Type) : Type 1
  | done (result : A)
  | access {R : Type} (act : S → R × S) (next : R → Accesses S A)

namespace Accesses

variable {S A B : Type}

protected def bind : Accesses S A → (A → Accesses S B) → Accesses S B
  | done result, f => f result
  | access act next, f => access act fun value => (next value).bind f

instance : Monad (Accesses S) where
  pure := done
  bind := Accesses.bind

/-- One access. -/
def once (act : S → A × S) : Accesses S A := access act done

/-- The call when nothing else steps. -/
def alone : Accesses S A → S → A × S
  | done result, s => (result, s)
  | access act next, s => (next (act s).1).alone (act s).2

@[simp] theorem alone_pure (result : A) (s : S) :
    (pure result : Accesses S A).alone s = (result, s) := rfl

@[simp] theorem alone_once (act : S → A × S) (s : S) : (once act).alone s = act s := rfl

@[simp] theorem alone_bind (c : Accesses S A) (f : A → Accesses S B) (s : S) :
    (c >>= f).alone s = (f (c.alone s).1).alone (c.alone s).2 := by
  induction c generalizing s with
  | done result => rfl
  | access act next ih => exact ih _ _

/-- Started in `s` with the others stepping as `others` says, the call ends in a result and a state
as `Q` says, and so does every state the others lead to from there. -/
def wp (others : S → S → Prop) (Q : A → S → Prop) : Accesses S A → S → Prop
  | done result, s => ∀ t, Relation.ReflTransGen others s t → Q result t
  | access act next, s =>
    ∀ t, Relation.ReflTransGen others s t → (next (act t).1).wp others Q (act t).2

variable {others : S → S → Prop} {Q : A → S → Prop} {s t : S}

theorem wp_others {c : Accesses S A} (h : c.wp others Q s) (hst : Relation.ReflTransGen others s t) :
    c.wp others Q t := by
  cases c with
  | done result => exact fun u htu => h u (hst.trans htu)
  | access act next => exact fun u htu => h u (hst.trans htu)

theorem wp_once_bind {act : S → B × S} {f : B → Accesses S A} :
    (once act >>= f).wp others Q s ↔
      ∀ t, Relation.ReflTransGen others s t → (f (act t).1).wp others Q (act t).2 := Iff.rfl

theorem wp_bind {c : Accesses S B} {f : B → Accesses S A} :
    (c >>= f).wp others Q s ↔ c.wp others (fun b t => (f b).wp others Q t) s := by
  induction c generalizing s with
  | done result =>
    constructor
    · exact fun h t hst => wp_others h hst
    · exact fun h => h s .refl
  | access act next ih =>
    constructor
    · exact fun h t hst => (ih _).mp (h t hst)
    · exact fun h t hst => (ih _).mpr (h t hst)

theorem wp_mono {c : Accesses S A} {Q' : A → S → Prop} (h : c.wp others Q s)
    (hQ : ∀ result t, Q result t → Q' result t) : c.wp others Q' s := by
  induction c generalizing s with
  | done result => exact fun t hst => hQ _ _ (h t hst)
  | access act next ih => exact fun t hst => ih _ (h t hst)

theorem wp_access {R : Type} {act : S → R × S} {next : R → Accesses S A}
    (h : (access act next).wp others Q s) : (next (act s).1).wp others Q (act s).2 :=
  h s .refl

theorem wp_done {result : A} (h : (done result : Accesses S A).wp others Q s) : Q result s :=
  h s .refl

end Accesses
