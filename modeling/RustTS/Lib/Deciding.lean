import RustTS.Lib.Settling

/-! Computations with fuel that decide something: they succeed where it holds and fail where it does
not, and give their state back as they found it. -/
namespace Deciding

open Settling (Settles)

variable {α ε σ : Type} {T A B : Prop} {s : σ}

/-- Whatever the computation comes to from the state `s`, it gives the state back and succeeds
exactly where `A` holds. Where `T` holds it comes to one result. -/
structure Decides (T : Prop) (s : σ) (A : Prop)
    (x : ℕ → ExceptT ε (StateT σ Option) Unit) : Prop where
  answers : ∀ n r, (x n).run s = some r → r.2 = s ∧ (r.1 = .ok () ↔ A)
  settles : T → Settles (fun _ => True) fun n => (x n).run s

variable {x y : ℕ → ExceptT ε (StateT σ Option) Unit}

theorem Decides.congr (h : Decides T s A x) (hAB : A ↔ B) : Decides T s B x where
  answers n r hr := ⟨(h.answers n r hr).1, (h.answers n r hr).2.trans hAB⟩
  settles := h.settles

theorem Decides.of_run (h : Decides T s A y) (hxy : ∀ n, (x n).run s = (y n).run s) :
    Decides T s A x where
  answers n r hr := h.answers n r ((hxy n).symm.trans hr)
  settles hT := by
    simp only [hxy]
    exact h.settles hT

theorem Decides.settled (h : Decides T s A x) (hT : T) :
    Settles (fun r : Except ε Unit × σ => r.2 = s ∧ (r.1 = .ok () ↔ A)) fun n => (x n).run s := by
  obtain ⟨N, r, -, hx⟩ := h.settles hT
  exact ⟨N, r, h.answers N r (hx N (Nat.le_refl N)), hx⟩

theorem Decides.const {r : Except ε Unit} (hr : r = .ok () ↔ A) :
    Decides T s A fun _ => (fun s => some (r, s) : ExceptT ε (StateT σ Option) Unit) where
  answers n r' hr' := by
    obtain rfl := Option.some.inj hr'
    exact ⟨rfl, hr⟩
  settles _ := Settles.const trivial

theorem Decides.pure (hA : A) :
    Decides T s A fun _ => (Pure.pure () : ExceptT ε (StateT σ Option) Unit) :=
  Decides.const (r := .ok ()) ⟨fun _ => hA, fun _ => rfl⟩

theorem Decides.throw {e : ε} (hA : ¬A) :
    Decides T s A fun _ => (throw e : ExceptT ε (StateT σ Option) Unit) :=
  Decides.const (r := .error e) ⟨nofun, fun h => absurd h hA⟩

theorem Decides.never : Decides False s A fun _ => (fun _ => none : ExceptT ε (StateT σ Option) Unit)
    where
  answers _ _ hr := nomatch hr
  settles := False.elim

theorem run_seq (x y : ExceptT ε (StateT σ Option) Unit) (s : σ) :
    (x >>= fun _ => y).run s = (x.run s).bind fun r =>
      match r.1 with
      | .ok () => y.run r.2
      | .error e => some (.error e, r.2) := by
  show ((x.run s).bind fun r => _) = _
  apply congrArg
  funext r
  obtain ⟨_ | _, s'⟩ := r <;> rfl

theorem run_orElse (x y : ExceptT ε (StateT σ Option) Unit) (s : σ) :
    (tryCatch x fun _ => y).run s = (x.run s).bind fun r =>
      match r.1 with
      | .ok () => some (.ok (), r.2)
      | .error _ => y.run r.2 := by
  show ((x.run s).bind fun r => _) = _
  apply congrArg
  funext r
  obtain ⟨_ | _, s'⟩ := r <;> rfl

/-- One after the other, as long as they succeed. -/
theorem Decides.seq (hx : Decides T s A x) (hy : A → Decides T s B y) :
    Decides T s (A ∧ B) fun n => x n >>= fun _ => y n where
  answers n r hr := by
    rw [run_seq] at hr
    obtain ⟨⟨r', s'⟩, hrun, hrest⟩ := Option.bind_eq_some_iff.mp hr
    obtain ⟨rfl, hA⟩ := hx.answers n _ hrun
    cases r' with
    | error e =>
      obtain rfl := Option.some.inj hrest
      exact ⟨rfl, nofun, fun h => nomatch hA.mpr h.1⟩
    | ok _ =>
      have hA := hA.mp rfl
      obtain ⟨hs, hB⟩ := (hy hA).answers n r hrest
      exact ⟨hs, hB.trans (and_iff_right hA).symm⟩
  settles hT := by
    simp only [run_seq]
    refine (hx.settled hT).bind fun r hr => ?_
    obtain ⟨r, s'⟩ := r
    obtain ⟨rfl, hA⟩ := hr
    cases r with
    | error e => exact Settles.const trivial
    | ok _ => exact (hy (hA.mp rfl)).settles hT

/-- The second only where the first fails. -/
theorem Decides.orElse (hx : Decides T s A x) (hy : Decides T s B y) :
    Decides T s (A ∨ B) fun n => tryCatch (x n) fun _ => y n where
  answers n r hr := by
    rw [run_orElse] at hr
    obtain ⟨⟨r', s'⟩, hrun, hrest⟩ := Option.bind_eq_some_iff.mp hr
    obtain ⟨rfl, hA⟩ := hx.answers n _ hrun
    cases r' with
    | error e =>
      have hA : ¬A := fun h => nomatch hA.mpr h
      obtain ⟨hs, hB⟩ := hy.answers n r hrest
      exact ⟨hs, hB.trans (or_iff_right hA).symm⟩
    | ok _ =>
      obtain rfl := Option.some.inj hrest
      exact ⟨rfl, fun _ => .inl (hA.mp rfl), fun _ => rfl⟩
  settles hT := by
    simp only [run_orElse]
    refine (hx.settled hT).bind fun r hr => ?_
    obtain ⟨r, s'⟩ := r
    obtain ⟨rfl, hA⟩ := hr
    cases r with
    | error e => exact hy.settles hT
    | ok _ => exact Settles.const trivial

theorem Decides.check [Decidable A] {e : ε} :
    Decides T s A fun _ =>
      (if A then Pure.pure () else MonadExcept.throw e : ExceptT ε (StateT σ Option) Unit) := by
  by_cases hA : A
  · simp only [if_pos hA]
    exact Decides.pure hA
  · simp only [if_neg hA]
    exact Decides.throw hA

theorem Decides.forM {f : α → ℕ → ExceptT ε (StateT σ Option) Unit} {P : α → Prop} {l : List α}
    (hf : ∀ a ∈ l, Decides T s (P a) (f a)) :
    Decides T s (∀ a ∈ l, P a) fun n => l.forM fun a => f a n := by
  induction l with
  | nil => exact Decides.pure nofun
  | cons a l ih =>
    have hhead := hf a (List.mem_cons_self ..)
    have htail := ih fun b hb => hf b (List.mem_cons_of_mem _ hb)
    exact (hhead.seq fun _ => htail).congr List.forall_mem_cons.symm

/-- With the state changed on the way in and changed back on the way out. -/
theorem Decides.within {s' : σ} (enter leave : σ → σ) (henter : enter s = s') (hleave : leave s' = s)
    (hx : Decides T s' A x) :
    Decides T s A fun n => (fun s => ((x n).run (enter s)).map fun r => (r.1, leave r.2) :
      ExceptT ε (StateT σ Option) Unit) where
  answers n r hr := by
    subst henter
    obtain ⟨r', hrun, rfl⟩ := Option.map_eq_some_iff.mp hr
    obtain ⟨hs, hA⟩ := hx.answers n r' hrun
    exact ⟨(congrArg leave hs).trans hleave, hA⟩
  settles hT := by
    subst henter
    obtain ⟨N, r, -, hx⟩ := hx.settles hT
    exact ⟨N, (r.1, leave r.2), trivial, fun n hn => congrArg (Option.map _) (hx n hn)⟩

theorem Decides.of_succ (hzero : (x 0).run s = none) (h : Decides T s A fun n => x (n + 1)) :
    Decides T s A x where
  answers n r hr := by
    cases n with
    | zero => exact absurd (hzero.symm.trans hr) nofun
    | succ n => exact h.answers n r hr
  settles hT := (h.settles hT).of_succ

end Deciding
