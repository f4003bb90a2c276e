import Mathlib.Data.List.Basic

/-! Computations with fuel that settle: from some fuel on they have one result, of which something
holds. They may fail, and may have a state that they give back as they found it. -/
namespace Settling

variable {α β ε σ : Type}

/-- With enough fuel there is a result, the same one, and it has the property. -/
def Settles (Q : α → Prop) (x : ℕ → Option α) : Prop := ∃ N r, Q r ∧ ∀ n ≥ N, x n = some r

/-- A result has the property, and there is a failure only where `E` allows one. -/
def Holds (E : Prop) (Q : α → Prop) : Except ε α → Prop
  | .ok a => Q a
  | .error _ => E

/-- The computation has a result with the property, or fails as `E` allows. -/
def Settled (E : Prop) (Q : α → Prop) (x : ℕ → ExceptT ε Option α) : Prop :=
  Settles (Holds E Q) fun n => (x n).run

/-- It does so from the state `s`, and gives the state back. -/
def Restores (s : σ) (E : Prop) (Q : α → Prop) (x : ℕ → ExceptT ε (StateT σ Option) α) : Prop :=
  Settles (fun r : Except ε α × σ => r.2 = s ∧ Holds E Q r.1) fun n => (x n).run s

variable {E : Prop} {Q : α → Prop} {Q' : β → Prop}

theorem Holds.imp {P : α → Prop} {r : Except ε α} (h : Holds E Q r) (hP : ∀ a, Q a → P a) :
    Holds E P r := by
  cases r with
  | ok a => exact hP a h
  | error _ => exact h

theorem Settles.const {r : α} (hr : Q r) : Settles Q fun _ => some r := ⟨0, r, hr, fun _ _ => rfl⟩

theorem Settles.imp {P : α → Prop} {x : ℕ → Option α} (h : Settles Q x) (hP : ∀ r, Q r → P r) :
    Settles P x := by
  obtain ⟨N, r, hr, hx⟩ := h
  exact ⟨N, r, hP r hr, hx⟩

theorem Settles.bind {x : ℕ → Option α} {y : α → ℕ → Option β} (hx : Settles Q x)
    (hy : ∀ r, Q r → Settles Q' (y r)) : Settles Q' fun n => (x n).bind fun r => y r n := by
  obtain ⟨N, r, hr, hx⟩ := hx
  obtain ⟨M, r', hr', hy⟩ := hy r hr
  refine ⟨max N M, r', hr', fun n hn => ?_⟩
  obtain ⟨hN, hM⟩ := Nat.max_le.mp hn
  show (x n).bind _ = some r'
  rw [hx n hN]
  exact hy n hM

theorem Settles.of_succ {x : ℕ → Option α} (h : Settles Q fun n => x (n + 1)) : Settles Q x := by
  obtain ⟨N, r, hr, hx⟩ := h
  refine ⟨N + 1, r, hr, fun n hn => ?_⟩
  obtain ⟨m, rfl⟩ := Nat.exists_eq_add_of_le' (Nat.one_le_of_lt hn)
  exact hx m (by omega)

theorem Settles.unique {x : ℕ → Option α} {r : α} (h : Settles Q x) {N : ℕ}
    (hx : ∀ n ≥ N, x n = some r) : Q r := by
  obtain ⟨M, r', hr', hx'⟩ := h
  have hsame := (hx (max N M) (Nat.le_max_left ..)).symm.trans
    (hx' (max N M) (Nat.le_max_right ..))
  rw [Option.some.inj hsame]
  exact hr'

theorem Settled.pure {a : α} (ha : Q a) : Settled E Q fun _ => (pure a : ExceptT ε Option α) :=
  Settles.const (Q := Holds E Q) (r := .ok a) ha

theorem Settled.imp {P : α → Prop} {x : ℕ → ExceptT ε Option α} (h : Settled E Q x)
    (hP : ∀ a, Q a → P a) : Settled E P x :=
  Settles.imp h fun _ hr => hr.imp hP

theorem Settled.ofExcept {e : Except ε α} (he : Holds E Q e) :
    Settled E Q fun _ => (MonadExcept.ofExcept e : ExceptT ε Option α) := by
  cases e with
  | error error => exact Settles.const (Q := Holds E Q) (r := .error error) he
  | ok a => exact Settled.pure he

theorem Settled.bind {x : ℕ → ExceptT ε Option α} {y : α → ℕ → ExceptT ε Option β}
    (hx : Settled E Q x) (hy : ∀ a, Q a → Settled E Q' (y a)) :
    Settled E Q' fun n => x n >>= fun a => y a n := by
  refine Settles.bind hx fun r hr => ?_
  cases r with
  | error error => exact Settles.const (Q := Holds E Q') (r := .error error) hr
  | ok a => exact hy a hr

theorem Settled.map {f : α → β} {x : ℕ → ExceptT ε Option α} (hx : Settled E Q x)
    (hf : ∀ a, Q a → Q' (f a)) : Settled E Q' fun n => f <$> x n := by
  simp only [map_eq_pure_bind]
  exact hx.bind fun a ha => .pure (hf a ha)

theorem Settled.mapM {f : β → ℕ → ExceptT ε Option α} {l : List β}
    (hf : ∀ b ∈ l, Settled E Q (f b)) :
    Settled E (fun as => ∀ a ∈ as, Q a) fun n => l.mapM fun b => f b n := by
  induction l with
  | nil => exact .pure nofun
  | cons b l ih =>
    simp only [List.mapM_cons]
    refine (hf b (List.mem_cons_self ..)).bind fun a ha => ?_
    refine (ih fun b hb => hf b (List.mem_cons_of_mem _ hb)).bind fun as has => .pure ?_
    intro a' ha'
    rcases List.mem_cons.mp ha' with rfl | ha'
    · exact ha
    · exact has a' ha'

theorem Settled.foldlM {f : α → β → ℕ → ExceptT ε Option α} {l : List β} {a : α} (ha : Q a)
    (hf : ∀ a, Q a → ∀ b ∈ l, Settled E Q (f a b)) :
    Settled E Q fun n => l.foldlM (fun a b => f a b n) a := by
  induction l generalizing a with
  | nil => exact .pure ha
  | cons b l ih =>
    simp only [List.foldlM_cons]
    refine (hf a ha b (List.mem_cons_self ..)).bind fun a ha => ?_
    exact ih ha fun a ha b hb => hf a ha b (List.mem_cons_of_mem _ hb)

variable {s : σ}

theorem Restores.pure {a : α} (ha : Q a) :
    Restores s E Q fun _ => (pure a : ExceptT ε (StateT σ Option) α) :=
  Settles.const (r := ((.ok a : Except ε α), s)) ⟨rfl, ha⟩

theorem Restores.imp {P : α → Prop} {x : ℕ → ExceptT ε (StateT σ Option) α}
    (h : Restores s E Q x) (hP : ∀ a, Q a → P a) : Restores s E P x :=
  Settles.imp h fun _ hr => ⟨hr.1, hr.2.imp hP⟩

theorem Restores.bind {x : ℕ → ExceptT ε (StateT σ Option) α}
    {y : α → ℕ → ExceptT ε (StateT σ Option) β} (hx : Restores s E Q x)
    (hy : ∀ a, Q a → Restores s E Q' (y a)) :
    Restores s E Q' fun n => x n >>= fun a => y a n := by
  refine Settles.bind hx fun r hr => ?_
  obtain ⟨r, s'⟩ := r
  obtain ⟨rfl, hr⟩ := hr
  cases r with
  | error error => exact Settles.const (r := ((.error error : Except ε β), s')) ⟨rfl, hr⟩
  | ok a => exact hy a hr

end Settling
