import Mathlib.Data.Fintype.Card
import Mathlib.Data.List.Nodup
import RustTS.Lib.Asking

/-! Recursive functions, given by bodies that ask for the results of their calls one after
another: run with fuel, and run along the path of the calls in progress, failing where a call
meets itself. Over finitely many callers the two agree: fuel suffices exactly when no call
meets itself. -/
namespace Recursion

universe u v

variable {Q : Type u} {A B : Type v}

/-- What a body computes with the answers of its calls, `none` where one is missing. -/
def eval (f : Q → Option A) : Asking (fun _ : Q => A) B → Option B
  | .done x => some x
  | .ask q k => (f q).bind fun a => eval f (k a)

@[simp] theorem eval_done (f : Q → Option A) (x : B) : eval f (.done x) = some x := rfl

@[simp] theorem eval_ask (f : Q → Option A) (q : Q) (k : A → Asking (fun _ : Q => A) B) :
    eval f (.ask q k) = (f q).bind fun a => eval f (k a) := rfl

theorem eval_map {C : Type v} (f : Q → Option A) (g : B → C) (p : Asking (fun _ : Q => A) B) :
    eval f (p.map g) = (eval f p).map g := by
  induction p with
  | done x => rfl
  | ask q k ih =>
    show ((f q).bind fun a => eval f ((k a).map g)) = ((f q).bind fun a => eval f (k a)).map g
    simp only [ih]
    cases f q <;> rfl

theorem eval_mono {f g : Q → Option A} (h : ∀ q x, f q = some x → g q = some x)
    {p : Asking (fun _ : Q => A) B} {y : B} (hy : eval f p = some y) : eval g p = some y := by
  induction p with
  | done x => exact hy
  | ask q k ih =>
    obtain ⟨x, hx, hrest⟩ := Option.bind_eq_some_iff.mp hy
    rw [eval_ask, h q x hx]
    exact ih x hrest

theorem eval_waits {f : Q → Option A} {p : Asking (fun _ : Q => A) B} (h : eval f p = none) :
    ∃ q, f q = none ∧ ∀ g : Q → Option A, (∀ r x, f r = some x → g r = none ∨ g r = some x) →
      eval g p ≠ none → g q ≠ none := by
  induction p with
  | done x => cases h
  | ask q k ih =>
    cases hq : f q with
    | none =>
      refine ⟨q, hq, fun g _ hg hnone => hg ?_⟩
      rw [eval_ask, hnone]
      rfl
    | some x =>
      rw [eval_ask, hq] at h
      obtain ⟨r, hr, hwaits⟩ := ih x h
      refine ⟨r, hr, fun g hfg hg => hwaits g hfg fun hnone => hg ?_⟩
      rcases hfg q x hq with hgq | hgq
      · rw [eval_ask, hgq]
        rfl
      · rw [eval_ask, hgq]
        exact hnone

/-- The function, its calls nested at most as deep as the fuel. -/
def fuelled (body : Q → Asking (fun _ : Q => A) A) : Nat → Q → Option A
  | 0, _ => none
  | n + 1, q => eval (fuelled body n) (body q)

/-- The function, with the keys of the calls in progress: a call with a key among them fails.
A call without a key makes none itself. -/
def guarded {K : Type*} [DecidableEq K] (body : Q → Asking (fun _ : Q => A) A)
    (key : Q → Option K) : Nat → List K → Q → Option A
  | 0, _, q => match key q with
    | none => eval (fun _ => none) (body q)
    | some _ => none
  | n + 1, path, q => match key q with
    | none => eval (fun _ => none) (body q)
    | some k => if k ∈ path then none else eval (guarded body key n (k :: path)) (body q)

variable {body : Q → Asking (fun _ : Q => A) A}

theorem fuelled_mono {n m : Nat} (hnm : n ≤ m) {q : Q}
    {x : A} (h : fuelled body n q = some x) : fuelled body m q = some x := by
  induction n generalizing m q x with
  | zero => cases h
  | succ n ih =>
    cases m with
    | zero => exact absurd hnm (Nat.not_succ_le_zero n)
    | succ m => exact eval_mono (fun p y hp => ih (Nat.le_of_succ_le_succ hnm) hp) h

theorem fuelled_unique {n m : Nat} {q : Q} {x y : A}
    (hx : fuelled body n q = some x) (hy : fuelled body m q = some y) : x = y := by
  have hx' := fuelled_mono (Nat.le_max_left n m) hx
  have hy' := fuelled_mono (Nat.le_max_right n m) hy
  exact Option.some.inj (hx'.symm.trans hy')

/-- Whenever `p` ends, `q` has ended within it, with less fuel. -/
def Needs (body : Q → Asking (fun _ : Q => A) A) (p q : Q) : Prop :=
  ∃ m, ∀ n, fuelled body (n + m + 1) p ≠ none → fuelled body n q ≠ none

theorem Needs.trans {p q r : Q} (h : Needs body p q) (h' : Needs body q r) : Needs body p r := by
  obtain ⟨m, hm⟩ := h
  obtain ⟨m', hm'⟩ := h'
  refine ⟨m' + 1 + m, fun n hn => hm' n (hm (n + m' + 1) ?_)⟩
  rwa [show n + m' + 1 + m + 1 = n + (m' + 1 + m) + 1 by omega]

theorem Needs.diverges {q : Q} (h : Needs body q q) (n : Nat) :
    fuelled body n q = none := by
  obtain ⟨m, hm⟩ := h
  induction n using Nat.strong_induction_on with
  | _ n ih =>
    by_contra hne
    obtain ⟨x, hx⟩ := Option.ne_none_iff_exists'.mp hne
    by_cases hlt : n < m + 1
    · have hmore : fuelled body (0 + m + 1) q = some x := fuelled_mono (by omega) hx
      have hne' : fuelled body (0 + m + 1) q ≠ none := by
        rw [hmore]
        exact Option.some_ne_none x
      exact hm 0 hne' rfl
    · have hsplit : n - (m + 1) + m + 1 = n := by omega
      have hless := hm (n - (m + 1)) (by rw [hsplit]; exact hne)
      exact hless (ih (n - (m + 1)) (by omega))

/-- The functions the guarded run is about: a call without a key is answered at once, and a
key names one call. -/
structure Keyed {K : Type*} (body : Q → Asking (fun _ : Q => A) A) (key : Q → Option K)
    (node : K → Q) : Prop where
  leaf : ∀ {q}, key q = none → ∃ x, body q = .done x
  node : ∀ {q k}, key q = some k → q = node k

section
variable {K : Type*} [DecidableEq K] {key : Q → Option K} {node : K → Q}

theorem guarded_leaf (hF : Keyed body key node) (n : Nat) (path : List K) {q : Q}
    (hq : key q = none) :
    ∃ x, guarded body key n path q = some x ∧ ∀ m, fuelled body (m + 1) q = some x := by
  obtain ⟨x, hx⟩ := hF.leaf hq
  refine ⟨x, ?_, fun m => ?_⟩
  · cases n <;> simp [guarded, hq, hx]
  · rw [fuelled, hx, eval_done]

theorem fuelled_of_guarded (hF : Keyed body key node) {n : Nat} {path : List K} {q : Q} {x : A}
    (h : guarded body key n path q = some x) : fuelled body (n + 1) q = some x := by
  induction n generalizing path q x with
  | zero =>
    cases hq : key q with
    | none =>
      obtain ⟨y, hy, hfuel⟩ := guarded_leaf hF 0 path hq
      rw [hfuel, ← hy, h]
    | some k => simp [guarded, hq] at h
  | succ n ih =>
    cases hq : key q with
    | none =>
      obtain ⟨y, hy, hfuel⟩ := guarded_leaf hF (n + 1) path hq
      rw [hfuel, ← hy, h]
    | some k =>
      unfold guarded at h
      simp only [hq] at h
      split_ifs at h
      exact eval_mono (fun p y hp => ih hp) h

/-- Where the guarded run fails within a call, no fuel suffices. -/
theorem diverges_of_guarded [Fintype K] (hF : Keyed body key node) {n : Nat} {path : List K} {q : Q}
    (hn : path.length + n = Fintype.card K) (hpath : path.Nodup)
    (hneeds : ∀ k ∈ path, Needs body (node k) q) (h : guarded body key n path q = none) (m : Nat) :
    fuelled body m q = none := by
  induction n generalizing path q m with
  | zero =>
    cases hq : key q with
    | none =>
      obtain ⟨x, hx, -⟩ := guarded_leaf hF 0 path hq
      simp [hx] at h
    | some k =>
      have hmem : k ∈ path := by
        have hcard : path.toFinset.card = Fintype.card K := by
          rw [List.toFinset_card_of_nodup hpath]
          omega
        have huniv := Finset.eq_univ_of_card _ hcard
        exact List.mem_toFinset.mp (huniv ▸ Finset.mem_univ k)
      have hself : Needs body q q := by
        have hk := hneeds k hmem
        rwa [← hF.node hq] at hk
      exact hself.diverges m
  | succ n ih =>
    cases hq : key q with
    | none =>
      obtain ⟨x, hx, -⟩ := guarded_leaf hF (n + 1) path hq
      simp [hx] at h
    | some k =>
      by_cases hmem : k ∈ path
      · have hself : Needs body q q := by
          have hk := hneeds k hmem
          rwa [← hF.node hq] at hk
        exact hself.diverges m
      · unfold guarded at h
        simp only [hq, if_neg hmem] at h
        obtain ⟨p, hp, hneed⟩ := eval_waits h
        have hcall : ∀ m, fuelled body (m + 1) q ≠ none → fuelled body m p ≠ none := by
          intro m
          apply hneed (fuelled body m)
          intro r x hr
          have hfuel := fuelled_of_guarded hF hr
          cases hm : fuelled body m r with
          | none => exact .inl rfl
          | some y => exact .inr (by rw [fuelled_unique hm hfuel])
        have hqp : Needs body q p := ⟨0, hcall⟩
        have hlength : (k :: path).length + n = Fintype.card K := by
          rw [List.length_cons]
          omega
        have hdiverges : ∀ m, fuelled body m p = none := by
          refine ih hlength (List.nodup_cons.mpr ⟨hmem, hpath⟩) ?_ hp
          intro j hj
          rcases List.mem_cons.mp hj with rfl | hj
          · rwa [← hF.node hq]
          · exact (hneeds j hj).trans hqp
        cases m with
        | zero => rfl
        | succ m =>
          by_contra hne
          exact hcall m hne (hdiverges m)

theorem fuelled_iff_guarded [Fintype K] (hF : Keyed body key node) {q : Q} {x : A} :
    (∃ n, fuelled body n q = some x) ↔ guarded body key (Fintype.card K) [] q = some x := by
  constructor
  · rintro ⟨n, hn⟩
    cases hg : guarded body key (Fintype.card K) [] q with
    | none =>
      have hlength : ([] : List K).length + Fintype.card K = Fintype.card K := Nat.zero_add _
      have hnone := diverges_of_guarded hF hlength List.nodup_nil nofun hg n
      simp [hnone] at hn
    | some y => rw [fuelled_unique hn (fuelled_of_guarded hF hg)]
  · intro h
    exact ⟨_, fuelled_of_guarded hF h⟩

end

end Recursion
