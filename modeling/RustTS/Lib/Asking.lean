import Mathlib.Init

/-! Programs that ask an interface one question after another and go on with the answers. What
a program computes is decided by the answers to the questions it asks, however they come
about. -/

universe u v w

/-- A program over the questions `q`, each with answers in `A q`. -/
inductive Asking {Q : Type u} (A : Q → Type v) (X : Type w)
  | done (x : X)
  | ask (q : Q) (k : A q → Asking A X)

namespace Asking

variable {Q : Type u} {A : Q → Type v} {X Y : Type w} {S S' : Type*}

def bind : Asking A X → (X → Asking A Y) → Asking A Y
  | done x, f => f x
  | ask q k, f => ask q fun a => (k a).bind f

def map (f : X → Y) (p : Asking A X) : Asking A Y := p.bind fun x => done (f x)

instance : Monad (Asking A) where
  pure := done
  bind := bind

theorem bind_bind {Z : Type w} (p : Asking A X) (f : X → Asking A Y) (g : Y → Asking A Z) :
    p >>= f >>= g = p >>= fun x => f x >>= g := by
  induction p with
  | done x => rfl
  | ask q k ih => exact congrArg (ask q) (funext ih)

/-- The same program over more questions. -/
def lift {Q' : Type u} {A' : Q' → Type v} (e : Q → Q') :
    Asking (fun q => A' (e q)) X → Asking A' X
  | done x => done x
  | ask q k => ask (e q) fun a => (k a).lift e

/-- What it returns where the answers never change. -/
def answered (f : (q : Q) → A q) : Asking A X → X
  | done x => x
  | ask q k => (k (f q)).answered f

/-- A question alone. -/
def put {A : Q → Type w} (q : Q) : Asking A (A q) := ask q done

/-- Runs a program against an interface with a state. -/
def run (answer : (q : Q) → S → A q × S) : Asking A X → S → X × S
  | done x, s => (x, s)
  | ask q k, s => (k (answer q s).1).run answer (answer q s).2

/-- The questions it asks there, each with the state that answered it. -/
def asked (answer : (q : Q) → S → A q × S) : Asking A X → S → List (Q × S)
  | done _, _ => []
  | ask q k, s => (q, s) :: (k (answer q s).1).asked answer (answer q s).2

/-- Every question it may ask satisfies `R`. -/
def Within (R : Q → Prop) : Asking A X → Prop
  | done _ => True
  | ask q k => R q ∧ ∀ a, (k a).Within R

variable {answer : (q : Q) → S → A q × S} {answer' : (q : Q) → S' → A q × S'}

@[simp] theorem run_done (x : X) (s : S) : (done x : Asking A X).run answer s = (x, s) := rfl

@[simp] theorem run_ask (q : Q) (k : A q → Asking A X) (s : S) :
    (ask q k).run answer s = (k (answer q s).1).run answer (answer q s).2 := rfl

@[simp] theorem run_bind (p : Asking A X) (f : X → Asking A Y) (s : S) :
    (p.bind f).run answer s = (f (p.run answer s).1).run answer (p.run answer s).2 := by
  induction p generalizing s with
  | done x => rfl
  | ask q k ih => exact ih (answer q s).1 (answer q s).2

@[simp] theorem run_map (p : Asking A X) (f : X → Y) (s : S) :
    (p.map f).run answer s = (f (p.run answer s).1, (p.run answer s).2) := run_bind p _ s

section
variable (f : (q : Q) → A q)

@[simp] theorem answered_pure (x : X) : (pure x : Asking A X).answered f = x := rfl

@[simp] theorem answered_bind (p : Asking A X) (g : X → Asking A Y) :
    (p >>= g).answered f = (g (p.answered f)).answered f := by
  induction p with
  | done x => rfl
  | ask q k ih => exact ih (f q)

@[simp] theorem answered_lift {Q' : Type u} {A' : Q' → Type v} (e : Q → Q') (g : (q : Q') → A' q)
    (p : Asking (fun q => A' (e q)) X) : (p.lift e).answered g = p.answered fun q => g (e q) := by
  induction p with
  | done x => rfl
  | ask q k ih => exact ih (g (e q))

/-- The questions it asks where the answers never change. -/
def asks : Asking A X → List Q
  | done _ => []
  | ask q k => q :: (k (f q)).asks

theorem asks_bind (p : Asking A X) (g : X → Asking A Y) :
    (p >>= g).asks f = p.asks f ++ (g (p.answered f)).asks f := by
  induction p with
  | done x => rfl
  | ask q k ih => exact congrArg (q :: ·) (ih (f q))

theorem asks_lift {Q' : Type u} {A' : Q' → Type v} (e : Q → Q') (g : (q : Q') → A' q)
    (p : Asking (fun q => A' (e q)) X) : (p.lift e).asks g = (p.asks fun q => g (e q)).map e := by
  induction p with
  | done x => rfl
  | ask q k ih => exact congrArg (e q :: ·) (ih (g (e q)))

@[simp] theorem answered_put {A : Q → Type w} (f : (q : Q) → A q) (q : Q) :
    (put q : Asking A (A q)).answered f = f q := rfl

end

@[simp] theorem run_pure (x : X) (s : S) : (pure x : Asking A X).run answer s = (x, s) := rfl

@[simp] theorem run_bind_eq (p : Asking A X) (f : X → Asking A Y) (s : S) :
    (p >>= f).run answer s = (f (p.run answer s).1).run answer (p.run answer s).2 := run_bind p f s

@[simp] theorem asked_pure (x : X) (s : S) : (pure x : Asking A X).asked answer s = [] := rfl

theorem asked_bind (p : Asking A X) (f : X → Asking A Y) (s : S) :
    (p >>= f).asked answer s =
      p.asked answer s ++ (f (p.run answer s).1).asked answer (p.run answer s).2 := by
  induction p generalizing s with
  | done x => rfl
  | ask q k ih => exact congrArg ((q, s) :: ·) (ih (answer q s).1 (answer q s).2)

/-- Two interfaces answer a program alike, as far as it can tell: with each answer of either it goes
on the same. -/
def Alike (answer : (q : Q) → S → A q × S) (answer' : (q : Q) → S' → A q × S') :
    Asking A X → S → S' → Prop
  | done _, _, _ => True
  | ask q k, s, s' => k (answer q s).1 = k (answer' q s').1 ∧
      (k (answer q s).1).Alike answer answer' (answer q s).2 (answer' q s').2

theorem Alike.run {p : Asking A X} {s : S} {s' : S'} (h : p.Alike answer answer' s s') :
    (p.run answer s).1 = (p.run answer' s').1 := by
  induction p generalizing s s' with
  | done x => rfl
  | ask q k ih =>
    obtain ⟨hsame, hrest⟩ := h
    show ((k (answer q s).1).run answer (answer q s).2).1 =
      ((k (answer' q s').1).run answer' (answer' q s').2).1
    rw [ih (answer q s).1 hrest, hsame]

/-- With some answers it returns this. -/
def MayReturn (x : X) : Asking A X → Prop
  | done y => y = x
  | ask _ k => ∃ a, (k a).MayReturn x

theorem mayReturn_run (answer : (q : Q) → S → A q × S) (p : Asking A X) (s : S) : p.MayReturn (p.run answer s).1 := by
  induction p generalizing s with
  | done x => rfl
  | ask q k ih => exact ⟨(answer q s).1, ih (answer q s).1 (answer q s).2⟩

/-- What it returns, where that has the property, tells the answers apart that it goes on with
differently. -/
def Discerning (P : X → Prop) : Asking A X → Prop
  | done _ => True
  | ask _ k => (∀ a b x, P x → (k a).MayReturn x → (k b).MayReturn x → k a = k b) ∧
      ∀ a, (k a).Discerning P

/-- Interfaces from which a discerning program returns the same answer it alike. -/
theorem Discerning.alike {P : X → Prop} {p : Asking A X} (h : p.Discerning P) {s : S} {s' : S'}
    {x : X} (hx : P x) (hrun : (p.run answer s).1 = x) (hrun' : (p.run answer' s').1 = x) :
    p.Alike answer answer' s s' := by
  induction p generalizing s s' with
  | done x => trivial
  | ask q k ih =>
    change ((k (answer q s).1).run answer (answer q s).2).1 = x at hrun
    change ((k (answer' q s').1).run answer' (answer' q s').2).1 = x at hrun'
    have hmay := mayReturn_run answer (k (answer q s).1) (answer q s).2
    have hmay' := mayReturn_run answer' (k (answer' q s').1) (answer' q s').2
    rw [hrun] at hmay
    rw [hrun'] at hmay'
    have hsame := h.1 (answer q s).1 (answer' q s').1 x hx hmay hmay'
    refine ⟨hsame, ih (answer q s).1 (h.2 _) hrun ?_⟩
    rw [hsame]
    exact hrun'

theorem Within.bind {R : Q → Prop} {p : Asking A X} {f : X → Asking A Y} (h : p.Within R)
    (hf : ∀ x, (f x).Within R) : (p.bind f).Within R := by
  induction p with
  | done x => exact hf x
  | ask q k ih => exact ⟨h.1, fun a => ih a (h.2 a)⟩

theorem Within.imp {R R' : Q → Prop} {p : Asking A X} (h : p.Within R) (himp : ∀ q, R q → R' q) :
    p.Within R' := by
  induction p with
  | done x => trivial
  | ask q k ih => exact ⟨himp q h.1, fun a => ih a (h.2 a)⟩

/-- Whatever is answered, the result satisfies `P`. -/
def Yields (P : X → Prop) : Asking A X → Prop
  | done x => P x
  | ask _ k => ∀ a, (k a).Yields P

theorem Yields.run {P : X → Prop} {p : Asking A X} (h : p.Yields P) (s : S) :
    P (p.run answer s).1 := by
  induction p generalizing s with
  | done x => exact h
  | ask q k ih => exact ih (answer q s).1 (h _) (answer q s).2

theorem Yields.answered {P : X → Prop} {p : Asking A X} (h : p.Yields P) (f : (q : Q) → A q) :
    P (p.answered f) := by
  induction p with
  | done x => exact h
  | ask q k ih => exact ih (f q) (h (f q))

theorem Yields.imp {P R : X → Prop} {p : Asking A X} (h : p.Yields P) (himp : ∀ x, P x → R x) :
    p.Yields R := by
  induction p with
  | done x => exact himp x h
  | ask q k ih => exact fun a => ih a (h a)

theorem yields_true (p : Asking A X) : p.Yields fun _ => True := by
  induction p with
  | done x => trivial
  | ask q k ih => exact ih

theorem Yields.bind {P : X → Prop} {R : Y → Prop} {p : Asking A X} {f : X → Asking A Y}
    (h : p.Yields P) (hf : ∀ x, P x → (f x).Yields R) : (p >>= f).Yields R := by
  induction p with
  | done x => exact hf x h
  | ask q k ih => exact fun a => ih a (h a)

/-- What holds of its result, the state it leaves and the questions asked, after those of
`trace`. -/
def Leads (answer : (q : Q) → S → A q × S) (p : Asking A X) (s : S) (trace : List (Q × S))
    (P : X → S → List (Q × S) → Prop) : Prop :=
  P (p.run answer s).1 (p.run answer s).2 (trace ++ p.asked answer s)

section
variable {s : S} {trace : List (Q × S)}

theorem Leads.imp {p : Asking A X} {P R : X → S → List (Q × S) → Prop}
    (h : p.Leads answer s trace P) (himp : ∀ x s' trace', P x s' trace' → R x s' trace') :
    p.Leads answer s trace R := himp _ _ _ h

theorem leads_pure (x : X) {P : X → S → List (Q × S) → Prop} :
    (pure x : Asking A X).Leads answer s trace P ↔ P x s trace := by
  unfold Leads
  rw [run_pure, asked_pure, List.append_nil]

theorem leads_bind (p : Asking A X) (f : X → Asking A Y) {P : Y → S → List (Q × S) → Prop} :
    (p >>= f).Leads answer s trace P ↔
      p.Leads answer s trace fun x s' trace' => (f x).Leads answer s' trace' P := by
  unfold Leads
  rw [run_bind_eq, asked_bind, ← List.append_assoc]

theorem leads_put {A : Q → Type w} {answer : (q : Q) → S → A q × S} (q : Q)
    {P : A q → S → List (Q × S) → Prop} :
    (put q : Asking A (A q)).Leads answer s trace P ↔
      P (answer q s).1 (answer q s).2 (trace ++ [(q, s)]) := Iff.rfl

theorem Within.asked {R : Q → Prop} {p : Asking A X} (h : p.Within R) :
    ∀ asked ∈ p.asked answer s, R asked.1 := by
  induction p generalizing s with
  | done x =>
    rintro asked ⟨⟩
  | ask q k ih =>
    intro asked hasked
    rcases List.mem_cons.mp hasked with rfl | hasked
    · exact h.1
    · exact ih (answer q s).1 (h.2 _) asked hasked

theorem Within.leads {R : Q → Prop} {p : Asking A X} (h : p.Within R) :
    p.Leads answer s trace fun _ _ trace' =>
      ∃ more, trace' = trace ++ more ∧ ∀ asked ∈ more, R asked.1 :=
  ⟨p.asked answer s, rfl, h.asked⟩

end

end Asking
