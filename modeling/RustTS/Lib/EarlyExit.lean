import Mathlib.Tactic.SplitIfs

/-! Loops that are left at the first check that says stop, against the same loops run to
their end. Nothing here depends on what the states are. -/

/-- A computation run to its end: the states its checks see, in order, and its last one. -/
structure Checked (S : Type*) where
  checks : List S
  last : S

namespace Checked

variable {S A : Type*}

/-- A step without a check. -/
def done (s : S) : Checked S := ⟨[], s⟩

/-- A step that ends in a check. -/
def check (s : S) : Checked S := ⟨[s], s⟩

def bind (t : Checked S) (f : S → Checked S) : Checked S :=
  ⟨t.checks ++ (f t.last).checks, (f t.last).last⟩

/-- The steps of a loop, one after another. -/
def each (step : A → S → Checked S) : List A → S → Checked S
  | [], s => done s
  | a :: as, s => (step a s).bind (each step as)

/-- The state at the first check that says stop, or the last one; and whether one did. -/
def cut (stop : S → Bool) (t : Checked S) : Bool × S :=
  match t.checks.find? stop with
  | some s => (true, s)
  | none => (false, t.last)

variable {stop : S → Bool}

@[simp] theorem cut_done (s : S) : (done s).cut stop = (false, s) := rfl

@[simp] theorem cut_check (s : S) : (check s).cut stop = (stop s, s) := by
  cases h : stop s <;> simp [cut, check, h]

theorem cut_bind (t : Checked S) (f : S → Checked S) :
    (t.bind f).cut stop = if (t.cut stop).1 then t.cut stop else (f (t.cut stop).2).cut stop := by
  unfold cut
  show (match (t.checks ++ (f t.last).checks).find? stop with
    | some s => (true, s)
    | none => (false, (f t.last).last)) = _
  rw [List.find?_append]
  cases h : t.checks.find? stop <;> simp

theorem stop_of_cut {t : Checked S} (h : (t.cut stop).1 = true) : stop (t.cut stop).2 = true := by
  unfold cut at h ⊢
  cases hf : t.checks.find? stop with
  | none => simp [hf] at h
  | some s => exact List.find?_some hf

end Checked

/-- A loop that is left once its body says so. -/
def breakLoop {S A : Type*} (body : A → S → Bool × S) : List A → S → Bool × S
  | [], s => (false, s)
  | a :: as, s =>
    let r := body a s
    if r.1 then r else breakLoop body as r.2

section
variable {S T A : Type*}

theorem breakLoop_eq_cut {stop : S → Bool} {body : A → S → Bool × S}
    {step : A → S → Checked S} (h : ∀ a s, body a s = (step a s).cut stop) (as : List A) (s : S) :
    breakLoop body as s = (Checked.each step as s).cut stop := by
  induction as generalizing s with
  | nil => rfl
  | cons a as ih =>
    show (if (body a s).1 then body a s else breakLoop body as (body a s).2) = _
    rw [Checked.each, Checked.cut_bind, h, ih]

theorem breakLoop_keeps {P : T → Prop} {body : A → T → Bool × T}
    (hbody : ∀ a t, P t → P (body a t).2) {as : List A} {t : T} (h : P t) :
    P (breakLoop body as t).2 := by
  induction as generalizing t with
  | nil => exact h
  | cons a as ih =>
    have hfirst := hbody a t h
    unfold breakLoop
    dsimp only
    split_ifs
    · exact hfirst
    · exact ih hfirst

theorem breakLoop_stopped {P : T → Prop} {body : A → T → Bool × T}
    (hbody : ∀ a t, (body a t).1 = true → P (body a t).2) {as : List A} {t : T}
    (h : (breakLoop body as t).1 = true) : P (breakLoop body as t).2 := by
  induction as generalizing t with
  | nil => cases h
  | cons a as ih =>
    unfold breakLoop at h ⊢
    dsimp only at h ⊢
    split_ifs at h ⊢ with hstop
    · exact hbody a t hstop
    · exact ih h

/-- A computation that nothing may go wrong in: the states its checks see, none after one that
says stop, and the state it ends in, if it comes to its end. -/
structure Course (S : Type*) where
  seen : List S
  last : Option S

namespace Course

/-- A step without a check. -/
def done (s : S) : Course S := ⟨[], some s⟩

/-- A step that goes wrong. -/
def lost : Course S := ⟨[], none⟩

/-- A check. -/
def check (stop : S → Bool) (s : S) : Course S := ⟨[s], if stop s then none else some s⟩

def bind (t : Course S) (f : S → Course S) : Course S :=
  match t.last with
  | none => t
  | some s => ⟨t.seen ++ (f s).seen, (f s).last⟩

/-- The steps of a loop, one after another. -/
def each (step : A → S → Course S) : List A → S → Course S
  | [], s => done s
  | a :: as, s => (step a s).bind (each step as)

/-- What a computation that may be left early does, as long as its course goes: it stops where the
course does, in a state that `Q` relates to the course's, or ends where it does, related by `R`.
Otherwise it went wrong. -/
structure Follows (stop : S → Bool) (Q R : S → T → Prop) (Wrong : T → Prop) (t : Course S)
    (r : Bool × T) : Prop where
  stops : ∀ s ∈ t.seen, stop s = true → r.1 = true ∧ Q s r.2
  ends : ∀ s, t.last = some s → r.1 = false ∧ R s r.2 ∧ ∀ c ∈ t.seen, stop c = false
  wrong : t.last = none → (∀ s ∈ t.seen, stop s = false) → Wrong r.2

variable {stop : S → Bool} {Q R R' : S → T → Prop} {Wrong : T → Prop} {c : Course S} {s : S} {t : T}

theorem follows_done (h : R s t) : Follows stop Q R Wrong (done s) (false, t) := by
  refine ⟨nofun, fun e he => ?_, nofun⟩
  cases he
  exact ⟨rfl, h, nofun⟩

theorem follows_lost {b : Bool} (h : Wrong t) : Follows stop Q R Wrong lost (b, t) :=
  ⟨nofun, nofun, fun _ _ => h⟩

theorem follows_check {b : Bool} (hb : b = stop s) (hQ : Q s t) (hR : R s t) :
    Follows stop Q R Wrong (check stop s) (b, t) := by
  subst hb
  refine ⟨fun e he hstop => ?_, fun e he => ?_, fun hlast hseen => ?_⟩
  · cases List.mem_singleton.mp he
    exact ⟨hstop, hQ⟩
  · unfold check at he
    cases hstop : stop s with
    | true => simp [hstop] at he
    | false =>
      rw [hstop] at he
      cases he
      exact ⟨rfl, hR, fun d hd => List.mem_singleton.mp hd ▸ hstop⟩
  · have hgoes := hseen s List.mem_cons_self
    simp [check, hgoes] at hlast

/-- Going on after a computation that did not stop. -/
theorem Follows.bind {f : S → Course S} {r r' : Bool × T} (h : Follows stop Q R Wrong c r)
    (hstopped : r.1 = true → r' = r) (hwrong : Wrong r.2 → Wrong r'.2)
    (hgoes : r.1 = false → ∀ s, R s r.2 → Follows stop Q R' Wrong (f s) r') :
    Follows stop Q R' Wrong (c.bind f) r' := by
  unfold Course.bind
  cases hlast : c.last with
  | none =>
    refine ⟨fun s hs hstop => ?_, fun s hs => ?_, fun _ hseen => hwrong (h.wrong hlast hseen)⟩
    · have hr := h.stops s hs hstop
      rw [hstopped hr.1]
      exact hr
    · rw [hlast] at hs
      cases hs
  | some s =>
    obtain ⟨hfalse, hR, hnone⟩ := h.ends s hlast
    have hrest := hgoes hfalse s hR
    refine ⟨fun e he hstop => ?_, fun e he => ?_, fun hnext hseen => ?_⟩
    · rcases List.mem_append.mp he with he | he
      · exact absurd hstop (by simp [hnone e he])
      · exact hrest.stops e he hstop
    · obtain ⟨hends, hR', hrestNone⟩ := hrest.ends e he
      refine ⟨hends, hR', fun d hd => ?_⟩
      rcases List.mem_append.mp hd with hd | hd
      · exact hnone d hd
      · exact hrestNone d hd
    · exact hrest.wrong hnext fun e he => hseen e (List.mem_append_right _ he)

/-- A loop that is left early follows the course of its steps. The relation at its head may speak
of what is left to loop over. -/
theorem follows_breakLoop {R : List A → S → T → Prop} {step : A → S → Course S}
    {body : A → T → Bool × T}
    (hstep : ∀ a as s t, R (a :: as) s t → Follows stop Q (R as) Wrong (step a s) (body a t))
    (hwrong : ∀ a t, Wrong t → Wrong (body a t).2) {as : List A} {s : S} {t : T} (h : R as s t) :
    Follows stop Q (R []) Wrong (each step as s) (breakLoop body as t) := by
  induction as generalizing s t with
  | nil => exact follows_done h
  | cons a as ih =>
    refine (hstep a as s t h).bind (fun hstopped => if_pos hstopped) (fun hfails => ?_)
      (fun hgoes s' hR => ?_)
    · show Wrong (if (body a t).1 then body a t else breakLoop body as (body a t).2).2
      split_ifs
      · exact hfails
      · exact breakLoop_keeps hwrong hfails
    · have hloop : breakLoop body (a :: as) t = breakLoop body as (body a t).2 :=
        if_neg (by simp [hgoes])
      rw [hloop]
      exact ih hR

end Course

end
