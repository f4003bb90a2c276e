import Mathlib.Data.List.Basic

/-! Results gathered in order: there are none where one of them is none. -/
namespace List

variable {V : Type*}

theorem allSome_nil : ([] : List (Option V)).allSome = some [] := rfl

theorem allSome_cons (r : Option V) (results : List (Option V)) :
    (r :: results).allSome = r.bind fun v => results.allSome.map (v :: ·) := by
  unfold allSome
  rw [mapM_cons]
  cases r with
  | none => rfl
  | some v => cases mapM id results <;> simp

theorem allSome_eq_some {results : List (Option V)} {values : List V} :
    results.allSome = some values ↔ results = values.map some := by
  induction results generalizing values with
  | nil => cases values <;> simp [allSome_nil]
  | cons r results ih =>
    rw [allSome_cons]
    cases r with
    | none => cases values <;> simp
    | some v =>
      cases values with
      | nil => simp
      | cons w values =>
        rw [Option.bind_some, Option.map_eq_some_iff, map_cons, cons.injEq]
        constructor
        · intro ⟨rest, hrest, hcons⟩
          obtain ⟨hv, htail⟩ := cons.inj hcons
          exact ⟨congrArg some hv, ih.mp (htail ▸ hrest)⟩
        · intro ⟨hv, htail⟩
          exact ⟨values, ih.mpr htail, congrArg (· :: values) (Option.some.inj hv)⟩

theorem allSome_eq_none {results : List (Option V)} :
    results.allSome = none ↔ none ∈ results := by
  induction results with
  | nil => simp [allSome_nil]
  | cons r results ih =>
    rw [allSome_cons]
    cases r <;> simp [ih]

/-- Two lists of results gather alike where they are the same, or none is among both. -/
theorem allSome_eq_allSome {results results' : List (Option V)} :
    results.allSome = results'.allSome ↔
      results = results' ∨ none ∈ results ∧ none ∈ results' := by
  constructor
  · intro h
    cases hr : results.allSome with
    | none => exact .inr ⟨allSome_eq_none.mp hr, allSome_eq_none.mp (h ▸ hr)⟩
    | some values =>
      have hleft := allSome_eq_some.mp hr
      have hright := allSome_eq_some.mp (h ▸ hr)
      exact .inl (hleft.trans hright.symm)
  · intro h
    cases h with
    | inl h => exact congrArg allSome h
    | inr h => rw [allSome_eq_none.mpr h.1, allSome_eq_none.mpr h.2]

end List
