import Mathlib.Order.FixedPoints
import Mathlib.Data.Finset.Card
import RustTS.Contract.ValidationDecides

/-! Validation against a schema: it always ends and gives the references being resolved back, and
it accepts at least what the schema says, with nothing else where no reference is entered again
while it is being resolved. -/
namespace RustTS.Contract

open Deciding Settling

section
variable (options : SchemaValidationOptions) (dependencies : List Schema)

/-- What a reference stands for: the first dependency of its name, and anything where there is
none. -/
def Means (C : RefReading) : RefReading := fun name value =>
  match findSchemaDependency name dependencies with
  | none => True
  | some schema => schema.tsType.Matches options C value

/-- The meaning of references by that of the references within, whose fixed points are the readings
of a schema. -/
def meaning : RefReading →o RefReading where
  toFun := Means options dependencies
  monotone' C D hCD name value h := by
    unfold Means at h ⊢
    cases hfind : findSchemaDependency name dependencies with
    | none => trivial
    | some schema =>
      simp only [hfind] at h ⊢
      exact TsType.Matches.mono id hCD _ _ h

/-- The references still to enter. -/
def remaining (stack : List Str) : Nat :=
  ((schemaNames dependencies).toFinset \ stack.toFinset).card

/-- References read to a depth, and anything below or at a name being resolved. -/
def Unrolled : Nat → List Str → RefReading
  | 0, _ => fun _ _ => True
  | depth + 1, stack => fun name value =>
    name ∈ stack ∨ Means options dependencies (Unrolled depth (name :: stack)) name value

/-- How validation reads references while it resolves those on the stack. -/
def Permissive (stack : List Str) : RefReading :=
  Unrolled options dependencies (remaining dependencies stack) stack

end

namespace Schema

/-- The value conforms to the schema: in the greatest reading, which takes in every value that a
reading does. -/
def Conforms (options : SchemaValidationOptions) (schema : Schema) (value : Json) : Prop :=
  schema.tsType.Matches options (OrderHom.gfp (meaning options schema.dependencies)) value

/-- Validation comes to its result without entering a reference that is being resolved. -/
def NoReentry (printable : Char → Bool) (options : SchemaValidationOptions) (schema : Schema)
    (value : Json) : Prop :=
  ∃ fuel r, (validateFrom printable options schema.dependencies (fun _ => none) fuel schema.tsType
    value "$".toList).run [] = some r

/-- Validation accepts the value. -/
def Accepts (printable : Char → Bool) (options : SchemaValidationOptions) (schema : Schema)
    (value : Json) : Prop :=
  ∃ fuel, validateSchemaWithOptions printable fuel schema value options = some (.ok ())

end Schema

mutual

theorem mem_names_of_find (name : Str) : (dependencies : List Schema) → {schema : Schema} →
    findSchemaDependency name dependencies = some schema → name ∈ schemaNames dependencies
  | [], _, h => nomatch h
  | schema :: dependencies, _, h => by
    rcases Option.or_eq_some_iff.mp h with h | ⟨-, h⟩
    · exact List.mem_append_left _ (Schema.mem_names_of_find name schema h)
    · exact List.mem_append_right _ (mem_names_of_find name dependencies h)

theorem Schema.mem_names_of_find (name : Str) : (schema : Schema) → {found : Schema} →
    schema.find name = some found → name ∈ schema.names
  | .mk own tsType dependencies, _, h => by
    unfold Schema.find at h
    split_ifs at h with hown
    · exact List.mem_cons.mpr (.inl hown.symm)
    · exact List.mem_cons_of_mem _ (RustTS.Contract.mem_names_of_find name dependencies h)

end

section
variable (options : SchemaValidationOptions) {dependencies : List Schema} {stack : List Str}
variable {name : Str} {value : Json}

theorem remaining_enter (hname : name ∉ stack) {schema : Schema}
    (hfind : findSchemaDependency name dependencies = some schema) :
    remaining dependencies stack = remaining dependencies (name :: stack) + 1 := by
  unfold remaining
  have hmem : name ∈ (schemaNames dependencies).toFinset \ stack.toFinset := by
    simp only [Finset.mem_sdiff, List.mem_toFinset]
    exact ⟨mem_names_of_find name dependencies hfind, hname⟩
  rw [List.toFinset_cons, Finset.sdiff_insert]
  exact (Finset.card_erase_add_one hmem).symm

private theorem permissive_entered (hname : name ∈ stack) :
    Permissive options dependencies stack name value := by
  unfold Permissive
  cases remaining dependencies stack with
  | zero => trivial
  | succ depth => exact .inl hname

theorem permissive_enter (hname : name ∉ stack) :
    Permissive options dependencies stack name value ↔
      Means options dependencies (Permissive options dependencies (name :: stack)) name value := by
  cases hfind : findSchemaDependency name dependencies with
  | none =>
    simp only [Means, hfind, iff_true]
    unfold Permissive
    cases remaining dependencies stack with
    | zero => trivial
    | succ depth =>
      refine .inr ?_
      simp only [Means, hfind]
  | some schema =>
    conv_lhs => rw [Permissive, remaining_enter hname hfind]
    exact or_iff_right hname

variable {T A : Prop} {C : RefReading} {path : Str} (printable : Char → Bool)

theorem decides_ref {validate : ℕ → TsType → Json → Str → Validation} {reentered : Validation}
    (hentered : name ∈ stack → Decides T stack A fun _ => reentered)
    (hmeans : name ∉ stack → (A ↔ Means options dependencies C name value))
    (hvalidate : name ∉ stack → ∀ schema, findSchemaDependency name dependencies = some schema →
      Decides T (name :: stack) (schema.tsType.Matches options C value) fun n =>
        validate n schema.tsType value path) :
    Decides T stack A fun n =>
      validateTypeRef dependencies (validate n) reentered name value path := by
  have hrun : ∀ n, (validateTypeRef dependencies (validate n) reentered name value path).run stack =
      ((if name ∈ stack then reentered
        else match findSchemaDependency name dependencies with
          | none => pure ()
          | some schema => resolving name (validate n schema.tsType value path) :
        Validation)).run stack := fun _ => rfl
  refine Decides.of_run ?_ hrun
  by_cases hname : name ∈ stack
  · simp only [if_pos hname]
    exact hentered hname
  · simp only [if_neg hname]
    have hmeans := hmeans hname
    cases hfind : findSchemaDependency name dependencies with
    | none =>
      simp only [Means, hfind, iff_true] at hmeans
      exact Decides.pure hmeans
    | some schema =>
      simp only [Means, hfind] at hmeans
      exact ((hvalidate hname schema hfind).within (List.cons name) List.tail rfl rfl).congr
        hmeans.symm

theorem decides_validate (stack : List Str) (ty : TsType) (value : Json) (path : Str) :
    Decides True stack (ty.Matches options (Permissive options dependencies stack) value) fun n =>
      validateType printable options dependencies n ty value path := by
  induction hrest : remaining dependencies stack using Nat.strong_induction_on
    generalizing stack ty value path with
  | _ rest ih =>
    subst hrest
    refine Decides.of_succ rfl (decides_type printable options ?_ ty value path)
    intro name value path
    apply decides_ref options
    · exact fun hname => Decides.pure (permissive_entered options hname)
    · exact permissive_enter options
    · intro hname schema hfind
      refine ih _ ?_ (name :: stack) schema.tsType value path rfl
      rw [remaining_enter hname hfind]
      exact Nat.lt_succ_self _

/-- Validation that does not go on at a reference being resolved decides by every reading that
takes references for what they stand for, even one that depends on the stack. -/
theorem decides_noReentry {C : List Str → RefReading}
    (hC : ∀ stack name value, name ∉ stack →
      (C stack name value ↔ Means options dependencies (C (name :: stack)) name value))
    (fuel : ℕ) (stack : List Str) (ty : TsType) (value : Json) (path : Str) :
    Decides False stack (ty.Matches options (C stack) value) fun _ =>
      validateFrom printable options dependencies (fun _ => none) fuel ty value path := by
  induction fuel generalizing stack ty value path with
  | zero => exact Decides.never
  | succ fuel ih =>
    refine decides_type printable options ?_ ty value path
    intro name value path
    apply decides_ref options
    · exact fun _ => Decides.never
    · exact hC stack name value
    · exact fun _ schema _ => ih (name :: stack) schema.tsType value path

end

section
variable (options : SchemaValidationOptions) {dependencies : List Schema}

private theorem unrolled_of_reading {C : RefReading} (hC : C ≤ meaning options dependencies C)
    (depth : ℕ) (stack : List Str) : C ≤ Unrolled options dependencies depth stack := by
  induction depth generalizing stack with
  | zero => exact fun _ _ _ => trivial
  | succ depth ih =>
    intro name value h
    exact .inr ((meaning options dependencies).monotone (ih (name :: stack)) name value
      (hC name value h))

theorem unrolled_lenient {strict lenient : SchemaValidationOptions}
    (hmode : lenient.rejectUnknownFields = true → strict.rejectUnknownFields = true)
    (depth : ℕ) (stack : List Str) :
    Unrolled strict dependencies depth stack ≤ Unrolled lenient dependencies depth stack := by
  induction depth generalizing stack with
  | zero => exact fun _ _ h => h
  | succ depth ih =>
    intro name value h
    refine h.imp_right fun h => ?_
    unfold Means at h ⊢
    cases hfind : findSchemaDependency name dependencies with
    | none => trivial
    | some schema =>
      simp only [hfind] at h ⊢
      exact TsType.Matches.mono hmode (ih (name :: stack)) _ _ h

end

namespace Schema

variable (printable : Char → Bool) (options : SchemaValidationOptions) (schema : Schema)
variable (value : Json)

/-- Validation settles, and what it comes to says whether the value has the type in the permissive
reading. -/
theorem settles_permissive : Settles (fun r => r = .ok () ↔
      schema.tsType.Matches options (Permissive options schema.dependencies []) value) fun n =>
    validateSchemaWithOptions printable n schema value options := by
  obtain ⟨N, r, ⟨-, hr⟩, hrun⟩ := (decides_validate options printable [] schema.tsType value
    "$".toList).settled trivial
  exact ⟨N, r.1, hr, fun n hn => congrArg (Option.map Prod.fst) (hrun n hn)⟩

theorem accepts_iff : schema.Accepts printable options value ↔
    schema.tsType.Matches options (Permissive options schema.dependencies []) value := by
  constructor
  · rintro ⟨fuel, h⟩
    obtain ⟨⟨r, stack⟩, hrun, hr⟩ := Option.map_eq_some_iff.mp h
    exact ((decides_validate options printable [] schema.tsType value
      "$".toList).answers fuel _ hrun).2.mp hr
  · intro h
    obtain ⟨N, r, hr, hrun⟩ := settles_permissive printable options schema value
    exact ⟨N, (hrun N le_rfl).trans (congrArg some (hr.mpr h))⟩

theorem matches_of_noReentry {options : SchemaValidationOptions} {schema : Schema} {value : Json}
    (h : schema.NoReentry printable options value) {C : RefReading}
    (hC : meaning options schema.dependencies C = C) :
    schema.tsType.Matches options C value ↔
      schema.tsType.Matches options (Permissive options schema.dependencies []) value := by
  obtain ⟨fuel, r, hr⟩ := h
  have hfollows : ∀ (stack : List Str) name value, name ∉ stack →
      (C name value ↔ Means options schema.dependencies C name value) := fun _ name value _ =>
    iff_of_eq (congrFun₂ hC name value).symm
  have hreading := decides_noReentry options printable hfollows fuel [] schema.tsType value
    "$".toList
  have henter : ∀ (stack : List Str) name value, name ∉ stack →
      (Permissive options schema.dependencies stack name value ↔
        Means options schema.dependencies (Permissive options schema.dependencies (name :: stack))
          name value) := fun _ _ _ => permissive_enter options
  have hpermissive := decides_noReentry options printable henter fuel [] schema.tsType value
    "$".toList
  exact (hreading.answers 0 r hr).2.symm.trans (hpermissive.answers 0 r hr).2

/-- Validation ends and gives the references being resolved back, whatever they are. It accepts every
value that conforms to the schema, and in whatever reading exactly the conforming ones where no
reference is entered again while it is being resolved; and what it accepts in strict mode it accepts
in lenient mode. -/
theorem validation_correct :
    (∀ stack ty path, ∃ r N, ∀ n ≥ N,
      (validateType printable options schema.dependencies n ty value path).run stack =
        some (r, stack)) ∧
    (∃ r N, (∀ n ≥ N, validateSchemaWithOptions printable n schema value options = some r) ∧
      (schema.Conforms options value → r = .ok ()) ∧
      (schema.NoReentry printable options value → ∀ C, meaning options schema.dependencies C = C →
        (r = .ok () ↔ schema.tsType.Matches options C value))) ∧
    (schema.Accepts printable ⟨true⟩ value → schema.Accepts printable ⟨false⟩ value) := by
  refine ⟨fun stack ty path => ?_, ?_, fun h => ?_⟩
  · obtain ⟨N, ⟨r, stack'⟩, ⟨hstack, -⟩, hrun⟩ :=
      (decides_validate options printable stack ty value path).settled trivial
    obtain rfl : stack' = stack := hstack
    exact ⟨r, N, hrun⟩
  · obtain ⟨N, r, hr, hrun⟩ := settles_permissive printable options schema value
    refine ⟨r, N, hrun, fun h => hr.mpr ?_, fun h C hC => ?_⟩
    · have hgreatest := (meaning options schema.dependencies).isFixedPt_gfp
      exact TsType.Matches.mono id (unrolled_of_reading options hgreatest.ge _ []) _ _ h
    · exact hr.trans (matches_of_noReentry printable h hC).symm
  · rw [accepts_iff] at h ⊢
    have hmode : (⟨false⟩ : SchemaValidationOptions).rejectUnknownFields = true →
      (⟨true⟩ : SchemaValidationOptions).rejectUnknownFields = true := fun _ => rfl
    exact TsType.Matches.mono hmode (unrolled_lenient hmode _ []) _ _ h

end Schema

end RustTS.Contract
