import RustTS.Contract.SchemaDerive

/-! The schemas a type depends on are listed: each one stands behind all that it depends on itself,
whatever types have one name. -/
namespace RustTS.Contract

/-- Named schemas, each behind schemas with the names that it depends on. -/
inductive Listed : List Schema → Prop
  | nil : Listed []
  | snoc {schemas own : List Schema} {name : Str} {tsType : TsType} (h : Listed schemas)
      (hname : hasDeclarationName name = true)
      (hown : ∀ other ∈ schemaNames own, other ∈ schemas.map Schema.name) :
      Listed (schemas ++ [.mk name tsType own])

private theorem schemaNames_append (schemas schemas' : List Schema) :
    schemaNames (schemas ++ schemas') = schemaNames schemas ++ schemaNames schemas' := by
  induction schemas with
  | nil => rfl
  | cons schema schemas ih =>
    show schema.names ++ schemaNames (schemas ++ schemas') = _
    rw [ih]
    exact (List.append_assoc ..).symm

theorem name_mem_schemaNames {schemas : List Schema} {name : Str}
    (h : name ∈ schemas.map Schema.name) : name ∈ schemaNames schemas := by
  induction schemas with
  | nil => cases h
  | cons schema schemas ih =>
    obtain ⟨own, tsType, dependencies⟩ := schema
    rcases List.mem_cons.mp h with rfl | h
    · exact List.mem_append_left _ List.mem_cons_self
    · exact List.mem_append_right _ (ih h)

namespace Listed
variable {schemas schemas' : List Schema}

theorem append (h : Listed schemas) (h' : Listed schemas') : Listed (schemas ++ schemas') := by
  induction h' with
  | nil =>
    rw [List.append_nil]
    exact h
  | snoc _ hname hown ih =>
    rw [← List.append_assoc]
    apply ih.snoc hname
    intro other hother
    rw [List.map_append]
    exact List.mem_append_right _ (hown other hother)

/-- A name at any depth is listed itself. -/
theorem mem_names (h : Listed schemas) {name : Str} (hname : name ∈ schemaNames schemas) :
    name ∈ schemas.map Schema.name := by
  induction h with
  | nil => cases hname
  | @snoc schemas own name' tsType _ _ hown ih =>
    rw [schemaNames_append] at hname
    rw [List.map_append]
    rcases List.mem_append.mp hname with hmem | hmem
    · exact List.mem_append_left _ (ih hmem)
    · have hnode : name ∈ name' :: schemaNames own := by
        simpa [schemaNames, Schema.names] using hmem
      rcases List.mem_cons.mp hnode with rfl | hmem
      · exact List.mem_append_right _ List.mem_cons_self
      · exact List.mem_append_left _ (hown name hmem)

theorem declared (h : Listed schemas) {schema : Schema} (hmem : schema ∈ schemas) :
    hasDeclarationName schema.name = true := by
  induction h with
  | nil => cases hmem
  | snoc _ hname _ ih =>
    rcases List.mem_append.mp hmem with hmem | hmem
    · exact ih hmem
    · rw [List.mem_singleton.mp hmem]
      exact hname

end Listed

namespace RustType

variable {ι : Type} {types : ι → DerivedType ι}

/-- A result from this stack leaves the stack as it is, and has the property. -/
def Yields {α : Type} (stack : List Str) (P : α → Prop) (x : WithStack α) : Prop :=
  ∀ a after, x.run stack = some (.ok a, after) → after = stack ∧ P a

variable {α β : Type} {stack : List Str} {P : α → Prop} {Q : β → Prop}

theorem Yields.pure {a : α} (h : P a) : Yields stack P (pure a) := by
  intro a' after hrun
  cases hrun
  exact ⟨rfl, h⟩

/-- The next computation may use where its input comes from. -/
theorem Yields.bind {x : WithStack α} {f : α → WithStack β} (hx : Yields stack P x)
    (hf : ∀ a, P a → x.run stack = some (.ok a, stack) → Yields stack Q (f a)) :
    Yields stack Q (x >>= f) := by
  intro b after hrun
  change (x.run stack).bind _ = _ at hrun
  cases hr : x.run stack with
  | none =>
    rw [hr] at hrun
    cases hrun
  | some r =>
    obtain ⟨result, middle⟩ := r
    rw [hr] at hrun
    cases result with
    | error error => cases hrun
    | ok a =>
      obtain ⟨rfl, ha⟩ := hx a middle hr
      exact hf a ha hr b after hrun

private theorem yields_withoutStack (built : Built α) : Yields stack (fun _ => True) (withoutStack built) := by
  intro a after hrun
  obtain ⟨result, -, hresult⟩ := Option.map_eq_some_iff.mp hrun
  exact ⟨(Prod.mk.inj hresult).2.symm, trivial⟩

/-- Pushing a type appends a list of schemas. -/
def PushesListed (push : RustType ι → List Schema → WithStack (List Schema)) : Prop :=
  ∀ stack ty dependencies, Yields stack
    (fun pushed => ∃ added, pushed = dependencies ++ added ∧ Listed added) (push ty dependencies)

variable {push : RustType ι → List Schema → WithStack (List Schema)}

theorem yields_schemaDependencies (h : PushesListed push) (stack : List Str) (ty : RustType ι) :
    Yields stack Listed (schemaDependencies types push ty) := by
  have hall : ∀ (todo : List (RustType ι)) (dependencies : List Schema), Listed dependencies →
      Yields stack Listed (todo.foldlM (fun dependencies ty => push ty dependencies) dependencies) := by
    intro todo
    induction todo with
    | nil => exact fun dependencies hlisted => .pure hlisted
    | cons ty todo ih =>
      intro dependencies hlisted
      rw [List.foldlM_cons]
      refine (h stack ty dependencies).bind ?_
      rintro pushed ⟨added, rfl, hadded⟩ -
      exact ih _ (hlisted.append hadded)
  exact hall _ [] .nil

theorem yields_schemaWith (h : PushesListed push) (stack : List Str) (fuel : Nat)
    (ty : RustType ι) : Yields stack (fun schema => ∃ tsType dependencies,
      schema = .mk (ty.schemaName types) tsType dependencies ∧ Listed dependencies ∧
        (schemaDependencies types push ty).run stack = some (.ok dependencies, stack))
      (schemaWith types push fuel ty) := by
  refine (yields_withoutStack _).bind fun tsType _ _ => ?_
  refine (yields_schemaDependencies h stack ty).bind fun dependencies hlisted hrun => .pure ?_
  exact ⟨tsType, dependencies, rfl, hlisted, hrun⟩

theorem yields_pushEntered (h : PushesListed push) (stack : List Str) (fuel : Nat)
    (ty : RustType ι) (dependencies : List Schema) : Yields stack
      (fun pushed => ∃ added, pushed = dependencies ++ added ∧ Listed added)
      (pushEntered types push fuel ty dependencies) := by
  refine (yields_schemaDependencies h stack ty).bind fun inner hinner hrun => ?_
  refine (yields_schemaWith h stack fuel ty).bind ?_
  rintro _ ⟨tsType, own, rfl, -, hrun'⟩ -
  -- The dependencies are gathered twice, from one stack.
  obtain rfl : inner = own := by
    have hsame := hrun.symm.trans hrun'
    simpa using hsame
  apply Yields.pure
  refine ⟨inner ++ if hasDeclarationName (ty.schemaName types) then
    [.mk (ty.schemaName types) tsType inner] else [], List.append_assoc .., ?_⟩
  split_ifs with hname
  · exact hinner.snoc hname fun other hother => hinner.mem_names hother
  · rw [List.append_nil]
    exact hinner

theorem yields_guarded {name : Str} {body : WithStack α} (h : Yields (name :: stack) P body) :
    Yields stack P (guarded name body) := by
  intro a after hrun
  change (body.run (name :: stack)).bind _ = _ at hrun
  cases hr : body.run (name :: stack) with
  | none =>
    rw [hr] at hrun
    cases hrun
  | some r =>
    obtain ⟨result, middle⟩ := r
    rw [hr] at hrun
    cases hrun
    obtain ⟨rfl, ha⟩ := h a middle hr
    exact ⟨rfl, ha⟩

theorem pushesListed (types : ι → DerivedType ι) (fuel : Nat) :
    PushesListed (pushSchemaDependency types fuel) := by
  induction fuel with
  | zero =>
    intro stack ty dependencies pushed after hrun
    cases hrun
  | succ fuel ih =>
    intro stack ty dependencies
    unfold pushSchemaDependency
    dsimp only
    have hentered := fun stack =>
      @yields_pushEntered _ types _ ih stack fuel ty dependencies
    split_ifs with hname
    · intro pushed after hrun
      change (if ty.schemaName types ∈ stack then pure dependencies
        else guarded (ty.schemaName types) _ : WithStack _).run stack = _ at hrun
      split_ifs at hrun
      · cases hrun
        exact ⟨rfl, [], (List.append_nil _).symm, .nil⟩
      · exact yields_guarded (hentered (ty.schemaName types :: stack)) pushed after hrun
    · exact hentered stack

theorem listed_of_schema {fuel : Nat} {ty : RustType ι} {stack after : List Str} {built : Schema}
    (h : (schema types fuel ty).run stack = some (.ok built, after)) :
    Listed built.dependencies := by
  obtain ⟨-, tsType, dependencies, rfl, hlisted, -⟩ :=
    yields_schemaWith (pushesListed types fuel) stack fuel ty built after h
  exact hlisted

end RustType

end RustTS.Contract
