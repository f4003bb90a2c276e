import RustTS.Contract.SchemaListing
import RustTS.Registry.SchemaSections

/-! Which types are declared, and with which shapes, where every schema lists what it depends on. -/
namespace RustTS.Registry
open RustTS.Contract

/-- The schemas that top-level schemas list: each one that has a name, unless the name is listed,
with all that it depends on. -/
def listedSchemas (schemas : List Schema) : List Schema :=
  schemas.foldl (fun listed schema =>
    if isUnknownSchema schema = true ∨ schema.name ∈ listed.map Schema.name then listed
    else listed ++ schema :: schema.dependencies) []

/-- The shape of the first schema of a name. -/
def shapeOf (listed : List Schema) (name : Str) : Option TsType :=
  (listed.find? fun schema => schema.name = name).map Schema.tsType

theorem shapeOf_append (schemas schemas' : List Schema) (name : Str) :
    shapeOf (schemas ++ schemas') name = (shapeOf schemas name).or (shapeOf schemas' name) := by
  unfold shapeOf
  rw [List.find?_append]
  cases schemas.find? fun schema => schema.name = name <;> rfl

theorem shapeOf_eq_none {schemas : List Schema} {name : Str} :
    shapeOf schemas name = none ↔ name ∉ schemas.map Schema.name := by
  unfold shapeOf
  rw [Option.map_eq_none_iff, List.find?_eq_none]
  simp only [decide_eq_true_eq, List.mem_map, not_exists, not_and]

theorem shapeOf_cons (schema : Schema) (schemas : List Schema) (name : Str) :
    shapeOf (schema :: schemas) name =
      if schema.name = name then some schema.tsType else shapeOf schemas name := by
  unfold shapeOf
  rw [List.find?_cons]
  by_cases h : schema.name = name <;> simp [h]

/-- From `s` to `s'` the types of the schemas are declared, each under its name's first shape. -/
structure Pushed (s s' : SchemaSections) (schemas : List Schema) : Prop where
  emitted : ∀ {name}, name ∈ s'.emitted ↔ name ∈ s.emitted ∨ name ∈ schemas.map Schema.name
  sections : ∀ {name tsType}, (name, tsType) ∈ s'.sections ↔
    (name, tsType) ∈ s.sections ∨ name ∉ s.emitted ∧ shapeOf schemas name = some tsType

namespace Pushed
variable {s s' s'' : SchemaSections} {schemas schemas' : List Schema}

theorem nil (s : SchemaSections) : Pushed s s [] := by
  constructor
  · simp
  · simp [shapeOf]

theorem append (h : Pushed s s' schemas) (h' : Pushed s' s'' schemas') :
    Pushed s s'' (schemas ++ schemas') := by
  constructor
  · intro name
    rw [h'.emitted, h.emitted, List.map_append, List.mem_append, or_assoc]
  · intro name tsType
    rw [h'.sections, h.sections, h.emitted, shapeOf_append, or_assoc, not_or]
    cases hshape : shapeOf schemas name with
    | none =>
      have hnot := shapeOf_eq_none.mp hshape
      simp [hnot]
    | some tsType' =>
      have hmem : name ∈ schemas.map Schema.name := by
        by_contra hnot
        rw [shapeOf_eq_none.mpr hnot] at hshape
        cases hshape
      simp [hmem]

end Pushed

theorem pushSchemas_emitted {schemas : List Schema} {s : SchemaSections}
    (h : ∀ name ∈ schemas.map Schema.name, name ∈ s.emitted) : pushSchemas schemas s = s := by
  induction schemas with
  | nil => rfl
  | cons schema schemas ih =>
    obtain ⟨name, tsType, dependencies⟩ := schema
    have hname : name ∈ s.emitted := h name List.mem_cons_self
    have hsame : pushSchema (.mk name tsType dependencies) s = s := by
      unfold pushSchema
      exact if_neg fun hnew => hnew.2 hname
    show pushSchemas schemas (pushSchema _ s) = s
    rw [hsame]
    exact ih fun name hmem => h name (List.mem_cons_of_mem _ hmem)

theorem pushSchema_pushed {name : Str} {tsType : TsType} {dependencies schemas : List Schema}
    {s : SchemaSections} (hname : hasDeclarationName name = true) (hnew : name ∉ s.emitted)
    (h : Pushed { s with emitted := name :: s.emitted }
      (pushSchemas dependencies { s with emitted := name :: s.emitted }) schemas) :
    Pushed s (pushSchema (.mk name tsType dependencies) s)
      (.mk name tsType dependencies :: schemas) := by
  unfold pushSchema
  rw [if_pos ⟨hname, hnew⟩]
  constructor
  · intro other
    dsimp only
    rw [h.emitted, List.map_cons, List.mem_cons, List.mem_cons]
    show _ ↔ _ ∨ other = name ∨ _
    tauto
  · intro other shape
    dsimp only
    rw [List.mem_append, h.sections, shapeOf_cons, List.mem_singleton]
    show ((other, shape) ∈ s.sections ∨ other ∉ name :: s.emitted ∧ _) ∨ _ ↔
      _ ∨ _ ∧ (if name = other then some tsType else _) = _
    rw [List.mem_cons, not_or, Prod.mk.injEq]
    by_cases hother : name = other
    · subst hother
      simp [hnew, eq_comm]
    · simp [hother, Ne.symm hother]

theorem pushSchemas_listed {schemas : List Schema} (h : Listed schemas) (s : SchemaSections) :
    Pushed s (pushSchemas schemas s) schemas := by
  induction h with
  | nil => exact .nil s
  | @snoc schemas own name tsType _ hname hown ih =>
    rw [pushSchemas_append]
    apply ih.append
    generalize hs : pushSchemas schemas s = s' at ih
    show Pushed s' (pushSchema (.mk name tsType own) s') [.mk name tsType own]
    by_cases hnew : name ∈ s'.emitted
    · have hsame : pushSchema (.mk name tsType own) s' = s' := by
        unfold pushSchema
        exact if_neg fun h => h.2 hnew
      rw [hsame]
      constructor
      · intro other
        show _ ↔ _ ∨ other ∈ [name]
        rw [List.mem_singleton]
        constructor
        · exact Or.inl
        · rintro (hother | rfl)
          · exact hother
          · exact hnew
      · intro other shape
        rw [shapeOf_cons]
        constructor
        · exact Or.inl
        · rintro (hother | ⟨hnot, hshape⟩)
          · exact hother
          · split_ifs at hshape with heq
            · exact absurd (heq ▸ hnew) hnot
            · cases hshape
    · apply pushSchema_pushed hname hnew
      have hemitted : ∀ other ∈ own.map Schema.name,
          other ∈ (SchemaSections.mk (name :: s'.emitted) s'.sections).emitted := by
        intro other hother
        have hlisted := hown other (name_mem_schemaNames hother)
        exact List.mem_cons_of_mem _ (ih.emitted.mpr (.inr hlisted))
      rw [pushSchemas_emitted hemitted]
      exact .nil _

/-- The declared types are those of the listed schemas. -/
structure Shows (s : SchemaSections) (listed : List Schema) : Prop where
  emitted : ∀ {name}, name ∈ s.emitted ↔ name ∈ listed.map Schema.name
  sections : ∀ {name tsType}, (name, tsType) ∈ s.sections ↔ shapeOf listed name = some tsType

theorem Shows.pushed {s s' : SchemaSections} {listed schemas : List Schema} (h : Shows s listed)
    (hpushed : Pushed s s' schemas) : Shows s' (listed ++ schemas) := by
  constructor
  · intro name
    rw [hpushed.emitted, h.emitted, List.map_append, List.mem_append]
  · intro name tsType
    rw [hpushed.sections, h.sections, h.emitted, shapeOf_append]
    cases hshape : shapeOf listed name with
    | none =>
      have hnot := shapeOf_eq_none.mp hshape
      simp [hnot]
    | some tsType' =>
      have hmem : name ∈ listed.map Schema.name := by
        by_contra hnot
        rw [shapeOf_eq_none.mpr hnot] at hshape
        cases hshape
      simp [hmem]

/-- Pushing schemas declares those they list. -/
theorem shows_listedSchemas {schemas : List Schema}
    (h : ∀ schema ∈ schemas, Listed schema.dependencies) :
    Shows (pushSchemas schemas ⟨[], []⟩) (listedSchemas schemas) := by
  have hall : ∀ (schemas : List Schema) (s : SchemaSections) (listed : List Schema),
      (∀ schema ∈ schemas, Listed schema.dependencies) → Shows s listed →
      Shows (pushSchemas schemas s) (schemas.foldl (fun listed schema =>
        if isUnknownSchema schema = true ∨ schema.name ∈ listed.map Schema.name then listed
        else listed ++ schema :: schema.dependencies) listed) := by
    intro schemas
    induction schemas with
    | nil => exact fun _ _ _ hs => hs
    | cons schema schemas ih =>
      intro s listed hlisted hs
      obtain ⟨name, tsType, dependencies⟩ := schema
      have hdependencies : Listed dependencies := hlisted _ List.mem_cons_self
      have hrest := fun schema hmem => hlisted schema (List.mem_cons_of_mem _ hmem)
      rw [List.foldl_cons]
      show Shows (pushSchemas schemas (pushSchema (.mk name tsType dependencies) s)) _
      split_ifs with hskip
      · apply ih _ _ hrest
        have hsame : pushSchema (.mk name tsType dependencies) s = s := by
          unfold pushSchema
          apply if_neg
          rintro ⟨hname, hnew⟩
          rcases hskip with hunknown | hmem
          · unfold isUnknownSchema Schema.name at hunknown
            rw [hname] at hunknown
            cases hunknown
          · exact hnew (hs.emitted.mpr hmem)
        rw [hsame]
        exact hs
      · obtain ⟨hname, hnew⟩ := not_or.mp hskip
        apply ih _ _ hrest
        apply hs.pushed
        apply pushSchema_pushed
        · simpa [isUnknownSchema, Schema.name] using hname
        · exact fun hmem => hnew (hs.emitted.mp hmem)
        · exact pushSchemas_listed hdependencies _
  apply hall schemas _ _ h
  constructor
  · simp
  · simp [shapeOf]

end RustTS.Registry
