import RustTS.Registry.SdkTopLevel

/-! The type names that the declarations refer to and declare by `type`. -/
namespace RustTS.Registry
open RustTS.Contract

variable {descriptors : List (HostContractDescriptor Schema)}

/-- The schemas that are pushed. -/
def pushedSchemas (descriptors : List (HostContractDescriptor Schema)) : List Schema :=
  descriptors.flatMap fun d => abiSchemas d.abi

/-- A declared type or a contract's own type refers to the name. -/
def RefersTo (descriptors : List (HostContractDescriptor Schema)) (name : Str) : Prop :=
  (∃ e ∈ (declaredTypes descriptors).sections, name ∈ e.2.refs) ∨
    ∃ schema ∈ pushedSchemas descriptors, name ∈ (schemaTypeName schema).refs

namespace DeclarationBuffer

mutual

theorem pushSchema_split : ∀ (schema : Schema) (emitted : List Str) (old : List (Str × TsType)),
    pushSchema schema ⟨emitted, old⟩ =
      ⟨(pushSchema schema ⟨emitted, []⟩).emitted, old ++ (pushSchema schema ⟨emitted, []⟩).sections⟩
  | .mk name tsType dependencies, emitted, old => by
    unfold pushSchema
    by_cases h : hasDeclarationName name = true ∧ name ∉ emitted
    · have hsplit := pushSchemas_split dependencies (name :: emitted)
      simp only [if_pos h]
      rw [hsplit old]
      simp only [List.append_assoc]
    · simp only [if_neg h, List.append_nil]

theorem pushSchemas_split : ∀ (schemas : List Schema) (emitted : List Str)
    (old : List (Str × TsType)),
    pushSchemas schemas ⟨emitted, old⟩ =
      ⟨(pushSchemas schemas ⟨emitted, []⟩).emitted,
        old ++ (pushSchemas schemas ⟨emitted, []⟩).sections⟩
  | [], emitted, old => by simp [pushSchemas]
  | schema :: schemas, emitted, old => by
    unfold pushSchemas
    rw [pushSchema_split schema emitted old]
    generalize pushSchema schema ⟨emitted, []⟩ = pushed
    obtain ⟨emitted', new⟩ := pushed
    rw [pushSchemas_split schemas emitted' (old ++ new), pushSchemas_split schemas emitted' new,
      List.append_assoc]

end

/-- The type names that the statements and the event maps so far refer to. -/
def typeRefs (b : DeclarationBuffer) : List Str :=
  b.statements.flatMap Declaration.refs ++ b.hostEvents.flatMap (·.2.refs) ++
    b.hostReplies.flatMap (·.2.refs)

/-- What a buffer holds after the schemas `pushed` and the events `events`. -/
structure Holds (b : DeclarationBuffer) (pushed : List Schema) (events : List Str) : Prop where
  schemas : b.schemas = pushSchemas pushed ⟨[], []⟩
  typeNames : b.statements.flatMap Declaration.typeNames = b.schemas.names
  refs : ∀ name, name ∈ b.typeRefs ↔
    (∃ e ∈ b.schemas.sections, name ∈ e.2.refs) ∨
      ∃ schema ∈ pushed, name ∈ (schemaTypeName schema).refs
  events : b.hostEvents.isEmpty = events.isEmpty
  replies : b.hostEvents = [] → b.hostReplies = []

variable {b : DeclarationBuffer} {pushed : List Schema} {events : List Str}

private theorem holds_empty : empty.Holds [] [] := by
  refine ⟨rfl, rfl, ?_, rfl, fun _ => rfl⟩
  simp [typeRefs, empty]

theorem flatMap_typeAlias {f : Declaration → List Str} {g : Str × TsType → List Str}
    (h : ∀ name tsType, f (.typeAlias name tsType) = g (name, tsType))
    (sections : List (Str × TsType)) :
    (sections.map fun e => Declaration.typeAlias e.1 e.2).flatMap f = sections.flatMap g := by
  rw [List.flatMap_map]
  apply List.flatMap_congr
  rintro ⟨name, tsType⟩ _
  exact h name tsType

/-- Pushing schemas declares their types, and so far refers to nothing else. -/
theorem Holds.push (h : b.Holds pushed events) (schemas : List Schema) :
    (b.push schemas).schemas = pushSchemas (pushed ++ schemas) ⟨[], []⟩ ∧
    (b.push schemas).statements.flatMap Declaration.typeNames = (b.push schemas).schemas.names ∧
    (∀ name, name ∈ (b.push schemas).typeRefs ↔
      (∃ e ∈ (b.push schemas).schemas.sections, name ∈ e.2.refs) ∨
        ∃ schema ∈ pushed, name ∈ (schemaTypeName schema).refs) := by
  unfold DeclarationBuffer.push
  dsimp only
  generalize hnew : pushSchemas schemas ⟨b.schemas.emitted, []⟩ = new
  refine ⟨?_, ?_, ?_⟩
  · rw [pushSchemas_append, ← h.schemas]
    obtain ⟨⟨emitted, sections⟩, _, _, _⟩ := b
    rw [pushSchemas_split schemas emitted sections]
    simp only at hnew
    rw [hnew]
  · rw [List.flatMap_append, h.typeNames,
      flatMap_typeAlias (g := fun e => [e.1]) (fun _ _ => rfl) new.sections]
    unfold SchemaSections.names
    rw [List.map_append, ← List.map_eq_flatMap]
  · intro name
    have hrefs := h.refs name
    unfold typeRefs at hrefs ⊢
    rw [List.flatMap_append, flatMap_typeAlias (g := fun e => e.2.refs) (fun _ _ => rfl) new.sections]
    simp only [List.mem_append, List.mem_flatMap] at hrefs ⊢
    constructor
    · rintro (((hold | ⟨e, he, hname⟩) | hold) | hold)
      · exact (hrefs.mp (.inl (.inl hold))).imp_left fun ⟨e, he, hname⟩ => ⟨e, .inl he, hname⟩
      · exact .inl ⟨e, .inr he, hname⟩
      · exact (hrefs.mp (.inl (.inr hold))).imp_left fun ⟨e, he, hname⟩ => ⟨e, .inl he, hname⟩
      · exact (hrefs.mp (.inr hold)).imp_left fun ⟨e, he, hname⟩ => ⟨e, .inl he, hname⟩
    · have hback : ((∃ e ∈ b.schemas.sections, name ∈ e.2.refs) ∨
          ∃ schema ∈ pushed, name ∈ (schemaTypeName schema).refs) → _ := hrefs.mpr
      rintro (⟨e, he | he, hname⟩ | hschema)
      · rcases hback (.inl ⟨e, he, hname⟩) with (hold | hold) | hold
        · exact .inl (.inl (.inl hold))
        · exact .inl (.inr hold)
        · exact .inr hold
      · exact .inl (.inl (.inr ⟨e, he, hname⟩))
      · rcases hback (.inr hschema) with (hold | hold) | hold
        · exact .inl (.inl (.inl hold))
        · exact .inl (.inr hold)
        · exact .inr hold

theorem mem_typeRefs_statement {statement : Declaration} {name : Str} :
    name ∈ typeRefs { b with statements := b.statements ++ [statement] } ↔
      name ∈ b.typeRefs ∨ name ∈ statement.refs := by
  unfold typeRefs
  rw [List.flatMap_append, List.flatMap_singleton]
  simp only [List.mem_append, or_assoc, or_comm, or_left_comm]

private theorem mem_typeRefs_event {entries replies : List (Str × TsType)} {name : Str} :
    name ∈ typeRefs { b with
      hostEvents := b.hostEvents ++ entries, hostReplies := b.hostReplies ++ replies } ↔
      name ∈ b.typeRefs ∨ name ∈ entries.flatMap (·.2.refs) ++ replies.flatMap (·.2.refs) := by
  unfold typeRefs
  dsimp only
  rw [List.flatMap_append, List.flatMap_append]
  simp only [List.mem_append, or_assoc, or_comm, or_left_comm]

theorem exists_mem_append {schemas schemas' : List Schema} {p : Schema → Prop} :
    (∃ schema ∈ schemas ++ schemas', p schema) ↔
      (∃ schema ∈ schemas, p schema) ∨ ∃ schema ∈ schemas', p schema := by
  simp only [List.mem_append, or_and_right, exists_or]

theorem Holds.pushDescriptor (h : b.Holds pushed events) (d : HostContractDescriptor Schema) :
    (b.pushDescriptor d).Holds (pushed ++ abiSchemas d.abi) (events ++ Sdk.eventNames [d]) := by
  obtain ⟨hschemas, hnames, hrefs⟩ := h.push (abiSchemas d.abi)
  have hevents : (b.push (abiSchemas d.abi)).hostEvents.isEmpty = events.isEmpty := h.events
  have hreplies : (b.push (abiSchemas d.abi)).hostEvents = [] →
      (b.push (abiSchemas d.abi)).hostReplies = [] := h.replies
  have hown : Sdk.eventNames [d] = ((Sdk.sdkEvent d).map fun _ => d.name).toList := by
    unfold Sdk.eventNames
    cases hevent : Sdk.sdkEvent d <;> simp [hevent]
  rw [hown]
  unfold DeclarationBuffer.pushDescriptor Sdk.sdkEvent
  generalize b.push (abiSchemas d.abi) = b' at hschemas hnames hrefs hevents hreplies ⊢
  cases habi : d.abi with
  | function input output returnsPromise =>
    rw [habi] at hschemas
    refine ⟨hschemas, ?_, ?_, by simpa using hevents, hreplies⟩
    · simpa [Declaration.typeNames] using hnames
    · intro name
      rw [mem_typeRefs_statement, hrefs, or_assoc, exists_mem_append]
      simp [abiSchemas, Declaration.refs, functionOutputType]
  | callback payload reply =>
    rw [habi] at hschemas
    refine ⟨hschemas, hnames, ?_, ?_, by simp⟩
    · intro name
      rw [mem_typeRefs_event, hrefs, or_assoc, exists_mem_append]
      cases reply <;> simp [abiSchemas]
    · show (b'.hostEvents ++ [_]).isEmpty = (events ++ [d.name]).isEmpty
      cases b'.hostEvents <;> cases events <;> rfl
  | context schema =>
    rw [habi] at hschemas
    refine ⟨hschemas, ?_, ?_, by simpa using hevents, hreplies⟩
    · simpa [Declaration.typeNames] using hnames
    · intro name
      rw [mem_typeRefs_statement, hrefs, or_assoc, exists_mem_append]
      simp [abiSchemas, Declaration.refs]
  | unknown =>
    rw [habi] at hschemas
    refine ⟨hschemas, hnames, ?_, by simpa using hevents, hreplies⟩
    intro name
    simpa [abiSchemas] using hrefs name

theorem holds_descriptors (descriptors : List (HostContractDescriptor Schema)) :
    (descriptors.foldl DeclarationBuffer.pushDescriptor .empty).Holds (pushedSchemas descriptors)
      (Sdk.eventNames descriptors) := by
  have hall : ∀ (descriptors : List (HostContractDescriptor Schema)) (b : DeclarationBuffer)
      (pushed : List Schema) (events : List Str), b.Holds pushed events →
      (descriptors.foldl DeclarationBuffer.pushDescriptor b).Holds
        (pushed ++ pushedSchemas descriptors) (events ++ Sdk.eventNames descriptors) := by
    intro descriptors
    induction descriptors with
    | nil =>
      intro b pushed events h
      simpa [pushedSchemas, Sdk.eventNames] using h
    | cons d descriptors ih =>
      intro b pushed events h
      have hrest := ih _ _ _ (h.pushDescriptor d)
      rw [List.append_assoc, List.append_assoc] at hrest
      have hnames : Sdk.eventNames [d] ++ Sdk.eventNames descriptors =
          Sdk.eventNames (d :: descriptors) := by
        unfold Sdk.eventNames
        rw [← List.filterMap_append]
        rfl
      rw [hnames] at hrest
      exact hrest
  have hfrom := hall descriptors _ _ _ holds_empty
  rwa [List.nil_append, List.nil_append] at hfrom

end DeclarationBuffer

/-- The declarations' own types. -/
def declarationTypes (events : Bool) : List Str :=
  (if events then ["HostEvents".toList, "HostReplies".toList] ++ Declaration.eventContextNames
    else []) ++ ["HostHotContext".toList]

theorem typeNames_declarations (descriptors : List (HostContractDescriptor Schema)) :
    (typescriptDeclarations descriptors).flatMap Declaration.typeNames =
      (declaredTypes descriptors).names ++
        declarationTypes (!(Sdk.eventNames descriptors).isEmpty) := by
  have h := DeclarationBuffer.holds_descriptors descriptors
  unfold typescriptDeclarations DeclarationBuffer.finish
  generalize descriptors.foldl DeclarationBuffer.pushDescriptor .empty = b at h ⊢
  have hschemas : b.schemas = declaredTypes descriptors := h.schemas
  dsimp only
  rw [List.flatMap_append, List.flatMap_append, h.typeNames, hschemas, h.events]
  unfold declarationTypes
  cases (Sdk.eventNames descriptors).isEmpty <;> simp [Declaration.typeNames]

/-- The declarations refer to what the descriptors do and to their own types, all of which are
there. -/
theorem mem_refs_declarations {name : Str} :
    name ∈ (typescriptDeclarations descriptors).flatMap Declaration.refs →
      RefersTo descriptors name ∨
        name ∈ declarationTypes (!(Sdk.eventNames descriptors).isEmpty) := by
  have h := DeclarationBuffer.holds_descriptors descriptors
  unfold typescriptDeclarations DeclarationBuffer.finish
  generalize descriptors.foldl DeclarationBuffer.pushDescriptor .empty = b at h ⊢
  have hschemas : b.schemas = declaredTypes descriptors := h.schemas
  have hrefs := h.refs name
  rw [hschemas] at hrefs
  have hrefers : name ∈ b.typeRefs → RefersTo descriptors name := hrefs.mp
  unfold DeclarationBuffer.typeRefs at hrefers
  unfold declarationTypes
  dsimp only
  rw [h.events, List.flatMap_append, List.flatMap_append, List.mem_append, List.mem_append]
  cases (Sdk.eventNames descriptors).isEmpty with
  | true =>
    rintro ((hmem | hmem) | hmem)
    · exact .inl (hrefers (List.mem_append_left _ (List.mem_append_left _ hmem)))
    · simp at hmem
    · right
      simpa [Declaration.refs, Declaration.ctxTypeRefs] using hmem
  | false =>
    rintro ((hmem | hmem) | hmem)
    · exact .inl (hrefers (List.mem_append_left _ (List.mem_append_left _ hmem)))
    · simp only [Bool.not_false, ↓reduceIte, List.flatMap_cons, List.flatMap_nil, List.append_nil,
        Declaration.refs, List.mem_append] at hmem
      rcases hmem with hevent | hreply | hown
      · exact .inl (hrefers (List.mem_append_left _ (List.mem_append_right _ hevent)))
      · exact .inl (hrefers (List.mem_append_right _ hreply))
      · right
        simp only [Bool.not_false, ↓reduceIte, List.mem_append]
        exact .inl hown
    · right
      simp only [Declaration.refs, Declaration.ctxTypeRefs, Bool.not_false, ↓reduceIte,
        List.flatMap_cons, List.flatMap_nil, List.append_nil, List.nil_append,
        List.mem_append, List.mem_singleton] at hmem ⊢
      unfold Declaration.eventContextNames
      rcases hmem with (rfl | rfl) | (rfl | rfl) <;> simp

/-- And they refer to all that the descriptors refer to. -/
theorem RefersTo.mem_declarations {name : Str} (hname : RefersTo descriptors name) :
    name ∈ (typescriptDeclarations descriptors).flatMap Declaration.refs := by
  have h := DeclarationBuffer.holds_descriptors descriptors
  unfold typescriptDeclarations DeclarationBuffer.finish
  generalize descriptors.foldl DeclarationBuffer.pushDescriptor .empty = b at h ⊢
  have hschemas : b.schemas = declaredTypes descriptors := h.schemas
  have hrefs := h.refs name
  rw [hschemas] at hrefs
  have hmem : name ∈ b.typeRefs := hrefs.mpr hname
  unfold DeclarationBuffer.typeRefs at hmem
  dsimp only
  rw [List.flatMap_append, List.flatMap_append]
  rcases List.mem_append.mp hmem with hmem | hreply
  · rcases List.mem_append.mp hmem with hstatement | hevent
    · exact List.mem_append_left _ (List.mem_append_left _ hstatement)
    · have hne : b.hostEvents.isEmpty = false := by
        rw [List.isEmpty_eq_false_iff]
        rintro hnil
        rw [hnil] at hevent
        cases hevent
      rw [hne]
      apply List.mem_append_left
      apply List.mem_append_right
      simp only [Bool.not_false, ↓reduceIte, List.flatMap_cons, Declaration.refs, List.mem_append]
      exact .inl hevent
  · have hne : b.hostEvents.isEmpty = false := by
      rw [List.isEmpty_eq_false_iff]
      rintro hnil
      rw [h.replies hnil] at hreply
      cases hreply
    rw [hne]
    apply List.mem_append_left
    apply List.mem_append_right
    simp only [Bool.not_false, ↓reduceIte, List.flatMap_cons, Declaration.refs, List.mem_append]
    exact .inr (.inl hreply)

end RustTS.Registry
