import RustTS.Contract.SchemaClosure
import RustTS.Registry.GeneratedPaths
import RustTS.Registry.ListedTypes
import RustTS.Registry.SdkReferences

/-! Whether each type that the declarations and the SDK refer to is declared there: exactly where
what schemas without a name refer to is listed elsewhere. -/
namespace RustTS.Registry
open RustTS.Contract Sdk

variable {descriptors : List (HostContractDescriptor Schema)}

/-- Some schema of a descriptor, at any depth, has this name. -/
def KnownType (descriptors : List (HostContractDescriptor Schema)) (name : Str) : Prop :=
  hasDeclarationName name = true ∧
    name ∈ schemaNames (descriptors.flatMap fun d => d.schema :: abiSchemas d.abi)

/-- Every known type that is referred to has a `type` statement, and no type is declared twice. -/
structure TypesClosed (known : Str → Prop) (refs statements types : List Str) : Prop where
  declared : ∀ name ∈ refs, known name → name ∈ statements
  once : types.Nodup

/-- Both outputs are closed; in the SDK the models' classes are types too. -/
structure DeclarationsClosed (descriptors : List (HostContractDescriptor Schema)) : Prop where
  declarations : TypesClosed (KnownType descriptors)
    ((typescriptDeclarations descriptors).flatMap Declaration.refs)
    ((typescriptDeclarations descriptors).flatMap Declaration.typeNames)
    ((typescriptDeclarations descriptors).flatMap Declaration.typeNames)
  sdk : TypesClosed (KnownType descriptors)
    ((typescriptSdk descriptors).flatMap SdkStatement.typeRefs)
    ((typescriptSdk descriptors).flatMap SdkStatement.typeStatements)
    ((typescriptSdk descriptors).flatMap SdkStatement.typeNames)

/-- The names of the types that contracts list, and of the declarations' own types. -/
def namesAtHand (descriptors : List (HostContractDescriptor Schema)) : List Str :=
  (listedSchemas (pushedSchemas descriptors)).map Schema.name ++
    declarationTypes (!(eventNames descriptors).isEmpty)

/-- What a contract's type without a name refers to is listed for another one; so is what a listed
type refers to apart from its own dependencies; and no listed type takes a name of the outputs' own
types or of a model's class. -/
structure ReferencesListed (descriptors : List (HostContractDescriptor Schema)) : Prop where
  unnamed : ∀ schema ∈ pushedSchemas descriptors, isUnknownSchema schema = true →
    ∀ name ∈ schema.tsType.refs, KnownType descriptors name → name ∈ namesAtHand descriptors
  texts : ∀ schema ∈ listedSchemas (pushedSchemas descriptors),
    shapeOf (listedSchemas (pushedSchemas descriptors)) schema.name = some schema.tsType →
    ∀ name ∈ schema.tsType.refs, name ∉ schema.names → KnownType descriptors name →
      name ∈ namesAtHand descriptors
  own : ∀ schema ∈ listedSchemas (pushedSchemas descriptors), schema.name ∉
    fixedTypes (!(functionNames descriptors).isEmpty) (!(eventNames descriptors).isEmpty)
  classes : ∀ name tsType,
    shapeOf (listedSchemas (pushedSchemas descriptors)) name = some tsType →
    isModel tsType = true → ¬ KnownType descriptors (modelClassName name)

/-- Every schema is that of a type. -/
def FromTypes (descriptors : List (HostContractDescriptor Schema)) : Prop :=
  ∀ schema ∈ pushedSchemas descriptors, ∃ (ι : Type) (types : ι → DerivedType ι) (ty : RustType ι),
    RustType.HasSchema types ty schema

theorem FromTypes.listed (h : FromTypes descriptors) :
    ∀ schema ∈ pushedSchemas descriptors, Listed schema.dependencies := by
  intro schema hmem
  obtain ⟨ι, types, ty, N, hschema⟩ := h schema hmem
  exact RustType.listed_of_schema (hschema N le_rfl)

theorem names_mem_schemaNames {schemas : List Schema} {schema : Schema} (h : schema ∈ schemas)
    {name : Str} (hname : name ∈ schema.names) : name ∈ schemaNames schemas := by
  induction schemas with
  | nil => cases h
  | cons schema' schemas ih =>
    rcases List.mem_cons.mp h with rfl | h
    · exact List.mem_append_left _ hname
    · exact List.mem_append_right _ (ih h)

/-- What is listed has all its dependencies listed, and every schema with a name is listed by it. -/
theorem listedSchemas_spec {schemas : List Schema}
    (h : ∀ schema ∈ schemas, Listed schema.dependencies) :
    (∀ schema ∈ listedSchemas schemas, ∀ name ∈ schema.names,
      name ∈ (listedSchemas schemas).map Schema.name) ∧
    ∀ schema ∈ schemas, isUnknownSchema schema = false →
      schema.name ∈ (listedSchemas schemas).map Schema.name := by
  suffices hfold : ∀ (schemas listed : List Schema),
      (∀ schema ∈ schemas, Listed schema.dependencies) →
      (∀ schema ∈ listed, ∀ name ∈ schema.names, name ∈ listed.map Schema.name) →
      let after := schemas.foldl (fun listed schema =>
        if isUnknownSchema schema = true ∨ schema.name ∈ listed.map Schema.name then listed
        else listed ++ schema :: schema.dependencies) listed
      (∀ schema ∈ after, ∀ name ∈ schema.names, name ∈ after.map Schema.name) ∧
        (∀ name ∈ listed.map Schema.name, name ∈ after.map Schema.name) ∧
        ∀ schema ∈ schemas, isUnknownSchema schema = false →
          schema.name ∈ after.map Schema.name by
    obtain ⟨hnames, -, hnamed⟩ := hfold schemas [] h (by simp)
    exact ⟨hnames, hnamed⟩
  intro schemas
  induction schemas with
  | nil =>
    intro listed _ hlisted
    exact ⟨hlisted, fun _ hname => hname, by simp⟩
  | cons schema schemas ih =>
    intro listed hschemas hlisted
    obtain ⟨own, tsType, dependencies⟩ := schema
    have hrest := fun schema hmem => hschemas schema (List.mem_cons_of_mem _ hmem)
    dsimp only
    rw [List.foldl_cons]
    split_ifs with hskip
    · obtain ⟨hnames, hkept, hnamed⟩ := ih listed hrest hlisted
      refine ⟨hnames, hkept, ?_⟩
      intro schema hmem hknown
      rcases List.mem_cons.mp hmem with rfl | hmem
      · rcases hskip with hunknown | hname
        · rw [hunknown] at hknown
          cases hknown
        · exact hkept _ hname
      · exact hnamed schema hmem hknown
    · have hdependencies : Listed dependencies := hschemas _ List.mem_cons_self
      obtain ⟨hnames, hkept, hnamed⟩ :=
        ih (listed ++ .mk own tsType dependencies :: dependencies) hrest (by
          intro schema hmem name hname
          rw [List.map_append, List.mem_append]
          rcases List.mem_append.mp hmem with hold | hnew
          · exact .inl (hlisted schema hold name hname)
          · right
            have hnode : name ∈ own :: schemaNames dependencies := by
              rcases List.mem_cons.mp hnew with rfl | hbelow
              · exact hname
              · exact List.mem_cons_of_mem _ (names_mem_schemaNames hbelow hname)
            rcases List.mem_cons.mp hnode with rfl | hbelow
            · exact List.mem_cons_self
            · exact List.mem_cons_of_mem _ (hdependencies.mem_names hbelow))
      refine ⟨hnames, ?_, ?_⟩
      · intro name hname
        apply hkept
        rw [List.map_append]
        exact List.mem_append_left _ hname
      · intro schema hmem hknown
        rcases List.mem_cons.mp hmem with rfl | hmem
        · apply hkept
          rw [List.map_append]
          exact List.mem_append_right _ List.mem_cons_self
        · exact hnamed schema hmem hknown

theorem mem_listedSchemas {schemas : List Schema} {schema : Schema}
    (h : schema ∈ listedSchemas schemas) :
    ∃ top ∈ schemas, isUnknownSchema top = false ∧ (schema = top ∨ schema ∈ top.dependencies) := by
  suffices hfold : ∀ (schemas listed : List Schema), schema ∈ schemas.foldl (fun listed schema =>
        if isUnknownSchema schema = true ∨ schema.name ∈ listed.map Schema.name then listed
        else listed ++ schema :: schema.dependencies) listed →
      schema ∈ listed ∨ ∃ top ∈ schemas, isUnknownSchema top = false ∧
        (schema = top ∨ schema ∈ top.dependencies) by
    exact (hfold schemas [] h).resolve_left nofun
  intro schemas
  induction schemas with
  | nil => exact fun listed => Or.inl
  | cons top schemas ih =>
    intro listed hmem
    rw [List.foldl_cons] at hmem
    rcases ih _ hmem with hlisted | ⟨top', htop', hfrom⟩
    · split_ifs at hlisted with hskip
      · exact .inl hlisted
      · rcases List.mem_append.mp hlisted with hold | hnew
        · exact .inl hold
        · have hnamed : isUnknownSchema top = false :=
            Bool.eq_false_of_not_eq_true fun hunknown => hskip (.inl hunknown)
          exact .inr ⟨top, List.mem_cons_self, hnamed, List.mem_cons.mp hnew⟩
    · exact .inr ⟨top', List.mem_cons_of_mem _ htop', hfrom⟩

theorem known_of_listed (h : FromTypes descriptors) {name : Str}
    (hname : name ∈ (listedSchemas (pushedSchemas descriptors)).map Schema.name) :
    KnownType descriptors name := by
  obtain ⟨schema, hmem, rfl⟩ := List.mem_map.mp hname
  obtain ⟨⟨own, tsType, dependencies⟩, htop, hnamed, hfrom⟩ := mem_listedSchemas hmem
  obtain ⟨d, hd, habi⟩ := List.mem_flatMap.mp htop
  have hall : Schema.mk own tsType dependencies ∈
      descriptors.flatMap fun d => d.schema :: abiSchemas d.abi :=
    List.mem_flatMap.mpr ⟨d, hd, List.mem_cons_of_mem _ habi⟩
  rcases hfrom with rfl | hbelow
  · refine ⟨by simpa [isUnknownSchema] using hnamed, ?_⟩
    exact names_mem_schemaNames hall List.mem_cons_self
  · refine ⟨(h.listed _ htop).declared hbelow, ?_⟩
    apply names_mem_schemaNames hall
    exact List.mem_cons_of_mem _ (name_mem_schemaNames (List.mem_map_of_mem hbelow))

theorem FromTypes.shows (h : FromTypes descriptors) :
    Shows (declaredTypes descriptors) (listedSchemas (pushedSchemas descriptors)) :=
  shows_listedSchemas h.listed

theorem FromTypes.mem_names (h : FromTypes descriptors) {name : Str} :
    name ∈ (declaredTypes descriptors).names ↔
      name ∈ (listedSchemas (pushedSchemas descriptors)).map Schema.name := by
  rw [← (declaredTypes_spec descriptors).2, h.shows.emitted]

theorem FromTypes.mem_models (h : FromTypes descriptors) {name : Str} :
    name ∈ models (declaredTypes descriptors) ↔
      ∃ tsType, shapeOf (listedSchemas (pushedSchemas descriptors)) name = some tsType ∧
        isModel tsType = true := by
  rw [Sdk.mem_models, List.mem_map]
  constructor
  · rintro ⟨⟨other, tsType⟩, he, rfl⟩
    obtain ⟨hmem, hmodel⟩ := List.mem_filter.mp he
    exact ⟨tsType, h.shows.sections.mp hmem, hmodel⟩
  · rintro ⟨tsType, hshape, hmodel⟩
    exact ⟨(name, tsType), List.mem_filter.mpr ⟨h.shows.sections.mpr hshape, hmodel⟩, rfl⟩

theorem refs_schemaTypeName {schema : Schema} :
    (schemaTypeName schema).refs =
      if isUnknownSchema schema then schema.tsType.refs else [schema.name] := by
  unfold schemaTypeName
  cases isUnknownSchema schema <;> rfl

theorem RefersTo.atHand (h : FromTypes descriptors) (hlisted : ReferencesListed descriptors)
    {name : Str} (hrefers : RefersTo descriptors name) (hknown : KnownType descriptors name) :
    name ∈ namesAtHand descriptors := by
  obtain ⟨hnames, hnamed⟩ := listedSchemas_spec h.listed
  rcases hrefers with ⟨⟨own, tsType⟩, he, hrefs⟩ | ⟨schema, hmem, hrefs⟩
  · have hshape := h.shows.sections.mp he
    obtain ⟨schema, hfind, rfl⟩ := Option.map_eq_some_iff.mp hshape
    have hmem := List.mem_of_find?_eq_some hfind
    obtain rfl : schema.name = own := by simpa using List.find?_some hfind
    by_cases hown : name ∈ schema.names
    · exact List.mem_append_left _ (hnames schema hmem name hown)
    · exact hlisted.texts schema hmem hshape name hrefs hown hknown
  · rw [refs_schemaTypeName] at hrefs
    cases hunknown : isUnknownSchema schema with
    | true =>
      rw [hunknown] at hrefs
      exact hlisted.unnamed schema hmem hunknown name hrefs hknown
    | false =>
      rw [hunknown] at hrefs
      obtain rfl := List.mem_singleton.mp hrefs
      exact List.mem_append_left _ (hnamed schema hmem hunknown)

theorem declarationTypes_subset (functions events : Bool) :
    declarationTypes events ⊆ fixedTypes functions events := by
  cases functions <;> cases events <;> decide

private theorem nodup_declarationTypes (events : Bool) : (declarationTypes events).Nodup := by
  cases events <;> decide

/-- What the SDK is made of. -/
structure SdkParts (descriptors : List (HostContractDescriptor Schema)) : Prop where
  refs : ∀ name ∈ (typescriptSdk descriptors).flatMap SdkStatement.typeRefs,
    RefersTo descriptors name ∨
      (∃ m ∈ models (declaredTypes descriptors), name = m ∨ name = modelClassName m) ∨
      name ∈ fixedTypes (!(functionNames descriptors).isEmpty) (!(eventNames descriptors).isEmpty)
  classes : ∀ m ∈ models (declaredTypes descriptors),
    modelClassName m ∈ (typescriptSdk descriptors).flatMap SdkStatement.typeRefs
  statements : ∀ name, name ∈ (typescriptSdk descriptors).flatMap SdkStatement.typeStatements ↔
    name ∈ (declaredTypes descriptors).names ∨
      name ∈ fixedTypes (!(functionNames descriptors).isEmpty) (!(eventNames descriptors).isEmpty)
  once : ((typescriptSdk descriptors).flatMap SdkStatement.typeNames).Nodup ↔
    TypesKept (declaredTypes descriptors).names (models (declaredTypes descriptors))
      (fixedTypes (!(functionNames descriptors).isEmpty) (!(eventNames descriptors).isEmpty))

theorem sdkParts (descriptors : List (HostContractDescriptor Schema)) : SdkParts descriptors := by
  have hholds : (descriptors.foldl SdkBuilder.pushDescriptor .empty).Holds fun ty =>
      ∀ name ∈ ty.refs, RefersTo descriptors name := by
    apply holds_foldl
    · exact ⟨.nil _, .nil _, .nil _, .nil _, .nil _⟩
    · exact fun schema hmem name hname => .inr ⟨schema, hmem, hname⟩
  have hschemas : (descriptors.foldl SdkBuilder.pushDescriptor .empty).schemas =
      declaredTypes descriptors := schemas_foldl .empty
  have hfunctions : (descriptors.foldl SdkBuilder.pushDescriptor .empty).hostFunctions.isEmpty =
      (functionNames descriptors).isEmpty :=
    (hostFunctions_isEmpty .empty).trans (Bool.true_and _)
  have hhostEvents : (descriptors.foldl SdkBuilder.pushDescriptor .empty).hasEvents =
      !(eventNames descriptors).isEmpty :=
    congrArg _ ((hostEvents_isEmpty .empty).trans (Bool.true_and _))
  have hevents : (descriptors.foldl SdkBuilder.pushDescriptor .empty).events.isEmpty =
      (eventNames descriptors).isEmpty := by
    rw [events_foldl]
    exact isEmpty_namedEntries
  have hsections : ∀ name, (∃ e ∈ (declaredTypes descriptors).sections, name ∈ e.2.refs) →
      RefersTo descriptors name := fun _ => .inl
  have honce := (declaredTypes_spec descriptors).1
  have hfinish : typescriptSdk descriptors =
      (descriptors.foldl SdkBuilder.pushDescriptor .empty).finish := rfl
  generalize descriptors.foldl SdkBuilder.pushDescriptor .empty = b at *
  have hnone : b.events.isEmpty = !b.hasEvents := by rw [hevents, hhostEvents, Bool.not_not]
  constructor <;> rw [hfinish, ← hschemas]
  · intro name hname
    rw [← hfunctions, ← hhostEvents]
    rcases mem_refs_finish hholds hnone hname with hsection | ⟨ty, hrefers, hrefs⟩ | hrest
    · exact .inl (hsections name (hschemas ▸ hsection))
    · exact .inl (hrefers name hrefs)
    · exact .inr hrest
  · exact fun m hm => modelClassName_mem_refs hm
  · intro name
    rw [← hfunctions, ← hhostEvents]
    exact mem_typeStatements_finish
  · rw [← hfunctions, ← hhostEvents, (typeNames_perm b).nodup_iff]
    exact nodup_types _ _ (hschemas ▸ honce) (nodup_models b.schemas)

/-- Exactly where references are listed are the declarations and the SDK closed. -/
theorem declarationsClosed_iff (h : FromTypes descriptors) :
    DeclarationsClosed descriptors ↔ ReferencesListed descriptors := by
  have hparts := sdkParts descriptors
  have hatHand : ∀ {name}, name ∈ namesAtHand descriptors →
      name ∈ (typescriptSdk descriptors).flatMap SdkStatement.typeStatements := by
    intro name hname
    rw [hparts.statements, h.mem_names]
    rcases List.mem_append.mp hname with hlisted | hown
    · exact .inl hlisted
    · exact .inr (declarationTypes_subset _ _ hown)
  have hdeclared : ∀ {name}, name ∈ namesAtHand descriptors ↔
      name ∈ (typescriptDeclarations descriptors).flatMap Declaration.typeNames := by
    intro name
    rw [typeNames_declarations, List.mem_append, h.mem_names]
    exact List.mem_append
  constructor
  · rintro ⟨⟨hdeclarations, -⟩, hsdk, honce⟩
    have hkept := hparts.once.mp honce
    refine ⟨?_, ?_, ?_, ?_⟩
    · intro schema hmem hunknown name hname hknown
      apply hdeclared.mpr
      apply hdeclarations name _ hknown
      apply RefersTo.mem_declarations
      refine .inr ⟨schema, hmem, ?_⟩
      rw [refs_schemaTypeName, hunknown]
      exact hname
    · intro schema _ hshape name hname _ hknown
      apply hdeclared.mpr
      apply hdeclarations name _ hknown
      apply RefersTo.mem_declarations
      exact .inl ⟨(schema.name, schema.tsType), h.shows.sections.mpr hshape, hname⟩
    · intro schema hmem
      exact (hkept _ (h.mem_names.mpr (List.mem_map_of_mem hmem))).1
    · intro name tsType hshape hmodel hknown
      have hm := h.mem_models.mpr ⟨tsType, hshape, hmodel⟩
      rcases (hparts.statements _).mp (hsdk _ (hparts.classes _ hm) hknown) with hname | hown
      · exact (hkept _ hname).2 name hm rfl
      · exact modelClassName_notMem_fixedTypes name _ _ hown
  · intro hlisted
    have hfixed : ∀ name ∈ (declaredTypes descriptors).names, name ∉
        fixedTypes (!(functionNames descriptors).isEmpty) (!(eventNames descriptors).isEmpty) := by
      intro name hname
      obtain ⟨schema, hmem, rfl⟩ := List.mem_map.mp (h.mem_names.mp hname)
      exact hlisted.own schema hmem
    refine ⟨⟨?_, ?_⟩, ?_, ?_⟩
    · intro name hname hknown
      rcases mem_refs_declarations hname with hrefers | hown
      · exact hdeclared.mp (hrefers.atHand h hlisted hknown)
      · exact hdeclared.mp (List.mem_append_right _ hown)
    · rw [typeNames_declarations]
      refine List.nodup_append'.mpr
        ⟨(declaredTypes_spec descriptors).1, nodup_declarationTypes _, ?_⟩
      exact fun name hname hown => hfixed name hname (declarationTypes_subset _ _ hown)
    · intro name hname hknown
      rcases hparts.refs name hname with hrefers | ⟨m, hm, hname | hname⟩ | hown
      · exact hatHand (hrefers.atHand h hlisted hknown)
      · rw [hparts.statements, hname]
        left
        obtain ⟨tsType, hshape, -⟩ := h.mem_models.mp hm
        exact List.mem_map_of_mem (f := Prod.fst) (h.shows.sections.mpr hshape)
      · obtain ⟨tsType, hshape, hmodel⟩ := h.mem_models.mp hm
        rw [hname] at hknown
        exact absurd hknown (hlisted.classes m tsType hshape hmodel)
      · exact (hparts.statements name).mpr (.inr hown)
    · rw [hparts.once]
      intro name hname
      refine ⟨hfixed name hname, ?_⟩
      rintro m hm rfl
      obtain ⟨tsType, hshape, hmodel⟩ := h.mem_models.mp hm
      exact hlisted.classes m tsType hshape hmodel (known_of_listed h (h.mem_names.mp hname))

/-- `struct User { name: String }`. -/
def userTypes : Fin 1 → DerivedType (Fin 1) := fun _ =>
  RustType.plainStruct "User".toList (.struct [RustType.plainField "name".toList .string])

def userSchema : Schema :=
  .mk "User".toList (.object [.mk "name".toList .string false]) []

/-- The schema of `Vec<User>`. -/
def usersSchema : Schema := .mk "unknown".toList (.array (.typeRef "User".toList)) [userSchema]

private theorem hasSchema_user : RustType.HasSchema userTypes (.named 0) userSchema := by
  refine ⟨2, fun fuel hfuel => ?_⟩
  obtain ⟨n, rfl⟩ := Nat.exists_eq_add_of_le' hfuel
  rfl

private theorem hasSchema_users : RustType.HasSchema userTypes (.list (.named 0)) usersSchema := by
  refine ⟨3, fun fuel hfuel => ?_⟩
  obtain ⟨n, rfl⟩ := Nat.exists_eq_add_of_le' hfuel
  rfl

theorem fromTypes_users {schemas : List Schema} (hschemas : schemas ⊆ [userSchema, usersSchema])
    (h : pushedSchemas descriptors = schemas) : FromTypes descriptors := by
  intro schema hmem
  rw [h] at hmem
  rcases List.mem_cons.mp (hschemas hmem) with rfl | hmem
  · exact ⟨Fin 1, userTypes, .named 0, hasSchema_user⟩
  · rw [List.mem_singleton.mp hmem]
    exact ⟨Fin 1, userTypes, .list (.named 0), hasSchema_users⟩

/-- `fn(User) -> Vec<User>`: the input declares what the output refers to. -/
theorem declarationsClosed_peers : DeclarationsClosed
    [functionDescriptor (hostContract .function "peers".toList) nullSchema userSchema usersSchema
      false] := by
  refine (declarationsClosed_iff
    (fromTypes_users (List.Subset.refl [userSchema, usersSchema]) rfl)).mpr ⟨?_, ?_, ?_, ?_⟩
  · have hatHand : ∀ schema ∈ [userSchema, usersSchema], ∀ name ∈ schema.tsType.refs,
        name ∈ namesAtHand [functionDescriptor (hostContract .function "peers".toList) nullSchema
          userSchema usersSchema false] := by decide
    exact fun schema hmem _ name hname _ => hatHand schema hmem name hname
  · have hnone : ∀ name ∈ userSchema.tsType.refs, name ∈ userSchema.names := by decide
    intro schema hmem _ name hname hown _
    rw [List.mem_singleton.mp hmem] at hname hown
    exact absurd (hnone name hname) hown
  · decide
  · rintro name tsType hshape - ⟨-, hclass⟩
    change shapeOf [userSchema] name = some tsType at hshape
    rw [shapeOf_cons] at hshape
    split_ifs at hshape with hname
    · rw [← hname] at hclass
      revert hclass
      decide
    · cases hshape

/-- A callback that takes a `Vec<User>` refers to `User`, which is not declared. -/
theorem users_not_declared :
    FromTypes [callbackDescriptor (hostContract .callback "users".toList) nullSchema usersSchema
      none] ∧
    ¬ DeclarationsClosed [callbackDescriptor (hostContract .callback "users".toList) nullSchema
      usersSchema none] := by
  constructor
  · exact fromTypes_users (List.subset_cons_self userSchema [usersSchema]) rfl
  · intro h
    have hdeclared := h.declarations.declared "User".toList (by decide) ⟨by decide, by decide⟩
    revert hdeclared
    decide

end RustTS.Registry
