import RustTS.Registry.SchemaSections
import RustTS.Registry.SdkPaths
import RustTS.Registry.TopLevel

/-! The names at the top level of the SDK: exactly when each is a legal binding, declared once, and
every one that the aggregate refers to is declared. -/
namespace RustTS.Registry.Sdk
open RustTS.Contract SdkStatement

variable {descriptors : List (HostContractDescriptor Schema)} {d : HostContractDescriptor Schema}

/-- The SDK's own values; those for models, functions and events only where there are any. -/
def fixedValues (models functions events : Bool) : List Str :=
  (if models then runtimeHelperNames ++ ["models".toList] else []) ++
    (if functions then ["__host".toList, "__hostCall".toList, "call".toList] else []) ++
    ["__ctx".toList, "ctx".toList] ++ (if events then ["events".toList] else []) ++
    ["rusttsSdk".toList]

/-- The SDK's own types. -/
def fixedTypes (functions events : Bool) : List Str :=
  (if functions then ["HostFunctions".toList, "HostFunctionInput".toList,
    "HostFunctionOutput".toList, "HostFunctionArgs".toList] else []) ++
    (if events then
      ["HostEvents".toList, "HostReplies".toList] ++ Declaration.eventContextNames else []) ++
    ["HostHotContext".toList, "HostContext".toList]

/-- The roots of contexts that are exported: those that are a context's whole name. -/
def boundRoots {T : Type} : PathTree Str T → List Str
  | .nil => []
  | .cons name binding _ rest => (binding.map fun _ => name).toList ++ boundRoots rest

theorem flatMap_contextExports (contexts : PathTree Str SdkContext)
    (names : SdkStatement → List Str) (exported : Str → List Str)
    (h : ∀ name context, names (.contextExport name context) = exported name) :
    (contextExports contexts).flatMap names =
      (boundRoots contexts).flatMap fun root => exported (identifier root) := by
  induction contexts with
  | nil => rfl
  | cons name binding _ rest _ ih =>
    unfold contextExports boundRoots
    rw [List.flatMap_append, ih, List.flatMap_append]
    cases binding with
    | none => rfl
    | some context => simp [h]

/-- What the sections of the SDK contribute to a list of names. -/
theorem flatMap_finish (b : SdkBuilder) (names : SdkStatement → List Str)
    (exported : Str → List Str)
    (hcontext : ∀ name context, names (.contextExport name context) = exported name)
    (hdomain : ∀ name body, names (.domainExport name body) = exported name) :
    b.finish.flatMap names =
      (b.schemas.sections.flatMap fun e => names (.typeAlias e.1 e.2)) ++
      (if (models b.schemas).isEmpty then []
        else names (.modelRuntimeHelpers (models b.schemas))) ++
      ((models b.schemas).flatMap fun name => names (.modelClass name)) ++
      (if (models b.schemas).isEmpty then [] else names (.modelHelpers (models b.schemas))) ++
      (if b.hostFunctions.isEmpty then []
        else names .hostHelpers ++ names (.hostFunctionApi (entries b.hostFunctions))) ++
      (if b.hasEvents then
        names (.hostEventTypes (entries b.hostEvents) (entries b.hostReplies)) ++
          names .eventContext
        else []) ++
      names (.ctxExport b.hasEvents) ++
      ((boundRoots b.contexts).flatMap fun root => exported (identifier root)) ++
      ((domainTree b.functions b.events).keys.flatMap fun root => exported (identifier root)) ++
      (if b.events.isEmpty then [] else names (.eventsExport (renderMembers .first b.events))) ++
      names (.aggregate (!(models b.schemas).isEmpty) b.functions.keys (!b.events.isEmpty)
        b.contexts.keys) := by
  have hkeys : (renderExportedTree (domainTree b.functions b.events)).map (·.1) =
      (domainTree b.functions b.events).keys.map identifier := map_renderExports
  have hexports : ((renderExportedTree (domainTree b.functions b.events)).map
      fun e => SdkStatement.domainExport e.1 e.2).flatMap names =
        (domainTree b.functions b.events).keys.flatMap fun root => exported (identifier root) := by
    have hroots : ((domainTree b.functions b.events).keys.map identifier).flatMap exported =
        (domainTree b.functions b.events).keys.flatMap fun root => exported (identifier root) :=
      List.flatMap_map ..
    rw [← hroots, ← hkeys, List.flatMap_map, List.flatMap_map]
    simp only [hdomain]
  have hone : ∀ statement, [statement].flatMap names = names statement := fun _ =>
    List.flatMap_singleton ..
  have hpair : ∀ statement statement', [statement, statement'].flatMap names =
      names statement ++ names statement' := by
    intro statement statement'
    simp
  unfold SdkBuilder.finish
  simp only [List.flatMap_append, flatMap_contextExports b.contexts names exported hcontext,
    hexports, List.flatMap_map, hone, apply_ite (List.flatMap names), hpair, List.flatMap_nil]

theorem flatMap_const_nil {T : Type} {l : List T} : l.flatMap (fun _ => ([] : List Str)) = [] :=
  List.flatMap_eq_nil_iff.mpr fun _ _ => rfl

theorem valueNames_perm (b : SdkBuilder) :
    (b.finish.flatMap valueNames).Perm
      (fixedValues (!(models b.schemas).isEmpty) (!b.hostFunctions.isEmpty) (!b.events.isEmpty) ++
        (models b.schemas).map modelPredicateName ++ (models b.schemas).map modelClassName ++
        (boundRoots b.contexts).map identifier ++
        (domainTree b.functions b.events).keys.map identifier) := by
  rw [flatMap_finish b valueNames (fun name => [name]) (fun _ _ => rfl) fun _ _ => rfl]
  unfold fixedValues valueNames
  generalize models b.schemas = models
  have hhost : ["__host".toList, "__hostCall".toList] ++ ["call".toList] =
      ["__host".toList, "__hostCall".toList, "call".toList] := rfl
  apply List.perm_iff_count.mpr
  intro name
  cases models <;> cases b.hostFunctions.isEmpty <;> cases b.events.isEmpty <;>
    simp only [List.isEmpty_nil, List.isEmpty_cons, Bool.not_true, Bool.not_false, ↓reduceIte,
      Bool.false_eq_true, ite_self, hhost, List.append_nil, List.map_nil, List.count_append,
      List.count_nil, flatMap_const_nil, ← List.map_eq_flatMap] <;> omega

theorem typeNames_perm (b : SdkBuilder) :
    (b.finish.flatMap typeNames).Perm
      (b.schemas.names ++ (models b.schemas).map modelClassName ++
        fixedTypes (!b.hostFunctions.isEmpty) b.hasEvents) := by
  rw [flatMap_finish b typeNames (fun _ => []) (fun _ _ => rfl) fun _ _ => rfl]
  have hnames : (b.schemas.sections.flatMap fun e => [e.1]) = b.schemas.names :=
    List.map_eq_flatMap.symm
  have hclasses : ∀ names : List Str, (names.flatMap fun name => [modelClassName name]) =
      names.map modelClassName := fun _ => List.map_eq_flatMap.symm
  unfold fixedTypes typeNames
  generalize models b.schemas = models
  apply List.perm_iff_count.mpr
  intro name
  cases models <;> cases b.hostFunctions.isEmpty <;> cases b.hasEvents <;>
    simp only [List.isEmpty_nil, List.isEmpty_cons, Bool.not_true, Bool.not_false, ↓reduceIte,
      Bool.false_eq_true, ite_self, hnames, hclasses, List.nil_append, List.append_nil, List.map_nil,
      List.count_append, flatMap_const_nil] <;> omega

/-- The names of the SDK's own `export const` statements. -/
def fixedConsts (models events : Bool) : List Str :=
  (if models then ["models".toList] else []) ++ ["ctx".toList] ++
    (if events then ["events".toList] else []) ++ ["rusttsSdk".toList]

theorem exportConsts_perm (b : SdkBuilder) :
    (b.finish.flatMap exportConsts).Perm
      (fixedConsts (!(models b.schemas).isEmpty) (!b.events.isEmpty) ++
        (boundRoots b.contexts).map identifier ++
        (domainTree b.functions b.events).keys.map identifier) := by
  rw [flatMap_finish b exportConsts (fun name => [name]) (fun _ _ => rfl) fun _ _ => rfl]
  unfold fixedConsts exportConsts
  generalize models b.schemas = models
  apply List.perm_iff_count.mpr
  intro name
  cases models <;> cases b.events.isEmpty <;>
    simp only [List.isEmpty_nil, List.isEmpty_cons, Bool.not_true, Bool.not_false, ↓reduceIte,
      Bool.false_eq_true, ite_self, List.append_nil, List.count_append, List.count_nil,
      flatMap_const_nil, ← List.map_eq_flatMap] <;> omega

private theorem valueRefs_finish (b : SdkBuilder) :
    b.finish.flatMap valueRefs =
      valueRefs (.aggregate (!(models b.schemas).isEmpty) b.functions.keys (!b.events.isEmpty)
        b.contexts.keys) := by
  rw [flatMap_finish b valueRefs (fun _ => []) (fun _ _ => rfl) fun _ _ => rfl]
  simp only [valueRefs, flatMap_const_nil, ite_self, List.nil_append]

/-- No model is named as a helper, two models have no predicate in common, and no predicate is named
as a class. -/
structure ModelsKept (models : List Str) : Prop where
  helpers : ∀ m ∈ models, identifier m ∉ ["Record".toList, "ArrayOf".toList, "RecordOf".toList]
  apart : ∀ m ∈ models, ∀ m' ∈ models, identifier m = identifier m' → m = m'
  classes : ∀ m ∈ models, ∀ m' ∈ models, modelPredicateName m ≠ modelClassName m'

private theorem modelPredicateName_inj {m m' : Str} :
    modelPredicateName m = modelPredicateName m' ↔ identifier m = identifier m' :=
  List.append_right_inj _

theorem modelClassName_injective : Function.Injective modelClassName :=
  fun _ _ h => List.append_cancel_right h

theorem predicate_mem_fixedValues {models functions events : Bool} {name : Str} :
    "__is".toList ++ name ∈ fixedValues models functions events ↔
      models = true ∧ name ∈ ["Record".toList, "ArrayOf".toList, "RecordOf".toList] := by
  have hsplit : ∀ word ∈ fixedValues models functions events,
      "__is".toList <+: word → models = true ∧
        word.drop 4 ∈ ["Record".toList, "ArrayOf".toList, "RecordOf".toList] := by
    cases models <;> cases functions <;> cases events <;> decide
  constructor
  · intro hmem
    exact hsplit _ hmem (List.prefix_append _ _)
  · rintro ⟨rfl, hname⟩
    have hhelpers : ∀ name ∈ ["Record".toList, "ArrayOf".toList, "RecordOf".toList],
        "__is".toList ++ name ∈ runtimeHelperNames := by decide
    have hhelper := hhelpers name hname
    unfold fixedValues
    simp only [↓reduceIte, List.mem_append]
    exact .inl (.inl (.inl (.inl (.inl hhelper))))

theorem modelClassName_notMem_fixed (m : Str) {word : Str}
    (hword : ¬ "Model".toList <:+ word) : modelClassName m ≠ word := by
  rintro rfl
  exact hword (List.suffix_append m _)

private theorem modelClassName_notMem_fixedValues (m : Str) (models functions events : Bool) :
    modelClassName m ∉ fixedValues models functions events := by
  have hwords : ∀ word ∈ fixedValues models functions events, ¬ "Model".toList <:+ word := by
    cases models <;> cases functions <;> cases events <;> decide
  exact fun hmem => modelClassName_notMem_fixed m (hwords _ hmem) rfl

theorem modelClassName_notMem_fixedTypes (m : Str) (functions events : Bool) :
    modelClassName m ∉ fixedTypes functions events := by
  have hwords : ∀ word ∈ fixedTypes functions events, ¬ "Model".toList <:+ word := by
    cases functions <;> cases events <;> decide
  exact fun hmem => modelClassName_notMem_fixed m (hwords _ hmem) rfl

/-- The values that the SDK itself and its models bring. -/
def ownValues (models : List Str) (functions events : Bool) : List Str :=
  fixedValues (!models.isEmpty) functions events ++ models.map modelPredicateName ++
    models.map modelClassName

theorem nodup_ownValues {models : List Str} (functions events : Bool) (h : models.Nodup) :
    (ownValues models functions events).Nodup ↔ ModelsKept models := by
  have hfixed : (fixedValues (!models.isEmpty) functions events).Nodup := by
    cases !models.isEmpty <;> cases functions <;> cases events <;> decide
  have hclasses : (models.map modelClassName).Nodup := h.map modelClassName_injective
  have hpredicates : (models.map modelPredicateName).Nodup ↔
      ∀ m ∈ models, ∀ m' ∈ models, identifier m = identifier m' → m = m' := by
    rw [List.nodup_map_iff_inj_on h]
    simp only [modelPredicateName_inj]
  have hhelpers : List.Disjoint (fixedValues (!models.isEmpty) functions events)
      (models.map modelPredicateName) ↔
        ∀ m ∈ models, identifier m ∉ ["Record".toList, "ArrayOf".toList, "RecordOf".toList] := by
    have hmodels : ∀ m ∈ models, (!models.isEmpty) = true := by
      intro m hm
      cases models with
      | nil => cases hm
      | cons _ _ => rfl
    constructor
    · intro hdisjoint m hm hname
      exact hdisjoint (predicate_mem_fixedValues.mpr ⟨hmodels m hm, hname⟩)
        (List.mem_map_of_mem hm)
    · intro hall name hfixed hmem
      obtain ⟨m, hm, rfl⟩ := List.mem_map.mp hmem
      exact hall m hm (predicate_mem_fixedValues.mp hfixed).2
  have hboth : List.Disjoint (fixedValues (!models.isEmpty) functions events ++
      models.map modelPredicateName) (models.map modelClassName) ↔
        ∀ m ∈ models, ∀ m' ∈ models, modelPredicateName m ≠ modelClassName m' := by
    constructor
    · intro hdisjoint m hm m' hm' heq
      refine hdisjoint (List.mem_append_right _ (List.mem_map_of_mem hm)) ?_
      rw [heq]
      exact List.mem_map_of_mem hm'
    · intro hall name hmem hclass
      obtain ⟨m', hm', rfl⟩ := List.mem_map.mp hclass
      rcases List.mem_append.mp hmem with hfixed | hpredicate
      · exact modelClassName_notMem_fixedValues m' _ _ _ hfixed
      · obtain ⟨m, hm, heq⟩ := List.mem_map.mp hpredicate
        exact hall m hm m' hm' heq
  unfold ownValues
  rw [List.nodup_append', List.nodup_append', hpredicates, hhelpers, hboth]
  constructor
  · rintro ⟨⟨-, hapart, hhelpers⟩, -, hclass⟩
    exact ⟨hhelpers, hapart, hclass⟩
  · rintro ⟨hhelpers, hapart, hclass⟩
    exact ⟨⟨hfixed, hapart, hhelpers⟩, hclasses, hclass⟩

/-- No root is a reserved word, none is exported as something of the SDK's own, and no two are
exported under one name. -/
structure RootsKept (own contexts domains : List Str) : Prop where
  legal : ∀ root ∈ contexts ++ domains, root ∉ reservedBindings
  notOwn : ∀ root ∈ contexts ++ domains, identifier root ∉ own
  contextsApart : ∀ root ∈ contexts, ∀ root' ∈ contexts, identifier root = identifier root' →
    root = root'
  domainsApart : ∀ root ∈ domains, ∀ root' ∈ domains, identifier root = identifier root' →
    root = root'
  apart : ∀ root ∈ contexts, ∀ root' ∈ domains, identifier root ≠ identifier root'

theorem isLegalBinding_identifier (root : Str) :
    IsLegalBinding (identifier root) ↔ root ∉ reservedBindings := by
  have hreserved : ∀ word ∈ reservedBindings, isIdentifierName word = true := by decide
  unfold identifier
  constructor
  · intro hlegal hroot
    rw [if_pos (hreserved root hroot)] at hlegal
    exact hlegal.2 hroot
  · intro hroot
    split_ifs with hname
    · exact ⟨hname, hroot⟩
    · exact ⟨by decide, by decide⟩

private theorem isLegalBinding_fixedConsts (models events : Bool) :
    ∀ name ∈ fixedConsts models events, IsLegalBinding name := by
  unfold IsLegalBinding
  cases models <;> cases events <;> decide

theorem nodup_roots (own : List Str) {contexts domains : List Str} (hcontexts : contexts.Nodup)
    (hdomains : domains.Nodup) :
    ((∀ name ∈ contexts.map identifier ++ domains.map identifier, IsLegalBinding name) ∧
      (own ++ contexts.map identifier ++ domains.map identifier).Nodup) ↔
      own.Nodup ∧ RootsKept own contexts domains := by
  have hlegal : (∀ name ∈ contexts.map identifier ++ domains.map identifier,
      IsLegalBinding name) ↔ ∀ root ∈ contexts ++ domains, root ∉ reservedBindings := by
    rw [← List.map_append, List.forall_mem_map]
    simp only [isLegalBinding_identifier]
  have hown : ∀ roots : List Str, List.Disjoint own (roots.map identifier) ↔
      ∀ root ∈ roots, identifier root ∉ own := by
    intro roots
    rw [List.disjoint_comm]
    exact List.forall_mem_map (P := (· ∉ own))
  have hapart : List.Disjoint (contexts.map identifier) (domains.map identifier) ↔
      ∀ root ∈ contexts, ∀ root' ∈ domains, identifier root ≠ identifier root' := by
    constructor
    · intro hdisjoint root hroot root' hroot' heq
      exact hdisjoint (List.mem_map_of_mem hroot) (heq ▸ List.mem_map_of_mem hroot')
    · intro hall name hcontext hdomain
      obtain ⟨root, hroot, rfl⟩ := List.mem_map.mp hcontext
      obtain ⟨root', hroot', heq⟩ := List.mem_map.mp hdomain
      exact hall root hroot root' hroot' heq.symm
  rw [hlegal, List.nodup_append', List.nodup_append', List.disjoint_append_left, hown, hown, hapart,
    List.nodup_map_iff_inj_on hcontexts, List.nodup_map_iff_inj_on hdomains]
  constructor
  · rintro ⟨hwords, ⟨hnodup, hinj, howns⟩, hinj', howns', happ⟩
    refine ⟨hnodup, hwords, ?_, hinj, hinj', happ⟩
    intro root hroot
    rcases List.mem_append.mp hroot with hmem | hmem
    · exact howns root hmem
    · exact howns' root hmem
  · rintro ⟨hnodup, hwords, howns, hinj, hinj', happ⟩
    exact ⟨hwords, ⟨hnodup, hinj, fun root hroot => howns root (List.mem_append_left _ hroot)⟩,
      hinj', fun root hroot => howns root (List.mem_append_right _ hroot), happ⟩

/-- No declared type is named as a type of the SDK's own or a class. -/
def TypesKept (types models fixed : List Str) : Prop :=
  ∀ name ∈ types, name ∉ fixed ∧ ∀ m ∈ models, name ≠ modelClassName m

theorem nodup_types {types models : List Str} (functions events : Bool) (htypes : types.Nodup)
    (hmodels : models.Nodup) :
    (types ++ models.map modelClassName ++ fixedTypes functions events).Nodup ↔
      TypesKept types models (fixedTypes functions events) := by
  have hfixed : (fixedTypes functions events).Nodup := by
    cases functions <;> cases events <;> decide
  have hclasses : List.Disjoint (models.map modelClassName) (fixedTypes functions events) := by
    intro name hclass hmem
    obtain ⟨m, -, rfl⟩ := List.mem_map.mp hclass
    exact modelClassName_notMem_fixedTypes m functions events hmem
  rw [List.nodup_append', List.nodup_append', List.disjoint_append_left]
  constructor
  · rintro ⟨⟨-, -, hdisjoint⟩, -, hown, -⟩ name hname
    refine ⟨fun hmem => hown hname hmem, ?_⟩
    rintro m hm rfl
    exact hdisjoint hname (List.mem_map_of_mem hm)
  · intro h
    refine ⟨⟨htypes, hmodels.map modelClassName_injective, ?_⟩, hfixed, ?_, hclasses⟩
    · intro name hname hclass
      obtain ⟨m, hm, rfl⟩ := List.mem_map.mp hclass
      exact (h _ hname).2 m hm rfl
    · exact fun name hname hmem => (h name hname).1 hmem

/-- Every exported name is a legal binding, no value and no type is declared twice, and what the
aggregate refers to is declared. -/
structure SdkWellFormed (sdk : List SdkStatement) : Prop where
  legal : ∀ name ∈ sdk.flatMap exportConsts, IsLegalBinding name
  values : (sdk.flatMap valueNames).Nodup
  types : (sdk.flatMap typeNames).Nodup
  declared : ∀ name ∈ sdk.flatMap valueRefs, name ∈ sdk.flatMap valueNames

/-- Every root that the aggregate lists is the name of something declared. -/
def RefsKept (roots own contexts domains : List Str) : Prop :=
  ∀ root ∈ roots, identifier root ∈ own ++ (contexts ++ domains).map identifier

private theorem nodup_boundRoots {T : Type} {tree : PathTree Str T} (h : tree.Sorted) :
    (boundRoots tree).Nodup := by
  have hsublist : ∀ tree : PathTree Str T, (boundRoots tree).Sublist tree.keys := by
    intro tree
    induction tree with
    | nil => exact .slnil
    | cons name binding _ rest _ ih =>
      unfold boundRoots PathTree.keys
      cases binding with
      | none => exact ih.cons name
      | some _ => exact ih.cons_cons name
  exact (hsublist tree).nodup h.nodup_keys

theorem nodup_models (schemas : SchemaSections) : (models schemas).Nodup := by
  unfold models
  exact (sorted_rootOf _).nodup_keys

theorem mem_fixedValues (models functions events : Bool) :
    (models = true → "models".toList ∈ fixedValues models functions events) ∧
      (functions = true → "call".toList ∈ fixedValues models functions events) ∧
      (events = true → "events".toList ∈ fixedValues models functions events) ∧
      "ctx".toList ∈ fixedValues models functions events := by
  cases models <;> cases functions <;> cases events <;> decide

/-- A builder's SDK is well formed exactly where its models, roots, types and references are kept. -/
theorem wellFormed_finish {b : SdkBuilder} (hcontexts : b.contexts.Sorted)
    (hdomain : (domainTree b.functions b.events).Sorted) (htypes : b.schemas.names.Nodup)
    (hcall : b.functions.keys ≠ [] → b.hostFunctions.isEmpty = false) :
    SdkWellFormed b.finish ↔
      ModelsKept (models b.schemas) ∧
      RootsKept (ownValues (models b.schemas) (!b.hostFunctions.isEmpty) (!b.events.isEmpty))
        (boundRoots b.contexts) (domainTree b.functions b.events).keys ∧
      TypesKept b.schemas.names (models b.schemas)
        (fixedTypes (!b.hostFunctions.isEmpty) b.hasEvents) ∧
      RefsKept (b.functions.keys ++ b.contexts.keys)
        (ownValues (models b.schemas) (!b.hostFunctions.isEmpty) (!b.events.isEmpty))
        (boundRoots b.contexts) (domainTree b.functions b.events).keys := by
  have hvalues := valueNames_perm b
  have hmodels := nodup_models b.schemas
  have hlegal : (∀ name ∈ b.finish.flatMap exportConsts, IsLegalBinding name) ↔
      ∀ name ∈ (boundRoots b.contexts).map identifier ++
        (domainTree b.functions b.events).keys.map identifier, IsLegalBinding name := by
    have hmem := fun name => (exportConsts_perm b).mem_iff (a := name)
    simp only [hmem, List.append_assoc]
    rw [List.forall_mem_append]
    exact and_iff_right (isLegalBinding_fixedConsts _ _)
  have hroots := nodup_roots (ownValues (models b.schemas) (!b.hostFunctions.isEmpty)
    (!b.events.isEmpty)) (nodup_boundRoots hcontexts) hdomain.nodup_keys
  have howns := nodup_ownValues (!b.hostFunctions.isEmpty) (!b.events.isEmpty) hmodels
  have htypesKept := nodup_types (!b.hostFunctions.isEmpty) b.hasEvents htypes hmodels
  have hrefs : (∀ name ∈ b.finish.flatMap valueRefs, name ∈ b.finish.flatMap valueNames) ↔
      RefsKept (b.functions.keys ++ b.contexts.keys)
        (ownValues (models b.schemas) (!b.hostFunctions.isEmpty) (!b.events.isEmpty))
        (boundRoots b.contexts) (domainTree b.functions b.events).keys := by
    have hdeclared : ∀ name, name ∈ b.finish.flatMap valueNames ↔
        name ∈ ownValues (models b.schemas) (!b.hostFunctions.isEmpty) (!b.events.isEmpty) ++
          (boundRoots b.contexts ++ (domainTree b.functions b.events).keys).map identifier := by
      intro name
      rw [hvalues.mem_iff, List.map_append, ← List.append_assoc]
      rfl
    have hfixed : ∀ name ∈ fixedValues (!(models b.schemas).isEmpty)
        (!b.hostFunctions.isEmpty) (!b.events.isEmpty), name ∈ b.finish.flatMap valueNames := by
      intro name hname
      rw [hdeclared]
      exact List.mem_append_left _ (List.mem_append_left _ (List.mem_append_left _ hname))
    rw [valueRefs_finish]
    constructor
    · intro hall root hroot
      rw [← hdeclared]
      apply hall
      unfold valueRefs
      rcases List.mem_append.mp hroot with hfunction | hcontext
      · have hne : b.functions.keys.isEmpty = false := by
          rw [List.isEmpty_eq_false_iff]
          exact List.ne_nil_of_mem hfunction
        simp only [hne, List.mem_append, Bool.false_eq_true, if_false]
        exact .inl (.inl (.inl (.inr (.inl (List.mem_map_of_mem hfunction)))))
      · exact List.mem_append_right _ (List.mem_map_of_mem hcontext)
    · intro hall name hname
      have hroot : ∀ root ∈ b.functions.keys ++ b.contexts.keys,
          identifier root ∈ b.finish.flatMap valueNames :=
        fun root hroot => (hdeclared _).mpr (hall root hroot)
      unfold valueRefs at hname
      simp only [List.mem_append] at hname
      rcases hname with (((hmodel | hfunction) | hevent) | hctx) | hcontext
      · split_ifs at hmodel with hmodels'
        · apply hfixed
          rw [List.mem_singleton.mp hmodel, hmodels']
          exact (mem_fixedValues _ _ _).1 rfl
        · cases hmodel
      · split_ifs at hfunction with hfunctions
        · cases hfunction
        · rcases List.mem_append.mp hfunction with hmem | hmem
          · obtain ⟨root, hfound, rfl⟩ := List.mem_map.mp hmem
            exact hroot root (List.mem_append_left _ hfound)
          · apply hfixed
            rw [List.mem_singleton.mp hmem, hcall fun hnil => hfunctions (hnil ▸ rfl)]
            exact (mem_fixedValues _ _ _).2.1 rfl
      · split_ifs at hevent with hevents
        · apply hfixed
          rw [List.mem_singleton.mp hevent, hevents]
          exact (mem_fixedValues _ _ _).2.2.1 rfl
        · cases hevent
      · apply hfixed
        rw [List.mem_singleton.mp hctx]
        exact (mem_fixedValues _ _ _).2.2.2
      · obtain ⟨root, hmem, rfl⟩ := List.mem_map.mp hcontext
        exact hroot root (List.mem_append_right _ hmem)
  constructor
  · rintro ⟨hlegal', hvalues', htypes', hdeclared⟩
    rw [hlegal] at hlegal'
    obtain ⟨hown, hkept⟩ := hroots.mp ⟨hlegal', hvalues.nodup_iff.mp hvalues'⟩
    exact ⟨howns.mp hown, hkept, htypesKept.mp ((typeNames_perm b).nodup_iff.mp htypes'),
      hrefs.mp hdeclared⟩
  · rintro ⟨hmodelsKept, hkept, htypes', hdeclared⟩
    obtain ⟨hlegal', hvalues'⟩ := hroots.mpr ⟨howns.mpr hmodelsKept, hkept⟩
    exact ⟨hlegal.mpr hlegal', hvalues.nodup_iff.mpr hvalues',
      (typeNames_perm b).nodup_iff.mpr (htypesKept.mpr htypes'), hrefs.mpr hdeclared⟩

def sdkContext (d : HostContractDescriptor Schema) : Option SdkContext :=
  match d.abi with
  | .context schema => some ⟨d.name, schemaTypeName schema⟩
  | _ => none

/-- The names of the context contracts. -/
def contextNames (descriptors : List (HostContractDescriptor Schema)) : List Str :=
  descriptors.filterMap fun d => (sdkContext d).map fun _ => d.name

/-- The contexts that are exported: their names have one segment. -/
def boundContexts (descriptors : List (HostContractDescriptor Schema)) : List Str :=
  (contextNames descriptors).filter fun name => segments name = [name]

/-- The first segments of names. -/
def rootsOf (names : List Str) : List Str :=
  names.filterMap fun name => (segments name).head?

/-- The roots that functions and aliases are exported under. -/
def domainRoots (descriptors : List (HostContractDescriptor Schema)) : List Str :=
  (domainPaths (functionNames descriptors) (eventNames descriptors)).filterMap List.head?

/-- The object types that descriptors declare. -/
def modelNames (descriptors : List (HostContractDescriptor Schema)) : List Str :=
  ((declaredTypes descriptors).sections.filter fun e => isModel e.2).map (·.1)

theorem schemas_foldl (b : SdkBuilder) :
    (descriptors.foldl SdkBuilder.pushDescriptor b).schemas =
      pushSchemas (descriptors.flatMap fun d => abiSchemas d.abi) b.schemas := by
  induction descriptors generalizing b with
  | nil => rfl
  | cons d descriptors ih =>
    rw [List.foldl_cons, ih, List.flatMap_cons, pushSchemas_append]
    unfold SdkBuilder.pushDescriptor
    cases d.abi <;> rfl

theorem contexts_foldl (b : SdkBuilder) :
    (descriptors.foldl SdkBuilder.pushDescriptor b).contexts =
      b.contexts.insertAll (namedEntries sdkContext descriptors) := by
  induction descriptors generalizing b with
  | nil => rfl
  | cons d descriptors ih =>
    rw [List.foldl_cons, ih]
    unfold namedEntries sdkContext SdkBuilder.pushDescriptor
    rw [List.filterMap_cons]
    cases d.abi <;> rfl

theorem isEmpty_insert {T : Type} {path : List Str} (h : path ≠ []) (v : T)
    (t : PathTree Str T) : (t.insert path v).isEmpty = false := by
  obtain ⟨key, rest, rfl⟩ := List.exists_cons_of_ne_nil h
  have hfind : ((t.insert (key :: rest) v).find [key]).isSome = true :=
    (PathTree.isSome_find_insert h (List.cons_ne_nil key [])).mpr (.inr ⟨rest, rfl⟩)
  rw [PathTree.find_singleton] at hfind
  cases hempty : (t.insert (key :: rest) v).isEmpty with
  | false => rfl
  | true =>
    rw [lookup_of_isEmpty hempty] at hfind
    cases hfind

theorem hostFunctions_isEmpty (b : SdkBuilder) :
    (descriptors.foldl SdkBuilder.pushDescriptor b).hostFunctions.isEmpty =
      (b.hostFunctions.isEmpty && (functionNames descriptors).isEmpty) := by
  induction descriptors generalizing b with
  | nil => exact (Bool.and_true _).symm
  | cons d descriptors ih =>
    rw [List.foldl_cons, ih]
    unfold functionNames sdkFunction SdkBuilder.pushDescriptor
    rw [List.filterMap_cons]
    cases d.abi with
    | function input output returnsPromise =>
      show ((b.hostFunctions.insert [d.name] _).isEmpty && _) = (_ && false)
      rw [isEmpty_insert (List.cons_ne_nil d.name []), Bool.false_and, Bool.and_false]
    | callback _ _ => rfl
    | context _ => rfl
    | unknown => rfl

theorem hostEvents_isEmpty (b : SdkBuilder) :
    (descriptors.foldl SdkBuilder.pushDescriptor b).hostEvents.isEmpty =
      (b.hostEvents.isEmpty && (eventNames descriptors).isEmpty) := by
  induction descriptors generalizing b with
  | nil => exact (Bool.and_true _).symm
  | cons d descriptors ih =>
    rw [List.foldl_cons, ih]
    unfold eventNames sdkEvent SdkBuilder.pushDescriptor
    rw [List.filterMap_cons]
    cases d.abi with
    | callback payload reply =>
      show ((b.hostEvents.insert [d.name] _).isEmpty && _) = (_ && false)
      rw [isEmpty_insert (List.cons_ne_nil d.name []), Bool.false_and, Bool.and_false]
    | function _ _ _ => rfl
    | context _ => rfl
    | unknown => rfl

section
variable {T : Type} {value : HostContractDescriptor Schema → Option T}

private theorem isEmpty_insertAll (entries : List (List Str × T)) (h : ∀ e ∈ entries, e.1 ≠ [])
    (t : PathTree Str T) : (t.insertAll entries).isEmpty = (t.isEmpty && entries.isEmpty) := by
  induction entries generalizing t with
  | nil => exact (Bool.and_true _).symm
  | cons e entries ih =>
    show ((t.insert e.1 e.2).insertAll entries).isEmpty = (_ && false)
    rw [ih fun e' he' => h e' (List.mem_cons_of_mem e he'),
      isEmpty_insert (h e List.mem_cons_self), Bool.false_and, Bool.and_false]

theorem isEmpty_namedEntries :
    (PathTree.nil.insertAll (namedEntries value descriptors)).isEmpty =
      (descriptors.filterMap fun d => (value d).map fun _ => d.name).isEmpty := by
  rw [isEmpty_insertAll _ fun e he => ne_nil_of_mem_namedEntries he]
  show (true && _) = _
  rw [Bool.true_and]
  unfold namedEntries
  induction descriptors with
  | nil => rfl
  | cons d descriptors ih =>
    rw [List.filterMap_cons, List.filterMap_cons]
    cases value d with
    | none => exact ih
    | some v => rfl

theorem mem_names {name : Str} :
    name ∈ descriptors.filterMap (fun d => (value d).map fun _ => d.name) ↔
      ∃ d ∈ descriptors, ∃ v, value d = some v ∧ d.name = name := by
  simp only [List.mem_filterMap, Option.map_eq_some_iff]

theorem mem_keys_namedEntries {root : Str} :
    root ∈ (PathTree.nil.insertAll (namedEntries value descriptors)).keys ↔
      root ∈ rootsOf (descriptors.filterMap fun d => (value d).map fun _ => d.name) := by
  have hne : ∀ e ∈ namedEntries value descriptors, e.1 ≠ [] :=
    fun e he => ne_nil_of_mem_namedEntries he
  refine (mem_keys_rootOf hne root).trans ?_
  unfold rootsOf
  rw [List.mem_filterMap]
  constructor
  · rintro ⟨⟨path, v⟩, he, hprefix⟩
    obtain ⟨d, hd, hv, rfl⟩ := mem_namedEntries.mp he
    exact ⟨d.name, mem_names.mpr ⟨d, hd, v, hv, rfl⟩, singleton_prefix_iff.mp hprefix⟩
  · rintro ⟨name, hname, hhead⟩
    obtain ⟨d, hd, v, hv, rfl⟩ := mem_names.mp hname
    exact ⟨(segments d.name, v), mem_namedEntries.mpr ⟨d, hd, hv, rfl⟩,
      singleton_prefix_iff.mpr hhead⟩

theorem mem_boundRoots {tree : PathTree Str T} {root : Str} :
    root ∈ boundRoots tree ↔ ∃ v, ([root], v) ∈ tree.bindings := by
  induction tree with
  | nil => simp [boundRoots, PathTree.bindings]
  | cons name binding children rest _ ih =>
    have hbelow : ∀ v, ([root], v) ∉ children.bindings.map fun e => (name :: e.1, e.2) := by
      intro v hmem
      obtain ⟨e, he, heq⟩ := List.mem_map.mp hmem
      exact PathTree.ne_nil_of_mem_bindings he (List.cons.inj (Prod.mk.inj heq).1).2
    unfold boundRoots PathTree.bindings
    rw [List.mem_append, ih]
    cases binding with
    | none => simp [hbelow]
    | some b =>
      simp only [Option.map_some, Option.toList_some, List.mem_singleton, List.mem_append, hbelow,
        or_false, Prod.mk.injEq, List.cons.injEq, and_true]
      constructor
      · rintro (rfl | ⟨v, hv⟩)
        · exact ⟨b, .inl ⟨rfl, rfl⟩⟩
        · exact ⟨v, .inr hv⟩
      · rintro ⟨v, ⟨rfl, -⟩ | hv⟩
        · exact .inl rfl
        · exact .inr ⟨v, hv⟩

theorem mem_boundRoots_namedEntries {root : Str} :
    root ∈ boundRoots (PathTree.nil.insertAll (namedEntries value descriptors)) ↔
      root ∈ (descriptors.filterMap fun d => (value d).map fun _ => d.name).filter
        fun name => segments name = [name] := by
  have hself : ∀ name, segments name = [root] → name = root := by
    intro name hname
    have hjoin := intercalate_segments name
    rw [hname] at hjoin
    simpa using hjoin.symm
  rw [mem_boundRoots, List.mem_filter]
  constructor
  · rintro ⟨v, hv⟩
    obtain ⟨d, hd, hvalue, hpath⟩ := exists_of_mem_bindings hv
    have hname := hself d.name hpath
    refine ⟨mem_names.mpr ⟨d, hd, v, hvalue, hname⟩, ?_⟩
    rw [hname] at hpath
    exact decide_eq_true hpath
  · rintro ⟨hname, hpath⟩
    obtain ⟨d, hd, v, hvalue, rfl⟩ := mem_names.mp hname
    obtain ⟨v', hv'⟩ := exists_mem_bindings hd hvalue
    rw [of_decide_eq_true hpath] at hv'
    exact ⟨v', hv'⟩

end

theorem mem_domainRoots {root : Str} :
    root ∈ domainRoots descriptors ↔
      root ∈ (rootOf (functionPart descriptors ++ aliasPart descriptors)).children.keys := by
  rw [mem_keys_rootOf fun e he => ne_nil_of_mem_parts he]
  unfold domainRoots
  rw [List.mem_filterMap]
  constructor
  · rintro ⟨path, hpath, hhead⟩
    obtain ⟨b, hb⟩ := mem_domainPaths.mp hpath
    exact ⟨(path, b), hb, singleton_prefix_iff.mpr hhead⟩
  · rintro ⟨⟨path, b⟩, hb, hprefix⟩
    exact ⟨path, mem_domainPaths.mpr ⟨b, hb⟩, singleton_prefix_iff.mp hprefix⟩

theorem mem_models (schemas : SchemaSections) (name : Str) :
    name ∈ models schemas ↔
      name ∈ (schemas.sections.filter fun e => isModel e.2).map (·.1) := by
  have hne : ∀ e ∈ (schemas.sections.filter fun e => isModel e.2).map
      fun e => (([e.1] : List Str), e.2), e.1 ≠ [] := by
    rintro _ he
    obtain ⟨e, -, rfl⟩ := List.mem_map.mp he
    exact List.cons_ne_nil e.1 []
  refine (mem_keys_rootOf hne name).trans ?_
  constructor
  · rintro ⟨_, he, hprefix⟩
    obtain ⟨e, hmem, rfl⟩ := List.mem_map.mp he
    rw [← Option.some.inj (singleton_prefix_iff.mp hprefix)]
    exact List.mem_map_of_mem hmem
  · intro hname
    obtain ⟨e, he, rfl⟩ := List.mem_map.mp hname
    exact ⟨([e.1], e.2), List.mem_map_of_mem he, List.prefix_rfl⟩

theorem append_subset_append {l₁ l₁' l₂ l₂' : List Str} (h₁ : l₁ ⊆ l₁') (h₂ : l₂ ⊆ l₂') :
    l₁ ++ l₂ ⊆ l₁' ++ l₂' :=
  List.append_subset.mpr
    ⟨List.subset_append_of_subset_left l₂' h₁, List.subset_append_of_subset_right l₁' h₂⟩

theorem ModelsKept.mono {models models' : List Str} (h : ModelsKept models)
    (hsubset : models' ⊆ models) : ModelsKept models' :=
  ⟨fun m hm => h.helpers m (hsubset hm),
    fun m hm m' hm' => h.apart m (hsubset hm) m' (hsubset hm'),
    fun m hm m' hm' => h.classes m (hsubset hm) m' (hsubset hm')⟩

theorem RootsKept.mono {own own' contexts contexts' domains domains' : List Str}
    (h : RootsKept own contexts domains) (hown : own' ⊆ own) (hcontexts : contexts' ⊆ contexts)
    (hdomains : domains' ⊆ domains) : RootsKept own' contexts' domains' where
  legal root hroot := h.legal root (append_subset_append hcontexts hdomains hroot)
  notOwn root hroot hmem := h.notOwn root (append_subset_append hcontexts hdomains hroot)
    (hown hmem)
  contextsApart root hroot root' hroot' :=
    h.contextsApart root (hcontexts hroot) root' (hcontexts hroot')
  domainsApart root hroot root' hroot' :=
    h.domainsApart root (hdomains hroot) root' (hdomains hroot')
  apart root hroot root' hroot' := h.apart root (hcontexts hroot) root' (hdomains hroot')

theorem TypesKept.mono {types models models' fixed : List Str} (h : TypesKept types models fixed)
    (hsubset : models' ⊆ models) : TypesKept types models' fixed :=
  fun name hname => ⟨(h name hname).1, fun m hm => (h name hname).2 m (hsubset hm)⟩

theorem RefsKept.mono {roots roots' own own' contexts contexts' domains domains' : List Str}
    (h : RefsKept roots own contexts domains) (hroots : roots' ⊆ roots) (hown : own ⊆ own')
    (hcontexts : contexts ⊆ contexts') (hdomains : domains ⊆ domains') :
    RefsKept roots' own' contexts' domains' := by
  intro root hroot
  have hdeclared := h root (hroots hroot)
  refine append_subset_append hown (List.map_subset _ ?_) hdeclared
  exact append_subset_append hcontexts hdomains

private theorem fixedValues_subset {models models' : Bool} (functions events : Bool)
    (h : models' = true → models = true) :
    fixedValues models' functions events ⊆ fixedValues models functions events := by
  cases models' with
  | true =>
    rw [h rfl]
    exact List.Subset.refl _
  | false => cases models <;> cases functions <;> cases events <;> decide

theorem ownValues_subset {models models' : List Str} (functions events : Bool)
    (h : models' ⊆ models) : ownValues models' functions events ⊆
      ownValues models functions events := by
  have hfixed : fixedValues (!models'.isEmpty) functions events ⊆
      fixedValues (!models.isEmpty) functions events := by
    apply fixedValues_subset
    cases models' with
    | nil => exact nofun
    | cons m models' =>
      obtain ⟨m', rest, rfl⟩ := List.exists_cons_of_ne_nil
        (List.ne_nil_of_mem (h List.mem_cons_self))
      exact fun _ => rfl
  exact append_subset_append (append_subset_append hfixed (List.map_subset _ h))
    (List.map_subset _ h)

/-- What the SDK itself and the models of descriptors bring. -/
def sdkValues (descriptors : List (HostContractDescriptor Schema)) : List Str :=
  ownValues (modelNames descriptors) (!(functionNames descriptors).isEmpty)
    (!(eventNames descriptors).isEmpty)

/-- The SDK of descriptors is well formed exactly where their models, roots, types and references
are kept. -/
theorem sdkWellFormed_iff (descriptors : List (HostContractDescriptor Schema)) :
    SdkWellFormed (typescriptSdk descriptors) ↔
      ModelsKept (modelNames descriptors) ∧
      RootsKept (sdkValues descriptors) (boundContexts descriptors) (domainRoots descriptors) ∧
      TypesKept (declaredTypes descriptors).names (modelNames descriptors)
        (fixedTypes (!(functionNames descriptors).isEmpty)
          (!(eventNames descriptors).isEmpty)) ∧
      RefsKept (rootsOf (functionNames descriptors) ++ rootsOf (contextNames descriptors))
        (sdkValues descriptors) (boundContexts descriptors) (domainRoots descriptors) := by
  unfold typescriptSdk
  generalize hb : descriptors.foldl SdkBuilder.pushDescriptor .empty = b
  have hschemas : b.schemas = declaredTypes descriptors := by rw [← hb, schemas_foldl]; rfl
  have hfunctions : b.functions = PathTree.nil.insertAll (namedEntries sdkFunction descriptors) := by
    rw [← hb, functions_foldl]
    rfl
  have hevents : b.events = PathTree.nil.insertAll (namedEntries sdkEvent descriptors) := by
    rw [← hb, events_foldl]
    rfl
  have hcontexts : b.contexts = PathTree.nil.insertAll (namedEntries sdkContext descriptors) := by
    rw [← hb, contexts_foldl]
    rfl
  have hdomain : domainTree b.functions b.events =
      (rootOf (functionPart descriptors ++ aliasPart descriptors)).children := by
    rw [← hb]
    exact domainTree_eq descriptors
  have hnoFunctions : b.hostFunctions.isEmpty = (functionNames descriptors).isEmpty := by
    rw [← hb, hostFunctions_isEmpty]
    exact Bool.true_and _
  have hnoEvents : b.events.isEmpty = (eventNames descriptors).isEmpty := by
    rw [hevents]
    exact isEmpty_namedEntries
  have hhasEvents : b.hasEvents = !(eventNames descriptors).isEmpty := by
    unfold SdkBuilder.hasEvents
    rw [← hb, hostEvents_isEmpty]
    exact congrArg _ (Bool.true_and _)
  have hcall : b.functions.keys ≠ [] → b.hostFunctions.isEmpty = false := by
    intro hne
    obtain ⟨root, hroot⟩ := List.exists_mem_of_ne_nil _ hne
    rw [hfunctions, mem_keys_namedEntries] at hroot
    obtain ⟨name, hname, -⟩ := List.mem_filterMap.mp hroot
    rw [hnoFunctions, List.isEmpty_eq_false_iff]
    exact List.ne_nil_of_mem hname
  have hwellFormed := wellFormed_finish (b := b) (hcontexts ▸ sorted_rootOf _)
    (hdomain ▸ sorted_rootOf _) (hschemas ▸ (declaredTypes_spec descriptors).1) hcall
  rw [hwellFormed, hnoFunctions, hnoEvents, hhasEvents, hschemas, hdomain]
  -- what the builder holds and the names of the descriptors are the same sets
  have hmodels := mem_models (declaredTypes descriptors)
  have hbound : ∀ root, root ∈ boundRoots b.contexts ↔ root ∈ boundContexts descriptors := by
    rw [hcontexts]
    exact fun root => mem_boundRoots_namedEntries
  have hroots : ∀ root, root ∈ b.functions.keys ++ b.contexts.keys ↔
      root ∈ rootsOf (functionNames descriptors) ++ rootsOf (contextNames descriptors) := by
    intro root
    rw [List.mem_append, List.mem_append, hfunctions, hcontexts, mem_keys_namedEntries,
      mem_keys_namedEntries]
    rfl
  have hown := ownValues_subset (!(functionNames descriptors).isEmpty)
    (!(eventNames descriptors).isEmpty) fun name => (hmodels name).mp
  have hown' := ownValues_subset (!(functionNames descriptors).isEmpty)
    (!(eventNames descriptors).isEmpty) fun name => (hmodels name).mpr
  constructor
  · rintro ⟨hmodelsKept, hrootsKept, htypesKept, hrefsKept⟩
    exact ⟨hmodelsKept.mono fun name => (hmodels name).mpr,
      hrootsKept.mono hown' (fun root => (hbound root).mpr) fun root => mem_domainRoots.mp,
      htypesKept.mono fun name => (hmodels name).mpr,
      hrefsKept.mono (fun root => (hroots root).mpr) hown (fun root => (hbound root).mp)
        fun root => mem_domainRoots.mpr⟩
  · rintro ⟨hmodelsKept, hrootsKept, htypesKept, hrefsKept⟩
    exact ⟨hmodelsKept.mono fun name => (hmodels name).mp,
      hrootsKept.mono hown (fun root => (hbound root).mp) fun root => mem_domainRoots.mpr,
      htypesKept.mono fun name => (hmodels name).mp,
      hrefsKept.mono (fun root => (hroots root).mp) hown' (fun root => (hbound root).mpr)
        fun root => mem_domainRoots.mp⟩

end RustTS.Registry.Sdk
