import RustTS.Registry.TypeReferences

/-! The type names that the SDK refers to and declares by `type`. -/
namespace RustTS.Registry
open RustTS.Contract

namespace Expression

mutual

/-- What is bound anywhere in a literal. -/
def bindings {T : Type} : Expression T → List T
  | .binding b => [b]
  | .object members => memberBindings members

def memberBindings {T : Type} : List (Str × Expression T) → List T
  | [] => []
  | (_, e) :: members => e.bindings ++ memberBindings members

end

variable {T : Type} {position : DefaultPosition} {b : T}

theorem memberBindings_append (members members' : List (Str × Expression T)) :
    memberBindings (members ++ members') = memberBindings members ++ memberBindings members' := by
  induction members with
  | nil => simp [memberBindings]
  | cons member members ih =>
    obtain ⟨name, e⟩ := member
    simp only [List.cons_append, memberBindings, ih, List.append_assoc]

theorem mem_bindings_object {binding : Option T} {members : List (Str × Expression T)} :
    b ∈ (object (position.join (defaultMember binding) members)).bindings ↔
      binding = some b ∨ b ∈ memberBindings members := by
  have hdefault : b ∈ memberBindings (defaultMember binding) ↔ binding = some b := by
    unfold defaultMember
    cases binding with
    | none => simp [memberBindings]
    | some b' => simp [memberBindings, bindings, eq_comm]
  unfold bindings
  cases position with
  | first =>
    show b ∈ memberBindings (_ ++ _) ↔ _
    rw [memberBindings_append, List.mem_append, hdefault]
  | last =>
    show b ∈ memberBindings (_ ++ _) ↔ _
    rw [memberBindings_append, List.mem_append, hdefault, or_comm]

theorem mem_memberBindings {t : PathTree Str T} (h : b ∈ memberBindings (renderMembers position t)) :
    ∃ path, (path, b) ∈ t.bindings := by
  induction t with
  | nil => simp [renderMembers, memberBindings] at h
  | cons name binding children rest ihc ihr =>
    rw [renderMembers_cons] at h
    unfold PathTree.bindings
    simp only [memberBindings, List.mem_append] at h
    rcases h with hnode | hrest
    · have hcases : binding = some b ∨ b ∈ memberBindings (renderMembers position children) := by
        unfold renderNode at hnode
        split at hnode
        · next b' hb _ =>
          simp only [bindings, List.mem_singleton] at hnode
          exact .inl (hnode ▸ hb)
        · exact mem_bindings_object.mp hnode
      rcases hcases with rfl | hchild
      · exact ⟨[name], List.mem_append_left _ (List.mem_append_left _ (by simp))⟩
      · obtain ⟨path, hpath⟩ := ihc hchild
        exact ⟨name :: path, List.mem_append_left _
          (List.mem_append_right _ (List.mem_map_of_mem (f := fun e => (name :: e.1, e.2)) hpath))⟩
    · obtain ⟨path, hpath⟩ := ihr hrest
      exact ⟨path, List.mem_append_right _ hpath⟩

theorem mem_renderExports {identifier : Str → Str} {t : PathTree Str T}
    {e : Str × Expression T} (he : e ∈ renderExports identifier (renderObject position) t)
    (h : b ∈ e.2.bindings) : ∃ path, (path, b) ∈ t.bindings := by
  induction t with
  | nil => cases he
  | cons name binding children rest _ ihr =>
    unfold PathTree.bindings
    rcases List.mem_cons.mp he with rfl | he
    · rcases mem_bindings_object.mp h with hb | hchild
      · obtain rfl : binding = some b := hb
        exact ⟨[name], List.mem_append_left _ (List.mem_append_left _ (by simp))⟩
      · obtain ⟨path, hpath⟩ := mem_memberBindings hchild
        exact ⟨name :: path, List.mem_append_left _
          (List.mem_append_right _ (List.mem_map_of_mem (f := fun e => (name :: e.1, e.2)) hpath))⟩
    · obtain ⟨path, hpath⟩ := ihr he
      exact ⟨path, List.mem_append_right _ hpath⟩

end Expression

namespace Sdk

def SdkDomainBinding.typeRefs : SdkDomainBinding → List Str
  | .function f =>
    (if f.takesInput then f.inputType.refs else []) ++ f.outputType.output.refs
  | .eventAlias _ => ["HostEventHandler".toList]

namespace SdkStatement

/-- The names of types that a statement of the SDK refers to. -/
def typeRefs : SdkStatement → List Str
  | typeAlias _ tsType => tsType.refs
  | modelRuntimeHelpers models => models
  | modelClass name => [name, modelClassName name]
  | modelHelpers models => models ++ models.map modelClassName
  | hostHelpers => []
  | hostFunctionApi functions =>
    (functions.flatMap fun e => e.2.inputType.refs ++ e.2.outputType.output.refs) ++
      ["HostFunctions".toList, "HostFunctionInput".toList, "HostFunctionOutput".toList,
        "HostFunctionArgs".toList]
  | hostEventTypes events replies => events.flatMap (·.2.refs) ++ replies.flatMap (·.2.refs)
  | eventContext =>
    ["HostEvents".toList, "HostReplies".toList] ++ Declaration.eventContextNames
  | ctxExport events => Declaration.ctxTypeRefs events ++ ["HostContext".toList]
  | contextExport _ context => context.ty.refs
  | domainExport _ body => body.bindings.flatMap SdkDomainBinding.typeRefs
  | eventsExport _ => ["HostEventHandler".toList]
  | aggregate .. => []

/-- The names it declares by `type`. -/
def typeStatements : SdkStatement → List Str
  | modelClass _ => []
  | statement => statement.typeNames

end SdkStatement

/-- A sorted tree of values with a property. -/
def Binds {T : Type} (p : T → Prop) (t : PathTree Str T) : Prop :=
  t.Sorted ∧ ∀ path v, t.bindingAt path = some v → p v

namespace Binds

variable {T : Type} {p q : T → Prop} {t : PathTree Str T}

theorem nil (p : T → Prop) : Binds p .nil := by
  refine ⟨trivial, ?_⟩
  intro path v h
  rw [PathTree.bindingAt_nil] at h
  cases h

theorem insert (h : Binds p t) {path : List Str} (hpath : path ≠ []) {v : T} (hv : p v) :
    Binds p (t.insert path v) := by
  refine ⟨h.1.insert, ?_⟩
  intro path' v' hbound
  rw [PathTree.bindingAt_insert hpath] at hbound
  split_ifs at hbound with heq
  · obtain rfl := Option.some.inj hbound
    exact hv
  · exact h.2 path' v' hbound

theorem of_mem (h : Binds p t) {e : List Str × T} (he : e ∈ t.bindings) : p e.2 :=
  h.2 e.1 e.2 ((PathTree.mem_bindings h.1).mp he)

theorem of_mem_entries (h : Binds p t) {e : Str × T} (he : e ∈ entries t) : p e.2 := by
  obtain ⟨e', he', rfl⟩ := List.mem_map.mp he
  exact h.of_mem he'

private theorem foldl_insert (h : Binds p t) {new : List (Str × T)} (hnew : ∀ e ∈ new, p e.2) :
    Binds p (new.foldl (fun tree e => Sdk.insert e.1 e.2 tree) t) := by
  induction new generalizing t with
  | nil => exact h
  | cons e new ih =>
    apply ih
    · exact h.insert (List.splitOn_ne_nil '.' e.1) (hnew e List.mem_cons_self)
    · exact fun e' he' => hnew e' (List.mem_cons_of_mem e he')

end Binds

/-- Every type that a builder's maps hold has the property. -/
structure SdkBuilder.Holds (b : SdkBuilder) (p : TsType → Prop) : Prop where
  functions : Binds (fun f => p f.inputType ∧ p f.outputType.output) b.functions
  contexts : Binds (fun context => p context.ty) b.contexts
  hostFunctions : Binds (fun f => p f.inputType ∧ p f.outputType.output) b.hostFunctions
  hostEvents : Binds p b.hostEvents
  hostReplies : Binds p b.hostReplies

variable {p : TsType → Prop} {b : SdkBuilder}

theorem SdkBuilder.Holds.pushDescriptor (h : b.Holds p) (d : HostContractDescriptor Schema)
    (hd : ∀ schema ∈ abiSchemas d.abi, p (schemaTypeName schema)) :
    (b.pushDescriptor d).Holds p := by
  have hsegments : d.name.splitOn '.' ≠ [] := List.splitOn_ne_nil '.' d.name
  have hname : [d.name] ≠ [] := List.cons_ne_nil d.name []
  unfold SdkBuilder.pushDescriptor
  cases habi : d.abi with
  | function input output returnsPromise =>
    rw [habi] at hd
    have hinput := hd input List.mem_cons_self
    have houtput := hd output (List.mem_cons_of_mem _ List.mem_cons_self)
    exact { h with
      functions := h.functions.insert hsegments ⟨hinput, houtput⟩
      hostFunctions := h.hostFunctions.insert hname ⟨hinput, houtput⟩ }
  | callback payload reply =>
    rw [habi] at hd
    have hpayload := hd payload List.mem_cons_self
    cases reply with
    | none => exact { h with hostEvents := h.hostEvents.insert hname hpayload }
    | some reply =>
      have hreply := hd reply (List.mem_cons_of_mem _ List.mem_cons_self)
      exact { h with
        hostEvents := h.hostEvents.insert hname hpayload
        hostReplies := h.hostReplies.insert hname hreply }
  | context schema =>
    rw [habi] at hd
    exact { h with
      contexts := h.contexts.insert hsegments (hd schema List.mem_cons_self) }
  | unknown => exact { h with }

theorem holds_foldl (h : b.Holds p)
    (hall : ∀ schema ∈ pushedSchemas descriptors, p (schemaTypeName schema)) :
    (descriptors.foldl SdkBuilder.pushDescriptor b).Holds p := by
  induction descriptors generalizing b with
  | nil => exact h
  | cons d descriptors ih =>
    apply ih
    · apply h.pushDescriptor
      exact fun schema hmem => hall schema (List.mem_flatMap.mpr ⟨d, List.mem_cons_self, hmem⟩)
    · intro schema hmem
      obtain ⟨d', hd', hschema⟩ := List.mem_flatMap.mp hmem
      exact hall schema (List.mem_flatMap.mpr ⟨d', List.mem_cons_of_mem d hd', hschema⟩)

/-- The exported tree binds functions with such types, and aliases where there are events. -/
theorem SdkBuilder.Holds.domainTree (h : b.Holds p) :
    Binds (fun binding => match binding with
      | .function f => p f.inputType ∧ p f.outputType.output
      | .eventAlias _ => b.events.isEmpty = false) (domainTree b.functions b.events) := by
  apply (Binds.nil _).foldl_insert
  rw [functionDomainBindings_eq, eventAliasDomainBindings_eq]
  intro e he
  rcases List.mem_append.mp he with hfunction | halias
  · obtain ⟨e', he', rfl⟩ := List.mem_map.mp hfunction
    exact h.functions.of_mem he'
  · obtain ⟨e', he', halias⟩ := List.mem_filterMap.mp halias
    have hevents : b.events.isEmpty = false := by
      cases hevents : b.events with
      | nil =>
        rw [hevents] at he'
        cases he'
      | cons _ _ _ _ => rfl
    split at halias
    · obtain rfl := Option.some.inj halias
      exact hevents
    · cases halias

theorem mem_refs_contextExports {contexts : PathTree Str SdkContext} {name : Str}
    (h : name ∈ (contextExports contexts).flatMap SdkStatement.typeRefs) :
    ∃ e ∈ contexts.bindings, name ∈ e.2.ty.refs := by
  induction contexts with
  | nil => cases h
  | cons root binding children rest _ ih =>
    unfold contextExports at h
    unfold PathTree.bindings
    rw [List.flatMap_append, List.mem_append] at h
    rcases h with hown | hrest
    · cases binding with
      | none => cases hown
      | some context =>
        refine ⟨([root], context), List.mem_append_left _ (List.mem_append_left _ ?_), ?_⟩
        · exact List.mem_singleton_self _
        · simpa [SdkStatement.typeRefs] using hown
    · obtain ⟨e, he, hname⟩ := ih hrest
      exact ⟨e, List.mem_append_right _ he, hname⟩

/-- What a builder's SDK may refer to: what its types refer to, its models and their classes, and
the SDK's own types. -/
theorem mem_refs_finish (h : b.Holds p) (hevents : b.events.isEmpty = !b.hasEvents) {name : Str}
    (hname : name ∈ b.finish.flatMap SdkStatement.typeRefs) :
    (∃ e ∈ b.schemas.sections, name ∈ e.2.refs) ∨ (∃ ty, p ty ∧ name ∈ ty.refs) ∨
      (∃ m ∈ models b.schemas, name = m ∨ name = modelClassName m) ∨
      name ∈ fixedTypes (!b.hostFunctions.isEmpty) b.hasEvents := by
  have hbound : ∀ {ty : TsType}, p ty → name ∈ ty.refs → ∃ ty, p ty ∧ name ∈ ty.refs :=
    fun hty hrefs => ⟨_, hty, hrefs⟩
  have hfunctionRefs : ∀ {input output : TsType}, p input ∧ p output →
      name ∈ input.refs ++ output.refs → ∃ ty, p ty ∧ name ∈ ty.refs := by
    intro input output htypes hrefs
    rcases List.mem_append.mp hrefs with hrefs | hrefs
    · exact hbound htypes.1 hrefs
    · exact hbound htypes.2 hrefs
  have hhandler : b.events.isEmpty = false → name = "HostEventHandler".toList →
      name ∈ fixedTypes (!b.hostFunctions.isEmpty) b.hasEvents := by
    rintro hsome rfl
    rw [hevents, Bool.not_eq_false'] at hsome
    rw [hsome]
    cases b.hostFunctions.isEmpty <;> decide
  unfold SdkBuilder.finish at hname
  simp only [List.flatMap_append, List.mem_append, or_assoc] at hname
  rcases hname with halias | hhelpers | hclass | hmodels | hfunctions | htypes | hctx | hcontext |
    hdomain | hexport | haggregate
  · rw [List.flatMap_map] at halias
    obtain ⟨e, he, hrefs⟩ := List.mem_flatMap.mp halias
    exact .inl ⟨e, he, hrefs⟩
  · split_ifs at hhelpers
    · cases hhelpers
    · simp only [List.flatMap_singleton, SdkStatement.typeRefs] at hhelpers
      exact .inr (.inr (.inl ⟨name, hhelpers, .inl rfl⟩))
  · rw [List.flatMap_map] at hclass
    obtain ⟨m, hm, hrefs⟩ := List.mem_flatMap.mp hclass
    simp only [SdkStatement.typeRefs, List.mem_cons, List.not_mem_nil, or_false] at hrefs
    exact .inr (.inr (.inl ⟨m, hm, hrefs⟩))
  · split_ifs at hmodels
    · cases hmodels
    · simp only [List.flatMap_singleton, SdkStatement.typeRefs, List.mem_append, List.mem_map] at hmodels
      rcases hmodels with hm | ⟨m, hm, rfl⟩
      · exact .inr (.inr (.inl ⟨name, hm, .inl rfl⟩))
      · exact .inr (.inr (.inl ⟨m, hm, .inr rfl⟩))
  · split_ifs at hfunctions with hnone
    · cases hfunctions
    · simp only [List.flatMap_cons, List.flatMap_nil, SdkStatement.typeRefs, List.nil_append, List.append_nil]
        at hfunctions
      rcases List.mem_append.mp hfunctions with hrefs | hown
      · obtain ⟨e, he, hrefs⟩ := List.mem_flatMap.mp hrefs
        exact .inr (.inl (hfunctionRefs (h.hostFunctions.of_mem_entries he) hrefs))
      · right; right; right
        unfold fixedTypes
        rw [Bool.eq_false_of_not_eq_true hnone]
        exact List.mem_append_left _ (List.mem_append_left _ hown)
  · split_ifs at htypes with hsome
    · simp only [List.flatMap_cons, List.flatMap_nil, SdkStatement.typeRefs, List.append_nil] at htypes
      rcases List.mem_append.mp htypes with hrefs | hown
      · rcases List.mem_append.mp hrefs with hrefs | hrefs
        · obtain ⟨e, he, hrefs⟩ := List.mem_flatMap.mp hrefs
          exact .inr (.inl (hbound (h.hostEvents.of_mem_entries he) hrefs))
        · obtain ⟨e, he, hrefs⟩ := List.mem_flatMap.mp hrefs
          exact .inr (.inl (hbound (h.hostReplies.of_mem_entries he) hrefs))
      · right; right; right
        unfold fixedTypes
        rw [hsome]
        exact List.mem_append_left _ (List.mem_append_right _ hown)
    · cases htypes
  · right; right; right
    rw [List.flatMap_singleton] at hctx
    revert hctx
    have hsubset : ∀ functions events, SdkStatement.typeRefs (.ctxExport events) ⊆ fixedTypes functions events := by
      decide
    exact fun hctx => hsubset _ _ hctx
  · obtain ⟨e, he, hrefs⟩ := mem_refs_contextExports hcontext
    exact .inr (.inl (hbound (h.contexts.of_mem he) hrefs))
  · rw [List.flatMap_map] at hdomain
    obtain ⟨e, he, hrefs⟩ := List.mem_flatMap.mp hdomain
    obtain ⟨binding, hbinding, hrefs⟩ := List.mem_flatMap.mp hrefs
    obtain ⟨path, hpath⟩ := Expression.mem_renderExports he hbinding
    have hholds := h.domainTree.of_mem hpath
    cases binding with
    | function f =>
      right; left
      apply hfunctionRefs hholds
      unfold SdkDomainBinding.typeRefs at hrefs
      rcases List.mem_append.mp hrefs with hinput | houtput
      · split_ifs at hinput
        · exact List.mem_append_left _ hinput
        · cases hinput
      · exact List.mem_append_right _ houtput
    | eventAlias _ => exact .inr (.inr (.inr (hhandler hholds (List.mem_singleton.mp hrefs))))
  · split_ifs at hexport with hnone
    · cases hexport
    · rw [List.flatMap_singleton] at hexport
      have hsome := Bool.eq_false_of_not_eq_true hnone
      exact .inr (.inr (.inr (hhandler hsome (List.mem_singleton.mp hexport))))
  · cases haggregate

theorem modelClassName_mem_refs {m : Str} (hm : m ∈ models b.schemas) :
    modelClassName m ∈ b.finish.flatMap SdkStatement.typeRefs := by
  apply List.mem_flatMap.mpr
  refine ⟨.modelClass m, ?_, List.mem_cons_of_mem _ List.mem_cons_self⟩
  unfold SdkBuilder.finish
  simp only [List.mem_append, or_assoc]
  exact .inr (.inr (.inl (List.mem_map_of_mem hm)))

theorem mem_typeStatements_finish {name : Str} :
    name ∈ b.finish.flatMap SdkStatement.typeStatements ↔
      name ∈ b.schemas.names ∨ name ∈ fixedTypes (!b.hostFunctions.isEmpty) b.hasEvents := by
  rw [flatMap_finish b SdkStatement.typeStatements (fun _ => []) (fun _ _ => rfl) fun _ _ => rfl]
  have hnames : (b.schemas.sections.flatMap fun e => [e.1]) = b.schemas.names :=
    List.map_eq_flatMap.symm
  unfold fixedTypes SdkStatement.typeStatements SdkStatement.typeNames
  generalize models b.schemas = models
  cases models <;> cases b.hostFunctions.isEmpty <;> cases b.hasEvents <;>
    simp only [List.isEmpty_nil, List.isEmpty_cons, Bool.not_true, Bool.not_false, ↓reduceIte,
      Bool.false_eq_true, ite_self, hnames, List.nil_append, List.append_nil, flatMap_const_nil,
      List.mem_append, or_assoc]

end Sdk

end RustTS.Registry
