import RustTS.Lib.Settling
import RustTS.Contract.SchemaDerive

/-! What the shape of a type refers to: the names of the types that its fields refer to, what the
types written out within it refer to, and the `#[rustts(type)]` texts of its fields. -/
namespace RustTS.Contract
open Settling

variable {ι : Type}

private theorem fieldRefs_append (fields fields' : List TsField) :
    fieldRefs (fields ++ fields') = fieldRefs fields ++ fieldRefs fields' := by
  induction fields with
  | nil => rfl
  | cons field fields ih =>
    obtain ⟨name, ty, isOptional⟩ := field
    show ty.refs ++ fieldRefs (fields ++ fields') = _
    rw [ih]
    exact (List.append_assoc ..).symm

theorem mem_typeRefs {types : List TsType} {name : Str} :
    name ∈ typeRefs types ↔ ∃ ty ∈ types, name ∈ ty.refs := by
  induction types with
  | nil => simp [typeRefs]
  | cons ty types ih => simp [typeRefs, ih]

/-- The names that an enum variant refers to. -/
def TsEnumVariant.refs (variant : TsEnumVariant) : List Str := variantRefs [variant]

theorem mem_variantRefs {variants : List TsEnumVariant} {name : Str} :
    name ∈ variantRefs variants ↔ ∃ variant ∈ variants, name ∈ variant.refs := by
  induction variants with
  | nil => simp [variantRefs]
  | cons variant variants ih =>
    obtain ⟨key, fields, rest⟩ := variant
    cases rest with
    | none => simp [variantRefs, TsEnumVariant.refs, ih]
    | some rest => simp [variantRefs, TsEnumVariant.refs, ih, or_assoc]

/-- All names that the type refers to have the property. -/
def TsType.Within (P : Str → Prop) (ty : TsType) : Prop := ∀ name ∈ ty.refs, P name

def ObjectSchema.Within (P : Str → Prop) (object : ObjectSchema) : Prop :=
  (∀ name ∈ fieldRefs object.fields, P name) ∧ ∀ rest ∈ object.rest, rest.Within P

namespace ObjectSchema

variable {P : Str → Prop} {object object' : ObjectSchema}

theorem within_field (h : object.Within P) {name : Str} {ty : TsType} {isOptional : Bool}
    (hty : ty.Within P) : (object.field (.mk name ty isOptional)).Within P := by
  refine ⟨fun ref href => ?_, h.2⟩
  unfold ObjectSchema.field at href
  rw [fieldRefs_append, List.mem_append] at href
  rcases href with href | href
  · exact h.1 ref href
  · apply hty
    simpa [fieldRefs] using href

theorem within_mergeFields (h : object.Within P) {allOptional : Bool} {fields : List TsField}
    (hfields : ∀ name ∈ fieldRefs fields, P name)
    (hmerged : object.mergeFields allOptional fields = .ok object') : object'.Within P := by
  induction fields generalizing object with
  | nil =>
    cases hmerged
    exact h
  | cons field fields ih =>
    obtain ⟨name, ty, isOptional⟩ := field
    unfold mergeFields at hmerged
    split_ifs at hmerged
    refine ih (within_field h fun ref href => ?_) (fun ref href => ?_) hmerged
    · exact hfields ref (List.mem_append_left _ href)
    · exact hfields ref (List.mem_append_right _ href)

theorem within_mergeRest (h : object.Within P) {rest : TsType} (hrest : rest.Within P)
    (hmerged : object.mergeRest rest = .ok object') : object'.Within P := by
  unfold mergeRest at hmerged
  split at hmerged
  · cases hmerged
    refine ⟨h.1, fun rest' hrest' => ?_⟩
    cases hrest'
    exact hrest
  · split_ifs at hmerged
    cases hmerged
    exact h

theorem within_flatten (h : object.Within P) {ty : TsType} (hty : ty.Within P)
    {allOptional : Bool} {requirement : Str}
    (hmerged : object.flatten ty allOptional requirement = .ok object') : object'.Within P := by
  cases ty with
  | object fields => exact within_mergeFields h hty hmerged
  | openObject fields rest =>
    have hmerged : ((object.mergeFields allOptional fields).bind fun object =>
        object.mergeRest rest) = .ok object' := hmerged
    cases hfields : object.mergeFields allOptional fields with
    | error error =>
      rw [hfields] at hmerged
      cases hmerged
    | ok between =>
      rw [hfields] at hmerged
      have hbetween : between.Within P :=
        within_mergeFields h (fun name hname => hty name (List.mem_append_left _ hname)) hfields
      exact within_mergeRest hbetween (fun name hname => hty name (List.mem_append_right _ hname))
        hmerged
  | record key value =>
    cases key with
    | string => exact within_mergeRest h (show value.Within P from hty) hmerged
    | number => cases hmerged
  | json => exact within_mergeRest h (show TsType.json.Within P from hty) hmerged
  | null | void =>
    cases hmerged
    exact h
  | _ => cases hmerged

private theorem within_intoType (h : object.Within P) : object.intoType.Within P := by
  unfold intoType TsType.ofObject
  cases hrest : object.rest with
  | none => exact h.1
  | some rest =>
    intro name hname
    rcases List.mem_append.mp hname with hname | hname
    · exact h.1 name hname
    · exact h.2 rest hrest name hname

theorem within_intoVariant (h : object.Within P) {key : Str} :
    ∀ name ∈ (object.intoVariant key).refs, P name := by
  intro name hname
  unfold intoVariant TsEnumVariant.refs at hname
  cases hrest : object.rest with
  | none =>
    rw [hrest] at hname
    apply h.1
    simpa [variantRefs] using hname
  | some rest =>
    rw [hrest] at hname
    simp only [variantRefs, List.append_nil, List.mem_append] at hname
    rcases hname with hname | hname
    · exact h.1 name hname
    · exact h.2 rest hrest name hname

end ObjectSchema

theorem SchemaShape.mem_of_transparentField {shape : SchemaShape ι} {field : SchemaField ι}
    (h : shape.transparentField = some field) : field ∈ shape.fields := by
  unfold SchemaShape.transparentField at h
  split at h
  · next only hfields =>
    cases h
    rw [hfields]
    exact List.mem_singleton_self _
  · split at h
    · next only hforwarded =>
      cases h
      have hmem : field ∈ shape.fields.filter SchemaField.isForwarded := by
        rw [hforwarded]
        exact List.mem_singleton_self _
      exact (List.mem_filter.mp hmem).1
    · cases h

/-- Whether the field crosses in one of the given directions. -/
def SchemaField.crosses (field : SchemaField ι) (directions : Directions) : Bool :=
  (directions.encode && !field.skipSerializing) || (directions.decode && !field.skipDeserializing)

theorem SchemaField.presence_ne_omitted {field : SchemaField ι} {directions : Directions}
    {containerDefault : Bool} : field.presence directions containerDefault ≠ .omitted ↔
      field.crosses directions = true := by
  unfold presence crosses outputPresence inputPresence
  rcases directions with ⟨_ | _, _ | _⟩ <;> cases field.skipSerializing <;>
    cases field.skipDeserializing <;> simp <;> split_ifs <;> simp

/-- A type is shown by the schema of a derived type: the wire type, the field of a transparent
struct, or a field of the struct, or of a variant that is described, which crosses. A field with a
`#[rustts(type)]` text shows the text instead. -/
inductive DerivedType.Shows (type : DerivedType ι) : RustType ι → Prop
  | wire {ty : RustType ι} (hwire : type.wireType = some ty) : Shows type ty
  | transparent {field : SchemaField ι} (hwire : type.wireType = none)
    (hforwards : type.transparentField = some field) (htext : field.tsType = none) :
    Shows type field.ty
  | field {shape : SchemaShape ι} {field : SchemaField ι} (hwire : type.wireType = none)
    (hforwards : type.transparentField = none) (hbody : type.body = .struct shape)
    (hfield : field ∈ shape.fields) (hcrosses : field.crosses type.schemaDirections = true)
    (htext : field.tsType = none) : Shows type field.ty
  | variantField {variants : List (SchemaVariant ι)} {variant : SchemaVariant ι}
    {field : SchemaField ι} (hwire : type.wireType = none)
    (hforwards : type.transparentField = none) (hbody : type.body = .enum variants)
    (hvariant : variant ∈ variants) (hdescribed : variant.skippedIn type.schemaDirections = false)
    (hfield : field ∈ variant.shape.fields) (hcrosses : field.crosses type.schemaDirections = true)
    (htext : field.tsType = none) : Shows type field.ty

/-- The second type is that of a field, or of what a container holds. -/
inductive RustType.Holds (types : ι → DerivedType ι) : RustType ι → RustType ι → Prop
  | option {inner : RustType ι} : Holds types (.option inner) inner
  | list {item : RustType ι} : Holds types (.list item) item
  | fixedList {item : RustType ι} {length : ℕ} : Holds types (.fixedList item length) item
  | map {key : TsRecordKey} {value : RustType ι} : Holds types (.map key value) value
  | tuple {items : List (RustType ι)} {item : RustType ι} (h : item ∈ items) :
    Holds types (.tuple items) item
  | named {id : ι} {inner : RustType ι} (h : (types id).Shows inner) : Holds types (.named id) inner

theorem SchemaField.dependency_eq_some {field : SchemaField ι} {ty : RustType ι} :
    field.dependency = some ty ↔ field.tsType = none ∧ field.ty = ty := by
  unfold dependency
  cases field.tsType <;> simp

theorem SchemaShape.mem_dependencies {shape : SchemaShape ι} {directions : Directions}
    {containerDefault : Bool} {ty : RustType ι} :
    ty ∈ shape.dependencies directions containerDefault ↔ ∃ field ∈ shape.fields,
      field.crosses directions = true ∧ field.tsType = none ∧ field.ty = ty := by
  unfold dependencies
  simp only [List.mem_filterMap, List.mem_filter, decide_eq_true_eq,
    SchemaField.presence_ne_omitted, SchemaField.dependency_eq_some, and_assoc]

/-- What a derived type pushes is what its schema shows. -/
theorem DerivedType.mem_dependencies {type : DerivedType ι} {ty : RustType ι} :
    ty ∈ type.dependencies ↔ type.Shows ty := by
  unfold dependencies
  constructor
  · intro h
    cases hwire : type.wireType with
    | some wire =>
      rw [hwire] at h
      rw [List.mem_singleton.mp h]
      exact .wire hwire
    | none =>
      rw [hwire] at h
      cases hforwards : type.transparentField with
      | some field =>
        rw [hforwards] at h
        obtain ⟨htext, rfl⟩ := SchemaField.dependency_eq_some.mp (Option.mem_toList.mp h)
        exact .transparent hwire hforwards htext
      | none =>
        rw [hforwards] at h
        obtain ⟨⟨shape, containerDefault⟩, hshape, h⟩ := List.mem_flatMap.mp h
        obtain ⟨field, hfield, hcrosses, htext, rfl⟩ := SchemaShape.mem_dependencies.mp h
        unfold describedShapes at hshape
        cases hbody : type.body with
        | struct shape' =>
          rw [hbody] at hshape
          cases List.mem_singleton.mp hshape
          exact .field hwire hforwards hbody hfield hcrosses htext
        | enum variants =>
          rw [hbody] at hshape
          obtain ⟨variant, hvariant, hsame⟩ := List.mem_map.mp hshape
          cases hsame
          obtain ⟨hvariant, hdescribed⟩ := List.mem_filter.mp hvariant
          exact .variantField hwire hforwards hbody hvariant (by simpa using hdescribed) hfield
            hcrosses htext
  · intro h
    cases h with
    | wire hwire =>
      rw [hwire]
      exact List.mem_singleton_self _
    | transparent hwire hforwards htext =>
      rw [hwire, hforwards]
      exact Option.mem_toList.mpr (SchemaField.dependency_eq_some.mpr ⟨htext, rfl⟩)
    | @field shape field hwire hforwards hbody hfield hcrosses htext =>
      rw [hwire, hforwards]
      refine List.mem_flatMap.mpr ⟨(shape, type.default), ?_, ?_⟩
      · unfold describedShapes
        rw [hbody]
        exact List.mem_singleton_self _
      · exact SchemaShape.mem_dependencies.mpr ⟨field, hfield, hcrosses, htext, rfl⟩
    | @variantField variants variant field hwire hforwards hbody hvariant hdescribed hfield hcrosses
        htext =>
      rw [hwire, hforwards]
      refine List.mem_flatMap.mpr ⟨(variant.shape, false), ?_, ?_⟩
      · unfold describedShapes
        rw [hbody]
        refine List.mem_map.mpr ⟨variant, List.mem_filter.mpr ⟨hvariant, ?_⟩, rfl⟩
        simp [hdescribed]
      · exact SchemaShape.mem_dependencies.mpr ⟨field, hfield, hcrosses, htext, rfl⟩

/-- What a type pushes is what it holds. -/
theorem RustType.mem_pushed {types : ι → DerivedType ι} {ty inner : RustType ι} :
    inner ∈ ty.pushed types ↔ Holds types ty inner := by
  constructor
  · intro h
    cases ty with
    | named id => exact .named (DerivedType.mem_dependencies.mp h)
    | tuple items => exact .tuple h
    | option _ | list _ | fixedList _ _ | map _ _ =>
      cases List.mem_singleton.mp h
      constructor
    | _ => cases h
  · intro h
    cases h with
    | named h => exact DerivedType.mem_dependencies.mpr h
    | tuple h => exact h
    | _ => exact List.mem_singleton_self _

namespace DerivedType

variable (type : DerivedType ι)

/-- The types that the object of some fields refers to, and those it merges. -/
def fieldReferences (containerDefault : Bool) (fields : List (SchemaField ι)) :
    List (RustType ι) :=
  (fields.filter fun field => field.presence type.schemaDirections containerDefault ≠ .omitted ∧
    field.flatten = false).filterMap SchemaField.dependency

def fieldMerges (containerDefault : Bool) (fields : List (SchemaField ι)) : List (RustType ι) :=
  (fields.filter fun field => field.presence type.schemaDirections containerDefault ≠ .omitted ∧
    field.flatten = true).map (·.flattened.1)

/-- The types that a shape refers to, and those it merges. -/
def shapeReferences (containerDefault : Bool) : SchemaShape ι → List (RustType ι)
  | .unit => []
  | .newtype field => field.dependency.toList
  | .tuple fields => (fields.filter fun field =>
      field.presence type.schemaDirections false ≠ .omitted).filterMap SchemaField.dependency
  | .struct fields => type.fieldReferences containerDefault fields

def shapeMerges (containerDefault : Bool) : SchemaShape ι → List (RustType ι)
  | .struct fields => type.fieldMerges containerDefault fields
  | _ => []

def variantReferences (variant : SchemaVariant ι) : List (RustType ι) :=
  match type.tagging, variant.shape with
  | .internal _, .newtype _ => []
  | .internal _, .tuple fields => type.fieldReferences false fields
  | _, shape => type.shapeReferences false shape

def variantMerges (variant : SchemaVariant ι) : List (RustType ι) :=
  match type.tagging, variant.shape with
  | .internal _, .newtype field => [field.ty]
  | .internal _, .tuple fields => type.fieldMerges false fields
  | _, shape => type.shapeMerges false shape

/-- The types that a type's shape refers to. -/
def references : List (RustType ι) :=
  match type.wireType, type.transparentField with
  | some wire, _ => [wire]
  | none, some field => field.dependency.toList
  | none, none =>
    match type.body with
    | .struct shape => type.shapeReferences type.default shape
    | .enum variants => (type.describedVariants variants).flatMap type.variantReferences

/-- The types whose shapes are merged into a type's own. -/
def merges : List (RustType ι) :=
  match type.wireType, type.transparentField with
  | some _, _ => []
  | none, some _ => []
  | none, none =>
    match type.body with
    | .struct shape => type.shapeMerges type.default shape
    | .enum variants => (type.describedVariants variants).flatMap type.variantMerges

/-- The `#[rustts(type)]` texts of a type's fields. -/
def texts : List Str :=
  type.describedShapes.flatMap fun described => described.1.fields.filterMap (·.tsType)

/-- No type is used by the shape without its schema being pushed: the field of a newtype crosses, or
shows a text, and neither a flattened field nor the payload of an internally tagged variant has a
text. -/
structure Regular : Prop where
  newtype : ∀ described ∈ type.describedShapes, ∀ field, described.1 = .newtype field →
    field.crosses type.schemaDirections = true ∨ field.tsType ≠ none
  flattened : ∀ described ∈ type.describedShapes, ∀ field ∈ described.1.fields,
    field.flatten = true → field.crosses type.schemaDirections = true → field.tsType = none
  payload : ∀ tag, type.tagging = .internal tag → ∀ variants, type.body = .enum variants →
    ∀ variant ∈ variants, ∀ field, variant.shape = .newtype field → field.tsType = none

section Covered
variable {type} {containerDefault : Bool} {fields : List (SchemaField ι)} {shape : SchemaShape ι}
  {ty : RustType ι}

theorem mem_fieldReferences (h : ty ∈ type.fieldReferences containerDefault fields) :
    ∃ field ∈ fields, field.crosses type.schemaDirections = true ∧ field.tsType = none ∧
      field.ty = ty := by
  obtain ⟨field, hfield, hty⟩ := List.mem_filterMap.mp h
  obtain ⟨hfield, hshown⟩ := List.mem_filter.mp hfield
  have hshown := of_decide_eq_true hshown
  obtain ⟨htext, rfl⟩ := SchemaField.dependency_eq_some.mp hty
  exact ⟨field, hfield, SchemaField.presence_ne_omitted.mp hshown.1, htext, rfl⟩

theorem mem_fieldMerges (h : ty ∈ type.fieldMerges containerDefault fields) :
    ∃ field ∈ fields, field.crosses type.schemaDirections = true ∧ field.flatten = true ∧
      (field.ty = ty ∨ field.ty = .option ty) := by
  obtain ⟨field, hfield, rfl⟩ := List.mem_map.mp h
  obtain ⟨hfield, hshown⟩ := List.mem_filter.mp hfield
  have hshown := of_decide_eq_true hshown
  refine ⟨field, hfield, SchemaField.presence_ne_omitted.mp hshown.1, hshown.2, ?_⟩
  unfold SchemaField.flattened SchemaField.optionInner
  cases hty : field.ty with
  | option inner =>
    cases field.isAlias with
    | true => exact .inl rfl
    | false => exact .inr rfl
  | _ => exact .inl rfl

theorem mem_shapeReferences
    (hnewtype : ∀ field, shape = .newtype field →
      field.crosses type.schemaDirections = true ∨ field.tsType ≠ none)
    (h : ty ∈ type.shapeReferences containerDefault shape) : ∃ field ∈ shape.fields,
      field.crosses type.schemaDirections = true ∧ field.tsType = none ∧ field.ty = ty := by
  cases shape with
  | unit => cases h
  | newtype field =>
    obtain ⟨htext, rfl⟩ := SchemaField.dependency_eq_some.mp (Option.mem_toList.mp h)
    have hcrosses := (hnewtype field rfl).resolve_right fun hne => hne htext
    exact ⟨field, List.mem_singleton_self _, hcrosses, htext, rfl⟩
  | tuple fields =>
    obtain ⟨field, hfield, hty⟩ := List.mem_filterMap.mp h
    obtain ⟨hfield, hshown⟩ := List.mem_filter.mp hfield
    obtain ⟨htext, rfl⟩ := SchemaField.dependency_eq_some.mp hty
    have hcrosses := SchemaField.presence_ne_omitted.mp (of_decide_eq_true hshown)
    exact ⟨field, hfield, hcrosses, htext, rfl⟩
  | struct fields => exact mem_fieldReferences h

theorem mem_shapeMerges
    (hflattened : ∀ field ∈ shape.fields, field.flatten = true →
      field.crosses type.schemaDirections = true → field.tsType = none)
    (h : ty ∈ type.shapeMerges containerDefault shape) : ∃ field ∈ shape.fields,
      field.crosses type.schemaDirections = true ∧ field.tsType = none ∧
        (field.ty = ty ∨ field.ty = .option ty) := by
  cases shape with
  | struct fields =>
    obtain ⟨field, hfield, hcrosses, hflatten, hty⟩ := mem_fieldMerges h
    exact ⟨field, hfield, hcrosses, hflattened field hfield hflatten hcrosses, hty⟩
  | _ => cases h

theorem described_of_variant {variants : List (SchemaVariant ι)} {variant : SchemaVariant ι}
    (hbody : type.body = .enum variants) (hvariant : variant ∈ type.describedVariants variants) :
    (variant.shape, false) ∈ type.describedShapes := by
  unfold describedShapes
  rw [hbody]
  exact List.mem_map_of_mem hvariant

private theorem Regular.of_variantReferences (h : type.Regular) {variant : SchemaVariant ι}
    (hdescribed : (variant.shape, false) ∈ type.describedShapes)
    (hty : ty ∈ type.variantReferences variant) : ∃ field ∈ variant.shape.fields,
      field.crosses type.schemaDirections = true ∧ field.tsType = none ∧ field.ty = ty := by
  unfold variantReferences at hty
  split at hty
  · cases hty
  · next hshape =>
    rw [hshape]
    exact mem_fieldReferences hty
  · exact mem_shapeReferences (h.newtype _ hdescribed) hty

theorem Regular.of_variantMerges (h : type.Regular) {variants : List (SchemaVariant ι)}
    {variant : SchemaVariant ι} (hbody : type.body = .enum variants) (hvariant : variant ∈ variants)
    (hdescribed : (variant.shape, false) ∈ type.describedShapes)
    (hty : ty ∈ type.variantMerges variant) : ∃ field ∈ variant.shape.fields,
      field.crosses type.schemaDirections = true ∧ field.tsType = none ∧
        (field.ty = ty ∨ field.ty = .option ty) := by
  unfold variantMerges at hty
  split at hty
  · next tag field htag hshape =>
    have htext := h.payload tag htag variants hbody variant hvariant field hshape
    have hcrosses := (h.newtype _ hdescribed field hshape).resolve_right fun hne => hne htext
    rw [List.mem_singleton.mp hty, hshape]
    exact ⟨field, List.mem_singleton_self _, hcrosses, htext, .inl rfl⟩
  · next fields htag hshape =>
    obtain ⟨field, hfield, hcrosses, hflatten, hmerged⟩ := mem_fieldMerges hty
    have hmem : field ∈ variant.shape.fields := by
      rw [hshape]
      exact hfield
    exact ⟨field, hmem, hcrosses, h.flattened _ hdescribed field hmem hflatten hcrosses, hmerged⟩
  · exact mem_shapeMerges (h.flattened _ hdescribed) hty

/-- What a regular type's shape refers to is shown. -/
theorem Regular.shows_of_references (h : type.Regular) (hty : ty ∈ type.references) :
    type.Shows ty := by
  unfold references at hty
  cases hwire : type.wireType with
  | some wire =>
    rw [hwire] at hty
    rw [List.mem_singleton.mp hty]
    exact .wire hwire
  | none =>
    rw [hwire] at hty
    cases hforwards : type.transparentField with
    | some field =>
      rw [hforwards] at hty
      obtain ⟨htext, rfl⟩ := SchemaField.dependency_eq_some.mp (Option.mem_toList.mp hty)
      exact .transparent hwire hforwards htext
    | none =>
      rw [hforwards] at hty
      cases hbody : type.body with
      | struct shape =>
        rw [hbody] at hty
        have hdescribed : (shape, type.default) ∈ type.describedShapes := by
          unfold describedShapes
          rw [hbody]
          exact List.mem_singleton_self _
        obtain ⟨field, hfield, hcrosses, htext, rfl⟩ :=
          mem_shapeReferences (h.newtype _ hdescribed) hty
        exact .field hwire hforwards hbody hfield hcrosses htext
      | enum variants =>
        rw [hbody] at hty
        obtain ⟨variant, hvariant, hty⟩ := List.mem_flatMap.mp hty
        have hdescribed := described_of_variant hbody hvariant
        obtain ⟨hmem, hskipped⟩ := List.mem_filter.mp hvariant
        obtain ⟨field, hfield, hcrosses, htext, rfl⟩ := h.of_variantReferences hdescribed hty
        exact .variantField hwire hforwards hbody hmem (by simpa using hskipped) hfield hcrosses htext

/-- So is what it merges, as it is or as an `Option`. -/
theorem Regular.shows_of_merges (h : type.Regular) (hty : ty ∈ type.merges) :
    type.Shows ty ∨ type.Shows (.option ty) := by
  unfold merges at hty
  have hshows : ∀ field : SchemaField ι, type.Shows field.ty →
      field.ty = ty ∨ field.ty = .option ty → type.Shows ty ∨ type.Shows (.option ty) := by
    intro field hfield hty
    rcases hty with hty | hty
    · exact .inl (hty ▸ hfield)
    · exact .inr (hty ▸ hfield)
  cases hwire : type.wireType with
  | some wire =>
    rw [hwire] at hty
    cases hty
  | none =>
    rw [hwire] at hty
    cases hforwards : type.transparentField with
    | some field =>
      rw [hforwards] at hty
      cases hty
    | none =>
      rw [hforwards] at hty
      cases hbody : type.body with
      | struct shape =>
        rw [hbody] at hty
        have hdescribed : (shape, type.default) ∈ type.describedShapes := by
          unfold describedShapes
          rw [hbody]
          exact List.mem_singleton_self _
        obtain ⟨field, hfield, hcrosses, htext, hmerged⟩ :=
          mem_shapeMerges (h.flattened _ hdescribed) hty
        exact hshows field (.field hwire hforwards hbody hfield hcrosses htext) hmerged
      | enum variants =>
        rw [hbody] at hty
        obtain ⟨variant, hvariant, hty⟩ := List.mem_flatMap.mp hty
        have hdescribed := described_of_variant hbody hvariant
        obtain ⟨hmem, hskipped⟩ := List.mem_filter.mp hvariant
        obtain ⟨field, hfield, hcrosses, htext, hmerged⟩ :=
          h.of_variantMerges hbody hmem hdescribed hty
        exact hshows field (.variantField hwire hforwards hbody hmem (by simpa using hskipped) hfield
          hcrosses htext) hmerged

end Covered

section Settled
variable {type} {P : Str → Prop} {ref inline : RustType ι → ℕ → Built TsType}

theorem typeRef_settled {field : SchemaField ι} (htext : ∀ text, field.tsType = some text → P text)
    (href : ∀ ty ∈ field.dependency.toList, Settled True (TsType.Within P) (ref ty)) :
    Settled True (TsType.Within P) fun n => field.typeRef fun ty => ref ty n := by
  unfold SchemaField.typeRef
  unfold SchemaField.dependency at href
  cases htype : field.tsType with
  | some text =>
    refine .pure fun name hname => ?_
    rw [List.mem_singleton.mp hname]
    exact htext text htype
  | none =>
    rw [htype] at href
    exact href field.ty (List.mem_singleton_self _)

theorem flattenStep_settled {object : ObjectSchema} (hobject : object.Within P)
    {ty : RustType ι}
    (hinline : Settled True (TsType.Within P) (inline ty)) (allOptional : Bool) (requirement : Str) :
    Settled True (ObjectSchema.Within P) fun n =>
      flattenStep (fun ty => inline ty n) object ty allOptional requirement := by
  refine hinline.bind fun merged hmerged => .ofExcept ?_
  cases hok : object.flatten merged allOptional requirement with
  | error error => exact trivial
  | ok object' => exact ObjectSchema.within_flatten hobject hmerged hok

theorem objectSchema_settled {containerDefault : Bool} {fields : List (SchemaField ι)}
    (htext : ∀ field ∈ fields, ∀ text, field.tsType = some text → P text)
    (href : ∀ ty ∈ type.fieldReferences containerDefault fields,
      Settled True (TsType.Within P) (ref ty))
    (hinline : ∀ ty ∈ type.fieldMerges containerDefault fields,
      Settled True (TsType.Within P) (inline ty)) :
    Settled True (ObjectSchema.Within P) fun n =>
      type.objectSchema (fun ty => ref ty n) (fun ty => inline ty n) containerDefault fields := by
  refine .foldlM ⟨nofun, nofun⟩ fun object hobject field hfield => ?_
  unfold DerivedType.fieldStep
  by_cases hpresence : field.presence type.schemaDirections containerDefault = .omitted
  · simp only [hpresence, if_true]
    exact .pure hobject
  · simp only [hpresence, if_false]
    cases hflatten : field.flatten with
    | true =>
      simp only [if_true]
      have hmerged : field.flattened.1 ∈ type.fieldMerges containerDefault fields := by
        refine List.mem_map.mpr ⟨field, List.mem_filter.mpr ⟨hfield, ?_⟩, rfl⟩
        exact decide_eq_true ⟨hpresence, hflatten⟩
      exact flattenStep_settled hobject (hinline _ hmerged) _ _
    | false =>
      simp only [Bool.false_eq_true, if_false]
      have hty := typeRef_settled (htext field hfield) fun ty hty => href ty (by
        refine List.mem_filterMap.mpr ⟨field, List.mem_filter.mpr ⟨hfield, ?_⟩, ?_⟩
        · exact decide_eq_true ⟨hpresence, hflatten⟩
        · exact Option.mem_toList.mp hty)
      exact hty.bind fun ty hty => .pure (ObjectSchema.within_field hobject hty)

theorem shapeType_settled {containerDefault : Bool} {shape : SchemaShape ι}
    (htext : ∀ field ∈ shape.fields, ∀ text, field.tsType = some text → P text)
    (href : ∀ ty ∈ type.shapeReferences containerDefault shape,
      Settled True (TsType.Within P) (ref ty))
    (hinline : ∀ ty ∈ type.shapeMerges containerDefault shape,
      Settled True (TsType.Within P) (inline ty)) :
    Settled True (TsType.Within P) fun n =>
      type.shapeType (fun ty => ref ty n) (fun ty => inline ty n) containerDefault shape := by
  cases shape with
  | unit => exact .pure nofun
  | newtype field => exact typeRef_settled (htext field (List.mem_singleton_self _)) href
  | tuple fields =>
    have hitems : ∀ field ∈ fields.filter fun field =>
        field.presence type.schemaDirections false ≠ .omitted,
        Settled True (TsType.Within P) fun n => field.typeRef fun ty => ref ty n := by
      intro field hfield
      apply typeRef_settled (htext field (List.mem_filter.mp hfield).1)
      intro ty hty
      exact href ty (List.mem_filterMap.mpr ⟨field, hfield, Option.mem_toList.mp hty⟩)
    refine (Settled.mapM hitems).bind fun items hitems => .pure fun name hname => ?_
    obtain ⟨ty, hty, hname⟩ := mem_typeRefs.mp hname
    exact hitems ty hty name hname
  | struct fields =>
    refine (objectSchema_settled htext href hinline).bind fun object hobject => .pure ?_
    exact ObjectSchema.within_intoType hobject

theorem internalVariant_settled {variant : SchemaVariant ι} {tag : Str}
    (htag : type.tagging = .internal tag)
    (htext : ∀ field ∈ variant.shape.fields, ∀ text, field.tsType = some text → P text)
    (href : ∀ ty ∈ type.variantReferences variant, Settled True (TsType.Within P) (ref ty))
    (hinline : ∀ ty ∈ type.variantMerges variant, Settled True (TsType.Within P) (inline ty)) :
    Settled True (fun variant => ∀ name ∈ variant.refs, P name) fun n =>
      type.internalVariant (fun ty => ref ty n) (fun ty => inline ty n) variant := by
  unfold DerivedType.internalVariant
  unfold variantReferences at href
  unfold variantMerges at hinline
  rw [htag] at href hinline
  cases hshape : variant.shape with
  | unit => exact .pure nofun
  | newtype field =>
    rw [hshape] at hinline
    have hnew : ObjectSchema.new.Within P := ⟨nofun, nofun⟩
    have hpayload := hinline field.ty (List.mem_singleton_self _)
    refine (flattenStep_settled hnew hpayload false _).bind fun object hobject => .pure ?_
    exact ObjectSchema.within_intoVariant hobject
  | tuple fields | struct fields =>
    rw [hshape] at htext href hinline
    refine (objectSchema_settled htext href hinline).bind fun object hobject => .pure ?_
    exact ObjectSchema.within_intoVariant hobject

private theorem variant_shape (variant : SchemaVariant ι) (htag : ∀ tag, type.tagging ≠ .internal tag) :
    type.variantReferences variant = type.shapeReferences false variant.shape ∧
      type.variantMerges variant = type.shapeMerges false variant.shape := by
  unfold variantReferences variantMerges
  cases htagging : type.tagging with
  | internal tag => exact absurd htagging (htag tag)
  | _ => exact ⟨rfl, rfl⟩

theorem enumType_settled {variants : List (SchemaVariant ι)}
    (htext : ∀ variant ∈ type.describedVariants variants, ∀ field ∈ variant.shape.fields,
      ∀ text, field.tsType = some text → P text)
    (href : ∀ variant ∈ type.describedVariants variants, ∀ ty ∈ type.variantReferences variant,
      Settled True (TsType.Within P) (ref ty))
    (hinline : ∀ variant ∈ type.describedVariants variants, ∀ ty ∈ type.variantMerges variant,
      Settled True (TsType.Within P) (inline ty)) :
    Settled True (TsType.Within P) fun n =>
      type.enumType (fun ty => ref ty n) (fun ty => inline ty n) variants := by
  have hshape : (∀ tag, type.tagging ≠ .internal tag) →
      ∀ variant ∈ type.describedVariants variants, Settled True (TsType.Within P) fun n =>
        type.shapeType (fun ty => ref ty n) (fun ty => inline ty n) false variant.shape := by
    intro htag variant hvariant
    obtain ⟨hreferences, hmerges⟩ := variant_shape variant htag
    apply shapeType_settled (htext variant hvariant)
    · rw [← hreferences]
      exact href variant hvariant
    · rw [← hmerges]
      exact hinline variant hvariant
  have hunits : ∀ tag : Option Str, (TsType.enum tag
      ((type.describedVariants variants).map type.unitVariant)).Within P := by
    intro tag name hname
    obtain ⟨unit, hunit, hname⟩ := mem_variantRefs.mp hname
    obtain ⟨variant, -, rfl⟩ := List.mem_map.mp hunit
    cases hname
  have htags : ∀ tag : Str, (TsType.union
      ((type.describedVariants variants).map (type.tagObject tag))).Within P := by
    intro tag name hname
    obtain ⟨ty, hty, hname⟩ := mem_typeRefs.mp hname
    obtain ⟨variant, -, rfl⟩ := List.mem_map.mp hty
    cases hname
  have hunion : ∀ types : List TsType, (∀ ty ∈ types, ty.Within P) →
      (TsType.union types).Within P := by
    intro types htypes name hname
    obtain ⟨ty, hty, hname⟩ := mem_typeRefs.mp hname
    exact htypes ty hty name hname
  have henum : ∀ (tag : Option Str) (variants : List TsEnumVariant),
      (∀ variant ∈ variants, ∀ name ∈ variant.refs, P name) →
        (TsType.enum tag variants).Within P := by
    intro tag variants hvariants name hname
    obtain ⟨variant, hvariant, hname⟩ := mem_variantRefs.mp hname
    exact hvariants variant hvariant name hname
  unfold DerivedType.enumType
  dsimp only
  cases htag : type.tagging with
  | external =>
    have hshape := hshape (by simp [htag])
    dsimp only
    split_ifs
    · exact .pure (hunits none)
    · refine (Settled.mapM fun variant hvariant => ?_).map hunion
      unfold DerivedType.externalType
      split_ifs
      · exact .pure nofun
      · refine (hshape variant hvariant).bind fun payload hpayload => .pure ?_
        intro name hname
        apply hpayload
        simpa [TsType.refs, fieldRefs] using hname
  | internal tag =>
    dsimp only
    split_ifs
    · exact .pure (htags tag)
    · refine (Settled.mapM fun variant hvariant => ?_).map (henum (some tag))
      exact internalVariant_settled htag (htext variant hvariant) (href variant hvariant)
        (hinline variant hvariant)
  | adjacent tag content =>
    have hshape := hshape (by simp [htag])
    dsimp only
    split_ifs
    · exact .pure (htags tag)
    · refine (Settled.mapM fun variant hvariant => ?_).map (henum (some tag))
      unfold DerivedType.adjacentVariant
      split_ifs
      · exact .pure nofun
      · refine (hshape variant hvariant).bind fun payload hpayload => .pure ?_
        intro name hname
        apply hpayload
        simpa [TsEnumVariant.refs, variantRefs, fieldRefs] using hname
  | untagged => exact (Settled.mapM (hshape (by simp [htag]))).map hunion

theorem tsType_settled (htext : ∀ text ∈ type.texts, P text)
    (href : ∀ ty ∈ type.references, Settled True (TsType.Within P) (ref ty))
    (hinline : ∀ ty ∈ type.merges, Settled True (TsType.Within P) (inline ty)) :
    Settled True (TsType.Within P) fun n =>
      type.tsType (fun ty => ref ty n) (fun ty => inline ty n) := by
  have htext : ∀ described ∈ type.describedShapes, ∀ field ∈ described.1.fields,
      ∀ text, field.tsType = some text → P text := by
    intro described hdescribed field hfield text hsome
    apply htext
    refine List.mem_flatMap.mpr ⟨described, hdescribed, ?_⟩
    exact List.mem_filterMap.mpr ⟨field, hfield, hsome⟩
  unfold DerivedType.tsType
  unfold references at href
  unfold merges at hinline
  cases hwire : type.wireType with
  | some wire =>
    rw [hwire] at href
    exact href wire (List.mem_singleton_self _)
  | none =>
    rw [hwire] at href hinline
    cases htransparent : type.transparentField with
    | some field =>
      rw [htransparent] at href
      refine typeRef_settled (fun text hsome => ?_) href
      unfold DerivedType.transparentField at htransparent
      unfold DerivedType.describedShapes at htext
      cases hbody : type.body with
      | enum variants =>
        rw [hbody] at htransparent
        cases htransparent
      | struct shape =>
        rw [hbody] at htransparent htext
        dsimp only at htransparent
        split_ifs at htransparent
        apply htext _ (List.mem_singleton_self _) field ?_ text hsome
        exact shape.mem_of_transparentField htransparent
    | none =>
      rw [htransparent] at href hinline
      unfold DerivedType.describedShapes at htext
      cases hbody : type.body with
      | struct shape =>
        rw [hbody] at href hinline htext
        exact shapeType_settled (htext _ (List.mem_singleton_self _)) href hinline
      | enum variants =>
        rw [hbody] at href hinline htext
        apply enumType_settled
        · intro variant hvariant
          exact htext (variant.shape, false) (List.mem_map_of_mem hvariant)
        · intro variant hvariant ty hty
          exact href ty (List.mem_flatMap.mpr ⟨variant, hvariant, hty⟩)
        · intro variant hvariant ty hty
          exact hinline ty (List.mem_flatMap.mpr ⟨variant, hvariant, hty⟩)

end Settled

end DerivedType

namespace RustType

variable (types : ι → DerivedType ι)

/-- Whether the type has a schema name. -/
def declared (ty : RustType ι) : Bool := hasDeclarationName (ty.schemaName types)

def references : RustType ι → List (RustType ι)
  | .named id => (types id).references
  | ty => ty.pushed types

def merges : RustType ι → List (RustType ι)
  | .named id => (types id).merges
  | _ => []

def texts : RustType ι → List Str
  | .named id => (types id).texts
  | _ => []

/-- The first type is written out where the second is, or its dependencies are gathered there
without a name of its own to stop at. -/
def Unfolds (inner ty : RustType ι) : Prop :=
  (inner.declared types = false ∧ (inner ∈ ty.references types ∨ inner ∈ ty.pushed types)) ∨
    inner ∈ ty.merges types

variable {types}

/-- The shape of a type comes out, or a flattened value cannot be merged; what it refers to has any
property that is closed under writing types out. -/
theorem tsType_settled {P : RustType ι → Str → Prop}
    (hname : ∀ ty, ∀ inner ∈ ty.references types, inner.declared types = true →
      P ty (inner.schemaName types))
    (hinner : ∀ ty inner, inner.declared types = false ∧ inner ∈ ty.references types ∨
      inner ∈ ty.merges types → ∀ name, P inner name → P ty name)
    (htext : ∀ ty, ∀ text ∈ ty.texts types, P ty text) {ty : RustType ι}
    (hacc : Acc (Unfolds types) ty) :
    Settled True (TsType.Within (P ty)) fun n => tsType types n ty := by
  induction hacc with
  | intro ty _ ih =>
    have href : ∀ inner ∈ ty.references types, Settled True (TsType.Within (P ty)) fun n =>
        schemaTypeRef types (tsType types n) inner := by
      intro inner hinto
      unfold schemaTypeRef
      split_ifs with hdeclared
      · refine .pure fun name hmem => ?_
        rw [List.mem_singleton.mp hmem]
        exact hname ty inner hinto hdeclared
      · have hnot : inner.declared types = false := Bool.eq_false_iff.mpr hdeclared
        refine (ih inner (.inl ⟨hnot, .inl hinto⟩)).imp fun t ht name hmem => ?_
        exact hinner ty inner (.inl ⟨hnot, hinto⟩) name (ht name hmem)
    have hmerge : ∀ inner ∈ ty.merges types, Settled True (TsType.Within (P ty)) fun n =>
        tsType types n inner := by
      intro inner hinto
      refine (ih inner (.inr hinto)).imp fun t ht name hmem => ?_
      exact hinner ty inner (.inr hinto) name (ht name hmem)
    apply Settles.of_succ
    show Settled True (TsType.Within (P ty)) fun n => tsTypeWith types (tsType types n) ty
    cases ty with
    | named id =>
      have hderived := DerivedType.tsType_settled (htext (.named id)) href hmerge
      exact hderived
    | option inner | list inner | map _ inner =>
      exact (href inner (List.mem_singleton_self _)).map fun t ht => ht
    | fixedList item length =>
      refine (href item (List.mem_singleton_self _)).bind fun t ht => .pure fun name hmem => ?_
      obtain ⟨t', ht', hmem⟩ := mem_typeRefs.mp hmem
      rw [List.eq_of_mem_replicate ht'] at hmem
      exact ht name hmem
    | tuple items =>
      refine (Settled.mapM href).map fun ts hts name hmem => ?_
      obtain ⟨t, ht, hmem⟩ := mem_typeRefs.mp hmem
      exact hts t ht name hmem
    | _ => exact .pure nofun

end RustType

end RustTS.Contract
