import RustTS.Contract.EnumCodec
import RustTS.Contract.Schema

/-! Schemas of Rust types: what `#[derive(TsSchema)]` and the impls for containers say of a type's
shape, and how the schemas of the types it names are gathered. -/
namespace RustTS.Contract

/-- Rust types as their `TsSchema` impls see them, over the derived types `ι`; pointers are what
they point to. -/
inductive RustType (ι : Type)
  | void
  | boolean
  | number
  | string
  | json
  | nativeBytes
  | named (id : ι)
  | option (inner : RustType ι)
  | list (item : RustType ι)
  | fixedList (item : RustType ι) (length : Nat)
  | map (key : TsRecordKey) (value : RustType ι)
  | tuple (items : List (RustType ι))

/-- Codec directions: `encode` is Rust to JS, `decode` is JS to Rust. -/
structure Directions where
  encode : Bool
  decode : Bool
  deriving DecidableEq, Repr

/-- A field as the schema sees it; `isAlias` says that an `Option` is written under another name. -/
structure SchemaField (ι : Type) where
  ty : RustType ι
  isAlias : Bool
  isPhantom : Bool
  name : Name
  default : Bool
  skipSerializing : Bool
  skipDeserializing : Bool
  skipSerializingIf : Bool
  flatten : Bool
  tsType : Option Str
  schemaRename : Option Str
  schemaOptional : Bool

inductive SchemaShape (ι : Type)
  | unit
  | newtype (field : SchemaField ι)
  | tuple (fields : List (SchemaField ι))
  | struct (fields : List (SchemaField ι))

structure SchemaVariant (ι : Type) where
  name : Name
  shape : SchemaShape ι
  skipSerializing : Bool
  skipDeserializing : Bool
  schemaRename : Option Str

inductive SchemaBody (ι : Type)
  | struct (shape : SchemaShape ι)
  | enum (variants : List (SchemaVariant ι))

/-- A type with `#[derive(TsSchema)]`. -/
structure DerivedType (ι : Type) where
  schemaName : Str
  codecs : Directions
  intoType : Option (RustType ι)
  fromType : Option (RustType ι)
  transparent : Bool
  default : Bool
  tagging : Tagging
  body : SchemaBody ι

/-- Whether a field appears in the single schema shared by input and output. -/
inductive Presence
  | omitted
  | optional
  | required
  deriving DecidableEq, Repr

/-- Object schema assembled field by field. -/
structure ObjectSchema where
  fields : List TsField
  rest : Option TsType

mutual

def TsType.eq : TsType → TsType → Bool
  | .unknown, .unknown | .void, .void | .boolean, .boolean | .number, .number => true
  | .string, .string | .json, .json | .uint8Array, .uint8Array | .null, .null => true
  | .typeRef name, .typeRef name' => name = name'
  | .literal value, .literal value' => value = value'
  | .object fields, .object fields' => fieldsEq fields fields'
  | .openObject fields rest, .openObject fields' rest' => fieldsEq fields fields' && rest.eq rest'
  | .array item, .array item' => item.eq item'
  | .tuple items, .tuple items' => typesEq items items'
  | .enum tag variants, .enum tag' variants' => tag = tag' && variantsEq variants variants'
  | .record key value, .record key' value' => key = key' && value.eq value'
  | .union types, .union types' => typesEq types types'
  | .optional inner, .optional inner' => inner.eq inner'
  | .nullable inner, .nullable inner' => inner.eq inner'
  | _, _ => false

def typesEq : List TsType → List TsType → Bool
  | [], [] => true
  | ty :: types, ty' :: types' => ty.eq ty' && typesEq types types'
  | _, _ => false

def fieldsEq : List TsField → List TsField → Bool
  | [], [] => true
  | .mk name ty isOptional :: fields, .mk name' ty' isOptional' :: fields' =>
    name = name' && ty.eq ty' && isOptional = isOptional' && fieldsEq fields fields'
  | _, _ => false

def variantsEq : List TsEnumVariant → List TsEnumVariant → Bool
  | [], [] => true
  | .mk name fields none :: variants, .mk name' fields' none :: variants' =>
    name = name' && fieldsEq fields fields' && variantsEq variants variants'
  | .mk name fields (some rest) :: variants, .mk name' fields' (some rest') :: variants' =>
    name = name' && fieldsEq fields fields' && rest.eq rest' && variantsEq variants variants'
  | _, _ => false

end

/-- `TsType::object`. -/
def TsType.ofObject (fields : List TsField) : Option TsType → TsType
  | some rest => .openObject fields rest
  | none => .object fields

namespace ObjectSchema

def new : ObjectSchema := ⟨[], none⟩

def field (object : ObjectSchema) (field : TsField) : ObjectSchema :=
  { object with fields := object.fields ++ [field] }

/-- The panic where a flattened value brings a field that is there already. -/
def duplicateField (name : Str) : Str :=
  "serde flatten produced duplicate TypeScript field `".toList ++ name ++ "`".toList

def mergeFields (allOptional : Bool) : ObjectSchema → List TsField → Except Str ObjectSchema
  | object, [] => .ok object
  | object, .mk name ty isOptional :: fields =>
    if object.fields.any fun existing => existing.name = name then .error (duplicateField name)
    else mergeFields allOptional (object.field (.mk name ty (isOptional || allOptional))) fields

/-- Every flattened map sees all undeclared keys, so several maps must agree. -/
def mergeRest (object : ObjectSchema) (rest : TsType) : Except Str ObjectSchema :=
  match object.rest with
  | none => .ok { object with rest := some rest }
  | some existing =>
    if existing.eq rest then .ok object
    else .error "serde flatten of maps with different value types cannot be described".toList

/-- Merges the schema of a flattened value, as serde merges it into the surrounding object. -/
def flatten (object : ObjectSchema) (ty : TsType) (allOptional : Bool) (requirement : Str) :
    Except Str ObjectSchema :=
  match ty with
  | .object fields => object.mergeFields allOptional fields
  | .openObject fields rest => do
    let object ← object.mergeFields allOptional fields
    object.mergeRest rest
  | .record .string value => object.mergeRest value
  | .record .number _ =>
    .error "serde flatten cannot read numeric map keys; use a string-keyed map".toList
  | .json => object.mergeRest .json
  | .null | .void => .ok object
  | _ => .error requirement

def intoType (object : ObjectSchema) : TsType := .ofObject object.fields object.rest

def intoVariant (object : ObjectSchema) (name : Str) : TsEnumVariant :=
  .mk name object.fields object.rest

end ObjectSchema

/-- What building a schema comes to: none where types nest deeper than the fuel, or the text of a
panic. -/
abbrev Built := ExceptT Str Option

variable {ι : Type}

namespace SchemaField

variable (field : SchemaField ι)

/-- Inner type of a type that is written as an `Option`. -/
def optionInner : Option (RustType ι) :=
  match field.ty with
  | .option inner => if field.isAlias then none else some inner
  | _ => none

/-- `Option<T>` and `#[rustts(optional)]` fields are optional in the schema. -/
def isOptionalType : Bool := field.schemaOptional || field.optionInner.isSome

/-- `None` when serialization never writes the field, else whether it always does. -/
def outputPresence : Option Bool :=
  if field.skipSerializing then none else some (!field.skipSerializingIf && !field.isOptionalType)

/-- `None` when deserialization ignores the field, else whether input must provide it. -/
def inputPresence (containerDefault : Bool) : Option Bool :=
  if field.skipDeserializing then none
  else some (!(field.default || containerDefault) && !field.isOptionalType)

/-- Combines the field's presence in each described direction. -/
def presence (directions : Directions) (containerDefault : Bool) : Presence :=
  let described := (if directions.encode then [field.outputPresence] else []) ++
    if directions.decode then [field.inputPresence containerDefault] else []
  if described.all Option.isNone then .omitted
  else if described.all (· = some true) then .required
  else .optional

/-- Whether a transparent struct may forward to the field. -/
def isForwarded : Bool :=
  !field.isPhantom && !field.skipSerializing && !field.skipDeserializing && !field.default

/-- The type whose schema the field pushes. -/
def dependency : Option (RustType ι) :=
  match field.tsType with
  | none => some field.ty
  | some _ => none

/-- The type a flattened field merges, and whether all its keys become optional. -/
def flattened : RustType ι × Bool :=
  match field.optionInner with
  | some inner => (inner, true)
  | none => (field.ty, false)

end SchemaField

namespace SchemaShape

def fields : SchemaShape ι → List (SchemaField ι)
  | .unit => []
  | .newtype field => [field]
  | .tuple fields | .struct fields => fields

def isUnit : SchemaShape ι → Bool
  | .unit => true
  | _ => false

/-- Serde's transparent field: the only field, or the only one that is not `PhantomData`, skipped
or defaulted. -/
def transparentField (shape : SchemaShape ι) : Option (SchemaField ι) :=
  match shape.fields with
  | [field] => some field
  | fields =>
    match fields.filter SchemaField.isForwarded with
    | [field] => some field
    | _ => none

/-- The types whose schemas a shape pushes. -/
def dependencies (directions : Directions) (containerDefault : Bool) (shape : SchemaShape ι) :
    List (RustType ι) :=
  (shape.fields.filter fun field =>
    field.presence directions containerDefault ≠ .omitted).filterMap SchemaField.dependency

end SchemaShape

/-- Whether the variant is left out of the given directions. -/
def SchemaVariant.skippedIn (variant : SchemaVariant ι) (directions : Directions) : Bool :=
  (!directions.encode || variant.skipSerializing) &&
    (!directions.decode || variant.skipDeserializing)

namespace DerivedType

variable (type : DerivedType ι)

/-- The emitted codecs, or both directions for schema-only types. -/
def schemaDirections : Directions :=
  if type.codecs = ⟨false, false⟩ then ⟨true, true⟩ else type.codecs

/-- The input key for decode-only types, else the output key. -/
def schemaKey (name : Name) : Str :=
  if type.schemaDirections = ⟨false, true⟩ then name.deserialize else name.serialize

/-- Type serde really reads or writes for `#[serde(into/from/try_from)]` containers. -/
def wireType : Option (RustType ι) :=
  ((type.intoType.filter fun _ => type.schemaDirections.encode).or type.fromType).or type.intoType

/-- The field a `#[serde(transparent)]` struct forwards to. -/
def transparentField : Option (SchemaField ι) :=
  match type.body with
  | .struct shape => if type.transparent then shape.transparentField else none
  | .enum _ => none

/-- The variants the schema shows. -/
def describedVariants (variants : List (SchemaVariant ι)) : List (SchemaVariant ι) :=
  variants.filter fun variant => !variant.skippedIn type.schemaDirections

/-- Shapes the schema shows, each with whether the struct's own default applies to its fields. -/
def describedShapes : List (SchemaShape ι × Bool) :=
  match type.body with
  | .struct shape => [(shape, type.default)]
  | .enum variants => (type.describedVariants variants).map fun variant => (variant.shape, false)

/-- The types whose schemas `TsSchema::schema_dependencies` pushes, in order. -/
def dependencies : List (RustType ι) :=
  match type.wireType, type.transparentField with
  | some wire, _ => [wire]
  | none, some field => field.dependency.toList
  | none, none => type.describedShapes.flatMap fun described =>
    described.1.dependencies type.schemaDirections described.2

end DerivedType

section TsType
variable (ref inline : RustType ι → Built TsType)

/-- Type of a field: its `#[rustts(type)]` text or its `TsSchema` reference. -/
def SchemaField.typeRef (field : SchemaField ι) : Built TsType :=
  match field.tsType with
  | some text => pure (.typeRef text)
  | none => ref field.ty

/-- Merges a type's schema into `object`. -/
def flattenStep (object : ObjectSchema) (ty : RustType ι) (allOptional : Bool)
    (requirement : Str) : Built ObjectSchema := do
  let merged ← inline ty
  MonadExcept.ofExcept (object.flatten merged allOptional requirement)

namespace DerivedType

variable (type : DerivedType ι)

def fieldStep (containerDefault : Bool) (object : ObjectSchema) (field : SchemaField ι) :
    Built ObjectSchema := do
  let presence := field.presence type.schemaDirections containerDefault
  if presence = .omitted then pure object
  else if field.flatten then
    flattenStep inline object field.flattened.1 field.flattened.2
      "serde flatten requires a TsSchema object or map type".toList
  else
    let key := field.schemaRename.getD (type.schemaKey field.name)
    let ty ← field.typeRef ref
    pure (object.field (.mk key ty (presence ≠ .required)))

def objectSchema (containerDefault : Bool) (fields : List (SchemaField ι)) :
    Built ObjectSchema :=
  fields.foldlM (type.fieldStep ref inline containerDefault) .new

/-- TypeScript type of a shape: `null`, the inner type, a tuple or an (open) object. -/
def shapeType (containerDefault : Bool) : SchemaShape ι → Built TsType
  | .unit => pure .null
  | .newtype field => field.typeRef ref
  | .tuple fields => do
    let items ← (fields.filter fun field =>
      field.presence type.schemaDirections false ≠ .omitted).mapM (SchemaField.typeRef ref)
    pure (.tuple items)
  | .struct fields => do
    let object ← type.objectSchema ref inline containerDefault fields
    pure object.intoType

def variantKey (variant : SchemaVariant ι) : Str :=
  variant.schemaRename.getD (type.schemaKey variant.name)

def literal (key : Str) : TsType := .literal (.string key)

/-- `"Name"` for unit variants, `{ Name: payload }` otherwise. -/
def externalType (variant : SchemaVariant ι) : Built TsType :=
  if variant.shape.isUnit then pure (literal (type.variantKey variant))
  else do
    let payload ← type.shapeType ref inline false variant.shape
    pure (.object [.mk (type.variantKey variant) payload false])

/-- `{ tag: "Name" }`, for tagged enums made only of unit variants. -/
def tagObject (tag : Str) (variant : SchemaVariant ι) : TsType :=
  .object [.mk tag (literal (type.variantKey variant)) false]

def unitVariant (variant : SchemaVariant ι) : TsEnumVariant :=
  .mk (type.variantKey variant) [] none

/-- Variant whose fields sit next to the tag. -/
def internalVariant (variant : SchemaVariant ι) : Built TsEnumVariant :=
  match variant.shape with
  | .unit => pure (type.unitVariant variant)
  | .newtype field => do
    let object ← flattenStep inline .new field.ty false
      "serde internally tagged newtype variants require a TsSchema object or map type".toList
    pure (object.intoVariant (type.variantKey variant))
  | .tuple fields | .struct fields => do
    let object ← type.objectSchema ref inline false fields
    pure (object.intoVariant (type.variantKey variant))

/-- Whether an adjacently tagged variant may leave its content out. -/
def optionalContent : SchemaShape ι → Bool
  | .newtype field => field.optionInner.isSome
  | _ => false

/-- Variant whose payload sits under the `content` key. -/
def adjacentVariant (content : Str) (variant : SchemaVariant ι) : Built TsEnumVariant :=
  if variant.shape.isUnit then pure (type.unitVariant variant)
  else do
    let payload ← type.shapeType ref inline false variant.shape
    pure (.mk (type.variantKey variant)
      [.mk content payload (optionalContent variant.shape)] none)

def enumType (variants : List (SchemaVariant ι)) : Built TsType :=
  let variants := type.describedVariants variants
  let allUnit := variants.all fun variant => variant.shape.isUnit
  match type.tagging with
  | .external =>
    if allUnit then pure (.enum none (variants.map type.unitVariant))
    else .union <$> variants.mapM (type.externalType ref inline)
  | .internal tag =>
    if allUnit then pure (.union (variants.map (type.tagObject tag)))
    else .enum (some tag) <$> variants.mapM (type.internalVariant ref inline)
  | .adjacent tag content =>
    if allUnit then pure (.union (variants.map (type.tagObject tag)))
    else .enum (some tag) <$> variants.mapM (type.adjacentVariant ref inline content)
  | .untagged => .union <$> variants.mapM fun variant =>
      type.shapeType ref inline false variant.shape

/-- `TsSchema::ts_type` of a derived type. -/
def tsType : Built TsType :=
  match type.wireType, type.transparentField with
  | some wire, _ => ref wire
  | none, some field => field.typeRef ref
  | none, none =>
    match type.body with
    | .struct shape => type.shapeType ref inline type.default shape
    | .enum variants => type.enumType ref inline variants

end DerivedType

end TsType

namespace RustType

variable (types : ι → DerivedType ι)

/-- `TsSchema::schema_name`. -/
def schemaName : RustType ι → Str
  | .named id => (types id).schemaName
  | .nativeBytes => "NativeBytes".toList
  | _ => "unknown".toList

/-- A type reference when the type has a schema name, otherwise its type written out. -/
def schemaTypeRef (inline : RustType ι → Built TsType) (ty : RustType ι) : Built TsType :=
  if hasDeclarationName (ty.schemaName types) then pure (.typeRef (ty.schemaName types))
  else inline ty

/-- `TsSchema::ts_type`, where `inline` gives that of the types written out within. -/
def tsTypeWith (inline : RustType ι → Built TsType) : RustType ι → Built TsType
  | .void => pure .void
  | .boolean => pure .boolean
  | .number => pure .number
  | .string => pure .string
  | .json => pure .json
  | .nativeBytes => pure .uint8Array
  | .named id => (types id).tsType (schemaTypeRef types inline) inline
  | .option inner => .nullable <$> schemaTypeRef types inline inner
  | .list item => .array <$> schemaTypeRef types inline item
  | .fixedList item length => do
    let item ← schemaTypeRef types inline item
    pure (.tuple (List.replicate length item))
  | .map key value => .record key <$> schemaTypeRef types inline value
  | .tuple items => .tuple <$> items.mapM (schemaTypeRef types inline)

/-- `TsSchema::ts_type`. -/
def tsType : Nat → RustType ι → Built TsType
  | 0, _ => none
  | n + 1, ty => tsTypeWith types (tsType n) ty

/-- The types whose schemas `TsSchema::schema_dependencies` pushes, in order. -/
def pushed : RustType ι → List (RustType ι)
  | .named id => (types id).dependencies
  | .option inner => [inner]
  | .list item => [item]
  | .fixedList item _ => [item]
  | .map _ value => [value]
  | .tuple items => items
  | _ => []

end RustType

/-- Building the dependencies of a schema: it reads and writes `SCHEMA_DEPENDENCY_STACK`, the last
name entered first. -/
abbrev WithStack := ExceptT Str (StateT (List Str) Option)

def withoutStack {α : Type} (built : Built α) : WithStack α :=
  fun stack => Option.map (·, stack) built.run

/-- Runs `body` with `name` on the stack. The guard is dropped when a panic unwinds, too. -/
def guarded {α : Type} (name : Str) (body : WithStack α) : WithStack α := fun stack => do
  let (result, stack) ← body.run (name :: stack)
  pure (result, stack.tail)

namespace RustType

variable (types : ι → DerivedType ι)

/-- `TsSchema::schema_dependencies`. -/
def schemaDependencies (push : RustType ι → List Schema → WithStack (List Schema))
    (ty : RustType ι) : WithStack (List Schema) :=
  (ty.pushed types).foldlM (fun dependencies ty => push ty dependencies) []

/-- `TsSchema::schema`. -/
def schemaWith (push : RustType ι → List Schema → WithStack (List Schema)) (fuel : Nat)
    (ty : RustType ι) : WithStack Schema := do
  let tsType ← withoutStack (tsType types fuel ty)
  let dependencies ← schemaDependencies types push ty
  pure (.mk (ty.schemaName types) tsType dependencies)

/-- What `push_schema_dependency` does once it has entered: it appends the schemas that the type
depends on, and its own where it has a name. -/
def pushEntered (push : RustType ι → List Schema → WithStack (List Schema)) (fuel : Nat)
    (ty : RustType ι) (dependencies : List Schema) : WithStack (List Schema) := do
  let inner ← schemaDependencies types push ty
  let schema ← schemaWith types push fuel ty
  pure (dependencies ++ inner ++ if hasDeclarationName schema.name then [schema] else [])

/-- `push_schema_dependency`, for calls that nest to the depth `fuel`. -/
def pushSchemaDependency : Nat → RustType ι → List Schema → WithStack (List Schema)
  | 0, _, _ => fun _ => none
  | n + 1, ty, dependencies =>
    let name := ty.schemaName types
    let entered := pushEntered types (pushSchemaDependency n) n ty dependencies
    if hasDeclarationName name then do
      if name ∈ (← get) then pure dependencies else guarded name entered
    else entered

/-- `TsSchema::schema`, from the stack to the stack it leaves. -/
def schema (fuel : Nat) (ty : RustType ι) : WithStack Schema :=
  schemaWith types (pushSchemaDependency types fuel) fuel ty

end RustType

end RustTS.Contract
