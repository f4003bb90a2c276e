import RustTS.Contract.Codec
import RustTS.Contract.Float64
import RustTS.Contract.Schema

/-! Runtime validation for host contract schemas. -/
namespace RustTS.Contract

structure SchemaValidationOptions where
  rejectUnknownFields : Bool
  deriving DecidableEq, Repr

/-- A validation reads and writes the references being resolved, the last one entered first. It has
no result where it calls itself deeper than it may. -/
abbrev Validation := ExceptT Str (StateT (List Str) Option) Unit

abbrev Entries := List (Str × Json)

def childPath (parent child : Str) : Str := parent ++ '.' :: child

def indexPath (parent : Str) (index : Nat) : Str :=
  parent ++ '[' :: Nat.toDigits 10 index ++ [']']

def Json.valueKind : Json → Str
  | .null => "null".toList
  | .bool _ => "boolean".toList
  | .number _ => "number".toList
  | .string _ => "string".toList
  | .array _ => "array".toList
  | .object _ => "object".toList

def expected (path what : Str) (value : Json) : Str :=
  path ++ ": expected ".toList ++ what ++ ", got ".toList ++ value.valueKind

mutual

/-- The first schema of the name, a schema before those it depends on. -/
def findSchemaDependency (name : Str) : List Schema → Option Schema
  | [] => none
  | schema :: dependencies =>
    (schema.find name).or (findSchemaDependency name dependencies)

def Schema.find (name : Str) : Schema → Option Schema
  | .mk own tsType dependencies =>
    if own = name then some (.mk own tsType dependencies)
    else findSchemaDependency name dependencies

end

/-- Keys an object schema describes by name: declared fields and keys allowed next to them. -/
structure ObjectShape where
  fields : List TsField
  allowedExtraFields : List Str

/-- The key is neither a declared field nor an allowed extra key. -/
def ObjectShape.isUndeclared (shape : ObjectShape) (key : Str) : Bool :=
  !(shape.fields.any fun declared => declared.name = key) &&
    !(shape.allowedExtraFields.contains key)

/-- `then_some(()).ok_or_else(..)`. -/
def ensure (valid : Prop) [Decidable valid] (error : Str) : Validation :=
  if valid then pure () else throw error

def Json.isNull : Json → Bool
  | .null => true
  | _ => false

def validateNull (value : Json) (path : Str) : Validation :=
  ensure value.isNull (expected path "null".toList value)

def validateBool (value : Json) (path : Str) : Validation :=
  match value with
  | .bool _ => pure ()
  | _ => throw (expected path "boolean".toList value)

def validateNumber (value : Json) (path : Str) : Validation :=
  match value with
  | .number _ => pure ()
  | _ => throw (expected path "number".toList value)

def validateString (value : Json) (path : Str) : Validation :=
  match value with
  | .string _ => pure ()
  | _ => throw (expected path "string".toList value)

/-- A snapshot's non-finite stand-ins compare as the numbers they stand for. -/
def literalNumberMatches (expected : Str) : Json → Bool
  | .number number =>
    match parseF64 expected with
    | some expected => (snapshotNumber number).eq expected
    | none => false
  | _ => false

def literalMatches : TsLiteral → Json → Bool
  | .string expected, .string value => value = expected
  | .number expected, value => literalNumberMatches expected value
  | .boolean expected, .bool value => value = expected
  | _, _ => false

def validateNumericRecordKey (field : Str) : Bool :=
  match parseF64 field with
  | some number => number.isFinite
  | none => false

def recordKeyMatches : TsRecordKey → Str → Bool
  | .string, _ => true
  | .number, field => validateNumericRecordKey field

/-- Puts the name on the references being resolved for a validation. -/
def resolving (name : Str) (validation : Validation) : Validation := fun stack =>
  (validation.run (name :: stack)).map fun r => (r.1, r.2.tail)

def rejectUnknownObjectFields (shape : ObjectShape) (object : Entries) (path : Str) : Validation :=
  match object.find? fun entry => shape.isUndeclared entry.1 with
  | some (key, _) => throw (childPath path key ++ ": unknown field".toList)
  | none => pure ()

/-- Validates every undeclared key of an open object against its `rest` type. -/
def validateRestFields (shape : ObjectShape) (rest : Json → Str → Validation) (object : Entries)
    (path : Str) : Validation :=
  (object.filter fun entry => shape.isUndeclared entry.1).forM fun (key, item) =>
    rest item (childPath path key)

def validateArray (item : Json → Str → Validation) (value : Json) (path : Str) : Validation :=
  match value with
  | .array items => items.zipIdx.forM fun (value, index) => item value (indexPath path index)
  | _ => throw (expected path "array".toList value)

def tupleLength (expected got : Nat) (path : Str) : Str :=
  path ++ ": expected tuple length ".toList ++ Nat.toDigits 10 expected ++ ", got ".toList ++
    Nat.toDigits 10 got

section
-- The characters that `Debug` writes as they are.
variable (printable : Char → Bool)

def literalLabel : TsLiteral → Str
  | .string value => debugText printable value
  | .number value => value
  | .boolean value => (if value then "true" else "false").toList

def validateLiteral (literal : TsLiteral) (value : Json) (path : Str) : Validation :=
  ensure (literalMatches literal value)
    (path ++ ": expected literal ".toList ++ literalLabel printable literal)

def validateRecordKey (key : TsRecordKey) (field path : Str) : Validation :=
  ensure (recordKeyMatches key field)
    (path ++ ": expected numeric record key, got ".toList ++ debugText printable field)

def unknownEnumVariant (path value : Str) : Str :=
  path ++ ": unknown enum variant ".toList ++ debugText printable value

def validateUnitEnum (variants : List TsEnumVariant) (value : Json) (path : Str) : Validation :=
  match value with
  | .string name =>
    ensure (variants.any fun variant => variant.name = name) (unknownEnumVariant printable path name)
  | _ => throw (expected path "enum string literal".toList value)

def validateRecord (key : TsRecordKey) (item : Json → Str → Validation) (value : Json)
    (path : Str) : Validation :=
  match value with
  | .object object => object.forM fun (field, value) => do
    validateRecordKey printable key field path
    item value (childPath path field)
  | _ => throw (expected path "record object".toList value)

variable (options : SchemaValidationOptions)

/-- `validate_object`, given the validation of the declared fields and of the `rest` type. -/
def validateObject (shape : ObjectShape) (declared : Entries → Validation)
    (rest : Option (Json → Str → Validation)) (value : Json) (path : Str) : Validation :=
  match value with
  | .object object => do
    (if rest.isNone ∧ options.rejectUnknownFields then rejectUnknownObjectFields shape object path
      else pure ())
    declared object
    match rest with
    | some rest => validateRestFields shape rest object path
    | none => pure ()
  | _ => throw (expected path "object".toList value)

-- How a reference is validated.
variable (resolve : Str → Json → Str → Validation)

mutual

/-- `validate_type`, where `resolve` validates what a reference names. -/
def validateTypeWith : TsType → Json → Str → Validation
  | .unknown, _, _ => pure ()
  | .json, _, _ => pure ()
  | .typeRef name, value, path => resolve name value path
  | .void, value, path => validateNull value path
  | .null, value, path => validateNull value path
  | .boolean, value, path => validateBool value path
  | .number, value, path => validateNumber value path
  | .string, value, path => validateString value path
  | .uint8Array, value, path => validateArray validateNumber value path
  | .literal literal, value, path => validateLiteral printable literal value path
  | .object fields, value, path =>
    validateObject options ⟨fields, []⟩ (validateDeclaredFields path fields) none value path
  | .openObject fields rest, value, path =>
    validateObject options ⟨fields, []⟩ (validateDeclaredFields path fields)
      (some (validateTypeWith rest)) value path
  | .array item, value, path => validateArray (validateTypeWith item) value path
  | .tuple items, value, path =>
    match value with
    | .array values =>
      if values.length = items.length then validateTuple path 0 items values
      else throw (tupleLength items.length values.length path)
    | _ => throw (expected path "tuple array".toList value)
  | .enum none variants, value, path => validateUnitEnum printable variants value path
  | .enum (some tag) variants, value, path =>
    match value with
    | .object object =>
      match object.lookup tag with
      | some (.string name) => validateTaggedEnum tag name value path variants
      | _ => throw (childPath path tag ++ ": missing enum tag string".toList)
    | _ => throw (expected path "tagged enum object".toList value)
  | .record key item, value, path => validateRecord printable key (validateTypeWith item) value path
  | .union types, value, path => validateUnion value path types
  | .optional inner, value, path =>
    if value.isNull then pure () else validateTypeWith inner value path
  | .nullable inner, value, path =>
    if value.isNull then pure () else validateTypeWith inner value path

/-- The loop of `validate_declared_fields`. -/
def validateDeclaredFields (path : Str) : List TsField → Entries → Validation
  | [], _ => pure ()
  | .mk name ty isOptional :: fields, object => do
    (match object.lookup name with
      | some value => validateTypeWith ty value (childPath path name)
      | none => if isOptional then pure ()
        else throw (childPath path name ++ ": missing required field".toList))
    validateDeclaredFields path fields object

/-- The loop of `validate_tuple`, from an index on. -/
def validateTuple (path : Str) : Nat → List TsType → List Json → Validation
  | index, ty :: items, value :: values => do
    validateTypeWith ty value (indexPath path index)
    validateTuple path (index + 1) items values
  | _, _, _ => pure ()

/-- The end of `validate_tagged_enum`, with the first variant that the tag names. -/
def validateTaggedEnum (tag name : Str) (value : Json) (path : Str) :
    List TsEnumVariant → Validation
  | [] => throw (unknownEnumVariant printable (childPath path tag) name)
  | .mk own fields none :: variants =>
    if own = name then
      validateObject options ⟨fields, [tag]⟩ (validateDeclaredFields path fields) none value path
    else validateTaggedEnum tag name value path variants
  | .mk own fields (some rest) :: variants =>
    if own = name then
      validateObject options ⟨fields, [tag]⟩ (validateDeclaredFields path fields)
        (some (validateTypeWith rest)) value path
    else validateTaggedEnum tag name value path variants

/-- `validate_union`, which drops the errors of the members. -/
def validateUnion (value : Json) (path : Str) : List TsType → Validation
  | [] => throw (path ++ ": value did not match any union member".toList)
  | ty :: types =>
    tryCatch (validateTypeWith ty value path) fun _ => validateUnion value path types

end

variable (dependencies : List Schema)

/-- `validate_type_ref`, given `validate_type` and what is done where the name is being resolved
already. -/
def validateTypeRef (validate : TsType → Json → Str → Validation) (reentered : Validation)
    (name : Str) (value : Json) (path : Str) : Validation := do
  if name ∈ (← get) then reentered
  else match findSchemaDependency name dependencies with
    | none => pure ()
    | some schema => resolving name (validate schema.tsType value path)

/-- `validate_type`, following at most as many references within one another as the fuel, where
`reentered` is done at a name that is being resolved already. -/
def validateFrom (reentered : Validation) : Nat → TsType → Json → Str → Validation
  | 0, _, _, _ => fun _ => none
  | n + 1, ty, value, path =>
    validateTypeWith printable options
      (validateTypeRef dependencies (validateFrom reentered n) reentered) ty value path

/-- `validate_type`, for which a name being resolved is valid. -/
def validateType : Nat → TsType → Json → Str → Validation :=
  validateFrom printable options dependencies (pure ())

end

/-- `validate_schema_with_options`, for references that nest to the depth `fuel`. -/
def validateSchemaWithOptions (printable : Char → Bool) (fuel : Nat) (schema : Schema) (value : Json)
    (options : SchemaValidationOptions) : Option (Except Str Unit) :=
  ((validateType printable options schema.dependencies fuel schema.tsType value
    "$".toList).run []).map Prod.fst

example :
    validateSchemaWithOptions (fun _ => true) 1
      (.mk "Input".toList (.object [.mk "id".toList .number false]) [])
      (.object [("id".toList, .null)]) ⟨false⟩ =
    some (.error "$.id: expected number, got null".toList) := by decide

end RustTS.Contract
