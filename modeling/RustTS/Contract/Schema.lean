import RustTS.Contract.Codec

/-! Schemas of contract types: the TypeScript shape of a type, under its name, with the named
schemas it depends on. -/
namespace RustTS.Contract

inductive TsLiteral
  | string (value : Str)
  | number (text : Str)
  | boolean (value : Bool)
  deriving DecidableEq, Repr

inductive TsRecordKey
  | string
  | number
  deriving DecidableEq, Repr

mutual

inductive TsType
  | unknown
  | void
  | boolean
  | number
  | string
  | json
  | uint8Array
  | null
  | typeRef (name : Str)
  | literal (value : TsLiteral)
  | object (fields : List TsField)
  | openObject (fields : List TsField) (rest : TsType)
  | array (item : TsType)
  | tuple (items : List TsType)
  | enum (tag : Option Str) (variants : List TsEnumVariant)
  | record (key : TsRecordKey) (value : TsType)
  | union (types : List TsType)
  | optional (inner : TsType)
  | nullable (inner : TsType)

inductive TsField
  | mk (name : Str) (ty : TsType) (isOptional : Bool)

inductive TsEnumVariant
  | mk (name : Str) (fields : List TsField) (rest : Option TsType)

end

def TsField.name : TsField → Str
  | mk name _ _ => name

def TsEnumVariant.name : TsEnumVariant → Str
  | mk name _ _ => name

def TsEnumVariant.isUnit : TsEnumVariant → Bool
  | mk _ fields rest => fields.isEmpty && rest.isNone

/-- A type's shape under its name, with the named schemas it refers to. -/
inductive Schema
  | mk (name : Str) (tsType : TsType) (dependencies : List Schema)

namespace Schema

def name : Schema → Str
  | mk name _ _ => name

def tsType : Schema → TsType
  | mk _ tsType _ => tsType

def dependencies : Schema → List Schema
  | mk _ _ dependencies => dependencies

end Schema

def hasDeclarationName (name : Str) : Bool :=
  !name.all isWhitespace && name != "unknown".toList

/-- The schema has no name of its own: its type is written out where it is used. -/
def isUnknownSchema (schema : Schema) : Bool := !hasDeclarationName schema.name

mutual

/-- The type names in a type. -/
def TsType.refs : TsType → List Str
  | .typeRef name => [name]
  | .object fields => fieldRefs fields
  | .openObject fields rest => fieldRefs fields ++ rest.refs
  | .array item => item.refs
  | .tuple items => typeRefs items
  | .enum _ variants => variantRefs variants
  | .record _ value => value.refs
  | .union types => typeRefs types
  | .optional inner => inner.refs
  | .nullable inner => inner.refs
  | _ => []

def typeRefs : List TsType → List Str
  | [] => []
  | ty :: types => ty.refs ++ typeRefs types

def fieldRefs : List TsField → List Str
  | [] => []
  | .mk _ ty _ :: fields => ty.refs ++ fieldRefs fields

def variantRefs : List TsEnumVariant → List Str
  | [] => []
  | .mk _ fields none :: variants => fieldRefs fields ++ variantRefs variants
  | .mk _ fields (some rest) :: variants => fieldRefs fields ++ rest.refs ++ variantRefs variants

end

mutual

/-- The names in a schema: its own and those of its dependencies at any depth. -/
def Schema.names : Schema → List Str
  | .mk name _ dependencies => name :: schemaNames dependencies

def schemaNames : List Schema → List Str
  | [] => []
  | schema :: schemas => schema.names ++ schemaNames schemas

end

example : isUnknownSchema (.mk " ".toList .null []) = true := by decide

end RustTS.Contract
