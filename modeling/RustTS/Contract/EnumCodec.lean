import RustTS.Contract.Shape

/-! Decoding of derived enums in the four serde representations. A representation only decides which
value holds the payload. -/
namespace RustTS.Contract

structure Variant (T V : Type) where
  ident : Str
  name : Name
  shape : Shape T V
  skipSerializing : Bool
  skipDeserializing : Bool

/-- Serde enum representation. -/
inductive Tagging
  | external
  | internal (tag : Str)
  | adjacent (tag content : Str)
  | untagged
  deriving DecidableEq, Repr

structure EnumDef (T V : Type) where
  rust : Str
  tagging : Tagging
  denyUnknownFields : Bool
  variants : List (Variant T V)

variable {T V : Type}

namespace EnumDef

variable (enum : EnumDef T V)

/-- The variants that decoding does not skip. -/
def decoded : List (Variant T V) := enum.variants.filter fun variant => !variant.skipDeserializing

/-- The first variant that accepts a name. -/
def variantOf (name : Str) : Option (Variant T V) :=
  enum.decoded.find? fun variant => decide (name ∈ variant.name.accepted)

def unknown (found : Str) : JsError :=
  unknownVariant found enum.rust (enum.decoded.map fun variant => variant.name.deserialize)

/-- The scope of the payload decoders: the fields of an internally tagged variant stand next to the
tag. -/
def scope : Scope V where
  rust := enum.rust
  denyUnknownFields := enum.denyUnknownFields
  containerDefault := none
  tag := match enum.tagging with
    | .internal tag => some tag
    | _ => none

section Decode
variable {m : Type → Type} [Monad m] [MonadExcept JsError m]
  (payload : Variant T V → JsValue → m (List V))

/-- A variant from its external payload, none for a bare name. -/
def externalArm (content : Option JsValue) (variant : Variant T V) : m (Str × List V) :=
  let key := variant.name.deserialize
  match variant.shape with
  | .unit => do
    mapErr (atPath · key) (unitPayload content)
    pure (variant.ident, [])
  | _ => do
    let content ← variantPayload content enum.rust key
    let members ← mapErr (atPath · key) (payload variant content)
    pure (variant.ident, members)

def decodeExternal (value : JsValue) : m (Str × List V) := do
  let split ← externalVariant value enum.rust
  match enum.variantOf split.1 with
  | none => throw (enum.unknown split.1)
  | some variant => enum.externalArm payload split.2 variant

/-- A variant from the object its tag stands in. -/
def internalArm (tag : Str) (object : JsObject) (variant : Variant T V) : m (Str × List V) :=
  match variant.shape with
  | .unit => pure (variant.ident, [])
  | .newtype _ => do
    let rest ← objectWithout object [tag]
    let members ← payload variant rest.toValue
    pure (variant.ident, members)
  | .tuple _ | .struct _ => do
    let members ← payload variant object.toValue
    pure (variant.ident, members)

def decodeInternal (tag : Str) (value : JsValue) : m (Str × List V) := do
  let object ← expectObject value enum.rust
  let name ← tagField object tag enum.rust
  match enum.variantOf name with
  | none => throw (atPath (enum.unknown name) tag)
  | some variant => internalArm payload tag object variant

/-- With `deny_unknown_fields` an adjacently tagged object has no keys but the tag and content. -/
def rejectOthers (tag content : Str) (object : JsObject) : m Unit :=
  if enum.denyUnknownFields then rejectUnknownFields object [tag, content] enum.rust else pure ()

/-- A variant from the object its content stands in. -/
def adjacentArm (content : Str) (object : JsObject) (variant : Variant T V) : m (Str × List V) :=
  match variant.shape with
  | .unit => do
    mapErr (atPath · content) (unitPayload (fieldValue object [content]))
    pure (variant.ident, [])
  | .newtype field => do
    let members ← decodeField object [content] field.typeName (payload variant)
    pure (variant.ident, members)
  | .tuple _ | .struct _ => do
    let value ← requireField object content enum.rust
    let members ← mapErr (atPath · content) (payload variant value)
    pure (variant.ident, members)

def decodeAdjacent (tag content : Str) (value : JsValue) : m (Str × List V) := do
  let object ← expectObject value enum.rust
  enum.rejectOthers tag content object
  let name ← tagField object tag enum.rust
  match enum.variantOf name with
  | none => throw (atPath (enum.unknown name) tag)
  | some variant => enum.adjacentArm payload content object variant

/-- Tries each variant in declaration order; the first that decodes wins. -/
def decodeUntagged (value : JsValue) : List (Variant T V) → m (Str × List V)
  | [] => throw (untaggedMismatch value enum.rust)
  | variant :: variants =>
    match variant.shape with
    | .unit => do
      match ← asOk (decodeUnit value) with
      | some () => pure (variant.ident, [])
      | none => decodeUntagged value variants
    | _ => do
      match ← asOk (payload variant value) with
      | some members => pure (variant.ident, members)
      | none => decodeUntagged value variants

/-- Body of `decode_js` for an enum: the variant and its members. -/
def decodeBody (value : JsValue) : m (Str × List V) :=
  match enum.tagging with
  | .external => enum.decodeExternal payload value
  | .internal tag => enum.decodeInternal payload tag value
  | .adjacent tag content => enum.decodeAdjacent payload tag content value
  | .untagged => enum.decodeUntagged payload value enum.decoded

/-- The payload decoder of a variant. -/
def decodeHelper (decodeJs : T → JsValue → m V) (variant : Variant T V) (value : JsValue) :
    m (List V) :=
  decodePayload decodeJs enum.scope variant.shape value

end Decode

end EnumDef

end RustTS.Contract
