import RustTS.Contract.Shape

/-! Codec bodies of derived structs. -/
namespace RustTS.Contract

variable {T V : Type}

def Shape.fields : Shape T V → List (Field T V)
  | .unit => []
  | .newtype field => [field]
  | .tuple fields | .struct fields => fields

/-- A derived struct. A transparent one forwards to the field at an index. -/
structure StructDef (T V : Type) where
  rust : Str
  denyUnknownFields : Bool
  containerDefault : Option (Nat → V)
  shape : Shape T V
  transparent : Option (Fin shape.fields.length)

namespace StructDef

def scope (struct : StructDef T V) : Scope V :=
  ⟨struct.rust, struct.denyUnknownFields, struct.containerDefault, none⟩

section Codec
variable {m : Type → Type} [Monad m] [MonadExcept JsError m] (decodeJs : T → JsValue → m V)

/-- The value is the forwarded field; the others take their defaults. -/
def decodeTransparent (fields : List (Field T V)) (forwarded : Fin fields.length)
    (value : JsValue) : m (List V) := do
  let value ← decoder decodeJs (fields.get forwarded) value
  pure (fields.mapIdx fun index field =>
    if index = forwarded then value else defaultValue field none)

/-- Body of `decode_js` for a struct. -/
def decodeBody (struct : StructDef T V) (value : JsValue) : m (List V) :=
  match struct.transparent with
  | some forwarded => decodeTransparent decodeJs struct.shape.fields forwarded value
  | none => decodePayload decodeJs struct.scope struct.shape value

end Codec

end StructDef

end RustTS.Contract
