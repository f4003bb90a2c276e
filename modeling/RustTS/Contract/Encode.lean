import RustTS.Contract.EnumCodec
import RustTS.Contract.JsonToJs
import RustTS.Contract.StructCodec

/-! Encoding of derived structs and enums. -/
namespace RustTS.Contract

/-- What the encoders use of QuickJS: the numbers it makes, and the setter of `__proto__`, which an
object gets from `Object.prototype`. -/
structure QuickJs where
  newNumber : JsFloat → Primitive
  setPrototype : JsObject → JsValue → Except JsError JsObject

variable {T V : Type} {m : Type → Type} [Monad m] [MonadExcept JsError m]

/-- `Object::set`, of an object just created. -/
def setProperty (js : QuickJs) (object : JsObject) (name : Str) (value : JsValue) :
    m JsObject :=
  if name = "__proto__".toList then MonadExcept.ofExcept (js.setPrototype object value)
  else pure ⟨object.base, RankedEntries.define JsString.rank object.props (.ofText name) value⟩

/-- Encodes a value through serde into JSON, then into a QuickJS value. -/
def jsonEncodeWith (js : QuickJs) (typeName : Str) (serialize : V → Except Str Json) (value : V) :
    m JsValue :=
  match serialize value with
  | .ok json => MonadExcept.ofExcept (jsonToJsValue js.newNumber json)
  | .error message => throw (.intoJs typeName "json".toList (some message))

section
variable (js : QuickJs) (encodeJs : T → V → m JsValue)

def encoder (field : Field T V) : V → m JsValue :=
  match field.codec with
  | .native => encodeJs field.ty
  | .json serialize _ => jsonEncodeWith js field.typeName serialize
  | .module encode _ => fun value => MonadExcept.ofExcept (encode value)

/-- Whether a value of the field is written at all. -/
def Field.writes (field : Field T V) (value : V) : Bool :=
  !field.skipSerializing && !(field.skipSerializingIf.any fun skipIf => skipIf value)

/-- Writes the named fields into an object, merging flattened ones. -/
def encodeFieldsInto (rust : Str) : List (Field T V) → List V → Props → m Props
  | field :: fields, value :: values, object =>
    if !field.writes value then encodeFieldsInto rust fields values object
    else if field.flatten then do
      let source ← encoder js encodeJs field value
      let object ← mergeObject object source rust
      encodeFieldsInto rust fields values object
    else do
      let object ← encodeField object field.name.serialize (encoder js encodeJs field value)
      encodeFieldsInto rust fields values object
  | _, _, object => pure object

/-- The items of a tuple after those there are; skipped fields have no place in the array. -/
def encodeTuple : List (Field T V) → List V → List JsValue → m (List JsValue)
  | field :: fields, value :: values, items =>
    if field.skipSerializing then encodeTuple fields values items
    else do
      let items ← encodeItem items items.length (encoder js encodeJs field value)
      encodeTuple fields values items
  | _, _, items => pure items

/-- A shape with a member for each of its fields. -/
def encodePayload (rust : Str) : Shape T V → List V → m JsValue
  | .unit, _ => pure .null
  | .newtype field, value :: _ => encoder js encodeJs field value
  | .newtype _, [] => throw .exception
  | .tuple fields, values => do
    let items ← encodeTuple js encodeJs fields values []
    pure (.array items)
  | .struct fields, values => do
    let object ← encodeFieldsInto js encodeJs rust fields values []
    pure (.object .plain object)

/-- Body of `encode_js` for a struct. -/
def StructDef.encodeBody (struct : StructDef T V) (values : List V) : m JsValue :=
  match struct.transparent with
  | some forwarded =>
    match values[forwarded.val]? with
    | some value => encoder js encodeJs (struct.shape.fields.get forwarded) value
    | none => throw .exception
  | none => encodePayload js encodeJs struct.rust struct.shape values

/-- An object with the tag, and what the statements add to it. -/
def taggedObject (tag key : Str) (statements : JsObject → m JsObject) : m JsValue := do
  let object ← setProperty js ⟨.plain, []⟩ tag (.primitive (.string (.ofText key)))
  let object ← statements object
  pure object.toValue

namespace EnumDef

variable (enum : EnumDef T V)

/-- One variant in the representation of its enum. -/
def encodeVariant (variant : Variant T V) (values : List V) : m JsValue :=
  let key := variant.name.serialize
  match enum.tagging with
  | .external =>
    match variant.shape with
    | .unit => pure (.primitive (.string (.ofText key)))
    | shape => do
      let payload ← encodePayload js encodeJs enum.rust shape values
      let object ← setProperty js ⟨.plain, []⟩ key payload
      pure object.toValue
  | .internal tag =>
    taggedObject js tag key fun object =>
      match variant.shape, values with
      | .newtype field, value :: _ => do
        let source ← encoder js encodeJs field value
        let props ← mergeObject object.props source enum.rust
        pure ⟨object.base, props⟩
      | shape, values => do
        let props ← encodeFieldsInto js encodeJs enum.rust shape.fields values object.props
        pure ⟨object.base, props⟩
  | .adjacent tag content =>
    taggedObject js tag key fun object =>
      match variant.shape with
      | .unit => pure object
      | shape => do
        let payload ← encodePayload js encodeJs enum.rust shape values
        setProperty js object content payload
  | .untagged => encodePayload js encodeJs enum.rust variant.shape values

/-- Body of `encode_js` for an enum, on a variant and its members. -/
def encodeBody (variant : Variant T V) (values : List V) : m JsValue :=
  if variant.skipSerializing then throw (skippedVariant enum.rust variant.ident)
  else enum.encodeVariant js encodeJs variant values

end EnumDef

end

end RustTS.Contract
