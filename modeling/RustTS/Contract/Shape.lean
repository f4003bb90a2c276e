import RustTS.Contract.Derive
import RustTS.Contract.JsValue

/-! Encoding and decoding of one shape: `null` for unit, the inner value for newtypes, an array
for tuples and an object for named fields. The types of the fields stand in `T`, and their values
in `V`. -/
namespace RustTS.Contract

/-- Serde's names of a field or variant: one for each direction, and aliases to decode from. -/
structure Name where
  serialize : Str
  deserialize : Str
  aliases : List Str
  deriving DecidableEq, Repr

/-- Every key accepted on decode. -/
def Name.accepted (name : Name) : List Str := name.deserialize :: name.aliases

/-- `Default::default()`, or what a function gives. -/
inductive DefaultValue (V : Type)
  | trait
  | path (value : V)

/-- How a field crosses: through the codec of its type, through `serde_json`, or through a module
of its own. -/
inductive FieldCodec (V : Type)
  | native
  | json (serialize : V → Except Str Json) (deserialize : Json → Except Str V)
  | module (encode : V → Except JsError JsValue) (decode : JsValue → Except JsError V)

/-- A field; `traitDefault` is the `Default::default()` of its type, and `optionInner` the inner
type where the type is written as an `Option`, with what makes the option of a value. -/
structure Field (T V : Type) where
  ty : T
  typeName : Str
  traitDefault : V
  optionInner : Option (T × (Option V → V))
  name : Name
  codec : FieldCodec V
  flatten : Bool
  skipSerializing : Bool
  skipSerializingIf : Option (V → Bool)
  skipDeserializing : Bool
  default : Option (DefaultValue V)

inductive Shape (T V : Type)
  | unit
  | newtype (field : Field T V)
  | tuple (fields : List (Field T V))
  | struct (fields : List (Field T V))

/-- What the shape needs of the type around it; a default of the whole struct gives its member at
each place. -/
structure Scope (V : Type) where
  rust : Str
  denyUnknownFields : Bool
  containerDefault : Option (Nat → V)
  tag : Option Str

variable {T V : Type}

/-- Where the value of a missing field comes from. -/
inductive Missing (V : Type)
  | default (value : DefaultValue V)
  | containerDefault (member : V)
  | required

def Field.missing (field : Field T V) (containerDefault : Option V) : Missing V :=
  match field.default, containerDefault with
  | some value, _ => .default value
  | none, some member => .containerDefault member
  | none, none => .required

/-- The value of a field the input does not provide. -/
def defaultValue (field : Field T V) (containerDefault : Option V) : V :=
  match field.missing containerDefault with
  | .default (.path value) => value
  | .containerDefault member => member
  | .default .trait | .required => field.traitDefault

/-- The default of a missing field, unless missing is an error. -/
def defaultFn (field : Field T V) (containerDefault : Option V) : Option V :=
  match field.missing containerDefault with
  | .default .trait => some field.traitDefault
  | .default (.path value) => some value
  | .containerDefault member => some member
  | .required => none

def hasFlatten (fields : List (Field T V)) : Bool := fields.any Field.flatten

/-- Keys the shape reads itself: names, aliases and the internal tag. -/
def ownKeys (scope : Scope V) (fields : List (Field T V)) : List Str :=
  (fields.filter fun field => !field.skipDeserializing && !field.flatten).flatMap
    (fun field => field.name.accepted) ++ scope.tag.toList

/-- The member of the struct's own default. -/
def Scope.member (scope : Scope V) (index : Nat) : Option V := scope.containerDefault.map (· index)

section Codec
variable {m : Type → Type} [Monad m] [MonadExcept JsError m]

/-- Decodes a value into JSON, then through serde. -/
def jsonDecodeWith (typeName : Str) (deserialize : Json → Except Str V) (value : JsValue) : m V := do
  let json ← MonadExcept.ofExcept (value.toJson .json)
  match deserialize json with
  | .ok value => pure value
  | .error message => throw (codecError "json".toList typeName message)

section Decode
variable (decodeJs : T → JsValue → m V)

def decoder (field : Field T V) : JsValue → m V :=
  match field.codec with
  | .native => decodeJs field.ty
  | .json _ deserialize => jsonDecodeWith field.typeName deserialize
  | .module _ decode => fun value => MonadExcept.ofExcept (decode value)

/-- A flattened field decodes from the keys the struct does not claim. A flattened `Option` is
`None` when its fields do not decode. -/
def decodeFlattened (rest : JsObject) (field : Field T V) : m V :=
  match field.codec, field.optionInner with
  | .native, some (inner, wrap) => wrap <$> asOk (decodeJs inner rest.toValue)
  | _, _ => decoder decodeJs field rest.toValue

def decodeStructField (object rest : JsObject) (field : Field T V)
    (containerDefault : Option V) : m V :=
  if field.skipDeserializing then pure (defaultValue field containerDefault)
  else if field.flatten then decodeFlattened decodeJs rest field
  else
    match defaultFn field containerDefault with
    | some default =>
      decodeFieldOr object field.name.accepted (decoder decodeJs field) default
    | none =>
      decodeField object field.name.accepted field.typeName (decoder decodeJs field)

/-- The members of a struct, from the one at an index on. -/
def decodeMembers (scope : Scope V) (object rest : JsObject) :
    Nat → List (Field T V) → m (List V)
  | _, [] => pure []
  | index, field :: fields => do
    let value ← decodeStructField decodeJs object rest field (scope.member index)
    let values ← decodeMembers scope object rest (index + 1) fields
    pure (value :: values)

/-- With `deny_unknown_fields` an object has no other keys than the struct's own. -/
def rejectUnknown (scope : Scope V) (fields : List (Field T V)) (object : JsObject) : m Unit :=
  if scope.denyUnknownFields && !hasFlatten fields then
    rejectUnknownFields object (ownKeys scope fields) scope.rust
  else pure ()

/-- The keys the struct does not claim, when there are flattened fields to read them. -/
def unclaimed (scope : Scope V) (fields : List (Field T V)) (object : JsObject) : m JsObject :=
  if hasFlatten fields then objectWithout object (ownKeys scope fields) else pure ⟨.plain, []⟩

def decodeStruct (scope : Scope V) (fields : List (Field T V)) (value : JsValue) :
    m (List V) := do
  let object ← expectObject value scope.rust
  rejectUnknown scope fields object
  let rest ← unclaimed scope fields object
  decodeMembers decodeJs scope object rest 0 fields

/-- The members of a tuple; skipped fields have no place in the array. -/
def decodeItems (items : List JsValue) : Nat → List (Field T V) → m (List V)
  | _, [] => pure []
  | position, field :: fields =>
    if field.skipDeserializing then do
      let values ← decodeItems items position fields
      pure (defaultValue field none :: values)
    else do
      let value ← decodeItem items position (decoder decodeJs field)
      let values ← decodeItems items (position + 1) fields
      pure (value :: values)

def decodeTuple (scope : Scope V) (fields : List (Field T V)) (value : JsValue) :
    m (List V) := do
  let len := (fields.filter fun field => !field.skipDeserializing).length
  let items ← expectArrayLen value scope.rust len
  decodeItems decodeJs items 0 fields

/-- The members of a shape. -/
def decodePayload (scope : Scope V) (shape : Shape T V) (value : JsValue) : m (List V) :=
  match shape with
  | .unit => do
    decodeUnit value
    pure []
  | .newtype field => do
    let value ← decoder decodeJs field value
    pure [value]
  | .tuple fields => decodeTuple decodeJs scope fields value
  | .struct fields => decodeStruct decodeJs scope fields value

end Decode

end Codec

end RustTS.Contract
