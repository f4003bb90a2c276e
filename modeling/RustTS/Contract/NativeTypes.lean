import Mathlib.Data.Char
import Mathlib.Data.List.Lex
import Mathlib.Data.Sum.Order
import RustTS.Contract.Encode
import RustTS.Lib.SortedEntries

/-! The types that cross natively, and the codecs of all of them: scalars, text, containers, maps and
derived types, which refer to each other by name. -/
namespace RustTS.Contract

/-- The key types of maps. -/
inductive MapKeyType
  | string
  | integer (K : IntegerType)
  deriving DecidableEq

inductive MapKey
  | string (text : Str)
  | integer (value : Int)

/-- Keys are in the order a `BTreeMap` keeps them in; no map has keys of both kinds. -/
def MapKey.toSum : MapKey → Str ⊕ₗ Int
  | .string text => toLex (.inl text)
  | .integer value => toLex (.inr value)

private theorem MapKey.toSum_injective : Function.Injective MapKey.toSum := by
  intro a b h
  cases a with
  | string text =>
    cases b with
    | string other => exact congrArg MapKey.string (Sum.inl.inj (toLex.injective h))
    | integer value => cases toLex.injective h
  | integer value =>
    cases b with
    | string text => cases toLex.injective h
    | integer other => exact congrArg MapKey.integer (Sum.inr.inj (toLex.injective h))

instance : LinearOrder MapKey := LinearOrder.lift' MapKey.toSum MapKey.toSum_injective

inductive NativeType
  | bool
  | unit
  | string
  | char
  | integer (K : IntegerType)
  | float
  | option (inner : NativeType)
  | vec (inner : NativeType)
  | array (len : Nat) (inner : NativeType)
  | tuple (items : List NativeType)
  | hashMap (key : MapKeyType) (inner : NativeType)
  | btreeMap (key : MapKeyType) (inner : NativeType)
  | derived (name : Str)

/-- The values of native types. A map lists its entries in the order of their keys. -/
inductive NativeValue
  | bool (value : Bool)
  | unit
  | string (value : Str)
  | char (value : Char)
  | integer (value : Int)
  | float (value : JsFloat)
  | none
  | some (value : NativeValue)
  | list (items : List NativeValue)
  | map (entries : List (MapKey × NativeValue))
  | struct (members : List NativeValue)
  | variant (ident : Str) (members : List NativeValue)

/-- A derived type. -/
inductive Derived
  | struct (definition : StructDef NativeType NativeValue)
  | enum (definition : EnumDef NativeType NativeValue)

/-- The derived types of a program, and what else the codecs use: QuickJS, the characters `Debug`
prints as they are, and the order a `HashMap` lists its entries in. -/
structure Natives extends QuickJs where
  derived : Str → Option Derived
  printable : Char → Bool
  hashOrder : List (MapKey × NativeValue) → List (MapKey × NativeValue)
  hashOrder_perm : ∀ entries, (hashOrder entries).Perm entries

/-- A conversion, which may not end. -/
abbrev Crossing (X : Type) := ExceptT JsError Option X

/-- A conversion that has not ended, or is not one of a value of the type. -/
def stuck {X : Type} : Crossing X := ExceptT.mk none

/-- `decode_string`. -/
def decodeString (value : JsValue) (rust : Str) : Crossing Str :=
  match value with
  | .primitive (.string text) => jsText text rust
  | value => throw (mismatch value.shape rust "string".toList)

def decodeChar (value : JsValue) : Crossing Char := do
  let text ← decodeString value "char".toList
  match text with
  | [character] => pure character
  | text => throw (codecError "string".toList "char".toList
      ("expected a string of exactly one character, got ".toList ++ Nat.toDigits 10 text.length ++
        " characters".toList))

def expectArray (value : JsValue) (rust : Str) : Crossing (List JsValue) :=
  match value with
  | .array items => pure items
  | value => throw (mismatch value.shape rust "array".toList)

/-- Encodes the items of a sequence, the first of which stands at an index. -/
def encodeItemsFrom : Nat → List (Crossing JsValue) → Crossing (List JsValue)
  | _, [] => pure []
  | index, item :: items => do
    let value ← mapErr (atIndex · index) item
    let values ← encodeItemsFrom (index + 1) items
    pure (value :: values)

/-- Decodes the items of an array from an index on, each by its own decoder. -/
def decodeItemsFrom (array : List JsValue) :
    Nat → List (JsValue → Crossing NativeValue) → Crossing (List NativeValue)
  | _, [] => pure []
  | index, decode :: decoders => do
    let value ← decodeItem array index decode
    let values ← decodeItemsFrom array (index + 1) decoders
    pure (value :: values)

/-- The text `MapKey::with_text` writes. -/
def MapKeyType.withText : MapKeyType → MapKey → Option Str
  | .string, .string text => some text
  | .integer K, .integer value => (K.ofInt value).bind K.withText
  | _, _ => none

/-- `decode_key`. -/
def MapKeyType.decodeKey (printable : Char → Bool) (text rust : Str) :
    MapKeyType → Except JsError MapKey
  | .string => .ok (.string text)
  | .integer K => (K.decodeKey printable text rust).map fun key => .integer key.1

/-- `encode_entries`, into an object. -/
def encodeEntries (key : MapKeyType) (encode : NativeValue → Crossing JsValue) :
    List (MapKey × NativeValue) → Props → Crossing Props
  | [], object => pure object
  | (name, value) :: entries, object =>
    match key.withText name with
    | none => stuck
    | some text => do
      let value ← mapErr (atPath · (bracketed text)) (encode value)
      encodeEntries key encode entries (RankedEntries.define JsString.rank object (.ofText text) value)

/-- `decode_entries` of the properties that are left. -/
def decodeMapEntries (natives : Natives) (key : MapKeyType) (rust : Str)
    (decode : JsValue → Crossing NativeValue) :
    Props → List (MapKey × NativeValue) → Crossing (List (MapKey × NativeValue))
  | [], map => pure map
  | (name, value) :: properties, map =>
    if value.isAbsent then decodeMapEntries natives key rust decode properties map
    else do
      let text ← MonadExcept.ofExcept (stringText name)
      let value ← mapErr (atPath · (bracketed text)) (decode value)
      let name ← MonadExcept.ofExcept (key.decodeKey natives.printable text rust)
      decodeMapEntries natives key rust decode properties (SortedEntries.insert map name value)

def encodeMap (key : MapKeyType) (encode : NativeValue → Crossing JsValue)
    (entries : List (MapKey × NativeValue)) : Crossing JsValue := do
  let object ← encodeEntries key encode entries []
  pure (.object .plain object)

def decodeMap (natives : Natives) (key : MapKeyType) (rust : Str)
    (decode : JsValue → Crossing NativeValue) (value : JsValue) : Crossing NativeValue := do
  let object ← expectObject value rust
  let entries ← decodeMapEntries natives key rust decode object.props []
  pure (.map entries)

/-- `encode_js` of a value, with what it calls. -/
def encodeNative (natives : Natives) (encodeJs : NativeType → NativeValue → Crossing JsValue) :
    NativeType → NativeValue → Crossing JsValue
  | .bool, .bool value => pure (.primitive (.bool value))
  | .unit, .unit => pure .null
  | .string, .string value => pure (.primitive (.string (.ofText value)))
  | .char, .char value => pure (.primitive (.string (.ofText [value])))
  | .integer K, .integer value =>
    MonadExcept.ofExcept ((IntegerType.encodeInteger value K.name).map .primitive)
  | .float, .float value => pure (.primitive (floatValue natives.newNumber value))
  | .option _, .none => pure .null
  | .option inner, .some value => encodeJs inner value
  | .vec inner, .list items | .array _ inner, .list items => do
    let items ← encodeItemsFrom 0 (items.map (encodeJs inner))
    pure (.array items)
  | .tuple types, .list items => do
    let items ← encodeItemsFrom 0 (types.zipWith encodeJs items)
    pure (.array items)
  | .hashMap key inner, .map entries => encodeMap key (encodeJs inner) (natives.hashOrder entries)
  | .btreeMap key inner, .map entries => encodeMap key (encodeJs inner) entries
  | .derived name, .struct members =>
    match natives.derived name with
    | some (.struct struct) => struct.encodeBody natives.toQuickJs encodeJs members
    | _ => stuck
  | .derived name, .variant ident members =>
    match natives.derived name with
    | some (.enum enum) =>
      match enum.variants.find? fun variant => variant.ident = ident with
      | some variant => enum.encodeBody natives.toQuickJs encodeJs variant members
      | none => stuck
    | _ => stuck
  | _, _ => stuck

/-- `decode_js` of a type, with what it calls. -/
def decodeNative (natives : Natives) (decodeJs : NativeType → JsValue → Crossing NativeValue)
    (ty : NativeType) (value : JsValue) : Crossing NativeValue :=
  match ty with
  | .bool => .bool <$> MonadExcept.ofExcept (decodeBool value.shape)
  | .unit => (fun _ => .unit) <$> decodeUnit value
  | .string => .string <$> decodeString value "String".toList
  | .char => .char <$> decodeChar value
  | .integer K =>
    (fun integer => .integer integer.1) <$> MonadExcept.ofExcept (K.decodeInteger value.shape)
  | .float => .float <$> MonadExcept.ofExcept (decodeNumber value.shape "f64".toList)
  | .option inner =>
    match value with
    | .primitive .null | .primitive .undefined => pure .none
    | value => .some <$> decodeJs inner value
  | .vec inner => do
    let items ← expectArray value "Vec".toList
    .list <$> decodeItemsFrom items 0 (List.replicate items.length (decodeJs inner))
  | .array len inner => do
    let items ← expectArrayLen value "[T; N]".toList len
    .list <$> decodeItemsFrom items 0 (List.replicate len (decodeJs inner))
  | .tuple types => do
    let items ← expectArrayLen value "tuple".toList types.length
    .list <$> decodeItemsFrom items 0 (types.map decodeJs)
  | .hashMap key inner => decodeMap natives key "HashMap".toList (decodeJs inner) value
  | .btreeMap key inner => decodeMap natives key "BTreeMap".toList (decodeJs inner) value
  | .derived name =>
    match natives.derived name with
    | some (.struct struct) => .struct <$> struct.decodeBody decodeJs value
    | some (.enum enum) =>
      (fun decoded => .variant decoded.1 decoded.2) <$> enum.decodeBody (enum.decodeHelper decodeJs) value
    | none => stuck

/-- `encode_js`, calling itself at most as deep as the fuel. -/
def encodeJs (natives : Natives) : (fuel : Nat) → NativeType → NativeValue → Crossing JsValue
  | 0 => fun _ _ => stuck
  | fuel + 1 => encodeNative natives (encodeJs natives fuel)

/-- `decode_js`, calling itself at most as deep as the fuel. -/
def decodeJs (natives : Natives) : (fuel : Nat) → NativeType → JsValue → Crossing NativeValue
  | 0 => fun _ _ => stuck
  | fuel + 1 => decodeNative natives (decodeJs natives fuel)

end RustTS.Contract
