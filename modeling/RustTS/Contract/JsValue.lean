import RustTS.Lib.RankedEntries
import RustTS.Contract.Bridge

/-! Plain JavaScript values, made of own data properties, and what `JSON.parse` makes of JSON. -/
namespace RustTS.Contract

/-- The array index a property key is: decimal digits below 2^32 − 1, without leading zeros. -/
def JsString.arrayIndex (key : JsString) : Option Nat :=
  match key.toText with
  | none => none
  | some text =>
    let index := text.foldl (fun n c => 10 * n + (c.toNat - '0'.toNat)) 0
    if Nat.toDigits 10 index = text ∧ index < 2 ^ 32 - 1 then some index else none

/-- Objects list array indices first, by their numbers, and other keys as they came in. -/
def JsString.rank (key : JsString) : Nat := key.arrayIndex.getD (2 ^ 32)

/-- What an object inherits from: `Object.prototype`, or nothing; `root` is `Object.prototype`
itself. -/
inductive Base
  | plain
  | bare
  | root
  deriving DecidableEq, Repr

/-- A plain value. Objects and functions list their own enumerable properties under string
keys. -/
inductive JsValue
  | primitive (value : Primitive)
  | array (items : List JsValue)
  | object (base : Base) (props : List (JsString × JsValue))
  | function (constructor : Bool) (props : List (JsString × JsValue))

abbrev Props := List (JsString × JsValue)

/-- An object that is neither an array nor a function. -/
structure JsObject where
  base : Base
  props : Props

namespace JsValue

def undefined : JsValue := .primitive .undefined

def null : JsValue := .primitive .null

/-- `Object.prototype`, of which a plain object shows nothing to enumerate. -/
def objectPrototype : JsValue := .object .root []

def shape : JsValue → JsShape
  | .primitive value => .primitive value
  | .array _ => .array
  | .object .. => .object .object
  | .function false _ => .object .function
  | .function true _ => .object .constructor

def typeName (value : JsValue) : Str := value.shape.typeName

/-- The properties with these values are those `JSON.stringify` drops. -/
def isAbsent : JsValue → Bool
  | .primitive .undefined | .function .. => true
  | .primitive (.other name) => name = "symbol".toList
  | _ => false

end JsValue

namespace JsObject

def toValue (object : JsObject) : JsValue := .object object.base object.props

end JsObject

/-- The methods of `Object.prototype`. -/
def objectMethods : List Str :=
  ["toString".toList, "toLocaleString".toList, "valueOf".toList, "hasOwnProperty".toList,
    "isPrototypeOf".toList, "propertyIsEnumerable".toList, "__defineGetter__".toList,
    "__defineSetter__".toList, "__lookupGetter__".toList, "__lookupSetter__".toList]

/-- What a property reads that the object has not itself. -/
def Base.inherited (base : Base) (name : Str) : JsValue :=
  if base = .bare then .undefined
  else if name = "__proto__".toList then
    if base = .root then .null else .objectPrototype
  else if name = "constructor".toList then .function true []
  else if name ∈ objectMethods then .function false []
  else .undefined

def JsObject.get (object : JsObject) (name : Str) : JsValue :=
  (object.props.lookup (.ofText name)).getD (object.base.inherited name)

theorem Base.isAbsent_inherited {base : Base} {name : Str}
    (h : base = .bare ∨ name ≠ "__proto__".toList) : (base.inherited name).isAbsent = true := by
  unfold Base.inherited
  split_ifs with hbare hproto
  · rfl
  · exact absurd hproto (h.resolve_left hbare)
  · exact absurd hproto (h.resolve_left hbare)
  all_goals rfl

section Parse
variable (readNumber : Number → Int32 ⊕ JsFloat)

/-- The number `JSON.parse` reads, as the engine stores it. -/
def JsValue.ofNumber (number : Number) : JsValue :=
  match readNumber number with
  | .inl int => .primitive (.int int)
  | .inr float => .primitive (.float float)

mutual

/-- `JSON.parse`. -/
def JsValue.parse : Json → JsValue
  | .null => .null
  | .bool value => .primitive (.bool value)
  | .number value => .ofNumber readNumber value
  | .string value => .primitive (.string (.ofText value))
  | .array items => .array (parseItems items)
  | .object fields => .object .plain (RankedEntries.defineAll JsString.rank [] (parseFields fields))

def JsValue.parseItems : List Json → List JsValue
  | [] => []
  | item :: rest => JsValue.parse item :: parseItems rest

def JsValue.parseFields : List (Str × Json) → Props
  | [] => []
  | (key, value) :: rest => (JsString.ofText key, JsValue.parse value) :: parseFields rest

end

/-- The object `JSON.parse` makes. -/
def parseObject (fields : List (Str × Json)) : JsObject :=
  ⟨.plain, RankedEntries.defineAll JsString.rank [] (JsValue.parseFields readNumber fields)⟩

theorem JsValue.parse_object (fields : List (Str × Json)) :
    JsValue.parse readNumber (.object fields) = (parseObject readNumber fields).toValue := by
  rw [JsValue.parse]
  rfl

theorem JsValue.parseFields_eq (fields : List (Str × Json)) :
    JsValue.parseFields readNumber fields =
      fields.map fun e => (JsString.ofText e.1, JsValue.parse readNumber e.2) := by
  induction fields with
  | nil => rfl
  | cons e fields ih => rw [JsValue.parseFields, ih, List.map_cons]

theorem JsValue.isAbsent_parse (json : Json) :
    (JsValue.parse readNumber json).isAbsent = false := by
  cases json with
  | number value =>
    rw [JsValue.parse, JsValue.ofNumber]
    cases readNumber value <;> rfl
  | null | bool | string | array | object =>
    rw [JsValue.parse]
    rfl

theorem ranked_parseObject (fields : List (Str × Json)) :
    RankedEntries.Ranked JsString.rank (parseObject readNumber fields).props :=
  RankedEntries.ranked_defineAll (RankedEntries.ranked_nil _) _

/-- A property reads the last member of its name. -/
theorem lookup_parseObject (fields : List (Str × Json)) (name : Str) :
    (parseObject readNumber fields).props.lookup (.ofText name) =
      (fields.reverse.lookup name).map (JsValue.parse readNumber) := by
  have hreverse : (JsValue.parseFields readNumber fields).reverse =
      fields.reverse.map fun e => (JsString.ofText e.1, JsValue.parse readNumber e.2) := by
    rw [JsValue.parseFields_eq, List.map_reverse]
  show (RankedEntries.defineAll JsString.rank [] (JsValue.parseFields readNumber fields)).lookup _ = _
  rw [RankedEntries.lookup_defineAll, hreverse, List.lookup_nil, Option.or_none]
  induction fields.reverse with
  | nil => rfl
  | cons e rest ih =>
    rw [List.map_cons]
    by_cases h : name = e.1
    · rw [h, List.lookup_cons, List.lookup_cons, beq_self_eq_true, beq_self_eq_true]
      rfl
    · rw [RankedEntries.lookup_cons_of_ne h, RankedEntries.lookup_cons_of_ne, ih]
      exact fun heq => h (JsString.ofText_injective heq)

theorem mem_keys_parseObject (fields : List (Str × Json)) (key : JsString) :
    key ∈ (parseObject readNumber fields).props.map Prod.fst ↔
      ∃ e ∈ fields, JsString.ofText e.1 = key := by
  show key ∈ (RankedEntries.defineAll JsString.rank [] (JsValue.parseFields readNumber fields)).map
    Prod.fst ↔ _
  rw [RankedEntries.mem_keys_defineAll, JsValue.parseFields_eq]
  simp

end Parse

mutual

/-- `to_json`. -/
def JsValue.toJson (purpose : Purpose) : JsValue → Except JsError Json
  | .primitive value => primitiveToJson value purpose
  | .array items => (JsValue.itemsToJson purpose 0 items).map .array
  | .object _ props | .function _ props => (JsValue.propsToJson purpose props []).map .object

/-- The loop of `array_to_json` from an index on. -/
def JsValue.itemsToJson (purpose : Purpose) : Nat → List JsValue → Except JsError (List Json)
  | _, [] => .ok []
  | index, item :: rest =>
    ((JsValue.toJson purpose item).mapError (atIndex · index)).bind fun json =>
      (JsValue.itemsToJson purpose (index + 1) rest).map (json :: ·)

/-- The loop of `object_to_json`. -/
def JsValue.propsToJson (purpose : Purpose) :
    Props → List (Str × Json) → Except JsError (List (Str × Json))
  | [], map => .ok map
  | (key, value) :: rest, map =>
    (stringText key).bind fun key =>
      ((JsValue.toJson purpose value).mapError (atPath · (bracketed key))).bind fun json =>
        JsValue.propsToJson purpose rest (insertField key json map)

end

end RustTS.Contract
