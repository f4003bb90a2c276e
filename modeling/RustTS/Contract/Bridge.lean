import RustTS.Lib.Asking
import RustTS.Contract.Codec
import RustTS.Contract.Number

/-! Structural conversion of QuickJS values to `serde_json` values. A conversion sees a value
only through the reads it makes, and any of them may run script code. -/
namespace RustTS.Contract

/-- The reads a conversion makes of an object. It knows an object by its place among the values
it received, the value to convert being the first. -/
inductive Read
  | get (object : Nat) (key : JsString)
  | item (array index : Nat)
  | keys (object : Nat)
  | bytes (object : Nat)
  deriving DecidableEq, Repr

/-- What a read is answered: a value received with its shape, the own enumerable string keys, or
the bytes of a `Uint8Array` or `ArrayBuffer`, which a detached one has not. -/
abbrev Answer : Read → Type
  | .get .. | .item .. => Except JsError (Nat × JsShape)
  | .keys _ => Except JsError (List JsString)
  | .bytes _ => Option (Option (List UInt8))

/-- A conversion; `none` while it is still running. -/
abbrev Conversion (X : Type) := Asking Answer (Option (Except JsError X))

namespace Conversion

variable {X Y : Type}

def ok (x : X) : Conversion X := .done (some (.ok x))

def error (e : JsError) : Conversion X := .done (some (.error e))

def ofExcept (r : Except JsError X) : Conversion X := .done (some r)

/-- `?`. -/
def andThen (c : Conversion X) (next : X → Conversion Y) : Conversion Y :=
  c.bind fun
    | none => .done none
    | some (.error e) => error e
    | some (.ok x) => next x

@[simp] theorem ok_andThen (x : X) (next : X → Conversion Y) :
    (ofExcept (.ok x)).andThen next = next x := rfl

@[simp] theorem error_andThen (e : JsError) (next : X → Conversion Y) :
    (ofExcept (.error e)).andThen next = error e := rfl

def mapError (f : JsError → JsError) (c : Conversion X) : Conversion X :=
  c.map fun r => r.map fun r => r.mapError f

def get (object : Nat) (key : JsString) : Conversion (Nat × JsShape) :=
  .ask (.get object key) ofExcept

def item (array index : Nat) : Conversion (Nat × JsShape) := .ask (.item array index) ofExcept

def keys (object : Nat) : Conversion (List JsString) := .ask (.keys object) ofExcept

end Conversion

/-- What a conversion produces: the value `JSON.stringify` and `serde_json` would, or a snapshot
for contract validation. -/
inductive Purpose
  | json
  | validation
  deriving DecidableEq, Repr

def nanStandIn : Nat := 2 ^ 64 - 1
def infinityStandIn : Nat := nanStandIn - 1
def negInfinityStandIn : Nat := nanStandIn - 2

def floatToJson (value : JsFloat) (purpose : Purpose) : Except JsError Json :=
  match exactInteger value with
  | some integer => .ok (.number (.ofInt integer))
  | none =>
    match value, purpose with
    | .finite negative m, _ => .ok (.number (.float negative m))
    | _, .json => .error (codecError "number".toList "json".toList "non-finite number".toList)
    | .nan, .validation => .ok (.number (.posInt nanStandIn))
    | .infinity false, .validation => .ok (.number (.posInt infinityStandIn))
    | .infinity true, .validation => .ok (.number (.posInt negInfinityStandIn))

/-- The text of a string, which lone surrogates have not. -/
def stringText (string : JsString) : Except JsError Str :=
  match string.toText with
  | some text => .ok text
  | none => .error (.other "utf8".toList)

def primitiveToJson (value : Primitive) (purpose : Purpose) : Except JsError Json :=
  match value with
  | .null | .undefined => .ok .null
  | .bool b => .ok (.bool b)
  | .int i => .ok (.number (.ofInt i.toInt))
  | .float f => floatToJson f purpose
  | .string s => (stringText s).map .string
  | .other name => .error (codecError name "json".toList "unsupported host bridge value".toList)

def bytesJson (bytes : Option (List UInt8)) : Json :=
  .array ((bytes.getD []).map fun byte => .number (.posInt byte.toNat))

open Conversion

/-- The loop of `array_to_json` over the last `remaining` items. -/
def itemsToJson (convert : Nat → JsShape → Conversion Json) (array : Nat) :
    (remaining index : Nat) → Conversion (List Json)
  | 0, _ => ok []
  | remaining + 1, index =>
    (item array index).andThen fun (handle, shape) =>
      ((convert handle shape).mapError (atIndex · index)).andThen fun json =>
        (itemsToJson convert array remaining (index + 1)).andThen fun rest => ok (json :: rest)

def arrayToJson (convert : Nat → JsShape → Conversion Json) (array : Nat) : Conversion Json :=
  (get array (.ofText "length".toList)).andThen fun (_, length) =>
    (ofExcept (arrayLength length "json".toList)).andThen fun len =>
      (itemsToJson convert array len 0).andThen fun items => ok (.array items)

/-- The loop of `object_to_json` over the keys. -/
def propsToJson (convert : Nat → JsShape → Conversion Json) (object : Nat) :
    List JsString → List (Str × Json) → Conversion (List (Str × Json))
  | [], map => ok map
  | key :: rest, map =>
    (get object key).andThen fun (handle, shape) =>
      (ofExcept (stringText key)).andThen fun key =>
        ((convert handle shape).mapError (atPath · (bracketed key))).andThen fun json =>
          propsToJson convert object rest (insertField key json map)

def objectToJson (convert : Nat → JsShape → Conversion Json) (object : Nat) : Conversion Json :=
  (keys object).andThen fun keys =>
    (propsToJson convert object keys []).andThen fun fields => ok (.object fields)

/-- `to_json`, calling itself at most as deep as the fuel. -/
def toJson (purpose : Purpose) : (fuel handle : Nat) → JsShape → Conversion Json
  | 0, _, _ => .done none
  | fuel + 1, handle, shape =>
    match shape with
    | .primitive value => ofExcept (primitiveToJson value purpose)
    | .array => arrayToJson (toJson purpose fuel) handle
    | .object _ =>
      match purpose with
      | .json => objectToJson (toJson purpose fuel) handle
      | .validation =>
        .ask (.bytes handle) fun
          | some bytes => ok (bytesJson bytes)
          | none => objectToJson (toJson purpose fuel) handle

def jsValueToJson : (fuel handle : Nat) → JsShape → Conversion Json := toJson .json

def jsValueToValidationSnapshot : (fuel handle : Nat) → JsShape → Conversion Json :=
  toJson .validation

/-- How an interpreter answers the reads of its values: each read may change the state, which is
everything scripts can change, but for the kind of an object. -/
structure Interpreter (V W : Type) where
  shape : V → JsShape
  get : V → JsString → W → Except JsError V × W
  item : V → Nat → W → Except JsError V × W
  keys : V → W → Except JsError (List JsString) × W
  bytes : V → W → Option (Option (List UInt8))

namespace Interpreter

variable {V W X : Type} (I : Interpreter V W)

/-- A value read joins those received. -/
def received (values : List V) : Except JsError V × W →
    Except JsError (Nat × JsShape) × List V × W
  | (.error e, w) => (.error e, values, w)
  | (.ok v, w) => (.ok (values.length, I.shape v), values ++ [v], w)

def answer : (q : Read) → List V × W → Answer q × List V × W
  | .get object key, (values, w) =>
    match values[object]? with
    | some v => I.received values (I.get v key w)
    | none => (.error .exception, values, w)
  | .item array index, (values, w) =>
    match values[array]? with
    | some v => I.received values (I.item v index w)
    | none => (.error .exception, values, w)
  | .keys object, (values, w) =>
    match values[object]? with
    | some v => ((I.keys v w).1, values, (I.keys v w).2)
    | none => (.error .exception, values, w)
  | .bytes object, (values, w) => ((values[object]?).bind (I.bytes · w), values, w)

/-- Converts a value. -/
def convert (c : Nat → JsShape → Conversion X) (v : V) (w : W) :
    Option (Except JsError X) × W :=
  let r := (c 0 (I.shape v)).run I.answer ([v], w)
  (r.1, r.2.2)

end Interpreter

end RustTS.Contract
