import RustTS.Contract.Maps

/-! The codecs of integers, floats, booleans and `()`, twice: for wrapped values, and for the
QuickJS values of scalars, which need no wrapper. -/
namespace RustTS.Contract

namespace JsFloat

/-- An integer as an `f64`; within the safe range it is exact. -/
def ofInt (i : Int) : JsFloat := .finite (decide (i < 0)) (.ofNat i.natAbs)

def isSignNegative : JsFloat → Bool
  | .nan => false
  | .infinity negative => negative
  | .finite negative _ => negative

/-- `==`, for which the zeros are equal. -/
def eq : JsFloat → JsFloat → Bool
  | .infinity a, .infinity b => a = b
  | .finite a m, .finite b n => m = n ∧ (a = b ∨ m.digits = 0)
  | _, _ => false

/-- `0.0`. -/
def zero : JsFloat := .finite false ⟨0, 0, .inr ⟨rfl, rfl⟩⟩

def isNegativeZero (value : JsFloat) : Bool := value.eq zero && value.isSignNegative

def isFinite : JsFloat → Bool
  | .finite .. => true
  | _ => false

end JsFloat

/-- The integer part. -/
def Decimal.trunc (m : Decimal) : Nat :=
  if 0 ≤ m.exponent then m.digits * 10 ^ m.exponent.toNat else m.digits / 10 ^ (-m.exponent).toNat

/-- `as i32`, which cuts the fraction off and saturates. -/
def JsFloat.asI32 : JsFloat → Int32
  | .nan => 0
  | .infinity negative => if negative then Int32.minValue else Int32.maxValue
  | .finite negative m =>
    let wide : Int := if negative then -m.trunc else m.trunc
    Int32.ofInt (max IntegerType.i32.min (min IntegerType.i32.max wide))

/-- `Option::ok_or_else`. -/
def okOr {α : Type} (value : Option α) (error : JsError) : Except JsError α :=
  match value with
  | some value => .ok value
  | none => .error error

namespace IntegerType

/-- What the integer codecs expect: the integers of up to 32 bits, and the others. -/
def expected : IntegerType → Str
  | i8 => "integer".toList
  | i16 => "integer".toList
  | i32 => "integer".toList
  | u8 => "integer".toList
  | u16 => "integer".toList
  | u32 => "integer".toList
  | i64 => "safe integer".toList
  | i128 => "safe integer".toList
  | isize => "safe integer".toList
  | u64 => "safe integer".toList
  | u128 => "safe integer".toList
  | usize => "safe integer".toList

/-- `i32::try_from`. -/
def tryI32 (value : Int) : Option Int32 := (i32.ofInt value).map fun small => Int32.ofInt small.1

/-- `i64::try_from`, where the result is within the safe range. -/
def trySafe (value : Int) : Option Int :=
  ((i64.ofInt value).map Subtype.val).filter fun wide => wide.natAbs ≤ maxSafeInteger

/-- `encode_integer`. -/
def encodeInteger (value : Int) (rust : Str) : Except JsError Primitive :=
  match tryI32 value with
  | some small => .ok (.int small)
  | none =>
    match trySafe value with
    | some wide => .ok (.float (.ofInt wide))
    | none => .error (.intoJs rust "number".toList
        (some (intText value ++
          " is outside the JavaScript safe integer range ±(2^53 - 1)".toList)))

/-- `scalar_integer`: the QuickJS value `encodeInteger` builds, without the wrapper. -/
def scalarInteger (value : Int) : Option Primitive :=
  match tryI32 value with
  | some small => some (.int small)
  | none =>
    match trySafe value with
    | some wide => some (.float (.ofInt wide))
    | none => none

/-- `safe_integer`. -/
def safeInteger (value : JsShape) : Option Int :=
  match value with
  | .primitive (.int int) => some int.toInt
  | .primitive (.float float) => exactInteger float
  | _ => none

/-- `decode_integer`. -/
def decodeInteger (K : IntegerType) (value : JsShape) : Except JsError K.Value :=
  okOr ((safeInteger value).bind K.ofInt)
    (mismatch value K.name (K.expected ++ " in ".toList ++ K.name ++ " range".toList))

/-- `scalar_safe_integer`: the integer in a QuickJS value, when it is an int or a float that is
one within the safe range. -/
def scalarSafeInteger (value : JsShape) : Option Int :=
  match value with
  | .primitive (.int int) => some int.toInt
  | .primitive (.float float) => exactInteger float
  | _ => none

end IntegerType

/-- The conversions of `f32`: to and from `f64`, and its `{:e}` text read as an `f64`. -/
structure F32Ops (F32 : Type) where
  toF64 : F32 → JsFloat
  ofF64 : JsFloat → F32
  text : F32 → Str
  parse : Str → Option JsFloat

section Floats
variable {F32 : Type} (ops : F32Ops F32) (newNumber : JsFloat → Primitive)

/-- The QuickJS value `numberValue` builds, without the wrapper. -/
def scalarNumber (value : JsFloat) : Primitive :=
  let int := value.asI32
  -- integral values become ints; `-0.0` stays a float so its sign survives
  if value.eq (.ofInt int.toInt) && !value.isNegativeZero then .int int else .float value

/-- `number_value`; `newNumber` is rquickjs's `Value::new_number`. -/
def floatValue (value : JsFloat) : Primitive :=
  if value.isNegativeZero then .float value else newNumber value

/-- Every `f32` integer up to this magnitude prints as itself, so it widens exactly. -/
def f32ExactIntegerLimit : Nat := 16777216

def isExactInteger (value : JsFloat) : Bool :=
  match value with
  | .finite _ m => 0 ≤ m.exponent ∧ m.trunc ≤ f32ExactIntegerLimit
  | _ => false

/-- Widens like `serde_json` text does: the shortest decimal that identifies the `f32`, read
back as an `f64`. -/
def widenF32 (value : F32) : JsFloat :=
  let exact := ops.toF64 value
  if !exact.isFinite || isExactInteger exact then exact
  else ((stackText 32 (ops.text value)).bind ops.parse).getD exact

/-- `as_number`. -/
def asNumber (value : JsShape) : Option JsFloat :=
  match value with
  | .primitive (.int int) => some (.ofInt int.toInt)
  | .primitive (.float float) => some float
  | _ => none

def decodeNumber (value : JsShape) (rust : Str) : Except JsError JsFloat :=
  okOr (asNumber value) (mismatch value rust "number".toList)

/-- The number in a QuickJS value, when it is an int or a float. -/
def scalarFloat (value : JsShape) : Option JsFloat :=
  match value with
  | .primitive (.int int) => some (.ofInt int.toInt)
  | .primitive (.float float) => some float
  | _ => none

end Floats

def decodeBool (value : JsShape) : Except JsError Bool :=
  match value with
  | .primitive (.bool b) => .ok b
  | _ => .error (mismatch value "bool".toList "boolean".toList)

def scalarBool (value : JsShape) : Option Bool :=
  match value with
  | .primitive (.bool b) => some b
  | _ => none

def decodeNull (value : JsShape) : Except JsError Unit :=
  if value = .primitive .null ∨ value = .primitive .undefined then .ok ()
  else .error (mismatch value "()".toList "null".toList)

def scalarNull (value : JsShape) : Option Unit :=
  if value = .primitive .null ∨ value = .primitive .undefined then some () else none

/-- What rquickjs promises of `Value::new_number`: the numbers that are ints become ints, and the
others are floats. -/
structure MakesNumbers (newNumber : JsFloat → Primitive) : Prop where
  int : ∀ (value : JsFloat) (small : Int32), value.eq (.ofInt small.toInt) = true →
    newNumber value = .int small
  float : ∀ value : JsFloat, (∀ small : Int32, value.eq (.ofInt small.toInt) = false) →
    newNumber value = .float value

theorem IntegerType.scalarInteger_iff {value : Int} {rust : Str} {p : Primitive} :
    scalarInteger value = some p ↔ encodeInteger value rust = .ok p := by
  unfold scalarInteger encodeInteger
  cases tryI32 value with
  | some small => simp
  | none => cases trySafe value <;> simp

example : IntegerType.scalarInteger (2 ^ 31 - 1) = some (.int Int32.maxValue) ∧
    IntegerType.scalarInteger (-2 ^ 53) = none := by decide

private theorem Decimal.trunc_ofNat (n : Nat) : (Decimal.ofNat n).trunc = n := by
  have hexponent : 0 ≤ (Decimal.ofNat n).exponent := Int.natCast_nonneg _
  have hvalue : (Decimal.ofNat n).digits * 10 ^ (Decimal.ofNat n).exponent.toNat = n :=
    stripZeros_value n
  unfold Decimal.trunc
  rw [if_pos hexponent, hvalue]

theorem JsFloat.asI32_of_eq {value : JsFloat} {small : Int32}
    (h : value.eq (.ofInt small.toInt) = true) : value.asI32 = small := by
  cases value with
  | nan => simp [JsFloat.eq] at h
  | infinity negative => simp [JsFloat.eq, JsFloat.ofInt] at h
  | finite negative m =>
    simp only [JsFloat.ofInt, JsFloat.eq, decide_eq_true_eq] at h
    obtain ⟨rfl, hsign⟩ := h
    have hwide : (if negative then -(small.toInt.natAbs : Int) else small.toInt.natAbs) =
        small.toInt := by
      rcases hsign with rfl | hdigits
      · by_cases hneg : small.toInt < 0
        · simp only [hneg, decide_true, if_true]
          omega
        · simp only [hneg, decide_false, Bool.false_eq_true, if_false]
          omega
      · have hzero : small.toInt.natAbs = 0 := by
          have hvalue := stripZeros_value small.toInt.natAbs
          have hstrip : (stripZeros small.toInt.natAbs).1 = 0 := hdigits
          rw [hstrip] at hvalue
          omega
        split_ifs <;> omega
    have hlow : IntegerType.i32.min ≤ small.toInt := small.minValue_le_toInt
    have hhigh : small.toInt ≤ IntegerType.i32.max := small.toInt_le
    show Int32.ofInt (max IntegerType.i32.min (min IntegerType.i32.max
      (if negative then -((Decimal.ofNat small.toInt.natAbs).trunc : Int)
        else (Decimal.ofNat small.toInt.natAbs).trunc))) = small
    rw [Decimal.trunc_ofNat, hwide, min_eq_right hhigh, max_eq_right hlow, Int32.ofInt_toInt]

/-- Both ways of building a number make the same one. -/
theorem scalarNumber_eq {newNumber : JsFloat → Primitive} (hnew : MakesNumbers newNumber)
    (value : JsFloat) : scalarNumber value = floatValue newNumber value := by
  unfold scalarNumber floatValue
  dsimp only
  by_cases hzero : value.isNegativeZero = true
  · simp [hzero]
  · by_cases hint : value.eq (.ofInt value.asI32.toInt) = true
    · rw [hnew.int value _ hint]
      simp [hzero, hint]
    · have hfloat : newNumber value = .float value := by
        apply hnew.float
        intro small
        by_contra heq
        rw [Bool.not_eq_false] at heq
        rw [JsFloat.asI32_of_eq heq] at hint
        exact hint heq
      rw [hfloat]
      simp [hzero, hint]

/-- The number rquickjs makes. -/
def makeNumber (value : JsFloat) : Primitive :=
  if value.eq (.ofInt value.asI32.toInt) then .int value.asI32 else .float value

theorem makesNumbers_makeNumber : MakesNumbers makeNumber where
  int value small h := by
    unfold makeNumber
    rw [JsFloat.asI32_of_eq h, if_pos h]
  float value h := by
    unfold makeNumber
    rw [if_neg (by simp [h])]

end RustTS.Contract
