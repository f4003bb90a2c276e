import RustTS.Lib.Binary64
import RustTS.Contract.Bridge

/-! The `f64` that a text or a JSON number stands for. -/
namespace RustTS.Contract

open Binary64 (Double ofDecimal)

inductive F64
  | nan
  | number (negative : Bool) (magnitude : Double)

namespace F64

def infinity (negative : Bool) : F64 := .number negative ⊤

/-- `==`, for which the zeros are equal and no number is equal to `NaN`. -/
def eq : F64 → F64 → Bool
  | .number negative a, .number negative' b =>
    a = b ∧ (negative = negative' ∨ a = ofDecimal 0 0)
  | _, _ => false

def isFinite : F64 → Bool
  | .nan => false
  | .number _ magnitude => magnitude ≠ ⊤

end F64

/-- Takes a sign off a text; it is negative with a minus. -/
def splitSign : Str → Bool × Str
  | '-' :: rest => (true, rest)
  | '+' :: rest => (false, rest)
  | text => (false, text)

/-- The exponent that ends the text of a number. -/
def parseExponent : Str → Option Int
  | [] => some 0
  | e :: text =>
    let (negative, digits) := splitSign text
    if (e = 'e' ∨ e = 'E') ∧ digits ≠ [] ∧ digits.all Char.isDigit then
      let exponent := Nat.ofDigitChars 10 digits 0
      some (if negative then -(exponent : Int) else exponent)
    else none

/-- The digits and the exponent of a decimal number without a sign, which needs a digit before the
exponent. -/
def parseDecimal (text : Str) : Option (Nat × Int) :=
  let (whole, rest) := text.span Char.isDigit
  let (fraction, rest) := match rest with
    | '.' :: rest => rest.span Char.isDigit
    | _ => ([], rest)
  let digits := whole ++ fraction
  if digits = [] then none
  else (parseExponent rest).map fun exponent =>
    (Nat.ofDigitChars 10 digits 0, exponent - fraction.length)

/-- `str::parse::<f64>`. -/
def parseF64 (text : Str) : Option F64 :=
  let (negative, text) := splitSign text
  let lower := text.map Char.toLower
  if lower = "nan".toList then some .nan
  else if lower = "inf".toList ∨ lower = "infinity".toList then some (.infinity negative)
  else (parseDecimal text).map fun (digits, exponent) =>
    .number negative (ofDecimal digits exponent)

/-- `Number::as_f64`. -/
def Number.asF64 : Number → F64
  | .posInt value => .number false (ofDecimal value 0)
  | .negInt value => .number true (ofDecimal value.natAbs 0)
  | .float negative m => .number negative (ofDecimal m.digits m.exponent)

/-- `snapshot_number`. -/
def snapshotNumber : Number → F64
  | .posInt value =>
    if value = nanStandIn then .nan
    else if value = infinityStandIn then .infinity false
    else if value = negInfinityStandIn then .infinity true
    else Number.asF64 (.posInt value)
  | number => number.asF64

example : (parseF64 "-2.5e-1".toList).map F64.isFinite = some true := by decide +kernel

end RustTS.Contract
