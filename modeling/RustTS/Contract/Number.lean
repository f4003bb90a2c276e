import Mathlib.Tactic.Ring
import RustTS.Lib.DecimalText

/-! JavaScript numbers as the codecs read them, and `serde_json` values. -/
namespace RustTS.Contract

/-- Rust text. -/
abbrev Str := List Char

/-- A decimal without trailing zeros. -/
structure Decimal where
  digits : Nat
  exponent : Int
  canonical : digits % 10 ≠ 0 ∨ digits = 0 ∧ exponent = 0
  deriving DecidableEq, Repr

/-- An `f64`. A finite one is the shortest decimal that reads back as it, which tells it from
every other one and is the text it displays; up to the last safe integer that decimal is an
integer exactly where the number is, and the same one. -/
inductive JsFloat
  | nan
  | infinity (negative : Bool)
  | finite (negative : Bool) (magnitude : Decimal)
  deriving DecidableEq, Repr

/-- Takes the zeros off the end of a number, and counts them. -/
def stripZeros (n : Nat) : Nat × Nat :=
  if n % 10 = 0 ∧ n ≠ 0 then
    let r := stripZeros (n / 10)
    (r.1, r.2 + 1)
  else (n, 0)
  decreasing_by omega

theorem stripZeros_value (n : Nat) : (stripZeros n).1 * 10 ^ (stripZeros n).2 = n := by
  induction n using Nat.strong_induction_on with
  | _ n ih =>
    rw [stripZeros]
    split_ifs with h
    · have hless := ih (n / 10) (by omega)
      show (stripZeros (n / 10)).1 * 10 ^ ((stripZeros (n / 10)).2 + 1) = n
      rw [pow_succ, ← mul_assoc, hless]
      omega
    · simp

theorem stripZeros_canonical (n : Nat) :
    (stripZeros n).1 % 10 ≠ 0 ∨ (stripZeros n).1 = 0 ∧ (stripZeros n).2 = 0 := by
  induction n using Nat.strong_induction_on with
  | _ n ih =>
    rw [stripZeros]
    split_ifs with h
    · have hvalue := stripZeros_value (n / 10)
      rcases ih (n / 10) (by omega) with hdigit | ⟨hzero, -⟩
      · exact .inl hdigit
      · rw [hzero] at hvalue
        omega
    · show n % 10 ≠ 0 ∨ n = 0 ∧ 0 = 0
      omega

def Decimal.ofNat (n : Nat) : Decimal :=
  ⟨(stripZeros n).1, (stripZeros n).2, by
    have h := stripZeros_canonical n
    omega⟩

/-- Largest integer JavaScript numbers represent exactly: 2^53 − 1. -/
def maxSafeInteger : Nat := 2 ^ 53 - 1

/-- The number as an integer within the safe range, when it is one. -/
def exactInteger : JsFloat → Option Int
  | .finite negative m =>
    if 0 ≤ m.exponent then
      let n := m.digits * 10 ^ m.exponent.toNat
      if n ≤ maxSafeInteger then some (if negative then -(n : Int) else n) else none
    else none
  | _ => none

theorem exactInteger_ofNat {n : Nat} (h : n ≤ maxSafeInteger) :
    exactInteger (.finite false (.ofNat n)) = some (n : Int) := by
  have hvalue : (Decimal.ofNat n).digits * 10 ^ (Decimal.ofNat n).exponent.toNat = n :=
    stripZeros_value n
  have hexponent : 0 ≤ (Decimal.ofNat n).exponent := Int.natCast_nonneg _
  unfold exactInteger
  simp only [if_pos hexponent, hvalue, if_pos h]
  rfl

/-- The text of a decimal, without an exponent. -/
def Decimal.toText (m : Decimal) : Str :=
  let digits := Nat.toDigits 10 m.digits
  if 0 ≤ m.exponent then digits ++ List.replicate m.exponent.toNat '0'
  else
    let places := (-m.exponent).toNat
    let padded := List.replicate (places + 1 - digits.length) '0' ++ digits
    padded.take (padded.length - places) ++ '.' :: padded.drop (padded.length - places)

/-- `Display` of an `f64`. -/
def JsFloat.toText : JsFloat → Str
  | .nan => "NaN".toList
  | .infinity negative => (if negative then "-inf" else "inf").toList
  | .finite negative m => (if negative then ['-'] else []) ++ m.toText

def intText (i : Int) : Str :=
  (if i < 0 then ['-'] else []) ++ Nat.toDigits 10 i.natAbs

example : JsFloat.toText (.finite true ⟨25, -3, by decide⟩) = "-0.025".toList := by decide

/-- `serde_json::Number`. -/
inductive Number
  | posInt (value : Nat)
  | negInt (value : Int)
  | float (negative : Bool) (magnitude : Decimal)
  deriving DecidableEq, Repr

def Number.ofInt (i : Int) : Number := if 0 ≤ i then .posInt i.toNat else .negInt i

/-- `serde_json::Value`. An object lists its entries in the order their keys first came in. -/
inductive Json
  | null
  | bool (value : Bool)
  | number (value : Number)
  | string (value : Str)
  | array (items : List Json)
  | object (fields : List (Str × Json))

/-- `Map::insert`. -/
def insertField (key : Str) (value : Json) : List (Str × Json) → List (Str × Json)
  | [] => [(key, value)]
  | entry :: rest =>
    if entry.1 = key then (key, value) :: rest else entry :: insertField key value rest

end RustTS.Contract
