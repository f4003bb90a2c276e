import Mathlib.Data.List.TakeDrop
import RustTS.Contract.Validation
import RustTS.Contract.JsValue

/-! The numbers of JavaScript values, of source texts and of property keys. -/
namespace RustTS.Contract

open Binary64 (ofDecimal)

def JsFloat.toF64 : JsFloat → F64
  | .nan => .nan
  | .infinity negative => .infinity negative
  | .finite negative m => .number negative (ofDecimal m.digits m.exponent)

/-- The number a value is, if it is one. -/
def JsValue.toF64 : JsValue → Option F64
  | .primitive (.int value) =>
    some (.number (value.toInt < 0) (ofDecimal value.toInt.natAbs 0))
  | .primitive (.float value) => some value.toF64
  | _ => none

/-- A decimal literal of source text, a sign before it. -/
def sourceNumeral (text : Str) : Option F64 :=
  let (negative, digits) := splitSign text
  let padded := match digits with
    | '0' :: c :: _ => c.isDigit
    | _ => false
  if padded then none
  else (parseDecimal digits).map fun (digits, exponent) =>
    .number negative (ofDecimal digits exponent)

/-- White space and line ends, as `String.prototype.trim` has them. -/
def isJsSpace (c : Char) : Bool :=
  let n := c.toNat
  (0x9 ≤ n && n ≤ 0xD) || n == 0x20 || n == 0xA0 || n == 0x1680 || (0x2000 ≤ n && n ≤ 0x200A) ||
    n == 0x2028 || n == 0x2029 || n == 0x202F || n == 0x205F || n == 0x3000 || n == 0xFEFF

def trimJs (text : Str) : Str :=
  ((text.dropWhile isJsSpace).reverse.dropWhile isJsSpace).reverse

/-- What a letter or digit counts for in a literal with a radix. -/
def digitValue (c : Char) : Nat :=
  if c.isDigit then c.toNat - '0'.toNat
  else if c.isAlpha then c.toLower.toNat - 'a'.toNat + 10
  else 36

/-- The number of an integer literal that starts with its radix. -/
def radixLiteral : Str → Option Nat
  | '0' :: marker :: digits =>
    let radix := if marker.toLower = 'x' then 16 else if marker.toLower = 'o' then 8
      else if marker.toLower = 'b' then 2 else 0
    if digits ≠ [] ∧ digits.all (digitValue · < radix) then
      some (digits.foldl (fun n c => radix * n + digitValue c) 0)
    else none
  | _ => none

/-- `Number(text)`. -/
def toNumber (text : Str) : F64 :=
  let text := trimJs text
  if text = [] then .number false (ofDecimal 0 0)
  else match radixLiteral text with
    | some value => .number false (ofDecimal value 0)
    | none =>
      let (negative, text) := splitSign text
      if text = "Infinity".toList then .infinity negative
      else match parseDecimal text with
        | some (digits, exponent) => .number negative (ofDecimal digits exponent)
        | none => .nan

/-- `Number.isFinite(Number(key))`, lone surrogates being no part of a number. -/
def JsString.isNumeric (key : JsString) : Bool :=
  match key.toText with
  | some text => (toNumber text).isFinite
  | none => false

/-- A property key that is a number to JavaScript only where its text is one in Rust: without space
around it, not empty and without a radix. -/
def IsPlainKey (key : Str) : Prop := trimJs key = key ∧ key ≠ [] ∧ radixLiteral key = none

instance (key : Str) : Decidable (IsPlainKey key) := inferInstanceAs (Decidable (_ ∧ _))

theorem parseDecimal_head {c : Char} {text : Str} (hdigit : c.isDigit = false) (hpoint : c ≠ '.') :
    parseDecimal (c :: text) = none := by
  have hspan : (c :: text).span Char.isDigit = ([], c :: text) := by
    rw [List.span_eq_takeWhile_dropWhile, List.takeWhile_cons, List.dropWhile_cons]
    simp [hdigit]
  unfold parseDecimal
  simp only [hspan]
  split <;> simp_all

private theorem toLower_eq_self {c : Char} (h : c.isDigit = true ∨ c = '.') : c.toLower = c := by
  rcases h with h | rfl
  · have hrange : ¬(c.val ≥ 'A'.val ∧ c.val ≤ 'Z'.val) := by
      simp only [Char.isDigit, Bool.and_eq_true, decide_eq_true_eq] at h
      rintro ⟨hlow, -⟩
      exact absurd (UInt32.le_trans hlow h.2) (by decide)
    exact dif_neg hrange
  · rfl

theorem parseDecimal_word {text : Str} {c : Char} {word : Str} (hdigit : c.isDigit = false)
    (hpoint : c ≠ '.') (h : text.map Char.toLower = c :: word) : parseDecimal text = none := by
  obtain ⟨first, rest, rfl, rfl, -⟩ := List.map_eq_cons_iff.mp h
  apply parseDecimal_head
  · by_contra hfirst
    have hfirst : first.isDigit = true := by simpa using hfirst
    rw [toLower_eq_self (.inl hfirst)] at hdigit
    exact Bool.false_ne_true (hdigit.symm.trans hfirst)
  · rintro rfl
    exact hpoint rfl

theorem parseF64_eq {text digits : Str} {negative : Bool} (hsign : splitSign text = (negative, digits)) :
    (parseDecimal digits = none ∧ (parseF64 text).any F64.isFinite = false) ∨
      ∃ decimal, parseDecimal digits = some decimal ∧
        parseF64 text = some (.number negative (ofDecimal decimal.1 decimal.2)) := by
  unfold parseF64
  simp only [hsign]
  split_ifs with hnan hinf
  · exact .inl ⟨parseDecimal_word rfl (by decide) hnan, rfl⟩
  · refine .inl ⟨?_, rfl⟩
    rcases hinf with hinf | hinf
    · exact parseDecimal_word rfl (by decide) hinf
    · exact parseDecimal_word rfl (by decide) hinf
  · cases hdecimal : parseDecimal digits with
    | none => exact .inl ⟨rfl, rfl⟩
    | some decimal => exact .inr ⟨decimal, rfl, rfl⟩

theorem isNumeric_ofText {key : Str} (h : IsPlainKey key) :
    (JsString.ofText key).isNumeric = validateNumericRecordKey key := by
  obtain ⟨htrim, hkey, hradix⟩ := h
  have hvalidate : validateNumericRecordKey key = (parseF64 key).any F64.isFinite := by
    unfold validateNumericRecordKey
    cases parseF64 key <;> rfl
  unfold JsString.isNumeric
  rw [JsString.toText_ofText, hvalidate]
  unfold toNumber
  simp only [htrim, if_neg hkey, hradix]
  rcases hsign : splitSign key with ⟨negative, digits⟩
  rcases parseF64_eq hsign with ⟨hnone, hrust⟩ | ⟨decimal, hdecimal, hrust⟩
  · rw [hrust]
    split_ifs
    · rfl
    · rw [hnone]
      rfl
  · rw [hrust]
    have hword : digits ≠ "Infinity".toList := by
      rintro rfl
      have hnone : parseDecimal "Infinity".toList = none := parseDecimal_head rfl (by decide)
      rw [hnone] at hdecimal
      cases hdecimal
    rw [if_neg hword, hdecimal, Option.any_some]

theorem parseF64_of_sourceNumeral {text : Str} {number : F64}
    (h : sourceNumeral text = some number) : parseF64 text = some number := by
  rcases hsign : splitSign text with ⟨negative, digits⟩
  unfold sourceNumeral at h
  simp only [hsign] at h
  split_ifs at h
  obtain ⟨decimal, hdecimal, rfl⟩ := Option.map_eq_some_iff.mp h
  rcases parseF64_eq hsign with ⟨hnone, -⟩ | ⟨decimal', hdecimal', hrust⟩
  · rw [hnone] at hdecimal
    cases hdecimal
  · obtain rfl := Option.some.inj (hdecimal'.symm.trans hdecimal)
    exact hrust

end RustTS.Contract
