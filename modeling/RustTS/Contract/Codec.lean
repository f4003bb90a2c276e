import RustTS.Contract.Number

/-! What QuickJS values show of themselves, and the errors of their conversion to and from
Rust. -/
namespace RustTS.Contract

/-- A JavaScript string: UTF-16 code units. -/
abbrev JsString := List UInt16

/-- The text of a string, unless it has lone surrogates. -/
def JsString.toText : JsString → Option Str
  | [] => some []
  | [u] => if 0xD800 ≤ u ∧ u ≤ 0xDFFF then none else some [Char.ofNat u.toNat]
  | u :: v :: rest =>
    if 0xD800 ≤ u ∧ u ≤ 0xDBFF then
      if 0xDC00 ≤ v ∧ v ≤ 0xDFFF then
        let high := (u.toNat - 0xD800) * 0x400
        (toText rest).map (Char.ofNat (0x10000 + high + (v.toNat - 0xDC00)) :: ·)
      else none
    else if 0xDC00 ≤ u ∧ u ≤ 0xDFFF then none
    else (toText (v :: rest)).map (Char.ofNat u.toNat :: ·)

/-- The UTF-16 code units of a text. -/
def JsString.ofText (text : Str) : JsString :=
  text.flatMap fun c =>
    if c.toNat < 0x10000 then [c.toNat.toUInt16]
    else
      let n := c.toNat - 0x10000
      [(0xD800 + n / 0x400).toUInt16, (0xDC00 + n % 0x400).toUInt16]

theorem JsString.toText_cons {u : UInt16} (h : u.toNat < 0xD800 ∨ 0xDFFF < u.toNat)
    (rest : JsString) :
    JsString.toText (u :: rest) = rest.toText.map (Char.ofNat u.toNat :: ·) := by
  have hhigh : ¬(0xD800 ≤ u ∧ u ≤ 0xDBFF) := by
    simp only [UInt16.le_iff_toNat_le, UInt16.reduceToNat]
    omega
  have hlow : ¬(0xDC00 ≤ u ∧ u ≤ 0xDFFF) := by
    simp only [UInt16.le_iff_toNat_le, UInt16.reduceToNat]
    omega
  have hboth : ¬(0xD800 ≤ u ∧ u ≤ 0xDFFF) := by
    simp only [UInt16.le_iff_toNat_le, UInt16.reduceToNat]
    omega
  cases rest with
  | nil => simp [JsString.toText, if_neg hboth]
  | cons v rest => rw [JsString.toText, if_neg hhigh, if_neg hlow]

private theorem JsString.toText_pair {u v : UInt16} (hu : 0xD800 ≤ u.toNat ∧ u.toNat ≤ 0xDBFF)
    (hv : 0xDC00 ≤ v.toNat ∧ v.toNat ≤ 0xDFFF) (rest : JsString) :
    JsString.toText (u :: v :: rest) = rest.toText.map
      (Char.ofNat (0x10000 + (u.toNat - 0xD800) * 0x400 + (v.toNat - 0xDC00)) :: ·) := by
  have hhigh : 0xD800 ≤ u ∧ u ≤ 0xDBFF := by
    simpa only [UInt16.le_iff_toNat_le, UInt16.reduceToNat] using hu
  have hlow : 0xDC00 ≤ v ∧ v ≤ 0xDFFF := by
    simpa only [UInt16.le_iff_toNat_le, UInt16.reduceToNat] using hv
  rw [JsString.toText, if_pos hhigh, if_pos hlow]

theorem JsString.ofText_cons (c : Char) (text : Str) :
    JsString.ofText (c :: text) = JsString.ofText [c] ++ JsString.ofText text := by
  rw [JsString.ofText, JsString.ofText, JsString.ofText, ← List.flatMap_append]
  rfl

/-- Str survives the way to UTF-16 and back. -/
theorem JsString.toText_ofText (text : Str) : (JsString.ofText text).toText = some text := by
  induction text with
  | nil => rfl
  | cons c text ih =>
    have hvalid : c.toNat < 0xD800 ∨ 0xDFFF < c.toNat ∧ c.toNat < 0x110000 := c.valid
    rw [ofText_cons]
    by_cases hsmall : c.toNat < 0x10000
    · have hunit : JsString.ofText [c] = [c.toNat.toUInt16] := by simp [JsString.ofText, hsmall]
      have hnat : c.toNat.toUInt16.toNat = c.toNat := UInt16.toNat_ofNat_of_lt hsmall
      rw [hunit, List.singleton_append, JsString.toText_cons (by omega), hnat, ih,
        Char.ofNat_toNat]
      rfl
    · have hunits : JsString.ofText [c] = [(0xD800 + (c.toNat - 0x10000) / 0x400).toUInt16,
          (0xDC00 + (c.toNat - 0x10000) % 0x400).toUInt16] := by
        simp [JsString.ofText, hsmall]
      have hhigh : (0xD800 + (c.toNat - 0x10000) / 0x400).toUInt16.toNat =
          0xD800 + (c.toNat - 0x10000) / 0x400 := UInt16.toNat_ofNat_of_lt (by
        show _ < 65536
        omega)
      have hlow : (0xDC00 + (c.toNat - 0x10000) % 0x400).toUInt16.toNat =
          0xDC00 + (c.toNat - 0x10000) % 0x400 := UInt16.toNat_ofNat_of_lt (by
        show _ < 65536
        omega)
      rw [hunits]
      show JsString.toText (_ :: _ :: JsString.ofText text) = _
      rw [JsString.toText_pair (by omega) (by omega), hhigh, hlow, ih,
        show 0x10000 + (0xD800 + (c.toNat - 0x10000) / 0x400 - 0xD800) * 0x400 +
          (0xDC00 + (c.toNat - 0x10000) % 0x400 - 0xDC00) = c.toNat by omega, Char.ofNat_toNat]
      rfl

theorem JsString.ofText_injective {a b : Str} (h : JsString.ofText a = JsString.ofText b) :
    a = b := by
  have htext := congrArg JsString.toText h
  rw [JsString.toText_ofText, JsString.toText_ofText] at htext
  exact Option.some.inj htext

theorem JsString.ofText_unit {u : UInt16} (h : u.toNat < 0xD800 ∨ 0xDFFF < u.toNat) :
    JsString.ofText [Char.ofNat u.toNat] = [u] := by
  have hlt : u.toNat < 0x10000 := u.toNat_lt
  have hvalid : u.toNat.isValidChar := h.imp id fun h => ⟨h, by omega⟩
  have hnat : (Char.ofNat u.toNat).toNat = u.toNat := by
    rw [Char.ofNat, dif_pos hvalid]
    rfl
  simp [JsString.ofText, hnat, hlt]

theorem JsString.ofText_pair {u v : UInt16} (hu : 0xD800 ≤ u.toNat ∧ u.toNat ≤ 0xDBFF)
    (hv : 0xDC00 ≤ v.toNat ∧ v.toNat ≤ 0xDFFF) :
    JsString.ofText [Char.ofNat (0x10000 + (u.toNat - 0xD800) * 0x400 + (v.toNat - 0xDC00))] =
      [u, v] := by
  generalize hn : 0x10000 + (u.toNat - 0xD800) * 0x400 + (v.toNat - 0xDC00) = n
  have hvalid : n.isValidChar := .inr ⟨by omega, by omega⟩
  have hnat : (Char.ofNat n).toNat = n := by
    rw [Char.ofNat, dif_pos hvalid]
    rfl
  have hhigh : 0xD800 + (n - 0x10000) / 0x400 = u.toNat := by omega
  have hlow : 0xDC00 + (n - 0x10000) % 0x400 = v.toNat := by omega
  have hlarge : ¬n < 0x10000 := by omega
  rw [JsString.ofText, List.flatMap_singleton, hnat, if_neg hlarge]
  show [(0xD800 + (n - 0x10000) / 0x400).toUInt16, (0xDC00 + (n - 0x10000) % 0x400).toUInt16] = _
  rw [hhigh, hlow]
  exact congrArg₂ (fun a b => [a, b]) UInt16.ofNat_toNat UInt16.ofNat_toNat

/-- A string that has a text is that text in UTF-16. -/
theorem JsString.ofText_of_toText {string : JsString} {text : Str} (h : string.toText = some text) :
    JsString.ofText text = string := by
  fun_induction JsString.toText string generalizing text with
  | case1 =>
    obtain rfl := Option.some.inj h
    rfl
  | case2 => cases h
  | case3 u hu =>
    obtain rfl := Option.some.inj h
    simp only [UInt16.le_iff_toNat_le, UInt16.reduceToNat] at hu
    exact ofText_unit (by omega)
  | case4 u v rest hu hv high =>
    rename_i ih
    simp only [UInt16.le_iff_toNat_le, UInt16.reduceToNat] at hu hv
    obtain ⟨tail, htail, rfl⟩ := Option.map_eq_some_iff.mp h
    rw [ofText_cons]
    exact congrArg₂ (· ++ ·) (ofText_pair hu hv) (ih htail)
  | case5 => cases h
  | case6 => cases h
  | case7 u v rest hu hv ih =>
    simp only [UInt16.le_iff_toNat_le, UInt16.reduceToNat] at hu hv
    obtain ⟨tail, htail, rfl⟩ := Option.map_eq_some_iff.mp h
    rw [ofText_cons]
    exact congrArg₂ (· ++ ·) (ofText_unit (by omega)) (ih htail)

/-- A value that is not an object. Symbols, big integers and the engine's own kinds are their
type names. -/
inductive Primitive
  | undefined
  | null
  | bool (value : Bool)
  | int (value : Int32)
  | float (value : JsFloat)
  | string (value : JsString)
  | other (typeName : Str)
  deriving DecidableEq, Repr

/-- The kinds of objects that are not arrays. -/
inductive ObjectKind
  | object
  | function
  | constructor
  | promise
  | exception
  | proxy
  deriving DecidableEq, Repr

/-- What a value shows without any of its properties being read. -/
inductive JsShape
  | primitive (value : Primitive)
  | array
  | object (kind : ObjectKind)
  deriving DecidableEq, Repr

def Primitive.typeName : Primitive → Str
  | .undefined => "undefined".toList
  | .null => "null".toList
  | .bool _ => "bool".toList
  | .int _ => "int".toList
  | .float _ => "float".toList
  | .string _ => "string".toList
  | .other name => name

def ObjectKind.typeName : ObjectKind → Str
  | .object => "object".toList
  | .function => "function".toList
  | .constructor => "constructor".toList
  | .promise => "promise".toList
  | .exception => "exception".toList
  | .proxy => "proxy".toList

namespace JsShape

def typeName : JsShape → Str
  | .primitive p => p.typeName
  | .array => "array".toList
  | .object kind => kind.typeName

/-- `Got`: numbers show their value, anything else its type. -/
def got : JsShape → Str
  | .primitive (.int value) => intText value.toInt
  | .primitive (.float value) => value.toText
  | shape => shape.typeName

end JsShape

/-- `rquickjs::Error`: the conversion errors, a pending exception, and the others. -/
inductive JsError
  | fromJs (source target : Str) (message : Option Str)
  | intoJs (source target : Str) (message : Option Str)
  | exception
  | other (details : Str)
  deriving DecidableEq, Repr

/-- A conversion error. `expected` names the Rust-side shape. -/
def codecError (source expected message : Str) : JsError := .fromJs source expected (some message)

/-- The error of a value that does not have the shape `rust` needs. -/
def mismatch (value : JsShape) (rust expected : Str) : JsError :=
  codecError value.typeName rust ("expected ".toList ++ expected ++ ", got ".toList ++ value.got)

/-- `char::is_whitespace`. -/
def isWhitespace (c : Char) : Bool :=
  let n := c.toNat
  (9 ≤ n && n ≤ 13) || n == 0x20 || n == 0x85 || n == 0xA0 || n == 0x1680 ||
    (0x2000 ≤ n && n ≤ 0x200A) || n == 0x2028 || n == 0x2029 || n == 0x202F || n == 0x205F ||
    n == 0x3000

/-- The loop of `has_path` from a character on: whether it is the first one, and how many
brackets are open. -/
def hasPathFrom : (first : Bool) → (depth : Nat) → Str → Bool
  | _, _, [] => false
  | first, depth, c :: rest =>
    if c = '[' then hasPathFrom false (depth + 1) rest
    else if c = ']' then hasPathFrom false (depth - 1) rest
    else if c = ':' ∧ depth = 0 then !first && rest.head? == some ' '
    else if depth = 0 ∧ isWhitespace c then false
    else hasPathFrom false depth rest

/-- Whether a message already starts with a `path: ` written by `atPath`. -/
def hasPath (message : Str) : Bool := hasPathFrom true 0 message

def prefixPath (segment : Str) (message : Option Str) (source target : Str) : Str :=
  let message := message.getD ("expected ".toList ++ target ++ ", got ".toList ++ source)
  if !hasPath message then segment ++ ": ".toList ++ message
  else if message.head? = some '[' then segment ++ message
  else segment ++ '.' :: message

/-- Prefixes a conversion error with the field, index or key where it happened. -/
def atPath (error : JsError) (segment : Str) : JsError :=
  match error with
  | .fromJs source target message =>
    .fromJs source target (some (prefixPath segment message source target))
  | .intoJs source target message =>
    .intoJs source target (some (prefixPath segment message source target))
  | other => other

/-- The segment of an index or a key. -/
def bracketed (text : Str) : Str := '[' :: text ++ [']']

def atIndex (error : JsError) (index : Nat) : JsError :=
  atPath error (bracketed (Nat.toDigits 10 index))

/-- The length in what `length` reads as. -/
def arrayLength (length : JsShape) (rust : Str) : Except JsError Nat :=
  let valid := match length with
    | .primitive (.int int) => if 0 ≤ int.toInt then some int.toInt.toNat else none
    | .primitive (.float float) =>
      (exactInteger float).bind fun wide => if 0 ≤ wide then some wide.toNat else none
    | _ => none
  match valid with
  | some length => .ok length
  | none => .error (mismatch length rust "array length".toList)

example : atPath (atIndex (atPath (codecError "int".toList "u8".toList "got 300".toList)
    "name".toList) 2) "items".toList =
      codecError "int".toList "u8".toList "items[2].name: got 300".toList := by
  decide

section
-- The characters that `Debug` writes as they are: printable, and not combining with others.
variable (printable : Char → Bool)

def escapeDebug (c : Char) : Str :=
  if c = '\x00' then "\\0".toList
  else if c = '\t' then "\\t".toList
  else if c = '\r' then "\\r".toList
  else if c = '\n' then "\\n".toList
  else if c = '"' ∨ c = '\\' then ['\\', c]
  else if printable c then [c]
  else "\\u\x7b".toList ++ Nat.toDigits 16 c.toNat ++ ['\x7d']

/-- `Debug` of a string. -/
def debugText (text : Str) : Str := '"' :: text.flatMap (escapeDebug printable) ++ ['"']

end

example : debugText (fun _ => true) "a\"b\n".toList = "\"a\\\"b\\n\"".toList := by decide

end RustTS.Contract
