import RustTS.Contract.StringLiteral
import RustTS.Lib.DecimalText
import RustTS.Registry.ImportModules
import RustTS.Registry.Sdk

/-! Names as the generated modules, SDK and declarations write them: property keys, and literals in
the references to native functions and events. -/
namespace RustTS.Registry
open RustTS.Contract

variable (printable : Char → Bool)

namespace ImportModules

def propertyName (name : Str) : Str :=
  if isIdentifier name && !isReservedWord name then name else debugText printable name

/-- What `render_binding` writes before and after the name of a binding. -/
def bindingFrame : HostModuleBinding → HostModuleStyle → Str × Str
  | .function _, .globals => ("globalThis.__rustts_native[".toList, "]".toList)
  | .function _, .env => ("__native[".toList, "]".toList)
  | .callback _, .globals => ("handler => globalThis.__rustts_on(".toList, ", handler)".toList)
  | .callback _, .env => ("handler => __on(".toList, ", handler)".toList)

def renderBinding (binding : HostModuleBinding) (style : HostModuleStyle) : Str :=
  let (before, after) := bindingFrame binding style
  before ++ debugText printable binding.contractName ++ after

end ImportModules

namespace Sdk

def reservedWords : List Str :=
  ["break".toList, "case".toList, "catch".toList, "class".toList, "const".toList,
    "continue".toList, "debugger".toList, "default".toList, "delete".toList, "do".toList,
    "else".toList, "export".toList, "extends".toList, "finally".toList, "for".toList,
    "function".toList, "if".toList, "import".toList, "in".toList, "instanceof".toList,
    "new".toList, "return".toList, "super".toList, "switch".toList, "this".toList,
    "throw".toList, "try".toList, "typeof".toList, "var".toList, "void".toList, "while".toList,
    "with".toList, "yield".toList]

def propertyName (name : Str) : Str :=
  if isIdentifierName name && name ∉ reservedWords then name else debugText printable name

end Sdk

def renderStringLiteral (value : Str) : Str := debugText printable value

/-- A property key in a type: bare when it is an identifier name. -/
def renderPropertyKey (name : Str) : Str :=
  if isIdentifierName name then name else renderStringLiteral printable name

def isIdentifierPart (c : Char) : Bool := c = '_' || c = '$' || c.isAlphanum

/-- Reads a property key that is a literal or an ASCII identifier name. -/
def readPropertyKey (text : Str) : Option (JsString × Str) :=
  if text.head? = some '"' then readString text
  else
    let name := text.takeWhile isIdentifierPart
    if isIdentifierName name then some (.ofText name, text.dropWhile isIdentifierPart) else none

/-- The name between the two parts of a reference. -/
def readReference (before after text : Str) : Option JsString :=
  if before <+: text then
    match readString (text.drop before.length) with
    | some (name, rest) => if rest = after then some name else none
    | none => none
  else none

theorem isIdentifierPart_of_mem {name : Str} (h : isIdentifierName name = true) {c : Char}
    (hc : c ∈ name) : isIdentifierPart c = true := by
  cases name with
  | nil => cases hc
  | cons first rest =>
    simp only [isIdentifierName, Bool.and_eq_true] at h
    rcases List.mem_cons.mp hc with rfl | hc
    · have hfirst := h.1
      simp only [Bool.or_eq_true] at hfirst
      simp only [isIdentifierPart, Char.isAlphanum, Bool.or_eq_true]
      tauto
    · exact List.all_eq_true.mp h.2 c hc

private theorem head_isIdentifierName {name : Str} (h : isIdentifierName name = true) (rest : Str) :
    (name ++ rest).head? ≠ some '"' := by
  intro hquote
  cases name with
  | nil => cases h
  | cons first tail =>
    have hpart := isIdentifierPart_of_mem h (List.mem_cons_self ..)
    rw [Option.some.inj hquote] at hpart
    exact absurd hpart (by decide)

theorem not_hasNullBeforeDigit_of_isIdentifierName {name : Str} (h : isIdentifierName name = true) :
    ¬HasNullBeforeDigit name := by
  refine not_hasNullBeforeDigit_of_notMem fun hmem => ?_
  have hpart := isIdentifierPart_of_mem h hmem
  exact absurd hpart (by decide)

theorem readPropertyKey_bare {name rest : Str} (h : isIdentifierName name = true)
    (hrest : rest.head?.any isIdentifierPart = false) :
    readPropertyKey (name ++ rest) = some (.ofText name, rest) := by
  have hname (c : Char) (hc : c ∈ name) := isIdentifierPart_of_mem h hc
  have hstop : rest.takeWhile isIdentifierPart = [] ∧ rest.dropWhile isIdentifierPart = rest := by
    cases rest with
    | nil => exact ⟨rfl, rfl⟩
    | cons c rest =>
      have hc : isIdentifierPart c = false := hrest
      simp [hc]
  unfold readPropertyKey
  rw [if_neg (head_isIdentifierName h rest), List.takeWhile_append_of_pos hname,
    List.dropWhile_append_of_pos hname, hstop.1, hstop.2, List.append_nil]
  exact if_pos h

variable {printable}

theorem readPropertyKey_quoted (name rest : Str) :
    readPropertyKey (debugText printable name ++ rest) =
      readString (debugText printable name ++ rest) :=
  if_pos rfl

/-- A key that is bare only where the name is an identifier is read back unless a null in the name
has a digit after it. -/
theorem readPropertyKey_iff (hdigits : ∀ c, c.isDigit = true → printable c = true)
    {name rest : Str} {bare : Prop} [Decidable bare] (hbare : bare → isIdentifierName name = true)
    (hrest : rest.head?.any isIdentifierPart = false) :
    readPropertyKey ((if bare then name else debugText printable name) ++ rest) =
      some (.ofText name, rest) ↔ ¬HasNullBeforeDigit name := by
  by_cases h : bare
  · rw [if_pos h, readPropertyKey_bare (hbare h) hrest]
    exact ⟨fun _ => not_hasNullBeforeDigit_of_isIdentifierName (hbare h), fun _ => rfl⟩
  · rw [if_neg h, readPropertyKey_quoted]
    exact readString_debugText_iff hdigits name rest

theorem isSome_readPropertyKey (hdigits : ∀ c, c.isDigit = true → printable c = true)
    {name rest : Str} {bare : Prop} [Decidable bare] (hbare : bare → isIdentifierName name = true)
    (hrest : rest.head?.any isIdentifierPart = false) :
    (readPropertyKey ((if bare then name else debugText printable name) ++ rest)).isSome = true ↔
      ¬HasNullBeforeDigit name := by
  by_cases h : bare
  · rw [if_pos h, readPropertyKey_bare (hbare h) hrest]
    exact ⟨fun _ => not_hasNullBeforeDigit_of_isIdentifierName (hbare h), fun _ => rfl⟩
  · rw [if_neg h, readPropertyKey_quoted]
    exact isSome_readString_debugText hdigits name rest

theorem readReference_append (before after name : Str) :
    readReference before after (before ++ debugText printable name ++ after) =
      match readString (debugText printable name ++ after) with
      | some (string, rest) => if rest = after then some string else none
      | none => none := by
  have hdrop : (before ++ (debugText printable name ++ after)).drop before.length =
      debugText printable name ++ after := List.drop_left
  rw [List.append_assoc, readReference, if_pos (List.prefix_append _ _), hdrop]

private theorem readReference_iff (hdigits : ∀ c, c.isDigit = true → printable c = true)
    (before after name : Str) :
    readReference before after (before ++ debugText printable name ++ after) =
      some (.ofText name) ↔ ¬HasNullBeforeDigit name := by
  rw [readReference_append]
  rcases readString_debugText hdigits name after with ⟨hread, hname⟩ | ⟨hread, hname⟩
  · rw [hread]
    exact iff_of_true (if_pos rfl) hname
  · rw [hread]
    exact iff_of_false nofun (not_not_intro hname)

theorem isSome_readReference (hdigits : ∀ c, c.isDigit = true → printable c = true)
    (before after name : Str) :
    (readReference before after (before ++ debugText printable name ++ after)).isSome = true ↔
      ¬HasNullBeforeDigit name := by
  rw [readReference_append]
  rcases readString_debugText hdigits name after with ⟨hread, hname⟩ | ⟨hread, hname⟩
  · rw [hread]
    refine iff_of_true ?_ hname
    show (if after = after then some (JsString.ofText name) else none).isSome = true
    rw [if_pos rfl]
    rfl
  · rw [hread]
    exact iff_of_false nofun (not_not_intro hname)

/-- What the generators write for a name denotes that name exactly where no null in it has a digit
after it: as a literal whatever follows, as a key of the host modules, the SDK and the declarations,
and in the references of the host modules. -/
theorem quoted_names_denote (printable : Char → Bool)
    (hdigits : ∀ c, c.isDigit = true → printable c = true) (name : Str) :
    (∀ rest, readString (renderStringLiteral printable name ++ rest) = some (.ofText name, rest) ↔
      ¬HasNullBeforeDigit name) ∧
    (∀ rest, rest.head?.any isIdentifierPart = false →
      (readPropertyKey (ImportModules.propertyName printable name ++ rest) =
        some (.ofText name, rest) ↔ ¬HasNullBeforeDigit name) ∧
      (readPropertyKey (Sdk.propertyName printable name ++ rest) =
        some (.ofText name, rest) ↔ ¬HasNullBeforeDigit name) ∧
      (readPropertyKey (renderPropertyKey printable name ++ rest) =
        some (.ofText name, rest) ↔ ¬HasNullBeforeDigit name)) ∧
    (∀ binding : HostModuleBinding, binding.contractName = name → ∀ style,
      let frame := ImportModules.bindingFrame binding style
      readReference frame.1 frame.2 (ImportModules.renderBinding printable binding style) =
        some (.ofText name) ↔ ¬HasNullBeforeDigit name) := by
  refine ⟨readString_debugText_iff hdigits name, fun rest hrest => ⟨?_, ?_, ?_⟩, ?_⟩
  · refine readPropertyKey_iff hdigits (fun h => ?_) hrest
    simp only [ImportModules.isIdentifier, Bool.and_eq_true] at h
    exact h.1.1
  · refine readPropertyKey_iff hdigits (fun h => ?_) hrest
    rw [Bool.and_eq_true] at h
    exact h.1
  · exact readPropertyKey_iff hdigits id hrest
  · rintro binding rfl style
    exact readReference_iff hdigits _ _ _

/-- Printable ASCII. -/
def isPrintableAscii (c : Char) : Bool := 0x20 ≤ c.toNat ∧ c.toNat ≤ 0x7e

theorem isPrintableAscii_digit {c : Char} (h : c.isDigit = true) : isPrintableAscii c = true := by
  have hbounds := DecimalText.digit_bounds h
  simp only [isPrintableAscii, Bool.decide_and, Bool.and_eq_true, decide_eq_true_eq]
  omega

theorem quoted_names_denote_ascii :
    readString (renderStringLiteral isPrintableAscii "a\x00b".toList ++ ";".toList) =
      some (.ofText "a\x00b".toList, ";".toList) := by
  have hname : ¬HasNullBeforeDigit "a\x00b".toList := by
    show ¬HasNullBeforeDigit ['a', '\x00', 'b']
    simp [hasNullBeforeDigit_cons, not_hasNullBeforeDigit_nil]
  exact ((quoted_names_denote isPrintableAscii (fun _ => isPrintableAscii_digit) _).1 _).mpr hname

/-- A null and a digit after it are written as an octal escape. -/
theorem quoted_names_not_denote :
    readString (renderStringLiteral isPrintableAscii "\x001".toList) = none := by
  decide

end RustTS.Registry
