import Mathlib.Tactic.IntervalCases
import RustTS.Contract.Codec

/-! String literals between double quotes, as strict mode JavaScript and TypeScript read them. -/
namespace RustTS.Contract

/-- The UTF-16 code units of a code point. -/
def codeUnits (n : Nat) : JsString :=
  if n < 0x10000 then [n.toUInt16]
  else [(0xD800 + (n - 0x10000) / 0x400).toUInt16, (0xDC00 + (n - 0x10000) % 0x400).toUInt16]

def hexDigit (c : Char) : Option Nat :=
  if '0' ≤ c ∧ c ≤ '9' then some (c.toNat - '0'.toNat)
  else if 'a' ≤ c ∧ c ≤ 'f' then some (c.toNat - 'a'.toNat + 10)
  else if 'A' ≤ c ∧ c ≤ 'F' then some (c.toNat - 'A'.toNat + 10)
  else none

def isHexDigit (c : Char) : Bool := (hexDigit c).isSome

def hexNumber (digits : Str) : Nat :=
  digits.foldl (fun n c => 16 * n + (hexDigit c).getD 0) 0

/-- Reads so many hexadecimal digits as a code unit. -/
def readHex (count : Nat) (text : Str) : Option (JsString × Str) :=
  let digits := text.take count
  if digits.length = count ∧ digits.all isHexDigit then
    some ([(hexNumber digits).toUInt16], text.drop count)
  else none

/-- Reads what follows `\u`. -/
def readUnicode (text : Str) : Option (JsString × Str) :=
  if text.head? = some '\x7b' then
    let digits := text.tail.takeWhile isHexDigit
    let rest := text.tail.dropWhile isHexDigit
    if digits ≠ [] ∧ hexNumber digits ≤ 0x10FFFF ∧ rest.head? = some '\x7d' then
      some (codeUnits (hexNumber digits), rest.tail)
    else none
  else readHex 4 text

def isLineTerminator (c : Char) : Bool :=
  c = '\n' || c = '\r' || c = '\u2028' || c = '\u2029'

/-- What a character stands for after a backslash. -/
def escapedChar (c : Char) : Char :=
  if c = 'b' then '\x08'
  else if c = 'f' then '\x0c'
  else if c = 'n' then '\n'
  else if c = 'r' then '\r'
  else if c = 't' then '\t'
  else if c = 'v' then '\x0b'
  else c

/-- Reads what follows a backslash. Octal escapes are errors in strict mode: a zero is not one
unless a digit follows. -/
def readEscape : Str → Option (JsString × Str)
  | [] => none
  | c :: rest =>
    if c = 'x' then readHex 2 rest
    else if c = 'u' then readUnicode rest
    else if c.isDigit then
      if c = '0' ∧ ¬rest.head?.any Char.isDigit then some ([0], rest) else none
    else if isLineTerminator c then
      some ([], if c = '\r' ∧ rest.head? = some '\n' then rest.tail else rest)
    else some (codeUnits (escapedChar c).toNat, rest)

/-- Reads characters up to the closing quote. The fuel is for as many of them. -/
def readCharacters : Nat → Str → Option (JsString × Str)
  | 0, _ => none
  | _ + 1, [] => none
  | fuel + 1, c :: rest =>
    if c = '"' then some ([], rest)
    else if c = '\n' ∨ c = '\r' then none
    else
      let first := if c = '\\' then readEscape rest else some (codeUnits c.toNat, rest)
      first.bind fun (units, rest) =>
        (readCharacters fuel rest).map fun (string, rest) => (units ++ string, rest)

/-- Reads a literal: the string it denotes and the text after it. -/
def readString : Str → Option (JsString × Str)
  | '"' :: rest => readCharacters (rest.length + 1) rest
  | _ => none

example : readString "\"a\\u\x7b1f600\x7d\\x41\\n\" + b".toList =
    some (.ofText "a😀A\n".toList, " + b".toList) := by decide

theorem hexDigit_digitChar {n : Nat} (h : n < 16) : hexDigit n.digitChar = some n := by
  interval_cases n <;> decide

private theorem hexNumber_append (digits : Str) (c : Char) :
    hexNumber (digits ++ [c]) = 16 * hexNumber digits + (hexDigit c).getD 0 := by
  rw [hexNumber, List.foldl_append]
  rfl

private theorem hexNumber_toDigits (n : Nat) : hexNumber (Nat.toDigits 16 n) = n := by
  induction n using Nat.strong_induction_on with
  | _ n ih =>
    by_cases hn : n < 16
    · rw [Nat.toDigits_of_lt_base hn]
      show 16 * 0 + (hexDigit n.digitChar).getD 0 = n
      rw [hexDigit_digitChar hn, Option.getD_some]
      omega
    · have hmod : n % 16 < 16 := Nat.mod_lt n (by decide)
      rw [Nat.toDigits_of_base_le (by decide) (Nat.le_of_not_lt hn), hexNumber_append,
        ih (n / 16) (by omega), hexDigit_digitChar hmod, Option.getD_some]
      omega

theorem isHexDigit_of_mem {n : Nat} {c : Char} (h : c ∈ Nat.toDigits 16 n) :
    isHexDigit c = true := by
  induction n using Nat.strong_induction_on with
  | _ n ih =>
    by_cases hn : n < 16
    · rw [Nat.toDigits_of_lt_base hn] at h
      obtain rfl := List.mem_singleton.mp h
      rw [isHexDigit, hexDigit_digitChar hn]
      rfl
    · have hmod : n % 16 < 16 := Nat.mod_lt n (by decide)
      rw [Nat.toDigits_of_base_le (by decide) (Nat.le_of_not_lt hn)] at h
      rcases List.mem_append.mp h with h | h
      · exact ih (n / 16) (by omega) h
      · obtain rfl := List.mem_singleton.mp h
        rw [isHexDigit, hexDigit_digitChar hmod]
        rfl

theorem codeUnits_char (c : Char) : codeUnits c.toNat = .ofText [c] := by
  rw [JsString.ofText, List.flatMap_singleton]
  rfl

private theorem head_takeWhile_append {p : Char → Bool} {digits : Str} (h : ∀ c ∈ digits, p c = true)
    {d : Char} (hd : p d = false) (rest : Str) :
    (digits ++ d :: rest).takeWhile p = digits ∧ (digits ++ d :: rest).dropWhile p = d :: rest := by
  have hstop : (d :: rest).takeWhile p = [] ∧ (d :: rest).dropWhile p = d :: rest := by
    simp [hd]
  rw [List.takeWhile_append_of_pos h, List.dropWhile_append_of_pos h, hstop.1, hstop.2,
    List.append_nil]
  exact ⟨rfl, rfl⟩

theorem readUnicode_codePoint (c : Char) (rest : Str) :
    readUnicode ('\x7b' :: (Nat.toDigits 16 c.toNat ++ '\x7d' :: rest)) =
      some (.ofText [c], rest) := by
  have hbound : c.toNat ≤ 0x10FFFF := by
    have hvalid : c.toNat < 0xD800 ∨ 0xDFFF < c.toNat ∧ c.toNat < 0x110000 := c.valid
    omega
  obtain ⟨htake, hdrop⟩ := head_takeWhile_append (p := isHexDigit)
    (fun d hd => isHexDigit_of_mem hd) (d := '\x7d') (by decide) rest
  unfold readUnicode
  rw [List.head?_cons, if_pos rfl, List.tail_cons, htake, hdrop]
  dsimp only
  rw [hexNumber_toDigits, codeUnits_char]
  exact if_pos ⟨Nat.toDigits_ne_nil, hbound, rfl⟩

variable {printable : Char → Bool}

private theorem readCharacters_backslash (fuel : Nat) (text : Str) :
    readCharacters (fuel + 1) ('\\' :: text) = (readEscape text).bind fun (units, rest) =>
      (readCharacters fuel rest).map fun (string, rest) => (units ++ string, rest) := rfl

/-- Reads back one character, unless it is a null before a digit. -/
theorem readCharacters_escapeDebug (fuel : Nat) (c : Char) (rest : Str) :
    readCharacters (fuel + 1) (escapeDebug printable c ++ rest) =
      if c = '\x00' ∧ rest.head?.any Char.isDigit = true then none
      else (readCharacters fuel rest).map fun (string, rest) => (.ofText [c] ++ string, rest) := by
  unfold escapeDebug
  by_cases hnull : c = '\x00'
  · subst hnull
    rw [if_pos rfl]
    show (readEscape ('0' :: rest)).bind _ = _
    have hzero : readEscape ('0' :: rest) =
        if '0' = '0' ∧ ¬rest.head?.any Char.isDigit = true then some ([0], rest) else none := rfl
    rw [hzero]
    by_cases hdigit : rest.head?.any Char.isDigit = true
    · rw [if_neg fun h => h.2 hdigit, if_pos ⟨rfl, hdigit⟩]
      rfl
    · rw [if_pos ⟨rfl, hdigit⟩, if_neg fun h => hdigit h.2]
      rfl
  rw [if_neg hnull, if_neg fun h : c = '\x00' ∧ _ => hnull h.1]
  by_cases htab : c = '\t'
  · subst htab
    rw [if_pos rfl]
    rfl
  rw [if_neg htab]
  by_cases hreturn : c = '\r'
  · subst hreturn
    rw [if_pos rfl]
    rfl
  rw [if_neg hreturn]
  by_cases hnewline : c = '\n'
  · subst hnewline
    rw [if_pos rfl]
    rfl
  rw [if_neg hnewline]
  by_cases hquoted : c = '"' ∨ c = '\\'
  · rw [if_pos hquoted]
    rcases hquoted with rfl | rfl <;> rfl
  rw [if_neg hquoted]
  rw [not_or] at hquoted
  by_cases hprintable : printable c = true
  · rw [if_pos hprintable, List.singleton_append, readCharacters, if_neg hquoted.1,
      if_neg (not_or.mpr ⟨hnewline, hreturn⟩), if_neg hquoted.2, codeUnits_char]
    rfl
  · rw [if_neg hprintable]
    have hescape : readEscape ('u' :: '\x7b' :: (Nat.toDigits 16 c.toNat ++ '\x7d' :: rest)) =
        some (.ofText [c], rest) := readUnicode_codePoint c rest
    have htext : "\\u\x7b".toList ++ Nat.toDigits 16 c.toNat ++ ['\x7d'] ++ rest =
        '\\' :: 'u' :: '\x7b' :: (Nat.toDigits 16 c.toNat ++ '\x7d' :: rest) := by simp
    rw [htext, readCharacters_backslash, hescape]
    rfl

/-- A null that a digit follows. -/
def HasNullBeforeDigit (text : Str) : Prop := ∃ d, d.isDigit = true ∧ ['\x00', d] <:+: text

theorem not_hasNullBeforeDigit_nil : ¬HasNullBeforeDigit [] :=
  fun ⟨_, _, hwithin⟩ => absurd (List.infix_nil.mp hwithin) (List.cons_ne_nil _ _)

theorem hasNullBeforeDigit_cons {c : Char} {text : Str} :
    HasNullBeforeDigit (c :: text) ↔
      (c = '\x00' ∧ text.head?.any Char.isDigit = true) ∨ HasNullBeforeDigit text := by
  simp only [HasNullBeforeDigit, List.infix_cons_iff, List.cons_prefix_cons]
  constructor
  · rintro ⟨d, hd, ⟨rfl, hprefix⟩ | hwithin⟩
    · obtain ⟨rest, rfl⟩ := hprefix
      exact .inl ⟨rfl, hd⟩
    · exact .inr ⟨d, hd, hwithin⟩
  · rintro (⟨rfl, hdigit⟩ | ⟨d, hd, hwithin⟩)
    · cases text with
      | nil => cases hdigit
      | cons d rest => exact ⟨d, hdigit, .inl ⟨rfl, ⟨rest, rfl⟩⟩⟩
    · exact ⟨d, hd, .inr hwithin⟩

theorem not_hasNullBeforeDigit_of_notMem {text : Str} (h : '\x00' ∉ text) :
    ¬HasNullBeforeDigit text :=
  fun ⟨_, _, hwithin⟩ => h (hwithin.subset List.mem_cons_self)

private theorem escapeDebug_digit {c : Char} (hc : c.isDigit = true) (hprintable : printable c = true) :
    escapeDebug printable c = [c] := by
  have hne (d : Char) (hd : d.isDigit = false) : c ≠ d := fun h =>
    Bool.false_ne_true (hd.symm.trans (h ▸ hc))
  unfold escapeDebug
  rw [if_neg (hne _ rfl), if_neg (hne _ rfl), if_neg (hne _ rfl), if_neg (hne _ rfl),
    if_neg (not_or.mpr ⟨hne _ rfl, hne _ rfl⟩), if_pos hprintable]

private theorem escapeDebug_not_digit {c : Char} (hc : c.isDigit = false) (rest : Str) :
    (escapeDebug printable c ++ rest).head?.any Char.isDigit = false := by
  unfold escapeDebug
  repeat' split
  all_goals first | rfl | exact hc

private theorem head_escaped (hdigits : ∀ c, c.isDigit = true → printable c = true) (text rest : Str) :
    (text.flatMap (escapeDebug printable) ++ '"' :: rest).head?.any Char.isDigit =
      text.head?.any Char.isDigit := by
  cases text with
  | nil => rfl
  | cons c text =>
    rw [List.flatMap_cons, List.append_assoc, List.head?_cons]
    cases hc : c.isDigit with
    | true =>
      rw [escapeDebug_digit hc (hdigits c hc)]
      rfl
    | false => exact (escapeDebug_not_digit hc _).trans hc.symm

theorem readCharacters_escaped (hdigits : ∀ c, c.isDigit = true → printable c = true)
    {text : Str} {fuel : Nat} (hfuel : text.length < fuel) (rest : Str) :
    readCharacters fuel (text.flatMap (escapeDebug printable) ++ '"' :: rest) =
        some (.ofText text, rest) ∧ ¬HasNullBeforeDigit text ∨
      readCharacters fuel (text.flatMap (escapeDebug printable) ++ '"' :: rest) = none ∧
        HasNullBeforeDigit text := by
  induction text generalizing fuel with
  | nil =>
    obtain ⟨fuel, rfl⟩ := Nat.exists_eq_succ_of_ne_zero (Nat.ne_of_gt hfuel)
    exact .inl ⟨rfl, not_hasNullBeforeDigit_nil⟩
  | cons c text ih =>
    obtain ⟨fuel, rfl⟩ := Nat.exists_eq_succ_of_ne_zero (Nat.ne_of_gt (Nat.zero_lt_of_lt hfuel))
    rw [List.flatMap_cons, List.append_assoc, readCharacters_escapeDebug, head_escaped hdigits,
      hasNullBeforeDigit_cons]
    by_cases hnull : c = '\x00' ∧ text.head?.any Char.isDigit = true
    · rw [if_pos hnull]
      exact .inr ⟨rfl, .inl hnull⟩
    · rw [if_neg hnull]
      rcases ih (Nat.lt_of_succ_lt_succ hfuel) with ⟨hread, htext⟩ | ⟨hread, htext⟩
      · rw [hread]
        refine .inl ⟨?_, not_or.mpr ⟨hnull, htext⟩⟩
        rw [JsString.ofText_cons c text]
        rfl
      · rw [hread]
        exact .inr ⟨rfl, .inr htext⟩

private theorem length_escaped (text : Str) :
    text.length ≤ (text.flatMap (escapeDebug printable)).length := by
  induction text with
  | nil => exact Nat.le_refl 0
  | cons c text ih =>
    have hpos : 0 < (escapeDebug printable c).length := by
      unfold escapeDebug
      repeat' split
      all_goals exact Nat.succ_pos _
    rw [List.flatMap_cons, List.length_append, List.length_cons]
    omega

theorem readString_debugText (hdigits : ∀ c, c.isDigit = true → printable c = true)
    (text rest : Str) :
    readString (debugText printable text ++ rest) = some (.ofText text, rest) ∧
        ¬HasNullBeforeDigit text ∨
      readString (debugText printable text ++ rest) = none ∧ HasNullBeforeDigit text := by
  have hshape : debugText printable text ++ rest =
      '"' :: (text.flatMap (escapeDebug printable) ++ '"' :: rest) := by simp [debugText]
  have hfuel : text.length <
      (text.flatMap (escapeDebug printable) ++ '"' :: rest).length + 1 := by
    have hlength : text.length ≤ (text.flatMap (escapeDebug printable)).length := length_escaped text
    rw [List.length_append]
    omega
  rw [hshape]
  exact readCharacters_escaped hdigits hfuel rest

/-- The text `Debug` writes for a string denotes it, whatever follows, unless a null in it has a
digit after it. -/
theorem readString_debugText_iff (hdigits : ∀ c, c.isDigit = true → printable c = true)
    (text rest : Str) :
    readString (debugText printable text ++ rest) = some (.ofText text, rest) ↔
      ¬HasNullBeforeDigit text := by
  rcases readString_debugText hdigits text rest with ⟨hread, htext⟩ | ⟨hread, htext⟩
  · exact ⟨fun _ => htext, fun _ => hread⟩
  · rw [hread]
    exact ⟨nofun, fun h => absurd htext h⟩

theorem isSome_readString_debugText (hdigits : ∀ c, c.isDigit = true → printable c = true)
    (text rest : Str) :
    (readString (debugText printable text ++ rest)).isSome = true ↔ ¬HasNullBeforeDigit text := by
  rcases readString_debugText hdigits text rest with ⟨hread, htext⟩ | ⟨hread, htext⟩
  · exact ⟨fun _ => htext, fun _ => by rw [hread]; rfl⟩
  · rw [hread]
    exact ⟨nofun, fun h => absurd htext h⟩

end RustTS.Contract
