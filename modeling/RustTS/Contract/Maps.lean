import RustTS.Lib.DecimalText
import RustTS.Lib.IndexMap
import RustTS.Contract.Codec
import RustTS.Contract.Float64
import RustTS.Contract.JsValue

/-! Integer-keyed maps, which cross as plain objects with the decimal texts of their keys. -/
namespace RustTS.Contract

/-- The primitive integers, of a target whose pointers have 64 bits. -/
inductive IntegerType
  | i8 | i16 | i32 | i64 | i128 | isize
  | u8 | u16 | u32 | u64 | u128 | usize
  deriving DecidableEq, Repr

namespace IntegerType

def name : IntegerType → Str
  | i8 => "i8".toList
  | i16 => "i16".toList
  | i32 => "i32".toList
  | i64 => "i64".toList
  | i128 => "i128".toList
  | isize => "isize".toList
  | u8 => "u8".toList
  | u16 => "u16".toList
  | u32 => "u32".toList
  | u64 => "u64".toList
  | u128 => "u128".toList
  | usize => "usize".toList

def signed : IntegerType → Bool
  | i8 | i16 | i32 | i64 | i128 | isize => true
  | _ => false

def bits : IntegerType → Nat
  | i8 | u8 => 8
  | i16 | u16 => 16
  | i32 | u32 => 32
  | i64 | u64 | isize | usize => 64
  | i128 | u128 => 128

def min (K : IntegerType) : Int := if K.signed then -2 ^ (K.bits - 1) else 0

def max (K : IntegerType) : Int := if K.signed then 2 ^ (K.bits - 1) - 1 else 2 ^ K.bits - 1

/-- The integers of a type. -/
abbrev Value (K : IntegerType) := {k : Int // K.min ≤ k ∧ k ≤ K.max}

def ofInt (K : IntegerType) (k : Int) : Option K.Value :=
  if h : K.min ≤ k ∧ k ≤ K.max then some ⟨k, h⟩ else none

/-- `str::parse`. -/
def parse (K : IntegerType) (text : Str) : Option K.Value :=
  let (negative, digits) := splitSign text
  if negative ∧ ¬K.signed then none
  else if digits ≠ [] ∧ digits.all Char.isDigit then
    let value := Nat.ofDigitChars 10 digits 0
    K.ofInt (if negative then -(value : Int) else value)
  else none

end IntegerType

/-- Room for the decimal text of any integer key. -/
def integerKeyCapacity : Nat := 40

/-- `StackText::format`, of a text of ASCII characters. -/
def stackText (capacity : Nat) (text : Str) : Option Str :=
  if text.length ≤ capacity then some text else none

/-- An integer as JSON writes it: optional `-`, no `+`, no leading zeros. -/
def isCanonicalInteger (text : Str) : Bool :=
  let digits := match text with
    | '-' :: digits => digits
    | digits => digits
  let leadingZero := digits.length > 1 && digits.head? == some '0'
  !digits.isEmpty && !leadingZero && digits.all Char.isDigit

namespace IntegerType

variable (K : IntegerType)

/-- `MapKey::with_text`: the text it calls `write` with; it panics where that does not fit. -/
def withText (k : K.Value) : Option Str := stackText integerKeyCapacity (intText k.1)

/-- `MapKey::from_text`. -/
def fromText (text : Str) : Except Str K.Value :=
  match if isCanonicalInteger text then K.parse text else none with
  | some key => .ok key
  | none => .error text

/-- `MapKey::expected`. -/
def expectedKey : Str := "decimal ".toList ++ K.name ++ " key".toList

def decodeKey (printable : Char → Bool) (text rust : Str) : Except JsError K.Value :=
  (K.fromText text).mapError fun text =>
    atPath (codecError "string".toList rust
      ("expected ".toList ++ K.expectedKey ++ ", got ".toList ++ debugText printable text))
      (bracketed text)

variable {V : Type}

/-- `decode_entries` of the properties it reads, each under its name, with the exception of those
whose value cannot be read. -/
def decodeEntries (printable : Char → Bool) (rust : Str) (decode : JsValue → Except JsError V) :
    List (JsString × Except JsError JsValue) → IndexMap K.Value V →
      Except JsError (IndexMap K.Value V)
  | [], map => .ok map
  | (name, read) :: properties, map => do
    let value ← read
    if value.isAbsent then decodeEntries printable rust decode properties map
    else
      let text ← stringText name
      let decoded ← (decode value).mapError fun error => atPath error (bracketed text)
      let key ← K.decodeKey printable text rust
      decodeEntries printable rust decode properties (map.insert key decoded)

end IntegerType

/-- Digits as JSON writes a number that is not negative. -/
def IsCanonicalNat (digits : Str) : Prop :=
  digits ≠ [] ∧ ¬(1 < digits.length ∧ digits.head? = some '0') ∧ digits.all Char.isDigit = true

theorem isCanonicalNat_iff {digits : Str} :
    IsCanonicalNat digits ↔ digits ≠ [] ∧ (digits.length ≤ 1 ∨ ¬digits.head? = some '0') ∧
      digits.all Char.isDigit = true := by
  rw [IsCanonicalNat, not_and_or, Nat.not_lt]

theorem isCanonicalInteger_minus (digits : Str) :
    isCanonicalInteger ('-' :: digits) = true ↔ IsCanonicalNat digits := by
  simp [isCanonicalInteger, isCanonicalNat_iff, and_assoc]

theorem isCanonicalInteger_plain {digits : Str} (h : digits.head? ≠ some '-') :
    isCanonicalInteger digits = true ↔ IsCanonicalNat digits := by
  unfold isCanonicalInteger
  split
  · exact absurd rfl h
  · simp [isCanonicalNat_iff, and_assoc]

theorem IsCanonicalNat.toDigits {digits : Str} (h : IsCanonicalNat digits) :
    Nat.toDigits 10 (Nat.ofDigitChars 10 digits 0) = digits := by
  obtain ⟨hne, hzero, hdigits⟩ := h
  by_cases hhead : digits.head? = some '0'
  · obtain ⟨rest, rfl⟩ := List.head?_eq_some_iff.mp hhead
    have hrest : rest = [] := by
      cases rest with
      | nil => rfl
      | cons c rest => exact absurd ⟨Nat.succ_lt_succ (Nat.succ_pos _), rfl⟩ hzero
    subst hrest
    rfl
  · exact DecimalText.toDigits_ofDigitChars hdigits hne hhead

theorem isCanonicalNat_toDigits (n : Nat) : IsCanonicalNat (Nat.toDigits 10 n) := by
  refine ⟨Nat.toDigits_ne_nil, ?_, List.all_eq_true.mpr fun c hc => DecimalText.isDigit_of_mem hc⟩
  rintro ⟨hlength, hhead⟩
  rcases Nat.eq_zero_or_pos n with rfl | hpos
  · exact absurd hlength (by decide)
  · exact DecimalText.head_toDigits hpos hhead

theorem head_of_digits {digits : Str} (h : digits.all Char.isDigit = true) {c : Char}
    (hc : c.isDigit = false) : digits.head? ≠ some c := by
  intro hhead
  have hmem := List.mem_of_mem_head? hhead
  exact Bool.false_ne_true (hc.symm.trans (List.all_eq_true.mp h c hmem))

private theorem splitSign_digits {digits : Str} (h : digits.all Char.isDigit = true) :
    splitSign digits = (false, digits) := by
  unfold splitSign
  split
  · exact absurd rfl (head_of_digits h (c := '-') rfl)
  · exact absurd rfl (head_of_digits h (c := '+') rfl)
  · rfl

namespace IntegerType

variable {K : IntegerType}

theorem ofInt_eq_some {i : Int} {k : K.Value} : K.ofInt i = some k ↔ i = k.1 := by
  unfold ofInt
  constructor
  · intro h
    split_ifs at h
    exact congrArg Subtype.val (Option.some.inj h)
  · rintro rfl
    rw [dif_pos k.2]

theorem parse_digits {digits : Str} (h : IsCanonicalNat digits) :
    K.parse digits = K.ofInt (Nat.ofDigitChars 10 digits 0) := by
  unfold parse
  rw [splitSign_digits h.2.2]
  simp only [Bool.false_eq_true, false_and, if_false, if_pos (And.intro h.1 h.2.2)]

theorem parse_minus {digits : Str} (h : IsCanonicalNat digits) :
    K.parse ('-' :: digits) =
      if K.signed then K.ofInt (-(Nat.ofDigitChars 10 digits 0 : Int)) else none := by
  unfold parse
  show (if true = true ∧ ¬K.signed = true then none else _) = _
  cases K.signed with
  | false => rfl
  | true => simp only [not_true_eq_false, and_false, if_false, if_pos (And.intro h.1 h.2.2), if_true]

theorem fromText_eq_ok {text : Str} {k : K.Value} :
    K.fromText text = .ok k ↔ isCanonicalInteger text = true ∧ K.parse text = some k := by
  unfold fromText
  by_cases hcanonical : isCanonicalInteger text = true
  · rw [if_pos hcanonical]
    cases K.parse text with
    | none => simp
    | some key => simp [hcanonical]
  · rw [if_neg hcanonical]
    simp [hcanonical]

private theorem signed_of_neg {k : K.Value} (h : k.1 < 0) : K.signed = true := by
  by_contra hsigned
  have hmin : K.min ≤ k.1 := k.2.1
  have hzero : K.min = 0 := if_neg hsigned
  omega

theorem intText_of_nonneg {i : Int} (h : 0 ≤ i) : intText i = Nat.toDigits 10 i.toNat := by
  have hnat : i.natAbs = i.toNat := by omega
  rw [intText, if_neg (by omega), List.nil_append, hnat]

theorem intText_of_neg {i : Int} (h : i < 0) : intText i = '-' :: Nat.toDigits 10 i.natAbs := by
  rw [intText, if_pos h]
  rfl

theorem fromText_intText (k : K.Value) : K.fromText (intText k.1) = .ok k := by
  rw [fromText_eq_ok]
  rcases lt_or_ge k.1 0 with hneg | hnonneg
  · have hdigits := isCanonicalNat_toDigits k.1.natAbs
    rw [intText_of_neg hneg, isCanonicalInteger_minus, parse_minus hdigits,
      if_pos (signed_of_neg hneg), ofInt_eq_some, Nat.ofDigitChars_toDigits (by decide) (by decide)]
    exact ⟨hdigits, by omega⟩
  · have hdigits := isCanonicalNat_toDigits k.1.toNat
    rw [intText_of_nonneg hnonneg, parse_digits hdigits, ofInt_eq_some,
      isCanonicalInteger_plain (head_of_digits hdigits.2.2 rfl),
      Nat.ofDigitChars_toDigits (by decide) (by decide)]
    exact ⟨hdigits, by omega⟩

theorem fromText_minusZero {k : K.Value} :
    K.fromText "-0".toList = .ok k ↔ K.signed = true ∧ k.1 = 0 := by
  have hzero : IsCanonicalNat ['0'] := isCanonicalNat_toDigits 0
  have hcanonical : isCanonicalInteger "-0".toList = true := (isCanonicalInteger_minus _).mpr hzero
  have hparse : K.parse "-0".toList = if K.signed then K.ofInt (-(0 : Nat)) else none :=
    parse_minus hzero
  rw [fromText_eq_ok, hparse]
  by_cases hsigned : K.signed = true
  · rw [if_pos hsigned, ofInt_eq_some, Nat.cast_zero, neg_zero]
    exact ⟨fun h => ⟨hsigned, h.2.symm⟩, fun h => ⟨hcanonical, h.2.symm⟩⟩
  · rw [if_neg hsigned]
    simp [hsigned]

private theorem fromText_zero {k : K.Value} : K.fromText "0".toList = .ok k ↔ k.1 = 0 := by
  have hzero : IsCanonicalNat ['0'] := isCanonicalNat_toDigits 0
  have hcanonical : isCanonicalInteger "0".toList = true := by decide
  have hparse : K.parse "0".toList = K.ofInt (0 : Nat) := parse_digits hzero
  rw [fromText_eq_ok, hparse, ofInt_eq_some, Nat.cast_zero]
  exact ⟨fun h => h.2.symm, fun h => ⟨hcanonical, h.symm⟩⟩

theorem intText_of_fromText {text : Str} {k : K.Value} (h : K.fromText text = .ok k) :
    intText k.1 = text ∨ text = "-0".toList := by
  obtain ⟨hcanonical, hparse⟩ := fromText_eq_ok.mp h
  by_cases hminus : text.head? = some '-'
  · obtain ⟨digits, rfl⟩ := List.head?_eq_some_iff.mp hminus
    have hdigits := (isCanonicalInteger_minus digits).mp hcanonical
    have hvalue := hdigits.toDigits
    rw [parse_minus hdigits] at hparse
    split_ifs at hparse with hsigned
    have hk := ofInt_eq_some.mp hparse
    by_cases hzero : Nat.ofDigitChars 10 digits 0 = 0
    · rw [hzero] at hvalue
      exact .inr (by rw [← hvalue]; rfl)
    · refine .inl ?_
      have habs : k.1.natAbs = Nat.ofDigitChars 10 digits 0 := by omega
      rw [intText_of_neg (by omega), habs, hvalue]
  · have hdigits := (isCanonicalInteger_plain hminus).mp hcanonical
    rw [parse_digits hdigits] at hparse
    have hk := ofInt_eq_some.mp hparse
    have hnat : k.1.toNat = Nat.ofDigitChars 10 text 0 := by omega
    exact .inl (by rw [intText_of_nonneg (by omega), hnat, hdigits.toDigits])

theorem fromText_eq_ok_iff {text : Str} {k : K.Value} :
    K.fromText text = .ok k ↔
      intText k.1 = text ∨ K.signed = true ∧ text = "-0".toList ∧ k.1 = 0 := by
  constructor
  · intro h
    rcases intText_of_fromText h with htext | rfl
    · exact .inl htext
    · have hzero := fromText_minusZero.mp h
      exact .inr ⟨hzero.1, rfl, hzero.2⟩
  · rintro (rfl | ⟨hsigned, rfl, hzero⟩)
    · exact fromText_intText k
    · exact fromText_minusZero.mpr ⟨hsigned, hzero⟩

private theorem low_bound (K : IntegerType) : -10 ^ 39 < K.min := by
  cases K <;> decide

private theorem high_bound (K : IntegerType) : K.max < 10 ^ 39 := by
  cases K <;> decide

/-- The buffer has room for every key. -/
theorem withText_eq (k : K.Value) : K.withText k = some (intText k.1) := by
  have hbound : k.1.natAbs < 10 ^ 39 := by
    have hlow := K.low_bound
    have hhigh := K.high_bound
    have hk := k.2
    omega
  have hlength : (Nat.toDigits 10 k.1.natAbs).length ≤ 39 :=
    (Nat.length_toDigits_le_iff (by decide) (by decide)).mpr hbound
  have hroom : (intText k.1).length ≤ integerKeyCapacity := by
    rw [intText, List.length_append]
    show _ ≤ 40
    split <;> simp only [List.length_cons, List.length_nil] <;> omega
  exact if_pos hroom

/-- The properties an entry is made of. -/
def keptProperties (properties : List (JsString × Except JsError JsValue)) :
    List (JsString × JsValue) :=
  properties.filterMap fun property => match property.2 with
    | .ok value => if value.isAbsent then none else some (property.1, value)
    | .error _ => none

theorem keptProperties_names (properties : List (JsString × Except JsError JsValue)) :
    ((keptProperties properties).map Prod.fst).Sublist (properties.map Prod.fst) := by
  induction properties with
  | nil => exact List.Sublist.slnil
  | cons property properties ih =>
    obtain ⟨name, read⟩ := property
    cases read with
    | error error => exact ih.cons name
    | ok value =>
      by_cases habsent : value.isAbsent = true
      · have hkept : keptProperties ((name, .ok value) :: properties) = keptProperties properties :=
          List.filterMap_cons_none (if_pos habsent)
        rw [hkept]
        exact ih.cons name
      · have hkept : keptProperties ((name, .ok value) :: properties) =
            (name, value) :: keptProperties properties :=
          List.filterMap_cons_some (if_neg habsent)
        rw [hkept]
        exact ih.cons_cons name

/-- An entry is what one property decodes to. -/
def IsEntryOf (decode : JsValue → Except JsError V) (property : JsString × JsValue)
    (entry : K.Value × V) : Prop :=
  ∃ text, property.1.toText = some text ∧ K.fromText text = .ok entry.1 ∧
    decode property.2 = .ok entry.2

/-- Decoding inserts, in order, what the properties it keeps decode to. -/
theorem decodeEntries_ok {printable : Char → Bool} {rust : Str} {decode : JsValue → Except JsError V}
    {properties : List (JsString × Except JsError JsValue)} {start map : IndexMap K.Value V}
    (h : K.decodeEntries printable rust decode properties start = .ok map) :
    ∃ entries, List.Forall₂ (IsEntryOf decode) (keptProperties properties) entries ∧
      map = entries.foldl (fun map entry => map.insert entry.1 entry.2) start := by
  induction properties generalizing start with
  | nil => exact ⟨[], .nil, (Except.ok.inj h).symm⟩
  | cons property properties ih =>
    obtain ⟨name, read⟩ := property
    cases read with
    | error error => cases h
    | ok value =>
      by_cases habsent : value.isAbsent = true
      · have hkept : keptProperties ((name, .ok value) :: properties) = keptProperties properties :=
          List.filterMap_cons_none (if_pos habsent)
        rw [hkept]
        rw [decodeEntries] at h
        simp only [bind, Except.bind, if_pos habsent] at h
        exact ih h
      · have hkept : keptProperties ((name, .ok value) :: properties) =
            (name, value) :: keptProperties properties :=
          List.filterMap_cons_some (if_neg habsent)
        rw [hkept]
        rw [decodeEntries] at h
        simp only [bind, Except.bind, if_neg habsent, stringText] at h
        cases htext : name.toText with
        | none =>
          rw [htext] at h
          cases h
        | some text =>
          rw [htext] at h
          cases hvalue : decode value with
          | error error =>
            rw [hvalue] at h
            cases h
          | ok decoded =>
            rw [hvalue] at h
            cases hkey : K.fromText text with
            | error error =>
              simp only [decodeKey, hkey] at h
              cases h
            | ok key =>
              simp only [decodeKey, hkey] at h
              obtain ⟨entries, hentries, rfl⟩ := ih h
              exact ⟨(key, decoded) :: entries, .cons ⟨text, htext, hkey, hvalue⟩ hentries, rfl⟩

private theorem text_unique {text other : Str} {k : K.Value} (h : K.fromText text = .ok k)
    (hother : K.fromText other = .ok k) :
    text = other ∨ K.signed = true ∧
      (text = "0".toList ∧ other = "-0".toList ∨ text = "-0".toList ∧ other = "0".toList) := by
  rcases fromText_eq_ok_iff.mp h with htext | ⟨hsigned, htext, hzero⟩ <;>
    rcases fromText_eq_ok_iff.mp hother with hother | ⟨hsigned', hother, hzero'⟩
  · exact .inl (htext.symm.trans hother)
  · exact .inr ⟨hsigned', .inl ⟨by rw [← htext, hzero']; rfl, hother⟩⟩
  · exact .inr ⟨hsigned, .inr ⟨htext, by rw [← hother, hzero]; rfl⟩⟩
  · exact .inl (htext.trans hother.symm)

/-- Both spellings of zero are names of properties. -/
def NamesZeroTwice (properties : List (JsString × JsValue)) : Prop :=
  JsString.ofText "0".toList ∈ properties.map Prod.fst ∧
    JsString.ofText "-0".toList ∈ properties.map Prod.fst

/-- Keys are unique unless both spellings of zero are names. -/
theorem entries_nodup_iff {decode : JsValue → Except JsError V}
    {properties : List (JsString × JsValue)} {entries : List (K.Value × V)}
    (h : List.Forall₂ (IsEntryOf decode) properties entries)
    (hnames : (properties.map Prod.fst).Nodup) :
    (entries.map Prod.fst).Nodup ↔ ¬(K.signed = true ∧ NamesZeroTwice properties) := by
  have hlength := h.length_eq
  have hentry (i : Nat) (hi : i < entries.length) :
      ∃ text, properties[i].1.toText = some text ∧ K.fromText text = .ok entries[i].1 := by
    obtain ⟨text, htext, hkey, -⟩ := h.get (by omega) hi
    exact ⟨text, htext, hkey⟩
  have hname {i j : Nat} (hi : i < entries.length) (hj : j < entries.length)
      (heq : properties[i].1 = properties[j].1) : i = j := by
    have hi' : i < (properties.map Prod.fst).length := by
      rw [List.length_map]
      omega
    have hj' : j < (properties.map Prod.fst).length := by
      rw [List.length_map]
      omega
    have hget : (properties.map Prod.fst)[i] = (properties.map Prod.fst)[j] := by
      rw [List.getElem_map, List.getElem_map]
      exact heq
    exact hnames.getElem_inj_iff.mp hget
  constructor
  · rintro hnodup ⟨hsigned, hzero, hminus⟩
    obtain ⟨_, hin, hzero⟩ := List.mem_map.mp hzero
    obtain ⟨i, hi, rfl⟩ := List.getElem_of_mem hin
    obtain ⟨_, hin, hminus⟩ := List.mem_map.mp hminus
    obtain ⟨j, hj, rfl⟩ := List.getElem_of_mem hin
    rw [hlength] at hi hj
    obtain ⟨text, htext, hkey⟩ := hentry i hi
    obtain ⟨other, hother, hkey'⟩ := hentry j hj
    rw [hzero, JsString.toText_ofText] at htext
    obtain rfl := Option.some.inj htext
    rw [hminus, JsString.toText_ofText] at hother
    obtain rfl := Option.some.inj hother
    have heq : entries[i].1 = entries[j].1 :=
      Subtype.ext ((fromText_zero.mp hkey).trans (fromText_minusZero.mp hkey').2.symm)
    have hi' : i < (entries.map Prod.fst).length := by rwa [List.length_map]
    have hj' : j < (entries.map Prod.fst).length := by rwa [List.length_map]
    have hget : (entries.map Prod.fst)[i] = (entries.map Prod.fst)[j] := by
      rw [List.getElem_map, List.getElem_map]
      exact heq
    obtain rfl : i = j := hnodup.getElem_inj_iff.mp hget
    have htexts := JsString.ofText_injective (hzero.symm.trans hminus)
    exact absurd htexts (by decide)
  · intro hzero
    rw [List.nodup_iff_pairwise_ne, List.pairwise_iff_getElem]
    intro i j hi hj hlt heq
    rw [List.length_map] at hi hj
    rw [List.getElem_map, List.getElem_map] at heq
    obtain ⟨text, htext, hkey⟩ := hentry i hi
    obtain ⟨other, hother, hkey'⟩ := hentry j hj
    rw [← heq] at hkey'
    have htext' := JsString.ofText_of_toText htext
    have hother' := JsString.ofText_of_toText hother
    have hmem (k : Nat) (hk : k < entries.length) : properties[k].1 ∈ properties.map Prod.fst :=
      List.mem_map_of_mem (List.getElem_mem _)
    rcases text_unique hkey hkey' with rfl | ⟨hsigned, ⟨rfl, rfl⟩ | ⟨rfl, rfl⟩⟩
    · have hindex := hname hi hj (htext'.symm.trans hother')
      omega
    · exact hzero ⟨hsigned, htext' ▸ hmem i hi, hother' ▸ hmem j hj⟩
    · exact hzero ⟨hsigned, hother' ▸ hmem j hj, htext' ▸ hmem i hi⟩

theorem entries_insert_all {entries : List (K.Value × V)} {start : IndexMap K.Value V}
    (h : ((start.entries ++ entries).map Prod.fst).Nodup) :
    (entries.foldl (fun map entry => map.insert entry.1 entry.2) start).entries =
      start.entries ++ entries := by
  induction entries generalizing start with
  | nil => rw [List.foldl_nil, List.append_nil]
  | cons entry entries ih =>
    have hfresh : start.get? entry.1 = none := by
      rw [IndexMap.get?_eq_none]
      rw [List.map_append, List.map_cons] at h
      exact fun hmem => (List.nodup_append.mp h).2.2 entry.1 hmem entry.1 (List.mem_cons_self ..) rfl
    have hinsert := IndexMap.entries_insert_of_not_mem entry.2 hfresh
    rw [List.foldl_cons, ih, hinsert, List.append_assoc]
    · rfl
    · rw [hinsert, List.append_assoc]
      exact h

theorem decoded_iff {printable : Char → Bool} {rust : Str} {decode : JsValue → Except JsError V}
    {properties : List (JsString × Except JsError JsValue)} {map : IndexMap K.Value V}
    (hnames : (properties.map Prod.fst).Nodup)
    (h : K.decodeEntries printable rust decode properties .empty = .ok map) :
    List.Forall₂ (IsEntryOf decode) (keptProperties properties) map.entries ↔
      ¬(K.signed = true ∧ NamesZeroTwice (keptProperties properties)) := by
  have hkept := hnames.sublist (keptProperties_names properties)
  obtain ⟨entries, hentries, rfl⟩ := decodeEntries_ok h
  constructor
  · intro hmap
    exact (entries_nodup_iff hmap hkept).mp (IndexMap.nodup _)
  · intro hzero
    have hnodup := (entries_nodup_iff hentries hkept).mpr hzero
    have hkeys : ((IndexMap.entries (.empty : IndexMap K.Value V) ++ entries).map Prod.fst).Nodup :=
      hnodup
    rw [entries_insert_all hkeys]
    exact hentries

def zero (K : IntegerType) : K.Value := ⟨0, by cases K <;> decide⟩

theorem withText_eq_some_iff {text : Str} {k : K.Value} :
    K.withText k = some text ↔ intText k.1 = text := by
  rw [withText_eq, Option.some_inj]

theorem text_exact_iff {text : Str} :
    (∀ k, K.fromText text = .ok k ↔ K.withText k = some text) ↔
      ¬(K.signed = true ∧ text = "-0".toList) := by
  constructor
  · rintro h ⟨hsigned, rfl⟩
    have hread := (h K.zero).mp (fromText_minusZero.mpr ⟨hsigned, rfl⟩)
    rw [withText_eq_some_iff] at hread
    exact absurd hread (by
      show ¬intText 0 = "-0".toList
      decide)
  · intro hzero k
    rw [fromText_eq_ok_iff, withText_eq_some_iff]
    constructor
    · rintro (htext | ⟨hsigned, htext, -⟩)
      · exact htext
      · exact absurd ⟨hsigned, htext⟩ hzero
    · exact .inl

/-- Integer keys and their texts are one to one but for the zero with a sign, which signed types
read; a map gets an entry for each property unless both spellings of zero are names. -/
theorem keys_one_to_one (K : IntegerType) (printable : Char → Bool) (rust : Str)
    (decode : JsValue → Except JsError V) :
    (∀ k, ∃ text, K.withText k = some text ∧ K.fromText text = .ok k) ∧
    (∀ text, (∀ k, K.fromText text = .ok k ↔ K.withText k = some text) ↔
      ¬(K.signed = true ∧ text = "-0".toList)) ∧
    ∀ properties map, (properties.map Prod.fst).Nodup →
      K.decodeEntries printable rust decode properties .empty = .ok map →
      (List.Forall₂ (IsEntryOf decode) (keptProperties properties) map.entries ↔
        ¬(K.signed = true ∧ NamesZeroTwice (keptProperties properties))) :=
  ⟨fun k => ⟨intText k.1, withText_eq k, fromText_intText k⟩, fun _ => text_exact_iff,
    fun _ _ hnames h => decoded_iff hnames h⟩

/-- A zero with a sign is read, and an object with both zeros decodes to a map of one entry. -/
theorem keys_not_one_to_one :
    ¬(∀ k, IntegerType.i32.fromText "-0".toList = .ok k ↔
      IntegerType.i32.withText k = some "-0".toList) ∧
    (IntegerType.i32.decodeEntries (fun _ => true) "HashMap".toList
      (fun value => (.ok value : Except JsError JsValue))
      [(.ofText "0".toList, .ok (.primitive (.bool true))),
        (.ofText "-0".toList, .ok (.primitive (.bool false)))] .empty).map (·.entries) =
      .ok [(IntegerType.i32.zero, .primitive (.bool false))] := by
  constructor
  · intro h
    have hread := (h (IntegerType.i32.zero)).mp (fromText_minusZero.mpr ⟨rfl, rfl⟩)
    exact absurd hread (by decide)
  · rfl

end IntegerType

end RustTS.Contract
