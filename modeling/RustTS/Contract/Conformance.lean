import RustTS.Contract.Validation

/-! What the types of a schema say of JSON values, references read by a relation. -/
namespace RustTS.Contract

/-- A relation for the values that a reference of a name stands for. -/
abbrev RefReading := Str → Json → Prop

/-- The fields, or the keys allowed next to them, have the key. -/
def Declares (fields : List TsField) (allowed : List Str) (key : Str) : Prop :=
  (∃ field ∈ fields, field.name = key) ∨ key ∈ allowed

/-- An object whose declared fields are as they should be. Its other keys have the `rest` type, and
where there is none they are not allowed in strict mode. -/
def ObjectMatches (options : SchemaValidationOptions) (fields : List TsField) (allowed : List Str)
    (declared : Entries → Prop) (rest : Option (Json → Prop)) (value : Json) : Prop :=
  ∃ object, value = .object object ∧ declared object ∧
    match rest with
    | some rest => ∀ entry ∈ object, ¬Declares fields allowed entry.1 → rest entry.2
    | none => options.rejectUnknownFields = true → ∀ entry ∈ object, Declares fields allowed entry.1

section
variable (options : SchemaValidationOptions) (C : RefReading)

mutual

/-- The value has the type, where its references are read by `C`. -/
def TsType.Matches : TsType → Json → Prop
  | .unknown, _ => True
  | .json, _ => True
  | .typeRef name, value => C name value
  | .void, value => value = .null
  | .null, value => value = .null
  | .boolean, value => ∃ b, value = .bool b
  | .number, value => ∃ number, value = .number number
  | .string, value => ∃ text, value = .string text
  | .uint8Array, value =>
    ∃ items, value = .array items ∧ ∀ item ∈ items, ∃ number, item = .number number
  | .literal literal, value => literalMatches literal value
  | .object fields, value => ObjectMatches options fields [] (FieldsMatch fields) none value
  | .openObject fields rest, value =>
    ObjectMatches options fields [] (FieldsMatch fields) (some rest.Matches) value
  | .array item, value => ∃ items, value = .array items ∧ ∀ value ∈ items, item.Matches value
  | .tuple items, value => ∃ values, value = .array values ∧ ItemsMatch items values
  | .enum none variants, value => ∃ variant ∈ variants, value = .string variant.name
  | .enum (some tag) variants, value =>
    ∃ object, value = .object object ∧
      ∃ name, object.lookup tag = some (.string name) ∧ VariantMatches tag name value variants
  | .record key item, value =>
    ∃ object, value = .object object ∧
      ∀ entry ∈ object, recordKeyMatches key entry.1 = true ∧ item.Matches entry.2
  | .union types, value => MemberMatches value types
  | .optional inner, value => value = .null ∨ inner.Matches value
  | .nullable inner, value => value = .null ∨ inner.Matches value

/-- Each field of an object has its type, and is there unless it is optional. -/
def FieldsMatch : List TsField → Entries → Prop
  | [], _ => True
  | .mk name ty isOptional :: fields, object =>
    (match object.lookup name with
      | some value => ty.Matches value
      | none => isOptional = true) ∧ FieldsMatch fields object

/-- As many values as types, each of its type. -/
def ItemsMatch : List TsType → List Json → Prop
  | [], values => values = []
  | ty :: items, values =>
    ∃ value rest, values = value :: rest ∧ ty.Matches value ∧ ItemsMatch items rest

/-- The value has the fields of the variant of the name, the first one where there are several. -/
def VariantMatches (tag name : Str) (value : Json) : List TsEnumVariant → Prop
  | [] => False
  | .mk own fields none :: variants =>
    if own = name then ObjectMatches options fields [tag] (FieldsMatch fields) none value
    else VariantMatches tag name value variants
  | .mk own fields (some rest) :: variants =>
    if own = name then
      ObjectMatches options fields [tag] (FieldsMatch fields) (some rest.Matches) value
    else VariantMatches tag name value variants

/-- The value has one of the types. -/
def MemberMatches (value : Json) : List TsType → Prop
  | [] => False
  | ty :: types => ty.Matches value ∨ MemberMatches value types

end

end

theorem ItemsMatch.length {options : SchemaValidationOptions} {C : RefReading}
    {items : List TsType} {values : List Json} (h : ItemsMatch options C items values) :
    values.length = items.length := by
  induction items generalizing values with
  | nil =>
    cases h
    rfl
  | cons ty items ih =>
    obtain ⟨value, rest, rfl, -, hrest⟩ := h
    exact congrArg Nat.succ (ih hrest)

theorem ObjectMatches.mono {options options' : SchemaValidationOptions} {fields : List TsField}
    {allowed : List Str} {declared declared' : Entries → Prop} {rest rest' : Option (Json → Prop)}
    {value : Json}
    (hoptions : options'.rejectUnknownFields = true → options.rejectUnknownFields = true)
    (hdeclared : ∀ object, declared object → declared' object)
    (hrest : Option.Rel (fun P P' => ∀ value, P value → P' value) rest rest')
    (h : ObjectMatches options fields allowed declared rest value) :
    ObjectMatches options' fields allowed declared' rest' value := by
  obtain ⟨object, rfl, hfields, hkeys⟩ := h
  refine ⟨object, rfl, hdeclared object hfields, ?_⟩
  cases hrest with
  | none => exact fun hstrict => hkeys (hoptions hstrict)
  | some hrest => exact fun entry hentry hdeclares => hrest _ (hkeys entry hentry hdeclares)

section
variable {options options' : SchemaValidationOptions} {C D : RefReading}

mutual

/-- A type takes in no less where its references do, and where unknown fields are not rejected. -/
theorem TsType.Matches.mono
    (hoptions : options'.rejectUnknownFields = true → options.rejectUnknownFields = true)
    (hC : ∀ name value, C name value → D name value) :
    (ty : TsType) → (value : Json) →
    ty.Matches options C value → ty.Matches options' D value
  | .unknown, _, _ => trivial
  | .json, _, _ => trivial
  | .typeRef name, value, h => hC name value h
  | .void, _, h => h
  | .null, _, h => h
  | .boolean, _, h => h
  | .number, _, h => h
  | .string, _, h => h
  | .uint8Array, _, h => h
  | .literal _, _, h => h
  | .object fields, value, h =>
    ObjectMatches.mono hoptions (FieldsMatch.mono hoptions hC fields) .none h
  | .openObject fields rest, value, h =>
    ObjectMatches.mono hoptions (FieldsMatch.mono hoptions hC fields)
      (.some (TsType.Matches.mono hoptions hC rest)) h
  | .array item, value, h => by
    obtain ⟨items, rfl, h⟩ := h
    refine ⟨items, rfl, fun value hvalue => ?_⟩
    exact TsType.Matches.mono hoptions hC item value (h value hvalue)
  | .tuple items, value, h => by
    obtain ⟨values, rfl, h⟩ := h
    exact ⟨values, rfl, ItemsMatch.mono hoptions hC items values h⟩
  | .enum none _, _, h => h
  | .enum (some tag) variants, value, h => by
    obtain ⟨object, rfl, name, hname, h⟩ := h
    exact ⟨object, rfl, name, hname, VariantMatches.mono hoptions hC variants tag name _ h⟩
  | .record key item, value, h => by
    obtain ⟨object, rfl, h⟩ := h
    refine ⟨object, rfl, fun entry hentry => ⟨(h entry hentry).1, ?_⟩⟩
    exact TsType.Matches.mono hoptions hC item entry.2 (h entry hentry).2
  | .union types, value, h => MemberMatches.mono hoptions hC types value h
  | .optional inner, value, h => h.imp_right (TsType.Matches.mono hoptions hC inner value)
  | .nullable inner, value, h => h.imp_right (TsType.Matches.mono hoptions hC inner value)

theorem FieldsMatch.mono
    (hoptions : options'.rejectUnknownFields = true → options.rejectUnknownFields = true)
    (hC : ∀ name value, C name value → D name value) :
    (fields : List TsField) → (object : Entries) →
    FieldsMatch options C fields object → FieldsMatch options' D fields object
  | [], _, _ => trivial
  | .mk name ty isOptional :: fields, object, h => by
    refine ⟨?_, FieldsMatch.mono hoptions hC fields object h.2⟩
    have hfield := h.1
    cases hvalue : object.lookup name with
    | none =>
      rw [hvalue] at hfield
      exact hfield
    | some value =>
      rw [hvalue] at hfield
      exact TsType.Matches.mono hoptions hC ty value hfield

theorem ItemsMatch.mono
    (hoptions : options'.rejectUnknownFields = true → options.rejectUnknownFields = true)
    (hC : ∀ name value, C name value → D name value) :
    (items : List TsType) → (values : List Json) →
    ItemsMatch options C items values → ItemsMatch options' D items values
  | [], _, h => h
  | ty :: items, values, h => by
    obtain ⟨value, rest, rfl, hvalue, hrest⟩ := h
    refine ⟨value, rest, rfl, TsType.Matches.mono hoptions hC ty value hvalue, ?_⟩
    exact ItemsMatch.mono hoptions hC items rest hrest

theorem VariantMatches.mono
    (hoptions : options'.rejectUnknownFields = true → options.rejectUnknownFields = true)
    (hC : ∀ name value, C name value → D name value) :
    (variants : List TsEnumVariant) → (tag name : Str) → (value : Json) →
    VariantMatches options C tag name value variants →
      VariantMatches options' D tag name value variants
  | [], _, _, _, h => h
  | .mk own fields none :: variants, tag, name, value, h => by
    unfold VariantMatches at h ⊢
    split_ifs at h ⊢
    · exact ObjectMatches.mono hoptions (FieldsMatch.mono hoptions hC fields) .none h
    · exact VariantMatches.mono hoptions hC variants tag name value h
  | .mk own fields (some rest) :: variants, tag, name, value, h => by
    unfold VariantMatches at h ⊢
    split_ifs at h ⊢
    · exact ObjectMatches.mono hoptions (FieldsMatch.mono hoptions hC fields)
        (.some (TsType.Matches.mono hoptions hC rest)) h
    · exact VariantMatches.mono hoptions hC variants tag name value h

theorem MemberMatches.mono
    (hoptions : options'.rejectUnknownFields = true → options.rejectUnknownFields = true)
    (hC : ∀ name value, C name value → D name value) :
    (types : List TsType) → (value : Json) →
    MemberMatches options C value types → MemberMatches options' D value types
  | [], _, h => h
  | ty :: types, value, h =>
    h.imp (TsType.Matches.mono hoptions hC ty value) (MemberMatches.mono hoptions hC types value)

end

end

end RustTS.Contract
