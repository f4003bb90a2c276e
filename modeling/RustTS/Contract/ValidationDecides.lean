import RustTS.Lib.Deciding
import RustTS.Contract.Conformance

/-! Validation decides whether a value has a type, references decided likewise. -/
namespace RustTS.Contract

open Deciding

variable {T : Prop} {stack : List Str}

theorem not_isUndeclared {fields : List TsField} {allowed : List Str} {key : Str} :
    ObjectShape.isUndeclared ⟨fields, allowed⟩ key = false ↔ Declares fields allowed key := by
  simp only [ObjectShape.isUndeclared, Declares, Bool.and_eq_false_iff, Bool.not_eq_false',
    List.any_eq_true, decide_eq_true_eq, List.contains_iff_mem]

theorem decides_ensure (valid : Prop) [Decidable valid] (error : Str) :
    Decides T stack valid fun _ => ensure valid error := Decides.check

theorem isNull_iff {value : Json} : value.isNull = true ↔ value = .null := by
  cases value <;> simp [Json.isNull]

theorem decides_null (value : Json) (path : Str) :
    Decides T stack (value = .null) fun _ => validateNull value path :=
  (decides_ensure _ _).congr isNull_iff

private theorem decides_bool (value : Json) (path : Str) :
    Decides T stack (∃ b, value = .bool b) fun _ => validateBool value path := by
  cases value with
  | bool b => exact Decides.pure ⟨b, rfl⟩
  | _ => exact Decides.throw (by rintro ⟨_, h⟩; cases h)

theorem decides_number (value : Json) (path : Str) :
    Decides T stack (∃ number, value = .number number) fun _ => validateNumber value path := by
  cases value with
  | number number => exact Decides.pure ⟨number, rfl⟩
  | _ => exact Decides.throw (by rintro ⟨_, h⟩; cases h)

private theorem decides_string (value : Json) (path : Str) :
    Decides T stack (∃ text, value = .string text) fun _ => validateString value path := by
  cases value with
  | string text => exact Decides.pure ⟨text, rfl⟩
  | _ => exact Decides.throw (by rintro ⟨_, h⟩; cases h)

theorem decides_array {item : ℕ → Json → Str → Validation} {P : Json → Prop}
    (hitem : ∀ value path, Decides T stack (P value) fun n => item n value path) (value : Json)
    (path : Str) :
    Decides T stack (∃ items, value = .array items ∧ ∀ value ∈ items, P value) fun n =>
      validateArray (item n) value path := by
  cases value with
  | array items =>
    have hloop := Decides.forM (T := T) (s := stack) (l := items.zipIdx)
      fun entry _ => hitem entry.1 (indexPath path entry.2)
    have hitems : (∀ entry ∈ items.zipIdx, P entry.1) ↔ ∀ value ∈ items, P value := by
      conv_rhs => rw [← List.zipIdx_map_fst 0 items]
      exact List.forall_mem_map.symm
    exact hloop.congr (hitems.trans ⟨fun h => ⟨items, rfl, h⟩, by rintro ⟨_, ⟨rfl⟩, h⟩; exact h⟩)
  | _ => exact Decides.throw (by rintro ⟨_, h, -⟩; cases h)

theorem decides_reject (fields : List TsField) (allowed : List Str) (object : Entries)
    (path : Str) :
    Decides T stack (∀ entry ∈ object, Declares fields allowed entry.1) fun _ =>
      rejectUnknownObjectFields ⟨fields, allowed⟩ object path := by
  unfold rejectUnknownObjectFields
  cases hfind : object.find? fun entry => ObjectShape.isUndeclared ⟨fields, allowed⟩ entry.1 with
  | none =>
    refine Decides.pure fun entry hentry => not_isUndeclared.mp ?_
    exact Bool.not_eq_true _ ▸ List.find?_eq_none.mp hfind entry hentry
  | some entry =>
    refine Decides.throw fun h => ?_
    have hundeclared := List.find?_some hfind
    have hdeclared := not_isUndeclared.mpr (h entry (List.mem_of_find?_eq_some hfind))
    exact Bool.false_ne_true (hdeclared.symm.trans hundeclared)

section Object
variable (options : SchemaValidationOptions) {fields : List TsField} {allowed : List Str}
variable {declared : ℕ → Entries → Validation} {P : Entries → Prop}

theorem decides_object (hdeclared : ∀ object, Decides T stack (P object) fun n => declared n object)
    (value : Json) (path : Str) :
    Decides T stack (ObjectMatches options fields allowed P none value) fun n =>
      validateObject options ⟨fields, allowed⟩ (declared n) none value path := by
  cases value with
  | object object =>
    have hunknown : Decides T stack
        (options.rejectUnknownFields = true → ∀ entry ∈ object, Declares fields allowed entry.1)
        fun _ => if Option.isNone (none : Option (Json → Str → Validation)) = true ∧
            options.rejectUnknownFields = true then
          rejectUnknownObjectFields ⟨fields, allowed⟩ object path else pure () := by
      by_cases hreject : options.rejectUnknownFields = true
      · simp only [hreject, Option.isNone_none, and_self, if_true, true_imp_iff]
        exact decides_reject fields allowed object path
      · simp only [hreject, Option.isNone_none, Bool.false_eq_true, and_false, if_false]
        exact Decides.pure nofun
    refine (hunknown.seq fun _ => (hdeclared object).seq fun _ => Decides.pure trivial).congr ?_
    constructor
    · rintro ⟨hkeys, hfields, -⟩
      exact ⟨object, rfl, hfields, hkeys⟩
    · rintro ⟨_, ⟨rfl⟩, hfields, hkeys⟩
      exact ⟨hkeys, hfields, trivial⟩
  | _ => exact Decides.throw (by rintro ⟨_, h, -⟩; cases h)

theorem decides_openObject {rest : ℕ → Json → Str → Validation} {Q : Json → Prop}
    (hdeclared : ∀ object, Decides T stack (P object) fun n => declared n object)
    (hrest : ∀ value path, Decides T stack (Q value) fun n => rest n value path) (value : Json)
    (path : Str) :
    Decides T stack (ObjectMatches options fields allowed P (some Q) value) fun n =>
      validateObject options ⟨fields, allowed⟩ (declared n) (some (rest n)) value path := by
  cases value with
  | object object =>
    have hloop := Decides.forM (T := T) (s := stack)
      (l := object.filter fun entry => ObjectShape.isUndeclared ⟨fields, allowed⟩ entry.1)
      fun entry _ => hrest entry.2 (childPath path entry.1)
    have hnone : Decides T stack True fun _ => (pure () : Validation) := Decides.pure trivial
    refine (hnone.seq fun _ => (hdeclared object).seq fun _ => hloop).congr ?_
    have hundeclared : ∀ key, ObjectShape.isUndeclared ⟨fields, allowed⟩ key = true ↔
        ¬Declares fields allowed key := by
      intro key
      rw [← not_isUndeclared, Bool.not_eq_false]
    constructor
    · rintro ⟨-, hfields, hkeys⟩
      refine ⟨object, rfl, hfields, fun entry hentry hkey => hkeys entry ?_⟩
      exact List.mem_filter.mpr ⟨hentry, (hundeclared entry.1).mpr hkey⟩
    · rintro ⟨_, ⟨rfl⟩, hfields, hkeys⟩
      refine ⟨trivial, hfields, fun entry hentry => ?_⟩
      obtain ⟨hentry, hkey⟩ := List.mem_filter.mp hentry
      exact hkeys entry hentry ((hundeclared entry.1).mp hkey)
  | _ => exact Decides.throw (by rintro ⟨_, h, -⟩; cases h)

end Object

variable (printable : Char → Bool)

private theorem decides_unitEnum (variants : List TsEnumVariant) (value : Json) (path : Str) :
    Decides T stack (∃ variant ∈ variants, value = .string variant.name) fun _ =>
      validateUnitEnum printable variants value path := by
  cases value with
  | string name =>
    refine (decides_ensure _ _).congr ?_
    simp only [List.any_eq_true, decide_eq_true_eq, Json.string.injEq]
    exact exists_congr fun variant => and_congr_right fun _ => eq_comm
  | _ => exact Decides.throw (by rintro ⟨_, -, h⟩; cases h)

theorem decides_record (key : TsRecordKey) {item : ℕ → Json → Str → Validation} {P : Json → Prop}
    (hitem : ∀ value path, Decides T stack (P value) fun n => item n value path) (value : Json)
    (path : Str) :
    Decides T stack (∃ object, value = .object object ∧
        ∀ entry ∈ object, recordKeyMatches key entry.1 = true ∧ P entry.2) fun n =>
      validateRecord printable key (item n) value path := by
  cases value with
  | object object =>
    have hloop := Decides.forM (T := T) (s := stack) (l := object) fun entry _ =>
      (decides_ensure (recordKeyMatches key entry.1 = true)
        (path ++ ": expected numeric record key, got ".toList ++
          debugText printable entry.1)).seq fun _ => hitem entry.2 (childPath path entry.1)
    exact hloop.congr ⟨fun h => ⟨object, rfl, h⟩, by rintro ⟨_, ⟨rfl⟩, h⟩; exact h⟩
  | _ => exact Decides.throw (by rintro ⟨_, h, -⟩; cases h)

theorem decides_nullOr {inner : ℕ → Json → Str → Validation} {P : Json → Prop}
    (hinner : ∀ value path, Decides T stack (P value) fun n => inner n value path) (value : Json)
    (path : Str) :
    Decides T stack (value = .null ∨ P value) fun n =>
      if value.isNull then pure () else inner n value path := by
  by_cases hnull : value = .null
  · simp only [isNull_iff.mpr hnull, if_true]
    exact Decides.pure (.inl hnull)
  · simp only [isNull_iff, hnull, if_false, false_or]
    exact hinner value path

section
variable (options : SchemaValidationOptions) {C : RefReading}
variable {resolve : ℕ → Str → Json → Str → Validation}

mutual

theorem decides_type
    (hresolve : ∀ name value path,
      Decides T stack (C name value) fun n => resolve n name value path) :
    (ty : TsType) → (value : Json) → (path : Str) →
    Decides T stack (ty.Matches options C value) fun n =>
      validateTypeWith printable options (resolve n) ty value path
  | .unknown, _, _ => Decides.pure trivial
  | .json, _, _ => Decides.pure trivial
  | .typeRef name, value, path => hresolve name value path
  | .void, value, path => decides_null value path
  | .null, value, path => decides_null value path
  | .boolean, value, path => decides_bool value path
  | .number, value, path => decides_number value path
  | .string, value, path => decides_string value path
  | .uint8Array, value, path => decides_array decides_number value path
  | .literal literal, value, path => decides_ensure (literalMatches literal value = true) _
  | .object fields, value, path =>
    decides_object options (decides_fields hresolve fields path) value path
  | .openObject fields rest, value, path =>
    decides_openObject options (decides_fields hresolve fields path) (decides_type hresolve rest)
      value path
  | .array item, value, path => decides_array (decides_type hresolve item) value path
  | .tuple items, value, path => by
    cases value with
    | array values =>
      show Decides T stack _ fun n => if values.length = items.length then
        validateTuple printable options (resolve n) path 0 items values else _
      by_cases hlength : values.length = items.length
      · simp only [if_pos hlength]
        refine (decides_tuple hresolve items values path 0 hlength).congr ?_
        exact ⟨fun h => ⟨values, rfl, h⟩, by rintro ⟨_, ⟨rfl⟩, h⟩; exact h⟩
      · simp only [if_neg hlength]
        refine Decides.throw ?_
        rintro ⟨_, ⟨rfl⟩, h⟩
        exact hlength h.length
    | _ => exact Decides.throw (by rintro ⟨_, h, -⟩; cases h)
  | .enum none variants, value, path => decides_unitEnum printable variants value path
  | .enum (some tag) variants, value, path => by
    cases value with
    | object object =>
      show Decides T stack _ fun n => match object.lookup tag with
        | some (.string name) => validateTaggedEnum printable options (resolve n) tag name
            (.object object) path variants
        | _ => throw (childPath path tag ++ ": missing enum tag string".toList)
      have htag : (∃ name, object.lookup tag = some (.string name) ∧
            VariantMatches options C tag name (.object object) variants) ↔
          TsType.Matches options C (.enum (some tag) variants) (.object object) :=
        ⟨fun h => ⟨object, rfl, h⟩, by rintro ⟨_, ⟨rfl⟩, h⟩; exact h⟩
      refine Decides.congr ?_ htag
      rcases hlookup : object.lookup tag with _ | value
      · exact Decides.throw (by rintro ⟨_, h, -⟩; cases h)
      · cases value with
        | string name =>
          refine (decides_variant hresolve variants tag name (.object object) path).congr ?_
          exact ⟨fun h => ⟨name, rfl, h⟩, by rintro ⟨_, ⟨rfl⟩, h⟩; exact h⟩
        | _ => exact Decides.throw (by rintro ⟨_, h, -⟩; cases h)
    | _ => exact Decides.throw (by rintro ⟨_, h, -⟩; cases h)
  | .record key item, value, path =>
    decides_record printable key (decides_type hresolve item) value path
  | .union types, value, path => decides_union hresolve types value path
  | .optional inner, value, path => decides_nullOr (decides_type hresolve inner) value path
  | .nullable inner, value, path => decides_nullOr (decides_type hresolve inner) value path

theorem decides_fields
    (hresolve : ∀ name value path,
      Decides T stack (C name value) fun n => resolve n name value path) :
    (fields : List TsField) → (path : Str) → (object : Entries) →
    Decides T stack (FieldsMatch options C fields object) fun n =>
      validateDeclaredFields printable options (resolve n) path fields object
  | [], _, _ => Decides.pure trivial
  | .mk name ty isOptional :: fields, path, object => by
    have hfield : Decides T stack
        (match object.lookup name with
          | some value => ty.Matches options C value
          | none => isOptional = true)
        fun n => match object.lookup name with
          | some value =>
            validateTypeWith printable options (resolve n) ty value (childPath path name)
          | none => if isOptional then pure ()
            else throw (childPath path name ++ ": missing required field".toList) := by
      cases object.lookup name with
      | some value => exact decides_type hresolve ty value (childPath path name)
      | none => exact Decides.check
    exact hfield.seq fun _ => decides_fields hresolve fields path object

theorem decides_tuple
    (hresolve : ∀ name value path,
      Decides T stack (C name value) fun n => resolve n name value path) :
    (items : List TsType) → (values : List Json) → (path : Str) →
    (index : Nat) → values.length = items.length →
      Decides T stack (ItemsMatch options C items values) fun n =>
        validateTuple printable options (resolve n) path index items values
  | [], [], _, _, _ => Decides.pure rfl
  | ty :: items, value :: values, path, index, hlength => by
    have hitem := decides_type hresolve ty value (indexPath path index)
    have hrest := decides_tuple hresolve items values path (index + 1) (Nat.succ.inj hlength)
    refine (hitem.seq fun _ => hrest).congr ?_
    exact ⟨fun h => ⟨value, values, rfl, h⟩, by rintro ⟨_, _, ⟨rfl, rfl⟩, h⟩; exact h⟩

theorem decides_variant
    (hresolve : ∀ name value path,
      Decides T stack (C name value) fun n => resolve n name value path) :
    (variants : List TsEnumVariant) → (tag name : Str) → (value : Json) →
    (path : Str) →
      Decides T stack (VariantMatches options C tag name value variants) fun n =>
        validateTaggedEnum printable options (resolve n) tag name value path variants
  | [], _, _, _, _ => Decides.throw id
  | .mk own fields none :: variants, tag, name, value, path => by
    unfold VariantMatches validateTaggedEnum
    split_ifs
    · exact decides_object options (decides_fields hresolve fields path) value path
    · exact decides_variant hresolve variants tag name value path
  | .mk own fields (some rest) :: variants, tag, name, value, path => by
    unfold VariantMatches validateTaggedEnum
    split_ifs
    · exact decides_openObject options (decides_fields hresolve fields path)
        (decides_type hresolve rest) value path
    · exact decides_variant hresolve variants tag name value path

theorem decides_union
    (hresolve : ∀ name value path,
      Decides T stack (C name value) fun n => resolve n name value path) :
    (types : List TsType) → (value : Json) → (path : Str) →
    Decides T stack (MemberMatches options C value types) fun n =>
      validateUnion printable options (resolve n) value path types
  | [], _, _ => Decides.throw id
  | ty :: types, value, path =>
    (decides_type hresolve ty value path).orElse (decides_union hresolve types value path)

end

end

end RustTS.Contract
