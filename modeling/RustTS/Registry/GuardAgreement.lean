import RustTS.Contract.ParsedObject
import RustTS.Contract.ValidationCorrect
import RustTS.Registry.SdkGuard

/-! Where the type guards of the generated SDK agree with lenient validation. -/
namespace RustTS.Registry
open RustTS.Contract

/-- A JSON value as `serde_json` holds it: its numbers are finite and an object has each key once. -/
inductive WellFormed : Json → Prop
  | null : WellFormed .null
  | bool (value : Bool) : WellFormed (.bool value)
  | number {number : Number} (h : number.asF64.isFinite = true) : WellFormed (.number number)
  | string (value : Str) : WellFormed (.string value)
  | array {items : List Json} (h : ∀ item ∈ items, WellFormed item) : WellFormed (.array items)
  | object {object : Entries} (hkeys : (object.map Prod.fst).Nodup)
      (h : ∀ entry ∈ object, WellFormed entry.2) : WellFormed (.object object)

theorem WellFormed.entries {object : Entries} (h : WellFormed (.object object)) :
    (object.map Prod.fst).Nodup ∧ ∀ entry ∈ object, WellFormed entry.2 := by
  cases h with
  | object hkeys hentries => exact ⟨hkeys, hentries⟩

theorem WellFormed.items {items : List Json} (h : WellFormed (.array items)) :
    ∀ item ∈ items, WellFormed item := by
  cases h with
  | array hitems => exact hitems

/-- `JSON.parse` reads a number as the `f64` it is. -/
def ReadsNumbers (readNumber : Number → Int32 ⊕ JsFloat) : Prop :=
  ∀ number : Number, number.asF64.isFinite = true →
    (JsValue.ofNumber readNumber number).toF64 = some number.asF64

/-- The names that every object has a property of. -/
def inheritedNames : List Str := "__proto__".toList :: "constructor".toList :: objectMethods

def standIns : List Number :=
  [.posInt nanStandIn, .posInt infinityStandIn, .posInt negInfinityStandIn]

mutual

/-- The guard of the type takes `undefined`, which a property reads that an object does not have. -/
def takesUndefined : TsType → Bool
  | .unknown | .json | .typeRef _ | .void | .optional _ => true
  | .literal (.number text) => (sourceNumeral text).isNone
  | .enum _ variants => variants.isEmpty
  | .union types => types.isEmpty || anyTakesUndefined types
  | .nullable inner => takesUndefined inner
  | _ => false

def anyTakesUndefined : List TsType → Bool
  | [] => false
  | ty :: types => takesUndefined ty || anyTakesUndefined types

end

mutual

/-- Guard and validator read the type alike, as far as it describes the value: unions and enums have
members, an enum has a tag where a variant has fields, and only there, with one variant of the name
that the tag of the value has, the texts of numbers are decimal literals, the numeric keys plain and
the numbers no stand-ins; and a field that is not there has no name that objects inherit and is
optional, or its type does not take `undefined`. -/
def Comparable : TsType → Json → Prop
  | .typeRef _, _ | .void, _ | .optional _, _ | .uint8Array, _ => False
  | .literal (.number text), value =>
    (sourceNumeral text).isSome = true ∧ ∀ number ∈ standIns, value ≠ .number number
  | .object fields, value => ∀ object, value = .object object → FieldsComparable fields object
  | .openObject fields rest, value => ∀ object, value = .object object →
      FieldsComparable fields object ∧
        ∀ entry ∈ object, ¬Declares fields [] entry.1 → Comparable rest entry.2
  | .array item, value => ∀ items, value = .array items → ∀ value ∈ items, Comparable item value
  | .tuple items, value => ∀ values, value = .array values → ItemsComparable items values
  | .enum none variants, _ => variants ≠ [] ∧ variants.all TsEnumVariant.isUnit = true
  | .enum (some tag) variants, value =>
    variants.all TsEnumVariant.isUnit = false ∧ ∀ object, value = .object object →
      ∀ name, object.lookup tag = some (.string name) → VariantComparable tag name object variants
  | .record key item, value => ∀ object, value = .object object → ∀ entry ∈ object,
      (key = .number → IsPlainKey entry.1) ∧ Comparable item entry.2
  | .union types, value => types ≠ [] ∧ MembersComparable value types
  | .nullable inner, value => value ≠ .null → Comparable inner value
  | _, _ => True

def FieldsComparable : List TsField → Entries → Prop
  | [], _ => True
  | .mk name ty isOptional :: fields, object =>
    (match object.lookup name with
      | some value => Comparable ty value
      | none => name ∉ inheritedNames ∧ (isOptional = false → takesUndefined ty = false)) ∧
    FieldsComparable fields object

def ItemsComparable : List TsType → List Json → Prop
  | ty :: items, value :: values => Comparable ty value ∧ ItemsComparable items values
  | _, _ => True

def VariantComparable (tag name : Str) (object : Entries) : List TsEnumVariant → Prop
  | [] => True
  | .mk own fields none :: variants =>
    if own = name then
      FieldsComparable fields object ∧ ∀ variant ∈ variants, variant.name ≠ name
    else VariantComparable tag name object variants
  | .mk own fields (some rest) :: variants =>
    if own = name then
      FieldsComparable fields object ∧
        (∀ entry ∈ object, ¬Declares fields [tag] entry.1 → Comparable rest entry.2) ∧
        ∀ variant ∈ variants, variant.name ≠ name
    else VariantComparable tag name object variants

def MembersComparable (value : Json) : List TsType → Prop
  | [] => True
  | ty :: types => Comparable ty value ∧ MembersComparable value types

end

section
variable {readNumber : Number → Int32 ⊕ JsFloat} {equalsSource : Str → JsValue → Bool}

@[simp] theorem holds_joinAll (predicates : List Predicate) (scope : Scope) :
    (joinPredicates .all predicates).holds equalsSource scope =
      allHold equalsSource predicates scope := by
  cases predicates <;> rfl

theorem holds_anyOf {predicates : List Predicate} (h : predicates ≠ []) (scope : Scope) :
    (anyOf predicates).holds equalsSource scope = anyHolds equalsSource predicates scope := by
  cases predicates with
  | nil => exact absurd rfl h
  | cons => rfl

theorem allHold_append (before after : List Predicate) (scope : Scope) :
    allHold equalsSource (before ++ after) scope =
      (allHold equalsSource before scope && allHold equalsSource after scope) := by
  induction before with
  | nil => rfl
  | cons predicate before ih =>
    rw [List.cons_append, allHold, allHold, ih, Bool.and_assoc]

theorem anyHolds_iff {predicates : List Predicate} {scope : Scope} :
    anyHolds equalsSource predicates scope = true ↔
      ∃ predicate ∈ predicates, predicate.holds equalsSource scope = true := by
  induction predicates with
  | nil => simp [anyHolds]
  | cons predicate predicates ih => simp [anyHolds, ih]

theorem renderMemberPredicates_ne_nil {types : List TsType} (h : types ≠ []) (e : Operand) :
    renderMemberPredicates types e ≠ [] := by
  cases types with
  | nil => exact absurd rfl h
  | cons ty types =>
    rw [renderMemberPredicates]
    exact List.cons_ne_nil _ _

section
variable {scope : Scope} {e : Operand}

theorem equals_undefined (he : e.eval scope = .undefined) (text : Str) :
    (Predicate.equals e (.string text)).holds equalsSource scope = false := by
  rw [Predicate.holds, he]
  rfl

theorem isRecord_undefined (he : e.eval scope = .undefined) :
    (Predicate.isRecord e).holds equalsSource scope = false := by
  rw [Predicate.holds, he]
  rfl

mutual

theorem holds_undefined (he : e.eval scope = .undefined) :
    (ty : TsType) → takesUndefined ty = false →
      (renderValuePredicate ty e).holds equalsSource scope = false
  | .boolean, _ => by rw [renderValuePredicate, Predicate.holds, he]; rfl
  | .number, _ => by rw [renderValuePredicate, Predicate.holds, he]; rfl
  | .string, _ => by rw [renderValuePredicate, Predicate.holds, he]; rfl
  | .uint8Array, _ => rfl
  | .null, _ => by rw [renderValuePredicate, Predicate.holds, he]; rfl
  | .literal (.string text), _ => equals_undefined he text
  | .literal (.boolean value), _ => by rw [renderValuePredicate, Predicate.holds, he]; rfl
  | .literal (.number text), h => by
    cases hnumber : sourceNumeral text with
    | none =>
      rw [takesUndefined, hnumber] at h
      cases h
    | some number =>
      rw [renderValuePredicate, Predicate.holds, he, strictEquals, hnumber]
      rfl
  | .object fields, _ => by
    rw [renderValuePredicate, holds_joinAll, allHold, isRecord_undefined he, Bool.false_and]
  | .openObject fields rest, _ => by
    rw [renderValuePredicate, holds_joinAll, List.cons_append, allHold, isRecord_undefined he,
      Bool.false_and]
  | .array item, _ => by rw [renderValuePredicate, Predicate.holds, he]; rfl
  | .tuple items, _ => by
    rw [renderValuePredicate, holds_joinAll, allHold, Predicate.holds, he]
    rfl
  | .enum tag variants, h => by
    have hvariants : variants ≠ [] := by
      rintro rfl
      cases h
    rw [renderValuePredicate]
    split_ifs
    · rw [holds_anyOf (by simpa using hvariants)]
      rw [Bool.eq_false_iff, Ne, anyHolds_iff]
      rintro ⟨predicate, hmem, hholds⟩
      obtain ⟨variant, -, rfl⟩ := List.mem_map.mp hmem
      rw [equals_undefined he] at hholds
      cases hholds
    · rw [Predicate.holds, allHold, isRecord_undefined he, Bool.false_and]
  | .record key item, _ => by
    show (Predicate.isRecordOf e _).holds equalsSource scope = false
    rw [Predicate.holds, he]
    rfl
  | .union types, h => by
    obtain ⟨hempty, hmembers⟩ := Bool.or_eq_false_iff.mp h
    rw [renderValuePredicate]
    cases types with
    | nil => cases hempty
    | cons ty types =>
      rw [holds_anyOf (renderMemberPredicates_ne_nil (List.cons_ne_nil ty types) e)]
      exact anyHolds_undefined he (ty :: types) hmembers
  | .nullable inner, h => by
    rw [renderValuePredicate, holds_anyOf (List.cons_ne_nil _ _), anyHolds, anyHolds, anyHolds,
      holds_undefined he inner h, Predicate.holds, he]
    rfl

theorem anyHolds_undefined (he : e.eval scope = .undefined) :
    (types : List TsType) → anyTakesUndefined types = false →
      anyHolds equalsSource (renderMemberPredicates types e) scope = false
  | [], _ => rfl
  | ty :: types, h => by
    obtain ⟨hty, htypes⟩ := Bool.or_eq_false_iff.mp h
    rw [renderMemberPredicates, anyHolds, holds_undefined he ty hty,
      anyHolds_undefined he types htypes]
    rfl

end

end

private theorem inherited_eq_undefined {name : Str} (h : name ∉ inheritedNames) :
    Base.plain.inherited name = .undefined := by
  simp only [inheritedNames, List.mem_cons, not_or] at h
  unfold Base.inherited
  rw [if_neg (by decide), if_neg h.1, if_neg h.2.1, if_neg h.2.2]

theorem lookup_eq_some_iff_mem {object : Entries} (hkeys : (object.map Prod.fst).Nodup)
    {name : Str} {value : Json} : object.lookup name = some value ↔ (name, value) ∈ object := by
  induction object with
  | nil => simp
  | cons entry object ih =>
    rw [List.map_cons, List.nodup_cons] at hkeys
    by_cases hname : name = entry.1
    · have hrest : (name, value) ∉ object := fun hmem =>
        hkeys.1 (hname ▸ List.mem_map_of_mem hmem)
      rw [hname, List.lookup_cons, beq_self_eq_true, List.mem_cons, ← hname, or_iff_left hrest]
      constructor
      · intro h
        exact Prod.ext hname (Option.some.inj h).symm
      · intro h
        exact congrArg some (congrArg Prod.snd h).symm
    · rw [RankedEntries.lookup_cons_of_ne hname, ih hkeys.2, List.mem_cons]
      exact (or_iff_right fun h => hname (congrArg Prod.fst h)).symm

theorem get_parseObject_of_nodup {object : Entries} (hkeys : (object.map Prod.fst).Nodup)
    (name : Str) :
    (parseObject readNumber object).get name =
      ((object.lookup name).map (JsValue.parse readNumber)).getD (Base.plain.inherited name) := by
  rw [get_parseObject]
  have hreverse : object.reverse.lookup name = object.lookup name := by
    apply Option.ext
    intro value
    have hkeys' : (object.reverse.map Prod.fst).Nodup := by
      rw [List.map_reverse]
      exact List.nodup_reverse.mpr hkeys
    rw [lookup_eq_some_iff_mem hkeys, lookup_eq_some_iff_mem hkeys', List.mem_reverse]
  rw [hreverse]

theorem mem_props_parseObject {object : Entries} (hkeys : (object.map Prod.fst).Nodup)
    {prop : JsString × JsValue} :
    prop ∈ (parseObject readNumber object).props ↔
      ∃ entry ∈ object, (JsString.ofText entry.1, JsValue.parse readNumber entry.2) = prop := by
  have hnodup : ((JsValue.parseFields readNumber object).map Prod.fst).Nodup := by
    rw [JsValue.parseFields_eq, List.map_map]
    have hfst : Prod.fst ∘ (fun e : Str × Json =>
        (JsString.ofText e.1, JsValue.parse readNumber e.2)) = JsString.ofText ∘ Prod.fst := rfl
    rw [hfst, ← List.map_map]
    exact hkeys.map fun _ _ => JsString.ofText_injective
  have hperm : List.Perm (RankedEntries.defineAll JsString.rank []
      (JsValue.parseFields readNumber object)) ([] ++ JsValue.parseFields readNumber object) :=
    RankedEntries.perm_defineAll hnodup
  refine hperm.mem_iff.trans ?_
  rw [List.nil_append, JsValue.parseFields_eq, List.mem_map]

theorem parseItems_eq (items : List Json) :
    JsValue.parseItems readNumber items = items.map (JsValue.parse readNumber) := by
  induction items with
  | nil => rfl
  | cons item items ih => rw [JsValue.parseItems, ih, List.map_cons]

private theorem parse_eq_null {value : Json} : JsValue.parse readNumber value = .null ↔ value = .null := by
  cases value with
  | number number =>
    rw [JsValue.parse, JsValue.ofNumber]
    cases readNumber number <;> simp [JsValue.null]
  | _ => simp [JsValue.parse, JsValue.null]

theorem parse_eq_bool {value : Json} {b : Bool} :
    JsValue.parse readNumber value = .primitive (.bool b) ↔ value = .bool b := by
  cases value with
  | number number =>
    rw [JsValue.parse, JsValue.ofNumber]
    cases readNumber number <;> simp
  | _ => simp [JsValue.parse, JsValue.null]

theorem parse_eq_string {value : Json} {string : JsString} :
    JsValue.parse readNumber value = .primitive (.string string) ↔
      ∃ text, value = .string text ∧ .ofText text = string := by
  cases value with
  | number number =>
    rw [JsValue.parse, JsValue.ofNumber]
    cases readNumber number <;> simp
  | _ => simp [JsValue.parse, JsValue.null]

theorem parse_eq_array {value : Json} {parsed : List JsValue} :
    JsValue.parse readNumber value = .array parsed ↔
      ∃ items, value = .array items ∧ items.map (JsValue.parse readNumber) = parsed := by
  cases value with
  | number number =>
    rw [JsValue.parse, JsValue.ofNumber]
    cases readNumber number <;> simp
  | _ => simp [JsValue.parse, JsValue.null, parseItems_eq]

theorem object_of_parse {value : Json} {base : Base} {props : Props}
    (h : JsValue.parse readNumber value = .object base props) :
    ∃ object, value = .object object := by
  cases value with
  | object object => exact ⟨object, rfl⟩
  | number number =>
    rw [JsValue.parse, JsValue.ofNumber] at h
    cases hread : readNumber number <;> rw [hread] at h <;> cases h
  | _ => rw [JsValue.parse] at h; cases h

theorem holds_isRecordOf {object : Entries} (hkeys : (object.map Prod.fst).Nodup) {scope : Scope}
    {e : Operand} (he : e.eval scope = .parse readNumber (.object object)) {predicate : Predicate}
    {P : Str × Json → Prop}
    (hentry : ∀ entry ∈ object, ∀ scope : Scope, scope.key = .ofText entry.1 →
      scope.item = .parse readNumber entry.2 →
        (predicate.holds equalsSource scope = true ↔ P entry)) :
    (Predicate.isRecordOf e predicate).holds equalsSource scope = true ↔ ∀ entry ∈ object, P entry := by
  rw [Predicate.holds, he, JsValue.parse_object]
  show (List.all _ _ = true) ↔ _
  rw [List.all_eq_true]
  constructor
  · intro h entry hmem
    exact (hentry entry hmem _ rfl rfl).mp
      (h _ ((mem_props_parseObject hkeys).mpr ⟨entry, hmem, rfl⟩))
  · intro h prop hprop
    obtain ⟨entry, hmem, rfl⟩ := (mem_props_parseObject hkeys).mp hprop
    exact (hentry entry hmem _ rfl rfl).mpr (h entry hmem)

theorem holds_rest {object : Entries} (hkeys : (object.map Prod.fst).Nodup) {scope : Scope}
    {e : Operand} (he : e.eval scope = .parse readNumber (.object object)) {rest : Predicate}
    (declared : List Str) {P : Json → Prop}
    (hrest : ∀ entry ∈ object, entry.1 ∉ declared → ∀ scope : Scope,
      scope.item = .parse readNumber entry.2 → (rest.holds equalsSource scope = true ↔ P entry.2)) :
    (renderRestPredicate declared rest e).holds equalsSource scope = true ↔
      ∀ entry ∈ object, entry.1 ∉ declared → P entry.2 := by
  refine holds_isRecordOf hkeys he fun entry hentry scope hkey hitem => ?_
  rw [holds_anyOf (by simp), anyHolds_iff]
  by_cases hname : entry.1 ∈ declared
  · refine iff_of_true ⟨.keyEquals entry.1, ?_, ?_⟩ fun h => absurd hname h
    · exact List.mem_append_left _ (List.mem_map_of_mem hname)
    · rw [Predicate.holds, hkey, decide_eq_true_eq]
  · rw [← hrest entry hentry hname scope hitem]
    refine ⟨?_, fun h => ?_⟩
    · rintro ⟨predicate, hmem, hholds⟩ -
      rcases List.mem_append.mp hmem with hmem | hmem
      · obtain ⟨name, hin, rfl⟩ := List.mem_map.mp hmem
        rw [Predicate.holds, hkey, decide_eq_true_eq] at hholds
        exact absurd (JsString.ofText_injective hholds ▸ hin) hname
      · exact List.mem_singleton.mp hmem ▸ hholds
    · exact ⟨rest, by simp, h hname⟩

theorem declares_iff {fields : List TsField} {allowed : List Str} {key : Str} :
    Declares fields allowed key ↔ key ∈ allowed ++ fields.map TsField.name := by
  rw [List.mem_append, List.mem_map]
  exact or_comm

theorem objectMatches_closed {fields : List TsField} {allowed : List Str} {P : Entries → Prop}
    {object : Entries} :
    ObjectMatches ⟨false⟩ fields allowed P none (.object object) ↔ P object := by
  constructor
  · rintro ⟨_, ⟨rfl⟩, h, -⟩
    exact h
  · exact fun h => ⟨object, rfl, h, nofun⟩

theorem objectMatches_open {fields : List TsField} {allowed : List Str} {P : Entries → Prop}
    {Q : Json → Prop} {object : Entries} :
    ObjectMatches ⟨false⟩ fields allowed P (some Q) (.object object) ↔
      P object ∧ ∀ entry ∈ object, entry.1 ∉ allowed ++ fields.map TsField.name → Q entry.2 := by
  simp only [← declares_iff]
  constructor
  · rintro ⟨_, ⟨rfl⟩, h, hrest⟩
    exact ⟨h, hrest⟩
  · exact fun h => ⟨object, rfl, h.1, h.2⟩

private theorem snapshotNumber_eq {number : Number} (h : number ∉ standIns) :
    snapshotNumber number = number.asF64 := by
  cases number with
  | posInt value =>
    simp only [standIns, List.mem_cons, Number.posInt.injEq, List.not_mem_nil, or_false,
      not_or] at h
    rw [snapshotNumber, if_neg h.1, if_neg h.2.1, if_neg h.2.2]
  | negInt value => rfl
  | float negative m => rfl

private theorem parse_ne_undefined (value : Json) : JsValue.parse readNumber value ≠ .undefined := by
  intro h
  have habsent := JsValue.isAbsent_parse readNumber value
  rw [h] at habsent
  cases habsent

theorem isNull_parse (value : Json) {scope : Scope} {e : Operand}
    (he : e.eval scope = .parse readNumber value) :
    (Predicate.isNull e).holds equalsSource scope = true ↔ value = .null := by
  rw [Predicate.holds, he]
  constructor
  · intro h
    split at h
    · exact parse_eq_null.mp ‹_›
    · cases h
  · rintro rfl
    rw [JsValue.parse]
    rfl

private theorem isBoolean_parse (value : Json) {scope : Scope} {e : Operand}
    (he : e.eval scope = .parse readNumber value) :
    (Predicate.isBoolean e).holds equalsSource scope = true ↔ ∃ b, value = .bool b := by
  rw [Predicate.holds, he]
  constructor
  · intro h
    split at h
    · exact ⟨_, parse_eq_bool.mp ‹_›⟩
    · cases h
  · rintro ⟨b, rfl⟩
    rw [JsValue.parse]

private theorem isString_parse (value : Json) {scope : Scope} {e : Operand}
    (he : e.eval scope = .parse readNumber value) :
    (Predicate.isString e).holds equalsSource scope = true ↔ ∃ text, value = .string text := by
  rw [Predicate.holds, he]
  constructor
  · intro h
    split at h
    · obtain ⟨text, hvalue, -⟩ := parse_eq_string.mp ‹_›
      exact ⟨text, hvalue⟩
    · cases h
  · rintro ⟨text, rfl⟩
    rw [JsValue.parse]

private theorem isUndefined_parse (value : Json) {scope : Scope} {e : Operand}
    (he : e.eval scope = .parse readNumber value) :
    (Predicate.isUndefined e).holds equalsSource scope = false := by
  rw [Predicate.holds, he]
  have hne : JsValue.parse readNumber value ≠ .undefined := parse_ne_undefined value
  generalize JsValue.parse readNumber value = v at hne
  split
  · exact absurd rfl hne
  · rfl

theorem isRecord_parse (value : Json) {scope : Scope} {e : Operand}
    (he : e.eval scope = .parse readNumber value) :
    (Predicate.isRecord e).holds equalsSource scope = true ↔ ∃ object, value = .object object := by
  rw [Predicate.holds, he]
  constructor
  · intro h
    split at h
    · exact object_of_parse ‹_›
    · cases h
  · rintro ⟨object, rfl⟩
    rw [JsValue.parse]

theorem isArrayOfLength_parse (value : Json) {length : Nat} {scope : Scope} {e : Operand}
    (he : e.eval scope = .parse readNumber value) :
    (Predicate.isArrayOfLength e length).holds equalsSource scope = true ↔
      ∃ values, value = .array values ∧ values.length = length := by
  rw [Predicate.holds, he]
  constructor
  · intro h
    split at h
    · obtain ⟨values, hvalue, hparsed⟩ := parse_eq_array.mp ‹_›
      refine ⟨values, hvalue, ?_⟩
      rw [← of_decide_eq_true h, ← hparsed, List.length_map]
    · cases h
  · rintro ⟨values, rfl, hlength⟩
    rw [parse_eq_array.mpr ⟨values, rfl, rfl⟩]
    show decide ((values.map _).length = length) = true
    rw [List.length_map, decide_eq_true_eq]
    exact hlength

theorem equals_string {value : Json} {own : Str} :
    strictEquals equalsSource (.parse readNumber value) (.string own) = true ↔
      value = .string own := by
  unfold strictEquals
  constructor
  · intro h
    dsimp only at h
    split at h
    · obtain ⟨text, hvalue, hparsed⟩ := parse_eq_string.mp ‹_›
      rw [hvalue, JsString.ofText_injective (hparsed.trans (of_decide_eq_true h))]
    · cases h
  · rintro rfl
    rw [JsValue.parse]
    exact decide_eq_true rfl

theorem equals_boolean {value : Json} {own : Bool} :
    strictEquals equalsSource (.parse readNumber value) (.boolean own) = true ↔
      value = .bool own := by
  unfold strictEquals
  constructor
  · intro h
    dsimp only at h
    split at h
    · next b hparsed => rw [parse_eq_bool.mp hparsed, of_decide_eq_true h]
    · cases h
  · rintro rfl
    rw [JsValue.parse]
    exact decide_eq_true rfl

theorem eval_field {object : Entries} (hkeys : (object.map Prod.fst).Nodup) {scope : Scope}
    {e : Operand} (he : e.eval scope = .parse readNumber (.object object)) (name : Str) :
    (Operand.field e name).eval scope =
      ((object.lookup name).map (JsValue.parse readNumber)).getD (Base.plain.inherited name) := by
  rw [← get_parseObject_of_nodup hkeys, Operand.eval, he, JsValue.parse_object]
  rfl

theorem holds_tag {object : Entries} (hkeys : (object.map Prod.fst).Nodup) {scope : Scope}
    {e : Operand} (he : e.eval scope = .parse readNumber (.object object)) (tag own : Str) :
    (Predicate.equals (.field e tag) (.string own)).holds equalsSource scope = true ↔
      object.lookup tag = some (.string own) := by
  rw [Predicate.holds, eval_field hkeys he]
  cases object.lookup tag with
  | none =>
    refine iff_of_false ?_ nofun
    rw [Option.map_none, Option.getD_none]
    unfold Base.inherited
    split_ifs <;> exact nofun
  | some value =>
    rw [Option.map_some, Option.getD_some, equals_string]
    exact Option.some_inj.symm

theorem anyHolds_variants {tag : Str} {scope : Scope} {e : Operand} (variants : List TsEnumVariant)
    (h : ∀ variant ∈ variants,
      (Predicate.equals (.field e tag) (.string variant.name)).holds equalsSource scope = false) :
    anyHolds equalsSource (renderVariantPredicates tag variants e) scope = false := by
  induction variants with
  | nil => rfl
  | cons variant variants ih =>
    have hhead := h variant (List.mem_cons_self ..)
    have htail := ih fun variant hmem => h variant (List.mem_cons_of_mem _ hmem)
    obtain ⟨name, fields, rest⟩ := variant
    cases rest with
    | none =>
      rw [renderVariantPredicates, anyHolds, htail, holds_joinAll, allHold, Bool.or_false]
      exact Bool.and_eq_false_iff.mpr (.inl hhead)
    | some rest =>
      rw [renderVariantPredicates, anyHolds, htail, holds_joinAll, List.cons_append, allHold,
        Bool.or_false]
      exact Bool.and_eq_false_iff.mpr (.inl hhead)

theorem anyHolds_later {object : Entries} (hkeys : (object.map Prod.fst).Nodup) {tag name : Str}
    {scope : Scope} {e : Operand} (he : e.eval scope = .parse readNumber (.object object))
    (htag : object.lookup tag = some (.string name)) {variants : List TsEnumVariant}
    (h : ∀ variant ∈ variants, variant.name ≠ name) :
    anyHolds equalsSource (renderVariantPredicates tag variants e) scope = false := by
  refine anyHolds_variants variants fun variant hmem => ?_
  rw [Bool.eq_false_iff, Ne, holds_tag hkeys he, htag, Option.some_inj, Json.string.injEq]
  exact (h variant hmem).symm

private theorem holds_keyPredicate {key : TsRecordKey} {scope : Scope} {name : Str}
    (hkey : scope.key = .ofText name) (hplain : key = .number → IsPlainKey name) :
    (keyPredicate key).holds equalsSource scope = recordKeyMatches key name := by
  cases key with
  | string => rfl
  | number =>
    rw [keyPredicate, Predicate.holds, hkey]
    exact isNumeric_ofText (hplain rfl)

theorem record_iff {value : Json} {P Q : Prop} (hQ : Q → ∃ object, value = .object object)
    (h : ∀ object, value = .object object → (P ↔ Q)) :
    (∃ object, value = .object object) ∧ P ↔ Q := by
  constructor
  · rintro ⟨⟨object, hobject⟩, hP⟩
    exact (h object hobject).mp hP
  · intro hq
    obtain ⟨object, hobject⟩ := hQ hq
    exact ⟨⟨object, hobject⟩, (h object hobject).mpr hq⟩

private theorem renderVariantPredicates_ne_nil {variants : List TsEnumVariant} (h : variants ≠ [])
    (tag : Str) (e : Operand) : renderVariantPredicates tag variants e ≠ [] := by
  cases variants with
  | nil => exact absurd rfl h
  | cons variant variants =>
    obtain ⟨name, fields, rest⟩ := variant
    cases rest <;> rw [renderVariantPredicates] <;> exact List.cons_ne_nil _ _

private theorem holds_isFiniteNumber (hread : ReadsNumbers readNumber) {value : Json}
    (hvalue : WellFormed value) {scope : Scope} {e : Operand}
    (he : e.eval scope = .parse readNumber value) :
    (Predicate.isFiniteNumber e).holds equalsSource scope = true ↔
      ∃ number, value = .number number := by
  rw [Predicate.holds, he]
  cases hvalue with
  | number h =>
    rw [JsValue.parse, hread _ h, Option.any_some]
    exact iff_of_true h ⟨_, rfl⟩
  | _ => exact iff_of_false (by rw [JsValue.parse]; exact Bool.false_ne_true) (by rintro ⟨_, h⟩; cases h)

theorem strictEquals_parse (hread : ReadsNumbers readNumber) {literal : TsLiteral} {value : Json}
    (hvalue : WellFormed value) (h : Comparable (.literal literal) value) :
    strictEquals equalsSource (.parse readNumber value) literal = true ↔
      literalMatches literal value = true := by
  cases literal with
  | string text =>
    rw [equals_string]
    cases value <;> simp [literalMatches]
  | boolean expected =>
    rw [equals_boolean]
    cases value <;> simp [literalMatches]
  | number text =>
    obtain ⟨hsome, hstandIn⟩ := h
    obtain ⟨expected, hexpected⟩ := Option.isSome_iff_exists.mp hsome
    rw [strictEquals, hexpected]
    cases hvalue with
    | @number number hfinite =>
      have hnumber : number ∉ standIns := fun hmem => hstandIn number hmem rfl
      rw [JsValue.parse, hread _ hfinite, literalMatches, literalNumberMatches,
        parseF64_of_sourceNumeral hexpected, snapshotNumber_eq hnumber]
      rfl
    | _ =>
      exact iff_of_false (by rw [JsValue.parse]; exact Bool.false_ne_true) (by rintro ⟨⟩)

theorem holds_isArrayOf {value : Json} {scope : Scope} {e : Operand}
    (he : e.eval scope = .parse readNumber value) {predicate : Predicate} {P : Json → Prop}
    (hitem : ∀ items, value = .array items → ∀ item ∈ items, ∀ scope : Scope,
      scope.item = .parse readNumber item →
        (predicate.holds equalsSource scope = true ↔ P item)) :
    (Predicate.isArrayOf e predicate).holds equalsSource scope = true ↔
      ∃ items, value = .array items ∧ ∀ item ∈ items, P item := by
  rw [Predicate.holds, he]
  constructor
  · intro h
    split at h
    · obtain ⟨items, hvalue, rfl⟩ := parse_eq_array.mp ‹_›
      refine ⟨items, hvalue, fun item hmem => ?_⟩
      exact (hitem items hvalue item hmem { scope with item := .parse readNumber item } rfl).mp
        (List.all_eq_true.mp h _ (List.mem_map_of_mem hmem))
    · cases h
  · rintro ⟨items, hvalue, hall⟩
    rw [parse_eq_array.mpr ⟨items, hvalue, rfl⟩]
    refine List.all_eq_true.mpr fun parsed hparsed => ?_
    obtain ⟨item, hmem, rfl⟩ := List.mem_map.mp hparsed
    exact (hitem items hvalue item hmem _ rfl).mpr (hall item hmem)

theorem holds_tuple {items : List TsType} {value : Json} {scope : Scope} {e : Operand}
    (he : e.eval scope = .parse readNumber value) {P : List Json → Prop}
    (hP : ∀ values, P values → values.length = items.length)
    (hitems : ∀ values, value = .array values → values.length = items.length →
      (allHold equalsSource (renderItemPredicates items 0 e) scope = true ↔ P values)) :
    (renderValuePredicate (.tuple items) e).holds equalsSource scope = true ↔
      ∃ values, value = .array values ∧ P values := by
  rw [renderValuePredicate, holds_joinAll, allHold, Bool.and_eq_true,
    isArrayOfLength_parse value he]
  constructor
  · rintro ⟨⟨values, hvalue, hlength⟩, hall⟩
    exact ⟨values, hvalue, (hitems values hvalue hlength).mp hall⟩
  · rintro ⟨values, hvalue, h⟩
    have hlength : values.length = items.length := hP values h
    exact ⟨⟨values, hvalue, hlength⟩, (hitems values hvalue hlength).mpr h⟩

theorem holds_unitEnum (C : RefReading) {variants : List TsEnumVariant} {value : Json}
    (h : Comparable (.enum none variants) value) {scope : Scope} {e : Operand}
    (he : e.eval scope = .parse readNumber value) :
    (renderValuePredicate (.enum none variants) e).holds equalsSource scope = true ↔
      (TsType.enum none variants).Matches ⟨false⟩ C value := by
  rw [renderValuePredicate, if_pos h.2, holds_anyOf (by simpa using h.1), anyHolds_iff]
  have hname : ∀ name : Str,
      ((Predicate.equals e (.string name)).holds equalsSource scope = true ↔
        value = .string name) := by
    intro name
    rw [Predicate.holds, he]
    exact equals_string
  constructor
  · rintro ⟨predicate, hpredicate, hholds⟩
    obtain ⟨variant, hmem, rfl⟩ := List.mem_map.mp hpredicate
    exact ⟨variant, hmem, (hname variant.name).mp hholds⟩
  · rintro ⟨variant, hmem, hvalue⟩
    exact ⟨_, List.mem_map_of_mem hmem, (hname variant.name).mpr hvalue⟩

theorem holds_taggedEnum (C : RefReading) {tag : Str} {variants : List TsEnumVariant} {value : Json}
    (hvalue : WellFormed value) (hunit : variants.all TsEnumVariant.isUnit = false) {scope : Scope}
    {e : Operand} (he : e.eval scope = .parse readNumber value)
    (hvariants : ∀ object, value = .object object →
      ∀ name, object.lookup tag = some (.string name) →
        (anyHolds equalsSource (renderVariantPredicates tag variants e) scope = true ↔
          VariantMatches ⟨false⟩ C tag name (.object object) variants)) :
    (renderValuePredicate (.enum (some tag) variants) e).holds equalsSource scope = true ↔
      (TsType.enum (some tag) variants).Matches ⟨false⟩ C value := by
  have hne : variants ≠ [] := by
    rintro rfl
    exact Bool.false_ne_true hunit.symm
  rw [renderValuePredicate, if_neg (by rw [hunit]; exact Bool.false_ne_true), Predicate.holds,
    allHold, allHold, allHold, Bool.and_true, Bool.and_eq_true, isRecord_parse value he]
  apply record_iff
  · rintro ⟨object, hobject, -⟩
    exact ⟨object, hobject⟩
  · rintro object rfl
    show (anyOf (renderVariantPredicates tag variants e)).holds equalsSource scope = true ↔ _
    rw [holds_anyOf (renderVariantPredicates_ne_nil hne tag e)]
    constructor
    · intro hall
      -- One of the variants has the name that the tag has.
      obtain ⟨name, hname⟩ : ∃ name, object.lookup tag = some (.string name) := by
        by_contra hnone
        rw [anyHolds_variants variants fun variant _ => ?_] at hall
        · cases hall
        · rw [Bool.eq_false_iff, Ne, holds_tag hvalue.entries.1 he]
          exact fun hname => hnone ⟨_, hname⟩
      exact ⟨object, rfl, name, hname, (hvariants object rfl name hname).mp hall⟩
    · rintro ⟨_, ⟨rfl⟩, name, hname, hall⟩
      exact (hvariants object rfl name hname).mpr hall

theorem holds_record {key : TsRecordKey} {item : Predicate} {P : Json → Prop} {value : Json}
    (hvalue : WellFormed value) {scope : Scope} {e : Operand}
    (he : e.eval scope = .parse readNumber value)
    (hplain : ∀ object, value = .object object → ∀ entry ∈ object,
      key = .number → IsPlainKey entry.1)
    (hitem : ∀ object, value = .object object → ∀ entry ∈ object, ∀ scope : Scope,
      scope.item = .parse readNumber entry.2 →
        (item.holds equalsSource scope = true ↔ P entry.2)) :
    (renderRecordPredicate key item e).holds equalsSource scope = true ↔
      ∃ object, value = .object object ∧
        ∀ entry ∈ object, recordKeyMatches key entry.1 = true ∧ P entry.2 := by
  have hrecord : ∀ object, value = .object object →
      ((renderRecordPredicate key item e).holds equalsSource scope = true ↔
        ∀ entry ∈ object, recordKeyMatches key entry.1 = true ∧ P entry.2) := by
    rintro object rfl
    refine holds_isRecordOf hvalue.entries.1 he fun entry hmem scope hkey hscope => ?_
    rw [Predicate.holds, allHold, allHold, allHold, Bool.and_true, Bool.and_eq_true,
      holds_keyPredicate hkey (hplain object rfl entry hmem),
      hitem object rfl entry hmem scope hscope]
  constructor
  · intro h
    obtain ⟨object, hobject⟩ : ∃ object, value = .object object := by
      rw [renderRecordPredicate, Predicate.holds, he] at h
      split at h
      · exact object_of_parse ‹_›
      · cases h
    exact ⟨object, hobject, (hrecord object hobject).mp h⟩
  · rintro ⟨object, hobject, hall⟩
    exact (hrecord object hobject).mpr hall

mutual

/-- The guard of a type takes a parsed value where the value has the type. -/
theorem holds_render (hread : ReadsNumbers readNumber) (C : RefReading) :
    (ty : TsType) → (value : Json) → WellFormed value → Comparable ty value →
    (scope : Scope) → (e : Operand) → e.eval scope = .parse readNumber value →
      ((renderValuePredicate ty e).holds equalsSource scope = true ↔ ty.Matches ⟨false⟩ C value)
  | .unknown, _, _, _, _, _, _ => iff_of_true rfl trivial
  | .json, _, _, _, _, _, _ => iff_of_true rfl trivial
  | .null, value, _, _, _, _, he => isNull_parse value he
  | .boolean, value, _, _, _, _, he => isBoolean_parse value he
  | .number, _, hvalue, _, _, _, he => holds_isFiniteNumber hread hvalue he
  | .string, value, _, _, _, _, he => isString_parse value he
  | .literal literal, value, hvalue, h, scope, e, he => by
    rw [renderValuePredicate, Predicate.holds, he]
    exact strictEquals_parse hread hvalue h
  | .object fields, value, hvalue, h, scope, e, he => by
    rw [renderValuePredicate, holds_joinAll, allHold, Bool.and_eq_true, isRecord_parse value he]
    apply record_iff
    · rintro ⟨object, rfl, -⟩
      exact ⟨object, rfl⟩
    · rintro object rfl
      obtain ⟨hkeys, hentries⟩ := hvalue.entries
      have hfields := holds_fields hread C fields hkeys hentries (h object rfl) he
      exact hfields.trans objectMatches_closed.symm
  | .openObject fields rest, value, hvalue, h, scope, e, he => by
    rw [renderValuePredicate, holds_joinAll, List.cons_append, allHold, Bool.and_eq_true,
      isRecord_parse value he]
    apply record_iff
    · rintro ⟨object, rfl, -⟩
      exact ⟨object, rfl⟩
    · rintro object rfl
      obtain ⟨hkeys, hentries⟩ := hvalue.entries
      obtain ⟨hfields, hrest⟩ := h object rfl
      rw [allHold_append, Bool.and_eq_true, allHold, allHold, Bool.and_true,
        holds_fields hread C fields hkeys hentries hfields he]
      refine (and_congr_right fun _ => ?_).trans objectMatches_open.symm
      refine holds_rest hkeys he (fields.map TsField.name) fun entry hentry hkey scope hitem => ?_
      exact holds_render hread C rest entry.2 (hentries entry hentry)
        (hrest entry hentry fun hdeclares => hkey (declares_iff.mp hdeclares)) scope .item hitem
  | .array item, value, hvalue, h, scope, e, he =>
    holds_isArrayOf he fun items hitems value hmem scope hscope =>
      holds_render hread C item value ((hitems ▸ hvalue).items value hmem) (h items hitems value hmem)
        scope .item hscope
  | .tuple items, value, hvalue, h, scope, e, he =>
    holds_tuple he (fun _ => ItemsMatch.length) fun values hvalues hlength =>
      holds_items hread C items 0 values values rfl hlength (hvalues ▸ hvalue).items
        (h values hvalues) scope e (he.trans (congrArg _ hvalues))
  | .enum none variants, _, _, h, _, _, he => holds_unitEnum C h he
  | .enum (some tag) variants, value, hvalue, h, scope, e, he =>
    holds_taggedEnum C hvalue h.1 he fun object hobject name hname =>
      holds_variants hread C variants tag name (hobject ▸ hvalue).entries.1
        (hobject ▸ hvalue).entries.2 hname (h.2 object hobject name hname)
        (he.trans (congrArg _ hobject))
  | .record key item, value, hvalue, h, scope, e, he =>
    holds_record hvalue he (fun object hobject entry hmem => (h object hobject entry hmem).1)
      fun object hobject entry hmem scope hscope =>
        holds_render hread C item entry.2 ((hobject ▸ hvalue).entries.2 entry hmem)
          (h object hobject entry hmem).2 scope .item hscope
  | .union types, value, hvalue, h, scope, e, he => by
    rw [renderValuePredicate, holds_anyOf (renderMemberPredicates_ne_nil h.1 e)]
    exact holds_members hread C types value hvalue h.2 scope e he
  | .nullable inner, value, hvalue, h, scope, e, he => by
    rw [renderValuePredicate, holds_anyOf (List.cons_ne_nil _ _), anyHolds, anyHolds, anyHolds,
      Bool.or_false, Bool.or_eq_true, isNull_parse value he]
    by_cases hnull : value = .null
    · exact iff_of_true (.inl hnull) (.inl hnull)
    · exact or_congr_right (holds_render hread C inner value hvalue (h hnull) scope e he)

theorem holds_fields (hread : ReadsNumbers readNumber) (C : RefReading) :
    (fields : List TsField) → {object : Entries} →
    (object.map Prod.fst).Nodup → (∀ entry ∈ object, WellFormed entry.2) →
    FieldsComparable fields object → {scope : Scope} → {e : Operand} →
    e.eval scope = .parse readNumber (.object object) →
      (allHold equalsSource (renderFieldPredicates fields e) scope = true ↔
        FieldsMatch ⟨false⟩ C fields object)
  | [], _, _, _, _, _, _, _ => iff_of_true rfl trivial
  | .mk name ty isOptional :: fields, object, hkeys, hentries, h, scope, e, he => by
    rw [renderFieldPredicates, allHold, Bool.and_eq_true,
      holds_fields hread C fields hkeys hentries h.2 he]
    refine and_congr_left fun _ => ?_
    have heval := eval_field hkeys he name
    have hfield := h.1
    cases hlookup : object.lookup name with
    | some value =>
      rw [hlookup] at heval hfield
      have hmem := (lookup_eq_some_iff_mem hkeys).mp hlookup
      have hvalue := holds_render hread C ty value (hentries _ hmem) hfield scope (.field e name) heval
      refine Iff.trans ?_ hvalue
      cases isOptional with
      | false => rfl
      | true =>
        rw [renderFieldPredicate, if_pos rfl, holds_anyOf (List.cons_ne_nil _ _), anyHolds, anyHolds, anyHolds,
          isUndefined_parse value heval, Bool.false_or, Bool.or_false]
    | none =>
      rw [hlookup] at heval hfield
      have heval : (Operand.field e name).eval scope = .undefined :=
        heval.trans (inherited_eq_undefined hfield.1)
      cases isOptional with
      | false =>
        refine iff_of_false ?_ Bool.false_ne_true
        rw [renderFieldPredicate, if_neg Bool.false_ne_true,
          holds_undefined heval ty (hfield.2 rfl)]
        exact Bool.false_ne_true
      | true =>
        refine iff_of_true ?_ rfl
        rw [renderFieldPredicate, if_pos rfl, holds_anyOf (List.cons_ne_nil _ _), anyHolds,
          Predicate.holds, heval]
        rfl

theorem holds_items (hread : ReadsNumbers readNumber) (C : RefReading) :
    (items : List TsType) → (index : Nat) → (values rest : List Json) →
    values.drop index = rest → rest.length = items.length → (∀ value ∈ rest, WellFormed value) →
    ItemsComparable items rest → (scope : Scope) → (e : Operand) →
    e.eval scope = .parse readNumber (.array values) →
      (allHold equalsSource (renderItemPredicates items index e) scope = true ↔
        ItemsMatch ⟨false⟩ C items rest)
  | [], _, _, [], _, _, _, _, _, _, _ => iff_of_true rfl rfl
  | ty :: items, index, values, value :: rest, hdrop, hlength, hvalues, h, scope, e, he => by
    have hget : values[index]? = some value := by
      rw [← Nat.add_zero index, ← List.getElem?_drop, hdrop]
      rfl
    have hnext : values.drop (index + 1) = rest := by
      rw [← List.drop_drop, hdrop]
      rfl
    have heval : (Operand.index e index).eval scope = .parse readNumber value := by
      rw [Operand.eval, he, JsValue.parse, parseItems_eq]
      show (values.map _).getD index _ = _
      rw [List.getD_eq_getElem?_getD, List.getElem?_map, hget]
      rfl
    have hhead := holds_render hread C ty value (hvalues value (List.mem_cons_self ..)) h.1 scope
      (.index e index) heval
    have htail := holds_items hread C items (index + 1) values rest hnext (Nat.succ.inj hlength)
      (fun value hmem => hvalues value (List.mem_cons_of_mem _ hmem)) h.2 scope e he
    rw [renderItemPredicates, allHold, Bool.and_eq_true, hhead, htail]
    constructor
    · exact fun hall => ⟨value, rest, rfl, hall⟩
    · rintro ⟨_, _, ⟨rfl, rfl⟩, hall⟩
      exact hall

theorem holds_variants (hread : ReadsNumbers readNumber) (C : RefReading) :
    (variants : List TsEnumVariant) → (tag name : Str) → {object : Entries} →
    (object.map Prod.fst).Nodup → (∀ entry ∈ object, WellFormed entry.2) →
    object.lookup tag = some (.string name) → VariantComparable tag name object variants →
    {scope : Scope} → {e : Operand} → e.eval scope = .parse readNumber (.object object) →
      (anyHolds equalsSource (renderVariantPredicates tag variants e) scope = true ↔
        VariantMatches ⟨false⟩ C tag name (.object object) variants)
  | [], _, _, _, _, _, _, _, _, _, _ => iff_of_false nofun id
  | .mk own fields none :: variants, tag, name, object, hkeys, hentries, htag, h, scope, e, he => by
    have hequals : (Predicate.equals (.field e tag) (.string own)).holds equalsSource scope = true ↔
        name = own := by
      rw [holds_tag hkeys he, htag, Option.some_inj, Json.string.injEq]
    unfold VariantComparable at h
    rw [renderVariantPredicates, anyHolds, Bool.or_eq_true, holds_joinAll, allHold,
      Bool.and_eq_true, hequals]
    unfold VariantMatches
    split_ifs at h ⊢ with hown
    · rw [anyHolds_later hkeys he htag h.2, holds_fields hread C fields hkeys hentries h.1 he,
        objectMatches_closed]
      simp [hown]
    · rw [holds_variants hread C variants tag name hkeys hentries htag h he]
      exact or_iff_right fun hall => hown hall.1.symm
  | .mk own fields (some rest) :: variants, tag, name, object, hkeys, hentries, htag, h, scope, e,
      he => by
    have hequals : (Predicate.equals (.field e tag) (.string own)).holds equalsSource scope = true ↔
        name = own := by
      rw [holds_tag hkeys he, htag, Option.some_inj, Json.string.injEq]
    unfold VariantComparable at h
    rw [renderVariantPredicates, anyHolds, Bool.or_eq_true, holds_joinAll, List.cons_append,
      allHold, Bool.and_eq_true, hequals]
    unfold VariantMatches
    split_ifs at h ⊢ with hown
    · obtain ⟨hfields, hrest, hlater⟩ := h
      have hopen := holds_rest hkeys he (tag :: fields.map TsField.name)
        fun entry hentry hkey scope hitem => holds_render hread C rest entry.2 (hentries entry hentry)
          (hrest entry hentry fun hdeclares => hkey (declares_iff.mp hdeclares)) scope .item hitem
      rw [anyHolds_later hkeys he htag hlater, allHold_append, Bool.and_eq_true,
        holds_fields hread C fields hkeys hentries hfields he, allHold, allHold, Bool.and_true, hopen,
        objectMatches_open]
      simp [hown]
    · rw [holds_variants hread C variants tag name hkeys hentries htag h he]
      exact or_iff_right fun hall => hown hall.1.symm

theorem holds_members (hread : ReadsNumbers readNumber) (C : RefReading) :
    (types : List TsType) → (value : Json) → WellFormed value →
    MembersComparable value types → (scope : Scope) → (e : Operand) →
    e.eval scope = .parse readNumber value →
      (anyHolds equalsSource (renderMemberPredicates types e) scope = true ↔
        MemberMatches ⟨false⟩ C value types)
  | [], _, _, _, _, _, _ => iff_of_false nofun id
  | ty :: types, value, hvalue, h, scope, e, he => by
    rw [renderMemberPredicates, anyHolds, Bool.or_eq_true]
    exact or_congr (holds_render hread C ty value hvalue h.1 scope e he)
      (holds_members hread C types value hvalue h.2 scope e he)

end

end

/-- The guard takes what `JSON.parse` makes of a value exactly where lenient validation accepts the
value. -/
def GuardAgrees (readNumber : Number → Int32 ⊕ JsFloat) (equalsSource : Str → JsValue → Bool)
    (printable : Char → Bool) (schema : Schema) (value : Json) : Prop :=
  typeGuard equalsSource schema.tsType (.parse readNumber value) = true ↔
    schema.Accepts printable ⟨false⟩ value

theorem typeGuard_agrees {readNumber : Number → Int32 ⊕ JsFloat} (hread : ReadsNumbers readNumber)
    (equalsSource : Str → JsValue → Bool) (printable : Char → Bool) (schema : Schema)
    {value : Json} (hvalue : WellFormed value) (h : Comparable schema.tsType value) :
    GuardAgrees readNumber equalsSource printable schema value := by
  unfold GuardAgrees
  rw [Schema.accepts_iff]
  exact holds_render hread _ schema.tsType value hvalue h _ .value rfl

/-- Numbers as they are read from a text with a fraction or an exponent. -/
def readFloat : Number → Int32 ⊕ JsFloat
  | .posInt value => .inr (.finite false (.ofNat value))
  | .negInt value => .inr (.finite true (.ofNat value.natAbs))
  | .float negative m => .inr (.finite negative m)

theorem ofDecimal_ofNat (n : Nat) :
    Binary64.ofDecimal (Decimal.ofNat n).digits (Decimal.ofNat n).exponent =
      Binary64.ofDecimal n 0 := by
  have hexponent : (Decimal.ofNat n).exponent = ((stripZeros n).2 : Int) := rfl
  have hnegative : (-((stripZeros n).2 : Int)).toNat = 0 := by omega
  have hdigits : (Decimal.ofNat n).digits * 10 ^ (stripZeros n).2 = n := stripZeros_value n
  unfold Binary64.ofDecimal
  rw [hexponent, hnegative, Int.toNat_natCast, hdigits, Int.toNat_zero, pow_zero, mul_one]
  rfl

private theorem readFloat_reads : ReadsNumbers readFloat := by
  intro number _
  cases number with
  | posInt value =>
    exact congrArg (fun m => some (F64.number false m)) (ofDecimal_ofNat value)
  | negInt value =>
    exact congrArg (fun m => some (F64.number true m)) (ofDecimal_ofNat value.natAbs)
  | float negative m => rfl

/-- A tagged enum with fields: the guard takes a variant's value and validation accepts it. -/
theorem typeGuard_agrees_variant :
    GuardAgrees readFloat (fun _ _ => false) (fun _ => true)
      (.mk "Shape".toList (.enum (some "type".toList)
        [.mk "circle".toList [.mk "radius".toList .number false] none, .mk "dot".toList [] none]) [])
      (.object [("type".toList, .string "circle".toList),
        ("radius".toList, .number (.float false ⟨5, -1, by decide⟩))]) := by
  apply typeGuard_agrees readFloat_reads
  · apply WellFormed.object
    · decide
    · simp only [List.mem_cons, List.not_mem_nil, or_false]
      rintro entry (rfl | rfl)
      · exact .string _
      · exact .number (by decide +kernel)
  · refine ⟨rfl, ?_⟩
    rintro object ⟨rfl⟩ name htag
    obtain rfl : name = "circle".toList := (Json.string.inj (Option.some.inj htag)).symm
    rw [VariantComparable, if_pos rfl]
    refine ⟨⟨trivial, trivial⟩, ?_⟩
    simp only [List.mem_singleton]
    rintro variant rfl
    decide

/-- Elsewhere they differ: a union without members, a field of any type that is not there, an
optional field named as one that objects inherit, a key that is empty, a number that stands in for
`NaN`, a tag with no variant that has fields, fields without a tag, and two variants of a name. -/
theorem typeGuard_differs :
    let object (fields : List TsField) : Schema := .mk [] (.object fields) []
    let enum (tag : Option Str) (variants : List TsEnumVariant) : Schema :=
      .mk [] (.enum tag variants) []
    let agrees := GuardAgrees readFloat (fun _ _ => false) (fun _ => true)
    ¬agrees (.mk [] (.union []) []) .null ∧
    ¬agrees (object [.mk "data".toList .json false]) (.object []) ∧
    ¬agrees (object [.mk "toString".toList .string true]) (.object []) ∧
    ¬agrees (.mk [] (.record .number .json) []) (.object [([], .null)]) ∧
    ¬agrees (.mk [] (.literal (.number "18446744073709551615".toList)) [])
      (.number (.posInt nanStandIn)) ∧
    ¬agrees (enum (some "type".toList) [.mk "a".toList [] none]) (.string "a".toList) ∧
    ¬agrees (enum none [.mk "a".toList [] (some .json)])
      (.object [("type".toList, .string "a".toList)]) ∧
    ¬agrees (enum (some "type".toList)
        [.mk "a".toList [.mk "n".toList .null false] none, .mk "a".toList [] none])
      (.object [("type".toList, .string "a".toList)]) := by
  intro object enum agrees
  simp only [agrees, object, enum, GuardAgrees, Schema.accepts_iff]
  refine ⟨?_, ?_, ?_, ?_, ?_, ?_, ?_, ?_⟩
  · exact fun h => h.mp rfl
  · intro h
    obtain ⟨_, ⟨rfl⟩, h, -⟩ := h.mp rfl
    exact Bool.false_ne_true h.1
  · intro h
    refine Bool.false_ne_true (h.mpr ?_)
    exact ⟨[], rfl, ⟨rfl, trivial⟩, nofun⟩
  · intro h
    obtain ⟨_, ⟨rfl⟩, h⟩ := h.mp (by decide +kernel)
    exact Bool.false_ne_true (h _ (List.mem_cons_self ..)).1
  · intro h
    have hmatches : literalMatches (.number "18446744073709551615".toList)
        (.number (.posInt nanStandIn)) = true := h.mp (by decide +kernel)
    exact absurd hmatches (by decide +kernel)
  · intro h
    obtain ⟨_, h, -⟩ := h.mp (by decide +kernel)
    cases h
  · intro h
    obtain ⟨_, -, h⟩ := h.mp (by decide +kernel)
    cases h
  · intro h
    obtain ⟨_, ⟨rfl⟩, name, htag, h⟩ := h.mp (by decide +kernel)
    obtain rfl : name = "a".toList := (Json.string.inj (Option.some.inj htag)).symm
    rw [VariantMatches, if_pos rfl] at h
    obtain ⟨_, ⟨rfl⟩, h, -⟩ := h
    exact Bool.false_ne_true h.1

end RustTS.Registry
