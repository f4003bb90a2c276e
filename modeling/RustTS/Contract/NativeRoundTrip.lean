import Mathlib.Order.Filter.AtTopBot.Basic
import RustTS.Contract.EnumRoundTrip
import RustTS.Contract.NativeTypes

/-! Values of all native types that are encoded and decoded again. With enough fuel both conversions
end, and the value comes back. -/
namespace RustTS.Contract

open Filter (atTop)
open LawfulOutcome

section Members
variable {T V : Type} {js : QuickJs} {enc : ℕ → T → V → Crossing JsValue}
  {dec : ℕ → T → JsValue → Crossing V}

variable (js enc dec) in
/-- With enough fuel a member is encoded to one value, and comes back from it. -/
def Field.Survives (field : Field T V) (value : V) : Prop :=
  ∃ encoded : JsValue, encoded.isAbsent = false ∧
    ∀ᶠ n in atTop, encoder js (enc n) field value = pure encoded ∧
      decoder (dec n) field encoded = pure value

theorem eventually_forall_mem {X : Type} {P : ℕ → X → Prop} {l : List X}
    (h : ∀ x ∈ l, ∀ᶠ n in atTop, P n x) : ∀ᶠ n in atTop, ∀ x ∈ l, P n x := by
  induction l with
  | nil => exact .of_forall fun _ _ hx => by cases hx
  | cons x l ih =>
    obtain ⟨hx, hl⟩ := List.forall_mem_cons.mp h
    filter_upwards [hx, ih hl] with n hn hrest
    exact List.forall_mem_cons.mpr ⟨hn, hrest⟩

theorem eventually_forall₂ {X Y : Type} {R : ℕ → X → Y → Prop} {l : List X}
    (h : ∀ x ∈ l, ∃ y, ∀ᶠ n in atTop, R n x y) : ∃ ys, ∀ᶠ n in atTop, List.Forall₂ (R n) l ys := by
  induction l with
  | nil => exact ⟨[], .of_forall fun _ => .nil⟩
  | cons x l ih =>
    obtain ⟨⟨y, hy⟩, hl⟩ := List.forall_mem_cons.mp h
    obtain ⟨ys, hys⟩ := ih hl
    refine ⟨y :: ys, ?_⟩
    filter_upwards [hy, hys] with n hn hrest
    exact .cons hn hrest

theorem Field.Survives.carries {field : Field T V} {value : V}
    (h : field.Survives js enc dec value) :
    ∀ᶠ n in atTop, field.Carries js (enc n) (dec n) value := by
  obtain ⟨encoded, hpresent, hencoded⟩ := h
  filter_upwards [hencoded] with n hn encoded' hencoded'
  obtain rfl := pure_inj JsError (hn.1.symm.trans hencoded')
  exact ⟨hpresent, hn.2⟩

theorem Field.Carries.returns {field : Field T V} {value : V} {n : ℕ}
    (h : field.Carries js (enc n) (dec n) value) : field.Returns js (enc n) (dec n) value :=
  fun encoded hencoded => (h encoded hencoded).2

/-- The members of a shape that cross, each with its field. -/
def Shape.crossing : Shape T V → List V → List (Field T V × V)
  | .unit, _ => []
  | .newtype field, values => values.map fun value => (field, value)
  | .tuple fields, values => (fields.zip values).filter fun p => !p.1.skipSerializing
  | .struct fields, values => written fields values

/-- The members of a struct that cross. -/
def StructDef.crossing (struct : StructDef T V) (values : List V) : List (Field T V × V) :=
  match struct.transparent with
  | some forwarded => values[forwarded.val]?.toList.map fun value =>
    (struct.shape.fields.get forwarded, value)
  | none => struct.shape.crossing values

theorem Shape.returns_of_carries {shape : Shape T V} {values : List V} {n : ℕ}
    (h : ∀ p ∈ shape.crossing values, p.1.Carries js (enc n) (dec n) p.2) :
    shape.Returns js (enc n) (dec n) values := by
  cases shape with
  | unit => trivial
  | newtype field =>
    exact fun value hvalue => (h (field, value) (List.mem_map_of_mem hvalue)).returns
  | tuple fields =>
    intro p hp hskip
    exact (h p (List.mem_filter.mpr ⟨hp, by simp [hskip]⟩)).returns
  | struct fields =>
    intro p hp hwrites _
    exact h p (List.mem_filter.mpr ⟨hp, hwrites⟩)

theorem encodeTuple_eq {fields : List (Field T V)} {values : List V} {items new : List JsValue} {n : ℕ}
    (h : List.Forall₂ (fun p item => encoder js (enc n) p.1 p.2 = pure item)
      ((fields.zip values).filter fun p => !p.1.skipSerializing) new) :
    encodeTuple js (enc n) fields values items = pure (items ++ new) := by
  induction fields generalizing values items new with
  | nil =>
    cases h
    cases values <;> simp [encodeTuple]
  | cons field fields ih =>
    cases values with
    | nil =>
      cases h
      simp [encodeTuple]
    | cons value values =>
      rw [List.zip_cons_cons, List.filter_cons] at h
      rw [encodeTuple]
      by_cases hskip : field.skipSerializing = true
      · rw [if_pos hskip]
        simp only [hskip, Bool.not_true, Bool.false_eq_true, if_false] at h
        exact ih h
      · rw [if_neg hskip]
        simp only [hskip, Bool.not_false, if_true] at h
        cases h with
        | @cons _ item _ rest hitem hrest =>
          rw [encodeItem_eq_pure.mpr ⟨item, hitem, rfl⟩, pure_bind, ih hrest, List.append_assoc,
            List.singleton_append]

theorem encodePayload_survives {shape : Shape T V} {values : List V} (rust : Str)
    (hlength : shape.fields.length = values.length) (hsound : shape.Sound)
    (h : ∀ p ∈ shape.crossing values, p.1.Survives js enc dec p.2) :
    ∃ value : JsValue, value.isAbsent = false ∧
      ∀ᶠ n in atTop, encodePayload js (enc n) rust shape values = pure value := by
  cases shape with
  | unit => exact ⟨.null, rfl, .of_forall fun _ => rfl⟩
  | newtype field =>
    obtain ⟨member, rfl⟩ := List.length_eq_one_iff.mp hlength.symm
    obtain ⟨encoded, hpresent, hencoded⟩ := h (field, member) List.mem_cons_self
    exact ⟨encoded, hpresent, hencoded.mono fun n hn => hn.1⟩
  | tuple fields =>
    obtain ⟨items, hitems⟩ := eventually_forall₂ (l := (fields.zip values).filter
        fun p => !p.1.skipSerializing)
      (R := fun n p item => encoder js (enc n) p.1 p.2 = pure item) fun p hp => by
        obtain ⟨encoded, -, hencoded⟩ := h p hp
        exact ⟨encoded, hencoded.mono fun n hn => hn.1⟩
    refine ⟨.array items, rfl, hitems.mono fun n hn => ?_⟩
    rw [encodePayload, encodeTuple_eq hn, pure_bind, List.nil_append]
  | struct fields =>
    obtain ⟨properties, hproperties⟩ := eventually_forall₂ (l := written fields values)
      (R := fun n => IsProperty js (enc n)) fun p hp => by
        obtain ⟨encoded, -, hencoded⟩ := h p hp
        exact ⟨(.ofText p.1.name.serialize, encoded), hencoded.mono fun n hn => ⟨rfl, hn.1⟩⟩
    refine ⟨.object .plain (RankedEntries.defineAll JsString.rank [] properties), rfl,
      hproperties.mono fun n hn => ?_⟩
    rw [encodePayload, (encodeFieldsInto_eq_pure rust [] hsound.flat).mpr ⟨properties, hn, rfl⟩, pure_bind]

/-- A struct whose crossing members survive, and whose others are kept, comes back. -/
theorem StructDef.survives {struct : StructDef T V} {values : List V}
    (hlength : struct.shape.fields.length = values.length)
    (hsound : struct.transparent = none → struct.shape.Sound)
    (h : ∀ p ∈ struct.crossing values, p.1.Survives js enc dec p.2)
    (hkeeps : ∀ᶠ n in atTop, struct.Keeps (dec n) values) :
    ∃ value : JsValue, value.isAbsent = false ∧ ∀ᶠ n in atTop,
      struct.encodeBody js (enc n) values = pure value ∧ struct.decodeBody (dec n) value = pure values := by
  have hcarries := eventually_forall_mem fun p hp => (h p hp).carries
  have hreturns : ∀ᶠ n in atTop, struct.Returns js (enc n) (dec n) values := by
    refine hcarries.mono fun n hn => ?_
    unfold StructDef.Returns
    unfold StructDef.crossing at hn
    cases htransparent : struct.transparent with
    | none =>
      rw [htransparent] at hn
      exact ⟨hsound htransparent, Shape.returns_of_carries hn⟩
    | some forwarded =>
      rw [htransparent] at hn
      intro value hvalue
      exact (hn _ (List.mem_map_of_mem (Option.mem_toList.mpr hvalue))).returns
  have hencoded : ∃ value : JsValue, value.isAbsent = false ∧
      ∀ᶠ n in atTop, struct.encodeBody js (enc n) values = pure value := by
    unfold StructDef.encodeBody
    unfold StructDef.crossing at h
    cases htransparent : struct.transparent with
    | none =>
      rw [htransparent] at h
      exact encodePayload_survives struct.rust hlength (hsound htransparent) h
    | some forwarded =>
      rw [htransparent] at h
      have hlt : forwarded.val < values.length := hlength ▸ forwarded.isLt
      have hmember : values[forwarded.val]? = some values[forwarded.val] :=
        List.getElem?_eq_getElem hlt
      dsimp only at h
      rw [hmember] at h
      obtain ⟨encoded, hpresent, hencoded⟩ := h _ List.mem_cons_self
      refine ⟨encoded, hpresent, hencoded.mono fun n hn => ?_⟩
      dsimp only
      rw [hmember]
      exact hn.1
  obtain ⟨value, hpresent, hvalue⟩ := hencoded
  refine ⟨value, hpresent, ?_⟩
  filter_upwards [hvalue, hreturns, hkeeps] with n hn hreturn hkeep
  have hback := StructDef.decodeBody_encoded js (enc n) (dec n) struct values value hlength hreturn hn
  exact ⟨hn, hback.mpr hkeep⟩

/-- The member of an internally tagged newtype is encoded to an object that leaves the tag out. -/
def EnumDef.MergesMember (js : QuickJs) (enc : ℕ → T → V → Crossing JsValue) (enum : EnumDef T V)
    (variant : Variant T V) (values : List V) : Prop :=
  ∀ tag field, enum.tagging = .internal tag → variant.shape = .newtype field →
    ∀ value ∈ values, ∀ᶠ n in atTop, ∀ encoded, encoder js (enc n) field value = pure encoded →
      ∃ props, encoded = .object .plain props ∧ RankedEntries.Ranked JsString.rank props ∧
        ∀ e ∈ props, ∃ text, e.1 = JsString.ofText text ∧ text ≠ tag

/-- A variant whose members survive is encoded. -/
theorem EnumDef.encodeVariant_survives {enum : EnumDef T V} {variant : Variant T V} {values : List V}
    (hlength : variant.shape.fields.length = values.length) (hsound : variant.shape.Sound)
    (h : ∀ p ∈ variant.shape.crossing values, p.1.Survives js enc dec p.2)
    (hmerges : enum.MergesMember js enc variant values)
    (htells : enum.tagging ≠ .untagged → ∃ n value, enum.Tells (dec n) variant value) :
    ∃ value : JsValue, value.isAbsent = false ∧
      ∀ᶠ n in atTop, enum.encodeVariant js (enc n) variant values = pure value := by
  unfold EnumDef.encodeVariant
  unfold EnumDef.MergesMember at hmerges
  unfold EnumDef.Tells at htells
  cases htagging : enum.tagging with
  | external =>
    rw [htagging] at htells
    obtain ⟨_, _, -, hproto⟩ := htells (by simp)
    obtain ⟨payload, -, hpayload⟩ := encodePayload_survives enum.rust hlength hsound h
    cases hshape : variant.shape with
    | unit => exact ⟨_, rfl, .of_forall fun _ => rfl⟩
    | newtype | tuple | struct =>
      rw [hshape] at hpayload
      refine ⟨.object .plain [(.ofText variant.name.serialize, payload)], rfl,
        hpayload.mono fun n hn => ?_⟩
      dsimp only
      rw [hn, pure_bind, (setProperty_eq_pure hproto).mpr rfl, pure_bind]
      rfl
  | internal tag =>
    rw [htagging] at htells
    obtain ⟨_, _, -, hproto, hleaves⟩ := htells (by simp)
    dsimp only
    simp only [taggedObject_eq_pure hproto]
    cases hshape : variant.shape with
    | unit => exact ⟨.object .plain [tagEntry tag variant.name.serialize], rfl, .of_forall fun _ =>
        ⟨_, by cases values <;> exact pure_bind _ _, rfl⟩⟩
    | newtype field =>
      rw [hshape] at hlength h
      obtain ⟨member, rfl⟩ := List.length_eq_one_iff.mp hlength.symm
      obtain ⟨encoded, -, hencoded⟩ := h (field, member) List.mem_cons_self
      have hobject := hmerges tag field htagging hshape member List.mem_cons_self
      obtain ⟨n, hn, hmerge⟩ := (hencoded.and hobject).exists
      obtain ⟨props, rfl, -, -⟩ := hmerge encoded hn.1
      refine ⟨.object .plain (RankedEntries.defineAll JsString.rank
        [tagEntry tag variant.name.serialize] props), rfl, hencoded.mono fun n hn => ?_⟩
      refine ⟨⟨.plain, RankedEntries.defineAll JsString.rank
        [tagEntry tag variant.name.serialize] props⟩, ?_, rfl⟩
      dsimp only
      rw [hn.1, pure_bind, mergeObject, pure_bind]
    | tuple fields =>
      rw [hshape] at hleaves
      exact absurd hleaves id
    | struct fields =>
      rw [hshape] at h hsound
      obtain ⟨properties, hproperties⟩ := eventually_forall₂ (l := written fields values)
        (R := fun n => IsProperty js (enc n)) fun p hp => by
          obtain ⟨encoded, -, hencoded⟩ := h p hp
          exact ⟨(.ofText p.1.name.serialize, encoded), hencoded.mono fun n hn => ⟨rfl, hn.1⟩⟩
      refine ⟨.object .plain (RankedEntries.defineAll JsString.rank
        [tagEntry tag variant.name.serialize] properties), rfl, hproperties.mono fun n hn => ?_⟩
      refine ⟨⟨.plain, RankedEntries.defineAll JsString.rank
        [tagEntry tag variant.name.serialize] properties⟩, ?_, rfl⟩
      have hfields := (encodeFieldsInto_eq_pure enum.rust
        [tagEntry tag variant.name.serialize] hsound.flat).mpr ⟨properties, hn, rfl⟩
      dsimp only
      show (encodeFieldsInto js (enc n) enum.rust fields values _ >>= _) = _
      rw [hfields, pure_bind]
  | adjacent tag content =>
    rw [htagging] at htells
    obtain ⟨_, _, -, hproto, hcontent, -⟩ := htells (by simp)
    obtain ⟨payload, -, hpayload⟩ := encodePayload_survives enum.rust hlength hsound h
    dsimp only
    simp only [taggedObject_eq_pure hproto]
    cases hshape : variant.shape with
    | unit => exact ⟨.object .plain [tagEntry tag variant.name.serialize], rfl, .of_forall fun _ =>
        ⟨_, rfl, rfl⟩⟩
    | newtype | tuple | struct =>
      rw [hshape] at hpayload
      refine ⟨(contentObject tag content variant.name.serialize payload).toValue, rfl,
        hpayload.mono fun n hn => ⟨contentObject tag content variant.name.serialize payload, ?_, rfl⟩⟩
      dsimp only
      rw [hn, pure_bind]
      exact (setProperty_eq_pure hcontent).mpr rfl
  | untagged => exact encodePayload_survives enum.rust hlength hsound h

/-- A variant whose crossing members survive, and whose others are kept, comes back. -/
theorem EnumDef.survives {enum : EnumDef T V} {variant : Variant T V} {values : List V}
    (hskip : variant.skipSerializing = false)
    (hlength : variant.shape.fields.length = values.length) (hsound : variant.shape.Sound)
    (h : ∀ p ∈ variant.shape.crossing values, p.1.Survives js enc dec p.2)
    (hmerges : enum.MergesMember js enc variant values)
    (hkeeps : ∀ᶠ n in atTop, variant.shape.Keeps (dec n) enum.scope values)
    (htells : ∀ᶠ n in atTop, ∀ value, (enum.tagging = .untagged →
      enum.encodeVariant js (enc n) variant values = pure value) → enum.Tells (dec n) variant value) :
    ∃ value : JsValue, value.isAbsent = false ∧ ∀ᶠ n in atTop,
      enum.encodeBody js (enc n) variant values = pure value ∧
      enum.decodeBody (enum.decodeHelper (dec n)) value = pure (variant.ident, values) := by
  have hcarries := eventually_forall_mem fun p hp => (h p hp).carries
  have hnamed : enum.tagging ≠ .untagged → ∃ n value, enum.Tells (dec n) variant value := by
    intro htagging
    obtain ⟨n, hn⟩ := htells.exists
    exact ⟨n, .null, hn .null fun huntagged => absurd huntagged htagging⟩
  obtain ⟨value, hpresent, hvalue⟩ :=
    EnumDef.encodeVariant_survives hlength hsound h hmerges hnamed
  have hmember : ∀ᶠ n in atTop, ∀ tag field, enum.tagging = .internal tag →
      variant.shape = .newtype field → ∀ value ∈ values, field.Merges js (enc n) (dec n) tag value := by
    cases htagging : enum.tagging with
    | internal tag =>
      cases hshape : variant.shape with
      | newtype field =>
        have hmerge := eventually_forall_mem (hmerges tag field htagging hshape)
        rw [hshape] at hcarries
        filter_upwards [hmerge, hcarries] with n hn hcarry
        rintro _ _ ⟨⟩ ⟨⟩ member hmember encoded hencoded
        obtain ⟨props, rfl, hranked, hkeys⟩ := hn member hmember encoded hencoded
        exact ⟨props, rfl, hranked, hkeys,
          (hcarry (field, member) (List.mem_map_of_mem hmember) _ hencoded).2⟩
      | unit | tuple | struct => exact .of_forall fun _ _ _ _ hnewtype => by cases hnewtype
    | external | adjacent | untagged => exact .of_forall fun _ _ _ hinternal => by cases hinternal
  refine ⟨value, hpresent, ?_⟩
  filter_upwards [hvalue, hcarries, hmember, hkeeps, htells] with n hn hcarry hmerge hkeep htell
  have hreturns : enum.Returns js (enc n) (dec n) variant values := by
    unfold EnumDef.Returns
    cases hshape : variant.shape with
    | newtype field =>
      rw [hshape] at hcarry
      cases htagging : enum.tagging with
      | internal tag => exact hmerge tag field htagging hshape
      | adjacent => exact fun member hmember => hcarry (field, member) (List.mem_map_of_mem hmember)
      | external | untagged => exact ⟨trivial, Shape.returns_of_carries hcarry⟩
    | unit | tuple | struct =>
      rw [hshape] at hcarry hsound
      cases enum.tagging <;> exact ⟨hsound, Shape.returns_of_carries hcarry⟩
  have hencoded : enum.encodeBody js (enc n) variant values = pure value := by
    unfold EnumDef.encodeBody
    rw [hskip, if_neg Bool.false_ne_true, hn]
  have hback := EnumDef.decodeBody_encoded js (enc n) (dec n) enum variant values value hlength
    hreturns (htell value fun _ => hn) hencoded
  exact ⟨hencoded, hback.1 hkeep⟩

end Members

/-- The text of a key. -/
def MapKey.text : MapKey → Str
  | .string text => text
  | .integer value => intText value

/-- The keys of a type. -/
def MapKeyType.Holds : MapKeyType → MapKey → Prop
  | .string, .string _ => True
  | .integer K, .integer value => K.min ≤ value ∧ value ≤ K.max
  | _, _ => False

theorem MapKeyType.Holds.withText {key : MapKeyType} {name : MapKey} (h : key.Holds name) :
    key.withText name = some name.text := by
  cases key with
  | string =>
    cases name with
    | string text => rfl
    | integer value => exact absurd h id
  | integer K =>
    cases name with
    | string text => exact absurd h id
    | integer value =>
      have hvalue : K.ofInt value = some ⟨value, h⟩ := IntegerType.ofInt_eq_some.mpr rfl
      rw [MapKeyType.withText, hvalue, Option.bind_some, IntegerType.withText_eq]
      rfl

theorem MapKeyType.Holds.decodeKey {key : MapKeyType} {name : MapKey} (h : key.Holds name)
    (printable : Char → Bool) (rust : Str) : key.decodeKey printable name.text rust = .ok name := by
  cases key with
  | string =>
    cases name with
    | string text => rfl
    | integer value => exact absurd h id
  | integer K =>
    cases name with
    | string text => exact absurd h id
    | integer value =>
      have htext : K.fromText (intText value) = .ok ⟨value, h⟩ :=
        IntegerType.fromText_intText ⟨value, h⟩
      rw [MapKeyType.decodeKey, MapKey.text, IntegerType.decodeKey, htext]
      rfl

private theorem MapKeyType.Holds.text_injective {key : MapKeyType} {name other : MapKey} (h : key.Holds name)
    (hother : key.Holds other) (htext : name.text = other.text) : name = other := by
  have hname := h.decodeKey (fun _ => true) []
  rw [htext, hother.decodeKey] at hname
  exact (Except.ok.inj hname).symm

theorem floatValue_asNumber {newNumber : JsFloat → Primitive} (hnew : MakesNumbers newNumber)
    (value : JsFloat) : asNumber (.primitive (floatValue newNumber value)) = some value := by
  unfold floatValue
  split_ifs with hzero
  · rfl
  · by_cases hint : ∃ small : Int32, value.eq (.ofInt small.toInt) = true
    · obtain ⟨small, hsmall⟩ := hint
      rw [hnew.int value small hsmall]
      show some (JsFloat.ofInt small.toInt) = some value
      congr 1
      cases value with
      | nan | infinity => simp [JsFloat.eq, JsFloat.ofInt] at hsmall
      | finite negative m =>
        simp only [JsFloat.ofInt, JsFloat.eq, decide_eq_true_eq] at hsmall
        obtain ⟨rfl, hsign⟩ := hsmall
        rw [JsFloat.ofInt]
        congr 1
        rcases hsign with hsign | hdigits
        · exact hsign.symm
        · have hvalue := stripZeros_value small.toInt.natAbs
          have hstrip : (stripZeros small.toInt.natAbs).1 = 0 := hdigits
          rw [hstrip] at hvalue
          have hsmall : small.toInt = 0 := by omega
          rw [hsmall] at hzero ⊢
          cases negative with
          | false => rfl
          | true =>
            have hnegative : (JsFloat.finite true (.ofNat (Int.natAbs 0))).isNegativeZero = true := by
              simp [JsFloat.isNegativeZero, JsFloat.eq, JsFloat.zero, JsFloat.isSignNegative,
                Decimal.ofNat, stripZeros]
            exact absurd hnegative hzero
    · rw [hnew.float]
      · rfl
      · intro small
        rw [← Bool.not_eq_true]
        exact fun h => hint ⟨small, h⟩

private theorem decodeInteger_encodeInteger {K : IntegerType} {value : Int} {rust : Str} {p : Primitive}
    (h : K.min ≤ value ∧ value ≤ K.max) (hencoded : IntegerType.encodeInteger value rust = .ok p) :
    K.decodeInteger (.primitive p) = .ok ⟨value, h⟩ := by
  have hvalue : K.ofInt value = some ⟨value, h⟩ := IntegerType.ofInt_eq_some.mpr rfl
  unfold IntegerType.decodeInteger
  rw [(IntegerType.encodeInteger_eq_ok hencoded).2, Option.bind_some, hvalue]
  rfl

theorem decodeString_ofText (text rust : Str) :
    decodeString (.primitive (.string (.ofText text))) rust = pure text :=
  jsText_eq_pure.mpr (JsString.toText_ofText text)

section Sequences
variable {natives : Natives} {n : ℕ}

/-- A value with its type is encoded to a value and comes back from it. -/
def CodedAs (natives : Natives) (n : ℕ) (typed : NativeType × NativeValue) (value : JsValue) : Prop :=
  encodeJs natives n typed.1 typed.2 = pure value ∧ decodeJs natives n typed.1 value = pure typed.2

theorem encodeItemsFrom_eq {typed : List (NativeType × NativeValue)} {values : List JsValue}
    (h : List.Forall₂ (CodedAs natives n) typed values) (index : Nat) :
    encodeItemsFrom index (typed.map fun p => encodeJs natives n p.1 p.2) = pure values := by
  induction h generalizing index with
  | nil => rfl
  | cons hp _ ih => rw [List.map_cons, encodeItemsFrom, mapErr_eq_pure.mpr hp.1, pure_bind, ih, pure_bind]

theorem decodeItemsFrom_eq {typed : List (NativeType × NativeValue)} {values : List JsValue}
    (h : List.Forall₂ (CodedAs natives n) typed values) (before : List JsValue) :
    decodeItemsFrom (before ++ values) before.length
      (typed.map fun p => decodeJs natives n p.1) = pure (typed.map Prod.snd) := by
  induction h generalizing before with
  | nil => rfl
  | @cons p value typed values hp _ ih =>
    have hget : (before ++ value :: values).getD before.length .undefined = value := by simp
    have hitem : decodeItem (before ++ value :: values) before.length (decodeJs natives n p.1) =
        pure p.2 := by
      unfold decodeItem
      rw [hget]
      exact mapErr_eq_pure.mpr hp.2
    have hrest := ih (before ++ [value])
    rw [List.append_assoc, List.singleton_append, List.length_append, List.length_singleton] at hrest
    rw [List.map_cons, decodeItemsFrom, hitem, pure_bind, hrest, pure_bind, List.map_cons]

theorem decodeItemsFrom_all {typed : List (NativeType × NativeValue)} {values : List JsValue}
    (h : List.Forall₂ (CodedAs natives n) typed values) :
    decodeItemsFrom values 0 (typed.map fun p => decodeJs natives n p.1) =
      pure (typed.map Prod.snd) := decodeItemsFrom_eq h []

end Sequences

section Maps
variable {natives : Natives} {key : MapKeyType} {encode : NativeValue → Crossing JsValue}
  {decode : JsValue → Crossing NativeValue}

/-- A property is what an entry of a map is encoded to, and comes back from. -/
def IsMapProperty (encode : NativeValue → Crossing JsValue) (decode : JsValue → Crossing NativeValue)
    (property : JsString × JsValue) (entry : MapKey × NativeValue) : Prop :=
  property.1 = .ofText entry.1.text ∧ property.2.isAbsent = false ∧
    encode entry.2 = pure property.2 ∧ decode property.2 = pure entry.2

theorem encodeEntries_eq {entries : List (MapKey × NativeValue)} {properties : Props}
    (h : List.Forall₂ (IsMapProperty encode decode) properties entries)
    (hkeys : ∀ e ∈ entries, key.Holds e.1) (object : Props) :
    encodeEntries key encode entries object =
      pure (RankedEntries.defineAll JsString.rank object properties) := by
  induction h generalizing object with
  | nil => rfl
  | @cons property entry properties entries hp _ ih =>
    obtain ⟨name, value⟩ := entry
    obtain ⟨key, encoded⟩ := property
    obtain ⟨rfl, -, hencoded, -⟩ := hp
    obtain ⟨hkey, hrest⟩ := List.forall_mem_cons.mp hkeys
    rw [encodeEntries, hkey.withText]
    dsimp only
    rw [mapErr_eq_pure.mpr hencoded, pure_bind, ih hrest]
    rfl

theorem decodeMapEntries_eq {entries : List (MapKey × NativeValue)} {properties : Props} {rust : Str}
    (h : List.Forall₂ (IsMapProperty encode decode) properties entries)
    (hkeys : ∀ e ∈ entries, key.Holds e.1) (map : List (MapKey × NativeValue)) :
    decodeMapEntries natives key rust decode properties map =
      pure (SortedEntries.insertAll map entries) := by
  induction h generalizing map with
  | nil => rfl
  | @cons property entry properties entries hp _ ih =>
    obtain ⟨name, value⟩ := entry
    obtain ⟨text, encoded⟩ := property
    obtain ⟨rfl, hpresent, -, hdecoded⟩ := hp
    obtain ⟨hkey, hrest⟩ := List.forall_mem_cons.mp hkeys
    have htext : (MonadExcept.ofExcept (stringText (JsString.ofText name.text)) : Crossing Str) =
        pure name.text := by
      rw [ofExcept_eq_pure, stringText, JsString.toText_ofText]
    have hname : (MonadExcept.ofExcept (key.decodeKey natives.printable name.text rust) :
        Crossing MapKey) = pure name := ofExcept_eq_pure.mpr (hkey.decodeKey _ _)
    rw [decodeMapEntries]
    simp only [] at hpresent
    rw [hpresent, if_neg Bool.false_ne_true, htext, pure_bind, mapErr_eq_pure.mpr hdecoded, pure_bind,
      hname, pure_bind, ih hrest]
    rfl

/-- A map comes back, whatever the order its entries are written in. -/
theorem decodeMap_encodeMap {entries listed : List (MapKey × NativeValue)} {properties : Props}
    (rust : Str) (hsorted : SortedEntries.Sorted entries) (hlisted : listed.Perm entries)
    (hkeys : ∀ e ∈ entries, key.Holds e.1)
    (h : List.Forall₂ (IsMapProperty encode decode) properties listed) :
    encodeMap key encode listed =
        pure (.object .plain (RankedEntries.defineAll JsString.rank [] properties)) ∧
      decodeMap natives key rust decode
        (.object .plain (RankedEntries.defineAll JsString.rank [] properties)) = pure (.map entries) := by
  have hholds : ∀ e ∈ listed, key.Holds e.1 := fun e he => hkeys e (hlisted.subset he)
  have hnodup : (properties.map Prod.fst).Nodup := by
    have hnames : (listed.map Prod.fst).Nodup := by
      rw [(hlisted.map Prod.fst).nodup_iff, List.Nodup, List.pairwise_map]
      exact hsorted.imp fun hlt => ne_of_lt hlt
    have htexts : properties.map Prod.fst = listed.map fun e => JsString.ofText e.1.text := by
      clear hlisted hholds hnames
      induction h with
      | nil => rfl
      | cons hp _ ih => rw [List.map_cons, List.map_cons, ih, hp.1]
    rw [htexts, List.Nodup, List.pairwise_map]
    rw [List.Nodup, List.pairwise_map] at hnames
    refine hnames.imp_of_mem fun {a b} ha hb hne heq => hne ?_
    exact (hholds a ha).text_injective (hholds b hb) (JsString.ofText_injective heq)
  constructor
  · unfold encodeMap
    rw [encodeEntries_eq h hholds, pure_bind]
  · have hperm : (RankedEntries.defineAll JsString.rank [] properties).Perm properties :=
      RankedEntries.perm_defineAll hnodup
    obtain ⟨read, hread, hsame⟩ := List.perm_comp_forall₂ hperm h
    have hkept : ∀ e ∈ read, key.Holds e.1 := fun e he => hholds e (hsame.subset he)
    unfold decodeMap
    rw [expectObject, pure_bind]
    dsimp only
    rw [decodeMapEntries_eq hread hkept, pure_bind,
      SortedEntries.insertAll_eq hsorted (hsame.trans hlisted)]

end Maps

/-- Whether a field crosses through the codec of its type. -/
def Field.isNative {T V : Type} (field : Field T V) : Bool :=
  match field.codec with
  | .native => true
  | _ => false

/-- The values of a type that come back: integers within the safe range, no `Some` of a value that
is itself `null`, keys of the map's type, and members of derived types that their codecs return or
that decoding gives. -/
inductive Crosses (natives : Natives) : NativeType → NativeValue → Prop
  | bool (value : Bool) : Crosses natives .bool (.bool value)
  | unit : Crosses natives .unit .unit
  | string (value : Str) : Crosses natives .string (.string value)
  | char (value : Char) : Crosses natives .char (.char value)
  | integer {K : IntegerType} {value : Int} (hrange : K.min ≤ value ∧ value ≤ K.max)
    (hsafe : value.natAbs ≤ maxSafeInteger) : Crosses natives (.integer K) (.integer value)
  | float (value : JsFloat) : Crosses natives .float (.float value)
  | none (inner : NativeType) : Crosses natives (.option inner) .none
  | some {inner : NativeType} {value : NativeValue} (h : Crosses natives inner value)
    (hnull : ∀ fuel, encodeJs natives fuel inner value ≠ pure .null) :
    Crosses natives (.option inner) (.some value)
  | vec {inner : NativeType} {items : List NativeValue}
    (h : ∀ item ∈ items, Crosses natives inner item) : Crosses natives (.vec inner) (.list items)
  | array {inner : NativeType} {items : List NativeValue}
    (h : ∀ item ∈ items, Crosses natives inner item) :
    Crosses natives (.array items.length inner) (.list items)
  | tuple {types : List NativeType} {items : List NativeValue} (hlength : types.length = items.length)
    (h : ∀ p ∈ types.zip items, Crosses natives p.1 p.2) : Crosses natives (.tuple types) (.list items)
  | hashMap {key : MapKeyType} {inner : NativeType} {entries : List (MapKey × NativeValue)}
    (hsorted : SortedEntries.Sorted entries) (hkeys : ∀ e ∈ entries, key.Holds e.1)
    (h : ∀ e ∈ entries, Crosses natives inner e.2) :
    Crosses natives (.hashMap key inner) (.map entries)
  | btreeMap {key : MapKeyType} {inner : NativeType} {entries : List (MapKey × NativeValue)}
    (hsorted : SortedEntries.Sorted entries) (hkeys : ∀ e ∈ entries, key.Holds e.1)
    (h : ∀ e ∈ entries, Crosses natives inner e.2) :
    Crosses natives (.btreeMap key inner) (.map entries)
  | struct {name : Str} {struct : StructDef NativeType NativeValue} {members : List NativeValue}
    (hname : natives.derived name = Option.some (.struct struct))
    (hlength : struct.shape.fields.length = members.length)
    (hsound : struct.transparent = Option.none → struct.shape.Sound)
    (h : ∀ p ∈ struct.crossing members, p.1.isNative = true → Crosses natives p.1.ty p.2)
    (hcodecs : ∀ p ∈ struct.crossing members, p.1.isNative = false →
      p.1.Survives natives.toQuickJs (encodeJs natives) (decodeJs natives) p.2)
    (hkeeps : ∀ᶠ n in atTop, struct.Keeps (decodeJs natives n) members) :
    Crosses natives (.derived name) (.struct members)
  | variant {name : Str} {enum : EnumDef NativeType NativeValue}
    {variant : Variant NativeType NativeValue} {members : List NativeValue}
    (hname : natives.derived name = Option.some (.enum enum))
    (hfind : enum.variants.find? (fun other => other.ident = variant.ident) = Option.some variant)
    (hskip : variant.skipSerializing = false)
    (hlength : variant.shape.fields.length = members.length) (hsound : variant.shape.Sound)
    (h : ∀ p ∈ variant.shape.crossing members, p.1.isNative = true → Crosses natives p.1.ty p.2)
    (hcodecs : ∀ p ∈ variant.shape.crossing members, p.1.isNative = false →
      p.1.Survives natives.toQuickJs (encodeJs natives) (decodeJs natives) p.2)
    (hmerges : enum.MergesMember natives.toQuickJs (encodeJs natives) variant members)
    (hkeeps : ∀ᶠ n in atTop, variant.shape.Keeps (decodeJs natives n) enum.scope members)
    (htells : ∀ᶠ n in atTop, ∀ value, (enum.tagging = .untagged →
      enum.encodeVariant natives.toQuickJs (encodeJs natives n) variant members = pure value) →
      enum.Tells (decodeJs natives n) variant value) :
    Crosses natives (.derived name) (.variant variant.ident members)

section All
variable {natives : Natives}

/-- With enough fuel a value is encoded to one value, and comes back from it. -/
def ComesBack (natives : Natives) (ty : NativeType) (value : NativeValue) : Prop :=
  ∃ encoded : JsValue, encoded.isAbsent = false ∧
    ∀ᶠ n in atTop, encodeJs natives n ty value = pure encoded ∧
      decodeJs natives n ty encoded = pure value

theorem comesBack_of_step {ty : NativeType} {value : NativeValue} (encoded : JsValue)
    (hpresent : encoded.isAbsent = false)
    (h : ∀ᶠ n in atTop, encodeNative natives (encodeJs natives n) ty value = pure encoded ∧
      decodeNative natives (decodeJs natives n) ty encoded = pure value) :
    ComesBack natives ty value := by
  obtain ⟨N, hN⟩ := Filter.eventually_atTop.mp h
  refine ⟨encoded, hpresent, Filter.eventually_atTop.mpr ⟨N + 1, fun n hn => ?_⟩⟩
  obtain ⟨k, rfl⟩ := Nat.exists_eq_add_of_le' (Nat.one_le_of_lt hn)
  exact hN k (by omega)

theorem comesBack_of_leaf {ty : NativeType} {value : NativeValue} (encoded : JsValue)
    (hpresent : encoded.isAbsent = false)
    (hencode : ∀ enc, encodeNative natives enc ty value = pure encoded)
    (hdecode : ∀ dec, decodeNative natives dec ty encoded = pure value) :
    ComesBack natives ty value :=
  comesBack_of_step encoded hpresent (.of_forall fun _ => ⟨hencode _, hdecode _⟩)

theorem items_comeBack (typed : List (NativeType × NativeValue))
    (h : ∀ p ∈ typed, ComesBack natives p.1 p.2) :
    ∃ values, ∀ᶠ n in atTop, List.Forall₂ (CodedAs natives n) typed values := by
  apply eventually_forall₂
  intro p hp
  obtain ⟨encoded, -, hencoded⟩ := h p hp
  exact ⟨encoded, hencoded⟩

theorem option_comesBack {inner : NativeType} {value : NativeValue} (h : ComesBack natives inner value)
    (hnull : ∀ fuel, encodeJs natives fuel inner value ≠ pure .null) :
    ComesBack natives (.option inner) (.some value) := by
  obtain ⟨encoded, hpresent, hencoded⟩ := h
  have hne : encoded ≠ .null := by
    rintro rfl
    obtain ⟨n, hn⟩ := hencoded.exists
    exact hnull n hn.1
  refine comesBack_of_step encoded hpresent (hencoded.mono fun n hn => ⟨hn.1, ?_⟩)
  have hdecode : decodeNative natives (decodeJs natives n) (.option inner) encoded =
      .some <$> decodeJs natives n inner encoded := by
    cases encoded with
    | primitive p =>
      cases p with
      | null => exact absurd rfl hne
      | undefined => cases hpresent
      | bool | int | float | string | other => rfl
    | array | object | function => rfl
  rw [hdecode, hn.2, map_pure]

theorem list_comesBack {inner : NativeType} {items : List NativeValue}
    (h : ∀ item ∈ items, ComesBack natives inner item) :
    ComesBack natives (.vec inner) (.list items) ∧
      ComesBack natives (.array items.length inner) (.list items) := by
  obtain ⟨values, hvalues⟩ := items_comeBack (items.map fun item => (inner, item)) fun p hp => by
    obtain ⟨item, hitem, rfl⟩ := List.mem_map.mp hp
    exact h item hitem
  have hboth : ∀ᶠ n in atTop,
      encodeItemsFrom 0 (items.map (encodeJs natives n inner)) = pure values ∧
      values.length = items.length ∧
      decodeItemsFrom values 0 (List.replicate items.length (decodeJs natives n inner)) = pure items := by
    refine hvalues.mono fun n hn => ?_
    have hencoded := encodeItemsFrom_eq hn 0
    have hdecoded := decodeItemsFrom_all hn
    rw [List.map_map] at hencoded hdecoded
    have hdecoders : items.map ((fun p => decodeJs natives n p.1) ∘ fun item => (inner, item)) =
        List.replicate items.length (decodeJs natives n inner) := by
      rw [← List.map_const']
      rfl
    have hitems : (items.map fun item => (inner, item)).map Prod.snd = items := by
      rw [List.map_map]
      exact List.map_id items
    rw [hdecoders, hitems] at hdecoded
    exact ⟨hencoded, by simpa using hn.length_eq.symm, hdecoded⟩
  constructor
  · refine comesBack_of_step (.array values) rfl (hboth.mono fun n hn => ?_)
    obtain ⟨hencoded, hlength, hdecoded⟩ := hn
    constructor
    · rw [encodeNative, hencoded, pure_bind]
    · rw [decodeNative, expectArray, pure_bind, hlength, hdecoded, map_pure]
  · refine comesBack_of_step (.array values) rfl (hboth.mono fun n hn => ?_)
    obtain ⟨hencoded, hlength, hdecoded⟩ := hn
    constructor
    · rw [encodeNative, hencoded, pure_bind]
    · rw [decodeNative, expectArrayLen, if_pos hlength, pure_bind, hdecoded, map_pure]

theorem tuple_comesBack {types : List NativeType} {items : List NativeValue}
    (hlength : types.length = items.length) (h : ∀ p ∈ types.zip items, ComesBack natives p.1 p.2) :
    ComesBack natives (.tuple types) (.list items) := by
  obtain ⟨values, hvalues⟩ := items_comeBack _ h
  refine comesBack_of_step (.array values) rfl (hvalues.mono fun n hn => ?_)
  have hencoded := encodeItemsFrom_eq hn 0
  have hdecoded := decodeItemsFrom_all hn
  have hencoders : (types.zip items).map (fun p => encodeJs natives n p.1 p.2) =
      types.zipWith (encodeJs natives n) items := List.map_zip_eq_zipWith ..
  have hdecoders : (types.zip items).map (fun p => decodeJs natives n p.1) =
      types.map (decodeJs natives n) := by
    have hfst := congrArg (List.map (decodeJs natives n)) (List.map_fst_zip (Nat.le_of_eq hlength))
    rw [List.map_map] at hfst
    exact hfst
  have hitems : (types.zip items).map Prod.snd = items := List.map_snd_zip (Nat.le_of_eq hlength.symm)
  have hcount : values.length = types.length := by
    have hpairs := hn.length_eq
    rw [List.length_zip] at hpairs
    omega
  rw [hencoders] at hencoded
  rw [hdecoders, hitems] at hdecoded
  constructor
  · rw [encodeNative, hencoded, pure_bind]
  · rw [decodeNative, expectArrayLen, if_pos hcount, pure_bind, hdecoded, map_pure]

theorem map_comesBack {key : MapKeyType} {inner : NativeType} {entries : List (MapKey × NativeValue)}
    (hsorted : SortedEntries.Sorted entries) (hkeys : ∀ e ∈ entries, key.Holds e.1)
    (h : ∀ e ∈ entries, ComesBack natives inner e.2) :
    ComesBack natives (.hashMap key inner) (.map entries) ∧
      ComesBack natives (.btreeMap key inner) (.map entries) := by
  have hproperties (listed : List (MapKey × NativeValue)) (hlisted : listed.Perm entries) :
      ∃ properties, ∀ᶠ n in atTop, List.Forall₂
        (IsMapProperty (encodeJs natives n inner) (decodeJs natives n inner)) properties listed := by
    obtain ⟨properties, hproperties⟩ := eventually_forall₂ (l := listed)
      (R := fun n entry property => IsMapProperty (encodeJs natives n inner) (decodeJs natives n inner)
        property entry) fun e he => by
        obtain ⟨encoded, hpresent, hencoded⟩ := h e (hlisted.subset he)
        exact ⟨(.ofText e.1.text, encoded), hencoded.mono fun n hn => ⟨rfl, hpresent, hn.1, hn.2⟩⟩
    exact ⟨properties, hproperties.mono fun n hn => hn.flip⟩
  constructor
  · have hlisted := natives.hashOrder_perm entries
    obtain ⟨properties, hboth⟩ := hproperties _ hlisted
    refine comesBack_of_step (.object .plain (RankedEntries.defineAll JsString.rank [] properties)) rfl
      (hboth.mono fun n hn => ?_)
    exact decodeMap_encodeMap "HashMap".toList hsorted hlisted hkeys hn
  · obtain ⟨properties, hboth⟩ := hproperties entries (.refl _)
    refine comesBack_of_step (.object .plain (RankedEntries.defineAll JsString.rank [] properties)) rfl
      (hboth.mono fun n hn => ?_)
    exact decodeMap_encodeMap "BTreeMap".toList hsorted (.refl _) hkeys hn

theorem Field.survives_of_native {field : Field NativeType NativeValue} {value : NativeValue}
    (hnative : field.isNative = true) (h : ComesBack natives field.ty value) :
    field.Survives natives.toQuickJs (encodeJs natives) (decodeJs natives) value := by
  obtain ⟨encoded, hpresent, hencoded⟩ := h
  refine ⟨encoded, hpresent, hencoded.mono fun n hn => ?_⟩
  unfold Field.isNative at hnative
  unfold encoder decoder
  cases hcodec : field.codec with
  | native => exact hn
  | json | module =>
    rw [hcodec] at hnative
    cases hnative

/-- A value of a native type, however deep, is encoded and comes back from JavaScript as it was, with
enough fuel for both. -/
theorem comesBack_of_crosses (natives : Natives) (hnew : MakesNumbers natives.newNumber)
    {ty : NativeType} {value : NativeValue} (h : Crosses natives ty value) :
    ComesBack natives ty value := by
  induction h with
  | bool value => exact comesBack_of_leaf (.primitive (.bool value)) rfl (fun _ => rfl) fun _ => rfl
  | unit => exact comesBack_of_leaf .null rfl (fun _ => rfl) fun _ => rfl
  | string value =>
    refine comesBack_of_leaf (.primitive (.string (.ofText value))) rfl (fun _ => rfl) fun _ => ?_
    rw [decodeNative, decodeString_ofText, map_pure]
  | char value =>
    refine comesBack_of_leaf (.primitive (.string (.ofText [value]))) rfl (fun _ => rfl) fun _ => ?_
    rw [decodeNative, decodeChar, decodeString_ofText, pure_bind]
    rfl
  | @integer K value hrange hsafe =>
    obtain ⟨p, hp⟩ := IntegerType.encodeInteger_ok hsafe K.name
    have hpresent : (JsValue.primitive p).isAbsent = false := by
      have hinteger := (IntegerType.encodeInteger_eq_ok hp).2
      cases p with
      | int | float => rfl
      | undefined | null | bool | string | other => simp [IntegerType.safeInteger] at hinteger
    refine comesBack_of_leaf (.primitive p) hpresent (fun _ => ?_) fun _ => ?_
    · rw [encodeNative, hp]
      rfl
    · rw [decodeNative]
      have hdecoded : K.decodeInteger (JsValue.primitive p).shape = .ok ⟨value, hrange⟩ :=
        decodeInteger_encodeInteger hrange hp
      rw [hdecoded]
      rfl
  | float value =>
    have hnumber := floatValue_asNumber hnew value
    have hpresent : (JsValue.primitive (floatValue natives.newNumber value)).isAbsent = false := by
      cases hvalue : floatValue natives.newNumber value with
      | int | float => rfl
      | undefined | null | bool | string | other => simp [hvalue, asNumber] at hnumber
    refine comesBack_of_leaf _ hpresent (fun _ => rfl) fun _ => ?_
    have hdecoded : decodeNumber (JsValue.primitive (floatValue natives.newNumber value)).shape
        "f64".toList = .ok value := by
      unfold decodeNumber
      show okOr (asNumber (.primitive (floatValue natives.newNumber value))) _ = _
      rw [hnumber]
      rfl
    rw [decodeNative, hdecoded]
    rfl
  | none inner => exact comesBack_of_leaf .null rfl (fun _ => rfl) fun _ => rfl
  | some _ hnull ih => exact option_comesBack ih hnull
  | vec _ ih => exact (list_comesBack ih).1
  | array _ ih => exact (list_comesBack ih).2
  | tuple hlength _ ih => exact tuple_comesBack hlength ih
  | hashMap hsorted hkeys _ ih => exact (map_comesBack hsorted hkeys ih).1
  | btreeMap hsorted hkeys _ ih => exact (map_comesBack hsorted hkeys ih).2
  | @struct name struct members hname hlength hsound _ hcodecs hkeeps ih =>
    have hmembers : ∀ p ∈ struct.crossing members,
        p.1.Survives natives.toQuickJs (encodeJs natives) (decodeJs natives) p.2 := by
      intro p hp
      cases hnative : p.1.isNative with
      | true => exact Field.survives_of_native hnative (ih p hp hnative)
      | false => exact hcodecs p hp hnative
    obtain ⟨encoded, hpresent, hencoded⟩ := StructDef.survives hlength hsound hmembers hkeeps
    refine comesBack_of_step encoded hpresent (hencoded.mono fun n hn => ?_)
    rw [encodeNative, decodeNative, hname]
    dsimp only
    rw [hn.2, map_pure]
    exact ⟨hn.1, rfl⟩
  | @variant name enum variant members hname hfind hskip hlength hsound _ hcodecs hmerges hkeeps htells
      ih =>
    have hmembers : ∀ p ∈ variant.shape.crossing members,
        p.1.Survives natives.toQuickJs (encodeJs natives) (decodeJs natives) p.2 := by
      intro p hp
      cases hnative : p.1.isNative with
      | true => exact Field.survives_of_native hnative (ih p hp hnative)
      | false => exact hcodecs p hp hnative
    obtain ⟨encoded, hpresent, hencoded⟩ :=
      EnumDef.survives hskip hlength hsound hmembers hmerges hkeeps htells
    refine comesBack_of_step encoded hpresent (hencoded.mono fun n hn => ?_)
    rw [encodeNative, decodeNative, hname]
    dsimp only
    rw [hfind, hn.2, map_pure]
    exact ⟨hn.1, rfl⟩

end All

def nodeField (name : Str) (ty : NativeType) : Field NativeType NativeValue where
  ty := ty
  typeName := name
  traitDefault := .unit
  optionInner := none
  name := ⟨name, name, []⟩
  codec := .native
  flatten := false
  skipSerializing := false
  skipSerializingIf := none
  skipDeserializing := false
  default := none

/-- A node of a tree. -/
def node : StructDef NativeType NativeValue where
  rust := "Node".toList
  denyUnknownFields := true
  containerDefault := none
  shape := .struct [nodeField "name".toList .string,
    nodeField "children".toList (.vec (.derived "Node".toList))]
  transparent := none

/-- A program with trees. -/
def forest : Natives where
  toQuickJs := plainJs
  derived name := if name = "Node".toList then some (.struct node) else none
  printable _ := true
  hashOrder entries := entries
  hashOrder_perm _ := .refl _

theorem node_crosses (name : Str) {children : List NativeValue}
    (h : ∀ child ∈ children, Crosses forest (.derived "Node".toList) child) :
    Crosses forest (.derived "Node".toList) (.struct [.string name, .list children]) := by
  refine .struct rfl rfl (fun _ => ⟨?_, ?_, ?_⟩) ?_ ?_ (.of_forall fun n => ⟨?_, ?_⟩)
  · intro field hfield
    rcases List.mem_cons.mp hfield with rfl | hfield
    · rfl
    · rw [List.mem_singleton.mp hfield]
      rfl
  · exact .cons (by simp [Field.Apart, nodeField, Name.accepted]) (.cons (by simp) .nil)
  · intro field hfield _
    rcases List.mem_cons.mp hfield with rfl | hfield
    · decide
    · rw [List.mem_singleton.mp hfield]
      decide
  · intro p hp _
    rcases List.mem_cons.mp hp with rfl | hp
    · exact .string name
    · rw [List.mem_singleton.mp hp]
      exact .vec h
  · intro p hp hcodec
    rcases List.mem_cons.mp hp with rfl | hp
    · cases hcodec
    · rw [List.mem_singleton.mp hp] at hcodec
      cases hcodec
  · exact ⟨trivial, trivial, trivial⟩
  · have hknown : ["name".toList, "children".toList] =
        ownKeys node.scope node.shape.fields := by decide
    intro _ p hp
    rcases List.mem_cons.mp hp with rfl | hp
    · exact hknown ▸ List.mem_cons_self
    · rw [List.mem_singleton.mp hp]
      exact hknown ▸ List.mem_cons_of_mem _ List.mem_cons_self

/-- A tree of two levels comes back. -/
theorem comesBack_of_crosses_tree :
    ComesBack forest (.derived "Node".toList) (.struct [.string "a".toList,
      .list [.struct [.string "b".toList, .list []], .struct [.string "c".toList, .list []]]]) := by
  have hleaf (name : Str) : Crosses forest (.derived "Node".toList)
      (.struct [.string name, .list []]) := node_crosses name fun _ hchild => by cases hchild
  refine comesBack_of_crosses forest makesNumbers_makeNumber (node_crosses "a".toList ?_)
  intro child hchild
  rcases List.mem_cons.mp hchild with rfl | hchild
  · exact hleaf _
  · rw [List.mem_singleton.mp hchild]
    exact hleaf _

end RustTS.Contract
