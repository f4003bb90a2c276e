import RustTS.Contract.SerdeStruct

/-! Where the derived decoder of a struct makes the same of a JSON object as serde does. -/
namespace RustTS.Contract

variable {T V : Type} (readNumber : Number → Int32 ⊕ JsFloat)

theorem serdeReading_ne_prototype (fields : List (Field T V)) (members : List (Str × Json))
    (index : Nat) : serdeReading fields members index ≠ .prototype := by
  unfold serdeReading
  match taken fields members index with
  | [] => simp
  | [_] => simp
  | _ :: _ :: _ => simp

theorem serdeReading_eq_missing {fields : List (Field T V)} {members : List (Str × Json)}
    {field : Field T V} {index : Nat} (hfield : fields[index]? = some field)
    (h : ∀ e ∈ members, field.takes e.1 = false) :
    serdeReading fields members index = .missing := by
  have htaken : taken fields members index = [] := by
    refine List.filter_eq_nil_iff.mpr fun e he hindex => ?_
    obtain ⟨hlt, htakes, _⟩ := List.findIdx?_eq_some_iff_getElem.mp (of_decide_eq_true hindex)
    rw [List.getElem?_eq_getElem hlt, Option.some.injEq] at hfield
    rw [hfield, h e he] at htakes
    exact Bool.false_ne_true htakes
  unfold serdeReading
  rw [htaken]

section Outcomes
variable (decodeJs : T → JsValue → Except JsError V)

/-- What the derived decoder makes of a field. -/
def nativeOutcome (scope : Scope V) (members : List (Str × Json)) (field : Field T V)
    (index : Nat) : Option V :=
  if field.skipDeserializing then some (defaultValue field (scope.member index))
  else
    match (nativeReading members field.name.accepted).value readNumber with
    | some value => (decoder decodeJs field value).toOption
    | none =>
      (defaultFn field (scope.member index)).or (decoder decodeJs field .undefined).toOption

theorem toOption_decodeStructField {scope : Scope V} {members : List (Str × Json)}
    {rest : JsObject} {field : Field T V} {index : Nat} (hflatten : field.flatten = false) :
    (decodeStructField decodeJs (parseObject readNumber members) rest field
      (scope.member index)).toOption = nativeOutcome readNumber decodeJs scope members field index := by
  unfold decodeStructField nativeOutcome
  split_ifs with hskip hflat
  · rfl
  · simp [hflatten] at hflat
  · cases hdefault : defaultFn field (scope.member index) with
    | some default =>
      simp only [decodeFieldOr, fieldValue_parseObject]
      cases (nativeReading members field.name.accepted).value readNumber with
      | some value => exact toOption_mapErr _ _
      | none => rfl
    | none =>
      simp only [decodeField, fieldValue_parseObject]
      cases (nativeReading members field.name.accepted).value readNumber with
      | some value => exact toOption_mapErr _ _
      | none => simp

theorem toOption_decodeMembers (scope : Scope V) (members : List (Str × Json)) (rest : JsObject)
    {fields : List (Field T V)} (hflatten : hasFlatten fields = false) (index : Nat) :
    (decodeMembers decodeJs scope (parseObject readNumber members) rest index fields).toOption =
      ((fields.zipIdx index).map fun p =>
        nativeOutcome readNumber decodeJs scope members p.1 p.2).allSome := by
  induction fields generalizing index with
  | nil => rfl
  | cons field fields ih =>
    have hflat := Bool.or_eq_false_iff.mp hflatten
    rw [decodeMembers, List.zipIdx_cons, List.map_cons, List.allSome_cons, toOption_bind,
      toOption_decodeStructField readNumber decodeJs hflat.1, ← ih hflat.2]
    congr 1
    funext value
    rw [toOption_bind]
    cases (decodeMembers decodeJs scope (parseObject readNumber members) rest (index + 1)
      fields).toOption <;> rfl

theorem fieldOf_eq_none {scope : Scope V} {fields : List (Field T V)} {key : Str}
    (hflatten : hasFlatten fields = false) (htag : scope.tag = none) :
    fieldOf fields key = none ↔ key ∉ ownKeys scope fields := by
  have hflat : ∀ field ∈ fields, field.flatten = false := by
    simpa [hasFlatten] using hflatten
  rw [fieldOf, List.findIdx?_eq_none_iff, ownKeys, htag]
  simp only [Field.takes, Option.toList_none, List.append_nil, List.mem_flatMap, List.mem_filter,
    not_exists, not_and, Bool.and_eq_false_imp, decide_eq_false_iff_not]
  refine forall_congr' fun field => ?_
  constructor
  · intro h ⟨hmem, hskip⟩
    exact h hmem (Bool.and_eq_true_iff.mp hskip).1
  · intro h hmem hskip
    exact h ⟨hmem, by rw [hskip, hflat field hmem]; rfl⟩

theorem toOption_decodeStruct {scope : Scope V} {fields : List (Field T V)}
    (hflatten : hasFlatten fields = false) (htag : scope.tag = none)
    (members : List (Str × Json)) :
    (decodeStruct decodeJs scope fields (.parse readNumber (.object members))).toOption =
      if scope.denyUnknownFields = true ∧ ∃ e ∈ members, fieldOf fields e.1 = none then none
      else (fields.zipIdx.map fun p =>
        nativeOutcome readNumber decodeJs scope members p.1 p.2).allSome := by
  have hmembers := toOption_decodeMembers readNumber decodeJs scope members ⟨.plain, []⟩ hflatten 0
  have hobject : (expectObject (parseObject readNumber members).toValue scope.rust :
      Except JsError JsObject) = .ok (parseObject readNumber members) := rfl
  have hreject := rejectUnknownFields_eq_ok readNumber (ownKeys scope fields) scope.rust members
  have hunknown : (∃ e ∈ members, fieldOf fields e.1 = none) ↔
      ¬∀ e ∈ members, e.1 ∈ ownKeys scope fields := by
    simp only [fieldOf_eq_none hflatten htag, not_forall, exists_prop]
  have hrest : (unclaimed scope fields (parseObject readNumber members) : Except JsError JsObject) =
      .ok ⟨.plain, []⟩ := by
    rw [unclaimed, hflatten]
    rfl
  have hdecode (checked : Except JsError Unit) (h : (rejectUnknown scope fields
      (parseObject readNumber members) : Except JsError Unit) = checked) :
      (decodeStruct decodeJs scope fields (parseObject readNumber members).toValue).toOption =
        checked.toOption.bind fun _ => (fields.zipIdx.map fun p =>
          nativeOutcome readNumber decodeJs scope members p.1 p.2).allSome := by
    rw [decodeStruct, hobject, ← hmembers]
    simp only [toOption_bind, h, hrest, toOption_ok, Option.bind_some]
  rw [JsValue.parse_object, if_congr (and_congr_right fun _ => hunknown) rfl rfl]
  unfold rejectUnknown at hdecode
  rw [hflatten, Bool.not_false, Bool.and_true] at hdecode
  cases hdeny : scope.denyUnknownFields with
  | false =>
    rw [hdeny] at hdecode
    exact hdecode (.ok ()) rfl
  | true =>
    rw [hdeny] at hdecode
    by_cases hknown : ∀ e ∈ members, e.1 ∈ ownKeys scope fields
    · rw [if_neg fun h => h.2 hknown]
      exact hdecode (.ok ()) (hreject.mpr hknown)
    · rw [if_pos ⟨rfl, hknown⟩]
      cases h : (rejectUnknownFields (parseObject readNumber members) (ownKeys scope fields)
        scope.rust : Except JsError Unit) with
      | ok => exact absurd (hreject.mp h) hknown
      | error e => exact hdecode (.error e) h

end Outcomes

/-- Both make the same of a field, by what each reads for it: the derived decoder first, then
serde. -/
def ReadAlike (decode : JsValue → Except JsError V) (serde : SerdeField V) (default : Option V) :
    (native reading : Reading) → Prop
  | .missing, .missing => default.isSome = true ∨ (decode .undefined).toOption = serde.missing
  | .member a, .member b => serde.deserialize a = serde.deserialize b
  | .member a, .missing => serde.deserialize a = default.or serde.missing
  | .member a, .twice => serde.deserialize a = none
  | .prototype, reading =>
    (decode .objectPrototype).toOption = reading.serdeValue serde (default.or serde.missing)
  | _, _ => False

/-- The derived decoder fails over a field. -/
def NativeRefuses (decode : JsValue → Except JsError V) (serde : SerdeField V)
    (default : Option V) : Reading → Prop
  | .member json => serde.deserialize json = none
  | .prototype => (decode .objectPrototype).toOption = none
  | .missing => default = none ∧ (decode .undefined).toOption = none
  | .twice => False

/-- Serde fails over a field. -/
def SerdeRefuses (serde : SerdeField V) (default : Option V) : Reading → Prop
  | .member json => serde.deserialize json = none
  | .missing => default = none ∧ serde.missing = none
  | .twice => True
  | .prototype => False

section Agreement
variable (decodeJs : T → JsValue → Except JsError V) (serde : Field T V → SerdeField V)

/-- The fields that decoding does not skip, each with its index. -/
def deserialized (fields : List (Field T V)) : List (Field T V × Nat) :=
  fields.zipIdx.filter fun p => !p.1.skipDeserializing

/-- Where the derived decoder makes the same of the fields as serde: an unknown key is denied, every
field reads alike, or each refuses some field. -/
def FieldsReadLikeSerde (scope : Scope V) (fields : List (Field T V))
    (members : List (Str × Json)) : Prop :=
  let default (p : Field T V × Nat) := defaultFn p.1 (scope.member p.2)
  let native (p : Field T V × Nat) := nativeReading members p.1.name.accepted
  let reading (p : Field T V × Nat) := serdeReading fields members p.2
  (scope.denyUnknownFields = true ∧ ∃ e ∈ members, e.1 ∉ ownKeys scope fields) ∨
  (∀ p ∈ deserialized fields,
    ReadAlike (decoder decodeJs p.1) (serde p.1) (default p) (native p) (reading p)) ∨
  (∃ p ∈ deserialized fields,
    NativeRefuses (decoder decodeJs p.1) (serde p.1) (default p) (native p)) ∧
    ∃ p ∈ deserialized fields, SerdeRefuses (serde p.1) (default p) (reading p)

/-- Shapes without named fields have nothing that could read otherwise. -/
def StructDef.ReadsLikeSerde (struct : StructDef T V) (members : List (Str × Json)) : Prop :=
  match struct.transparent, struct.shape with
  | none, .struct fields => FieldsReadLikeSerde decodeJs serde struct.scope fields members
  | _, _ => True

variable {decodeJs serde} {scope : Scope V} {members : List (Str × Json)} {fields : List (Field T V)}
  {field : Field T V} {index : Nat}

theorem nativeOutcome_eq (hskip : field.skipDeserializing = false)
    (hagree : ∀ json, (decoder decodeJs field (.parse readNumber json)).toOption =
      (serde field).deserialize json) :
    nativeOutcome readNumber decodeJs scope members field index =
      match nativeReading members field.name.accepted with
      | .member json => (serde field).deserialize json
      | .prototype => (decoder decodeJs field .objectPrototype).toOption
      | .missing | .twice =>
        (defaultFn field (scope.member index)).or (decoder decodeJs field .undefined).toOption := by
  rw [nativeOutcome, hskip, if_neg Bool.false_ne_true]
  cases nativeReading members field.name.accepted with
  | member json => exact hagree json
  | prototype | missing | twice => rfl

theorem nativeOutcome_eq_serdeOutcome (hskip : field.skipDeserializing = false)
    (hfield : fields[index]? = some field)
    (hagree : ∀ json, (decoder decodeJs field (.parse readNumber json)).toOption =
      (serde field).deserialize json) :
    nativeOutcome readNumber decodeJs scope members field index =
        serdeOutcome serde scope fields members field index ↔
      ReadAlike (decoder decodeJs field) (serde field) (defaultFn field (scope.member index))
        (nativeReading members field.name.accepted) (serdeReading fields members index) := by
  have hmissing : serdeMissing serde field (scope.member index) =
      (defaultFn field (scope.member index)).or (serde field).missing := by
    rw [serdeMissing, hskip, if_neg Bool.false_ne_true]
  rw [nativeOutcome_eq readNumber hskip hagree, serdeOutcome, hmissing]
  cases hnative : nativeReading members field.name.accepted with
  | twice => exact absurd hnative (nativeReading_ne_twice members _)
  | prototype => cases serdeReading fields members index <;> rfl
  | member json =>
    cases hreading : serdeReading fields members index with
    | prototype => exact absurd hreading (serdeReading_ne_prototype fields members index)
    | member | missing | twice => rfl
  | missing =>
    have hnone (e : Str × Json) (he : e ∈ members) : field.takes e.1 = false := by
      simp [Field.takes, not_mem_of_missing hnative e he]
    rw [serdeReading_eq_missing hfield hnone]
    show (defaultFn field (scope.member index)).or _ = _ ↔ _ ∨ _
    cases defaultFn field (scope.member index) <;> simp [Reading.serdeValue]

private theorem nativeOutcome_eq_none (hskip : field.skipDeserializing = false)
    (hagree : ∀ json, (decoder decodeJs field (.parse readNumber json)).toOption =
      (serde field).deserialize json) :
    nativeOutcome readNumber decodeJs scope members field index = none ↔
      NativeRefuses (decoder decodeJs field) (serde field) (defaultFn field (scope.member index))
        (nativeReading members field.name.accepted) := by
  rw [nativeOutcome_eq readNumber hskip hagree]
  cases hnative : nativeReading members field.name.accepted with
  | twice => exact absurd hnative (nativeReading_ne_twice members _)
  | member | prototype => rfl
  | missing => exact Option.or_eq_none_iff

private theorem serdeOutcome_eq_none (hskip : field.skipDeserializing = false) :
    serdeOutcome serde scope fields members field index = none ↔
      SerdeRefuses (serde field) (defaultFn field (scope.member index))
        (serdeReading fields members index) := by
  rw [serdeOutcome, serdeMissing, hskip, if_neg Bool.false_ne_true]
  cases hreading : serdeReading fields members index with
  | prototype => exact absurd hreading (serdeReading_ne_prototype fields members index)
  | member => rfl
  | missing => exact Option.or_eq_none_iff
  | twice => simp [Reading.serdeValue, SerdeRefuses]

private theorem outcomes_of_skipped (hskip : field.skipDeserializing = true)
    (hfield : fields[index]? = some field) :
    nativeOutcome readNumber decodeJs scope members field index =
        some (defaultValue field (scope.member index)) ∧
      serdeOutcome serde scope fields members field index =
        some (defaultValue field (scope.member index)) := by
  have hnone (e : Str × Json) (_ : e ∈ members) : field.takes e.1 = false := by
    simp [Field.takes, hskip]
  constructor
  · rw [nativeOutcome, if_pos hskip]
  · rw [serdeOutcome, serdeReading_eq_missing hfield hnone]
    exact if_pos hskip

theorem mem_deserialized {p : Field T V × Nat} (h : p ∈ deserialized fields) :
    p ∈ fields.zipIdx ∧ p.1.skipDeserializing = false := by
  simpa using List.mem_filter.mp h

theorem forall_deserialized {P : Field T V × Nat → Prop}
    (h : ∀ p ∈ fields.zipIdx, p.1.skipDeserializing = true → P p) :
    (∀ p ∈ fields.zipIdx, P p) ↔ ∀ p ∈ deserialized fields, P p := by
  constructor
  · intro hall p hp
    exact hall p (mem_deserialized hp).1
  · intro hall p hp
    cases hskip : p.1.skipDeserializing with
    | true => exact h p hp hskip
    | false => exact hall p (List.mem_filter.mpr ⟨hp, by rw [hskip]; rfl⟩)

theorem none_mem_outcomes {outcome : Field T V × Nat → Option V}
    {Refuses : Field T V × Nat → Prop}
    (hskipped : ∀ p ∈ fields.zipIdx, p.1.skipDeserializing = true → outcome p ≠ none)
    (hrefuses : ∀ p ∈ fields.zipIdx, p.1.skipDeserializing = false →
      (outcome p = none ↔ Refuses p)) :
    none ∈ fields.zipIdx.map outcome ↔ ∃ p ∈ deserialized fields, Refuses p := by
  rw [List.mem_map, ← not_iff_not]
  simp only [not_exists, not_and]
  rw [forall_deserialized hskipped]
  refine forall₂_congr fun p hp => not_congr ?_
  obtain ⟨hp, hskip⟩ := mem_deserialized hp
  exact hrefuses p hp hskip

end Agreement

theorem decodeStruct_eq_deserialize (decodeJs : T → JsValue → Except JsError V)
    (serde : Field T V → SerdeField V) {scope : Scope V} {fields : List (Field T V)}
    (hflatten : hasFlatten fields = false) (htag : scope.tag = none)
    (hagree : ∀ field ∈ fields, ∀ json,
      (decoder decodeJs field (.parse readNumber json)).toOption = (serde field).deserialize json)
    (members : List (Str × Json)) :
    (decodeStruct decodeJs scope fields (.parse readNumber (.object members))).toOption =
        deserializeMembers serde scope fields members ↔
      FieldsReadLikeSerde decodeJs serde scope fields members := by
  have hunknown (key : Str) : fieldOf fields key = none ↔ key ∉ ownKeys scope fields :=
    fieldOf_eq_none hflatten htag
  have hfield (p : Field T V × Nat) (hp : p ∈ fields.zipIdx) : fields[p.2]? = some p.1 :=
    List.mem_zipIdx_iff_getElem?.mp hp
  have hagree (p : Field T V × Nat) (hp : p ∈ fields.zipIdx) := hagree p.1
    (List.mem_of_getElem? (hfield p hp))
  have hskipped (p : Field T V × Nat) (hp : p ∈ fields.zipIdx)
      (hskip : p.1.skipDeserializing = true) :
      nativeOutcome readNumber decodeJs scope members p.1 p.2 =
          some (defaultValue p.1 (scope.member p.2)) ∧
        serdeOutcome serde scope fields members p.1 p.2 =
          some (defaultValue p.1 (scope.member p.2)) :=
    outcomes_of_skipped readNumber hskip (hfield p hp)
  rw [toOption_decodeStruct readNumber decodeJs hflatten htag, deserializeMembers_eq]
  by_cases hdenied : scope.denyUnknownFields = true ∧ ∃ e ∈ members, fieldOf fields e.1 = none
  · obtain ⟨hdeny, e, he, hkey⟩ := hdenied
    rw [if_pos ⟨hdeny, e, he, hkey⟩, if_pos ⟨hdeny, e, he, hkey⟩]
    exact iff_of_true rfl (.inl ⟨hdeny, e, he, (hunknown e.1).mp hkey⟩)
  · have hnever : ¬(scope.denyUnknownFields = true ∧ ∃ e ∈ members, e.1 ∉ ownKeys scope fields) :=
      fun ⟨hdeny, e, he, hkey⟩ => hdenied ⟨hdeny, e, he, (hunknown e.1).mpr hkey⟩
    rw [if_neg hdenied, if_neg hdenied, List.allSome_eq_allSome]
    refine Iff.trans (or_congr ?_ (and_congr ?_ ?_)) (or_iff_right hnever).symm
    · rw [List.map_inj_left, forall_deserialized fun p hp hskip => ?_]
      · refine forall₂_congr fun p hp => ?_
        obtain ⟨hp, hskip⟩ := mem_deserialized hp
        exact nativeOutcome_eq_serdeOutcome readNumber hskip (hfield p hp) (hagree p hp)
      · rw [(hskipped p hp hskip).1, (hskipped p hp hskip).2]
    · refine none_mem_outcomes (fun p hp hskip => ?_) fun p hp hskip => ?_
      · rw [(hskipped p hp hskip).1]
        exact Option.some_ne_none _
      · exact nativeOutcome_eq_none readNumber hskip (hagree p hp)
    · refine none_mem_outcomes (fun p hp hskip => ?_) fun p hp hskip => ?_
      · rw [(hskipped p hp hskip).2]
        exact Option.some_ne_none _
      · exact serdeOutcome_eq_none hskip

/-- The derived decoder of a struct without flattened fields, whose field decoders agree with
serde's on JSON values, makes the same of `JSON.parse` of an object as serde makes of the object
exactly where every field reads alike (or a key is denied, or both refuse some field): a field that
is given twice is one the decoder refuses, and where a missing one has no default `undefined`
decodes to what serde takes for it. -/
theorem StructDef.decodeBody_eq_deserialize (decodeJs : T → JsValue → Except JsError V)
    (serde : Field T V → SerdeField V) (struct : StructDef T V)
    (hflatten : hasFlatten struct.shape.fields = false)
    (hagree : ∀ field ∈ struct.shape.fields, ∀ json,
      (decoder decodeJs field (.parse readNumber json)).toOption = (serde field).deserialize json)
    (members : List (Str × Json)) :
    (struct.decodeBody decodeJs (.parse readNumber (.object members))).toOption =
        struct.deserialize serde members ↔
      struct.ReadsLikeSerde decodeJs serde members := by
  obtain ⟨rust, deny, containerDefault, shape, transparent⟩ := struct
  cases transparent with
  | some forwarded =>
    refine iff_of_true ?_ trivial
    show (StructDef.decodeTransparent decodeJs shape.fields forwarded _).toOption =
      ((serde (shape.fields.get forwarded)).deserialize (.object members)).map _
    rw [StructDef.decodeTransparent, toOption_bind,
      hagree (shape.fields.get forwarded) (List.get_mem _ _)]
    cases (serde (shape.fields.get forwarded)).deserialize (.object members) <;> rfl
  | none =>
    cases shape with
    | unit =>
      refine iff_of_true ?_ trivial
      rw [JsValue.parse_object]
      rfl
    | tuple fields =>
      refine iff_of_true ?_ trivial
      rw [JsValue.parse_object]
      rfl
    | newtype field =>
      refine iff_of_true ?_ trivial
      show (do let value ← decoder decodeJs field _; pure [value]).toOption =
        ((serde field).deserialize (.object members)).map _
      rw [toOption_bind, hagree field (List.mem_singleton.mpr rfl)]
      cases (serde field).deserialize (.object members) <;> rfl
    | struct fields =>
      exact decodeStruct_eq_deserialize readNumber decodeJs serde hflatten rfl hagree members

inductive SampleTy
  | text
  | unit

def decodeSample : SampleTy → JsValue → Except JsError Str
  | .text, .primitive (.string string) => stringText string
  | .text, value => .error (mismatch value.shape "String".toList "string".toList)
  | .unit, value => do
    decodeUnit value
    pure []

def serdeSample (field : Field SampleTy Str) : SerdeField Str where
  deserialize
    | .string text => match field.ty with
      | .text => some text
      | .unit => none
    | .null => match field.ty with
      | .text => none
      | .unit => some []
    | _ => none
  missing := none

def sampleField (ty : SampleTy) (name : Str) (aliases : List Str) : Field SampleTy Str where
  ty := ty
  typeName := name
  traitDefault := []
  optionInner := none
  name := ⟨name, name, aliases⟩
  codec := .native
  flatten := false
  skipSerializing := false
  skipSerializingIf := none
  skipDeserializing := false
  default := none

/-- `struct Player { #[serde(alias = "nick")] name: String, mark: () }`. -/
def player : StructDef SampleTy Str where
  rust := "Player".toList
  denyUnknownFields := false
  containerDefault := none
  shape := .struct [sampleField .text "name".toList ["nick".toList], sampleField .unit "mark".toList []]
  transparent := none

theorem decodeSample_agrees : ∀ field ∈ player.shape.fields, ∀ json,
    (decoder decodeSample field (.parse readNumber json)).toOption =
      (serdeSample field).deserialize json := by
  have htext (json : Json) : (decodeSample .text (.parse readNumber json)).toOption =
      (serdeSample (sampleField .text "name".toList ["nick".toList])).deserialize json := by
    cases json with
    | string text =>
      rw [JsValue.parse]
      show (stringText (JsString.ofText text)).toOption = _
      rw [stringText, JsString.toText_ofText]
      rfl
    | number value =>
      rw [JsValue.parse, JsValue.ofNumber]
      cases readNumber value <;> rfl
    | null | bool | array | object =>
      rw [JsValue.parse]
      rfl
  have hunit (json : Json) : (decodeSample .unit (.parse readNumber json)).toOption =
      (serdeSample (sampleField .unit "mark".toList [])).deserialize json := by
    cases json with
    | number value =>
      rw [JsValue.parse, JsValue.ofNumber]
      cases readNumber value <;> rfl
    | null | bool | string | array | object =>
      rw [JsValue.parse]
      rfl
  intro field hfield json
  rcases List.mem_cons.mp hfield with h | h
  · exact h ▸ htext json
  · exact List.mem_singleton.mp h ▸ hunit json

/-- Small integers, as the engine stores them. -/
def readInt : Number → Int32 ⊕ JsFloat
  | .posInt value => .inl (Int32.ofNat value)
  | .negInt value => .inl (Int32.ofInt value)
  | .float negative magnitude => .inr (.finite negative magnitude)

/-- Where each field is given once, the decoder reads what serde does. -/
theorem player_given_once :
    (player.decodeBody decodeSample (.parse readInt
      (.object [("nick".toList, .string "Ada".toList), ("mark".toList, .null)]))).toOption =
      player.deserialize serdeSample
        [("nick".toList, .string "Ada".toList), ("mark".toList, .null)] := by
  refine (StructDef.decodeBody_eq_deserialize readInt decodeSample serdeSample player rfl
    (decodeSample_agrees readInt) _).mpr (.inr (.inl fun p hp => ?_))
  rcases List.mem_cons.mp hp with h | h
  · subst h
    rfl
  · obtain rfl := List.mem_singleton.mp h
    rfl

/-- A name given with its alias, and a unit field left out: the decoder takes the name, and a unit
for the field, where serde fails. -/
theorem player_reads_otherwise :
    (player.decodeBody decodeSample (.parse readInt (.object [("name".toList, .string "Ada".toList),
      ("nick".toList, .string "Bob".toList), ("mark".toList, .null)]))).toOption =
        some ["Ada".toList, []] ∧
    player.deserialize serdeSample [("name".toList, .string "Ada".toList),
      ("nick".toList, .string "Bob".toList), ("mark".toList, .null)] = none ∧
    (player.decodeBody decodeSample (.parse readInt
      (.object [("name".toList, .string "Ada".toList)]))).toOption = some ["Ada".toList, []] ∧
    player.deserialize serdeSample [("name".toList, .string "Ada".toList)] = none := by
  decide

end RustTS.Contract
