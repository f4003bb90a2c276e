import RustTS.Contract.JsValue
import RustTS.Contract.ScalarCodec

/-! Structural conversion of `serde_json` values to QuickJS values, and what it makes of a value that
crosses and comes back. -/
namespace RustTS.Contract

section Encode
variable (newNumber : JsFloat → Primitive)

/-- `number_to_js_value`: integers follow the integer codecs. -/
def numberToJsValue : Number → Except JsError Primitive
  | .posInt value =>
    if value < 2 ^ 63 then IntegerType.encodeInteger value "i64".toList
    else IntegerType.encodeInteger value "u64".toList
  | .negInt value => IntegerType.encodeInteger value "i64".toList
  | .float negative m => .ok (floatValue newNumber (.finite negative m))

mutual

/-- `json_to_js_value`. -/
def jsonToJsValue : Json → Except JsError JsValue
  | .null => .ok .null
  | .bool value => .ok (.primitive (.bool value))
  | .number value => (numberToJsValue newNumber value).map .primitive
  | .string value => .ok (.primitive (.string (.ofText value)))
  | .array values => (jsonItemsToJs values).map .array
  | .object values => (jsonFieldsToJs [] values).map (.object .plain)

/-- The loop of `json_array_to_js_value`. -/
def jsonItemsToJs : List Json → Except JsError (List JsValue)
  | [] => .ok []
  | value :: values =>
    (jsonToJsValue value).bind fun item => (jsonItemsToJs values).map (item :: ·)

/-- The loop over the members of an object. -/
def jsonFieldsToJs (object : Props) : List (Str × Json) → Except JsError Props
  | [] => .ok object
  | (key, value) :: values =>
    (jsonToJsValue value).bind fun value =>
      jsonFieldsToJs (RankedEntries.define JsString.rank object (.ofText key) value) values

end

end Encode

/-- What a number comes back as: an integer where it is one within the safe range. -/
def Number.crossed : Number → Number
  | .posInt value => .ofInt value
  | .negInt value => .ofInt value
  | .float negative m =>
    match exactInteger (.finite negative m) with
    | some integer => .ofInt integer
    | none => .float negative m

/-- The integers JavaScript numbers represent exactly, and every float. -/
def Number.Safe : Number → Prop
  | .posInt value => value ≤ maxSafeInteger
  | .negInt value => value.natAbs ≤ maxSafeInteger
  | .float .. => True

instance : (number : Number) → Decidable number.Safe
  | .posInt value => inferInstanceAs (Decidable (value ≤ maxSafeInteger))
  | .negInt value => inferInstanceAs (Decidable (value.natAbs ≤ maxSafeInteger))
  | .float .. => inferInstanceAs (Decidable True)

theorem exactInteger_ofInt {i : Int} (h : i.natAbs ≤ maxSafeInteger) :
    exactInteger (.ofInt i) = some i := by
  have hvalue : (Decimal.ofNat i.natAbs).digits * 10 ^ (Decimal.ofNat i.natAbs).exponent.toNat =
      i.natAbs := stripZeros_value i.natAbs
  have hexponent : 0 ≤ (Decimal.ofNat i.natAbs).exponent := Int.natCast_nonneg _
  unfold JsFloat.ofInt exactInteger
  simp only [if_pos hexponent, hvalue, if_pos h]
  by_cases hneg : i < 0
  · simp only [hneg, decide_true, if_true]
    congr 1
    omega
  · simp only [hneg, decide_false, Bool.false_eq_true, if_false]
    congr 1
    omega

theorem exactInteger_of_eq {value other : JsFloat} (h : value.eq other = true) :
    exactInteger value = exactInteger other := by
  cases value with
  | nan => simp [JsFloat.eq] at h
  | infinity negative =>
    cases other with
    | nan | finite => simp [JsFloat.eq] at h
    | infinity => rfl
  | finite negative m =>
    cases other with
    | nan | infinity => simp [JsFloat.eq] at h
    | finite negative' n =>
      simp only [JsFloat.eq, decide_eq_true_eq] at h
      obtain ⟨rfl, hsign⟩ := h
      rcases hsign with rfl | hdigits
      · rfl
      · unfold exactInteger
        simp only [hdigits, Nat.zero_mul]
        cases negative <;> cases negative' <;> rfl

theorem natAbs_toInt_le (small : Int32) : small.toInt.natAbs ≤ maxSafeInteger := by
  have hlow := small.minValue_le_toInt
  have hhigh := small.toInt_le
  have hmin : Int32.minValue.toInt = -2 ^ 31 := rfl
  have hmax : Int32.maxValue.toInt = 2 ^ 31 - 1 := rfl
  have hsafe : maxSafeInteger = 2 ^ 53 - 1 := rfl
  omega

theorem IntegerType.tryI32_eq_some {value : Int} {small : Int32}
    (h : IntegerType.tryI32 value = some small) : small.toInt = value := by
  obtain ⟨k, hk, rfl⟩ := Option.map_eq_some_iff.mp h
  have hvalue := ofInt_eq_some.mp hk
  have hbounds := k.2
  have hmin : i32.min = -2 ^ 31 := rfl
  have hmax : i32.max = 2 ^ 31 - 1 := rfl
  rw [Int32.toInt_ofInt_of_le (by omega) (by omega), ← hvalue]

private theorem IntegerType.tryI32_safe {value : Int} (h : IntegerType.tryI32 value ≠ none) :
    value.natAbs ≤ maxSafeInteger := by
  obtain ⟨small, hsmall⟩ := Option.ne_none_iff_exists'.mp h
  have hbound := natAbs_toInt_le small
  rwa [tryI32_eq_some hsmall] at hbound

theorem IntegerType.trySafe_eq {value : Int} :
    IntegerType.trySafe value = if value.natAbs ≤ maxSafeInteger then some value else none := by
  have hsafe : maxSafeInteger = 2 ^ 53 - 1 := rfl
  have hmin : i64.min = -2 ^ 63 := rfl
  have hmax : i64.max = 2 ^ 63 - 1 := rfl
  unfold IntegerType.trySafe IntegerType.ofInt
  by_cases hwide : value.natAbs ≤ maxSafeInteger
  · have hbounds : i64.min ≤ value ∧ value ≤ i64.max := by omega
    rw [dif_pos hbounds, if_pos hwide]
    simp [hwide]
  · rw [if_neg hwide]
    split_ifs
    · simp [not_le.mp hwide]
    · rfl

/-- An integer crosses exactly within the safe range, as a number that is that integer. -/
theorem IntegerType.encodeInteger_eq_ok {value : Int} {rust : Str} {p : Primitive} :
    IntegerType.encodeInteger value rust = .ok p →
      value.natAbs ≤ maxSafeInteger ∧ IntegerType.safeInteger (.primitive p) = some value := by
  intro h
  unfold IntegerType.encodeInteger at h
  cases hsmall : IntegerType.tryI32 value with
  | some small =>
    rw [hsmall] at h
    obtain rfl := Except.ok.inj h
    refine ⟨IntegerType.tryI32_safe (by simp [hsmall]), ?_⟩
    exact congrArg some (IntegerType.tryI32_eq_some hsmall)
  | none =>
    rw [hsmall, IntegerType.trySafe_eq] at h
    split_ifs at h with hwide
    obtain rfl := Except.ok.inj h
    exact ⟨hwide, exactInteger_ofInt hwide⟩

theorem IntegerType.encodeInteger_ok {value : Int} (h : value.natAbs ≤ maxSafeInteger) (rust : Str) :
    ∃ p, IntegerType.encodeInteger value rust = .ok p := by
  unfold IntegerType.encodeInteger
  cases IntegerType.tryI32 value with
  | some small => exact ⟨_, rfl⟩
  | none =>
    rw [IntegerType.trySafe_eq, if_pos h]
    exact ⟨_, rfl⟩

section
variable {newNumber : JsFloat → Primitive}

theorem primitiveToJson_integer {p : Primitive} {value : Int}
    (h : IntegerType.safeInteger (.primitive p) = some value) :
    primitiveToJson p .json = .ok (.number (.ofInt value)) := by
  cases p with
  | int small =>
    obtain rfl := Option.some.inj h
    rfl
  | float float =>
    have hexact : exactInteger float = some value := h
    rw [primitiveToJson]
    unfold floatToJson
    rw [hexact]
  | undefined | null | bool | string | other => simp [IntegerType.safeInteger] at h

theorem primitiveToJson_float (hnew : MakesNumbers newNumber) (negative : Bool) (m : Decimal) :
    primitiveToJson (floatValue newNumber (.finite negative m)) .json =
      .ok (.number (Number.crossed (.float negative m))) := by
  have hfloat : primitiveToJson (.float (.finite negative m)) .json =
      .ok (.number (Number.crossed (.float negative m))) := by
    rw [primitiveToJson, Number.crossed]
    unfold floatToJson
    cases exactInteger (.finite negative m) <;> rfl
  unfold floatValue
  split_ifs with hzero
  · exact hfloat
  · by_cases hint : ∃ small : Int32, (JsFloat.finite negative m).eq (.ofInt small.toInt) = true
    · obtain ⟨small, hsmall⟩ := hint
      have hexact := exactInteger_of_eq hsmall
      rw [exactInteger_ofInt (natAbs_toInt_le small)] at hexact
      rw [hnew.int _ small hsmall, Number.crossed, hexact]
      rfl
    · rw [hnew.float]
      · exact hfloat
      · intro small
        rw [← Bool.not_eq_true]
        exact fun h => hint ⟨small, h⟩

theorem numberToJsValue_ok (newNumber : JsFloat → Primitive) {number : Number} :
    (∃ p, numberToJsValue newNumber number = .ok p) ↔ number.Safe := by
  have hinteger (value : Int) (rust : Str) :
      (∃ p, IntegerType.encodeInteger value rust = .ok p) ↔ value.natAbs ≤ maxSafeInteger := by
    constructor
    · rintro ⟨p, hp⟩
      exact (IntegerType.encodeInteger_eq_ok hp).1
    · exact fun h => IntegerType.encodeInteger_ok h rust
  cases number with
  | posInt value =>
    rw [numberToJsValue]
    split_ifs
    · exact hinteger value "i64".toList
    · exact hinteger value "u64".toList
  | negInt value => exact hinteger value "i64".toList
  | float negative m => exact ⟨fun _ => trivial, fun _ => ⟨_, rfl⟩⟩

theorem numberToJsValue_toJson (hnew : MakesNumbers newNumber) {number : Number} {p : Primitive}
    (h : numberToJsValue newNumber number = .ok p) :
    primitiveToJson p .json = .ok (.number number.crossed) := by
  cases number with
  | posInt value =>
    rw [numberToJsValue] at h
    split_ifs at h
    · exact primitiveToJson_integer (IntegerType.encodeInteger_eq_ok h).2
    · exact primitiveToJson_integer (IntegerType.encodeInteger_eq_ok h).2
  | negInt value => exact primitiveToJson_integer (IntegerType.encodeInteger_eq_ok h).2
  | float negative m =>
    obtain rfl := Except.ok.inj h
    exact primitiveToJson_float hnew negative m

end

theorem Number.crossed_ofInt (i : Int) : (Number.ofInt i).crossed = .ofInt i := by
  unfold Number.ofInt
  split_ifs with h
  · rw [Number.crossed, Int.toNat_of_nonneg h, Number.ofInt, if_pos h]
  · rw [Number.crossed, Number.ofInt, if_neg h]

theorem Number.crossed_crossed (number : Number) : number.crossed.crossed = number.crossed := by
  cases number with
  | posInt value => exact Number.crossed_ofInt _
  | negInt value => exact Number.crossed_ofInt _
  | float negative m =>
    rw [Number.crossed]
    cases hexact : exactInteger (.finite negative m) with
    | some integer => exact Number.crossed_ofInt integer
    | none =>
      dsimp only
      rw [Number.crossed, hexact]

/-- The place of a key among the properties of an object. -/
def textRank (key : Str) : Nat := (JsString.ofText key).rank

mutual

/-- What a value comes back as: its numbers as they come back, and the members of its objects in
the order of JavaScript properties. -/
def Json.crossed : Json → Json
  | .null => .null
  | .bool value => .bool value
  | .number value => .number value.crossed
  | .string value => .string value
  | .array items => .array (Json.crossedItems items)
  | .object fields => .object (RankedEntries.defineAll textRank [] (Json.crossedFields fields))

def Json.crossedItems : List Json → List Json
  | [] => []
  | item :: items => Json.crossed item :: Json.crossedItems items

def Json.crossedFields : List (Str × Json) → List (Str × Json)
  | [] => []
  | (key, value) :: fields => (key, Json.crossed value) :: Json.crossedFields fields

end

mutual

/-- All its numbers are safe. -/
def Json.Safe : Json → Prop
  | .number value => value.Safe
  | .array items => Json.SafeItems items
  | .object fields => Json.SafeFields fields
  | .null | .bool _ | .string _ => True

def Json.SafeItems : List Json → Prop
  | [] => True
  | item :: items => Json.Safe item ∧ Json.SafeItems items

def Json.SafeFields : List (Str × Json) → Prop
  | [] => True
  | (_, value) :: fields => Json.Safe value ∧ Json.SafeFields fields

end

theorem Json.crossedFields_eq (fields : List (Str × Json)) :
    Json.crossedFields fields = fields.map fun e => (e.1, e.2.crossed) := by
  induction fields with
  | nil => rfl
  | cons e fields ih => rw [Json.crossedFields, ih, List.map_cons]

/-- Properties that read back as members. -/
abbrev ReadsBack : Props → List (Str × Json) → Prop :=
  RankedEntries.Alike (fun value json => value.toJson .json = .ok json) JsString.ofText

section
variable {newNumber : JsFloat → Primitive}

theorem bind_eq_ok {X Y : Type} {r : Except JsError X} {next : X → Except JsError Y} {y : Y} :
    r.bind next = .ok y ↔ ∃ x, r = .ok x ∧ next x = .ok y := by
  cases r with
  | error e => simp [Except.bind]
  | ok x => simp [Except.bind]

theorem map_eq_ok {X Y : Type} {r : Except JsError X} {f : X → Y} {y : Y} :
    r.map f = .ok y ↔ ∃ x, r = .ok x ∧ f x = y := by
  cases r with
  | error e => simp [Except.map]
  | ok x => simp [Except.map]

private theorem insertField_append {key : Str} {fields : List (Str × Json)} (value : Json)
    (h : key ∉ fields.map Prod.fst) : insertField key value fields = fields ++ [(key, value)] := by
  induction fields with
  | nil => rfl
  | cons e fields ih =>
    simp only [List.map_cons, List.mem_cons, not_or] at h
    rw [insertField, if_neg fun heq => h.1 heq.symm, ih h.2, List.cons_append]

theorem propsToJson_readsBack {props : Props} {fields map : List (Str × Json)}
    (h : ReadsBack props fields) (hnodup : ((map ++ fields).map Prod.fst).Nodup) :
    JsValue.propsToJson .json props map = .ok (map ++ fields) := by
  induction h generalizing map with
  | nil => rw [JsValue.propsToJson, List.append_nil]
  | @cons p e props fields hp _ ih =>
    obtain ⟨key, value⟩ := p
    obtain ⟨name, json⟩ := e
    obtain ⟨rfl, hvalue⟩ : key = JsString.ofText name ∧ value.toJson .json = .ok json := hp
    have hkey : name ∉ map.map Prod.fst := by
      rw [List.map_append, List.map_cons, List.nodup_middle, ← List.map_append] at hnodup
      intro hin
      apply (List.nodup_cons.mp hnodup).1
      rw [List.map_append]
      exact List.mem_append_left _ hin
    have hassoc : map ++ (name, json) :: fields = (map ++ [(name, json)]) ++ fields := by simp
    have htext : stringText (.ofText name) = .ok name := by
      rw [stringText, JsString.toText_ofText]
    rw [hassoc] at hnodup
    rw [JsValue.propsToJson, htext, hvalue, hassoc, ← ih hnodup, ← insertField_append json hkey]
    rfl

mutual

theorem jsonToJsValue_crossed (hnew : MakesNumbers newNumber) (json : Json) {value : JsValue}
    (h : jsonToJsValue newNumber json = .ok value) : value.toJson .json = .ok json.crossed := by
  cases json with
  | null | bool =>
    rw [jsonToJsValue] at h
    obtain rfl := Except.ok.inj h
    rfl
  | string text =>
    rw [jsonToJsValue] at h
    obtain rfl := Except.ok.inj h
    rw [JsValue.toJson, primitiveToJson, stringText, JsString.toText_ofText]
    rfl
  | number number =>
    rw [jsonToJsValue, map_eq_ok] at h
    obtain ⟨p, hp, rfl⟩ := h
    rw [JsValue.toJson, numberToJsValue_toJson hnew hp, Json.crossed]
  | array items =>
    rw [jsonToJsValue, map_eq_ok] at h
    obtain ⟨values, hvalues, rfl⟩ := h
    rw [JsValue.toJson, jsonItemsToJs_crossed hnew items hvalues 0, Json.crossed]
    rfl
  | object fields =>
    rw [jsonToJsValue, map_eq_ok] at h
    obtain ⟨props, hprops, rfl⟩ := h
    have hback := jsonFieldsToJs_crossed hnew fields .nil hprops
    have hranked : RankedEntries.Ranked textRank
        (RankedEntries.defineAll textRank [] (Json.crossedFields fields)) :=
      RankedEntries.ranked_defineAll (RankedEntries.ranked_nil _) _
    rw [JsValue.toJson, propsToJson_readsBack hback hranked.nodup, Json.crossed]
    rfl

theorem jsonItemsToJs_crossed (hnew : MakesNumbers newNumber) (items : List Json)
    {values : List JsValue} (h : jsonItemsToJs newNumber items = .ok values) (index : Nat) :
    JsValue.itemsToJson .json index values = .ok (Json.crossedItems items) := by
  cases items with
  | nil =>
    rw [jsonItemsToJs] at h
    obtain rfl := Except.ok.inj h
    rfl
  | cons item items =>
    rw [jsonItemsToJs, bind_eq_ok] at h
    obtain ⟨value, hvalue, hmap⟩ := h
    obtain ⟨rest, hrest, rfl⟩ := map_eq_ok.mp hmap
    rw [JsValue.itemsToJson, jsonToJsValue_crossed hnew item hvalue, Json.crossedItems]
    have htail := jsonItemsToJs_crossed hnew items hrest (index + 1)
    simp only [Except.mapError, Except.bind, htail]
    rfl

theorem jsonFieldsToJs_crossed (hnew : MakesNumbers newNumber) (fields : List (Str × Json))
    {object props : Props} {members : List (Str × Json)} (hback : ReadsBack object members)
    (h : jsonFieldsToJs newNumber object fields = .ok props) :
    ReadsBack props (RankedEntries.defineAll textRank members (Json.crossedFields fields)) := by
  cases fields with
  | nil =>
    rw [jsonFieldsToJs] at h
    obtain rfl := Except.ok.inj h
    exact hback
  | cons e fields =>
    obtain ⟨key, json⟩ := e
    rw [jsonFieldsToJs, bind_eq_ok] at h
    obtain ⟨value, hvalue, hrest⟩ := h
    have hdefined := hback.define JsString.rank (fun _ _ => JsString.ofText_injective) key
      (jsonToJsValue_crossed hnew json hvalue)
    exact jsonFieldsToJs_crossed hnew fields hdefined hrest

end

mutual

theorem jsonToJsValue_ok (json : Json) :
    (∃ value, jsonToJsValue newNumber json = .ok value) ↔ json.Safe := by
  cases json with
  | null | bool | string =>
    rw [Json.Safe, iff_true]
    exact ⟨_, jsonToJsValue.eq_def ..⟩
  | number number =>
    rw [Json.Safe, ← numberToJsValue_ok newNumber]
    simp only [jsonToJsValue, map_eq_ok]
    constructor
    · rintro ⟨_, p, hp, -⟩
      exact ⟨p, hp⟩
    · rintro ⟨p, hp⟩
      exact ⟨_, p, hp, rfl⟩
  | array items =>
    rw [Json.Safe, ← jsonItemsToJs_ok items]
    simp only [jsonToJsValue, map_eq_ok]
    constructor
    · rintro ⟨_, values, hvalues, -⟩
      exact ⟨values, hvalues⟩
    · rintro ⟨values, hvalues⟩
      exact ⟨_, values, hvalues, rfl⟩
  | object fields =>
    rw [Json.Safe, ← jsonFieldsToJs_ok fields []]
    simp only [jsonToJsValue, map_eq_ok]
    constructor
    · rintro ⟨_, props, hprops, -⟩
      exact ⟨props, hprops⟩
    · rintro ⟨props, hprops⟩
      exact ⟨_, props, hprops, rfl⟩

theorem jsonItemsToJs_ok (items : List Json) :
    (∃ values, jsonItemsToJs newNumber items = .ok values) ↔ Json.SafeItems items := by
  cases items with
  | nil =>
    rw [Json.SafeItems, iff_true]
    exact ⟨[], jsonItemsToJs.eq_def ..⟩
  | cons item items =>
    rw [Json.SafeItems, ← jsonToJsValue_ok item, ← jsonItemsToJs_ok items]
    simp only [jsonItemsToJs, bind_eq_ok, map_eq_ok]
    constructor
    · rintro ⟨_, value, hvalue, values, hvalues, -⟩
      exact ⟨⟨value, hvalue⟩, values, hvalues⟩
    · rintro ⟨⟨value, hvalue⟩, values, hvalues⟩
      exact ⟨_, value, hvalue, values, hvalues, rfl⟩

theorem jsonFieldsToJs_ok (fields : List (Str × Json)) (object : Props) :
    (∃ props, jsonFieldsToJs newNumber object fields = .ok props) ↔ Json.SafeFields fields := by
  cases fields with
  | nil =>
    rw [Json.SafeFields, iff_true]
    exact ⟨object, jsonFieldsToJs.eq_def ..⟩
  | cons e fields =>
    obtain ⟨key, json⟩ := e
    rw [Json.SafeFields, ← jsonToJsValue_ok json]
    simp only [jsonFieldsToJs, bind_eq_ok]
    constructor
    · rintro ⟨props, value, hvalue, hprops⟩
      exact ⟨⟨value, hvalue⟩, (jsonFieldsToJs_ok fields _).mp ⟨props, hprops⟩⟩
    · rintro ⟨⟨value, hvalue⟩, hfields⟩
      obtain ⟨props, hprops⟩ := (jsonFieldsToJs_ok fields
        (RankedEntries.define JsString.rank object (.ofText key) value)).mpr hfields
      exact ⟨props, value, hvalue, hprops⟩

end

end

mutual

theorem Json.crossed_crossed (json : Json) : json.crossed.crossed = json.crossed := by
  cases json with
  | null | bool | string => rfl
  | number number => rw [Json.crossed, Json.crossed, Number.crossed_crossed]
  | array items => rw [Json.crossed, Json.crossed, Json.crossedItems_crossed items]
  | object fields =>
    have hmembers : (RankedEntries.defineAll textRank [] (Json.crossedFields fields)).map
        (fun e => (e.1, e.2.crossed)) =
        RankedEntries.defineAll textRank [] (Json.crossedFields fields) := by
      conv_rhs => rw [← List.map_id (RankedEntries.defineAll textRank [] _)]
      apply List.map_congr_left
      intro e he
      rcases RankedEntries.mem_defineAll he with hnew | hnone
      · exact Prod.ext rfl (Json.crossedFields_crossed fields e hnew)
      · cases hnone
    have hranked : RankedEntries.Ranked textRank
        (RankedEntries.defineAll textRank [] (Json.crossedFields fields)) :=
      RankedEntries.ranked_defineAll (RankedEntries.ranked_nil _) _
    rw [Json.crossed, Json.crossed, Json.crossedFields_eq, hmembers,
      RankedEntries.defineAll_self hranked]

theorem Json.crossedItems_crossed (items : List Json) :
    Json.crossedItems (Json.crossedItems items) = Json.crossedItems items := by
  cases items with
  | nil => rfl
  | cons item items =>
    rw [Json.crossedItems, Json.crossedItems, Json.crossed_crossed item,
      Json.crossedItems_crossed items]

theorem Json.crossedFields_crossed (fields : List (Str × Json)) :
    ∀ e ∈ Json.crossedFields fields, e.2.crossed = e.2 := by
  cases fields with
  | nil => simp [Json.crossedFields]
  | cons e fields =>
    obtain ⟨key, json⟩ := e
    rw [Json.crossedFields, List.forall_mem_cons]
    exact ⟨Json.crossed_crossed json, Json.crossedFields_crossed fields⟩

end

/-- A JSON value crosses exactly when its integers are within the safe range. It comes back as the
same value, but for floats that are safe integers, which come back as integers, and for the order of
its members, of which none is lost; crossing again changes nothing more. -/
theorem json_crosses {newNumber : JsFloat → Primitive} (hnew : MakesNumbers newNumber) (json : Json) :
    ((∃ value, jsonToJsValue newNumber json = .ok value) ↔ json.Safe) ∧
    (∀ value, jsonToJsValue newNumber json = .ok value →
      value.toJson .json = .ok json.crossed) ∧
    json.crossed.crossed = json.crossed ∧
    ∀ fields, json = .object fields → (fields.map Prod.fst).Nodup →
      ∃ members, json.crossed = .object members ∧
        members.Perm (fields.map fun e => (e.1, e.2.crossed)) := by
  refine ⟨jsonToJsValue_ok json, fun value h => jsonToJsValue_crossed hnew json h,
    json.crossed_crossed, ?_⟩
  rintro fields rfl hnodup
  refine ⟨_, Json.crossed.eq_def _, ?_⟩
  rw [← Json.crossedFields_eq]
  apply RankedEntries.perm_defineAll
  have hkeys : (Json.crossedFields fields).map Prod.fst = fields.map Prod.fst := by
    rw [Json.crossedFields_eq, List.map_map]
    rfl
  rw [List.nil_append, hkeys]
  exact hnodup

/-- An object whose second key is an index comes back with that one first, and its `1.0` as `1`. -/
theorem json_crosses_object :
    ∃ value, jsonToJsValue makeNumber (.object [("a".toList, .number (.float false ⟨1, 0, by decide⟩)),
      ("7".toList, .null)]) = .ok value ∧
      value.toJson .json = .ok (.object [("7".toList, .null), ("a".toList, .number (.posInt 1))]) := by
  have hcrosses := json_crosses makesNumbers_makeNumber (.object [("a".toList,
    .number (.float false ⟨1, 0, by decide⟩)), ("7".toList, .null)])
  obtain ⟨value, hvalue⟩ := hcrosses.1.mpr ⟨trivial, trivial, trivial⟩
  exact ⟨value, hvalue, hcrosses.2.1 value hvalue⟩

end RustTS.Contract
