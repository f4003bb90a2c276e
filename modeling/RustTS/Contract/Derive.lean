import RustTS.Contract.Bridge
import RustTS.Contract.JsValue

/-! Runtime support of the derived codecs, on plain values. -/
namespace RustTS.Contract

variable {m : Type → Type} [Monad m] [MonadExcept JsError m] {V : Type}

/-- `map_err`. -/
def mapErr (f : JsError → JsError) (result : m V) : m V := tryCatch result fun e => throw (f e)

/-- `ok`. -/
def asOk (result : m V) : m (Option V) := tryCatch (some <$> result) fun _ => pure none

/-- `JsText::new`: lone surrogates are no text. -/
def jsText (string : JsString) (rust : Str) : m Str :=
  match string.toText with
  | some text => pure text
  | none => throw (codecError "string".toList rust
      "expected Unicode text, got a string with lone surrogates".toList)

/-- Reads a value as an object that is neither an array nor a function. -/
def expectObject (value : JsValue) (rust : Str) : m JsObject :=
  match value with
  | .object base props => pure ⟨base, props⟩
  | value => throw (mismatch value.shape rust "object".toList)

/-- Reads a value as an array of exactly `len` items. -/
def expectArrayLen (value : JsValue) (rust : Str) (len : Nat) : m (List JsValue) :=
  match value with
  | .array items =>
    if items.length = len then pure items
    else throw (codecError "array".toList rust ("expected array of length ".toList ++
      Nat.toDigits 10 len ++ ", got length ".toList ++ Nat.toDigits 10 items.length))
  | value => throw (mismatch value.shape rust "array".toList)

/-- `()` is `null`, or what a function without a return value gives. -/
def decodeUnit (value : JsValue) : m Unit :=
  match value with
  | .primitive .null | .primitive .undefined => pure ()
  | value => throw (mismatch value.shape "()".toList "null".toList)

/-- The first present property among the names. -/
def fieldValue (object : JsObject) : (names : List Str) → Option JsValue
  | [] => none
  | name :: rest =>
    let value := object.get name
    if value.isAbsent then fieldValue object rest else some value

def missingField (name rust : Str) : JsError :=
  atPath (codecError "undefined".toList rust "missing field".toList) name

/-- A field without a default. One that is missing decodes from `undefined`. -/
def decodeField (object : JsObject) (names : List Str) (typeName : Str)
    (decode : JsValue → m V) : m V :=
  match fieldValue object names with
  | some value => mapErr (atPath · (names.headD [])) (decode value)
  | none => mapErr (fun _ => missingField (names.headD []) typeName) (decode .undefined)

/-- A field that takes its default when it is missing. -/
def decodeFieldOr (object : JsObject) (names : List Str) (decode : JsValue → m V)
    (default : V) : m V :=
  match fieldValue object names with
  | some value => mapErr (atPath · (names.headD [])) (decode value)
  | none => pure default

/-- A property that must be present. -/
def requireField (object : JsObject) (name rust : Str) : m JsValue :=
  match fieldValue object [name] with
  | some value => pure value
  | none => throw (missingField name rust)

def decodeItem (items : List JsValue) (index : Nat) (decode : JsValue → m V) : m V :=
  mapErr (atIndex · index) (decode (items.getD index .undefined))

/-- Encodes a value into the property of a name. -/
def encodeField (object : Props) (name : Str) (value : m JsValue) : m Props := do
  let value ← mapErr (atPath · name) value
  pure (RankedEntries.define JsString.rank object (.ofText name) value)

def encodeItem (items : List JsValue) (index : Nat) (value : m JsValue) : m (List JsValue) := do
  let value ← mapErr (atIndex · index) value
  pure (items ++ [value])

/-- Copies the properties of a value; `null` and `undefined` have none. -/
def mergeObject (target : Props) (source : JsValue) (rust : Str) : m Props :=
  match source with
  | .primitive .null | .primitive .undefined => pure target
  | .object _ props | .function _ props =>
    pure (RankedEntries.defineAll JsString.rank target props)
  | source => throw (.intoJs source.typeName rust (some
      ("expected a struct or map to merge into ".toList ++ rust ++ ", got ".toList ++
        source.typeName)))

/-- The loop of `object_without`. -/
def copyWithout (excluded : List Str) : (rest props : Props) → m Props
  | rest, [] => pure rest
  | rest, (key, value) :: props => do
    let text ← jsText key "object key".toList
    if text ∈ excluded then copyWithout excluded rest props
    else copyWithout excluded (RankedEntries.define JsString.rank rest key value) props

/-- The loop of `object_without` defines the properties it keeps. -/
theorem copyWithout_eq [LawfulMonad m] {excluded : List Str} {rest props : Props}
    (keep : JsString → Bool)
    (h : ∀ p ∈ props, ∃ text, p.1.toText = some text ∧ (keep p.1 = true ↔ text ∉ excluded)) :
    (copyWithout excluded rest props : m Props) =
      pure (RankedEntries.defineAll JsString.rank rest (props.filter fun p => keep p.1)) := by
  induction props generalizing rest with
  | nil => rfl
  | cons p props ih =>
    obtain ⟨key, value⟩ := p
    obtain ⟨⟨text, htext, hkeep⟩, hprops⟩ := List.forall_mem_cons.mp h
    have hread : (jsText key "object key".toList : m Str) = pure text := by
      rw [jsText, htext]
    rw [copyWithout, hread, pure_bind, List.filter_cons]
    by_cases hmem : text ∈ excluded
    · have hdropped : keep key = false := by simpa [hmem] using hkeep
      rw [if_pos hmem, hdropped]
      exact ih hprops
    · have hkept : keep key = true := hkeep.mpr hmem
      rw [if_neg hmem, hkept]
      exact ih hprops

/-- Copies an object without the excluded keys. -/
def objectWithout (object : JsObject) (excluded : List Str) : m JsObject := do
  let rest ← copyWithout excluded [] object.props
  pure ⟨.plain, rest⟩

/-- Names in backticks, as serde lists them. -/
def oneOf (names : List Str) : Str :=
  let quoted (name : Str) : Str := ['\x60'] ++ name ++ ['\x60']
  match names with
  | [] => "nothing".toList
  | [name] => quoted name
  | names => "one of ".toList ++ ", ".toList.intercalate (names.map quoted)

/-- The loop of `reject_unknown_fields`. -/
def rejectUnknownFrom (known : List Str) (rust : Str) : Props → m Unit
  | [] => pure ()
  | (key, _) :: props => do
    let key ← jsText key rust
    if key ∈ known then rejectUnknownFrom known rust props
    else throw (codecError "object".toList rust
      ("unknown field \x60".toList ++ key ++ "\x60, expected ".toList ++ oneOf known))

/-- Fails when the object has an own key that is not known. -/
def rejectUnknownFields (object : JsObject) (known : List Str) (rust : Str) : m Unit :=
  rejectUnknownFrom known rust object.props

/-- Reads a variant name. -/
def variantName (value : JsValue) (rust : Str) : m Str :=
  match value with
  | .primitive (.string name) => jsText name rust
  | value => throw (codecError value.typeName rust
      ("expected variant name string, got ".toList ++ value.typeName))

/-- Reads the variant name under a tag. -/
def tagField (object : JsObject) (tag rust : Str) : m Str := do
  let value ← requireField object tag rust
  mapErr (atPath · tag) (variantName value rust)

/-- Splits an externally tagged value into its variant name and payload. -/
def externalVariant (value : JsValue) (rust : Str) : m (Str × Option JsValue) :=
  match value with
  | .primitive (.string name) => do
    let name ← jsText name rust
    pure (name, none)
  | value => do
    let object : JsObject ← expectObject value rust
    match object.props with
    | [(name, payload)] => do
      let name ← jsText name rust
      pure (name, some payload)
    | _ => throw (codecError "object".toList rust
        "expected variant name string or object with exactly one key".toList)

/-- A payload that cannot be left out. -/
def variantPayload (payload : Option JsValue) (rust variant : Str) : m JsValue :=
  match payload with
  | some payload => pure payload
  | none => throw (codecError "string".toList rust
      ("expected payload for variant \x60".toList ++ variant ++
        "\x60, got bare variant name".toList))

/-- The payload of a unit variant: none, or one `()` accepts. -/
def unitPayload (payload : Option JsValue) : m Unit :=
  match payload with
  | some payload => decodeUnit payload
  | none => pure ()

def unknownVariant (found rust : Str) (variants : List Str) : JsError :=
  codecError "string".toList rust
    ("unknown variant \x60".toList ++ found ++ "\x60, expected ".toList ++ oneOf variants)

def untaggedMismatch (value : JsValue) (rust : Str) : JsError :=
  codecError value.typeName rust
    ("data did not match any variant of untagged enum ".toList ++ rust)

def skippedVariant (rust variant : Str) : JsError :=
  .intoJs rust "value".toList (some ("the enum variant ".toList ++ rust ++ "::".toList ++ variant ++
    " cannot be serialized".toList))

@[simp] theorem toOption_ok (x : V) : (Except.ok x : Except JsError V).toOption = some x := rfl

@[simp] theorem toOption_error (e : JsError) :
    (Except.error e : Except JsError V).toOption = none := rfl

@[simp] theorem toOption_throw (e : JsError) : (throw e : Except JsError V).toOption = none := rfl

@[simp] theorem toOption_pure (x : V) : (pure x : Except JsError V).toOption = some x := rfl

@[simp] theorem toOption_mapErr (f : JsError → JsError) (r : Except JsError V) :
    (mapErr f r).toOption = r.toOption := by
  cases r <;> rfl

@[simp] theorem toOption_bind {W : Type} (r : Except JsError V) (next : V → Except JsError W) :
    (r >>= next).toOption = r.toOption.bind fun x => (next x).toOption := by
  cases r <;> rfl

end RustTS.Contract
