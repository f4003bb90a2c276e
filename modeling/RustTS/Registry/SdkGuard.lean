import RustTS.Contract.JsNumber

/-! The type guards of the generated SDK: the predicate on a value that is generated for a type, as
an expression, and what it comes to in JavaScript. -/
namespace RustTS.Registry
open RustTS.Contract

/-- The expressions that the predicates are about. -/
inductive Operand
  | value
  | item
  | field (of : Operand) (key : Str)
  | index (of : Operand) (index : Nat)

/-- `typeof`, the helpers of the SDK and their operators, disjunctions in parentheses. -/
inductive Predicate
  | always
  | isUndefined (of : Operand)
  | isNull (of : Operand)
  | isBoolean (of : Operand)
  | isFiniteNumber (of : Operand)
  | isString (of : Operand)
  | isUint8Array (of : Operand)
  | equals (of : Operand) (literal : TsLiteral)
  | isRecord (of : Operand)
  | isArrayOfLength (of : Operand) (length : Nat)
  | isArrayOf (of : Operand) (predicate : Predicate)
  | isRecordOf (of : Operand) (predicate : Predicate)
  | keyEquals (name : Str)
  | keyIsNumeric
  | all (predicates : List Predicate)
  | any (predicates : List Predicate)

/-- `join_predicates`. -/
def joinPredicates (join : List Predicate → Predicate) (predicates : List Predicate) : Predicate :=
  if predicates.isEmpty then .always else join predicates

def anyOf (predicates : List Predicate) : Predicate := joinPredicates .any predicates

def defaultEnumTag : Str := "type".toList

/-- `render_rest_predicate`, given the predicate of the `rest` type. -/
def renderRestPredicate (declared : List Str) (rest : Predicate) (e : Operand) : Predicate :=
  .isRecordOf e (anyOf (declared.map .keyEquals ++ [rest]))

/-- `render_field_predicate`, given the predicate of the field's type. -/
def renderFieldPredicate (isOptional : Bool) (access : Operand) (predicate : Predicate) :
    Predicate :=
  if isOptional then anyOf [.isUndefined access, predicate] else predicate

def keyPredicate : TsRecordKey → Predicate
  | .string => .always
  | .number => .keyIsNumeric

/-- `render_record_predicate`, given the predicate of the values. -/
def renderRecordPredicate (key : TsRecordKey) (value : Predicate) (e : Operand) : Predicate :=
  .isRecordOf e (.all [keyPredicate key, value])

mutual

def renderValuePredicate : TsType → Operand → Predicate
  | .unknown, _ => .always
  | .json, _ => .always
  | .typeRef _, _ => .always
  | .void, e => .isUndefined e
  | .boolean, e => .isBoolean e
  | .number, e => .isFiniteNumber e
  | .string, e => .isString e
  | .uint8Array, e => .isUint8Array e
  | .null, e => .isNull e
  | .literal literal, e => .equals e literal
  | .object fields, e => joinPredicates .all (.isRecord e :: renderFieldPredicates fields e)
  | .openObject fields rest, e =>
    joinPredicates .all (.isRecord e :: renderFieldPredicates fields e ++
      [renderRestPredicate (fields.map TsField.name) (renderValuePredicate rest .item) e])
  | .array item, e => .isArrayOf e (renderValuePredicate item .item)
  | .tuple items, e =>
    joinPredicates .all (.isArrayOfLength e items.length :: renderItemPredicates items 0 e)
  | .enum tag variants, e =>
    if variants.all TsEnumVariant.isUnit then
      anyOf (variants.map fun variant => .equals e (.string variant.name))
    else
      .all [.isRecord e,
        joinPredicates .any (renderVariantPredicates (tag.getD defaultEnumTag) variants e)]
  | .record key value, e => renderRecordPredicate key (renderValuePredicate value .item) e
  | .union types, e => anyOf (renderMemberPredicates types e)
  | .optional inner, e => anyOf [.isUndefined e, renderValuePredicate inner e]
  | .nullable inner, e => anyOf [.isNull e, renderValuePredicate inner e]

def renderFieldPredicates : List TsField → Operand → List Predicate
  | [], _ => []
  | .mk name ty isOptional :: fields, e =>
    renderFieldPredicate isOptional (.field e name) (renderValuePredicate ty (.field e name)) ::
      renderFieldPredicates fields e

def renderItemPredicates : List TsType → (index : Nat) → Operand → List Predicate
  | [], _, _ => []
  | ty :: items, index, e =>
    renderValuePredicate ty (.index e index) :: renderItemPredicates items (index + 1) e

def renderVariantPredicates (tag : Str) : List TsEnumVariant → Operand → List Predicate
  | [], _ => []
  | .mk name fields none :: variants, e =>
    joinPredicates .all (.equals (.field e tag) (.string name) :: renderFieldPredicates fields e) ::
      renderVariantPredicates tag variants e
  | .mk name fields (some rest) :: variants, e =>
    joinPredicates .all (.equals (.field e tag) (.string name) :: renderFieldPredicates fields e ++
      [renderRestPredicate (tag :: fields.map TsField.name) (renderValuePredicate rest .item) e]) ::
      renderVariantPredicates tag variants e

def renderMemberPredicates : List TsType → Operand → List Predicate
  | [], _ => []
  | ty :: types, e => renderValuePredicate ty e :: renderMemberPredicates types e

end

/-- The variables of a predicate. -/
structure Scope where
  value : JsValue
  item : JsValue
  key : JsString

def Operand.eval (scope : Scope) : Operand → JsValue
  | value => scope.value
  | item => scope.item
  | field of key =>
    match of.eval scope with
    | .object base props => JsObject.get ⟨base, props⟩ key
    | _ => .undefined
  | index of i =>
    match of.eval scope with
    | .array items => items.getD i .undefined
    | _ => .undefined

section
-- What a value's comparison with source text comes to that is no decimal literal.
variable (equalsSource : Str → JsValue → Bool)

/-- `===` with a literal. -/
def strictEquals (value : JsValue) : TsLiteral → Bool
  | .string text =>
    match value with
    | .primitive (.string string) => string = .ofText text
    | _ => false
  | .number text =>
    match sourceNumeral text with
    | some number => value.toF64.any fun own => own.eq number
    | none => equalsSource text value
  | .boolean expected =>
    match value with
    | .primitive (.bool own) => own = expected
    | _ => false

mutual

def Predicate.holds : Predicate → Scope → Bool
  | .always, _ => true
  | .isUndefined e, scope =>
    match e.eval scope with
    | .primitive .undefined => true
    | _ => false
  | .isNull e, scope =>
    match e.eval scope with
    | .primitive .null => true
    | _ => false
  | .isBoolean e, scope =>
    match e.eval scope with
    | .primitive (.bool _) => true
    | _ => false
  | .isFiniteNumber e, scope => (e.eval scope).toF64.any F64.isFinite
  | .isString e, scope =>
    match e.eval scope with
    | .primitive (.string _) => true
    | _ => false
  -- Plain values are no typed arrays.
  | .isUint8Array _, _ => false
  | .equals e literal, scope => strictEquals equalsSource (e.eval scope) literal
  | .isRecord e, scope =>
    match e.eval scope with
    | .object .. => true
    | _ => false
  | .isArrayOfLength e length, scope =>
    match e.eval scope with
    | .array items => items.length = length
    | _ => false
  | .isArrayOf e predicate, scope =>
    match e.eval scope with
    | .array items => items.all fun item => predicate.holds { scope with item := item }
    | _ => false
  | .isRecordOf e predicate, scope =>
    match e.eval scope with
    | .object _ props =>
      props.all fun (key, item) => predicate.holds { scope with item := item, key := key }
    | _ => false
  | .keyEquals name, scope => scope.key = .ofText name
  | .keyIsNumeric, scope => scope.key.isNumeric
  | .all predicates, scope => allHold predicates scope
  | .any predicates, scope => anyHolds predicates scope

def allHold : List Predicate → Scope → Bool
  | [], _ => true
  | predicate :: predicates, scope => predicate.holds scope && allHold predicates scope

def anyHolds : List Predicate → Scope → Bool
  | [], _ => false
  | predicate :: predicates, scope => predicate.holds scope || anyHolds predicates scope

end

/-- The type guard that is generated for a type, called with a value. -/
def typeGuard (ty : TsType) (value : JsValue) : Bool :=
  (renderValuePredicate ty .value).holds equalsSource ⟨value, .undefined, []⟩

end

example : typeGuard (fun _ _ => false) (.union []) .undefined = true := by decide

end RustTS.Registry
