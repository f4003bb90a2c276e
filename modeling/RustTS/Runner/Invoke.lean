import RustTS.Contract.ScalarCodec
import RustTS.Error

/-! Calls of exports: arguments and results cross as bare QuickJS values where they are scalars,
and wrapped otherwise. -/
namespace RustTS.Runner
open Contract

/-- A QuickJS value. -/
inductive RawValue (Ref : Type)
  | primitive (value : Primitive)
  | object (ref : Ref)

namespace RawValue
variable {Ref : Type}

/-- What a value shows where objects are of these kinds; an array has none. -/
def shape (kind : Ref → Option ObjectKind) : RawValue Ref → JsShape
  | .primitive value => .primitive value
  | .object ref =>
    match kind ref with
    | none => .array
    | some kind => .object kind

end RawValue

/-- The implementations of `JsEncode`. Those of references use that of what they refer to, and
those of other types have no scalar; they may change the world. -/
inductive JsEncode (F32 W Ref : Type) : Type → Type 1
  | integer (K : IntegerType) : JsEncode F32 W Ref K.Value
  | f64 : JsEncode F32 W Ref JsFloat
  | f32 : JsEncode F32 W Ref F32
  | bool : JsEncode F32 W Ref Bool
  | reference {T : Type} (codec : JsEncode F32 W Ref T) : JsEncode F32 W Ref T
  | other {T : Type} (encode : T → W → Except JsError (RawValue Ref) × W) : JsEncode F32 W Ref T

/-- The implementations of `JsDecode`; those of other types have no scalar. -/
inductive JsDecode (F32 W Ref : Type) : Type → Type 1
  | integer (K : IntegerType) : JsDecode F32 W Ref K.Value
  | f64 : JsDecode F32 W Ref JsFloat
  | f32 : JsDecode F32 W Ref F32
  | bool : JsDecode F32 W Ref Bool
  | unit : JsDecode F32 W Ref Unit
  | other {T : Type} (decode : RawValue Ref → W → Except JsError T × W) : JsDecode F32 W Ref T

/-- An argument, under its type's implementation. -/
structure Argument (F32 W Ref : Type) where
  {T : Type}
  codec : JsEncode F32 W Ref T
  value : T

/-- The implementations of `JsArgs`. -/
inductive JsArgs (F32 W Ref : Type) : Type 1
  | unit
  | tuple (arguments : List (Argument F32 W Ref))
      (arity : 1 ≤ arguments.length ∧ arguments.length ≤ 12)
  | slice {T : Type} (codec : JsEncode F32 W Ref T) (items : List T)
  | vec {T : Type} (codec : JsEncode F32 W Ref T) (items : List T)
  | reference (args : JsArgs F32 W Ref)

variable {F32 W Ref : Type} (ops : F32Ops F32) (newNumber : JsFloat → Primitive)

def JsEncode.encodeJs {T : Type} :
    JsEncode F32 W Ref T → T → W → Except JsError (RawValue Ref) × W
  | .integer K, value, w => ((IntegerType.encodeInteger value.1 K.name).map .primitive, w)
  | .f64, value, w => (.ok (.primitive (floatValue newNumber value)), w)
  | .f32, value, w => (.ok (.primitive (floatValue newNumber (widenF32 ops value))), w)
  | .bool, value, w => (.ok (.primitive (.bool value)), w)
  | .reference codec, value, w => codec.encodeJs value w
  | .other encode, value, w => encode value w

def JsEncode.encodeScalar {T : Type} : JsEncode F32 W Ref T → T → Option Primitive
  | .integer _, value => IntegerType.scalarInteger value.1
  | .f64, value => some (scalarNumber value)
  | .f32, value => some (scalarNumber (widenF32 ops value))
  | .bool, value => some (.bool value)
  | .reference codec, value => codec.encodeScalar value
  | .other _, _ => none

section Decode
variable (kind : W → Ref → Option ObjectKind)

def JsDecode.decodeJs {T : Type} : JsDecode F32 W Ref T → RawValue Ref → W → Except JsError T × W
  | .integer K, value, w => (IntegerType.decodeInteger K (value.shape (kind w)), w)
  | .f64, value, w => (decodeNumber (value.shape (kind w)) "f64".toList, w)
  | .f32, value, w => ((decodeNumber (value.shape (kind w)) "f32".toList).map ops.ofF64, w)
  | .bool, value, w => (decodeBool (value.shape (kind w)), w)
  | .unit, value, w => (decodeNull (value.shape (kind w)), w)
  | .other decode, value, w => decode value w

def JsDecode.decodeScalar {T : Type} : JsDecode F32 W Ref T → RawValue Ref → W → Option T
  | .integer K, value, w => (IntegerType.scalarSafeInteger (value.shape (kind w))).bind K.ofInt
  | .f64, value, w => scalarFloat (value.shape (kind w))
  | .f32, value, w => (scalarFloat (value.shape (kind w))).map ops.ofF64
  | .bool, value, w => scalarBool (value.shape (kind w))
  | .unit, value, w => scalarNull (value.shape (kind w))
  | .other _, _, _ => none

end Decode

/-- Encodes argument `index` and appends it, prefixing errors with `arguments[index]`. -/
def pushArgument (args : List (RawValue Ref)) (index : Nat) (argument : Argument F32 W Ref)
    (w : W) : Except JsError (List (RawValue Ref)) × W :=
  match argument.codec.encodeJs ops newNumber argument.value w with
  | (.ok value, w) => (.ok (args ++ [value]), w)
  | (.error error, w) =>
    (.error (atPath error ("arguments[".toList ++ Nat.toDigits 10 index ++ "]".toList)), w)

/-- The loop over the arguments. -/
def pushArguments (args : List (RawValue Ref)) (index : Nat) :
    List (Argument F32 W Ref) → W → Except JsError (List (RawValue Ref)) × W
  | [], w => (.ok args, w)
  | argument :: rest, w =>
    match pushArgument ops newNumber args index argument w with
    | (.ok args, w) => pushArguments args (index + 1) rest w
    | (.error error, w) => (.error error, w)

/-- The scalars of all arguments, if each has one. -/
def scalarsOf : List (Argument F32 W Ref) → Option (List Primitive)
  | [] => some []
  | argument :: rest => do
    let scalar ← argument.codec.encodeScalar ops argument.value
    let scalars ← scalarsOf rest
    some (scalar :: scalars)

/-- Writes the arguments to the front of `out`, and returns how many. -/
def writeScalars (arguments : List (Argument F32 W Ref)) (out : List Primitive) :
    Option (Nat × List Primitive) :=
  if arguments.length ≤ out.length then
    (scalarsOf ops arguments).map fun scalars =>
      (arguments.length, scalars ++ out.drop arguments.length)
  else none

namespace JsArgs

def encodeArgs : JsArgs F32 W Ref → W → Except JsError (List (RawValue Ref)) × W
  | .unit, w => (.ok [], w)
  | .tuple arguments _, w => pushArguments ops newNumber [] 0 arguments w
  | .slice codec items, w => pushArguments ops newNumber [] 0 (items.map (Argument.mk codec)) w
  | .vec codec items, w => pushArguments ops newNumber [] 0 (items.map (Argument.mk codec)) w
  | .reference args, w => args.encodeArgs w

def encodeScalars : JsArgs F32 W Ref → List Primitive → Option (Nat × List Primitive)
  | .unit, out => some (0, out)
  | .tuple arguments _, out => writeScalars ops arguments out
  | .slice codec items, out => writeScalars ops (items.map (Argument.mk codec)) out
  | .vec codec items, out => writeScalars ops (items.map (Argument.mk codec)) out
  | .reference args, out => args.encodeScalars out

end JsArgs

/-- `rquickjs::CaughtError`: what was thrown as the engine describes it, or another error. -/
inductive CaughtError
  | thrown (details : String)
  | error (error : JsError)

/-- Why `Promise::finish` has no value: no job is left to settle it, or it was rejected. -/
inductive FinishError
  | wouldBlock
  | error (error : JsError)

/-- The JavaScript engine as a call uses it, an export being called: `jsCall` is `JS_Call` with
`undefined` as `this`, which returns no value where it leaves an exception pending, `catching` takes
a pending exception where the error says there is one, `finish` runs jobs until the Promise is
settled, and `forget` takes it off the rejections to report. -/
structure Machine (W Ref : Type) where
  kind : W → Ref → Option ObjectKind
  jsCall : List (RawValue Ref) → W → Option (RawValue Ref) × W
  catching : JsError → W → CaughtError × W
  finish : Ref → W → Except FinishError (RawValue Ref) × W
  forget : Ref → W → W
  details : JsError → String

namespace Machine
variable (M : Machine W Ref)

def caughtJsError : CaughtError → VmError
  | .thrown details => .execution details
  | .error error => .execution (M.details error)

def jsError (error : JsError) : VmError := .execution (M.details error)

/-- The pending exception, as the operation's error. -/
def pendingException (w : W) : VmError × W :=
  let (error, w) := M.catching .exception w
  (M.caughtJsError error, w)

/-- `.catch(ctx).map_err(caught_js_error)`. -/
def caught {T : Type} (result : Except JsError T × W) : Except VmError T × W :=
  match result with
  | (.ok value, w) => (.ok value, w)
  | (.error error, w) =>
    let (error, w) := M.catching error w
    (.error (M.caughtJsError error), w)

/-- `Function::call_arg`. -/
def callArg (args : List (RawValue Ref)) (w : W) : Except JsError (RawValue Ref) × W :=
  match M.jsCall args w with
  | (some returned, w) => (.ok returned, w)
  | (none, w) => (.error .exception, w)

/-- The most scalar arguments passed without building a wrapper per argument. -/
def scalarArguments : Nat := 8

/-- The list encoded and passed as rquickjs does. -/
def invokeArgs (args : JsArgs F32 W Ref) (w : W) : Except VmError (RawValue Ref) × W :=
  match args.encodeArgs ops newNumber w with
  | (.ok args, w) => M.caught (M.callArg args w)
  | (.error error, w) => (.error (M.jsError error), w)

def invoke (args : JsArgs F32 W Ref) (w : W) : Except VmError (RawValue Ref) × W :=
  match args.encodeScalars ops (List.replicate scalarArguments .undefined) with
  | some (count, scalars) =>
    match M.jsCall ((scalars.take count).map .primitive) w with
    | (some returned, w) => (.ok returned, w)
    | (none, w) =>
      let (error, w) := M.pendingException w
      (.error error, w)
  | none => M.invokeArgs ops newNumber args w

/-- Awaits a Promise a script returned; `what` names the function. -/
def awaitReturned (what : String) (returned : RawValue Ref) (w : W) :
    Except VmError (RawValue Ref) × W :=
  match returned with
  | .primitive value => (.ok (.primitive value), w)
  | .object ref =>
    if M.kind w ref = some .promise then
      match M.finish ref w with
      | (.ok value, w) => (.ok value, M.forget ref w)
      | (.error .wouldBlock, w) => (.error (.execution (what ++ (" returned a Promise that never " ++
          "settles: only script Promise jobs run on an Engine"))), M.forget ref w)
      | (.error (.error error), w) =>
        let (error, w) := M.catching error w
        (.error (M.caughtJsError error), M.forget ref w)
    else (.ok (.object ref), w)

/-- Awaits the returned value and decodes it. -/
def decodeReturned {R : Type} (codec : JsDecode F32 W Ref R) (what : String)
    (returned : RawValue Ref) (w : W) : Except VmError R × W :=
  match M.awaitReturned what returned w with
  | (.ok value, w) => M.caught (codec.decodeJs ops M.kind value w)
  | (.error error, w) => (.error error, w)

/-- What `Engine::call` gives to `settle`, its export being found. -/
def call {R : Type} (codec : JsDecode F32 W Ref R) (what : String) (args : JsArgs F32 W Ref)
    (w : W) : Except VmError R × W :=
  match M.invoke ops newNumber args w with
  | (.ok returned, w) =>
    match codec.decodeScalar ops M.kind returned w with
    | some value => (.ok value, w)
    | none => M.decodeReturned ops codec what returned w
  | (.error error, w) => (.error error, w)

/-- The same call with every value wrapped. -/
def callWrapped {R : Type} (codec : JsDecode F32 W Ref R) (what : String)
    (args : JsArgs F32 W Ref) (w : W) : Except VmError R × W :=
  match M.invokeArgs ops newNumber args w with
  | (.ok returned, w) => M.decodeReturned ops codec what returned w
  | (.error error, w) => (.error error, w)

end Machine

section Sound
variable {ops} {newNumber} (hnew : MakesNumbers newNumber)
include hnew

theorem JsEncode.encodeJs_of_scalar {T : Type} {codec : JsEncode F32 W Ref T} {value : T}
    {scalar : Primitive} (h : codec.encodeScalar ops value = some scalar) (w : W) :
    codec.encodeJs ops newNumber value w = (.ok (.primitive scalar), w) := by
  induction codec with
  | integer K =>
    have hencode : IntegerType.encodeInteger value.1 K.name = .ok scalar :=
      IntegerType.scalarInteger_iff.mp h
    simp only [encodeJs, hencode]
    rfl
  | f64 =>
    have hscalar : scalarNumber value = scalar := Option.some.inj h
    rw [← hscalar, scalarNumber_eq hnew]
    rfl
  | f32 =>
    have hscalar : scalarNumber (widenF32 ops value) = scalar := Option.some.inj h
    rw [← hscalar, scalarNumber_eq hnew]
    rfl
  | bool =>
    have hscalar : Primitive.bool value = scalar := Option.some.inj h
    rw [← hscalar]
    rfl
  | reference codec ih => exact ih h
  | other encode => cases h

theorem pushArguments_of_scalars {arguments : List (Argument F32 W Ref)} {scalars : List Primitive}
    (h : scalarsOf ops arguments = some scalars) (args : List (RawValue Ref)) (index : Nat) (w : W) :
    pushArguments ops newNumber args index arguments w =
      (.ok (args ++ scalars.map .primitive), w) := by
  induction arguments generalizing scalars args index with
  | nil =>
    have hnil : [] = scalars := Option.some.inj h
    subst hnil
    simp [pushArguments]
  | cons argument rest ih =>
    simp only [scalarsOf, Option.bind_eq_bind, Option.bind_eq_some_iff] at h
    obtain ⟨scalar, hscalar, others, hothers, heq⟩ := h
    have hcons : scalar :: others = scalars := Option.some.inj heq
    subst hcons
    have hpush : pushArgument ops newNumber args index argument w =
        (.ok (args ++ [.primitive scalar]), w) := by
      unfold pushArgument
      rw [JsEncode.encodeJs_of_scalar hnew hscalar]
    simp only [pushArguments, hpush]
    rw [ih hothers, List.append_assoc]
    rfl

end Sound

theorem length_scalarsOf {ops : F32Ops F32} {arguments : List (Argument F32 W Ref)}
    {scalars : List Primitive} (h : scalarsOf ops arguments = some scalars) :
    scalars.length = arguments.length := by
  induction arguments generalizing scalars with
  | nil =>
    have hnil : [] = scalars := Option.some.inj h
    rw [← hnil]
    rfl
  | cons argument rest ih =>
    simp only [scalarsOf, Option.bind_eq_bind, Option.bind_eq_some_iff] at h
    obtain ⟨scalar, hscalar, others, hothers, heq⟩ := h
    have hcons : scalar :: others = scalars := Option.some.inj heq
    rw [← hcons, List.length_cons, List.length_cons, ih hothers]

private theorem writeScalars_eq_some {ops : F32Ops F32} {arguments : List (Argument F32 W Ref)}
    {out written : List Primitive} {count : Nat}
    (h : writeScalars ops arguments out = some (count, written)) :
    ∃ scalars, scalarsOf ops arguments = some scalars ∧ written.take count = scalars ∧
      scalars.length = count := by
  unfold writeScalars at h
  split_ifs at h with hfits
  obtain ⟨scalars, hscalars, heq⟩ := Option.map_eq_some_iff.mp h
  obtain ⟨hcount, hwritten⟩ := Prod.mk.inj heq
  have hlength := length_scalarsOf hscalars
  refine ⟨scalars, hscalars, ?_, by omega⟩
  rw [← hwritten, List.take_left' (by omega)]

theorem JsArgs.encodeArgs_of_scalars {ops : F32Ops F32} {newNumber : JsFloat → Primitive}
    (hnew : MakesNumbers newNumber) {args : JsArgs F32 W Ref} {out written : List Primitive}
    {count : Nat} (h : args.encodeScalars ops out = some (count, written)) (w : W) :
    args.encodeArgs ops newNumber w = (.ok ((written.take count).map .primitive), w) ∧
      (written.take count).length = count := by
  have hlist : ∀ arguments : List (Argument F32 W Ref),
      writeScalars ops arguments out = some (count, written) →
        pushArguments ops newNumber [] 0 arguments w =
          (.ok ((written.take count).map .primitive), w) ∧ (written.take count).length = count := by
    intro arguments hwrite
    obtain ⟨scalars, hscalars, htake, hlength⟩ := writeScalars_eq_some hwrite
    rw [htake, pushArguments_of_scalars hnew hscalars]
    exact ⟨rfl, hlength⟩
  induction args with
  | unit =>
    obtain ⟨rfl, rfl⟩ := Prod.mk.inj (Option.some.inj h)
    exact ⟨rfl, rfl⟩
  | tuple arguments arity => exact hlist arguments h
  | slice codec items => exact hlist _ h
  | vec codec items => exact hlist _ h
  | reference args ih => exact ih h

section Decode
variable {ops : F32Ops F32} {kind : W → Ref → Option ObjectKind}

private theorem JsDecode.decodeScalar_object {R : Type} (codec : JsDecode F32 W Ref R) (ref : Ref) (w : W) :
    codec.decodeScalar ops kind (.object ref) w = none := by
  have hshape : ∀ p, RawValue.shape (kind w) (.object ref) ≠ .primitive p := by
    intro p h
    simp only [RawValue.shape] at h
    split at h <;> cases h
  generalize hvalue : RawValue.shape (kind w) (.object ref) = shape at hshape
  cases shape with
  | primitive p => exact absurd rfl (hshape p)
  | array => cases codec <;> simp only [decodeScalar, hvalue] <;> rfl
  | object other => cases codec <;> simp only [decodeScalar, hvalue] <;> rfl

theorem JsDecode.decodeJs_of_scalar {R : Type} {codec : JsDecode F32 W Ref R}
    {value : RawValue Ref} {w : W} {x : R} (h : codec.decodeScalar ops kind value w = some x) :
    codec.decodeJs ops kind value w = (.ok x, w) := by
  cases codec with
  | integer K =>
    have hint : (IntegerType.safeInteger (value.shape (kind w))).bind K.ofInt = some x := h
    simp only [decodeJs, IntegerType.decodeInteger, hint]
    rfl
  | f64 =>
    have hfloat : asNumber (value.shape (kind w)) = some x := h
    simp only [decodeJs, decodeNumber, hfloat]
    rfl
  | f32 =>
    obtain ⟨number, hnumber, hx⟩ := Option.map_eq_some_iff.mp h
    have hfloat : asNumber (value.shape (kind w)) = some number := hnumber
    simp only [decodeJs, decodeNumber, hfloat]
    rw [← hx]
    rfl
  | bool =>
    simp only [decodeScalar, scalarBool] at h
    split at h
    · rename_i b hshape
      have hb : b = x := Option.some.inj h
      simp only [decodeJs, decodeBool, hshape, hb]
    · cases h
  | unit =>
    simp only [decodeScalar, scalarNull] at h
    split_ifs at h with hnull
    simp only [decodeJs, decodeNull, if_pos hnull]
  | other decode => cases h

theorem JsDecode.not_promise_of_scalar {R : Type} {codec : JsDecode F32 W Ref R}
    {value : RawValue Ref} {w : W} {x : R} (h : codec.decodeScalar ops kind value w = some x) :
    ∃ p, value = .primitive p := by
  cases value with
  | primitive p => exact ⟨p, rfl⟩
  | object ref =>
    rw [decodeScalar_object] at h
    cases h

end Decode

namespace Machine
variable {ops : F32Ops F32} {newNumber : JsFloat → Primitive} (hnew : MakesNumbers newNumber)
  (M : Machine W Ref)
include hnew

theorem invoke_eq (args : JsArgs F32 W Ref) (w : W) :
    M.invoke ops newNumber args w = M.invokeArgs ops newNumber args w := by
  unfold invoke
  split
  · rename_i count written hscalars
    obtain ⟨hencode, -⟩ := JsArgs.encodeArgs_of_scalars hnew hscalars w
    simp only [invokeArgs, hencode, callArg]
    generalize M.jsCall _ w = returned
    obtain ⟨value, w⟩ := returned
    cases value with
    | none => rfl
    | some value => rfl
  · rfl

theorem call_eq {R : Type} (codec : JsDecode F32 W Ref R) (what : String)
    (args : JsArgs F32 W Ref) (w : W) :
    M.call ops newNumber codec what args w = M.callWrapped ops newNumber codec what args w := by
  unfold call callWrapped
  rw [M.invoke_eq hnew]
  generalize M.invokeArgs ops newNumber args w = returned
  obtain ⟨value, w⟩ := returned
  cases value with
  | error error => rfl
  | ok returned =>
    dsimp only
    split
    · rename_i x hscalar
      obtain ⟨p, rfl⟩ := JsDecode.not_promise_of_scalar hscalar
      unfold decodeReturned awaitReturned
      dsimp only
      rw [JsDecode.decodeJs_of_scalar hscalar]
      rfl
    · rfl

end Machine

/-- The scalar path is the general one: arguments written as scalars are encoded as the same
values in the same order, as many of them; a result read as a scalar is no Promise and decodes to
the same; and so a call gives the same result whichever path it takes. -/
theorem scalar_path_exact (ops : F32Ops F32) (newNumber : JsFloat → Primitive)
    (hnew : MakesNumbers newNumber) (M : Machine W Ref) :
    (∀ (args : JsArgs F32 W Ref) (out written : List Primitive) (count : Nat) (w : W),
      args.encodeScalars ops out = some (count, written) →
        ∃ values, args.encodeArgs ops newNumber w = (.ok values, w) ∧ values.length = count ∧
          values = (written.take count).map .primitive) ∧
    (∀ (R : Type) (codec : JsDecode F32 W Ref R) (value : RawValue Ref) (w : W) (x : R),
      codec.decodeScalar ops M.kind value w = some x →
        codec.decodeJs ops M.kind value w = (.ok x, w) ∧
          value.shape (M.kind w) ≠ .object .promise) ∧
    ∀ (R : Type) (codec : JsDecode F32 W Ref R) (what : String) (args : JsArgs F32 W Ref) (w : W),
      M.call ops newNumber codec what args w = M.callWrapped ops newNumber codec what args w := by
  refine ⟨?_, ?_, ?_⟩
  · intro args out written count w h
    obtain ⟨hencode, hlength⟩ := JsArgs.encodeArgs_of_scalars hnew h w
    exact ⟨_, hencode, by rw [List.length_map, hlength], rfl⟩
  · intro R codec value w x h
    refine ⟨JsDecode.decodeJs_of_scalar h, ?_⟩
    obtain ⟨p, rfl⟩ := JsDecode.not_promise_of_scalar h
    intro hpromise
    cases hpromise
  · intro R codec what args w
    exact M.call_eq hnew codec what args w

/-- An export that returns its first argument, of a script without objects. -/
def echo : Machine Unit Empty where
  kind := fun _ ref => ref.elim
  jsCall := fun args w => (some (args.headD (.primitive .undefined)), w)
  catching := fun error w => (.error error, w)
  finish := fun ref _ => ref.elim
  forget := fun _ w => w
  details := fun _ => ""

/-- The `f32`s that are `f64`s. -/
def plainF32 : F32Ops JsFloat := ⟨id, id, JsFloat.toText, fun _ => none⟩

def echoArgs : JsArgs JsFloat Unit Empty :=
  .tuple [⟨.integer .i64, ⟨-7, by decide⟩⟩, ⟨.bool, true⟩] (by decide)

theorem scalar_path_exact_echo :
    echoArgs.encodeScalars plainF32 (List.replicate 2 .undefined) =
        some (2, [.int (-7), .bool true]) ∧
      echoArgs.encodeArgs plainF32 makeNumber () =
        (.ok [.primitive (.int (-7)), .primitive (.bool true)], ()) ∧
      echo.call plainF32 makeNumber (.integer .i8) "echo" echoArgs () =
        echo.callWrapped plainF32 makeNumber (.integer .i8) "echo" echoArgs () := by
  obtain ⟨hargs, -, hcall⟩ := scalar_path_exact plainF32 makeNumber makesNumbers_makeNumber echo
  have hscalars : echoArgs.encodeScalars plainF32 (List.replicate 2 .undefined) =
      some (2, [.int (-7), .bool true]) := by decide
  obtain ⟨values, hencode, -, hvalues⟩ := hargs echoArgs _ _ _ () hscalars
  refine ⟨hscalars, ?_, hcall _ (.integer .i8) "echo" echoArgs ()⟩
  rw [hencode, hvalues]
  rfl

end RustTS.Runner
