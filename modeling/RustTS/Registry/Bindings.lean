import RustTS.Contract.PlainGraph
import RustTS.Error

/-! Calls of host functions: the input a script passes is checked against the contract, then
decoded, and the handler runs with the result. -/
namespace RustTS.Registry

open RustTS.Contract

/-- `ContractValidator`: it sees a JSON snapshot of a value, never the Rust type. -/
structure ContractValidator where
  checksInput : Bool
  checksOutput : Bool
  validateInput : Json → Except VmError Unit
  validateOutput : Json → Except VmError Unit

def jsHostError (error : VmError) : JsError :=
  .fromJs "host".toList "function".toList (some error.toText.toList)

variable {V W X O : Type} (I : Interpreter V W)

/-- Checks a value, if a validation is given. -/
def checkValue (validate : Option (Json → Except VmError Unit)) (fuel : Nat) (value : V) (w : W) :
    Option (Except JsError Unit) × W :=
  match validate with
  | none => (some (.ok ()), w)
  | some validate =>
    let snapshot := I.convert (jsValueToValidationSnapshot fuel) value w
    (snapshot.1.map fun r => r.bind fun json => (validate json).mapError jsHostError, snapshot.2)

def checkInput (validator : Option ContractValidator) : (fuel : Nat) → (input : V) → W →
    Option (Except JsError Unit) × W :=
  checkValue I ((validator.filter (·.checksInput)).map (·.validateInput))

def checkOutput (validator : Option ContractValidator) : (fuel : Nat) → (output : V) → W →
    Option (Except JsError Unit) × W :=
  checkValue I ((validator.filter (·.checksOutput)).map (·.validateOutput))

/-- A contract's codecs. The input's decoder sees the value through its reads; the output's
encoder makes a new one. -/
structure Signature (V W X O : Type) where
  decode : (fuel handle : Nat) → JsShape → Conversion X
  encode : O → W → Except JsError V × W

/-- How a call went: the input its handler ran with, if it did, and what the script gets, `none`
while the call is still converting. -/
structure Call (V X : Type) where
  handled : Option X
  result : Option (Except JsError V)

def callNative (signature : Signature V W X O) (handler : X → W → Except VmError O × W)
    (fuel : Nat) (input : V) (w : W) : Call V X × W :=
  match I.convert (signature.decode fuel) input w with
  | (none, w) => (⟨none, none⟩, w)
  | (some (.error e), w) => (⟨none, some (.error e)⟩, w)
  | (some (.ok x), w) =>
    match handler x w with
    | (.error e, w) => (⟨some x, some (.error (jsHostError e))⟩, w)
    | (.ok output, w) =>
      let encoded := signature.encode output w
      (⟨some x, some encoded.1⟩, encoded.2)

def callValidated (signature : Signature V W X O) (validator : ContractValidator)
    (handler : X → W → Except VmError O × W) (fuel : Nat) (input : V) (w : W) : Call V X × W :=
  match checkInput I (some validator) fuel input w with
  | (none, w) => (⟨none, none⟩, w)
  | (some (.error e), w) => (⟨none, some (.error e)⟩, w)
  | (some (.ok ()), w) =>
    match callNative I signature handler fuel input w with
    | (⟨handled, some (.ok output)⟩, w) =>
      let checked := checkOutput I (some validator) fuel output w
      (⟨handled, checked.1.map fun r => r.map fun _ => output⟩, checked.2)
    | call => call

/-- The function a synchronous binding installs. A handler that asks which script called it is
given the caller when it is installed. -/
def syncCall (signature : Signature V W X O) (validator : Option ContractValidator)
    (handler : X → W → Except VmError O × W) : (fuel : Nat) → (input : V) → W → Call V X × W :=
  match validator with
  | none => callNative I signature handler
  | some validator => callValidated I signature validator handler

/-- What `AsyncBinding` prepares a call with: the input its handler then runs with. -/
def asyncInput (signature : Signature V W X O) (validator : Option ContractValidator) (fuel : Nat)
    (input : V) (w : W) : Option (Except JsError X) × W :=
  match checkInput I validator fuel input w with
  | (none, w) => (none, w)
  | (some (.error e), w) => (some (.error e), w)
  | (some (.ok ()), w) => I.convert (signature.decode fuel) input w

/-- The two kinds of host functions. -/
inductive Binding (W X O : Type)
  | sync (handler : X → W → Except VmError O × W)
  | async

/-- The input the handler runs with, if it runs. -/
def Binding.handled (binding : Binding W X O) (signature : Signature V W X O)
    (validator : Option ContractValidator) (fuel : Nat) (input : V) (w : W) : Option X :=
  match binding with
  | .sync handler => (syncCall I signature validator handler fuel input w).1.handled
  | .async =>
    match (asyncInput I signature validator fuel input w).1 with
    | some (.ok x) => some x
    | _ => none

variable {I} {signature : Signature V W X O} {validator : ContractValidator} {fuel : Nat}
  {input : V} {w : W} {x : X}

private theorem callNative_handled (handler : X → W → Except VmError O × W) :
    (callNative I signature handler fuel input w).1.handled = some x ↔
      (I.convert (signature.decode fuel) input w).1 = some (.ok x) := by
  unfold callNative
  rcases I.convert (signature.decode fuel) input w with ⟨_ | (e | y), w'⟩
  · simp
  · simp
  · rcases hhandler : handler y w' with ⟨e | output, w''⟩ <;> simp [hhandler]

/-- A snapshot of the input passed validation, and the state is `w'` after it was taken. -/
def Validated (I : Interpreter V W) (validator : ContractValidator) (fuel : Nat) (input : V)
    (w : W) (snapshot : Json) (w' : W) : Prop :=
  I.convert (jsValueToValidationSnapshot fuel) input w = (some (.ok snapshot), w') ∧
    validator.validateInput snapshot = .ok ()

private theorem checkInput_ok (hchecks : validator.checksInput = true) {w' : W} :
    checkInput I (some validator) fuel input w = (some (.ok ()), w') ↔
      ∃ snapshot, Validated I validator fuel input w snapshot w' := by
  unfold checkInput checkValue Validated
  simp only [Option.filter_some, hchecks, if_true, Option.map_some]
  rcases I.convert (jsValueToValidationSnapshot fuel) input w with ⟨_ | (e | snapshot), w''⟩
  · simp
  · simp [Except.bind]
  · cases hvalid : validator.validateInput snapshot <;> simp [Except.bind, Except.mapError, hvalid]

theorem callValidated_handled (handler : X → W → Except VmError O × W) :
    (callValidated I signature validator handler fuel input w).1.handled = some x ↔
      ∃ w', checkInput I (some validator) fuel input w = (some (.ok ()), w') ∧
        (I.convert (signature.decode fuel) input w').1 = some (.ok x) := by
  unfold callValidated
  rcases checkInput I (some validator) fuel input w with ⟨_ | (e | ⟨⟩), w'⟩
  · simp
  · simp
  · have hnative : (callNative I signature handler fuel input w').1.handled = some x ↔
        (I.convert (signature.decode fuel) input w').1 = some (.ok x) := callNative_handled handler
    rcases hcall : callNative I signature handler fuel input w' with
      ⟨⟨handled, _ | (e | output)⟩, w''⟩
    all_goals
      rw [hcall] at hnative
      simpa [hcall] using hnative

private theorem asyncInput_ok :
    (asyncInput I signature (some validator) fuel input w).1 = some (.ok x) ↔
      ∃ w', checkInput I (some validator) fuel input w = (some (.ok ()), w') ∧
        (I.convert (signature.decode fuel) input w').1 = some (.ok x) := by
  unfold asyncInput
  rcases checkInput I (some validator) fuel input w with ⟨_ | (e | ⟨⟩), w'⟩ <;> simp

/-- With input validation on, the handler of either kind runs with what the input decodes to
after a snapshot of it passed. -/
theorem Binding.handled_iff (hchecks : validator.checksInput = true) (binding : Binding W X O) :
    binding.handled I signature (some validator) fuel input w = some x ↔
      ∃ snapshot w', Validated I validator fuel input w snapshot w' ∧
        (I.convert (signature.decode fuel) input w').1 = some (.ok x) := by
  have hcall : binding.handled I signature (some validator) fuel input w = some x ↔
      ∃ w', checkInput I (some validator) fuel input w = (some (.ok ()), w') ∧
        (I.convert (signature.decode fuel) input w').1 = some (.ok x) := by
    cases binding with
    | sync handler => exact callValidated_handled handler
    | async =>
      rw [← asyncInput_ok]
      unfold handled
      rcases (asyncInput I signature (some validator) fuel input w).1 with _ | (e | y) <;> simp
  rw [hcall, exists_comm]
  simp only [checkInput_ok hchecks, exists_and_right]

/-- A plain value: a graph and a value of it. -/
structure PlainValue where
  size : Nat
  heap : Heap size
  value : GraphValue size

namespace PlainValue

def shape (p : PlainValue) : JsShape := p.value.shape p.heap

/-- What a conversion makes of it. -/
def convert (p : PlainValue) (c : Nat → JsShape → Conversion X) : Option (Except JsError X) :=
  ((plain p.heap).convert c p.value ()).1

/-- Its validation snapshot. -/
def HasSnapshot (p : PlainValue) (snapshot : Json) : Prop :=
  ∃ fuel, p.convert (jsValueToValidationSnapshot fuel) = some (.ok snapshot)

end PlainValue

/-- What an input is handled as is what was validated: the handler runs only with what a plain value
decodes to whose snapshot is the one that passed. -/
def HandlesValidated (I : Interpreter V W) (validator : ContractValidator)
    (signature : Signature V W X O) (binding : Binding W X O) (fuel : Nat) (input : V) (w : W) :
    Prop :=
  ∀ x, binding.handled I signature (some validator) fuel input w = some x →
    ∃ snapshot w', Validated I validator fuel input w snapshot w' ∧
      ∃ p : PlainValue, p.HasSnapshot snapshot ∧ p.convert (signature.decode fuel) = some (.ok x)

/-- After a snapshot of an input passed, the input answers each read that the decoder makes as a
plain value does whose snapshot is that one, as far as the decoder can tell. -/
def ReadsAsValidated (I : Interpreter V W) (validator : ContractValidator)
    (signature : Signature V W X O) (fuel : Nat) (input : V) (w : W) : Prop :=
  ∀ snapshot w', Validated I validator fuel input w snapshot w' →
    ∃ p : PlainValue, p.HasSnapshot snapshot ∧
      signature.decode fuel 0 (I.shape input) = signature.decode fuel 0 p.shape ∧
      (signature.decode fuel 0 (I.shape input)).Alike I.answer (plain p.heap).answer ([input], w')
        ([p.value], ())

/-- What the decoder makes of a value tells apart the shapes and answers that it treats
differently. -/
structure Signature.Discerning (signature : Signature V W X O) (fuel : Nat) : Prop where
  shape : ∀ shape shape' x, (signature.decode fuel 0 shape).MayReturn (some (.ok x)) →
    (signature.decode fuel 0 shape').MayReturn (some (.ok x)) →
      signature.decode fuel 0 shape = signature.decode fuel 0 shape'
  reads : ∀ shape, (signature.decode fuel 0 shape).Discerning fun r => ∃ x, r = some (.ok x)

theorem Validated.unique {snapshot snapshot' : Json} {w' w'' : W}
    (h : Validated I validator fuel input w snapshot w')
    (h' : Validated I validator fuel input w snapshot' w'') : snapshot = snapshot' ∧ w' = w'' := by
  have heq := h.1.symm.trans h'.1
  simpa using heq

/-- An input that the decoder reads as it was validated is handled as validated; and where the
decoder is discerning and the handler runs, no other input is. -/
theorem handlesValidated_of_reads (I : Interpreter V W) (validator : ContractValidator)
    (hchecks : validator.checksInput = true) (signature : Signature V W X O)
    (binding : Binding W X O) (fuel : Nat) (input : V) (w : W) :
    (ReadsAsValidated I validator signature fuel input w →
      HandlesValidated I validator signature binding fuel input w) ∧
    (signature.Discerning fuel →
      ∀ x, binding.handled I signature (some validator) fuel input w = some x →
        (HandlesValidated I validator signature binding fuel input w ↔
          ReadsAsValidated I validator signature fuel input w)) := by
  have hreads : ReadsAsValidated I validator signature fuel input w →
      HandlesValidated I validator signature binding fuel input w := by
    intro h x hhandled
    obtain ⟨snapshot, w', hvalid, hdecode⟩ := (binding.handled_iff hchecks).mp hhandled
    obtain ⟨p, hsnapshot, hshape, halike⟩ := h snapshot w' hvalid
    refine ⟨snapshot, w', hvalid, p, hsnapshot, ?_⟩
    show ((signature.decode fuel 0 p.shape).run (plain p.heap).answer ([p.value], ())).1 = _
    rw [← hshape, ← halike.run]
    exact hdecode
  refine ⟨hreads, fun hdiscerning x hhandled => ⟨fun h snapshot w' hvalid => ?_, hreads⟩⟩
  obtain ⟨_, _, hpassed, p, hsnapshot, hplain⟩ := h x hhandled
  obtain ⟨_, _, hchecked, hdecode⟩ := (binding.handled_iff hchecks).mp hhandled
  obtain ⟨rfl, rfl⟩ := hvalid.unique hpassed
  obtain ⟨rfl, rfl⟩ := hvalid.unique hchecked
  -- Both runs of the decoder end in `x`, so it cannot tell them apart.
  have hinput : ((signature.decode fuel 0 (I.shape input)).run I.answer ([input], w')).1 =
      some (.ok x) := hdecode
  have hvalue : ((signature.decode fuel 0 p.shape).run (plain p.heap).answer ([p.value], ())).1 =
      some (.ok x) := hplain
  have hmay := Asking.mayReturn_run I.answer
    (signature.decode fuel 0 (I.shape input)) ([input], w')
  have hmay' := Asking.mayReturn_run (plain p.heap).answer
    (signature.decode fuel 0 p.shape) ([p.value], ())
  rw [hinput] at hmay
  rw [hvalue] at hmay'
  have hshape := hdiscerning.shape _ _ x hmay hmay'
  refine ⟨p, hsnapshot, hshape, ?_⟩
  rw [← hshape] at hvalue
  exact (hdiscerning.reads (I.shape input)).alike ⟨x, rfl⟩ hinput hvalue

/-- An array whose only item is an accessor that returns 1 the first `times` times and 1000
afterwards. The values are the array and the numbers; the state counts the accessor's calls. -/
def accessorArray (times : Nat) : Interpreter (Option Int32) Nat where
  shape
    | none => .array
    | some i => .primitive (.int i)
  get v key calls :=
    if v = none ∧ key = .ofText "length".toList then (.ok (some 1), calls)
    else (.error .exception, calls)
  item v index calls :=
    if v = none ∧ index = 0 then (.ok (some (if calls < times then 1 else 1000)), calls + 1)
    else (.error .exception, calls)
  keys _ calls := (.ok [indexKey 0], calls)
  bytes _ _ := none

/-- Accepts arrays of numbers. -/
def numbersValidator : ContractValidator where
  checksInput := true
  checksOutput := false
  validateInput
    | .array items =>
      if items.all fun json => json matches .number _ then .ok ()
      else .error (.contractValidation "numbers" "input" "items[0]: expected number")
    | _ => .error (.contractValidation "numbers" "input" "expected array")
  validateOutput _ := .ok ()

/-- `i32`'s decoder. -/
def decodeI32 (value : JsShape) : Except JsError Int32 :=
  let mismatched := .error (mismatch value "i32".toList "integer in i32 range".toList)
  match value with
  | .primitive (.int i) => .ok i
  | .primitive (.float f) =>
    match exactInteger f with
    | some wide => if -2 ^ 31 ≤ wide ∧ wide < 2 ^ 31 then .ok (Int32.ofInt wide) else mismatched
    | none => mismatched
  | _ => mismatched

/-- The only item of `(i32,)`. -/
def decodeI32Item (handle : Nat) : Conversion Int32 :=
  (Conversion.item handle 0).andThen fun (_, item) =>
    Conversion.ofExcept ((decodeI32 item).mapError (atIndex · 0))

/-- The items of `(i32,)`, by the array's length. -/
def decodeI32Items (handle : Nat) (length : JsShape) : Conversion Int32 :=
  (Conversion.ofExcept (arrayLength length "tuple".toList)).andThen fun len =>
    if len = 1 then decodeI32Item handle
    else Conversion.error (codecError "array".toList "tuple".toList
      ("expected array of length 1, got length ".toList ++ Nat.toDigits 10 len))

/-- The decoder of the tuple `(i32,)`. -/
def decodeI32Tuple (_fuel handle : Nat) (shape : JsShape) : Conversion Int32 :=
  if shape = .array then
    (Conversion.get handle (.ofText "length".toList)).andThen fun (_, length) =>
      decodeI32Items handle length
  else Conversion.error (mismatch shape "tuple".toList "array".toList)

/-- A function that takes `(i32,)`. -/
def i32Tuple : Signature (Option Int32) Nat Int32 Unit where
  decode := decodeI32Tuple
  encode _ calls := (.error .exception, calls)

theorem decodeI32Items_cases (handle : Nat) (length : JsShape) :
    decodeI32Items handle length = decodeI32Item handle ∨
      ∃ e, decodeI32Items handle length = Conversion.error e := by
  unfold decodeI32Items
  rcases arrayLength length "tuple".toList with e | len
  · exact .inr ⟨e, rfl⟩
  · rw [Conversion.ok_andThen]
    split_ifs with hlen
    · exact .inl rfl
    · exact .inr ⟨_, rfl⟩

/-- The decoder of `(i32,)` tells apart what it treats differently. -/
theorem i32Tuple_discerning (fuel : Nat) : i32Tuple.Discerning fuel where
  shape := by
    have harray : ∀ shape x, (decodeI32Tuple fuel 0 shape).MayReturn (some (.ok x)) →
        shape = .array := by
      intro shape x hmay
      by_contra hshape
      rw [decodeI32Tuple, if_neg hshape] at hmay
      cases hmay
    intro shape shape' x hmay hmay'
    show decodeI32Tuple fuel 0 shape = decodeI32Tuple fuel 0 shape'
    rw [harray shape x hmay, harray shape' x hmay']
  reads := by
    have hitem : (decodeI32Item 0).Discerning fun r => ∃ x, r = some (.ok x) := by
      constructor
      · rintro (e | ⟨_, item⟩) (e' | ⟨_, item'⟩) r ⟨x, rfl⟩ hmay hmay'
        · cases hmay
        · cases hmay
        · cases hmay'
        · exact congrArg Asking.done (hmay.trans hmay'.symm)
      · rintro (e | ⟨_, item⟩) <;> trivial
    have hitems : ∀ length x, (decodeI32Items 0 length).MayReturn (some (.ok x)) →
        decodeI32Items 0 length = decodeI32Item 0 := by
      intro length x hmay
      rcases decodeI32Items_cases 0 length with hlength | ⟨e, hlength⟩
      · exact hlength
      · rw [hlength] at hmay
        cases hmay
    intro shape
    show (decodeI32Tuple fuel 0 shape).Discerning _
    unfold decodeI32Tuple
    split_ifs with hshape
    · constructor
      · rintro (e | ⟨_, length⟩) (e' | ⟨_, length'⟩) r ⟨x, rfl⟩ hmay hmay'
        · cases hmay
        · cases hmay
        · cases hmay'
        · exact (hitems length x hmay).trans (hitems length' x hmay').symm
      · rintro (e | ⟨_, length⟩)
        · trivial
        · show (decodeI32Items 0 length).Discerning _
          rcases decodeI32Items_cases 0 length with hlength | ⟨e, hlength⟩
          · rw [hlength]
            exact hitem
          · rw [hlength]
            trivial
    · trivial

theorem decodeI32_of_one {p : Primitive}
    (h : primitiveToJson p .validation = .ok (.number (.posInt 1))) :
    decodeI32 (.primitive p) = .ok 1 := by
  have hofInt : ∀ {i : Int}, Number.ofInt i = .posInt 1 → i = 1 := by
    intro i hi
    unfold Number.ofInt at hi
    split_ifs at hi
    have hnat : i.toNat = 1 := by simpa using hi
    omega
  cases p with
  | int i =>
    have hi : i.toInt = 1 := hofInt (by simpa [primitiveToJson] using h)
    obtain rfl : i = 1 := Int32.toInt_inj.mp hi
    rfl
  | float f =>
    have hf : floatToJson f .validation = .ok (.number (.posInt 1)) := h
    unfold floatToJson at hf
    cases hexact : exactInteger f with
    | some k =>
      rw [hexact] at hf
      obtain rfl : k = 1 := hofInt (by simpa using hf)
      simp only [decodeI32, hexact]
      rfl
    | none =>
      rw [hexact] at hf
      rcases f with _ | (_ | _) | _ <;> simp [nanStandIn, infinityStandIn, negInfinityStandIn] at hf
  | string s =>
    simp only [primitiveToJson] at h
    cases hs : stringText s <;> simp [hs, Except.map] at h
  | _ => simp [primitiveToJson] at h

/-- No plain value whose snapshot is `[1]` decodes as 1000. -/
theorem decodeI32Tuple_of_one {p : PlainValue} (fuel : Nat) {i : Int32}
    (hsnapshot : p.HasSnapshot (.array [.number (.posInt 1)]))
    (hdecode : p.convert (decodeI32Tuple fuel) = some (.ok i)) : i = 1 := by
  obtain ⟨size, heap, value⟩ := p
  obtain ⟨fuel', hfuel⟩ := hsnapshot
  have hwalk : Recursion.fuelled (walk heap .validation) fuel' value =
      some (.ok (.array [.number (.posInt 1)])) := by
    rw [← convert_toJson]
    exact hfuel
  have hnotArray : value.shape heap ≠ .array → i = 1 := by
    intro hshape
    have hrun : ((decodeI32Tuple fuel 0 (value.shape heap)).run (plain heap).answer ([value], ())).1 =
        some (.ok i) := hdecode
    rw [decodeI32Tuple, if_neg hshape] at hrun
    cases hrun
  cases value with
  | primitive p => exact hnotArray (by rintro ⟨⟩)
  | ref object =>
    cases fuel' with
    | zero => cases hwalk
    | succ fuel' =>
      rcases eval_walk_ref hwalk with ⟨items, bound, jsons, hnode, hjson, hitems⟩ |
        ⟨content, hnode, -⟩ | ⟨fields, hjson⟩
      · -- The array has one item, a primitive that converts to 1.
        obtain rfl : [.number (.posInt 1)] = jsons := by simpa using hjson
        obtain ⟨v, rest, hv, hrest, rfl⟩ := List.forall₂_cons_right_iff.mp hitems
        obtain rfl : rest = [] := List.forall₂_nil_right_iff.mp hrest
        obtain ⟨p, rfl, hp⟩ := fuelled_number hv
        have hroot : [GraphValue.ref object][0]? = some (.ref object) := rfl
        have hitem : (heap object).item 0 = .primitive p := by
          rw [hnode]
          rfl
        have hlength := run_get heap hroot (.ofText "length".toList)
        rw [get_length hnode, List.length_singleton] at hlength
        have hyields : Yields heap (decodeI32Tuple fuel 0 .array) [.ref object] (some (.ok 1)) := by
          rw [decodeI32Tuple, if_pos rfl]
          apply Yields.received hlength
          show Yields heap ((Conversion.ofExcept
            (arrayLength (.primitive (numberValue 1)) "tuple".toList)).andThen _) _ _
          rw [arrayLength_numberValue (by decide), Conversion.ok_andThen, if_pos rfl]
          have hread := run_item heap (received_append hroot [.primitive (numberValue 1)]) 0
          rw [hitem] at hread
          apply Yields.received hread
          show Yields heap (Conversion.ofExcept ((decodeI32 (.primitive p)).mapError _)) _ _
          rw [decodeI32_of_one hp]
          exact .done _
        obtain ⟨more, hrun⟩ := hyields
        have hshape : GraphValue.shape heap (.ref object) = .array := by
          rw [GraphValue.shape, hnode]
          rfl
        have hone : ((decodeI32Tuple fuel 0 (GraphValue.shape heap (.ref object))).run
            (plain heap).answer ([.ref object], ())).1 = some (.ok i) := hdecode
        rw [hshape, hrun] at hone
        simpa using hone.symm
      · apply hnotArray
        rw [GraphValue.shape, hnode]
        rintro ⟨⟩
      · cases hjson

theorem accessorArray_handled {times : Nat} (htimes : 0 < times) {x : Int32}
    (h : HandlesValidated (accessorArray times) numbersValidator i32Tuple .async 2 none 0)
    (hhandled : (Binding.async (W := Nat) (O := Unit)).handled (accessorArray times) i32Tuple
      (some numbersValidator) 2 none 0 = some x) : x = 1 := by
  obtain ⟨snapshot, w', hvalid, p, hsnapshot, hdecode⟩ := h x hhandled
  have hpassed : Validated (accessorArray times) numbersValidator 2 none 0
      (.array [.number (.posInt 1)]) 1 := by
    cases times with
    | zero => cases htimes
    | succ times => exact ⟨rfl, rfl⟩
  obtain ⟨rfl, -⟩ := hpassed.unique hvalid
  exact decodeI32Tuple_of_one 2 hsnapshot hdecode

/-- The handler runs with 1000 although no plain value whose snapshot passed decodes as that. -/
theorem accessorArray_not_handlesValidated :
    (Binding.async (W := Nat) (O := Unit)).handled (accessorArray 1) i32Tuple
        (some numbersValidator) 2 none 0 = some 1000 ∧
    ¬HandlesValidated (accessorArray 1) numbersValidator i32Tuple .async 2 none 0 := by
  refine ⟨rfl, fun h => ?_⟩
  have hone : (1000 : Int32) = 1 := accessorArray_handled (by decide) h rfl
  exact absurd hone (by decide)

/-- An accessor that changes its answer only after the decoder's read is read, and handled, as
validated; one that changes it before is not read as validated. -/
theorem handlesValidated_of_reads_accessorArray :
    HandlesValidated (accessorArray 2) numbersValidator i32Tuple .async 2 none 0 ∧
    ¬ReadsAsValidated (accessorArray 1) numbersValidator i32Tuple 2 none 0 := by
  have htheorem := fun times =>
    handlesValidated_of_reads (accessorArray times) numbersValidator rfl i32Tuple .async 2 none 0
  constructor
  · apply (htheorem 2).1
    intro snapshot w' hvalid
    have hpassed : Validated (accessorArray 2) numbersValidator 2 none 0
        (.array [.number (.posInt 1)]) 1 := ⟨rfl, rfl⟩
    obtain ⟨rfl, rfl⟩ := hpassed.unique hvalid
    refine ⟨⟨1, fun _ => .array [.primitive (.int 1)] (by decide), .ref 0⟩, ⟨2, rfl⟩, rfl, ?_⟩
    exact ⟨rfl, rfl, trivial⟩
  · intro hreads
    have hhandles := ((htheorem 1).2 (i32Tuple_discerning 2) 1000 rfl).mpr hreads
    have hone : (1000 : Int32) = 1 := accessorArray_handled (by decide) hhandles rfl
    exact absurd hone (by decide)

end RustTS.Registry
