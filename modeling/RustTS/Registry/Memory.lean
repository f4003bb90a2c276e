import RustTS.Lib.Transition
import RustTS.Contract.Descriptor
import RustTS.Registry.Bindings

/-! The in-memory registry: descriptors and function bindings by name, each map under a lock of its
own. A registration from any thread updates the one, then the other. -/
namespace RustTS.Registry

open RustTS.Contract

inductive VmContractValidation
  | disabled
  | inputs
  | inputsAndOutputs
  deriving DecidableEq, Repr

def VmContractValidation.validatesInputs : VmContractValidation → Bool
  | .inputs | .inputsAndOutputs => true
  | .disabled => false

def VmContractValidation.validatesOutputs : VmContractValidation → Bool
  | .inputsAndOutputs => true
  | .disabled | .inputs => false

/-- What validates values: the policies, and the check of a value against a schema, which names the
field at fault. -/
structure Validation (S : Type) where
  contract : VmContractValidation
  rejectsUnknownFields : Bool
  validateSchema : (schema : S) → Json → (rejectUnknownFields : Bool) → Except String Unit

/-- One call of a `register_*` method: what its contract type gives, and the handler. -/
inductive Registration (S H : Type)
  | function (contract : HostContract) (input output : S) (handler : H)
  | asyncFunction (contract : HostContract) (input output : S) (handler : H)
  | callback (contract : HostContract) (payload : S)
  | request (contract : HostContract) (payload reply : S)
  | context (contract : HostContract) (schema : S)

/-- A function's implementation, with the schemas of the contract it implements. -/
structure FunctionBinding (S H : Type) where
  name : Str
  signature : HostFunctionDescriptor S
  handler : H

variable {S H T : Type}

namespace Registration

def name : Registration S H → Str
  | .function contract .. | .asyncFunction contract .. | .callback contract .. |
    .request contract .. | .context contract .. => contract.name

def descriptor (unknown : S) : Registration S H → HostContractDescriptor S
  | .function contract input output _ => functionDescriptor contract unknown input output false
  | .asyncFunction contract input output _ => functionDescriptor contract unknown input output true
  | .callback contract payload => callbackDescriptor contract unknown payload none
  | .request contract payload reply => callbackDescriptor contract unknown payload (some reply)
  | .context contract schema => contextDescriptor contract unknown schema

/-- The second update, of functions only. -/
def binding : Registration S H → Option (FunctionBinding S H)
  | .function contract input output handler =>
    some ⟨contract.name, ⟨input, output, false⟩, handler⟩
  | .asyncFunction contract input output handler =>
    some ⟨contract.name, ⟨input, output, true⟩, handler⟩
  | .callback .. | .request .. | .context .. => none

theorem name_descriptor (unknown : S) (registration : Registration S H) :
    (registration.descriptor unknown).name = registration.name := by
  cases registration <;> rfl

theorem name_binding {registration : Registration S H} {binding : FunctionBinding S H}
    (h : registration.binding = some binding) : binding.name = registration.name := by
  cases registration with
  | function | asyncFunction =>
    obtain rfl := Option.some.inj h
    rfl
  | callback | request | context => cases h

theorem function_descriptor (unknown : S) {registration : Registration S H}
    {binding : FunctionBinding S H} (h : registration.binding = some binding) :
    (registration.descriptor unknown).function = some binding.signature := by
  cases registration with
  | function | asyncFunction =>
    obtain rfl := Option.some.inj h
    rfl
  | callback | request | context => cases h

end Registration

/-- A thread's registrations still to come, and the binding of the one it is in the middle of. -/
structure Thread (S H : Type) where
  todo : List (Registration S H)
  binding : Option (Nat × FunctionBinding S H)

/-- The two maps, each entry with the number of the registration that wrote it; the threads; and the
functions that scripts have been given. -/
structure State (S H T : Type) where
  byName : Str → Option (Nat × HostContractDescriptor S)
  bindings : Str → Option (Nat × FunctionBinding S H)
  installed : List (Str × Nat × FunctionBinding S H)
  threads : T → Thread S H
  registrations : Nat

/-- An empty registry and what each thread is going to register. -/
def State.start (program : T → List (Registration S H)) : State S H T where
  byName _ := none
  bindings _ := none
  installed := []
  threads thread := ⟨program thread, none⟩
  registrations := 0

inductive Event (T : Type)
  | insertDescriptor (thread : T)
  | insertBinding (thread : T)
  | installNative (names : List Str)

variable [DecidableEq T]

namespace State

/-- `insert_descriptor`, the first update of a registration. -/
def insertDescriptor (unknown : S) (s : State S H T) (thread : T)
    (registration : Registration S H) (rest : List (Registration S H)) : State S H T where
  byName := Function.update s.byName registration.name
    (some (s.registrations, registration.descriptor unknown))
  bindings := s.bindings
  installed := s.installed
  threads := Function.update s.threads thread
    ⟨rest, registration.binding.map fun binding => (s.registrations, binding)⟩
  registrations := s.registrations + 1

/-- `FunctionBindingStore::insert`, the second update of a function's registration. -/
def insertBinding (s : State S H T) (thread : T) (todo : List (Registration S H))
    (number : Nat) (binding : FunctionBinding S H) : State S H T where
  byName := s.byName
  bindings := Function.update s.bindings binding.name (some (number, binding))
  installed := s.installed
  threads := Function.update s.threads thread ⟨todo, none⟩
  registrations := s.registrations

/-- `install_native`: the functions bound under the names. -/
def installNative (s : State S H T) (names : List Str) : State S H T :=
  { s with
    installed := s.installed ++
      names.filterMap fun name => (s.bindings name).map fun bound => (name, bound) }

end State

/-- One update under one lock, or a script being given the functions bound at the time. -/
inductive Step (unknown : S) : State S H T → Event T → State S H T → Prop
  | insertDescriptor {s : State S H T} {thread : T} {registration : Registration S H}
      {rest : List (Registration S H)} :
      s.threads thread = ⟨registration :: rest, none⟩ →
      Step unknown s (.insertDescriptor thread)
        (s.insertDescriptor unknown thread registration rest)
  | insertBinding {s : State S H T} {thread : T} {todo : List (Registration S H)} {number : Nat}
      {binding : FunctionBinding S H} :
      s.threads thread = ⟨todo, some (number, binding)⟩ →
      Step unknown s (.insertBinding thread) (s.insertBinding thread todo number binding)
  | installNative {s : State S H T} {names : List Str} :
      Step unknown s (.installNative names) (s.installNative names)

/-- The state is reached in some interleaving of the threads. -/
def Reachable (unknown : S) (program : T → List (Registration S H)) (s : State S H T) : Prop :=
  ∃ events, Transition.Run (Step unknown) (State.start program) events s

namespace Validation

variable (validation : Validation S)

/-- A value against the input or output schema of a function. -/
def checkFunction (schema : S) (name : Str) (direction : String) (value : Json) :
    Except VmError Unit :=
  (validation.validateSchema schema value validation.rejectsUnknownFields).mapError fun details =>
    .contractValidation (String.ofList name) direction details

def validateFunctionInput (descriptor : HostContractDescriptor S) (input : Json) :
    Except VmError Unit :=
  if validation.contract.validatesInputs then
    match descriptor.function with
    | none => .ok ()
    | some function =>
      validation.checkFunction function.inputSchema descriptor.name "input" input
  else .ok ()

def validateFunctionOutput (descriptor : HostContractDescriptor S) (output : Json) :
    Except VmError Unit :=
  if validation.contract.validatesOutputs then
    match descriptor.function with
    | none => .ok ()
    | some function =>
      validation.checkFunction function.outputSchema descriptor.name "output" output
  else .ok ()

/-- `with_descriptor`: nothing to check where no descriptor has the name. -/
def withDescriptor (s : State S H T) (name : Str)
    (check : HostContractDescriptor S → Except VmError Unit) : Except VmError Unit :=
  match s.byName name with
  | none => .ok ()
  | some (_, descriptor) => check descriptor

/-- `RegisteredContract`: looks its descriptor up each time a value crosses. -/
def registeredContract (s : State S H T) (name : Str) : ContractValidator where
  checksInput := validation.contract.validatesInputs
  checksOutput := validation.contract.validatesOutputs
  validateInput input := withDescriptor s name fun descriptor =>
    validation.validateFunctionInput descriptor input
  validateOutput output := withDescriptor s name fun descriptor =>
    validation.validateFunctionOutput descriptor output

def validatesAny : Bool :=
  validation.contract.validatesInputs || validation.contract.validatesOutputs

/-- The validator an installed function has, with what it looks up at a call in this state. -/
def validatorFor (s : State S H T) (name : Str) : Option ContractValidator :=
  if validation.validatesAny then some (validation.registeredContract s name) else none

/-- Validation against the schemas that a handler's own contract has. -/
def ownContract (binding : FunctionBinding S H) : ContractValidator where
  checksInput := validation.contract.validatesInputs
  checksOutput := validation.contract.validatesOutputs
  validateInput input :=
    if validation.contract.validatesInputs then
      validation.checkFunction binding.signature.inputSchema binding.name "input" input
    else .ok ()
  validateOutput output :=
    if validation.contract.validatesOutputs then
      validation.checkFunction binding.signature.outputSchema binding.name "output" output
    else .ok ()

end Validation

end RustTS.Registry
