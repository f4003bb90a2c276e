import RustTS.Contract.Number

/-! What the registry keeps of a host contract, for any kind of schema. -/
namespace RustTS.Contract

inductive HostContractKind
  | function
  | callback
  | context
  deriving DecidableEq, Repr

structure HostMetadata where
  name : Str
  tags : List Str
  deriving DecidableEq, Repr

/-- The ESM binding a host module exposes. -/
structure HostImportBinding where
  module : Str
  exportPath : List Str
  deriving DecidableEq, Repr

structure HostFunctionDescriptor (S : Type) where
  inputSchema : S
  outputSchema : S
  returnsPromise : Bool

/-- A request has a reply schema; a plain callback has none. -/
structure HostCallbackDescriptor (S : Type) where
  payloadSchema : S
  replySchema : Option S

inductive HostContractAbi (S : Type)
  | function (input output : S) (returnsPromise : Bool)
  | callback (payload : S) (reply : Option S)
  | context (schema : S)
  | unknown

structure HostContractDescriptor (S : Type) where
  name : Str
  kind : HostContractKind
  schema : S
  metadata : HostMetadata
  importBinding : HostImportBinding
  callback : Option (HostCallbackDescriptor S)
  function : Option (HostFunctionDescriptor S)
  abi : HostContractAbi S

/-- The constants a contract type gives. -/
structure HostContract where
  name : Str
  kind : HostContractKind
  metadata : HostMetadata
  importModule : Str
  exportPath : List Str

variable {S : Type}

/-- `HostContract::descriptor`; `unknown` is the schema named `unknown`. -/
def HostContract.descriptor (contract : HostContract) (unknown : S) : HostContractDescriptor S where
  name := contract.name
  kind := contract.kind
  schema := unknown
  metadata := contract.metadata
  importBinding := ⟨contract.importModule, contract.exportPath⟩
  callback := none
  function := none
  abi := .unknown

/-- Adds the function ABI and metadata. -/
def withFunction (descriptor : HostContractDescriptor S) (function : HostFunctionDescriptor S) :
    HostContractDescriptor S :=
  { descriptor with
    abi := .function function.inputSchema function.outputSchema function.returnsPromise
    function := some function }

def functionDescriptor (contract : HostContract) (unknown input output : S)
    (returnsPromise : Bool) : HostContractDescriptor S :=
  withFunction { contract.descriptor unknown with schema := input }
    ⟨input, output, returnsPromise⟩

/-- Adds the callback ABI and metadata. -/
def withCallback (descriptor : HostContractDescriptor S) (callback : HostCallbackDescriptor S) :
    HostContractDescriptor S :=
  { descriptor with
    abi := .callback callback.payloadSchema callback.replySchema
    callback := some callback }

def callbackDescriptor (contract : HostContract) (unknown payload : S) (reply : Option S) :
    HostContractDescriptor S :=
  withCallback { contract.descriptor unknown with schema := payload } ⟨payload, reply⟩

def contextDescriptor (contract : HostContract) (unknown schema : S) : HostContractDescriptor S :=
  { contract.descriptor unknown with
    schema := schema
    abi := .context schema }

end RustTS.Contract
