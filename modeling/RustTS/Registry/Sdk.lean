import RustTS.Registry.Declarations
import RustTS.Registry.Expression

/-! The TypeScript SDK of the registered contracts: as statements, their layout apart. -/
namespace RustTS.Registry
open RustTS.Contract

namespace Sdk

structure SdkFunction where
  contractName : Str
  inputType : TsType
  outputType : OutputType
  takesInput : Bool

structure SdkFunctionType where
  inputType : TsType
  outputType : OutputType

structure SdkEvent where
  eventName : Str
  deriving DecidableEq

inductive SdkDomainBinding
  | function (function : SdkFunction)
  | eventAlias (eventName : Str)

structure SdkContext where
  contractName : Str
  ty : TsType

/-- `ObjectTree::insert`: a dotted path, by its segments. -/
def insert {T : Type} (path : Str) (binding : T) (tree : PathTree Str T) : PathTree Str T :=
  PathTree.insert (path.splitOn '.') binding tree

structure SdkBuilder where
  schemas : SchemaSections
  functions : PathTree Str SdkFunction
  events : PathTree Str SdkEvent
  contexts : PathTree Str SdkContext
  hostFunctions : PathTree Str SdkFunctionType
  hostEvents : PathTree Str TsType
  hostReplies : PathTree Str TsType

/-- The value under each name. -/
def entries {T : Type} (map : PathTree Str T) : List (Str × T) :=
  map.bindings.map fun e => (e.1.headD [], e.2)

def isVoid : TsType → Bool
  | .void => true
  | _ => false

namespace SdkBuilder

def empty : SdkBuilder := ⟨⟨[], []⟩, .nil, .nil, .nil, .nil, .nil, .nil⟩

def pushDescriptor (b : SdkBuilder) (descriptor : HostContractDescriptor Schema) : SdkBuilder :=
  let name := descriptor.name
  let b := { b with schemas := pushSchemas (abiSchemas descriptor.abi) b.schemas }
  match descriptor.abi with
  | .function input output returnsPromise =>
    let outputType := functionOutputType output returnsPromise
    { b with
      hostFunctions := b.hostFunctions.insert [name] ⟨schemaTypeName input, outputType⟩
      functions := insert name ⟨name, schemaTypeName input, outputType, !isVoid input.tsType⟩
        b.functions }
  | .callback payload reply =>
    { b with
      hostEvents := b.hostEvents.insert [name] (schemaTypeName payload)
      hostReplies := match reply with
        | some reply => b.hostReplies.insert [name] (schemaTypeName reply)
        | none => b.hostReplies
      events := insert name ⟨name⟩ b.events }
  | .context schema =>
    { b with contexts := insert name ⟨name, schemaTypeName schema⟩ b.contexts }
  | .unknown => b

end SdkBuilder

/-- The name under which a root is exported. -/
def identifier (name : Str) : Str := if isIdentifierName name then name else "sdk".toList

def childPath (pre name : Str) : Str := if pre.isEmpty then name else pre ++ '.' :: name

/-- `push_function_domain_bindings`: the functions below a prefix, with their paths, in order. -/
def functionDomainBindings : Str → PathTree Str SdkFunction → List (Str × SdkDomainBinding)
  | _, .nil => []
  | pre, .cons name binding children rest =>
    let path := childPath pre name
    (binding.map fun function => (path, .function function)).toList ++
      functionDomainBindings path children ++ functionDomainBindings pre rest

/-- `segment.split(['-', '_', ' '])`, without what is empty, each part capitalized. -/
def pascalSegment (segment : Str) : Str :=
  ((segment.splitOnP fun c => c = '-' || c = '_' || c = ' ').filter (!·.isEmpty)).flatMap
    fun part =>
      match part with
      | [] => []
      | first :: rest => first.toUpper :: rest

def pascalCase (segments : List Str) : Str := segments.flatMap pascalSegment

def eventAliasPath (root : Str) (segments : List Str) : Option Str :=
  if segments.isEmpty then none else some (root ++ ".on".toList ++ pascalCase segments)

/-- `push_event_aliases_for_root` for the children of a node. -/
def eventAliasesBelow (root : Str) : List Str → PathTree Str SdkEvent → List (Str × SdkDomainBinding)
  | _, .nil => []
  | segments, .cons name binding children rest =>
    let childSegments := segments ++ [name]
    (match binding, eventAliasPath root childSegments with
      | some event, some path => [(path, SdkDomainBinding.eventAlias event.eventName)]
      | _, _ => []) ++
      eventAliasesBelow root childSegments children ++ eventAliasesBelow root segments rest

/-- `push_event_alias_domain_bindings`; an event of one segment has no alias. -/
def eventAliasDomainBindings : PathTree Str SdkEvent → List (Str × SdkDomainBinding)
  | .nil => []
  | .cons root _ children rest =>
    eventAliasesBelow root [] children ++ eventAliasDomainBindings rest

/-- The tree of functions and event aliases that is exported root by root. -/
def domainTree (functions : PathTree Str SdkFunction) (events : PathTree Str SdkEvent) :
    PathTree Str SdkDomainBinding :=
  (functionDomainBindings [] functions ++ eventAliasDomainBindings events).foldl
    (fun tree e => insert e.1 e.2 tree) .nil

/-- `render_exported_tree`: each root is exported under its identifier. -/
def renderExportedTree (tree : PathTree Str SdkDomainBinding) :
    List (Str × Expression SdkDomainBinding) :=
  renderExports identifier (renderObject .first) tree

/-- One statement of the SDK. -/
inductive SdkStatement
  | typeAlias (name : Str) (tsType : TsType)
  | modelRuntimeHelpers (models : List Str)
  | modelClass (name : Str)
  | modelHelpers (models : List Str)
  | hostHelpers
  | hostFunctionApi (functions : List (Str × SdkFunctionType))
  | hostEventTypes (events replies : List (Str × TsType))
  | eventContext
  | ctxExport (events : Bool)
  | contextExport (name : Str) (context : SdkContext)
  | domainExport (name : Str) (body : Expression SdkDomainBinding)
  | eventsExport (members : List (Str × Expression SdkEvent))
  | aggregate (models : Bool) (functions : List Str) (events : Bool) (contexts : List Str)

/-- `matches!(ts_type, Object | OpenObject)`. -/
def isModel : TsType → Bool
  | .object _ | .openObject .. => true
  | _ => false

/-- The names of the emitted object types, in order. -/
def models (schemas : SchemaSections) : List Str :=
  (PathTree.nil.insertAll
    ((schemas.sections.filter fun e => isModel e.2).map fun e => ([e.1], e.2))).keys

/-- `render_context_export` for each root; only what is bound at the root itself is exported. -/
def contextExports : PathTree Str SdkContext → List SdkStatement
  | .nil => []
  | .cons name binding _ rest =>
    (binding.map fun context => SdkStatement.contextExport (identifier name) context).toList ++
      contextExports rest

namespace SdkBuilder

variable (b : SdkBuilder)

def hasEvents : Bool := !b.hostEvents.isEmpty

/-- `SdkBuilder::finish`. -/
def finish : List SdkStatement :=
  let models := models b.schemas
  b.schemas.sections.map (fun e => .typeAlias e.1 e.2) ++
    (if models.isEmpty then [] else [.modelRuntimeHelpers models]) ++
    models.map .modelClass ++
    (if models.isEmpty then [] else [.modelHelpers models]) ++
    (if b.hostFunctions.isEmpty then []
      else [.hostHelpers, .hostFunctionApi (entries b.hostFunctions)]) ++
    (if b.hasEvents then
      [.hostEventTypes (entries b.hostEvents) (entries b.hostReplies), .eventContext]
      else []) ++
    [.ctxExport b.hasEvents] ++
    contextExports b.contexts ++
    (renderExportedTree (domainTree b.functions b.events)).map (fun e => .domainExport e.1 e.2) ++
    (if b.events.isEmpty then [] else [.eventsExport (renderMembers .first b.events)]) ++
    [.aggregate (!models.isEmpty) b.functions.keys (!b.events.isEmpty) b.contexts.keys]

end SdkBuilder

end Sdk

/-- `render_typescript_sdk`. -/
def typescriptSdk (descriptors : List (HostContractDescriptor Schema)) : List Sdk.SdkStatement :=
  (descriptors.foldl Sdk.SdkBuilder.pushDescriptor .empty).finish

namespace Sdk

def modelPredicateName (name : Str) : Str := "__is".toList ++ identifier name

def modelClassName (name : Str) : Str := name ++ "Model".toList

namespace SdkStatement

/-- The names of the helpers that models need. -/
def runtimeHelperNames : List Str :=
  ["__isRecord".toList, "__field".toList, "__isArrayOf".toList, "__isRecordOf".toList]

/-- The names of values that a statement declares at top level. -/
def valueNames : SdkStatement → List Str
  | typeAlias .. => []
  | modelRuntimeHelpers models => runtimeHelperNames ++ models.map modelPredicateName
  | modelClass name => [modelClassName name]
  | modelHelpers _ => ["models".toList]
  | hostHelpers => ["__host".toList, "__hostCall".toList]
  | hostFunctionApi _ => ["call".toList]
  | hostEventTypes .. => []
  | eventContext => []
  | ctxExport _ => ["__ctx".toList, "ctx".toList]
  | contextExport name _ => [name]
  | domainExport name _ => [name]
  | eventsExport _ => ["events".toList]
  | aggregate .. => ["rusttsSdk".toList]

/-- The names of types that a statement declares at top level. -/
def typeNames : SdkStatement → List Str
  | typeAlias name _ => [name]
  | modelClass name => [modelClassName name]
  | hostFunctionApi _ => ["HostFunctions".toList, "HostFunctionInput".toList,
      "HostFunctionOutput".toList, "HostFunctionArgs".toList]
  | hostEventTypes .. => ["HostEvents".toList, "HostReplies".toList]
  | eventContext => Declaration.eventContextNames
  | ctxExport _ => ["HostHotContext".toList, "HostContext".toList]
  | _ => []

/-- The names of its `export const` statements. -/
def exportConsts : SdkStatement → List Str
  | modelHelpers _ => ["models".toList]
  | ctxExport _ => ["ctx".toList]
  | contextExport name _ => [name]
  | domainExport name _ => [name]
  | eventsExport _ => ["events".toList]
  | aggregate .. => ["rusttsSdk".toList]
  | _ => []

/-- The top-level names that the aggregate refers to. -/
def valueRefs : SdkStatement → List Str
  | aggregate models functions events contexts =>
    (if models then ["models".toList] else []) ++
      (if functions.isEmpty then [] else functions.map identifier ++ ["call".toList]) ++
      (if events then ["events".toList] else []) ++ ["ctx".toList] ++ contexts.map identifier
  | _ => []

end SdkStatement

end Sdk

end RustTS.Registry
