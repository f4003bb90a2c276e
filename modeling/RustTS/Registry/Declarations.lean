import RustTS.Contract.Descriptor
import RustTS.Contract.Schema

/-! The TypeScript declarations of the registered contracts: as statements, their layout apart. -/
namespace RustTS.Registry
open RustTS.Contract

/-- Whether `name` is an ASCII JavaScript identifier name, reserved words included. -/
def isIdentifierName : Str → Bool
  | [] => false
  | first :: rest =>
    (first = '_' || first = '$' || first.isAlpha) &&
      rest.all fun c => c = '_' || c = '$' || c.isAlphanum

/-- What `schema_type_name` writes: the schema's name, or its type where it has none. -/
def schemaTypeName (schema : Schema) : TsType :=
  if isUnknownSchema schema then schema.tsType else .typeRef schema.name

/-- What a host function returns to scripts: its output, or a `Promise` of it. -/
structure OutputType where
  output : TsType
  returnsPromise : Bool

def functionOutputType (output : Schema) (returnsPromise : Bool) : OutputType :=
  ⟨schemaTypeName output, returnsPromise⟩

/-- The named types emitted so far, each with its shape. -/
structure SchemaSections where
  emitted : List Str
  sections : List (Str × TsType)

mutual

/-- `push_schema`: the type statement of a named schema that was not emitted, after those of its
dependencies. -/
def pushSchema : Schema → SchemaSections → SchemaSections
  | .mk name tsType dependencies, s =>
    if hasDeclarationName name ∧ name ∉ s.emitted then
      let s := pushSchemas dependencies { s with emitted := name :: s.emitted }
      { s with sections := s.sections ++ [(name, tsType)] }
    else s

/-- Its loop over the dependencies. -/
def pushSchemas : List Schema → SchemaSections → SchemaSections
  | [], s => s
  | schema :: schemas, s => pushSchemas schemas (pushSchema schema s)

end

/-- The schemas of a contract, in the order they are pushed. -/
def abiSchemas : HostContractAbi Schema → List Schema
  | .function input output _ => [input, output]
  | .callback payload reply => payload :: reply.toList
  | .context schema => [schema]
  | .unknown => []

/-- One statement of the declarations. -/
inductive Declaration
  | typeAlias (name : Str) (tsType : TsType)
  | function (name : Str) (input : TsType) (output : OutputType)
  | context (name : Str) (tsType : TsType)
  | eventMap (name : Str) (entries : List (Str × TsType))
  | eventContext
  | hotContext
  | ctx (events : Bool)
  | envModule (events : Bool)

structure DeclarationBuffer where
  schemas : SchemaSections
  statements : List Declaration
  hostEvents : List (Str × TsType)
  hostReplies : List (Str × TsType)

namespace DeclarationBuffer

def empty : DeclarationBuffer := ⟨⟨[], []⟩, [], [], []⟩

/-- Pushes schemas, whose type statements come next. -/
def push (schemas : List Schema) (b : DeclarationBuffer) : DeclarationBuffer :=
  let pushed := pushSchemas schemas ⟨b.schemas.emitted, []⟩
  { b with
    schemas := ⟨pushed.emitted, b.schemas.sections ++ pushed.sections⟩
    statements := b.statements ++ pushed.sections.map fun e => .typeAlias e.1 e.2 }

def pushDescriptor (b : DeclarationBuffer) (descriptor : HostContractDescriptor Schema) :
    DeclarationBuffer :=
  let b := b.push (abiSchemas descriptor.abi)
  match descriptor.abi with
  | .function input output returnsPromise =>
    { b with
      statements := b.statements ++ [.function descriptor.name (schemaTypeName input)
        (functionOutputType output returnsPromise)] }
  | .callback payload reply =>
    { b with
      hostEvents := b.hostEvents ++ [(descriptor.name, schemaTypeName payload)]
      hostReplies := b.hostReplies ++
        (reply.map fun reply => (descriptor.name, schemaTypeName reply)).toList }
  | .context schema =>
    { b with statements := b.statements ++ [.context descriptor.name (schemaTypeName schema)] }
  | .unknown => b

/-- The event maps and the `ctx` global: `ctx.on` and `ctx.off` once there are events to type
them. -/
def finish (b : DeclarationBuffer) : List Declaration :=
  let events := !b.hostEvents.isEmpty
  b.statements ++
    (if events then [.eventMap "HostEvents".toList b.hostEvents,
      .eventMap "HostReplies".toList b.hostReplies, .eventContext] else []) ++
    [.hotContext, .ctx events, .envModule events]

end DeclarationBuffer

/-- `render_typescript_declarations`. -/
def typescriptDeclarations (descriptors : List (HostContractDescriptor Schema)) :
    List Declaration :=
  (descriptors.foldl DeclarationBuffer.pushDescriptor .empty).finish

namespace Declaration

/-- The type of `ctx` refers to these. -/
def ctxTypeRefs (events : Bool) : List Str :=
  (if events then ["HostEventContext".toList] else []) ++ ["HostHotContext".toList]

/-- The names of the types of `event_context.ts`. -/
def eventContextNames : List Str :=
  ["HostEventReply".toList, "HostEventHandler".toList, "HostEventContext".toList]

/-- The names of types that a statement refers to. -/
def refs : Declaration → List Str
  | typeAlias _ tsType => tsType.refs
  | function _ input output => input.refs ++ output.output.refs
  | context _ tsType => tsType.refs
  | eventMap _ entries => entries.flatMap (·.2.refs)
  | eventContext => ["HostEvents".toList, "HostReplies".toList] ++ eventContextNames
  | hotContext => []
  | ctx events | envModule events => ctxTypeRefs events

/-- The names that it declares by `type`. -/
def typeNames : Declaration → List Str
  | typeAlias name _ => [name]
  | eventMap name _ => [name]
  | eventContext => eventContextNames
  | hotContext => ["HostHotContext".toList]
  | _ => []

end Declaration

end RustTS.Registry
