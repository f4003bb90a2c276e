import RustTS.Contract.Descriptor
import RustTS.Registry.Declarations
import RustTS.Registry.Expression

/-! Sources of the host import modules: as statements, their layout apart. -/
namespace RustTS.Registry
open RustTS.Contract

inductive HostModuleBinding
  | function (contractName : Str)
  | callback (eventName : Str)
  deriving DecidableEq

def HostModuleBinding.contractName : HostModuleBinding → Str
  | function contractName => contractName
  | callback eventName => eventName

/-- Where a host import module reads its native functions and its handler registration from. -/
inductive HostModuleStyle
  | globals
  | env
  deriving DecidableEq

namespace ImportModules

def reservedWords : List Str :=
  ["break".toList, "case".toList, "catch".toList, "class".toList, "const".toList,
    "continue".toList, "debugger".toList, "default".toList, "delete".toList, "do".toList,
    "else".toList, "export".toList, "extends".toList, "finally".toList, "for".toList, "if".toList,
    "import".toList, "in".toList, "instanceof".toList, "new".toList, "return".toList,
    "super".toList, "switch".toList, "this".toList, "throw".toList, "try".toList, "typeof".toList,
    "var".toList, "void".toList, "while".toList, "with".toList, "yield".toList]

def isReservedWord (name : Str) : Bool := name ∈ reservedWords

def isIdentifier (name : Str) : Bool := isIdentifierName name && !isReservedWord name

/-- The name under which a root is exported. -/
def identifier (name : Str) : Str := if isIdentifier name then name else "sdk".toList

variable {S : Type}

/-- Contexts are declarative only. -/
def bindingForDescriptor (descriptor : HostContractDescriptor S) : Option HostModuleBinding :=
  match descriptor.abi with
  | .function .. => some (.function descriptor.name)
  | .callback .. => some (.callback descriptor.name)
  | .context _ => none
  | .unknown => none

/-- `insert_binding` below the node of a module, which it makes where there is none. -/
def insertBinding (module : Str) (path : List Str) (binding : HostModuleBinding)
    (modules : PathTree Str HostModuleBinding) : PathTree Str HostModuleBinding :=
  modules.update module fun node => ⟨node.binding, node.children.insert path binding⟩

def pushDescriptor (modules : PathTree Str HostModuleBinding)
    (descriptor : HostContractDescriptor S) : PathTree Str HostModuleBinding :=
  match bindingForDescriptor descriptor with
  | some binding =>
    insertBinding descriptor.importBinding.module descriptor.importBinding.exportPath binding
      modules
  | none => modules

/-- A rendered module: where its bindings are read from, and its `export const` statements. -/
structure HostModuleSource where
  style : HostModuleStyle
  exports : List (Str × Expression HostModuleBinding)

/-- What it imports from `rustts:env`. -/
def HostModuleSource.imports (source : HostModuleSource) : List Str :=
  match source.style with
  | .globals => []
  | .env => ["__native".toList, "__on".toList]

def renderModuleSource (style : HostModuleStyle) (children : PathTree Str HostModuleBinding) :
    HostModuleSource where
  style := style
  exports := renderExports identifier (renderNode .last) children

def renderModules (style : HostModuleStyle) :
    PathTree Str HostModuleBinding → List (Str × HostModuleSource)
  | .nil => []
  | .cons module _ children rest =>
    (module, renderModuleSource style children) :: renderModules style rest

end ImportModules

/-- `render_host_import_modules`. -/
def renderHostImportModules {S : Type} (descriptors : List (HostContractDescriptor S))
    (style : HostModuleStyle) : List (Str × ImportModules.HostModuleSource) :=
  ImportModules.renderModules style (descriptors.foldl ImportModules.pushDescriptor .nil)

end RustTS.Registry
