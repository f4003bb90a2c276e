import RustTS.Registry.SdkTopLevel

/-! Which contracts the generated code keeps: functions in the exported trees of the SDK, functions
and callbacks in their import modules. -/
namespace RustTS.Registry
open RustTS.Contract

section
variable {descriptors : List (HostContractDescriptor Schema)} {d : HostContractDescriptor Schema}
  (hnames : (descriptors.map (·.name)).Nodup) (hd : d ∈ descriptors)
include hnames hd

end

def nullSchema : Schema := .mk "unknown".toList .null []

/-- A contract that is exported under its own name. -/
def hostContract (kind : HostContractKind) (name : Str) : HostContract where
  name := name
  kind := kind
  metadata := ⟨name, []⟩
  importModule := "host".toList
  exportPath := segments name

def functionNamed (name : Str) : HostContractDescriptor Schema :=
  functionDescriptor (hostContract .function name) nullSchema nullSchema nullSchema false

end RustTS.Registry
