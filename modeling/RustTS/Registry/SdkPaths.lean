import RustTS.Registry.SdkEntries

/-! Where the SDK binds the function contracts: exactly which are found at the paths their names
spell. -/
namespace RustTS.Registry.Sdk
open RustTS.Contract

variable {descriptors : List (HostContractDescriptor Schema)} {d : HostContractDescriptor Schema}

/-- The names of the function contracts. -/
def functionNames (descriptors : List (HostContractDescriptor Schema)) : List Str :=
  descriptors.filterMap fun d => (sdkFunction d).map fun _ => d.name

def eventNames (descriptors : List (HostContractDescriptor Schema)) : List Str :=
  descriptors.filterMap fun d => (sdkEvent d).map fun _ => d.name

/-- The paths at which functions and events' aliases are exported. -/
def domainPaths (functions events : List Str) : List (List Str) :=
  functions.map (fun name => exportedPath (segments name)) ++
    events.filterMap fun name => aliasPath (segments name)

/-- What a function's name has to keep clear of. -/
structure Kept (functions events : List Str) (name : Str) : Prop where
  exported : exportedPath (segments name) = segments name
  empty : name = [] → ∀ other ∈ functions, exportedPath (segments other) = [[]] → other = []
  noAlias : ∀ event ∈ events, aliasPath (segments event) ≠ some (segments name)
  noDefault : ∀ other ∈ functions,
    ¬ segments name ++ [defaultName] <+: exportedPath (segments other)
  root : ∀ path ∈ domainPaths functions events, ∀ root root', [root] <+: path →
    [root'] <+: segments name → identifier root = identifier root' → root = root'

theorem mem_functionNames {name : Str} : name ∈ functionNames descriptors ↔
    ∃ d ∈ descriptors, ∃ f, sdkFunction d = some f ∧ d.name = name := by
  unfold functionNames
  simp only [List.mem_filterMap, Option.map_eq_some_iff]

theorem mem_eventNames {name : Str} : name ∈ eventNames descriptors ↔
    ∃ d ∈ descriptors, ∃ e, sdkEvent d = some e ∧ d.name = name := by
  unfold eventNames
  simp only [List.mem_filterMap, Option.map_eq_some_iff]

theorem exportedPath_ne_nil (path : List Str) : exportedPath path ≠ [] := by
  unfold exportedPath
  split
  · exact List.cons_ne_nil [] []
  · rename_i hne
    exact hne

theorem mem_domainPaths {path : List Str} :
    path ∈ domainPaths (functionNames descriptors) (eventNames descriptors) ↔
      ∃ b, (path, b) ∈ functionPart descriptors ++ aliasPart descriptors := by
  unfold domainPaths functionPart aliasPart aliasEntry
  simp only [List.mem_append, List.mem_map, List.mem_filterMap, Option.map_eq_some_iff]
  constructor
  · rintro (⟨name, hname, rfl⟩ | ⟨name, hname, hpath⟩)
    · obtain ⟨d, hd, f, hf, rfl⟩ := mem_functionNames.mp hname
      obtain ⟨f', hf'⟩ := exists_mem_bindings hd hf
      exact ⟨.function f', .inl ⟨_, hf', rfl⟩⟩
    · obtain ⟨d, hd, e, he, rfl⟩ := mem_eventNames.mp hname
      obtain ⟨e', he'⟩ := exists_mem_bindings hd he
      exact ⟨.eventAlias e'.eventName, .inr ⟨_, he', path, hpath, rfl⟩⟩
  · rintro ⟨b, ⟨⟨p, f⟩, he, heq⟩ | ⟨⟨p, e⟩, he, q, hpath, heq⟩⟩
    · obtain ⟨d, hd, hf, rfl⟩ := exists_of_mem_bindings he
      exact .inl ⟨d.name, mem_functionNames.mpr ⟨d, hd, f, hf, rfl⟩, (Prod.mk.inj heq).1⟩
    · obtain ⟨d, hd, hevent, rfl⟩ := exists_of_mem_bindings he
      rw [(Prod.mk.inj heq).1] at hpath
      exact .inr ⟨d.name, mem_eventNames.mpr ⟨d, hd, e, hevent, rfl⟩, hpath⟩

private theorem ne_nil_of_mem_domainPaths {functions events : List Str} {path : List Str}
    (h : path ∈ domainPaths functions events) : path ≠ [] := by
  rcases List.mem_append.mp h with hmem | hmem
  · obtain ⟨name, -, rfl⟩ := List.mem_map.mp hmem
    exact exportedPath_ne_nil (segments name)
  · obtain ⟨name, -, hpath⟩ := List.mem_filterMap.mp hmem
    unfold aliasPath at hpath
    split at hpath
    · rw [← Option.some.inj hpath]
      exact List.cons_ne_nil _ _
    · cases hpath

theorem ne_nil_of_mem_parts {e : List Str × SdkDomainBinding}
    (he : e ∈ functionPart descriptors ++ aliasPart descriptors) : e.1 ≠ [] :=
  ne_nil_of_mem_domainPaths (mem_domainPaths.mpr ⟨e.2, he⟩)

section
variable (hnames : (descriptors.map (·.name)).Nodup)
include hnames

variable {f : SdkFunction} (hd : d ∈ descriptors) (hf : sdkFunction d = some f)
include hd hf

end

section
variable (hnames : (descriptors.map (·.name)).Nodup)
include hnames

variable {f : SdkFunction} (hd : d ∈ descriptors) (hf : sdkFunction d = some f)
include hd hf

end

end RustTS.Registry.Sdk
