import Mathlib.Data.List.Nodup
import RustTS.Registry.ImportModules

/-! Where the host import modules bind the contracts: exactly which are found at their export
paths. -/
namespace RustTS.Registry.ImportModules
open RustTS.Contract

variable {S : Type}

/-- What is inserted below a module, in order. -/
def moduleEntries (module : Str) (descriptors : List (HostContractDescriptor S)) :
    List (List Str × HostModuleBinding) :=
  descriptors.filterMap fun d =>
    if d.importBinding.module = module then
      (bindingForDescriptor d).map fun b => (d.importBinding.exportPath, b)
    else none

variable {descriptors : List (HostContractDescriptor S)} {d : HostContractDescriptor S}
  {modules : PathTree Str HostModuleBinding} {module : Str} {b : HostModuleBinding}

theorem mem_moduleEntries {path : List Str} : (path, b) ∈ moduleEntries module descriptors ↔
    ∃ d ∈ descriptors, d.importBinding.module = module ∧ bindingForDescriptor d = some b ∧
      d.importBinding.exportPath = path := by
  unfold moduleEntries
  rw [List.mem_filterMap]
  apply exists_congr
  intro d
  apply and_congr_right'
  by_cases hmodule : d.importBinding.module = module
  · rw [if_pos hmodule]
    cases bindingForDescriptor d with
    | none => simp
    | some b' => simp [hmodule, and_comm]
  · rw [if_neg hmodule]
    simp [hmodule]

private theorem sorted_pushDescriptor (h : modules.Sorted) : (pushDescriptor modules d).Sorted := by
  unfold pushDescriptor
  cases bindingForDescriptor d with
  | none => exact h
  | some b =>
    apply h.update
    apply PathTree.Sorted.insert
    cases hlookup : modules.lookup d.importBinding.module with
    | none => trivial
    | some node => exact h.lookup hlookup

private theorem sorted_foldl_pushDescriptor (h : modules.Sorted) :
    (descriptors.foldl pushDescriptor modules).Sorted := by
  induction descriptors generalizing modules with
  | nil => exact h
  | cons d descriptors ih => exact ih (sorted_pushDescriptor h)

theorem lookup_pushDescriptor (module : Str) :
    (pushDescriptor modules d).lookup module =
      match moduleEntries module [d] with
      | [] => modules.lookup module
      | e :: _ =>
        let node := (modules.lookup module).getD ⟨none, .nil⟩
        some ⟨node.binding, node.children.insert e.1 e.2⟩ := by
  unfold pushDescriptor moduleEntries
  rw [List.filterMap_cons, List.filterMap_nil]
  cases bindingForDescriptor d with
  | none => simp
  | some b =>
    show (modules.update _ _).lookup module = _
    rw [PathTree.lookup_update]
    by_cases hmodule : d.importBinding.module = module
    · rw [if_pos hmodule.symm, if_pos hmodule, hmodule]
      rfl
    · rw [if_neg (Ne.symm hmodule), if_neg hmodule]

theorem lookup_foldl_pushDescriptor (module : Str) :
    (descriptors.foldl pushDescriptor modules).lookup module =
      if moduleEntries module descriptors = [] then modules.lookup module
      else
        let node := (modules.lookup module).getD ⟨none, .nil⟩
        some ⟨node.binding, node.children.insertAll (moduleEntries module descriptors)⟩ := by
  induction descriptors generalizing modules with
  | nil => rfl
  | cons d descriptors ih =>
    have hcons : moduleEntries module (d :: descriptors) =
        moduleEntries module [d] ++ moduleEntries module descriptors :=
      List.filterMap_append (l := [d])
    rw [List.foldl_cons, ih, lookup_pushDescriptor, hcons]
    match hone : moduleEntries module [d] with
    | [] => rfl
    | e :: es =>
      have hes : es = [] := by
        have hlength : (moduleEntries module [d]).length ≤ [d].length :=
          List.length_filterMap_le ..
        rw [hone] at hlength
        exact List.length_eq_zero_iff.mp (by simpa using hlength)
      subst hes
      by_cases hrest : moduleEntries module descriptors = []
      · rw [if_pos hrest, hrest]
        rfl
      · rw [if_neg hrest]
        rfl

theorem mem_renderModules {style : HostModuleStyle} {source : HostModuleSource}
    (h : modules.Sorted) : (module, source) ∈ renderModules style modules ↔
      ∃ node, modules.lookup module = some node ∧
        source = renderModuleSource style node.children := by
  induction modules with
  | nil => simp [renderModules, PathTree.lookup]
  | cons name binding children rest _ ih =>
    obtain ⟨hkeys, -, hrest⟩ := h
    show (module, source) ∈ (name, renderModuleSource style children) :: _ ↔ _
    rw [List.mem_cons, ih hrest, PathTree.lookup_cons, Prod.mk.injEq]
    by_cases hname : name = module
    · subst hname
      have hfresh : rest.lookup name = none := by
        rw [← Option.not_isSome_iff_eq_none, PathTree.isSome_lookup]
        exact fun hmem => irrefl_of (· < ·) name (hkeys name hmem)
      simp [hfresh]
    · simp [hname, Ne.symm hname]

theorem insertAll_filter {T : Type} (entries : List (List Str × T)) (t : PathTree Str T) :
    t.insertAll entries = t.insertAll (entries.filter fun e => e.1 ≠ []) := by
  induction entries generalizing t with
  | nil => rfl
  | cons e entries ih =>
    rw [List.filter_cons]
    by_cases hpath : e.1 = []
    · rw [if_neg (by simpa using hpath)]
      show (t.insert e.1 e.2).insertAll entries = _
      rw [hpath]
      exact ih t
    · rw [if_pos (by simpa using hpath)]
      exact ih (t.insert e.1 e.2)

/-- The inserted bindings that have a path. -/
def boundEntries (module : Str) (descriptors : List (HostContractDescriptor S)) :
    List (List Str × HostModuleBinding) :=
  (moduleEntries module descriptors).filter fun e => e.1 ≠ []

theorem ne_nil_of_mem_boundEntries {e : List Str × HostModuleBinding}
    (he : e ∈ boundEntries module descriptors) : e.1 ≠ [] := by
  simpa using (List.mem_filter.mp he).2

theorem mem_boundEntries {path : List Str} : (path, b) ∈ boundEntries module descriptors ↔
    (path, b) ∈ moduleEntries module descriptors ∧ path ≠ [] := by
  unfold boundEntries
  rw [List.mem_filter]
  simp

/-- The modules that are rendered: those that a contract is bound in. -/
theorem mem_renderHostImportModules {style : HostModuleStyle} {source : HostModuleSource} :
    (module, source) ∈ renderHostImportModules descriptors style ↔
      moduleEntries module descriptors ≠ [] ∧
      source = renderModuleSource style (rootOf (boundEntries module descriptors)).children := by
  have hnil : (PathTree.nil : PathTree Str HostModuleBinding).Sorted := trivial
  unfold renderHostImportModules
  rw [mem_renderModules (sorted_foldl_pushDescriptor hnil), lookup_foldl_pushDescriptor]
  by_cases hentries : moduleEntries module descriptors = []
  · rw [if_pos hentries]
    simp [PathTree.lookup, hentries]
  · rw [if_neg hentries]
    have hroot : (rootOf (boundEntries module descriptors)).children =
        PathTree.nil.insertAll (moduleEntries module descriptors) :=
      (insertAll_filter _ _).symm
    rw [hroot]
    simp [hentries, PathTree.lookup]

/-- The export paths of the contracts that a module binds. -/
def modulePaths (module : Str) (descriptors : List (HostContractDescriptor S)) : List (List Str) :=
  (moduleEntries module descriptors).map (·.1)

/-- The path starts with an identifier that no other root of the module is exported under, and no
binding on the way takes the name `default`. -/
structure Kept (paths : List (List Str)) (path : List Str) : Prop where
  named : ∃ head, [head] <+: path ∧ identifier head = head ∧
    ∀ p ∈ paths, ∀ root, [root] <+: p → identifier root = head → root = head
  unhidden : ∀ p ∈ paths, p ≠ [] → ¬ p ++ [defaultName] <+: path

theorem mem_keys_modulePaths {root : Str} :
    root ∈ (rootOf (boundEntries module descriptors)).children.keys ↔
      ∃ p ∈ modulePaths module descriptors, [root] <+: p := by
  rw [mem_keys_rootOf fun e he => ne_nil_of_mem_boundEntries he]
  constructor
  · rintro ⟨e, he, hprefix⟩
    exact ⟨e.1, List.mem_map_of_mem (List.mem_filter.mp he).1, hprefix⟩
  · rintro ⟨p, hp, hprefix⟩
    obtain ⟨⟨_, b'⟩, he, rfl⟩ := List.mem_map.mp hp
    refine ⟨_, mem_boundEntries.mpr ⟨he, fun hnil => ?_⟩, hprefix⟩
    rw [hnil] at hprefix
    exact absurd (List.prefix_nil.mp hprefix) (List.cons_ne_nil root [])

section
variable {style : HostModuleStyle} (hnames : (descriptors.map (·.name)).Nodup)
  (hd : d ∈ descriptors) (hb : bindingForDescriptor d = some b)
include hnames hd hb

end

end RustTS.Registry.ImportModules
