import RustTS.Registry.ImportPaths
import RustTS.Registry.QuotedNames

/-! The names of the host import modules: exactly when each at top level is a legal binding declared
once, and each that is quoted is a literal. -/
namespace RustTS.Registry
open RustTS.Contract

/-- The words that no binding of an ES module is named by. -/
def reservedBindings : List Str :=
  ImportModules.reservedWords ++
    ["await".toList, "enum".toList, "false".toList, "function".toList, "null".toList,
      "true".toList, "let".toList, "static".toList, "implements".toList, "interface".toList,
      "package".toList, "private".toList, "protected".toList, "public".toList, "eval".toList,
      "arguments".toList]

def IsLegalBinding (name : Str) : Prop :=
  isIdentifierName name = true ∧ name ∉ reservedBindings

namespace ImportModules

/-- The reserved names that `is_reserved_word` does not list. -/
def unlistedWords : List Str := reservedBindings.filter fun word => word ∉ reservedWords

private theorem isIdentifierName_unlistedWords :
    ∀ word ∈ unlistedWords, isIdentifierName word = true ∧ word ∉ reservedWords := by
  decide

theorem isLegalBinding_identifier (root : Str) :
    IsLegalBinding (identifier root) ↔ root ∉ unlistedWords := by
  unfold identifier isIdentifier isReservedWord
  constructor
  · intro hlegal hunlisted
    obtain ⟨hname, hlisted⟩ := isIdentifierName_unlistedWords root hunlisted
    rw [if_pos (by simp [hname, hlisted])] at hlegal
    exact hlegal.2 (List.mem_filter.mp hunlisted).1
  · intro hunlisted
    split_ifs with hidentifier
    · obtain ⟨hname, hlisted⟩ := (Bool.and_eq_true _ _).mp hidentifier
      refine ⟨hname, fun hreserved => hunlisted (List.mem_filter.mpr ⟨hreserved, ?_⟩)⟩
      simpa using hlisted
    · exact ⟨by decide, by decide⟩

section
variable (printable : Char → Bool)

/-- A key is written so that it is read as one. -/
def IsKey (key : Str) : Prop :=
  (readPropertyKey (propertyName printable key ++ ": ".toList)).isSome = true

/-- A binding is written so that its name is read as a literal. -/
def IsReference (style : HostModuleStyle) (binding : HostModuleBinding) : Prop :=
  let frame := bindingFrame binding style
  (readReference frame.1 frame.2 (renderBinding printable binding style)).isSome = true

/-- Every exported name is a legal binding, no name is declared twice, and all that the exports
quote can be read. -/
structure HostModuleSource.WellFormed (source : HostModuleSource) : Prop where
  legal : ∀ e ∈ source.exports, IsLegalBinding e.1
  once : (source.imports ++ source.exports.map (·.1)).Nodup
  literals : ∀ e ∈ source.exports, e.2.All (IsKey printable) (IsReference printable source.style)

end

/-- The roots of a module are none of the names that the reserved words miss, none of what a module
imports, and at most one of them is exported as `sdk`. -/
structure RootsKept (roots : List Str) : Prop where
  legal : ∀ root ∈ roots, root ∉ unlistedWords
  imports : ∀ root ∈ roots, root ∉ ["__native".toList, "__on".toList]
  apart : ∀ root ∈ roots, ∀ root' ∈ roots, identifier root = identifier root' → root = root'

variable {S : Type} {descriptors : List (HostContractDescriptor S)}

/-- The first segments of the paths that a module binds. -/
def moduleRoots (module : Str) (descriptors : List (HostContractDescriptor S)) : List Str :=
  (modulePaths module descriptors).filterMap List.head?

theorem mem_moduleRoots {module root : Str} : root ∈ moduleRoots module descriptors ↔
    root ∈ (rootOf (boundEntries module descriptors)).children.keys := by
  unfold moduleRoots
  rw [mem_keys_modulePaths, List.mem_filterMap]
  apply exists_congr
  intro path
  apply and_congr_right'
  cases path with
  | nil => simp
  | cons head rest => simp [eq_comm]

theorem identifier_eq_import (root : Str) {name : Str}
    (hname : name ∈ ["__native".toList, "__on".toList]) :
    identifier root = name ↔ root = name := by
  have hself : ∀ name ∈ ["__native".toList, "__on".toList],
      isIdentifier name = true ∧ name ≠ "sdk".toList := by decide
  obtain ⟨hidentifier, hsdk⟩ := hself name hname
  unfold identifier
  constructor
  · intro h
    split_ifs at h with hroot
    · exact h
    · exact absurd h.symm hsdk
  · rintro rfl
    exact if_pos hidentifier

/-- No segment below a root and no name of a bound contract has a null with a digit after it. -/
structure LiteralsKept (module : Str) (descriptors : List (HostContractDescriptor S)) : Prop where
  keys : ∀ path ∈ modulePaths module descriptors, ∀ segment ∈ path.tail,
    ¬HasNullBeforeDigit segment
  names : ∀ path b, PathTree.lastAt path (boundEntries module descriptors) = some b →
    ¬HasNullBeforeDigit b.contractName

section
variable {printable : Char → Bool} (hdigits : ∀ c, c.isDigit = true → printable c = true)
include hdigits

theorem isKey_iff (key : Str) : IsKey printable key ↔ ¬HasNullBeforeDigit key := by
  refine isSome_readPropertyKey hdigits (fun h => ?_) rfl
  simp only [isIdentifier, Bool.and_eq_true] at h
  exact h.1.1

private theorem isReference_iff (style : HostModuleStyle) (b : HostModuleBinding) :
    IsReference printable style b ↔ ¬HasNullBeforeDigit b.contractName :=
  isSome_readReference hdigits _ _ _

theorem literals_iff (style : HostModuleStyle) (module : Str)
    (descriptors : List (HostContractDescriptor S)) :
    (∀ e ∈ (renderModuleSource style (rootOf (boundEntries module descriptors)).children).exports,
        e.2.All (IsKey printable) (IsReference printable style)) ↔
      LiteralsKept module descriptors := by
  have hdefault : IsKey printable defaultName :=
    (isKey_iff hdigits _).mpr (not_hasNullBeforeDigit_of_isIdentifierName (by decide))
  have hexports : (∀ e ∈ renderExports identifier (renderNode .last)
      (rootOf (boundEntries module descriptors)).children,
        e.2.All (IsKey printable) (IsReference printable style)) ↔ _ :=
    all_renderExports (fun e he => ne_nil_of_mem_boundEntries he) hdefault
  refine hexports.trans ?_
  simp only [isKey_iff hdigits, isReference_iff hdigits]
  constructor
  · rintro ⟨hkeys, hnames⟩
    refine ⟨fun path hpath segment hsegment => ?_, hnames⟩
    obtain ⟨⟨_, b⟩, he, rfl⟩ := List.mem_map.mp hpath
    refine hkeys _ (mem_boundEntries.mpr ⟨he, ?_⟩) segment hsegment
    rintro rfl
    cases hsegment
  · rintro ⟨hkeys, hnames⟩
    exact ⟨fun e he => hkeys e.1 (List.mem_map_of_mem (List.mem_filter.mp he).1), hnames⟩

end

theorem names_iff {children : PathTree Str HostModuleBinding} (h : children.Sorted) :
    (∀ style, (∀ e ∈ (renderModuleSource style children).exports, IsLegalBinding e.1) ∧
      ((renderModuleSource style children).imports ++
        (renderModuleSource style children).exports.map (·.1)).Nodup) ↔
      RootsKept children.keys := by
  have hexports : ∀ style, (renderModuleSource style children).exports.map (·.1) =
      children.keys.map identifier := fun _ => map_renderExports
  have hlegal : ∀ style, (∀ e ∈ (renderModuleSource style children).exports,
      IsLegalBinding e.1) ↔ ∀ root ∈ children.keys, root ∉ unlistedWords := by
    intro style
    have hnames := List.forall_mem_map (f := fun e : Str × Expression HostModuleBinding => e.1)
      (l := (renderModuleSource style children).exports) (P := IsLegalBinding)
    rw [← hnames, hexports style, List.forall_mem_map]
    simp only [isLegalBinding_identifier]
  have hinjective : (children.keys.map identifier).Nodup ↔
      ∀ root ∈ children.keys, ∀ root' ∈ children.keys,
        identifier root = identifier root' → root = root' := by
    rw [List.nodup_map_iff_inj_on h.nodup_keys]
  have himports : List.Disjoint ["__native".toList, "__on".toList]
      (children.keys.map identifier) ↔
        ∀ root ∈ children.keys, root ∉ ["__native".toList, "__on".toList] := by
    constructor
    · intro hdisjoint root hroot hmem
      exact hdisjoint hmem
        (List.mem_map.mpr ⟨root, hroot, (identifier_eq_import root hmem).mpr rfl⟩)
    · intro hall name hname hmem
      obtain ⟨root, hroot, heq⟩ := List.mem_map.mp hmem
      rw [(identifier_eq_import root hname).mp heq] at hroot
      exact hall name hroot hname
  constructor
  · intro hall
    obtain ⟨hlegalEnv, honce⟩ := hall .env
    rw [hexports .env] at honce
    obtain ⟨-, hnodup, hdisjoint⟩ := List.nodup_append'.mp honce
    exact ⟨(hlegal .env).mp hlegalEnv, himports.mp hdisjoint, hinjective.mp hnodup⟩
  · rintro ⟨hwords, hnone, hapart⟩ style
    refine ⟨(hlegal style).mpr hwords, ?_⟩
    rw [hexports style]
    cases style with
    | globals => exact hinjective.mpr hapart
    | env =>
      show (["__native".toList, "__on".toList] ++ _).Nodup
      exact List.nodup_append'.mpr ⟨by decide, hinjective.mpr hapart, himports.mpr hnone⟩

/-- Every module is well formed, whichever style it is rendered in, exactly where its roots and what
it quotes are kept. -/
theorem hostModules_wellFormed_iff {printable : Char → Bool}
    (hdigits : ∀ c, c.isDigit = true → printable c = true)
    (descriptors : List (HostContractDescriptor S)) :
    (∀ style, ∀ e ∈ renderHostImportModules descriptors style, e.2.WellFormed printable) ↔
      ∀ module, RootsKept (moduleRoots module descriptors) ∧ LiteralsKept module descriptors := by
  have hroots : ∀ module, RootsKept (moduleRoots module descriptors) ↔
      RootsKept (rootOf (boundEntries module descriptors)).children.keys := by
    intro module
    constructor
    · rintro ⟨hlegal, himports, hapart⟩
      exact ⟨fun root hroot => hlegal root (mem_moduleRoots.mpr hroot),
        fun root hroot => himports root (mem_moduleRoots.mpr hroot),
        fun root hroot root' hroot' => hapart root (mem_moduleRoots.mpr hroot) root'
          (mem_moduleRoots.mpr hroot')⟩
    · rintro ⟨hlegal, himports, hapart⟩
      exact ⟨fun root hroot => hlegal root (mem_moduleRoots.mp hroot),
        fun root hroot => himports root (mem_moduleRoots.mp hroot),
        fun root hroot root' hroot' => hapart root (mem_moduleRoots.mp hroot) root'
          (mem_moduleRoots.mp hroot')⟩
  have hmodule : ∀ module, (∀ style, (renderModuleSource style
      (rootOf (boundEntries module descriptors)).children).WellFormed printable) ↔
        RootsKept (moduleRoots module descriptors) ∧ LiteralsKept module descriptors := by
    intro module
    rw [hroots module, ← names_iff (sorted_rootOf _), ← literals_iff hdigits .env module descriptors]
    constructor
    · intro hall
      exact ⟨fun style => ⟨(hall style).legal, (hall style).once⟩, (hall .env).literals⟩
    · rintro ⟨hnames, hliterals⟩ style
      refine ⟨(hnames style).1, (hnames style).2, ?_⟩
      exact (literals_iff hdigits style module descriptors).mpr
        ((literals_iff hdigits .env module descriptors).mp hliterals)
  simp only [← hmodule]
  constructor
  · intro hall module style
    by_cases hentries : moduleEntries module descriptors = []
    · -- a module that nothing is inserted below would be empty
      have hempty : boundEntries module descriptors = [] := by
        unfold boundEntries
        rw [hentries]
        rfl
      rw [hempty]
      refine ⟨nofun, ?_, nofun⟩
      cases style <;> decide
    · exact hall style (module, _) (mem_renderHostImportModules.mpr ⟨hentries, rfl⟩)
  · rintro hall style ⟨module, source⟩ he
    rw [(mem_renderHostImportModules.mp he).2]
    exact hall module style

end ImportModules

end RustTS.Registry
