import RustTS.Registry.GeneratedPaths
import RustTS.Registry.SdkTopLevel

/-! The generated modules at top level. -/
namespace RustTS.Registry
open RustTS.Contract

/-- Every host import module, in either style, and the SDK are well formed at top level, and every
host import module can be parsed. -/
def GeneratedWellFormed (printable : Char → Bool)
    (descriptors : List (HostContractDescriptor Schema)) : Prop :=
  (∀ style, ∀ e ∈ renderHostImportModules descriptors style, e.2.WellFormed printable) ∧
    Sdk.SdkWellFormed (typescriptSdk descriptors)

/-- They are exactly where the roots and literals of every module are kept, and the models, roots,
types and references of the SDK. -/
theorem generatedWellFormed_iff (printable : Char → Bool)
    (hdigits : ∀ c, c.isDigit = true → printable c = true)
    (descriptors : List (HostContractDescriptor Schema)) :
    GeneratedWellFormed printable descriptors ↔
      (∀ module, ImportModules.RootsKept (ImportModules.moduleRoots module descriptors) ∧
        ImportModules.LiteralsKept module descriptors) ∧
      Sdk.ModelsKept (Sdk.modelNames descriptors) ∧
      Sdk.RootsKept (Sdk.sdkValues descriptors) (Sdk.boundContexts descriptors)
        (Sdk.domainRoots descriptors) ∧
      Sdk.TypesKept (declaredTypes descriptors).names (Sdk.modelNames descriptors)
        (Sdk.fixedTypes (!(Sdk.functionNames descriptors).isEmpty)
          (!(Sdk.eventNames descriptors).isEmpty)) ∧
      Sdk.RefsKept
        (Sdk.rootsOf (Sdk.functionNames descriptors) ++
          Sdk.rootsOf (Sdk.contextNames descriptors))
        (Sdk.sdkValues descriptors) (Sdk.boundContexts descriptors)
        (Sdk.domainRoots descriptors) := by
  have hmodules := ImportModules.hostModules_wellFormed_iff hdigits descriptors
  have hsdk := Sdk.sdkWellFormed_iff descriptors
  unfold GeneratedWellFormed
  rw [hmodules, hsdk]

theorem generatedWellFormed_user :
    GeneratedWellFormed isPrintableAscii [functionNamed "user.get".toList] := by
  have hentries : ∀ {module path b}, (path, b) ∈
      ImportModules.moduleEntries module [functionNamed "user.get".toList] →
        path = ["user".toList, "get".toList] ∧ b = .function "user.get".toList := by
    intro module path b hmem
    obtain ⟨d, hd, -, hb, hpath⟩ := ImportModules.mem_moduleEntries.mp hmem
    rw [List.mem_singleton.mp hd] at hb hpath
    exact ⟨hpath.symm.trans (by decide), (Option.some.inj hb).symm⟩
  have hpaths : ∀ module, ∀ path ∈
      ImportModules.modulePaths module [functionNamed "user.get".toList],
        path = ["user".toList, "get".toList] := by
    intro module path hpath
    obtain ⟨e, he, rfl⟩ := List.mem_map.mp hpath
    exact (hentries he).1
  have hroots : ∀ module, ∀ root ∈
      ImportModules.moduleRoots module [functionNamed "user.get".toList],
        root = "user".toList := by
    intro module root hroot
    obtain ⟨path, hpath, hhead⟩ := List.mem_filterMap.mp hroot
    rw [hpaths module path hpath] at hhead
    exact (Option.some.inj hhead).symm
  refine (generatedWellFormed_iff isPrintableAscii (fun _ => isPrintableAscii_digit) _).mpr
    ⟨fun module => ⟨⟨?_, ?_, ?_⟩, ?_, ?_⟩, ⟨by decide, by decide, by decide⟩,
      ⟨by decide, by decide, by decide, by decide, by decide⟩, ?_, ?_⟩
  · intro root hroot
    rw [hroots module root hroot]
    decide
  · intro root hroot
    rw [hroots module root hroot]
    decide
  · intro root hroot root' hroot' _
    rw [hroots module root hroot, hroots module root' hroot']
  · intro path hpath segment hsegment
    rw [hpaths module path hpath] at hsegment
    rw [List.mem_singleton.mp hsegment]
    exact not_hasNullBeforeDigit_of_notMem (by decide)
  · intro path b hlast
    have hmem := (ImportModules.mem_boundEntries.mp (PathTree.mem_of_lastAt hlast)).1
    rw [(hentries hmem).2]
    exact not_hasNullBeforeDigit_of_notMem (by decide)
  · unfold Sdk.TypesKept
    decide
  · unfold Sdk.RefsKept
    decide

/-- The SDK exports the function contract `delete.user` from a constant named `delete`, the module
of the contract at `await` exports one named `await`, and that of the contract named by a null and a
digit has an octal escape in it. -/
theorem reserved_word_exported :
    ¬ GeneratedWellFormed isPrintableAscii [functionNamed "delete.user".toList] ∧
      ¬ GeneratedWellFormed isPrintableAscii [functionNamed "await".toList] ∧
      ¬ GeneratedWellFormed isPrintableAscii [functionNamed "\x001".toList] := by
  have hmodules := fun descriptors : List (HostContractDescriptor Schema) =>
    (ImportModules.hostModules_wellFormed_iff (fun _ => isPrintableAscii_digit) descriptors).mp
  refine ⟨fun h => ?_, fun h => ?_, fun h => ?_⟩
  · obtain ⟨-, hroots, -⟩ := (Sdk.sdkWellFormed_iff _).mp h.2
    exact hroots.legal "delete".toList (by decide) (by decide)
  · obtain ⟨hroots, -⟩ := hmodules _ h.1 "host".toList
    exact hroots.legal "await".toList (by decide) (by decide)
  · obtain ⟨-, hliterals⟩ := hmodules _ h.1 "host".toList
    refine hliterals.names ["\x001".toList] (.function "\x001".toList) (by decide) ?_
    exact ⟨'1', rfl, List.infix_rfl⟩

end RustTS.Registry
