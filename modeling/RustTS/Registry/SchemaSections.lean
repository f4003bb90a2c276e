import Mathlib.Data.List.Nodup
import RustTS.Registry.Declarations

/-! What pushing schemas adds to the declared types: each named schema once, under its own name. -/
namespace RustTS.Registry
open RustTS.Contract

namespace SchemaSections

/-- The names of the declared types. -/
def names (s : SchemaSections) : List Str := s.sections.map (·.1)

/-- From `s` to `s'` types are added, each under a new name, and no other name is emitted. -/
structure Adds (s s' : SchemaSections) (new : List (Str × TsType)) : Prop where
  sections : s'.sections = s.sections ++ new
  emitted : ∀ name, name ∈ s'.emitted ↔ name ∈ s.emitted ∨ name ∈ new.map (·.1)
  fresh : ∀ name ∈ new.map (·.1), name ∉ s.emitted
  once : (new.map (·.1)).Nodup

theorem Adds.refl (s : SchemaSections) : Adds s s [] :=
  ⟨(List.append_nil _).symm, by simp, by simp, List.nodup_nil⟩

theorem Adds.trans {s s' s'' : SchemaSections} {new new' : List (Str × TsType)}
    (h : Adds s s' new) (h' : Adds s' s'' new') : Adds s s'' (new ++ new') where
  sections := by rw [h'.sections, h.sections, List.append_assoc]
  emitted := by
    intro name
    rw [h'.emitted, h.emitted, List.map_append, List.mem_append, or_assoc]
  fresh := by
    intro name hname
    rw [List.map_append, List.mem_append] at hname
    rcases hname with hnew | hnew
    · exact h.fresh name hnew
    · exact fun hmem => h'.fresh name hnew ((h.emitted name).mpr (.inl hmem))
  once := by
    rw [List.map_append]
    refine List.nodup_append'.mpr ⟨h.once, h'.once, ?_⟩
    intro name hnew hnew'
    exact h'.fresh name hnew' ((h.emitted name).mpr (.inr hnew))

end SchemaSections

open SchemaSections

mutual

theorem pushSchema_adds : ∀ (schema : Schema) (s : SchemaSections),
    ∃ new, Adds s (pushSchema schema s) new
  | .mk name tsType dependencies, s => by
    unfold pushSchema
    by_cases h : hasDeclarationName name ∧ name ∉ s.emitted
    · rw [if_pos h]
      obtain ⟨new, hnew⟩ :=
        pushSchemas_adds dependencies { s with emitted := name :: s.emitted }
      refine ⟨new ++ [(name, tsType)], ?_, ?_, ?_, ?_⟩
      · show (pushSchemas _ _).sections ++ _ = _
        rw [hnew.sections, List.append_assoc]
      · intro other
        show other ∈ (pushSchemas _ _).emitted ↔ _
        rw [hnew.emitted, List.mem_cons, List.map_append, List.mem_append]
        simp only [List.map_cons, List.map_nil, List.mem_singleton]
        tauto
      · intro other hother
        rw [List.map_append, List.mem_append] at hother
        rcases hother with hmem | hmem
        · exact fun hemitted => hnew.fresh other hmem (List.mem_cons_of_mem name hemitted)
        · rw [List.mem_singleton.mp hmem]
          exact h.2
      · rw [List.map_append]
        refine List.nodup_append'.mpr ⟨hnew.once, List.nodup_singleton _, ?_⟩
        intro other hmem hother
        rw [List.mem_singleton.mp hother] at hmem
        exact hnew.fresh name hmem List.mem_cons_self
    · rw [if_neg h]
      exact ⟨[], Adds.refl s⟩

theorem pushSchemas_adds : ∀ (schemas : List Schema) (s : SchemaSections),
    ∃ new, Adds s (pushSchemas schemas s) new
  | [], s => ⟨[], Adds.refl s⟩
  | schema :: schemas, s => by
    obtain ⟨new, hnew⟩ := pushSchema_adds schema s
    obtain ⟨new', hnew'⟩ := pushSchemas_adds schemas (pushSchema schema s)
    exact ⟨new ++ new', hnew.trans hnew'⟩

end

theorem pushSchemas_append (schemas schemas' : List Schema) (s : SchemaSections) :
    pushSchemas (schemas ++ schemas') s = pushSchemas schemas' (pushSchemas schemas s) := by
  induction schemas generalizing s with
  | nil => rfl
  | cons schema schemas ih => exact ih (pushSchema schema s)

/-- The types that descriptors declare. -/
def declaredTypes (descriptors : List (HostContractDescriptor Schema)) : SchemaSections :=
  pushSchemas (descriptors.flatMap fun d => abiSchemas d.abi) ⟨[], []⟩

theorem declaredTypes_spec (descriptors : List (HostContractDescriptor Schema)) :
    (declaredTypes descriptors).names.Nodup ∧
      ∀ name, name ∈ (declaredTypes descriptors).emitted ↔
        name ∈ (declaredTypes descriptors).names := by
  obtain ⟨new, hnew⟩ :=
    pushSchemas_adds (descriptors.flatMap fun d => abiSchemas d.abi) ⟨[], []⟩
  have hsections : (declaredTypes descriptors).sections = new := hnew.sections
  unfold names
  rw [hsections]
  refine ⟨hnew.once, fun name => ?_⟩
  rw [show name ∈ (declaredTypes descriptors).emitted ↔ _ from hnew.emitted name]
  simp

end RustTS.Registry
