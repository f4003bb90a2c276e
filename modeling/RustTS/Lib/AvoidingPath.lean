import Mathlib.Data.List.Basic

/-! Paths of a graph that avoid some keys. A search that cuts itself off at the keys of the path it
is on misses nothing: what a path reaches through a key again, it reaches from there directly. -/
namespace AvoidingPath

variable {α κ : Type*} (next : α → List α) (key : α → Option κ)

/-- The second node can be reached from the first along nodes whose keys are not in the list. -/
inductive Leads (avoid : List κ) : α → α → Prop
  | here {a : α} (ha : ∀ k ∈ key a, k ∉ avoid) : Leads avoid a a
  | step {a b c : α} (ha : ∀ k ∈ key a, k ∉ avoid) (hb : b ∈ next a) (h : Leads avoid b c) :
    Leads avoid a c

variable {next key} {avoid : List κ} {a b c : α}

theorem Leads.start (h : Leads next key avoid a c) : ∀ k ∈ key a, k ∉ avoid := by
  cases h with
  | here ha => exact ha
  | step ha => exact ha

/-- A path either avoids a key, too, or meets it at a last node and avoids it from there. -/
theorem Leads.last (h : Leads next key avoid a c) (k : κ) :
    Leads next key (k :: avoid) a c ∨ ∃ x, key x = some k ∧
      (x = c ∨ ∃ b ∈ next x, Leads next key (k :: avoid) b c) := by
  induction h with
  | @here a ha =>
    by_cases hk : key a = some k
    · exact .inr ⟨a, hk, .inl rfl⟩
    · left
      refine .here fun k' hk' hmem => ?_
      rcases List.mem_cons.mp hmem with rfl | hmem
      · exact hk hk'
      · exact ha k' hk' hmem
  | @step a b c ha hb _ ih =>
    rcases ih with ih | ih
    · by_cases hk : key a = some k
      · exact .inr ⟨a, hk, .inr ⟨b, hb, ih⟩⟩
      · left
        refine .step (fun k' hk' hmem => ?_) hb ih
        rcases List.mem_cons.mp hmem with rfl | hmem
        · exact hk hk'
        · exact ha k' hk' hmem
    · exact .inr ih

/-- Where a key is that of one node only: from that node on, each other node is reached without
meeting it again. -/
theorem Leads.avoiding (h : Leads next key avoid a c) {k : κ} (ha : key a = some k)
    (hunique : ∀ x, key x = some k → x = a) :
    c = a ∨ ∃ b ∈ next a, Leads next key (k :: avoid) b c := by
  rcases h.last k with h | ⟨x, hx, h⟩
  · exact absurd (List.mem_cons_self ..) (h.start k ha)
  · rw [hunique x hx] at h
    rcases h with rfl | h
    · exact .inl rfl
    · exact .inr h

end AvoidingPath
