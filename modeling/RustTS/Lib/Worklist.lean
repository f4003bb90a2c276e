import Mathlib.Data.Set.Finite.Basic
import Mathlib.Data.Set.Card
import Mathlib.Logic.Relation

/-! Searches of a graph that keep a list of the nodes to visit and skip those whose key was seen.
They end exactly where the reachable keys are finitely many, and then have seen each of them once. -/
namespace Worklist

variable {α κ : Type*} (key : α → κ) (next : α → List α)

/-- The next node is the first one; what a node leads to is visited before the others, from the last
one on. -/
def explore [DecidableEq κ] : ℕ → List α → List α → Option (List α)
  | _, seen, [] => some seen
  | 0, _, _ :: _ => none
  | n + 1, seen, a :: pending =>
    if key a ∈ seen.map key then explore n seen pending
    else explore n (seen ++ [a]) ((next a).reverse ++ pending)

abbrev Reaches : α → α → Prop := Relation.ReflTransGen fun a b => b ∈ next a

/-- Keys of nodes that can be reached. -/
def reachableKeys (start : α) : Set κ := {k | ∃ a, Reaches next start a ∧ key a = k}

/-- Nodes of one key lead to nodes of the same keys. -/
def Respects (start : α) : Prop :=
  ∀ a b, Reaches next start a → Reaches next start b → key a = key b →
    (next a).map key = (next b).map key

/-- What the search keeps: it has seen reachable nodes, each key once, and what they lead to was seen
or is to be visited. -/
structure Inv (start : α) (seen pending : List α) : Prop where
  reachable : ∀ a ∈ seen ++ pending, Reaches next start a
  nodup : (seen.map key).Nodup
  start : key start ∈ (seen ++ pending).map key
  next : ∀ a ∈ seen, ∀ b ∈ next a, key b ∈ (seen ++ pending).map key

variable {key next} {start a : α} {seen pending : List α}

theorem Inv.init (start : α) : Inv key next start [] [start] where
  reachable _ ha := by
    obtain rfl := List.mem_singleton.mp ha
    exact .refl
  nodup := List.nodup_nil
  start := List.mem_singleton.mpr rfl
  next _ ha := nomatch ha

theorem Inv.skip (h : Inv key next start seen (a :: pending)) (ha : key a ∈ seen.map key) :
    Inv key next start seen pending := by
  have hkey (k : κ) (hk : k ∈ (seen ++ a :: pending).map key) : k ∈ (seen ++ pending).map key := by
    rw [List.map_append, List.map_cons, List.mem_append, List.mem_cons] at hk
    rw [List.map_append, List.mem_append]
    rcases hk with hk | rfl | hk
    · exact .inl hk
    · exact .inl ha
    · exact .inr hk
  refine ⟨fun b hb => h.reachable b ?_, h.nodup, hkey _ h.start, fun b hb c hc => hkey _ ?_⟩
  · rw [List.mem_append] at hb ⊢
    exact hb.imp id (List.mem_cons_of_mem a)
  · exact h.next b hb c hc

theorem Inv.visit (h : Inv key next start seen (a :: pending)) (ha : key a ∉ seen.map key) :
    Inv key next start (seen ++ [a]) ((next a).reverse ++ pending) := by
  have hreach : Reaches next start a :=
    h.reachable a (List.mem_append_right _ (List.mem_cons_self ..))
  have hkey (k : κ) (hk : k ∈ (seen ++ a :: pending).map key) :
      k ∈ (seen ++ [a] ++ ((next a).reverse ++ pending)).map key := by
    simp only [List.map_append, List.map_cons, List.map_nil, List.mem_append, List.mem_cons,
      List.not_mem_nil, or_false] at hk ⊢
    tauto
  refine ⟨fun b hb => ?_, ?_, hkey _ h.start, fun b hb c hc => ?_⟩
  · simp only [List.mem_append, List.mem_singleton, List.mem_reverse] at hb
    rcases hb with (hb | rfl) | hb | hb
    · exact h.reachable b (List.mem_append_left _ hb)
    · exact hreach
    · exact hreach.tail hb
    · exact h.reachable b (List.mem_append_right _ (List.mem_cons_of_mem a hb))
  · rw [List.map_append, List.map_singleton]
    exact h.nodup.append (List.nodup_singleton _) (List.disjoint_singleton.mpr ha)
  · rcases List.mem_append.mp hb with hb | hb
    · exact hkey _ (h.next b hb c hc)
    · obtain rfl := List.mem_singleton.mp hb
      refine List.mem_map_of_mem ?_
      exact List.mem_append_right _ (List.mem_append_left _ (List.mem_reverse.mpr hc))

/-- Where nothing is left to visit, every reachable key was seen. -/
theorem Inv.complete (h : Inv key next start seen []) (hrespects : Respects key next start)
    {b : α} (hb : Reaches next start b) : key b ∈ seen.map key := by
  have hstart := h.start
  have hnext := h.next
  rw [List.append_nil] at hstart hnext
  induction hb with
  | refl => exact hstart
  | @tail b c hb hc ih =>
    obtain ⟨b', hb', hkey⟩ := List.mem_map.mp ih
    have hreach := h.reachable b' (List.mem_append_left _ hb')
    have hsame := hrespects b' b hreach hb hkey
    have hmem : key c ∈ (next b').map key := hsame ▸ List.mem_map_of_mem hc
    obtain ⟨c', hc', hkey'⟩ := List.mem_map.mp hmem
    exact hkey' ▸ hnext b' hb' c' hc'

theorem explore_inv [DecidableEq κ] {n : ℕ} {result : List α} (h : Inv key next start seen pending)
    (hresult : explore key next n seen pending = some result) : Inv key next start result [] := by
  induction n generalizing seen pending with
  | zero =>
    cases pending with
    | nil =>
      obtain rfl := Option.some.inj hresult
      exact h
    | cons a pending => cases hresult
  | succ n ih =>
    cases pending with
    | nil =>
      obtain rfl := Option.some.inj hresult
      exact h
    | cons a pending =>
      unfold explore at hresult
      by_cases ha : key a ∈ seen.map key
      · rw [if_pos ha] at hresult
        exact ih (h.skip ha) hresult
      · rw [if_neg ha] at hresult
        exact ih (h.visit ha) hresult

theorem explore_spec [DecidableEq κ] {n : ℕ} {result : List α} (hrespects : Respects key next start)
    (h : explore key next n [] [start] = some result) :
    (∀ a ∈ result, Reaches next start a) ∧ (result.map key).Nodup ∧
      ∀ a, Reaches next start a → key a ∈ result.map key := by
  have hinv := explore_inv (.init start) h
  refine ⟨fun a ha => hinv.reachable a (List.mem_append_left _ ha), hinv.nodup, fun a ha => ?_⟩
  exact hinv.complete hrespects ha

/-- More fuel changes nothing where a search ends. -/
theorem explore_mono [DecidableEq κ] {n more : ℕ} {result : List α}
    (h : explore key next n seen pending = some result) (hmore : n ≤ more) :
    explore key next more seen pending = some result := by
  induction n generalizing seen pending more with
  | zero =>
    cases pending with
    | nil =>
      cases more with
      | zero => exact h
      | succ more => exact h
    | cons a pending => cases h
  | succ n ih =>
    obtain ⟨more, rfl⟩ := Nat.exists_eq_add_one_of_ne_zero (show more ≠ 0 by omega)
    have hle : n ≤ more := by omega
    cases pending with
    | nil => exact h
    | cons a pending =>
      unfold explore at h ⊢
      split_ifs at h ⊢
      · exact ih h hle
      · exact ih h hle

theorem reachableKeys_finite_of_explore [DecidableEq κ] {n : ℕ} {result : List α}
    (hrespects : Respects key next start) (h : explore key next n [] [start] = some result) :
    (reachableKeys key next start).Finite := by
  obtain ⟨-, -, hcomplete⟩ := explore_spec hrespects h
  refine (List.finite_toSet (result.map key)).subset ?_
  rintro _ ⟨a, ha, rfl⟩
  exact hcomplete a ha

theorem Inv.length_le (h : Inv key next start seen pending)
    (hfinite : (reachableKeys key next start).Finite) :
    seen.length ≤ (reachableKeys key next start).ncard := by
  classical
  have hcard : (seen.map key).toFinset.card = seen.length := by
    rw [List.toFinset_card_of_nodup h.nodup, List.length_map]
  rw [← hcard, ← Set.ncard_coe_finset]
  refine Set.ncard_le_ncard (fun k hk => ?_) hfinite
  obtain ⟨a, ha, rfl⟩ := List.mem_map.mp (List.mem_toFinset.mp hk)
  exact ⟨a, h.reachable a (List.mem_append_left _ ha), rfl⟩

theorem explore_ends_of_visit [DecidableEq κ] (h : Inv key next start seen pending)
    (hvisit : ∀ a pending, Inv key next start seen (a :: pending) → key a ∉ seen.map key →
      ∃ n result, explore key next n (seen ++ [a]) ((next a).reverse ++ pending) = some result) :
    ∃ n result, explore key next n seen pending = some result := by
  induction pending with
  | nil => exact ⟨0, seen, rfl⟩
  | cons a pending ih =>
    by_cases ha : key a ∈ seen.map key
    · obtain ⟨n, result, hresult⟩ := ih (h.skip ha)
      exact ⟨n + 1, result, (if_pos ha).trans hresult⟩
    · obtain ⟨n, result, hresult⟩ := hvisit a pending h ha
      exact ⟨n + 1, result, (if_neg ha).trans hresult⟩

theorem explore_ends_of_inv [DecidableEq κ] (hfinite : (reachableKeys key next start).Finite)
    (left : ℕ) (h : Inv key next start seen pending)
    (hleft : (reachableKeys key next start).ncard ≤ seen.length + left) :
    ∃ n result, explore key next n seen pending = some result := by
  induction left generalizing seen pending with
  | zero =>
    refine explore_ends_of_visit h fun a pending h ha => ?_
    have hlength := (h.visit ha).length_le hfinite
    rw [List.length_append, List.length_singleton] at hlength
    omega
  | succ left ih =>
    refine explore_ends_of_visit h fun a pending h ha => ih (h.visit ha) ?_
    rw [List.length_append, List.length_singleton]
    omega

theorem explore_ends [DecidableEq κ] (hfinite : (reachableKeys key next start).Finite) :
    ∃ n result, explore key next n [] [start] = some result :=
  explore_ends_of_inv hfinite _ (.init start) (Nat.le_add_left _ _)

end Worklist
