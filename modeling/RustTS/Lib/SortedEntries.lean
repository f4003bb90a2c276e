import Mathlib.Order.Lattice
import Mathlib.Data.List.Perm.Basic

/-! Maps as lists of entries that stand in the order of their keys. -/
namespace SortedEntries

variable {K V : Type*} [LinearOrder K]

/-- `insert` of a sorted map: an entry replaces the one of its key. -/
def insert (entries : List (K × V)) (key : K) (value : V) : List (K × V) :=
  match entries with
  | [] => [(key, value)]
  | e :: rest =>
    if key < e.1 then (key, value) :: e :: rest
    else if key = e.1 then (key, value) :: rest
    else e :: insert rest key value

def insertAll (entries new : List (K × V)) : List (K × V) :=
  new.foldl (fun entries e => insert entries e.1 e.2) entries

/-- Entries in the order of their keys, each key once. -/
def Sorted (entries : List (K × V)) : Prop := entries.Pairwise fun a b => a.1 < b.1

theorem perm_insert {entries : List (K × V)} {key : K} (value : V)
    (h : ∀ e ∈ entries, e.1 ≠ key) : (insert entries key value).Perm ((key, value) :: entries) := by
  induction entries with
  | nil => exact .refl _
  | cons e rest ih =>
    obtain ⟨hne, hrest⟩ := List.forall_mem_cons.mp h
    unfold insert
    split_ifs with hlt heq
    · exact .refl _
    · exact absurd heq.symm hne
    · exact ((ih hrest).cons e).trans (.swap ..)

theorem Sorted.insert {entries : List (K × V)} (h : Sorted entries) {key : K} (value : V)
    (hkey : ∀ e ∈ entries, e.1 ≠ key) : Sorted (insert entries key value) := by
  induction entries with
  | nil => exact List.pairwise_singleton ..
  | cons e rest ih =>
    obtain ⟨hfirst, hrest⟩ := List.pairwise_cons.mp h
    obtain ⟨hne, hkeys⟩ := List.forall_mem_cons.mp hkey
    unfold SortedEntries.insert
    split_ifs with hlt heq
    · refine List.pairwise_cons.mpr ⟨fun b hb => ?_, h⟩
      rcases List.mem_cons.mp hb with rfl | hb
      · exact hlt
      · exact lt_trans hlt (hfirst b hb)
    · exact absurd heq.symm hne
    · refine List.pairwise_cons.mpr ⟨fun b hb => ?_, ih hrest hkeys⟩
      rcases List.mem_cons.mp ((perm_insert value hkeys).subset hb) with rfl | hb
      · exact lt_of_le_of_ne (not_lt.mp hlt) hne
      · exact hfirst b hb

/-- Entries of distinct keys, inserted one after another, are all there in the order of their
keys. -/
theorem insertAll_spec {entries new : List (K × V)} (h : Sorted entries)
    (hnodup : ((entries ++ new).map Prod.fst).Nodup) :
    Sorted (insertAll entries new) ∧ (insertAll entries new).Perm (entries ++ new) := by
  induction new generalizing entries with
  | nil => simpa [insertAll] using h
  | cons e new ih =>
    have hmiddle : (entries ++ e :: new).Perm (e :: (entries ++ new)) := List.perm_middle
    have hcons := (hmiddle.map Prod.fst).nodup_iff.mp hnodup
    rw [List.map_cons, List.nodup_cons] at hcons
    have hkey : ∀ b ∈ entries, b.1 ≠ e.1 := fun b hb heq =>
      hcons.1 (heq ▸ List.mem_map_of_mem (List.mem_append_left _ hb))
    have hperm := perm_insert e.2 hkey
    have hnodup' : ((insert entries e.1 e.2 ++ new).map Prod.fst).Nodup := by
      rw [((hperm.append_right new).map Prod.fst).nodup_iff]
      exact List.nodup_cons.mpr hcons
    obtain ⟨hsorted, hall⟩ := ih (h.insert e.2 hkey) hnodup'
    exact ⟨hsorted, hall.trans ((hperm.append_right new).trans hmiddle.symm)⟩

theorem insertAll_eq {entries new : List (K × V)} (h : Sorted entries) (hperm : new.Perm entries) :
    insertAll [] new = entries := by
  have hkeys : (entries.map Prod.fst).Nodup := by
    rw [List.Nodup, List.pairwise_map]
    exact h.imp fun hlt => ne_of_lt hlt
  have hnodup : ((([] : List (K × V)) ++ new).map Prod.fst).Nodup :=
    (hperm.map Prod.fst).nodup_iff.mpr hkeys
  obtain ⟨hsorted, hall⟩ := insertAll_spec .nil hnodup
  refine (hall.trans hperm).eq_of_pairwise (fun a b _ _ hab hba => ?_) hsorted h
  exact absurd hba (lt_asymm hab)

end SortedEntries
