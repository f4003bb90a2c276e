import Mathlib.Data.List.TakeWhile

/-! Binary search for the end of the part of a list where a predicate holds, as the standard library
of Rust does it for slices. -/
namespace PartitionPoint

variable {α : Type*} (p : α → Bool) (l : List α)

/-- Halves the part where the last element that satisfies the predicate can be. -/
def searchFrom (base size : Nat) : Nat :=
  if 1 < size then
    let half := size / 2
    searchFrom (if (l[base + half]?).any p then base + half else base) (size - half)
  else base
termination_by size

/-- `slice::partition_point`. -/
def partitionPoint : Nat :=
  if l.isEmpty then 0
  else
    let base := searchFrom p l 0 l.length
    if (l[base]?).any p then base + 1 else base

/-- The predicate holds of the first `k` elements and of no other. -/
structure PartitionedAt (k : Nat) : Prop where
  le : k ≤ l.length
  iff : ∀ i, (l[i]?).any p = true ↔ i < k

variable {p l}

theorem searchFrom_spec {k : Nat} (h : PartitionedAt p l k) {base size : Nat}
    (hbase : base = 0 ∨ base < k) (hk : k ≤ base + size) (hsize : 0 < size) :
    (searchFrom p l base size = 0 ∨ searchFrom p l base size < k) ∧
      k ≤ searchFrom p l base size + 1 := by
  fun_induction searchFrom p l base size with
  | case1 base size hone half ih =>
    have hhalf : half = size / 2 := rfl
    by_cases hmid : (l[base + half]?).any p = true
    · have hlt := (h.iff _).mp hmid
      rw [dif_pos hmid] at ih
      rw [if_pos hmid]
      exact ih (.inr hlt) (by omega) (by omega)
    · have hle := mt (h.iff _).mpr hmid
      rw [dif_neg hmid] at ih
      rw [if_neg hmid]
      exact ih hbase (by omega) (by omega)
  | case2 base size hone => exact ⟨hbase, by omega⟩

theorem partitionPoint_eq {k : Nat} (h : PartitionedAt p l k) : partitionPoint p l = k := by
  have hle := h.le
  unfold partitionPoint
  cases l with
  | nil => exact (Nat.le_zero.mp hle).symm
  | cons a rest =>
    have hstart : (0 : Nat) = 0 ∨ 0 < k := .inl rfl
    have hsize : 0 < (a :: rest).length := Nat.succ_pos rest.length
    obtain ⟨hbase, hk⟩ := searchFrom_spec h hstart (by rwa [Nat.zero_add]) hsize
    rw [if_neg (show ¬(a :: rest).isEmpty = true from Bool.false_ne_true)]
    dsimp only
    by_cases hlast : ((a :: rest)[searchFrom p (a :: rest) 0 (a :: rest).length]?).any p = true
    · have hlt := (h.iff _).mp hlast
      rw [if_pos hlast]
      exact Nat.le_antisymm hlt hk
    · have hge := mt (h.iff _).mpr hlast
      rw [if_neg hlast]
      omega

/-- Where the predicate holds of all that come before an element of which it holds, those of which
it holds are the first ones. -/
theorem filter_eq_take (h : l.Pairwise fun a b => p b = true → p a = true) :
    PartitionedAt p l (l.filter p).length ∧ l.take (l.filter p).length = l.filter p := by
  induction l with
  | nil => exact ⟨⟨Nat.le_refl 0, by simp⟩, rfl⟩
  | cons a l ih =>
    obtain ⟨ha, hl⟩ := List.pairwise_cons.mp h
    obtain ⟨⟨hle, hiff⟩, htake⟩ := ih hl
    by_cases hp : p a = true
    · rw [List.filter_cons_of_pos hp, List.length_cons, List.take_succ_cons, htake]
      refine ⟨⟨Nat.succ_le_succ hle, fun i => ?_⟩, rfl⟩
      cases i with
      | zero => simp [hp]
      | succ i =>
        rw [List.getElem?_cons_succ, hiff i]
        omega
    · have hnone : l.filter p = [] :=
        List.filter_eq_nil_iff.mpr fun b hb hpb => hp (ha b hb hpb)
      rw [List.filter_cons_of_neg hp, hnone]
      refine ⟨⟨Nat.zero_le _, fun i => ?_⟩, rfl⟩
      rw [hnone] at hiff
      cases i with
      | zero => simp [hp]
      | succ i =>
        rw [List.getElem?_cons_succ, hiff i]
        exact ⟨fun h => absurd h (Nat.not_lt_zero i), fun h => absurd h (Nat.not_lt_zero _)⟩

theorem getElem?_partitionPoint (h : l.Pairwise fun a b => p b = true → p a = true) :
    (if partitionPoint p l = 0 then none else l[partitionPoint p l - 1]?) =
      (l.filter p).getLast? := by
  obtain ⟨hpoint, htake⟩ := filter_eq_take h
  rw [partitionPoint_eq hpoint]
  by_cases hzero : (l.filter p).length = 0
  · rw [if_pos hzero, List.length_eq_zero_iff.mp hzero]
    rfl
  · rw [if_neg hzero, List.getLast?_eq_getElem?]
    have hget := congrArg (·[(l.filter p).length - 1]?) htake
    rw [← hget]
    exact (List.getElem?_take_of_lt (by omega)).symm

end PartitionPoint
