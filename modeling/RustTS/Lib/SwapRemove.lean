import Mathlib.Data.List.Induction
import Mathlib.Data.List.Nodup

/-! Removal from a list by the last element taking the place of the removed one, and lists of
entries with a key each, looked up by key: the order of their entries does not matter. -/
namespace List

variable {α K : Type*}

/-- `Vec::swap_remove`, without the element it returns. -/
def swapRemove (l : List α) (i : Nat) : List α :=
  match l.getLast? with
  | none => l
  | some last => (l.set i last).dropLast

/-- Its elements are the others. -/
theorem swapRemove_perm (pre : List α) (x : α) (post : List α) :
    (pre ++ x :: post).swapRemove pre.length ~ pre ++ post := by
  induction post using List.reverseRecOn with
  | nil =>
    have hlast : (pre ++ [x]).getLast? = some x := by simp
    unfold swapRemove
    rw [hlast]
    simp
  | append_singleton mid last _ =>
    have hlast : (pre ++ x :: (mid ++ [last])).getLast? = some last := by
      simp [List.getLast?_append, List.getLast?_cons]
    have hset : (pre ++ x :: (mid ++ [last])).set pre.length last = (pre ++ last :: mid) ++ [last] := by
      simp
    unfold swapRemove
    rw [hlast]
    dsimp only
    rw [hset, dropLast_concat]
    exact ((perm_append_singleton last mid).symm.append_left pre)

theorem split_of_findIdx? {p : α → Bool} {l : List α} {i : Nat} (h : l.findIdx? p = some i) :
    ∃ pre x post, l = pre ++ x :: post ∧ pre.length = i ∧ p x = true := by
  obtain ⟨hlt, hx, -⟩ := findIdx?_eq_some_iff_getElem.mp h
  refine ⟨l.take i, l[i], l.drop (i + 1), ?_, by simp; omega, hx⟩
  rw [← drop_eq_getElem_cons hlt, take_append_drop]

theorem find?_key_eq_some [DecidableEq K] {key : α → K} {l : List α} (hnodup : (l.map key).Nodup)
    {k : K} {x : α} : l.find? (fun y => decide (key y = k)) = some x ↔ x ∈ l ∧ key x = k := by
  constructor
  · intro h
    exact ⟨mem_of_find?_eq_some h, by simpa using find?_some h⟩
  · intro ⟨hmem, hkey⟩
    cases hfind : l.find? fun y => decide (key y = k) with
    | none => exact absurd (by simpa using hkey) (find?_eq_none.mp hfind x hmem)
    | some y =>
      have hy : key y = k := by simpa using find?_some hfind
      rw [inj_on_of_nodup_map hnodup (mem_of_find?_eq_some hfind) hmem (hy.trans hkey.symm)]

theorem find?_key_perm [DecidableEq K] {key : α → K} {l l' : List α} (hnodup : (l.map key).Nodup)
    (hperm : l ~ l') (k : K) :
    l.find? (fun y => decide (key y = k)) = l'.find? (fun y => decide (key y = k)) := by
  ext x
  rw [find?_key_eq_some hnodup, find?_key_eq_some ((hperm.map key).nodup_iff.mp hnodup),
    hperm.mem_iff]

end List
