import Mathlib.Data.List.Nodup

/-! Maps that remember the order their keys first came in. Inserting under a key that is
there replaces its value in place; erasing keeps the order of the others. -/

/-- Entries in insertion order, each key once. -/
@[ext] structure IndexMap (K V : Type*) where
  entries : List (K × V)
  nodup : (entries.map Prod.fst).Nodup

namespace IndexMap

variable {K V : Type*}

def empty : IndexMap K V := ⟨[], by simp⟩

def keys (m : IndexMap K V) : List K := m.entries.map Prod.fst

def values (m : IndexMap K V) : List V := m.entries.map Prod.snd

/-- Changes values only; keys and order stay. -/
def mapValues (f : K → V → V) (m : IndexMap K V) : IndexMap K V :=
  ⟨m.entries.map fun e => (e.1, f e.1 e.2), by simpa [Function.comp_def] using m.nodup⟩

@[simp] theorem entries_empty : (empty : IndexMap K V).entries = [] := rfl

@[simp] theorem keys_mapValues (f : K → V → V) (m : IndexMap K V) :
    (m.mapValues f).keys = m.keys := by
  simp [keys, mapValues]

@[simp] theorem values_mapValues (f : K → V → V) (m : IndexMap K V) :
    (m.mapValues f).values = m.entries.map fun e => f e.1 e.2 := by
  simp [values, mapValues]

theorem mem_mapValues {f : K → V → V} {m : IndexMap K V} {k : K} {w : V} :
    (k, w) ∈ (m.mapValues f).entries ↔ ∃ v, (k, v) ∈ m.entries ∧ f k v = w := by
  simp only [mapValues, List.mem_map, Prod.mk.injEq, Prod.exists]
  constructor
  · rintro ⟨_, v, hv, rfl, rfl⟩
    exact ⟨v, hv, rfl⟩
  · rintro ⟨v, hv, rfl⟩
    exact ⟨k, v, hv, rfl, rfl⟩

@[simp] theorem mapValues_id (m : IndexMap K V) : m.mapValues (fun _ v => v) = m := by
  ext1
  simp [mapValues]

theorem mapValues_mapValues (f g : K → V → V) (m : IndexMap K V) :
    (m.mapValues f).mapValues g = m.mapValues fun k v => g k (f k v) := by
  ext1
  simp [mapValues]

theorem mem_keys {m : IndexMap K V} {k : K} : k ∈ m.keys ↔ ∃ v, (k, v) ∈ m.entries := by
  simp [keys]

theorem mem_values {m : IndexMap K V} {v : V} : v ∈ m.values ↔ ∃ k, (k, v) ∈ m.entries := by
  simp [values]

theorem entry_unique {m : IndexMap K V} {k : K} {v w : V} (hv : (k, v) ∈ m.entries)
    (hw : (k, w) ∈ m.entries) : v = w :=
  congrArg Prod.snd (List.inj_on_of_nodup_map m.nodup hv hw rfl)

theorem entries_split {m : IndexMap K V} {k : K} {v : V} (h : (k, v) ∈ m.entries) :
    ∃ pre post, m.entries = pre ++ (k, v) :: post ∧ ∀ e ∈ pre ++ post, e.1 ≠ k := by
  obtain ⟨pre, post, hsplit⟩ := List.append_of_mem h
  refine ⟨pre, post, hsplit, fun e he hk => ?_⟩
  have hnodup := m.nodup
  rw [hsplit, List.map_append, List.map_cons, List.nodup_middle] at hnodup
  refine (List.nodup_cons.mp hnodup).1 ?_
  rw [← List.map_append]
  exact List.mem_map.mpr ⟨e, he, hk⟩

section
variable [DecidableEq K]

def get? (m : IndexMap K V) (k : K) : Option V :=
  (m.entries.find? fun e => decide (e.1 = k)).map Prod.snd

/-- `insert` of the Rust crate, without the value it returns (`get?` of the same key). -/
def insert (m : IndexMap K V) (k : K) (v : V) : IndexMap K V :=
  if h : k ∈ m.keys then m.mapValues fun j w => if j = k then v else w
  else ⟨m.entries ++ [(k, v)], by
    rw [List.map_append, List.map_cons, List.map_nil]
    exact m.nodup.append (by simp) (List.disjoint_singleton.mpr h)⟩

/-- `shift_remove` of the Rust crate, without the value it returns. -/
def erase (m : IndexMap K V) (k : K) : IndexMap K V :=
  ⟨m.entries.filter fun e => decide (e.1 ≠ k), m.nodup.sublist (List.filter_sublist.map _)⟩

theorem get?_eq_some {m : IndexMap K V} {k : K} {v : V} :
    m.get? k = some v ↔ (k, v) ∈ m.entries := by
  constructor
  · intro h
    obtain ⟨⟨j, w⟩, hf, hw⟩ := Option.map_eq_some_iff.mp h
    have hj : j = k := by simpa using List.find?_some hf
    simpa [hj, ← hw] using List.mem_of_find?_eq_some hf
  · intro h
    cases hf : m.entries.find? fun e => decide (e.1 = k) with
    | none => simpa using List.find?_eq_none.mp hf _ h
    | some e =>
      have hk : e.1 = k := by simpa using List.find?_some hf
      have he : (k, e.2) ∈ m.entries := hk ▸ List.mem_of_find?_eq_some hf
      simp [get?, hf, entry_unique he h]

theorem get?_eq_none {m : IndexMap K V} {k : K} : m.get? k = none ↔ k ∉ m.keys := by
  rw [mem_keys, Option.eq_none_iff_forall_not_mem]
  simp only [Option.mem_def, get?_eq_some, not_exists]

@[simp] theorem get?_empty (k : K) : (empty : IndexMap K V).get? k = none := rfl

theorem mem_insert {m : IndexMap K V} {j k : K} {v w : V} :
    (j, w) ∈ (m.insert k v).entries ↔ (j = k ∧ w = v) ∨ (j ≠ k ∧ (j, w) ∈ m.entries) := by
  unfold insert
  split
  next h =>
    rw [mem_mapValues]
    constructor
    · rintro ⟨u, hu, rfl⟩
      by_cases hj : j = k <;> simp [hj, hu]
    · rintro (⟨rfl, rfl⟩ | ⟨hj, hw⟩)
      · obtain ⟨u, hu⟩ := mem_keys.mp h
        exact ⟨u, hu, if_pos rfl⟩
      · exact ⟨w, hw, if_neg hj⟩
  next h =>
    have hne : (j, w) ∈ m.entries → j ≠ k := fun hw hj => h (hj ▸ mem_keys.mpr ⟨w, hw⟩)
    simp only [List.mem_append, List.mem_singleton, Prod.mk.injEq]
    tauto

theorem mem_erase {m : IndexMap K V} {j k : K} {w : V} :
    (j, w) ∈ (m.erase k).entries ↔ j ≠ k ∧ (j, w) ∈ m.entries := by
  simp [erase, and_comm]

theorem get?_insert_self (m : IndexMap K V) (k : K) (v : V) : (m.insert k v).get? k = some v :=
  get?_eq_some.mpr (mem_insert.mpr (.inl ⟨rfl, rfl⟩))

theorem get?_insert_of_ne (m : IndexMap K V) {j k : K} (v : V) (h : j ≠ k) :
    (m.insert k v).get? j = m.get? j := by
  ext w
  simp [get?_eq_some, mem_insert, h]

theorem get?_erase_self (m : IndexMap K V) (k : K) : (m.erase k).get? k = none := by
  rw [get?_eq_none, mem_keys]
  intro ⟨v, hmem⟩
  exact (mem_erase.mp hmem).1 rfl

theorem get?_erase_of_ne (m : IndexMap K V) {j k : K} (h : j ≠ k) :
    (m.erase k).get? j = m.get? j := by
  ext v
  rw [get?_eq_some, get?_eq_some, mem_erase]
  exact and_iff_right h

theorem get?_mapValues (f : K → V → V) (m : IndexMap K V) (k : K) :
    (m.mapValues f).get? k = (m.get? k).map (f k) := by
  ext w
  simp [get?_eq_some, mem_mapValues]

theorem mem_keys_insert {m : IndexMap K V} {j k : K} {v : V} :
    j ∈ (m.insert k v).keys ↔ j = k ∨ j ∈ m.keys := by
  simp only [mem_keys, mem_insert]
  constructor
  · rintro ⟨w, ⟨rfl, -⟩ | ⟨-, hw⟩⟩
    · exact .inl rfl
    · exact .inr ⟨w, hw⟩
  · rintro (rfl | ⟨w, hw⟩)
    · exact ⟨v, .inl ⟨rfl, rfl⟩⟩
    · by_cases hj : j = k
      · exact ⟨v, .inl ⟨hj, rfl⟩⟩
      · exact ⟨w, .inr ⟨hj, hw⟩⟩

/-- Changing or erasing one entry leaves the values before and after it. -/
theorem values_split {m : IndexMap K V} {k : K} {v : V} (h : m.get? k = some v) :
    ∃ pre post, m.values = pre ++ v :: post ∧ (m.erase k).values = pre ++ post ∧
      ∀ f : V → V, (m.mapValues fun j w => if j = k then f w else w).values = pre ++ f v :: post := by
  obtain ⟨pre, post, hsplit, hne⟩ := entries_split (get?_eq_some.mp h)
  have hpre {e : K × V} (he : e ∈ pre) : e.1 ≠ k := hne e (List.mem_append_left _ he)
  have hpost {e : K × V} (he : e ∈ post) : e.1 ≠ k := hne e (List.mem_append_right _ he)
  have hmap (l : List (K × V)) (hl : ∀ e ∈ l, e.1 ≠ k) (f : V → V) :
      (l.map fun e => if e.1 = k then f e.2 else e.2) = l.map Prod.snd :=
    List.map_congr_left fun e he => if_neg (hl e he)
  have hfilter (l : List (K × V)) (hl : ∀ e ∈ l, e.1 ≠ k) :
      (l.filter fun e => decide (e.1 ≠ k)) = l :=
    List.filter_eq_self.mpr fun e he => by simpa using hl e he
  refine ⟨pre.map Prod.snd, post.map Prod.snd, by simp [values, hsplit], ?_, fun f => ?_⟩
  · simp only [values, erase, hsplit, List.filter_append, List.filter_cons]
    rw [hfilter pre fun _ => hpre, hfilter post fun _ => hpost]
    simp
  · rw [values_mapValues, hsplit, List.map_append, List.map_cons, hmap pre (fun _ => hpre) f,
      hmap post (fun _ => hpost) f, if_pos rfl]

theorem insert_of_mem {m : IndexMap K V} {k : K} {v w : V} (h : m.get? k = some v) :
    m.insert k w = m.mapValues fun j u => if j = k then w else u :=
  dif_pos (mem_keys.mpr ⟨v, get?_eq_some.mp h⟩)

theorem entries_insert_of_not_mem {m : IndexMap K V} {k : K} (v : V) (h : m.get? k = none) :
    (m.insert k v).entries = m.entries ++ [(k, v)] := by
  unfold insert
  rw [dif_neg (get?_eq_none.mp h)]

theorem values_insert_of_not_mem {m : IndexMap K V} {k : K} (v : V) (h : m.get? k = none) :
    (m.insert k v).values = m.values ++ [v] := by
  rw [values, entries_insert_of_not_mem v h, List.map_append]
  rfl

theorem values_insert_perm {m : IndexMap K V} {k : K} {v w : V} (h : m.get? k = some w) :
    (v :: m.values).Perm (w :: (m.insert k v).values) := by
  obtain ⟨pre, post, hvalues, -, hmap⟩ := values_split h
  have hinserted : (m.insert k v).values = pre ++ v :: post := by
    rw [insert_of_mem h]
    exact hmap fun _ => v
  have hmiddle (u : V) : (pre ++ u :: post).Perm (u :: (pre ++ post)) := List.perm_middle
  rw [hinserted, hvalues]
  exact (((hmiddle w).cons v).trans (.swap w v _)).trans ((hmiddle v).symm.cons w)

theorem values_insert_perm_of_not_mem {m : IndexMap K V} {k : K} (v : V) (h : m.get? k = none) :
    (v :: m.values).Perm (m.insert k v).values := by
  rw [values_insert_of_not_mem v h]
  exact (List.perm_append_singleton v m.values).symm

theorem values_erase_perm {m : IndexMap K V} {k : K} {v : V} (h : m.get? k = some v) :
    m.values.Perm (v :: (m.erase k).values) := by
  obtain ⟨pre, post, hvalues, herased, -⟩ := values_split h
  rw [hvalues, herased]
  exact List.perm_middle

end

end IndexMap
