import Mathlib.Data.List.Sort

/-! Keyed entries that stand in the order of a rank of their keys, and where the ranks are equal in
the order they came in. -/
namespace RankedEntries

variable {K V : Type*}

section
variable [DecidableEq K] (rank : K → Nat)

/-- An entry replaces the one of its key, or joins the others at its place. -/
def define (entries : List (K × V)) (key : K) (value : V) : List (K × V) :=
  if key ∈ entries.map Prod.fst then entries.map fun e => if e.1 = key then (key, value) else e
  else entries.orderedInsert (fun a b => rank a.1 < rank b.1) (key, value)

def defineAll (entries new : List (K × V)) : List (K × V) :=
  new.foldl (fun entries e => define rank entries e.1 e.2) entries

end

/-- The entries stand in the order of their ranks, each key once. -/
structure Ranked (rank : K → Nat) (entries : List (K × V)) : Prop where
  sorted : entries.Pairwise fun a b => rank a.1 ≤ rank b.1
  nodup : (entries.map Prod.fst).Nodup

theorem ranked_nil (rank : K → Nat) : Ranked rank ([] : List (K × V)) := ⟨.nil, .nil⟩

theorem Ranked.filter {rank : K → Nat} {entries : List (K × V)} (h : Ranked rank entries)
    (keep : K × V → Bool) : Ranked rank (entries.filter keep) :=
  ⟨h.sorted.sublist List.filter_sublist, h.nodup.sublist (List.filter_sublist.map _)⟩

section Lookup
variable [BEq K] [LawfulBEq K]

theorem lookup_cons_of_ne {e : K × V} {j : K} (h : j ≠ e.1) (entries : List (K × V)) :
    (e :: entries).lookup j = entries.lookup j := by
  have hbeq : (j == e.1) = false := by simpa using h
  rw [List.lookup_cons, hbeq]

variable [DecidableEq K] {rank : K → Nat}

theorem lookup_orderedInsert {entries : List (K × V)} {key : K} (value : V)
    (h : key ∉ entries.map Prod.fst) (j : K) :
    (entries.orderedInsert (fun a b => rank a.1 < rank b.1) (key, value)).lookup j =
      if j = key then some value else entries.lookup j := by
  induction entries with
  | nil =>
    rw [List.orderedInsert]
    split_ifs with hj
    · simp [hj]
    · exact lookup_cons_of_ne hj []
  | cons e entries ih =>
    simp only [List.map_cons, List.mem_cons, not_or] at h
    rw [List.orderedInsert]
    split_ifs with hrank hj hj
    · simp [hj]
    · exact lookup_cons_of_ne hj _
    · rw [lookup_cons_of_ne (by simpa [hj] using h.1), ih h.2, if_pos hj]
    · rw [List.lookup_cons, List.lookup_cons, ih h.2, if_neg hj]

theorem lookup_define (entries : List (K × V)) (key : K) (value : V) (j : K) :
    (define rank entries key value).lookup j =
      if j = key then some value else entries.lookup j := by
  unfold define
  split_ifs with hmem hj hj
  · subst hj
    induction entries with
    | nil => simp at hmem
    | cons e entries ih =>
      by_cases he : e.1 = j
      · simp [he]
      · rw [List.map_cons, if_neg he, lookup_cons_of_ne fun h => he h.symm]
        simp only [List.map_cons, List.mem_cons] at hmem
        exact ih (hmem.resolve_left fun h => he h.symm)
  · clear hmem
    induction entries with
    | nil => rfl
    | cons e entries ih =>
      rw [List.map_cons]
      split_ifs with he
      · rw [lookup_cons_of_ne (e := (key, value)) hj, lookup_cons_of_ne (he ▸ hj), ih]
      · rw [List.lookup_cons, List.lookup_cons, ih]
  · rw [lookup_orderedInsert value hmem, if_pos hj]
  · rw [lookup_orderedInsert value hmem, if_neg hj]

/-- The last entry of a key counts. -/
theorem lookup_defineAll (entries new : List (K × V)) (j : K) :
    (defineAll rank entries new).lookup j = (new.reverse.lookup j).or (entries.lookup j) := by
  induction new generalizing entries with
  | nil => simp [defineAll]
  | cons e new ih =>
    have hstep : defineAll rank entries (e :: new) =
        defineAll rank (define rank entries e.1 e.2) new := rfl
    rw [hstep, ih, lookup_define, List.reverse_cons, List.lookup_append, Option.or_assoc]
    congr 1
    split_ifs with hj
    · rw [hj, List.lookup_cons, beq_self_eq_true]
      rfl
    · rw [lookup_cons_of_ne hj]
      rfl

/-- Each of several entries of distinct keys is found. -/
theorem lookup_defineAll_of_mem (entries : List (K × V)) {new : List (K × V)}
    (hnodup : (new.map Prod.fst).Nodup) {e : K × V} (he : e ∈ new) :
    (defineAll rank entries new).lookup e.1 = some e.2 := by
  have hlookup : ∀ l : List (K × V), (l.map Prod.fst).Nodup → e ∈ l → l.lookup e.1 = some e.2 := by
    intro l hl hmem
    induction l with
    | nil => cases hmem
    | cons b l ih =>
      rw [List.map_cons, List.nodup_cons] at hl
      rcases List.mem_cons.mp hmem with rfl | hmem
      · rw [List.lookup_cons, beq_self_eq_true]
      · have hne : e.1 ≠ b.1 := fun heq => hl.1 (heq ▸ List.mem_map_of_mem hmem)
        rw [lookup_cons_of_ne hne, ih hl.2 hmem]
  rw [lookup_defineAll, hlookup _ (by rwa [List.map_reverse, List.nodup_reverse])
    (List.mem_reverse.mpr he), Option.some_or]

theorem lookup_defineAll_of_not_mem (entries : List (K × V)) {new : List (K × V)} {j : K}
    (h : j ∉ new.map Prod.fst) : (defineAll rank entries new).lookup j = entries.lookup j := by
  have hnone : new.reverse.lookup j = none := by
    rw [List.lookup_eq_none_iff]
    intro e he
    have hne : j ≠ e.1 := fun heq => h (heq ▸ List.mem_map_of_mem (List.mem_reverse.mp he))
    simpa using hne
  rw [lookup_defineAll, hnone, Option.none_or]

end Lookup

variable [DecidableEq K] {rank : K → Nat}

theorem mem_keys_define {entries : List (K × V)} {key j : K} {value : V} :
    j ∈ (define rank entries key value).map Prod.fst ↔ j = key ∨ j ∈ entries.map Prod.fst := by
  unfold define
  split_ifs with hmem
  · have hkeys : (entries.map fun e => if e.1 = key then (key, value) else e).map Prod.fst =
        entries.map Prod.fst := by
      rw [List.map_map]
      refine List.map_congr_left fun e _ => ?_
      show (if e.1 = key then (key, value) else e).1 = e.1
      split_ifs with he
      · exact he.symm
      · rfl
    rw [hkeys]
    constructor
    · exact .inr
    · intro h
      cases h with
      | inl h => exact h ▸ hmem
      | inr h => exact h
  · simp [List.mem_orderedInsert, eq_comm]

theorem Ranked.define {entries : List (K × V)} (h : Ranked rank entries) (key : K) (value : V) :
    Ranked rank (define rank entries key value) := by
  unfold RankedEntries.define
  split_ifs with hmem
  · have hfst (e : K × V) : (if e.1 = key then (key, value) else e).1 = e.1 := by
      split_ifs with he
      · exact he.symm
      · rfl
    constructor
    · rw [List.pairwise_map]
      refine h.sorted.imp fun {a b} hab => ?_
      rw [hfst, hfst]
      exact hab
    · rw [List.map_map]
      rw [show Prod.fst ∘ (fun e => if e.1 = key then (key, value) else e) = Prod.fst from
        funext hfst]
      exact h.nodup
  · constructor
    · induction entries with
      | nil => simp
      | cons e entries ih =>
        have hsorted := List.pairwise_cons.mp h.sorted
        simp only [List.map_cons, List.mem_cons, not_or] at hmem
        rw [List.orderedInsert]
        split_ifs with hrank
        · refine List.pairwise_cons.mpr ⟨fun b hb => ?_, h.sorted⟩
          rcases List.mem_cons.mp hb with hb | hb
          · exact hb ▸ hrank.le
          · exact hrank.le.trans (hsorted.1 b hb)
        · refine List.pairwise_cons.mpr ⟨fun b hb => ?_, ?_⟩
          · rcases (List.mem_orderedInsert _).mp hb with hb | hb
            · rw [hb]
              exact not_lt.mp hrank
            · exact hsorted.1 b hb
          · exact ih ⟨hsorted.2, (List.nodup_cons.mp h.nodup).2⟩ hmem.2
    · have hperm := (List.perm_orderedInsert (fun a b : K × V => rank a.1 < rank b.1)
        (key, value) entries).map Prod.fst
      rw [hperm.nodup_iff, List.map_cons]
      exact List.nodup_cons.mpr ⟨hmem, h.nodup⟩

theorem ranked_defineAll {entries : List (K × V)} (h : Ranked rank entries)
    (new : List (K × V)) : Ranked rank (defineAll rank entries new) := by
  induction new generalizing entries with
  | nil => exact h
  | cons e new ih => exact ih (h.define e.1 e.2)

theorem mem_keys_defineAll {entries new : List (K × V)} {j : K} :
    j ∈ (defineAll rank entries new).map Prod.fst ↔
      j ∈ new.map Prod.fst ∨ j ∈ entries.map Prod.fst := by
  induction new generalizing entries with
  | nil => simp [defineAll]
  | cons e new ih =>
    have hstep : defineAll rank entries (e :: new) =
        defineAll rank (define rank entries e.1 e.2) new := rfl
    rw [hstep, ih, mem_keys_define, List.map_cons, List.mem_cons]
    tauto

omit [DecidableEq K] in
theorem filter_orderedInsert {entries : List (K × V)} {key : K} (value : V)
    (hsorted : entries.Pairwise fun a b => rank a.1 ≤ rank b.1) (keep : K → Bool) :
    (entries.orderedInsert (fun a b => rank a.1 < rank b.1) (key, value)).filter
        (fun e => keep e.1) =
      if keep key then (entries.filter fun e => keep e.1).orderedInsert
        (fun a b => rank a.1 < rank b.1) (key, value)
      else entries.filter fun e => keep e.1 := by
  induction entries with
  | nil => cases hkey : keep key <;> simp [hkey]
  | cons e entries ih =>
    have htail := List.pairwise_cons.mp hsorted
    rw [List.orderedInsert]
    split_ifs with hrank hkey hkey
    · rw [List.filter_cons, if_pos hkey]
      have hfirst : ∀ b ∈ (e :: entries).filter (fun e => keep e.1), rank key < rank b.1 := by
        intro b hb
        rcases List.mem_cons.mp (List.mem_of_mem_filter hb) with hb | hb
        · exact hb ▸ hrank
        · exact hrank.trans_le (htail.1 b hb)
      cases hrest : (e :: entries).filter (fun e => keep e.1) with
      | nil => rfl
      | cons b rest =>
        have hb : rank key < rank b.1 := hfirst b (hrest ▸ List.mem_cons_self)
        rw [List.orderedInsert, if_pos hb]
    · rw [List.filter_cons, if_neg hkey]
    · rw [List.filter_cons, ih htail.2, List.filter_cons]
      split_ifs with he
      · rw [List.orderedInsert, if_neg hrank]
      · rfl
    · rw [List.filter_cons, ih htail.2, if_neg hkey, List.filter_cons]

/-- Leaving keys out comes to the same before and after an entry is defined. -/
theorem filter_define {entries : List (K × V)} (h : Ranked rank entries) (key : K) (value : V)
    (keep : K → Bool) :
    (define rank entries key value).filter (fun e => keep e.1) =
      if keep key then define rank (entries.filter fun e => keep e.1) key value
      else entries.filter fun e => keep e.1 := by
  have hmem_filter (hkey : keep key = true) :
      key ∈ (entries.filter fun e => keep e.1).map Prod.fst ↔ key ∈ entries.map Prod.fst := by
    simp only [List.mem_map, List.mem_filter]
    constructor
    · intro ⟨e, ⟨he, _⟩, hfst⟩
      exact ⟨e, he, hfst⟩
    · intro ⟨e, he, hfst⟩
      exact ⟨e, ⟨he, hfst ▸ hkey⟩, hfst⟩
  by_cases hmem : key ∈ entries.map Prod.fst
  · have hfilter : (entries.map fun e => if e.1 = key then (key, value) else e).filter
        (fun e => keep e.1) =
        (entries.filter fun e => keep e.1).map fun e => if e.1 = key then (key, value) else e := by
      rw [List.filter_map]
      congr 1
      refine List.filter_congr fun e _ => ?_
      show keep (if e.1 = key then (key, value) else e).1 = keep e.1
      split_ifs with he
      · rw [he]
      · rfl
    rw [define, if_pos hmem, hfilter]
    split_ifs with hkey
    · rw [define, if_pos ((hmem_filter hkey).mpr hmem)]
    · have hid : ∀ e ∈ entries.filter (fun e => keep e.1),
          (if e.1 = key then (key, value) else e) = e := by
        intro e he
        refine if_neg fun heq => hkey ?_
        rw [← heq]
        exact (List.mem_filter.mp he).2
      rw [List.map_congr_left hid, List.map_id']
  · rw [define, if_neg hmem, filter_orderedInsert value h.sorted]
    split_ifs with hkey
    · rw [define, if_neg fun hin => hmem ((hmem_filter hkey).mp hin)]
    · rfl

theorem filter_defineAll {entries : List (K × V)} (h : Ranked rank entries)
    (new : List (K × V)) (keep : K → Bool) :
    (defineAll rank entries new).filter (fun e => keep e.1) =
      defineAll rank (entries.filter fun e => keep e.1) (new.filter fun e => keep e.1) := by
  induction new generalizing entries with
  | nil => rfl
  | cons e new ih =>
    have hstep : defineAll rank entries (e :: new) =
        defineAll rank (define rank entries e.1 e.2) new := rfl
    rw [hstep, ih (h.define e.1 e.2), filter_define h, List.filter_cons]
    split_ifs <;> rfl

/-- Entries of other keys join those that are there. -/
theorem perm_defineAll {entries new : List (K × V)}
    (h : ((entries ++ new).map Prod.fst).Nodup) :
    (defineAll rank entries new).Perm (entries ++ new) := by
  induction new generalizing entries with
  | nil => simp [defineAll]
  | cons e new ih =>
    have hmiddle : (entries ++ e :: new).Perm (e :: (entries ++ new)) := List.perm_middle
    have hnodup := (hmiddle.map Prod.fst).nodup_iff.mp h
    have hmem : e.1 ∉ entries.map Prod.fst := fun hin =>
      (List.nodup_cons.mp hnodup).1 (by
        rw [List.map_append]
        exact List.mem_append_left _ hin)
    have hdefine : (define rank entries e.1 e.2).Perm (e :: entries) := by
      rw [define, if_neg hmem]
      exact List.perm_orderedInsert _ _ _
    have hnodup' : ((define rank entries e.1 e.2 ++ new).map Prod.fst).Nodup :=
      ((hdefine.append_right new).map Prod.fst).nodup_iff.mpr hnodup
    have hstep : defineAll rank entries (e :: new) =
        defineAll rank (define rank entries e.1 e.2) new := rfl
    rw [hstep]
    exact (ih hnodup').trans ((hdefine.append_right new).trans hmiddle.symm)

theorem define_last {entries : List (K × V)} {key : K} (value : V)
    (hmem : key ∉ entries.map Prod.fst) (hrank : ∀ e ∈ entries, rank e.1 ≤ rank key) :
    define rank entries key value = entries ++ [(key, value)] := by
  rw [define, if_neg hmem]
  clear hmem
  induction entries with
  | nil => rfl
  | cons e entries ih =>
    rw [List.orderedInsert, if_neg (hrank e List.mem_cons_self).not_gt,
      ih fun b hb => hrank b (List.mem_cons_of_mem _ hb), List.cons_append]

/-- Defined one by one, ranked entries come out as they are. -/
theorem defineAll_append {entries new : List (K × V)} (h : Ranked rank (entries ++ new)) :
    defineAll rank entries new = entries ++ new := by
  induction new generalizing entries with
  | nil => simp [defineAll]
  | cons e new ih =>
    have hnodup := h.nodup
    rw [List.map_append, List.map_cons, List.nodup_middle] at hnodup
    have hmem : e.1 ∉ entries.map Prod.fst := fun hin =>
      (List.nodup_cons.mp hnodup).1 (List.mem_append_left _ hin)
    have hrank : ∀ b ∈ entries, rank b.1 ≤ rank e.1 := fun b hb =>
      (List.pairwise_append.mp h.sorted).2.2 b hb e List.mem_cons_self
    have hstep : defineAll rank entries (e :: new) =
        defineAll rank (define rank entries e.1 e.2) new := rfl
    have hassoc : entries ++ e :: new = (entries ++ [(e.1, e.2)]) ++ new := by simp
    rw [hstep, define_last e.2 hmem hrank, hassoc]
    rw [hassoc] at h
    exact ih h

theorem mem_define {entries : List (K × V)} {key : K} {value : V} {e : K × V}
    (h : e ∈ define rank entries key value) : e = (key, value) ∨ e ∈ entries := by
  unfold define at h
  split_ifs at h
  · obtain ⟨b, hb, heq⟩ := List.mem_map.mp h
    split_ifs at heq
    · exact .inl heq.symm
    · exact .inr (heq ▸ hb)
  · exact (List.mem_orderedInsert _).mp h

theorem mem_defineAll {entries new : List (K × V)} {e : K × V}
    (h : e ∈ defineAll rank entries new) : e ∈ new ∨ e ∈ entries := by
  induction new generalizing entries with
  | nil => exact .inr h
  | cons b new ih =>
    rcases ih h with hnew | hdefine
    · exact .inl (List.mem_cons_of_mem _ hnew)
    · rcases mem_define hdefine with rfl | hentries
      · exact .inl List.mem_cons_self
      · exact .inr hentries

section Alike
variable {K' V' : Type*} [DecidableEq K'] {R : V → V' → Prop} {f : K' → K}

/-- Entries under corresponding keys with corresponding values. -/
def Alike (R : V → V' → Prop) (f : K' → K) : List (K × V) → List (K' × V') → Prop :=
  List.Forall₂ fun e e' => e.1 = f e'.1 ∧ R e.2 e'.2

omit [DecidableEq K] [DecidableEq K'] in
theorem Alike.keys {entries : List (K × V)} {entries' : List (K' × V')}
    (h : Alike R f entries entries') :
    entries.map Prod.fst = (entries'.map Prod.fst).map f := by
  induction h with
  | nil => rfl
  | cons he _ ih => rw [List.map_cons, List.map_cons, List.map_cons, ih, he.1]

omit [DecidableEq K] [DecidableEq K'] in
theorem Alike.orderedInsert {entries : List (K × V)} {entries' : List (K' × V')}
    (h : Alike R f entries entries') (key : K') {value : V} {value' : V'} (hvalue : R value value') :
    Alike R f (entries.orderedInsert (fun a b => rank a.1 < rank b.1) (f key, value))
      (entries'.orderedInsert (fun a b => rank (f a.1) < rank (f b.1)) (key, value')) := by
  induction h with
  | nil => exact .cons ⟨rfl, hvalue⟩ .nil
  | @cons e e' entries entries' he hrest ih =>
    rw [List.orderedInsert, List.orderedInsert, he.1]
    split_ifs
    · exact .cons ⟨rfl, hvalue⟩ (.cons he hrest)
    · exact .cons he ih

/-- Corresponding entries stay so where a key is defined on both sides. -/
theorem Alike.define (rank : K → Nat) (hf : Function.Injective f) {entries : List (K × V)}
    {entries' : List (K' × V')} (h : Alike R f entries entries') (key : K') {value : V} {value' : V'}
    (hvalue : R value value') :
    Alike R f (define rank entries (f key) value)
      (define (fun k => rank (f k)) entries' key value') := by
  have hmem : f key ∈ entries.map Prod.fst ↔ key ∈ entries'.map Prod.fst := by
    rw [h.keys, List.mem_map_of_injective hf]
  unfold RankedEntries.define
  by_cases hin : key ∈ entries'.map Prod.fst
  · rw [if_pos (hmem.mpr hin), if_pos hin]
    clear hmem hin
    induction h with
    | nil => exact .nil
    | @cons e e' _ _ he _ ih =>
      refine .cons ?_ ih
      dsimp only
      by_cases hkey : e'.1 = key
      · rw [if_pos hkey, if_pos (by rw [he.1, hkey])]
        exact ⟨rfl, hvalue⟩
      · rw [if_neg hkey, if_neg fun heq => hkey (hf (he.1.symm.trans heq))]
        exact he
  · rw [if_neg fun hin' => hin (hmem.mp hin'), if_neg hin]
    exact h.orderedInsert key hvalue

end Alike

theorem defineAll_self {entries : List (K × V)} (h : Ranked rank entries) :
    defineAll rank [] entries = entries := by
  have happend : defineAll rank [] entries = [] ++ entries := defineAll_append h
  exact happend

end RankedEntries
