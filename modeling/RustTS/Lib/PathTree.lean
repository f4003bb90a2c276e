import Mathlib.Data.List.Infix
import Mathlib.Order.Defs.Unbundled

/-! Sorted trees of bindings at paths: what one insertion changes, what a sequence of insertions
leaves, and the bindings of a tree in order. -/

/-- Children by key, each with the binding it has itself and its own children. -/
inductive PathTree (K T : Type*)
  | nil
  | cons (key : K) (binding : Option T) (children rest : PathTree K T)

namespace PathTree

/-- What stands under one key. -/
structure Node (K T : Type*) where
  binding : Option T
  children : PathTree K T

variable {K T : Type*}

def keys : PathTree K T → List K
  | nil => []
  | cons key _ _ rest => key :: rest.keys

/-- The keys at every depth. -/
def allKeys : PathTree K T → List K
  | nil => []
  | cons key _ children rest => key :: (children.allKeys ++ rest.allKeys)

def isEmpty : PathTree K T → Bool
  | nil => true
  | cons .. => false

/-- The bindings with their paths, each before those below it. -/
def bindings : PathTree K T → List (List K × T)
  | nil => []
  | cons key binding children rest =>
    (binding.map fun b => ([key], b)).toList ++
      children.bindings.map (fun e => (key :: e.1, e.2)) ++ rest.bindings

section
variable [DecidableEq K]

def lookup (key : K) : PathTree K T → Option (Node K T)
  | nil => none
  | cons k binding children rest => if k = key then some ⟨binding, children⟩ else rest.lookup key

def modify (key : K) (f : Node K T → Node K T) : PathTree K T → PathTree K T
  | nil => nil
  | cons k binding children rest =>
    if k = key then cons k (f ⟨binding, children⟩).binding (f ⟨binding, children⟩).children rest
    else cons k binding children (rest.modify key f)

/-- The node at a path. -/
def find : List K → PathTree K T → Option (Node K T)
  | [], _ => none
  | [key], t => t.lookup key
  | key :: path, t => (t.lookup key).bind fun node => find path node.children

def bindingAt (path : List K) (t : PathTree K T) : Option T := (t.find path).bind (·.binding)

/-- The node at a path below one. -/
def Node.at : List K → Node K T → Option (Node K T)
  | [], node => some node
  | key :: path, node => (node.children.lookup key).bind (Node.at path)

variable [LT K] [DecidableLT K]

def insertSorted (key : K) (node : Node K T) : PathTree K T → PathTree K T
  | nil => cons key node.binding node.children nil
  | cons k binding children rest =>
    if key < k then cons key node.binding node.children (cons k binding children rest)
    else cons k binding children (rest.insertSorted key node)

/-- Changes the node under a key, an empty one where there is none. -/
def update (key : K) (f : Node K T → Node K T) (t : PathTree K T) : PathTree K T :=
  if (t.lookup key).isSome then t.modify key f else t.insertSorted key (f ⟨none, nil⟩)

/-- Binds at a path, replacing what is bound there; the empty path binds nothing. -/
def insert : List K → T → PathTree K T → PathTree K T
  | [], _, t => t
  | [key], b, t => t.update key fun node => ⟨some b, node.children⟩
  | key :: path, b, t => t.update key fun node => ⟨node.binding, insert path b node.children⟩

def insertAll (entries : List (List K × T)) (t : PathTree K T) : PathTree K T :=
  entries.foldl (fun t e => t.insert e.1 e.2) t

end

/-- The last value listed under a name. -/
def lastAt {N : Type*} [DecidableEq N] (name : N) : List (N × T) → Option T
  | [] => none
  | e :: entries => (lastAt name entries).or (if e.1 = name then some e.2 else none)

section
variable [DecidableEq K] {key k : K} {f : Node K T → Node K T} {t : PathTree K T}

@[simp] theorem find_singleton (key : K) (t : PathTree K T) : t.find [key] = t.lookup key := rfl

theorem find_cons {path : List K} (h : path ≠ []) (key : K) (t : PathTree K T) :
    t.find (key :: path) = (t.lookup key).bind fun node => node.children.find path := by
  cases path with
  | nil => exact absurd rfl h
  | cons _ _ => rfl

theorem find_eq_at {path : List K} (h : path ≠ []) (t : PathTree K T) :
    t.find path = Node.at path ⟨none, t⟩ := by
  induction path generalizing t with
  | nil => exact absurd rfl h
  | cons key path ih =>
    show _ = (t.lookup key).bind (Node.at path)
    by_cases hp : path = []
    · subst hp
      rw [find_singleton]
      cases t.lookup key <;> rfl
    · rw [find_cons hp]
      congr 1
      funext node
      rw [ih hp]
      obtain ⟨k, path, rfl⟩ := List.exists_cons_of_ne_nil hp
      rfl

theorem lookup_cons (k key : K) (binding : Option T) (children rest : PathTree K T) :
    (cons key binding children rest).lookup k =
      if key = k then some ⟨binding, children⟩ else rest.lookup k := rfl

theorem find_nil (path : List K) : (nil : PathTree K T).find path = none := by
  match path with
  | [] => rfl
  | [_] => rfl
  | _ :: _ :: _ => rfl

theorem find_cons_of_isSome {path : List K} {binding : Option T} {children rest : PathTree K T}
    (hfresh : rest.lookup key = none) (hpath : path ≠ []) (h : (rest.find path).isSome = true) :
    (cons key binding children rest).find path = rest.find path := by
  obtain ⟨head, path, rfl⟩ := List.exists_cons_of_ne_nil hpath
  have hhead : key ≠ head := by
    rintro rfl
    cases path with
    | nil =>
      rw [find_singleton, hfresh] at h
      cases h
    | cons k path =>
      rw [find_cons (List.cons_ne_nil k path), hfresh] at h
      cases h
  cases path with
  | nil => rw [find_singleton, find_singleton, lookup_cons, if_neg hhead]
  | cons k path =>
    rw [find_cons (List.cons_ne_nil k path), find_cons (List.cons_ne_nil k path), lookup_cons,
      if_neg hhead]

theorem bindingAt_nil (path : List K) : (nil : PathTree K T).bindingAt path = none := by
  unfold bindingAt
  rw [find_nil]
  rfl

theorem lookup_modify (k : K) (key : K) (f : Node K T → Node K T) (t : PathTree K T) :
    (t.modify key f).lookup k = if k = key then (t.lookup key).map f else t.lookup k := by
  induction t with
  | nil => simp [modify, lookup]
  | cons k' binding children rest _ ih =>
    unfold modify
    by_cases hk : k' = key
    · subst hk
      rw [if_pos rfl]
      unfold lookup
      by_cases hkey : k' = k
      · rw [if_pos hkey, if_pos hkey.symm, if_pos rfl]
        rfl
      · rw [if_neg hkey, if_neg (Ne.symm hkey), if_neg hkey]
    · rw [if_neg hk]
      unfold lookup
      rw [ih, if_neg hk]
      by_cases hkey : k' = k
      · rw [if_pos hkey, if_pos hkey, if_neg (fun h => hk (hkey.trans h))]
      · rw [if_neg hkey, if_neg hkey]

theorem isSome_lookup : (t.lookup key).isSome = true ↔ key ∈ t.keys := by
  induction t with
  | nil => simp [lookup, keys]
  | cons k' binding children rest _ ih =>
    unfold lookup keys
    rw [List.mem_cons]
    split_ifs with h
    · exact ⟨fun _ => .inl h.symm, fun _ => rfl⟩
    · rw [ih]
      exact ⟨.inr, fun hor => hor.resolve_left fun heq => h heq.symm⟩

theorem keys_modify : (t.modify key f).keys = t.keys := by
  induction t with
  | nil => rfl
  | cons k' binding children rest _ ih =>
    unfold modify keys
    split_ifs
    · rfl
    · rw [← ih]

end

section
variable [DecidableEq K] [LT K] [DecidableLT K] {t : PathTree K T} {path q : List K} {b : T}

theorem lookup_insertSorted (k : K) {key : K} (node : Node K T) (h : t.lookup key = none) :
    (t.insertSorted key node).lookup k = if k = key then some node else t.lookup k := by
  induction t with
  | nil =>
    show (if key = k then some node else none) = _
    by_cases hk : k = key
    · rw [if_pos hk.symm, if_pos hk]
    · rw [if_neg (Ne.symm hk), if_neg hk]
      rfl
  | cons k' binding children rest _ ih =>
    have hne : k' ≠ key := by
      intro heq
      unfold lookup at h
      rw [if_pos heq] at h
      cases h
    have hrest : rest.lookup key = none := by
      unfold lookup at h
      rwa [if_neg hne] at h
    unfold insertSorted
    split_ifs with hlt hk hk
    · subst hk
      show (if k = k then some node else _) = some node
      rw [if_pos rfl]
    · show (if key = k then some node else _) = _
      rw [if_neg (Ne.symm hk)]
    · subst hk
      show (if k' = k then _ else (rest.insertSorted k node).lookup k) = some node
      rw [if_neg hne, ih hrest, if_pos rfl]
    · show (if k' = k then _ else (rest.insertSorted key node).lookup k) =
        if k' = k then _ else rest.lookup k
      rw [ih hrest, if_neg hk]

theorem lookup_update (k key : K) (f : Node K T → Node K T) :
    (t.update key f).lookup k =
      if k = key then some (f ((t.lookup key).getD ⟨none, nil⟩)) else t.lookup k := by
  unfold update
  cases hkey : t.lookup key with
  | some node =>
    rw [Option.isSome_some, if_pos rfl, lookup_modify, hkey]
    rfl
  | none =>
    rw [Option.isSome_none, if_neg Bool.false_ne_true, lookup_insertSorted k _ hkey]
    rfl

theorem insert_cons {path : List K} (h : path ≠ []) (key : K) (b : T) (t : PathTree K T) :
    t.insert (key :: path) b =
      t.update key fun node => ⟨node.binding, node.children.insert path b⟩ := by
  cases path with
  | nil => exact absurd rfl h
  | cons _ _ => rfl

/-- An insertion binds at its own path and changes no other binding. -/
theorem bindingAt_insert (hpath : path ≠ []) :
    (t.insert path b).bindingAt q = if q = path then some b else t.bindingAt q := by
  induction path generalizing t q with
  | nil => exact absurd rfl hpath
  | cons key path ih =>
    match q with
    | [] => exact (if_neg (List.cons_ne_nil key path).symm).symm
    | k :: q =>
      by_cases hp : path = []
      · subst hp
        show Option.bind ((t.update key _).find (k :: q)) _ = _
        by_cases hq : q = []
        · subst hq
          rw [find_singleton, lookup_update]
          by_cases hk : k = key
          · rw [if_pos hk, if_pos (hk ▸ rfl)]
            rfl
          · rw [if_neg hk, if_neg (fun h => hk (List.cons.inj h).1)]
            rfl
        · unfold bindingAt
          rw [find_cons hq, lookup_update, find_cons hq,
            if_neg (fun h => hq (List.cons.inj h).2)]
          by_cases hk : k = key
          · subst hk
            rw [if_pos rfl]
            cases t.lookup k with
            | none =>
              show (find q nil).bind _ = _
              rw [find_nil]
              rfl
            | some node => rfl
          · rw [if_neg hk]
      · rw [insert_cons hp]
        unfold bindingAt
        by_cases hq : q = []
        · subst hq
          rw [find_singleton, find_singleton, lookup_update,
            if_neg (fun h => hp (List.cons.inj h).2.symm)]
          by_cases hk : k = key
          · subst hk
            rw [if_pos rfl]
            cases t.lookup k <;> rfl
          · rw [if_neg hk]
        · rw [find_cons hq, find_cons hq, lookup_update]
          by_cases hk : k = key
          · subst hk
            rw [if_pos rfl]
            have hrec := fun c : PathTree K T => ih hp (t := c) (q := q)
            unfold bindingAt at hrec
            rw [Option.bind_some, hrec]
            have hiff : k :: q = k :: path ↔ q = path := by simp
            rw [if_congr hiff rfl rfl]
            cases t.lookup k with
            | none =>
              show (if q = path then some b else (find q nil).bind _) = _
              rw [find_nil]
              rfl
            | some node => rfl
          · rw [if_neg hk, if_neg (fun h => hk (List.cons.inj h).1)]

/-- An insertion makes the nodes on the way to its path. -/
theorem isSome_find_insert (hpath : path ≠ []) (hq : q ≠ []) :
    ((t.insert path b).find q).isSome = true ↔ (t.find q).isSome = true ∨ q <+: path := by
  induction path generalizing t q with
  | nil => exact absurd rfl hpath
  | cons key path ih =>
    match q with
    | [] => exact absurd rfl hq
    | k :: q =>
      rw [List.cons_prefix_cons]
      by_cases hq' : q = []
      · subst hq'
        have hlookup : ((t.insert (key :: path) b).lookup k).isSome = true ↔
            (t.lookup k).isSome = true ∨ k = key := by
          have hupdate : ∀ f, ((t.update key f).lookup k).isSome = true ↔
              (t.lookup k).isSome = true ∨ k = key := by
            intro f
            rw [lookup_update]
            split_ifs with hk
            · simp [hk]
            · simp [hk]
          by_cases hp : path = []
          · subst hp
            exact hupdate _
          · rw [insert_cons hp]
            exact hupdate _
        rw [find_singleton, find_singleton, hlookup]
        simp
      · rw [find_cons hq', find_cons hq']
        by_cases hp : path = []
        · subst hp
          show Option.isSome (Option.bind ((t.update key _).lookup k) _) = true ↔ _
          rw [lookup_update, List.prefix_nil]
          by_cases hk : k = key
          · subst hk
            rw [if_pos rfl]
            cases t.lookup k with
            | none =>
              show (find q nil).isSome = true ↔ _
              rw [find_nil]
              simp [hq']
            | some node => simp [hq']
          · rw [if_neg hk]
            simp [hk]
        · rw [insert_cons hp, lookup_update]
          by_cases hk : k = key
          · subst hk
            rw [if_pos rfl, Option.bind_some, ih hp hq']
            cases t.lookup k with
            | none =>
              show (find q nil).isSome = true ∨ _ ↔ _
              rw [find_nil]
              simp
            | some node => simp
          · rw [if_neg hk]
            simp [hk]

/-- Where no inserted path is empty, the last insertion at a path is what is bound there. -/
theorem bindingAt_insertAll (entries : List (List K × T)) (h : ∀ e ∈ entries, e.1 ≠ []) :
    (t.insertAll entries).bindingAt q = (lastAt q entries).or (t.bindingAt q) := by
  induction entries generalizing t with
  | nil => rfl
  | cons e entries ih =>
    show ((t.insert e.1 e.2).insertAll entries).bindingAt q =
      ((lastAt q entries).or (if e.1 = q then some e.2 else none)).or (t.bindingAt q)
    rw [ih fun e' he' => h e' (List.mem_cons_of_mem e he'),
      bindingAt_insert (h e List.mem_cons_self), Option.or_assoc]
    by_cases hq : q = e.1
    · rw [if_pos hq, if_pos hq.symm]
      rfl
    · rw [if_neg hq, if_neg (Ne.symm hq)]
      rfl

theorem isSome_find_insertAll (entries : List (List K × T)) (h : ∀ e ∈ entries, e.1 ≠ [])
    (hq : q ≠ []) : ((t.insertAll entries).find q).isSome = true ↔
      (t.find q).isSome = true ∨ ∃ e ∈ entries, q <+: e.1 := by
  induction entries generalizing t with
  | nil => simp [insertAll]
  | cons e entries ih =>
    show (((t.insert e.1 e.2).insertAll entries).find q).isSome = true ↔ _
    rw [ih fun e' he' => h e' (List.mem_cons_of_mem e he'),
      isSome_find_insert (h e List.mem_cons_self) hq, or_assoc]
    simp

end

section
variable {N : Type*} [DecidableEq N] {name : N} {entries : List (N × T)} {b : T}

theorem lastAt_eq_none : lastAt name entries = none ↔ ∀ e ∈ entries, e.1 ≠ name := by
  induction entries with
  | nil => simp [lastAt]
  | cons e entries ih =>
    unfold lastAt
    rw [Option.or_eq_none_iff, ih, List.forall_mem_cons, and_comm]
    apply and_congr_left'
    split_ifs with h
    · simp [h]
    · simp [h]

theorem mem_of_lastAt (h : lastAt name entries = some b) : (name, b) ∈ entries := by
  induction entries with
  | nil => cases h
  | cons e entries ih =>
    unfold lastAt at h
    rcases Option.or_eq_some_iff.mp h with hrest | ⟨-, hhead⟩
    · exact List.mem_cons_of_mem e (ih hrest)
    · split_ifs at hhead with heq
      cases hhead
      rw [← heq]
      exact List.mem_cons_self

end

section
variable [LT K]

/-- The keys of every node are in order. -/
def Sorted : PathTree K T → Prop
  | nil => True
  | cons key _ children rest =>
    (∀ k ∈ rest.keys, key < k) ∧ children.Sorted ∧ rest.Sorted

variable {t : PathTree K T} {key : K} {node : Node K T}

section
variable [DecidableEq K]

theorem Sorted.lookup (h : t.Sorted) (hnode : t.lookup key = some node) : node.children.Sorted := by
  induction t with
  | nil => cases hnode
  | cons k binding children rest _ ih =>
    obtain ⟨-, hchildren, hrest⟩ := h
    unfold PathTree.lookup at hnode
    split_ifs at hnode with hk
    · cases hnode
      exact hchildren
    · exact ih hrest hnode

theorem Sorted.modify {f : Node K T → Node K T} (h : t.Sorted)
    (hf : ∀ node, t.lookup key = some node → (f node).children.Sorted) :
    (t.modify key f).Sorted := by
  induction t with
  | nil => trivial
  | cons k binding children rest _ ih =>
    obtain ⟨hkeys, hchildren, hrest⟩ := h
    unfold PathTree.modify
    by_cases hk : k = key
    · rw [if_pos hk]
      refine ⟨hkeys, hf ⟨binding, children⟩ ?_, hrest⟩
      exact if_pos hk
    · rw [if_neg hk]
      refine ⟨?_, hchildren, ih hrest fun node hnode => hf node ?_⟩
      · rw [keys_modify]
        exact hkeys
      · rw [← hnode]
        exact if_neg hk

end

variable [DecidableLT K]

theorem mem_keys_insertSorted {k : K} :
    k ∈ (t.insertSorted key node).keys ↔ k = key ∨ k ∈ t.keys := by
  induction t with
  | nil => simp [insertSorted, keys]
  | cons k' binding children rest _ ih =>
    unfold insertSorted
    split_ifs
    · simp [keys]
    · show k ∈ k' :: (rest.insertSorted key node).keys ↔ _ ∨ k ∈ k' :: rest.keys
      rw [List.mem_cons, List.mem_cons, ih]
      exact or_left_comm

variable [IsStrictTotalOrder K (· < ·)]

theorem Sorted.insertSorted (h : t.Sorted) (hkey : key ∉ t.keys) (hnode : node.children.Sorted) :
    (t.insertSorted key node).Sorted := by
  induction t with
  | nil => exact ⟨nofun, hnode, trivial⟩
  | cons k binding children rest _ ih =>
    obtain ⟨hkeys, hchildren, hrest⟩ := h
    have hne : key ≠ k := fun heq => hkey (heq ▸ List.mem_cons_self)
    have hnot : key ∉ rest.keys := fun hmem => hkey (List.mem_cons_of_mem k hmem)
    unfold PathTree.insertSorted
    split_ifs with hlt
    · refine ⟨?_, hnode, hkeys, hchildren, hrest⟩
      intro k' hk'
      rcases List.mem_cons.mp hk' with rfl | hmem
      · exact hlt
      · exact trans_of (· < ·) hlt (hkeys k' hmem)
    · have hgt : k < key := by
        rcases trichotomous_of (· < ·) key k with h | h | h
        · exact absurd h hlt
        · exact absurd h hne
        · exact h
      refine ⟨?_, hchildren, ih hrest hnot⟩
      intro k' hk'
      rcases mem_keys_insertSorted.mp hk' with rfl | hmem
      · exact hgt
      · exact hkeys k' hmem

variable [DecidableEq K]

theorem Sorted.update {f : Node K T → Node K T} (h : t.Sorted)
    (hf : (f ((t.lookup key).getD ⟨none, nil⟩)).children.Sorted) : (t.update key f).Sorted := by
  unfold PathTree.update
  split_ifs with hsome
  · apply h.modify
    intro node hnode
    rw [hnode] at hf
    exact hf
  · apply h.insertSorted
    · exact fun hmem => hsome (isSome_lookup.mpr hmem)
    · rw [Option.not_isSome_iff_eq_none] at hsome
      rw [hsome] at hf
      exact hf

theorem Sorted.insert {path : List K} {b : T} (h : t.Sorted) : (t.insert path b).Sorted := by
  induction path generalizing t with
  | nil => exact h
  | cons key path ih =>
    have hchildren : ((t.lookup key).getD ⟨none, nil⟩).children.Sorted := by
      cases hlookup : t.lookup key with
      | none => trivial
      | some node => exact h.lookup hlookup
    by_cases hp : path = []
    · subst hp
      exact h.update hchildren
    · rw [insert_cons hp]
      exact h.update (ih hchildren)

theorem sorted_insertAll (entries : List (List K × T)) (h : t.Sorted) :
    (t.insertAll entries).Sorted := by
  induction entries generalizing t with
  | nil => exact h
  | cons e entries ih => exact ih h.insert

end

theorem ne_nil_of_mem_bindings {t : PathTree K T} {e : List K × T} (he : e ∈ t.bindings) :
    e.1 ≠ [] := by
  induction t with
  | nil => cases he
  | cons key binding children rest _ ihrest =>
    unfold bindings at he
    rcases List.mem_append.mp he with hhead | hrest
    · rcases List.mem_append.mp hhead with hown | hbelow
      · cases binding with
        | none => cases hown
        | some b =>
          rw [List.mem_singleton.mp hown]
          exact List.cons_ne_nil key []
      · obtain ⟨e', -, rfl⟩ := List.mem_map.mp hbelow
        exact List.cons_ne_nil key e'.1
    · exact ihrest hrest

section
variable [LT K] [IsStrictTotalOrder K (· < ·)] {t : PathTree K T}

theorem Sorted.nodup_keys (h : t.Sorted) : t.keys.Nodup := by
  induction t with
  | nil => exact List.nodup_nil
  | cons key binding children rest _ ih =>
    obtain ⟨hkeys, -, hrest⟩ := h
    exact List.nodup_cons.mpr
      ⟨fun hmem => irrefl_of (· < ·) key (hkeys key hmem), ih hrest⟩

variable [DecidableEq K]

/-- The bindings of a sorted tree are those bound at a path. -/
theorem mem_bindings {path : List K} {b : T} (h : t.Sorted) :
    (path, b) ∈ t.bindings ↔ t.bindingAt path = some b := by
  induction t generalizing path with
  | nil => simp [bindings, bindingAt_nil]
  | cons key binding children rest ihchildren ihrest =>
    obtain ⟨hkeys, hchildren, hrest⟩ := h
    have hfresh : rest.lookup key = none := by
      rw [← Option.not_isSome_iff_eq_none, isSome_lookup]
      exact fun hmem => irrefl_of (· < ·) key (hkeys key hmem)
    unfold bindings
    rw [List.mem_append, List.mem_append]
    have hown : (path, b) ∈ (binding.map fun b => ([key], b)).toList ↔
        path = [key] ∧ binding = some b := by
      cases binding with
      | none => simp
      | some b' => simp [eq_comm]
    have hbelow : (path, b) ∈ children.bindings.map (fun e => (key :: e.1, e.2)) ↔
        ∃ q, path = key :: q ∧ children.bindingAt q = some b := by
      constructor
      · intro hmem
        obtain ⟨⟨q, b'⟩, hq, heq⟩ := List.mem_map.mp hmem
        cases heq
        exact ⟨q, rfl, (ihchildren hchildren).mp hq⟩
      · rintro ⟨q, rfl, hq⟩
        exact List.mem_map.mpr ⟨(q, b), (ihchildren hchildren).mpr hq, rfl⟩
    rw [hown, hbelow, ihrest hrest]
    match path with
    | [] => simp [bindingAt, find]
    | [k] =>
      unfold bindingAt
      rw [find_singleton, find_singleton, lookup_cons]
      by_cases hk : key = k
      · subst hk
        simp [hfresh, find]
      · simp [hk, Ne.symm hk]
    | k :: k' :: q =>
      unfold bindingAt
      rw [find_cons (List.cons_ne_nil k' q), find_cons (List.cons_ne_nil k' q), lookup_cons]
      by_cases hk : key = k
      · subst hk
        simp [hfresh]
      · simp [hk, Ne.symm hk]

/-- The keys of a sorted tree are the last ones of the paths at which it has a node. -/
theorem mem_allKeys {k : K} (h : t.Sorted) :
    k ∈ t.allKeys ↔ ∃ path, (t.find (path ++ [k])).isSome = true := by
  induction t with
  | nil => simp [allKeys, find_nil]
  | cons key binding children rest ihchildren ihrest =>
    obtain ⟨hkeys, hchildren, hrest⟩ := h
    have hfresh : rest.lookup key = none := by
      rw [← Option.not_isSome_iff_eq_none, isSome_lookup]
      exact fun hmem => irrefl_of (· < ·) key (hkeys key hmem)
    have hne (path : List K) : path ++ [k] ≠ [] := List.append_ne_nil_of_right_ne_nil path
      (List.cons_ne_nil k [])
    unfold allKeys
    rw [List.mem_cons, List.mem_append, ihchildren hchildren, ihrest hrest]
    constructor
    · rintro (rfl | ⟨path, hpath⟩ | ⟨path, hpath⟩)
      · refine ⟨[], ?_⟩
        rw [List.nil_append, find_singleton, lookup_cons, if_pos rfl]
        rfl
      · refine ⟨key :: path, ?_⟩
        rw [List.cons_append, find_cons (hne path), lookup_cons, if_pos rfl]
        exact hpath
      · refine ⟨path, ?_⟩
        rw [find_cons_of_isSome hfresh (hne path) hpath]
        exact hpath
    · rintro ⟨path, hpath⟩
      cases path with
      | nil =>
        rw [List.nil_append, find_singleton, lookup_cons] at hpath
        by_cases hk : key = k
        · exact .inl hk.symm
        · rw [if_neg hk] at hpath
          exact .inr (.inr ⟨[], hpath⟩)
      | cons head path =>
        rw [List.cons_append, find_cons (hne path), lookup_cons] at hpath
        by_cases hk : key = head
        · rw [if_pos hk] at hpath
          exact .inr (.inl ⟨path, hpath⟩)
        · rw [if_neg hk, ← find_cons (hne path)] at hpath
          exact .inr (.inr ⟨head :: path, hpath⟩)

end

end PathTree
