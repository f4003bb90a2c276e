import Mathlib.Data.Char
import Mathlib.Data.List.Lex
import RustTS.Contract.Number
import RustTS.Lib.PathTree

/-! Object literals of the generated modules: how a tree of bindings is written as one, and what is
found in it at a path. -/
namespace RustTS.Registry
open RustTS.Contract

/-- An object literal with its members in order, or what is bound at a member. -/
inductive Expression (T : Type)
  | binding (b : T)
  | object (members : List (Str × Expression T))

namespace Expression
variable {T : Type}

def members : Expression T → List (Str × Expression T)
  | binding _ => []
  | object members => members

/-- What holds of every key written in an expression and of everything bound in it. -/
inductive All (ofKey : Str → Prop) (ofBinding : T → Prop) : Expression T → Prop
  | binding {b : T} (h : ofBinding b) : All ofKey ofBinding (binding b)
  | object {members : List (Str × Expression T)} (keys : ∀ m ∈ members, ofKey m.1)
      (values : ∀ m ∈ members, All ofKey ofBinding m.2) : All ofKey ofBinding (object members)

variable {ofKey : Str → Prop} {ofBinding : T → Prop}

theorem all_binding {b : T} : All ofKey ofBinding (binding b) ↔ ofBinding b :=
  ⟨fun | .binding h => h, .binding⟩

private theorem all_object {members : List (Str × Expression T)} :
    All ofKey ofBinding (object members) ↔
      ∀ m ∈ members, ofKey m.1 ∧ All ofKey ofBinding m.2 := by
  constructor
  · intro h
    cases h with
    | object keys values => exact fun m hm => ⟨keys m hm, values m hm⟩
  · exact fun h => .object (fun m hm => (h m hm).1) fun m hm => (h m hm).2

end Expression

def defaultName : Str := "default".toList

/-- Where the binding of a node with children stands among their members, as `default`. -/
inductive DefaultPosition
  | first
  | last

section
variable {T : Type}

def DefaultPosition.join : DefaultPosition → List T → List T → List T
  | first, default, members => default ++ members
  | last, default, members => members ++ default

def defaultMember (binding : Option T) : List (Str × Expression T) :=
  (binding.map fun b => (defaultName, Expression.binding b)).toList

variable (position : DefaultPosition)

/-- The members of the nodes of a tree: what is bound at a node with nothing below it stands for the
node. -/
def renderMembers : PathTree Str T → List (Str × Expression T)
  | .nil => []
  | .cons name binding children rest =>
    (name, match binding, children.isEmpty with
      | some b, true => .binding b
      | binding, _ =>
        .object (position.join (defaultMember binding) (renderMembers children))) ::
      renderMembers rest

/-- The object of a node. -/
def renderObject (node : PathTree.Node Str T) : Expression T :=
  .object (position.join (defaultMember node.binding) (renderMembers position node.children))

def renderNode (node : PathTree.Node Str T) : Expression T :=
  match node.binding, node.children.isEmpty with
  | some b, true => .binding b
  | _, _ => renderObject position node

end

/-- `export const` statements, one for each root under its identifier. -/
def renderExports {T : Type} (identifier : Str → Str)
    (render : PathTree.Node Str T → Expression T) : PathTree Str T → List (Str × Expression T)
  | .nil => []
  | .cons name binding children rest =>
    (identifier name, render ⟨binding, children⟩) :: renderExports identifier render rest

section
variable {T : Type} {position : DefaultPosition} {node : PathTree.Node Str T} {b : T}
  {t : PathTree Str T}

theorem renderMembers_cons (name : Str) (binding : Option T) (children rest : PathTree Str T) :
    renderMembers position (.cons name binding children rest) =
      (name, renderNode position ⟨binding, children⟩) :: renderMembers position rest := by
  cases binding with
  | none => simp [renderMembers, renderNode, renderObject]
  | some b =>
    cases h : children.isEmpty with
    | true => simp [renderMembers, renderNode, h]
    | false => simp [renderMembers, renderNode, renderObject, h]

theorem renderNode_leaf (hb : node.binding = some b) (h : node.children.isEmpty = true) :
    renderNode position node = .binding b := by
  unfold renderNode
  rw [hb, h]

theorem renderNode_object (h : ¬ (node.binding.isSome = true ∧ node.children.isEmpty = true)) :
    renderNode position node = renderObject position node := by
  unfold renderNode
  split
  · rename_i hb hempty
    exact absurd ⟨by rw [hb]; rfl, hempty⟩ h
  · rfl

theorem lookup_of_isEmpty (h : t.isEmpty = true) (key : Str) : t.lookup key = none := by
  cases t with
  | nil => rfl
  | cons _ _ _ _ => cases h

section
variable {ofKey : Str → Prop} {ofBinding : T → Prop}

theorem all_renderObject (hdefault : ofKey defaultName) :
    (renderObject position node).All ofKey ofBinding ↔
      (∀ b ∈ node.binding, ofBinding b) ∧
        ∀ m ∈ renderMembers position node.children, ofKey m.1 ∧ m.2.All ofKey ofBinding := by
  have hown : (∀ m ∈ defaultMember node.binding, ofKey m.1 ∧ m.2.All ofKey ofBinding) ↔
      ∀ b ∈ node.binding, ofBinding b := by
    cases node.binding with
    | none => simp [defaultMember]
    | some b => simp [defaultMember, Expression.all_binding, hdefault]
  unfold renderObject
  rw [Expression.all_object, ← hown]
  cases position with
  | first => exact List.forall_mem_append
  | last => exact List.forall_mem_append.trans and_comm

theorem all_renderNode (hdefault : ofKey defaultName) :
    (renderNode position node).All ofKey ofBinding ↔
      (∀ b ∈ node.binding, ofBinding b) ∧
        ∀ m ∈ renderMembers position node.children, ofKey m.1 ∧ m.2.All ofKey ofBinding := by
  by_cases hleaf : node.binding.isSome = true ∧ node.children.isEmpty = true
  · obtain ⟨b, hb⟩ := Option.isSome_iff_exists.mp hleaf.1
    have hnone : renderMembers position node.children = [] := by
      cases hchildren : node.children with
      | nil => rfl
      | cons _ _ _ _ =>
        rw [hchildren] at hleaf
        cases hleaf.2
    rw [renderNode_leaf hb hleaf.2, Expression.all_binding, hb, hnone]
    simp
  · rw [renderNode_object hleaf]
    exact all_renderObject hdefault

/-- The keys of the members of a tree are those of the tree, and what is bound in them is what is
bound in it. -/
theorem all_renderMembers (hdefault : ofKey defaultName) :
    (∀ m ∈ renderMembers position t, ofKey m.1 ∧ m.2.All ofKey ofBinding) ↔
      (∀ key ∈ t.allKeys, ofKey key) ∧ ∀ e ∈ t.bindings, ofBinding e.2 := by
  induction t with
  | nil => simp [renderMembers, PathTree.allKeys, PathTree.bindings]
  | cons name binding children rest ihchildren ihrest =>
    have hown : (∀ e ∈ (binding.map fun b => ([name], b)).toList, ofBinding e.2) ↔
        ∀ b ∈ binding, ofBinding b := by
      cases binding <;> simp
    have hbelow : (∀ e ∈ children.bindings.map (fun e => (name :: e.1, e.2)), ofBinding e.2) ↔
        ∀ e ∈ children.bindings, ofBinding e.2 :=
      List.forall_mem_map (P := fun e : List Str × T => ofBinding e.2)
    have hkeys : (PathTree.cons name binding children rest).allKeys =
        name :: (children.allKeys ++ rest.allKeys) := rfl
    have hbindings : (PathTree.cons name binding children rest).bindings =
        (binding.map fun b => ([name], b)).toList ++
          children.bindings.map (fun e => (name :: e.1, e.2)) ++ rest.bindings := rfl
    rw [hkeys, hbindings, renderMembers_cons, List.forall_mem_cons, ihrest,
      all_renderNode hdefault, ihchildren, List.forall_mem_cons, List.forall_mem_append,
      List.forall_mem_append, List.forall_mem_append, hown, hbelow]
    constructor
    · rintro ⟨⟨hname, hbinding, hkeys, hbindings⟩, hkeysRest, hbindingsRest⟩
      exact ⟨⟨hname, hkeys, hkeysRest⟩, ⟨hbinding, hbindings⟩, hbindingsRest⟩
    · rintro ⟨⟨hname, hkeys, hkeysRest⟩, ⟨hbinding, hbindings⟩, hbindingsRest⟩
      exact ⟨⟨hname, hbinding, hkeys, hbindings⟩, hkeysRest, hbindingsRest⟩

end

section
variable {identifier : Str → Str} {render : PathTree.Node Str T → Expression T}

theorem mem_renderExports {e : Str × Expression T} (h : t.Sorted) :
    e ∈ renderExports identifier render t ↔
      ∃ key m, t.lookup key = some m ∧ e = (identifier key, render m) := by
  induction t with
  | nil => simp [renderExports, PathTree.lookup]
  | cons key binding children rest _ ih =>
    obtain ⟨hkeys, -, hrest⟩ := h
    have hfresh : rest.lookup key = none := by
      rw [← Option.not_isSome_iff_eq_none, PathTree.isSome_lookup]
      exact fun hmem => irrefl_of (· < ·) key (hkeys key hmem)
    unfold renderExports
    rw [List.mem_cons, ih hrest]
    constructor
    · rintro (rfl | ⟨k, m, hlookup, rfl⟩)
      · refine ⟨key, ⟨binding, children⟩, ?_, rfl⟩
        rw [PathTree.lookup_cons, if_pos rfl]
      · refine ⟨k, m, ?_, rfl⟩
        have hk : key ≠ k := by
          rintro rfl
          rw [hfresh] at hlookup
          cases hlookup
        rw [PathTree.lookup_cons, if_neg hk]
        exact hlookup
    · rintro ⟨k, m, hlookup, rfl⟩
      rw [PathTree.lookup_cons] at hlookup
      by_cases hk : key = k
      · rw [if_pos hk] at hlookup
        cases hlookup
        exact .inl (by rw [hk])
      · rw [if_neg hk] at hlookup
        exact .inr ⟨k, m, hlookup, rfl⟩

theorem map_renderExports :
    (renderExports identifier render t).map (·.1) = t.keys.map identifier := by
  induction t with
  | nil => rfl
  | cons key binding children rest _ ih =>
    unfold renderExports PathTree.keys
    rw [List.map_cons, List.map_cons, ih]

end

end

section
variable {T : Type} {entries : List (List Str × T)} {path : List Str} {b : T}

/-- The node over the roots of the tree. -/
def rootOf (entries : List (List Str × T)) : PathTree.Node Str T :=
  ⟨none, PathTree.nil.insertAll entries⟩

theorem sorted_rootOf (entries : List (List Str × T)) : (rootOf entries).children.Sorted :=
  PathTree.sorted_insertAll entries trivial

theorem isSome_at_rootOf (h : ∀ e ∈ entries, e.1 ≠ []) (hpath : path ≠ []) :
    ((rootOf entries).at path).isSome = true ↔ ∃ e ∈ entries, path <+: e.1 := by
  have hfind := PathTree.find_eq_at hpath (PathTree.nil.insertAll entries)
  show (PathTree.Node.at path ⟨none, _⟩).isSome = true ↔ _
  rw [← hfind, PathTree.isSome_find_insertAll entries h hpath, PathTree.find_nil]
  simp

theorem singleton_prefix_iff {root : Str} : [root] <+: path ↔ path.head? = some root := by
  cases path with
  | nil => simp
  | cons head rest => simp [eq_comm]

theorem mem_keys_rootOf (h : ∀ e ∈ entries, e.1 ≠ []) (key : Str) :
    key ∈ (rootOf entries).children.keys ↔ ∃ e ∈ entries, [key] <+: e.1 := by
  rw [← PathTree.isSome_lookup, ← PathTree.find_singleton,
    PathTree.find_eq_at (List.cons_ne_nil key [])]
  exact isSome_at_rootOf h (List.cons_ne_nil key [])

theorem bindingAt_rootOf (h : ∀ e ∈ entries, e.1 ≠ []) (path : List Str) :
    (PathTree.nil.insertAll entries).bindingAt path = PathTree.lastAt path entries := by
  rw [PathTree.bindingAt_insertAll entries h, PathTree.bindingAt_nil, Option.or_none]

theorem mem_tail_iff {key : Str} :
    key ∈ path.tail ↔ ∃ root init, root :: (init ++ [key]) <+: path := by
  cases path with
  | nil => simp
  | cons root rest =>
    rw [List.tail_cons, List.mem_iff_append]
    constructor
    · rintro ⟨init, after, rfl⟩
      exact ⟨root, init, after, by simp⟩
    · rintro ⟨root', init, after, heq⟩
      obtain ⟨-, rfl⟩ := List.cons.inj (heq.trans rfl)
      exact ⟨init, after, by simp⟩

/-- What is written below the exports of a tree of inserted bindings: the segments after the first
of their paths, and what was inserted last at each. -/
theorem all_renderExports {identifier : Str → Str} {position : DefaultPosition}
    {ofKey : Str → Prop} {ofBinding : T → Prop} (h : ∀ e ∈ entries, e.1 ≠ [])
    (hdefault : ofKey defaultName) :
    (∀ e ∈ renderExports identifier (renderNode position) (rootOf entries).children,
        e.2.All ofKey ofBinding) ↔
      (∀ e ∈ entries, ∀ key ∈ e.1.tail, ofKey key) ∧
        ∀ path b, PathTree.lastAt path entries = some b → ofBinding b := by
  have hsorted := sorted_rootOf entries
  have hne (init : List Str) (key : Str) : init ++ [key] ≠ [] :=
    List.append_ne_nil_of_right_ne_nil init (List.cons_ne_nil key [])
  have hnodes : (∀ e ∈ renderExports identifier (renderNode position) (rootOf entries).children,
      e.2.All ofKey ofBinding) ↔
        ∀ root node, (rootOf entries).children.lookup root = some node →
          (∀ b ∈ node.binding, ofBinding b) ∧ (∀ key ∈ node.children.allKeys, ofKey key) ∧
            ∀ e ∈ node.children.bindings, ofBinding e.2 := by
    have hnode (node : PathTree.Node Str T) : (renderNode position node).All ofKey ofBinding ↔
        (∀ b ∈ node.binding, ofBinding b) ∧ (∀ key ∈ node.children.allKeys, ofKey key) ∧
          ∀ e ∈ node.children.bindings, ofBinding e.2 := by
      rw [all_renderNode hdefault, all_renderMembers hdefault]
    simp only [← hnode]
    constructor
    · intro hall root node hlookup
      exact hall _ ((mem_renderExports hsorted).mpr ⟨root, node, hlookup, rfl⟩)
    · intro hall e he
      obtain ⟨root, node, hlookup, rfl⟩ := (mem_renderExports hsorted).mp he
      exact hall root node hlookup
  have hbindingAt := bindingAt_rootOf h
  have hfind : ∀ {path : List Str}, path ≠ [] →
      (((rootOf entries).children.find path).isSome = true ↔ ∃ e ∈ entries, path <+: e.1) := by
    intro path hpath
    rw [PathTree.find_eq_at hpath]
    exact isSome_at_rootOf h hpath
  rw [hnodes]
  constructor
  · intro hall
    constructor
    · intro e he key hkey
      obtain ⟨root, init, hprefix⟩ := mem_tail_iff.mp hkey
      have hsome := (hfind (List.cons_ne_nil root (init ++ [key]))).mpr ⟨e, he, hprefix⟩
      rw [PathTree.find_cons (hne init key)] at hsome
      cases hlookup : (rootOf entries).children.lookup root with
      | none =>
        rw [hlookup] at hsome
        cases hsome
      | some node =>
        rw [hlookup] at hsome
        exact (hall root node hlookup).2.1 key
          ((PathTree.mem_allKeys (hsorted.lookup hlookup)).mpr ⟨init, hsome⟩)
    · intro path b hlast
      rw [← hbindingAt] at hlast
      have hmem := (PathTree.mem_bindings hsorted).mpr hlast
      cases path with
      | nil => exact absurd rfl (PathTree.ne_nil_of_mem_bindings hmem)
      | cons root rest =>
        obtain ⟨node, hnode, hbinding⟩ := Option.bind_eq_some_iff.mp hlast
        cases rest with
        | nil => exact (hall root node hnode).1 b hbinding
        | cons key rest =>
          obtain ⟨node', hlookup, hbelow⟩ := Option.bind_eq_some_iff.mp hnode
          refine (hall root node' hlookup).2.2 (key :: rest, b)
            ((PathTree.mem_bindings (hsorted.lookup hlookup)).mpr ?_)
          exact Option.bind_eq_some_iff.mpr ⟨node, hbelow, hbinding⟩
  · rintro ⟨hkeys, hbindings⟩ root node hlookup
    refine ⟨fun b hb => ?_, fun key hkey => ?_, fun e he => ?_⟩
    · refine hbindings [root] b ((hbindingAt [root]).symm.trans ?_)
      exact Option.bind_eq_some_iff.mpr ⟨node, hlookup, hb⟩
    · obtain ⟨init, hsome⟩ := (PathTree.mem_allKeys (hsorted.lookup hlookup)).mp hkey
      have hroot : ((rootOf entries).children.find (root :: (init ++ [key]))).isSome = true := by
        rw [PathTree.find_cons (hne init key), hlookup]
        exact hsome
      obtain ⟨e, he, hprefix⟩ := (hfind (List.cons_ne_nil root (init ++ [key]))).mp hroot
      exact hkeys e he key (mem_tail_iff.mpr ⟨root, init, hprefix⟩)
    · obtain ⟨path, b⟩ := e
      have hpath := PathTree.ne_nil_of_mem_bindings he
      have hat := (PathTree.mem_bindings (hsorted.lookup hlookup)).mp he
      refine hbindings (root :: path) b ((hbindingAt (root :: path)).symm.trans ?_)
      show ((rootOf entries).children.find (root :: path)).bind _ = _
      rw [PathTree.find_cons hpath, hlookup]
      exact hat

end

end RustTS.Registry
