import RustTS.Lib.DecimalText
import RustTS.Registry.InstallGlobals

/-! The globals do not depend on the order in which the names are installed where no name puts
anything where the path of another looks, but for a namespace that both make. -/
namespace RustTS.Registry

open RustTS.Contract

variable {R : Type} [DecidableEq R]

/-- A key of an object. -/
abbrev Slot (R : Type) := Ref R × Str

/-- The heap with namespaces at these keys. -/
def Heap.spread (heap : Heap R) (opened : List (Slot R)) : Heap R := fun ref key =>
  if (ref, key) ∈ opened then some (.object (.space ref key) true) else heap ref key

/-- Whether `assign` takes a key under which it finds this. -/
def assignable : Option (Property R) → Bool
  | none => true
  | some (.primitive writable) => writable
  | some (.object _ writable) => writable
  | some .accessor => false

/-- Whether `namespaceChild` does. -/
def passable : Option (Property R) → Bool
  | some (.object _ _) => true
  | found => assignable found

/-- `Object.keys` lists these first, whatever the order. -/
def IsIndex (name : Str) : Prop := (JsString.ofText name).arrayIndex ≠ none

instance (name : Str) : Decidable (IsIndex name) := inferInstanceAs (Decidable (_ ≠ _))

/-- The way of a path: the namespaces it makes, the other keys it looks at on its way to the last
segment, where it ends, and whether it gets there. -/
structure Course (R : Type) where
  opened : List (Slot R)
  met : List (Slot R)
  home : Slot R
  works : Bool

namespace Realm

variable (realm : Realm R)

/-- Where `find` looks for a key: in the object, then, as long as there is nothing, in what it
inherits from. -/
def looked (heap : Heap R) (ref : Ref R) (key : Str) : List (Slot R) :=
  (ref, key) :: if heap ref key = none then inherit (realm.inherited ref) else []
where
  inherit : List R → List (Slot R)
    | [] => []
    | object :: rest =>
      (.builtin object, key) :: if heap (.builtin object) key = none then inherit rest else []

/-- Where a path goes on, and the namespaces made until then. -/
def pass (heap : Heap R) (opened : List (Slot R)) (ref : Ref R) (key : Str) :
    Ref R × List (Slot R) :=
  match realm.find (heap.spread opened) ref key with
  | some (.object child _) => (child, opened)
  | _ => (.space ref key, (ref, key) :: opened)

def course (heap : Heap R) (opened : List (Slot R)) (ref : Ref R) : List Str → Course R
  | key :: next :: rest =>
    let step := realm.pass heap opened ref key
    let after := course heap step.2 step.1 (next :: rest)
    { after with
      met := (realm.looked (heap.spread opened) ref key).filter (fun slot => slot ∉ step.2) ++
        after.met
      works := passable (realm.find (heap.spread opened) ref key) && after.works }
  | path =>
    let key := path.headD []
    { opened, met := [], home := (ref, key)
      works := assignable (realm.find (heap.spread opened) ref key) }

/-- The globals with the functions whose names are array indices. -/
def indexed (names : List Str) : Heap R := fun ref key =>
  if ref = .builtin realm.globalThis ∧ key ∈ names ∧ IsIndex key then
    some (.object (.native key) true)
  else realm.heap ref key

def courseOf (names : List Str) (name : Str) : Course R :=
  realm.course (realm.indexed names) [] (.builtin realm.globalThis) (segments name)

/-- Each name gets to its end by itself, no path looks where another makes a namespace that it does
not make too, and no function is put where a path looks, nor two at one key. The functions whose
names are array indices are there before the others. -/
structure Apart (names : List Str) : Prop where
  listed : "__proto__".toList ∉ names
  index : ∀ name ∈ names, IsIndex name →
    assignable (realm.find realm.heap (.builtin realm.globalThis) name) = true
  works : ∀ name ∈ names, (realm.courseOf names name).works = true
  opened : ∀ name ∈ names, ∀ other ∈ names, ∀ slot ∈ (realm.courseOf names name).met,
    slot ∉ (realm.courseOf names other).opened
  bound : ∀ name ∈ names, ∀ other ∈ names, ¬IsIndex other →
    (realm.courseOf names other).home ∉
      (realm.courseOf names name).met ++ (realm.courseOf names name).opened
  homes : ∀ name ∈ names, ∀ other ∈ names,
    (realm.courseOf names name).home = (realm.courseOf names other).home → name = other

variable {realm : Realm R}

omit [DecidableEq R] in
theorem find_congr {heap heap' : Heap R} {ref : Ref R} {key : Str}
    (h : ∀ slot ∈ realm.looked heap ref key, heap' slot.1 slot.2 = heap slot.1 slot.2) :
    realm.find heap' ref key = realm.find heap ref key := by
  have hown : heap' ref key = heap ref key := h (ref, key) List.mem_cons_self
  unfold find
  rw [hown]
  cases hkey : heap ref key with
  | some property => rfl
  | none =>
    rw [Option.none_or, Option.none_or]
    have hinherit : ∀ slot ∈ looked.inherit heap key (realm.inherited ref),
        heap' slot.1 slot.2 = heap slot.1 slot.2 := by
      intro slot hslot
      refine h slot (List.mem_cons_of_mem _ ?_)
      rw [if_pos hkey]
      exact hslot
    generalize realm.inherited ref = objects at hinherit
    induction objects with
    | nil => rfl
    | cons object rest ih =>
      have hobject : heap' (.builtin object) key = heap (.builtin object) key :=
        hinherit (.builtin object, key) List.mem_cons_self
      rw [List.findSome?_cons, List.findSome?_cons, hobject]
      cases hfirst : heap (.builtin object) key with
      | some property => rfl
      | none =>
        refine ih fun slot hslot => hinherit slot (List.mem_cons_of_mem _ ?_)
        rw [if_pos hfirst]
        exact hslot

omit [DecidableEq R] in
/-- Writable objects put in a heap leave a key assignable. -/
theorem assignable_find {heap heap' : Heap R} {ref : Ref R} {key : Str}
    (h : ∀ slot : Slot R, heap' slot.1 slot.2 = heap slot.1 slot.2 ∨
      ∃ child, heap' slot.1 slot.2 = some (.object child true))
    (hassign : assignable (realm.find heap ref key) = true) :
    assignable (realm.find heap' ref key) = true := by
  have hfirst (found : Option (Property R)) (child : Ref R) :
      assignable ((some (.object child true)).or found) = true := rfl
  unfold find at hassign ⊢
  rcases h (ref, key) with hown | ⟨child, hown⟩
  · change heap' ref key = heap ref key at hown
    rw [hown]
    cases hkey : heap ref key with
    | some property =>
      rw [hkey, Option.some_or] at hassign
      exact hassign
    | none =>
      rw [hkey, Option.none_or] at hassign
      rw [Option.none_or]
      generalize realm.inherited ref = objects at hassign ⊢
      induction objects with
      | nil => rfl
      | cons object rest ih =>
        rw [List.findSome?_cons] at hassign ⊢
        rcases h (.builtin object, key) with hobject | ⟨child, hobject⟩
        · change heap' (.builtin object) key = heap (.builtin object) key at hobject
          rw [hobject]
          cases hproperty : heap (.builtin object) key with
          | some property =>
            rw [hproperty] at hassign
            exact hassign
          | none =>
            rw [hproperty] at hassign
            exact ih hassign
        · change heap' (.builtin object) key = _ at hobject
          rw [hobject]
          rfl
  · change heap' ref key = _ at hown
    rw [hown]
    rfl

end Realm

namespace Heap

variable {heap : Heap R} {opened : List (Slot R)}

theorem spread_of_mem {slot : Slot R} (h : slot ∈ opened) :
    heap.spread opened slot.1 slot.2 = some (.object (.space slot.1 slot.2) true) := if_pos h

theorem spread_of_not_mem {slot : Slot R} (h : slot ∉ opened) :
    heap.spread opened slot.1 slot.2 = heap slot.1 slot.2 := if_neg h

private theorem spread_nil : heap.spread [] = heap := by
  funext ref key
  exact if_neg List.not_mem_nil

theorem define_self (ref : Ref R) (key : Str) (property : Property R) :
    heap.define ref key property ref key = some property := if_pos ⟨rfl, rfl⟩

theorem define_of_ne {ref : Ref R} {key : Str} (property : Property R) {slot : Slot R}
    (h : slot ≠ (ref, key)) :
    heap.define ref key property slot.1 slot.2 = heap slot.1 slot.2 :=
  if_neg fun heq => h (Prod.ext heq.1 heq.2)

end Heap

namespace Realm

variable {realm : Realm R} {base : Heap R} {opened : List (Slot R)} {ref : Ref R} {key : Str}

theorem subset_pass : opened ⊆ (realm.pass base opened ref key).2 := by
  intro slot hslot
  unfold pass
  split
  · exact hslot
  · exact List.mem_cons_of_mem _ hslot

theorem course_cons (next : Str) (rest : List Str) :
    realm.course base opened ref (key :: next :: rest) =
      let step := realm.pass base opened ref key
      let after := realm.course base step.2 step.1 (next :: rest)
      { after with
        met := (realm.looked (base.spread opened) ref key).filter (fun slot => slot ∉ step.2) ++
          after.met
        works := passable (realm.find (base.spread opened) ref key) && after.works } := by
  rw [course]

/-- A path goes on in an object that it finds, or else in a namespace that it makes. -/
theorem pass_cases (realm : Realm R) (base : Heap R) (opened : List (Slot R)) (ref : Ref R)
    (key : Str) :
    (∃ child writable, realm.find (base.spread opened) ref key = some (.object child writable) ∧
      realm.pass base opened ref key = (child, opened)) ∨
    ((∀ child writable, realm.find (base.spread opened) ref key ≠ some (.object child writable)) ∧
      (ref, key) ∉ opened ∧
      realm.pass base opened ref key = (.space ref key, (ref, key) :: opened)) := by
  unfold pass
  split
  · next child writable hfind => exact .inl ⟨child, writable, hfind, rfl⟩
  · next hfind =>
    refine .inr ⟨hfind, fun hmem => hfind (.space ref key) true ?_, rfl⟩
    unfold find
    rw [show base.spread opened ref key = _ from Heap.spread_of_mem hmem, Option.some_or]

theorem subset_opened (realm : Realm R) (base : Heap R) (opened : List (Slot R)) (ref : Ref R)
    (path : List Str) : opened ⊆ (realm.course base opened ref path).opened := by
  induction path generalizing opened ref with
  | nil => exact fun _ h => h
  | cons key path ih =>
    cases path with
    | nil => exact fun _ h => h
    | cons next rest => exact fun slot hslot => ih _ _ (subset_pass hslot)

omit [DecidableEq R] in
theorem exists_of_find {heap : Heap R} {property : Property R}
    (h : realm.find heap ref key = some property) :
    ∃ slot : Slot R, heap slot.1 slot.2 = some property := by
  rcases Option.or_eq_some_iff.mp h with hown | ⟨_, hinherited⟩
  · exact ⟨(ref, key), hown⟩
  · obtain ⟨object, _, hobject⟩ := List.exists_of_findSome?_eq_some hinherited
    exact ⟨(.builtin object, key), hobject⟩

/-- No namespaces have been made. -/
structure Bare (base : Heap R) : Prop where
  empty : ∀ parent segment key, base (.space parent segment) key = none
  spaceless : ∀ ref key parent segment writable,
    base ref key ≠ some (.object (.space parent segment) writable)

/-- A path goes on in a namespace only if that was made. -/
theorem Bare.pass_space (hbare : Bare base) {parent : Ref R} {segment : Str}
    (h : (realm.pass base opened ref key).1 = .space parent segment) :
    (parent, segment) ∈ (realm.pass base opened ref key).2 := by
  rcases realm.pass_cases base opened ref key with ⟨child, writable, hfind, hstep⟩ | ⟨_, _, hstep⟩
  · rw [hstep] at h ⊢
    obtain rfl : child = .space parent segment := h
    obtain ⟨slot, hslot⟩ := exists_of_find hfind
    by_cases hmem : slot ∈ opened
    · rw [Heap.spread_of_mem hmem] at hslot
      have hchild := (Property.object.inj (Option.some.inj hslot)).1
      obtain ⟨rfl, rfl⟩ := Ref.space.inj hchild
      exact hmem
    · rw [Heap.spread_of_not_mem hmem] at hslot
      exact absurd hslot (hbare.spaceless _ _ _ _ _)
  · rw [hstep] at h ⊢
    obtain ⟨rfl, rfl⟩ := Ref.space.inj h
    exact List.mem_cons_self

/-- From the base, the loop has made namespaces at some keys and put functions at others. -/
structure Grown (base heap : Heap R) (opened : Slot R → Prop) (bound : Slot R → Str → Prop) :
    Prop where
  atBound : ∀ slot name, bound slot name → heap slot.1 slot.2 = some (.object (.native name) true)
  atOpened : ∀ slot, opened slot → (∀ name, ¬bound slot name) →
    heap slot.1 slot.2 = some (.object (.space slot.1 slot.2) true)
  elsewhere : ∀ slot, ¬opened slot → (∀ name, ¬bound slot name) →
    heap slot.1 slot.2 = base slot.1 slot.2
  closed : ∀ parent segment key,
    opened (.space parent segment, key) ∨ (∃ name, bound (.space parent segment, key) name) →
      opened (parent, segment)

namespace Grown

variable {heap : Heap R} {made made' : Slot R → Prop} {bound bound' : Slot R → Str → Prop}

omit [DecidableEq R] in
theorem start (base : Heap R) : Grown base base (fun _ => False) fun _ _ => False where
  atBound _ _ h := h.elim
  atOpened _ h _ := h.elim
  elsewhere _ _ _ := rfl
  closed := by
    rintro _ _ _ (h | ⟨_, h⟩)
    · exact h
    · exact h

omit [DecidableEq R] in
theorem congr (h : Grown base heap made bound) (hmade : ∀ slot, made slot ↔ made' slot)
    (hbound : ∀ slot name, bound slot name ↔ bound' slot name) : Grown base heap made' bound' := by
  have hm : made = made' := funext fun slot => propext (hmade slot)
  have hb : bound = bound' := funext fun slot => funext fun name => propext (hbound slot name)
  exact hm ▸ hb ▸ h

omit [DecidableEq R] in
private theorem property_cases (h : Grown base heap made bound) (slot : Slot R) :
    heap slot.1 slot.2 = base slot.1 slot.2 ∨ ∃ child, heap slot.1 slot.2 = some (.object child true) := by
  by_cases hbound : ∃ name, bound slot name
  · obtain ⟨name, hname⟩ := hbound
    exact .inr ⟨_, h.atBound slot name hname⟩
  · by_cases hmade : made slot
    · exact .inr ⟨_, h.atOpened slot hmade (not_exists.mp hbound)⟩
    · exact .inl (h.elsewhere slot hmade (not_exists.mp hbound))

theorem open_slot (h : Grown base heap made bound) (hbound : ∀ name, ¬bound (ref, key) name)
    (hclosed : ∀ parent segment, ref = .space parent segment → made (parent, segment)) :
    Grown base (heap.define ref key (.object (.space ref key) true))
      (fun slot => made slot ∨ slot = (ref, key)) bound where
  atBound := by
    intro slot name hslot
    have hne : slot ≠ (ref, key) := fun heq => hbound name (heq ▸ hslot)
    rw [Heap.define_of_ne _ hne]
    exact h.atBound slot name hslot
  atOpened := by
    intro slot hslot hnot
    by_cases heq : slot = (ref, key)
    · subst heq
      exact Heap.define_self ref key _
    · rw [Heap.define_of_ne _ heq]
      exact h.atOpened slot (hslot.resolve_right heq) hnot
  elsewhere := by
    intro slot hslot hnot
    obtain ⟨hnmade, hne⟩ := not_or.mp hslot
    rw [Heap.define_of_ne _ hne]
    exact h.elsewhere slot hnmade hnot
  closed := by
    intro parent segment k hin
    rcases hin with (hmade | heq) | hbound
    · exact .inl (h.closed parent segment k (.inl hmade))
    · exact .inl (hclosed parent segment (congrArg Prod.fst heq).symm)
    · exact .inl (h.closed parent segment k (.inr hbound))

theorem bind_slot (h : Grown base heap made bound) (name : Str)
    (hbound : ∀ name, ¬bound (ref, key) name)
    (hclosed : ∀ parent segment, ref = .space parent segment → made (parent, segment)) :
    Grown base (heap.define ref key (.object (.native name) true)) made
      fun slot other => bound slot other ∨ slot = (ref, key) ∧ other = name where
  atBound := by
    intro slot other hslot
    rcases hslot with hslot | ⟨rfl, rfl⟩
    · have hne : slot ≠ (ref, key) := fun heq => hbound other (heq ▸ hslot)
      rw [Heap.define_of_ne _ hne]
      exact h.atBound slot other hslot
    · exact Heap.define_self ref key _
  atOpened := by
    intro slot hslot hnot
    have hne : slot ≠ (ref, key) := fun heq => hnot name (.inr ⟨heq, rfl⟩)
    rw [Heap.define_of_ne _ hne]
    exact h.atOpened slot hslot fun other hother => hnot other (.inl hother)
  elsewhere := by
    intro slot hslot hnot
    have hne : slot ≠ (ref, key) := fun heq => hnot name (.inr ⟨heq, rfl⟩)
    rw [Heap.define_of_ne _ hne]
    exact h.elsewhere slot hslot fun other hother => hnot other (.inl hother)
  closed := by
    intro parent segment k hin
    rcases hin with hmade | ⟨other, hbound | ⟨heq, _⟩⟩
    · exact h.closed parent segment k (.inl hmade)
    · exact h.closed parent segment k (.inr ⟨other, hbound⟩)
    · exact hclosed parent segment (congrArg Prod.fst heq).symm

private theorem make_space (h : Grown base heap made bound) (hbare : Bare base)
    (hmade : ¬made (ref, key)) : heap.make (.space ref key) = heap := by
  funext r k
  unfold Heap.make
  split_ifs with hr
  · subst hr
    have hnot : ¬(made (.space ref key, k) ∨ ∃ name, bound (.space ref key, k) name) :=
      fun hin => hmade (h.closed _ _ _ hin)
    obtain ⟨hnmade, hnbound⟩ := not_or.mp hnot
    exact ((h.elsewhere (.space ref key, k) hnmade (not_exists.mp hnbound)).trans
      (hbare.empty _ _ _)).symm
  · rfl

theorem find_spread (h : Grown base heap (fun slot => made slot ∨ slot ∈ opened) bound)
    (hlook : ∀ slot ∈ realm.looked (base.spread opened) ref key, slot ∉ opened →
      ¬made slot ∧ ∀ name, ¬bound slot name)
    (hfree : ∀ slot ∈ opened, ∀ name, ¬bound slot name) :
    realm.find heap ref key = realm.find (base.spread opened) ref key := by
  refine find_congr fun slot hslot => ?_
  by_cases hopened : slot ∈ opened
  · rw [Heap.spread_of_mem hopened]
    exact h.atOpened slot (.inr hopened) (hfree slot hopened)
  · rw [Heap.spread_of_not_mem hopened]
    obtain ⟨hmade, hbound⟩ := hlook slot hslot hopened
    exact h.elsewhere slot (not_or.mpr ⟨hmade, hopened⟩) hbound

end Grown

variable (realm) in
/-- The value goes to the end of a path. -/
def place (heap : Heap R) (ref : Ref R) (path : List Str) (value : Ref R) :
    Except Stop (Heap R) := do
  let parent ← realm.descend heap ref path.dropLast
  realm.assign parent.2 parent.1 (path.getLast?.getD []) value

theorem place_cons (heap : Heap R) (ref : Ref R) (key next : Str) (rest : List Str)
    (value : Ref R) :
    realm.place heap ref (key :: next :: rest) value = (do
      let child ← realm.namespaceChild heap ref key
      realm.place child.2 child.1 (next :: rest) value) := by
  unfold place
  rw [List.dropLast_cons_cons, descend, List.getLast?_cons_cons, bind_assoc]

theorem assign_of_assignable {heap : Heap R} {ref : Ref R} {key : Str} (value : Ref R)
    (h : assignable (realm.find heap ref key) = true) :
    realm.assign heap ref key value = .ok (heap.define ref key (.object value true)) := by
  unfold assign
  cases hfind : realm.find heap ref key with
  | none => rfl
  | some property =>
    rw [hfind] at h
    cases property with
    | accessor => cases h
    | primitive writable | object _ writable =>
      obtain rfl : writable = true := h
      rfl

theorem namespaceChild_object {heap : Heap R} {ref child : Ref R} {key : Str} {writable : Bool}
    (h : realm.find heap ref key = some (.object child writable)) :
    realm.namespaceChild heap ref key = .ok (child, heap) := by
  rw [namespaceChild, h]

namespace Grown

variable {heap : Heap R} {made : Slot R → Prop} {bound : Slot R → Str → Prop}

/-- A path that is not in the way of others goes on where it goes by itself. -/
theorem namespaceChild_pass (h : Grown base heap (fun slot => made slot ∨ slot ∈ opened) bound)
    (hbare : Bare base) (hpass : passable (realm.find (base.spread opened) ref key) = true)
    (hlook : ∀ slot ∈ realm.looked (base.spread opened) ref key,
      slot ∉ (realm.pass base opened ref key).2 → ¬made slot ∧ ∀ name, ¬bound slot name)
    (hfree : ∀ slot ∈ (realm.pass base opened ref key).2, ∀ name, ¬bound slot name)
    (hclosed : ∀ parent segment, ref = .space parent segment →
      made (parent, segment) ∨ (parent, segment) ∈ opened) :
    ∃ heap', realm.namespaceChild heap ref key = .ok ((realm.pass base opened ref key).1, heap') ∧
      Grown base heap' (fun slot => made slot ∨ slot ∈ (realm.pass base opened ref key).2)
        bound := by
  have hfree' := fun slot hslot => hfree slot (subset_pass hslot)
  rcases realm.pass_cases base opened ref key with
    ⟨child, writable, hfind, hstep⟩ | ⟨hobject, hopened, hstep⟩
  · rw [hstep] at hlook ⊢
    have hsame := h.find_spread hlook hfree'
    exact ⟨heap, namespaceChild_object (hsame.trans hfind), h⟩
  · rw [hstep] at hlook hfree ⊢
    have hbound : ∀ name, ¬bound (ref, key) name := hfree (ref, key) List.mem_cons_self
    by_cases hmade : made (ref, key)
    · -- The namespace is there already.
      have hown := h.atOpened (ref, key) (.inl hmade) hbound
      have hfind : realm.find heap ref key = some (.object (.space ref key) true) := by
        unfold find
        rw [hown, Option.some_or]
      refine ⟨heap, namespaceChild_object hfind, h.congr (fun slot => ?_) fun _ _ => Iff.rfl⟩
      rw [List.mem_cons]
      constructor
      · rintro (hs | hs)
        · exact .inl hs
        · exact .inr (.inr hs)
      · rintro (hs | rfl | hs)
        · exact .inl hs
        · exact .inl hmade
        · exact .inr hs
    · have hsame : realm.find heap ref key = realm.find (base.spread opened) ref key := by
        refine h.find_spread (fun slot hslot hnot => ?_) hfree'
        by_cases heq : slot = (ref, key)
        · rw [heq]
          exact ⟨hmade, hbound⟩
        · exact hlook slot hslot (List.not_mem_cons_of_ne_of_not_mem heq hnot)
      have hassign : assignable (realm.find heap ref key) = true := by
        rw [hsame]
        cases hfind : realm.find (base.spread opened) ref key with
        | none => rfl
        | some property =>
          rw [hfind] at hpass
          cases property with
          | object child writable => exact absurd hfind (hobject child writable)
          | primitive | accessor => exact hpass
      have hmake : (do
          let heap ← realm.assign (heap.make (.space ref key)) ref key (.space ref key)
          pure (Ref.space ref key, heap)) =
            (.ok (.space ref key, heap.define ref key (.object (.space ref key) true)) :
              Except Stop (Ref R × Heap R)) := by
        rw [h.make_space hbare (not_or.mpr ⟨hmade, hopened⟩),
          assign_of_assignable (.space ref key) hassign]
        rfl
      refine ⟨_, ?_, (h.open_slot hbound hclosed).congr (fun slot => ?_) fun _ _ => Iff.rfl⟩
      · unfold Realm.namespaceChild
        cases hfind : realm.find heap ref key with
        | none => exact hmake
        | some property =>
          rw [hfind] at hassign
          cases property with
          | object child writable =>
            exact absurd (hsame.symm.trans hfind) (hobject child writable)
          | primitive => exact hmake
          | accessor => cases hassign
      · rw [List.mem_cons, or_assoc, or_comm (a := slot ∈ opened)]

/-- A path that is not in the way of others makes the namespaces that it makes by itself, and its
function goes where it goes by itself. -/
theorem place_course (h : Grown base heap (fun slot => made slot ∨ slot ∈ opened) bound)
    (hbare : Bare base) (name : Str) (path : List Str)
    (hworks : (realm.course base opened ref path).works = true)
    (hmet : ∀ slot ∈ (realm.course base opened ref path).met,
      ¬made slot ∧ ∀ name, ¬bound slot name)
    (hfree : ∀ slot ∈ (realm.course base opened ref path).opened, ∀ name, ¬bound slot name)
    (hhome : ∀ name, ¬bound (realm.course base opened ref path).home name)
    (hclosed : ∀ parent segment, ref = .space parent segment →
      made (parent, segment) ∨ (parent, segment) ∈ opened) (hpath : path ≠ []) :
    ∃ heap', realm.place heap ref path (.native name) = .ok heap' ∧
      Grown base heap'
        (fun slot => made slot ∨ slot ∈ (realm.course base opened ref path).opened)
        fun slot other => bound slot other ∨
          slot = (realm.course base opened ref path).home ∧ other = name := by
  induction path generalizing heap opened ref with
  | nil => exact absurd rfl hpath
  | cons key path ih =>
    cases path with
    | nil =>
      have hassign : assignable (realm.find heap ref key) = true := by
        refine assignable_find (fun slot => ?_) hworks
        by_cases hopened : slot ∈ opened
        · rw [Heap.spread_of_mem hopened]
          exact .inl (h.atOpened slot (.inr hopened) (hfree slot hopened))
        · rw [Heap.spread_of_not_mem hopened]
          exact h.property_cases slot
      exact ⟨_, assign_of_assignable (.native name) hassign, h.bind_slot name hhome hclosed⟩
    | cons next rest =>
      rw [course_cons] at hworks hmet hfree hhome ⊢
      dsimp only at hworks hmet hfree hhome ⊢
      rw [Bool.and_eq_true] at hworks
      obtain ⟨heap₁, hchild, hgrown⟩ := h.namespaceChild_pass hbare hworks.1
        (fun slot hslot hnot => hmet slot (List.mem_append_left _
          (List.mem_filter.mpr ⟨hslot, decide_eq_true hnot⟩)))
        (fun slot hslot => hfree slot (realm.subset_opened base _ _ _ hslot)) hclosed
      obtain ⟨heap₂, hplace, hgrown'⟩ := ih hgrown hworks.2
        (fun slot hslot => hmet slot (List.mem_append_right _ hslot)) hfree hhome
        (fun parent segment heq => .inr (hbare.pass_space heq)) (List.cons_ne_nil _ _)
      refine ⟨heap₂, ?_, hgrown'⟩
      rw [place_cons, hchild]
      exact hplace

omit [DecidableEq R] in
theorem find_bound (h : Grown base heap made bound) {name : Str} (hbound : bound (ref, key) name) :
    realm.find heap ref key = some (.object (.native name) true) := by
  unfold find
  rw [h.atBound (ref, key) name hbound, Option.some_or]

/-- Where a path goes by itself, it is read. -/
theorem find_pass (h : Grown base heap made bound)
    (hmet : ∀ slot ∈ realm.looked (base.spread opened) ref key,
      slot ∉ (realm.pass base opened ref key).2 → ¬made slot ∧ ∀ name, ¬bound slot name)
    (hopened : ∀ slot ∈ (realm.pass base opened ref key).2, made slot ∧ ∀ name, ¬bound slot name) :
    ∃ writable,
      realm.find heap ref key = some (.object (realm.pass base opened ref key).1 writable) := by
  rcases realm.pass_cases base opened ref key with ⟨child, writable, hfind, hstep⟩ | ⟨_, _, hstep⟩
  · rw [hstep] at hmet hopened ⊢
    refine ⟨writable, Eq.trans (find_congr fun slot hslot => ?_) hfind⟩
    by_cases hmem : slot ∈ opened
    · rw [Heap.spread_of_mem hmem]
      exact h.atOpened slot (hopened slot hmem).1 (hopened slot hmem).2
    · rw [Heap.spread_of_not_mem hmem]
      obtain ⟨hmade, hbound⟩ := hmet slot hslot hmem
      exact h.elsewhere slot hmade hbound
  · rw [hstep] at hopened ⊢
    obtain ⟨hmade, hbound⟩ := hopened (ref, key) List.mem_cons_self
    refine ⟨true, ?_⟩
    unfold find
    rw [h.atOpened (ref, key) hmade hbound, Option.some_or]

end Grown

end Realm

theorem exists_digits {name : Str} (h : IsIndex name) :
    ∃ index < 2 ^ 32 - 1, Nat.toDigits 10 index = name ∧ nameRank name = index := by
  unfold IsIndex at h
  unfold nameRank JsString.rank
  unfold JsString.arrayIndex at h ⊢
  rw [JsString.toText_ofText] at h ⊢
  dsimp only at h ⊢
  split_ifs at h ⊢ with hbound
  · exact ⟨_, hbound.2, hbound.1, rfl⟩
  · exact absurd rfl h

theorem segments_index {name : Str} (h : IsIndex name) : segments name = [name] := by
  obtain ⟨index, _, rfl, _⟩ := exists_digits h
  refine List.splitOn_eq_singleton fun hmem => ?_
  exact absurd (DecimalText.isDigit_of_mem hmem) (by decide)

namespace Realm

variable {realm : Realm R} {names : List Str}

theorem indexed_index {name : Str} (hname : name ∈ names) (hindex : IsIndex name) :
    realm.indexed names (.builtin realm.globalThis) name = some (.object (.native name) true) :=
  if_pos ⟨rfl, hname, hindex⟩

theorem indexed_bare (names : List Str) : Bare (realm.indexed names) where
  empty parent segment key := by
    refine if_neg ?_
    rintro ⟨heq, -⟩
    cases heq
  spaceless := by
    intro ref key parent segment writable hspace
    unfold indexed at hspace
    split_ifs at hspace with hindex
    · cases hspace
    · cases ref with
      | builtin object =>
        obtain ⟨property, _, hproperty⟩ := Option.map_eq_some_iff.mp hspace
        cases property <;> cases hproperty
      | native | space => cases hspace

theorem assignable_of_assign {heap heap' : Heap R} {ref value : Ref R} {key : Str}
    (h : realm.assign heap ref key value = .ok heap') :
    assignable (realm.find heap ref key) = true := by
  unfold assign at h
  cases hfind : realm.find heap ref key with
  | none => rfl
  | some property =>
    rw [hfind] at h
    cases property with
    | accessor => cases h
    | primitive writable | object _ writable =>
      cases writable with
      | true => rfl
      | false => cases h

theorem installNames_append {heap : Heap R} (names later : List Str) :
    realm.installNames heap (names ++ later) =
      realm.installNames heap names >>= fun heap => realm.installNames heap later := by
  induction names generalizing heap with
  | nil => rfl
  | cons name names ih =>
    show (realm.installName heap name >>= fun heap => realm.installNames heap (names ++ later)) = _
    simp only [ih]
    show _ = (realm.installName heap name >>= fun heap => realm.installNames heap names) >>= _
    rw [bind_assoc]

theorem courseOf_index {name : Str} (hindex : IsIndex name) :
    realm.courseOf names name = {
      opened := [], met := [], home := (.builtin realm.globalThis, name)
      works := assignable (realm.find (realm.indexed names) (.builtin realm.globalThis) name) } := by
  unfold courseOf
  rw [segments_index hindex, course, Heap.spread_nil]
  · rfl
  · rintro _ _ _ ⟨⟩

variable (realm) in
/-- A name is not in the way of another. -/
structure Clear (names : List Str) (name other : Str) : Prop where
  opened : ∀ slot ∈ (realm.courseOf names name).met, slot ∉ (realm.courseOf names other).opened
  bound : (realm.courseOf names other).home ∉
    (realm.courseOf names name).met ++ (realm.courseOf names name).opened
  homes : (realm.courseOf names name).home ≠ (realm.courseOf names other).home

theorem Apart.clear (h : realm.Apart names) {name other : Str} (hname : name ∈ names)
    (hother : other ∈ names) (hindex : ¬IsIndex other) (hne : name ≠ other) :
    realm.Clear names name other where
  opened := h.opened name hname other hother
  bound := h.bound name hname other hother hindex
  homes heq := hne (h.homes name hname other hother heq)

variable (realm) in
def OpenedBy (names done : List Str) (slot : Slot R) : Prop :=
  ∃ name ∈ done, slot ∈ (realm.courseOf names name).opened

variable (realm) in
def BoundBy (names done : List Str) (slot : Slot R) (name : Str) : Prop :=
  name ∈ done ∧ slot = (realm.courseOf names name).home

theorem segments_ne_nil (name : Str) : segments name ≠ [] := List.splitOn_ne_nil _ _

/-- A name is installed as by itself after others in whose way it is not. -/
theorem Grown.installName {done : List Str} {heap : Heap R} {name : Str}
    (h : Grown (realm.indexed names) heap (realm.OpenedBy names done) (realm.BoundBy names done))
    (hworks : (realm.courseOf names name).works = true)
    (hclear : ∀ other ∈ done, realm.Clear names name other) :
    ∃ heap', realm.installName heap name = .ok heap' ∧
      Grown (realm.indexed names) heap' (realm.OpenedBy names (name :: done))
        (realm.BoundBy names (name :: done)) := by
  have hstart : Grown (realm.indexed names) heap
      (fun slot => realm.OpenedBy names done slot ∨ slot ∈ []) (realm.BoundBy names done) :=
    h.congr (fun slot => by simp) fun _ _ => Iff.rfl
  have hmet : ∀ slot ∈ (realm.courseOf names name).met,
      ¬realm.OpenedBy names done slot ∧ ∀ other, ¬realm.BoundBy names done slot other := by
    intro slot hslot
    constructor
    · rintro ⟨other, hother, hopened⟩
      exact (hclear other hother).opened slot hslot hopened
    · rintro other ⟨hother, rfl⟩
      exact (hclear other hother).bound (List.mem_append_left _ hslot)
  have hfree : ∀ slot ∈ (realm.courseOf names name).opened,
      ∀ other, ¬realm.BoundBy names done slot other := by
    rintro slot hslot other ⟨hother, rfl⟩
    exact (hclear other hother).bound (List.mem_append_right _ hslot)
  have hhome : ∀ other, ¬realm.BoundBy names done (realm.courseOf names name).home other :=
    fun other hother => (hclear other hother.1).homes hother.2
  obtain ⟨heap', hplace, hgrown⟩ := hstart.place_course (indexed_bare names) name (segments name)
    hworks hmet hfree hhome (fun _ _ heq => by cases heq) (segments_ne_nil name)
  refine ⟨heap', hplace, hgrown.congr (fun slot => ?_) fun slot other => ?_⟩
  · unfold OpenedBy
    simp only [List.mem_cons, exists_eq_or_imp]
    exact or_comm
  · unfold BoundBy
    simp only [List.mem_cons]
    constructor
    · rintro (⟨hother, hslot⟩ | ⟨hslot, rfl⟩)
      · exact ⟨.inr hother, hslot⟩
      · exact ⟨.inl rfl, hslot⟩
    · rintro ⟨rfl | hother, hslot⟩
      · exact .inr ⟨hslot, rfl⟩
      · exact .inl ⟨hother, hslot⟩

theorem Grown.installNames {todo done : List Str} {heap : Heap R}
    (h : Grown (realm.indexed names) heap (realm.OpenedBy names done) (realm.BoundBy names done))
    (hworks : ∀ name ∈ todo, (realm.courseOf names name).works = true)
    (hclear : ∀ name ∈ todo, ∀ other ∈ todo ++ done, name ≠ other → realm.Clear names name other)
    (hnodup : (todo ++ done).Nodup) :
    ∃ heap', realm.installNames heap todo = .ok heap' ∧
      Grown (realm.indexed names) heap' (realm.OpenedBy names (todo ++ done))
        (realm.BoundBy names (todo ++ done)) := by
  induction todo generalizing heap done with
  | nil => exact ⟨heap, rfl, h⟩
  | cons name todo ih =>
    have hperm : (todo ++ name :: done).Perm (name :: todo ++ done) := List.perm_middle
    obtain ⟨heap₁, hinstall, hgrown⟩ := h.installName (hworks name List.mem_cons_self)
      fun other hother => hclear name List.mem_cons_self other (List.mem_append_right _ hother)
        fun heq => (List.nodup_cons.mp hnodup).1 (heq ▸ List.mem_append_right _ hother)
    obtain ⟨heap₂, hinstalls, hgrown'⟩ := ih hgrown
      (fun other hother => hworks other (List.mem_cons_of_mem _ hother))
      (fun other hother another hanother => hclear other (List.mem_cons_of_mem _ hother) another
        (hperm.mem_iff.mp hanother)) (hperm.nodup_iff.mpr hnodup)
    refine ⟨heap₂, ?_, hgrown'.congr (fun slot => ?_) fun slot other => ?_⟩
    · rw [Realm.installNames, hinstall]
      exact hinstalls
    · unfold OpenedBy
      simp only [hperm.mem_iff]
    · unfold BoundBy
      simp only [hperm.mem_iff]

end Realm

end RustTS.Registry
