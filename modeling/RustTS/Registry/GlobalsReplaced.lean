import RustTS.Registry.GlobalsOrder

/-! A name in the way of another: installed last, its function takes the place of what the other's
path goes through. -/
namespace RustTS.Registry

open RustTS.Contract

variable {R : Type}

namespace Realm

variable (realm : Realm R)

def IsPrototype (ref : Ref R) : Prop :=
  ∃ heir, ∃ object ∈ realm.inherited heir, ref = .builtin object

/-- What an object finds in its prototypes. -/
def inheritedProperty (heap : Heap R) (ref : Ref R) (key : Str) : Option (Property R) :=
  (realm.inherited ref).findSome? fun object => heap (.builtin object) key

variable {realm}

/-- A heap to which the loop has added: no object it holds now was not held before, but the value
put and namespaces, and functions have the properties they had. -/
structure Grows (values : Ref R → Prop) (heap heap' : Heap R) : Prop where
  held : ∀ ref key child writable, heap' ref key = some (.object child writable) →
    heap ref key = some (.object child writable) ∨ values child ∨
      ∃ parent segment, child = .space parent segment
  kept : ∀ function key, heap (.native function) key ≠ none → heap' (.native function) key ≠ none

namespace Grows

variable {values : Ref R → Prop} {heap heap₁ heap₂ : Heap R}

theorem refl (values : Ref R → Prop) (heap : Heap R) : Grows values heap heap where
  held _ _ _ _ h := .inl h
  kept _ _ h := h

theorem trans (h : Grows values heap heap₁) (h' : Grows values heap₁ heap₂) :
    Grows values heap heap₂ where
  held := by
    intro ref key child writable hchild
    rcases h'.held ref key child writable hchild with hbefore | hnew
    · exact h.held ref key child writable hbefore
    · exact .inr hnew
  kept function key hkey := h'.kept function key (h.kept function key hkey)

theorem mono {values' : Ref R → Prop} (h : Grows values heap heap₁)
    (himp : ∀ child, values child → values' child) : Grows values' heap heap₁ where
  held := by
    intro ref key child writable hchild
    rcases h.held ref key child writable hchild with hbefore | hvalue | hspace
    · exact .inl hbefore
    · exact .inr (.inl (himp child hvalue))
    · exact .inr (.inr hspace)
  kept := h.kept

end Grows

variable [DecidableEq R] {heap heap' : Heap R} {ref value : Ref R} {key : Str}

theorem grows_define {values : Ref R → Prop} (hvalue : values value ∨
    ∃ parent segment, value = .space parent segment) :
    Grows values heap (heap.define ref key (.object value true)) where
  held := by
    intro r k child writable hchild
    unfold Heap.define at hchild
    split_ifs at hchild
    · obtain ⟨rfl, _⟩ := Property.object.inj (Option.some.inj hchild)
      exact .inr hvalue
    · exact .inl hchild
  kept := by
    intro function k hkey
    unfold Heap.define
    split_ifs
    · simp
    · exact hkey

private theorem grows_make (values : Ref R → Prop) (parent : Ref R) (segment : Str) :
    Grows values heap (heap.make (.space parent segment)) where
  held := by
    intro r k child writable hchild
    unfold Heap.make at hchild
    split_ifs at hchild
    exact .inl hchild
  kept := by
    intro function k hkey
    unfold Heap.make
    rw [if_neg (by simp)]
    exact hkey

theorem assign_eq_ok (h : realm.assign heap ref key value = .ok heap') :
    heap' = heap.define ref key (.object value true) := by
  have hassign := assign_of_assignable value (assignable_of_assign h)
  rw [h] at hassign
  exact Except.ok.inj hassign

private theorem find_make (heap : Heap R) (ref : Ref R) (key k : Str) :
    realm.find (heap.make (.space ref key)) ref k = realm.find heap ref k := by
  have hne : ref ≠ .space ref key := by
    intro heq
    have hsize := congrArg sizeOf heq
    simp at hsize
    omega
  have hown : heap.make (.space ref key) ref k = heap ref k := if_neg hne
  have hbuiltin (object : R) : heap.make (.space ref key) (.builtin object) k =
      heap (.builtin object) k := if_neg (by simp)
  unfold find
  simp only [hown, hbuiltin]

/-- A path goes on in an object that it finds, or in a namespace that it makes. -/
theorem namespaceChild_cases {child : Ref R}
    (h : realm.namespaceChild heap ref key = .ok (child, heap')) :
    passable (realm.find heap ref key) = true ∧
    ((∃ writable, realm.find heap ref key = some (.object child writable) ∧ heap' = heap) ∨
      (∀ child writable, realm.find heap ref key ≠ some (.object child writable)) ∧
        child = .space ref key ∧
        heap' = (heap.make (.space ref key)).define ref key (.object (.space ref key) true)) := by
  have hmade (hmake : (do
      let heap ← realm.assign (heap.make (.space ref key)) ref key (.space ref key)
      pure (Ref.space ref key, heap) : Except Stop (Ref R × Heap R)) = .ok (child, heap')) :
      assignable (realm.find heap ref key) = true ∧ child = .space ref key ∧
        heap' = (heap.make (.space ref key)).define ref key (.object (.space ref key) true) := by
    cases hassign : realm.assign (heap.make (.space ref key)) ref key (.space ref key) with
    | error stop =>
      rw [hassign] at hmake
      cases hmake
    | ok heap₁ =>
      rw [hassign] at hmake
      obtain ⟨rfl, rfl⟩ := Prod.mk.inj (Except.ok.inj hmake)
      rw [← find_make heap ref key key]
      exact ⟨assignable_of_assign hassign, rfl, assign_eq_ok hassign⟩
  unfold namespaceChild at h
  cases hfind : realm.find heap ref key with
  | none =>
    rw [hfind] at h
    exact ⟨rfl, .inr ⟨by simp, (hmade h).2⟩⟩
  | some property =>
    rw [hfind] at h
    cases property with
    | accessor => cases h
    | object existing writable =>
      obtain ⟨rfl, rfl⟩ := Prod.mk.inj (Except.ok.inj h)
      exact ⟨rfl, .inl ⟨writable, rfl, rfl⟩⟩
    | primitive writable =>
      obtain ⟨hassign, hrest⟩ := hmade h
      rw [hfind] at hassign
      exact ⟨hassign, .inr ⟨by simp, hrest⟩⟩

theorem namespaceChild_grows (values : Ref R → Prop) {child : Ref R}
    (h : realm.namespaceChild heap ref key = .ok (child, heap')) : Grows values heap heap' := by
  obtain ⟨_, ⟨_, _, rfl⟩ | ⟨_, _, rfl⟩⟩ := namespaceChild_cases h
  · exact .refl values _
  · exact (grows_make values ref key).trans (grows_define (.inr ⟨ref, key, rfl⟩))

theorem place_grows {path : List Str} (h : realm.place heap ref path value = .ok heap') :
    Grows (· = value) heap heap' := by
  induction path generalizing heap ref with
  | nil =>
    rw [assign_eq_ok h]
    exact grows_define (.inl rfl)
  | cons key path ih =>
    cases path with
    | nil =>
      rw [assign_eq_ok h]
      exact grows_define (.inl rfl)
    | cons next rest =>
      rw [place_cons] at h
      cases hchild : realm.namespaceChild heap ref key with
      | error stop =>
        rw [hchild] at h
        cases h
      | ok made =>
        rw [hchild] at h
        exact (namespaceChild_grows _ hchild).trans (ih h)

/-- The functions that a loop over these names puts somewhere. -/
def Put (names : List Str) (child : Ref R) : Prop := ∃ name ∈ names, child = .native name

theorem installNames_grows {todo : List Str} (h : realm.installNames heap todo = .ok heap') :
    Grows (Put todo) heap heap' := by
  induction todo generalizing heap with
  | nil =>
    obtain rfl := Except.ok.inj h
    exact .refl _ heap
  | cons name todo ih =>
    cases hname : realm.installName heap name with
    | error stop =>
      rw [installNames, hname] at h
      cases h
    | ok heap₁ =>
      rw [installNames, hname] at h
      have hfirst : Grows (Put (name :: todo)) heap heap₁ :=
        (place_grows hname).mono fun child heq => ⟨name, List.mem_cons_self, heq⟩
      refine hfirst.trans ((ih h).mono ?_)
      rintro child ⟨other, hother, heq⟩
      exact ⟨other, List.mem_cons_of_mem _ hother, heq⟩

/-- A function that is nowhere and has no properties. -/
structure Unknown (function : Str) (heap : Heap R) : Prop where
  nowhere : ∀ ref key writable, heap ref key ≠ some (.object (.native function) writable)
  blank : ∀ key, heap (.native function) key = none

omit [DecidableEq R] in
theorem Unknown.find {function : Str} (h : Unknown function heap) (writable : Bool) :
    realm.find heap ref key ≠ some (.object (.native function) writable) := by
  intro hfind
  rcases Option.or_eq_some_iff.mp hfind with hown | ⟨_, hinherited⟩
  · exact h.nowhere _ _ _ hown
  · obtain ⟨object, _, hobject⟩ := List.exists_of_findSome?_eq_some hinherited
    exact h.nowhere _ _ _ hobject

/-- Nothing is put into a function that is nowhere. -/
theorem Unknown.place {function : Str} {path : List Str} (h : Unknown function heap)
    (href : ref ≠ .native function) (hplace : realm.place heap ref path value = .ok heap') (key : Str) :
    heap' (.native function) key = none := by
  have hdefine {heap : Heap R} {ref value : Ref R} {k : Str} (h : heap (.native function) key = none)
      (href : ref ≠ .native function) :
      heap.define ref k (.object value true) (.native function) key = none :=
    (if_neg fun heq => href heq.1.symm).trans h
  induction path generalizing heap ref with
  | nil =>
    rw [assign_eq_ok hplace]
    exact hdefine (h.blank key) href
  | cons k path ih =>
    cases path with
    | nil =>
      rw [assign_eq_ok hplace]
      exact hdefine (h.blank key) href
    | cons next rest =>
      rw [place_cons] at hplace
      cases hchild : realm.namespaceChild heap ref k with
      | error stop =>
        rw [hchild] at hplace
        cases hplace
      | ok made =>
        rw [hchild] at hplace
        have hgrows := namespaceChild_grows (fun _ => False) hchild
        have hnowhere : ∀ ref key writable,
            made.2 ref key ≠ some (.object (.native function) writable) := by
          intro r k writable hfound
          rcases hgrows.held r k _ writable hfound with hbefore | hvalue | ⟨_, _, hspace⟩
          · exact h.nowhere r k writable hbefore
          · exact hvalue
          · cases hspace
        obtain ⟨_, ⟨writable, hfind, hsame⟩ | ⟨_, hspace, hmade⟩⟩ := namespaceChild_cases hchild
        · have hnext : made.1 ≠ .native function := fun heq => h.find writable (heq ▸ hfind)
          exact ih ⟨hnowhere, hsame ▸ h.blank⟩ hnext hplace
        · have hblank : ∀ key, made.2 (.native function) key = none := by
            intro key
            rw [hmade]
            refine (if_neg fun heq => href heq.1.symm).trans ?_
            exact (if_neg (by simp)).trans (h.blank key)
          have hnext : made.1 ≠ .native function := by simp [hspace]
          exact ih ⟨hnowhere, hblank⟩ hnext hplace

theorem Unknown.installName {function name : Str} (h : Unknown function heap) (hne : name ≠ function)
    (hinstall : realm.installName heap name = .ok heap') : Unknown function heap' where
  nowhere := by
    intro r k writable hfound
    rcases (place_grows hinstall).held r k _ writable hfound with hbefore | hvalue | ⟨_, _, hspace⟩
    · exact h.nowhere r k writable hbefore
    · exact hne (Ref.native.inj hvalue).symm
    · cases hspace
  blank := h.place (by simp) hinstall

theorem Unknown.installNames {function : Str} {todo : List Str} (h : Unknown function heap)
    (hnot : function ∉ todo) (hinstall : realm.installNames heap todo = .ok heap') :
    Unknown function heap' := by
  induction todo generalizing heap with
  | nil =>
    obtain rfl := Except.ok.inj hinstall
    exact h
  | cons name todo ih =>
    rw [List.mem_cons, not_or] at hnot
    obtain ⟨hne, hrest⟩ := hnot
    cases hname : realm.installName heap name with
    | error stop =>
      rw [Realm.installNames, hname] at hinstall
      cases hinstall
    | ok heap₁ =>
      rw [Realm.installNames, hname] at hinstall
      exact ih (h.installName (Ne.symm hne) hname) hrest hinstall

variable {base : Heap R} {opened : List (Slot R)} {made : Slot R → Prop}
  {bound : Slot R → Str → Prop}

/-- A path that gets to its end by itself works. -/
theorem works_of_place (hbare : Bare base) {path : List Str}
    (h : Grown base heap (fun slot => False ∨ slot ∈ opened) fun _ _ => False)
    (hclosed : ∀ parent segment, ref = .space parent segment → (parent, segment) ∈ opened)
    (hplace : realm.place heap ref path value = .ok heap') (hpath : path ≠ []) :
    (realm.course base opened ref path).works = true := by
  have hfind (key : Str) : realm.find heap ref key = realm.find (base.spread opened) ref key :=
    h.find_spread (fun _ _ _ => ⟨id, fun _ => id⟩) fun _ _ _ => id
  induction path generalizing heap opened ref with
  | nil => exact absurd rfl hpath
  | cons key path ih =>
    cases path with
    | nil =>
      have hassign := assignable_of_assign hplace
      rw [hfind] at hassign
      exact hassign
    | cons next rest =>
      rw [place_cons] at hplace
      cases hchild : realm.namespaceChild heap ref key with
      | error stop =>
        rw [hchild] at hplace
        cases hplace
      | ok child =>
        have hpass := (namespaceChild_cases hchild).1
        rw [hfind] at hpass
        obtain ⟨heap₁, hstep, hgrown⟩ := h.namespaceChild_pass hbare hpass
          (fun _ _ _ => ⟨id, fun _ => id⟩) (fun _ _ _ => id) fun parent segment heq =>
            .inr (hclosed parent segment heq)
        rw [hstep] at hplace
        rw [course_cons, Bool.and_eq_true]
        refine ⟨hpass, ih hgrown (fun parent segment heq => hbare.pass_space heq) hplace
          (List.cons_ne_nil _ _) fun key => ?_⟩
        exact hgrown.find_spread (fun _ _ _ => ⟨id, fun _ => id⟩) fun _ _ _ => id

omit [DecidableEq R] in
theorem looked_cases {slot : Slot R} (h : slot ∈ realm.looked heap ref key) :
    slot = (ref, key) ∨ realm.IsPrototype slot.1 := by
  rcases List.mem_cons.mp h with hown | hinherited
  · exact .inl hown
  · have hproto : ∀ objects, (∀ object ∈ objects, object ∈ realm.inherited ref) →
        slot ∈ looked.inherit heap key objects → realm.IsPrototype slot.1 := by
      intro objects hobjects hslot
      induction objects with
      | nil => cases hslot
      | cons object rest ih =>
        rcases List.mem_cons.mp hslot with heq | hrest
        · exact ⟨ref, object, hobjects object List.mem_cons_self, congrArg Prod.fst heq⟩
        · split_ifs at hrest with hnone
          · exact ih (fun other hother => hobjects other (List.mem_cons_of_mem _ hother)) hrest
          · cases hrest
    split_ifs at hinherited with hnone
    · exact .inr (hproto _ (fun _ h => h) hinherited)
    · cases hinherited

section
variable {function : Str} {slot : Slot R}

variable (realm) in
/-- A function that was put at a key, nothing having been put in a prototype or into it. -/
structure Holds (base heap : Heap R) (made : Slot R → Prop) (bound : Slot R → Str → Prop)
    (function : Str) (slot : Slot R) : Prop where
  grown : Grown base heap made bound
  held : bound slot function
  spaces : ∀ slot, made slot → ¬realm.IsPrototype slot.1
  functions : ∀ slot name, bound slot name → ¬realm.IsPrototype slot.1
  nowhere : ∀ ref key writable, base ref key ≠ some (.object (.native function) writable)
  blank : ∀ key, heap (.native function) key = none

omit [DecidableEq R] in
theorem Holds.inheritedProperty_eq (h : realm.Holds base heap made bound function slot)
    (ref : Ref R) (key : Str) :
    realm.inheritedProperty heap ref key = realm.inheritedProperty base ref key := by
  have hobjects : ∀ object ∈ realm.inherited ref,
      heap (.builtin object) key = base (.builtin object) key := by
    intro object hobject
    have hproto : realm.IsPrototype (.builtin object) := ⟨ref, object, hobject, rfl⟩
    exact h.grown.elsewhere (.builtin object, key) (fun hin => h.spaces _ hin hproto)
      fun name hin => h.functions _ name hin hproto
  unfold inheritedProperty
  generalize realm.inherited ref = objects at hobjects
  induction objects with
  | nil => rfl
  | cons object rest ih =>
    rw [List.findSome?_cons, List.findSome?_cons, hobjects object List.mem_cons_self,
      ih fun other hother => hobjects other (List.mem_cons_of_mem _ hother)]

omit [DecidableEq R] in
theorem find_blank (hblank : ∀ key, heap (.native function) key = none) (key : Str) :
    realm.find heap (.native function) key = realm.inheritedProperty heap (.native function) key := by
  unfold find
  rw [hblank, Option.none_or]
  rfl

theorem put_into {next : Str} {rest : List Str}
    (hblank : ∀ key, heap (.native function) key = none)
    (hinherited : rest ≠ [] → ∀ child writable,
      realm.inheritedProperty heap (.native function) next ≠ some (.object child writable))
    (hplace : realm.place heap (.native function) (next :: rest) value = .ok heap') :
    heap' (.native function) next ≠ none := by
  have hself (heap : Heap R) (value : Ref R) :
      heap.define (.native function) next (.object value true) (.native function) next ≠ none := by
    rw [Heap.define_self]
    simp
  cases rest with
  | nil =>
    rw [assign_eq_ok hplace]
    exact hself heap value
  | cons key rest =>
    rw [place_cons] at hplace
    cases hchild : realm.namespaceChild heap (.native function) next with
    | error stop =>
      rw [hchild] at hplace
      cases hplace
    | ok child =>
      rw [hchild] at hplace
      obtain ⟨_, ⟨writable, hfind, _⟩ | ⟨_, _, hmade⟩⟩ := namespaceChild_cases hchild
      · rw [find_blank hblank] at hfind
        exact absurd hfind (hinherited (List.cons_ne_nil _ _) _ _)
      · refine (place_grows hplace).kept function next ?_
        rw [hmade]
        exact hself _ _

theorem pass_ne_native (hnowhere : ∀ ref key writable,
    base ref key ≠ some (.object (.native function) writable)) :
    (realm.pass base opened ref key).1 ≠ .native function := by
  rcases realm.pass_cases base opened ref key with ⟨child, writable, hfind, hstep⟩ | ⟨_, _, hstep⟩
  · rw [hstep]
    rintro rfl
    obtain ⟨slot, hslot⟩ := exists_of_find hfind
    by_cases hmem : slot ∈ opened
    · rw [Heap.spread_of_mem hmem] at hslot
      cases hslot
    · rw [Heap.spread_of_not_mem hmem] at hslot
      exact hnowhere _ _ _ hslot
  · rw [hstep]
    rintro ⟨⟩

theorem not_mem_pass (realm : Realm R) (base : Heap R) (hhere : slot ≠ (ref, key))
    (hnew : slot ∉ opened) :
    slot ∉ (realm.pass base opened ref key).2 := by
  rcases realm.pass_cases base opened ref key with ⟨_, _, _, hstep⟩ | ⟨_, _, hstep⟩
  · rw [hstep]
    exact hnew
  · rw [hstep]
    exact List.not_mem_cons_of_ne_of_not_mem hhere hnew

theorem Holds.ne_of_looked (h : realm.Holds base heap made bound function slot)
    (opened : List (Slot R)) (hhere : slot ≠ (ref, key)) :
    ∀ other ∈ realm.looked (base.spread opened) ref key, other ≠ slot := by
  rintro other hother rfl
  rcases looked_cases hother with heq | hproto
  · exact hhere heq
  · exact h.functions _ _ h.held hproto

/-- Installing a name whose path goes through a function puts something into that. -/
theorem Holds.place {path : List Str}
    (h : realm.Holds base heap (fun slot => made slot ∨ slot ∈ opened) bound function slot)
    (hbare : Bare base) (hworks : (realm.course base opened ref path).works = true)
    (hmet : ∀ other ∈ (realm.course base opened ref path).met, other ≠ slot →
      ¬made other ∧ ∀ name, ¬bound other name)
    (hfree : ∀ other ∈ (realm.course base opened ref path).opened, other ≠ slot →
      ∀ name, ¬bound other name)
    (hout : ∀ other ∈ (realm.course base opened ref path).opened, ¬realm.IsPrototype other.1)
    (hfunctions : ∀ key ∈ path.tail.dropLast, ∀ child writable,
      realm.inheritedProperty base (.native function) key ≠ some (.object child writable))
    (hclosed : ∀ parent segment, ref = .space parent segment →
      made (parent, segment) ∨ (parent, segment) ∈ opened)
    (href : ref ≠ .native function) (hnew : slot ∉ opened)
    (hslot : slot ∈ (realm.course base opened ref path).met ++
      (realm.course base opened ref path).opened)
    (hplace : realm.place heap ref path value = .ok heap') :
    ∃ key, heap' (.native function) key ≠ none := by
  induction path generalizing heap opened ref with
  | nil => exact absurd hslot hnew
  | cons key path ih =>
    cases path with
    | nil => exact absurd hslot hnew
    | cons next rest =>
      rw [course_cons] at hworks hmet hfree hout hslot
      dsimp only at hworks hmet hfree hout hslot
      rw [Bool.and_eq_true] at hworks
      rw [place_cons] at hplace
      by_cases hhere : slot = (ref, key)
      · subst hhere
        rw [namespaceChild_object (h.grown.find_bound h.held)] at hplace
        refine ⟨next, put_into h.blank (fun hrest child writable => ?_) hplace⟩
        rw [h.inheritedProperty_eq]
        refine hfunctions next ?_ child writable
        rw [List.tail_cons, List.dropLast_cons_of_ne_nil hrest]
        exact List.mem_cons_self
      · have hne := h.ne_of_looked opened hhere
        have hnew' := realm.not_mem_pass base hhere hnew
        have hmem := realm.subset_opened base (realm.pass base opened ref key).2
          (realm.pass base opened ref key).1 (next :: rest)
        obtain ⟨heap₁, hchild, hgrown⟩ := h.grown.namespaceChild_pass hbare hworks.1
          (fun other hother hnot => hmet other (List.mem_append_left _
            (List.mem_filter.mpr ⟨hother, decide_eq_true hnot⟩)) (hne other hother))
          (fun other hother => hfree other (hmem hother) fun heq => hnew' (heq ▸ hother))
          hclosed
        rw [hchild] at hplace
        have hblank : ∀ k, heap₁ (.native function) k = none := by
          intro k
          obtain ⟨_, ⟨_, _, rfl⟩ | ⟨_, _, rfl⟩⟩ := namespaceChild_cases hchild
          · exact h.blank k
          · refine (if_neg fun heq => href heq.1.symm).trans ?_
            exact (if_neg (by simp)).trans (h.blank k)
        have hspaces : ∀ other, (made other ∨ other ∈ (realm.pass base opened ref key).2) →
            ¬realm.IsPrototype other.1 := by
          rintro other (hmade | hpass)
          · exact h.spaces other (.inl hmade)
          · exact hout other (hmem hpass)
        refine ih ⟨hgrown, h.held, hspaces, h.functions, h.nowhere, hblank⟩ hworks.2
          (fun other hother => hmet other (List.mem_append_right _ hother)) hfree hout
          (fun k hk => hfunctions k ?_) (fun parent segment heq => .inr (hbare.pass_space heq))
          (pass_ne_native h.nowhere) hnew' ?_ hplace
        · cases rest with
          | nil => cases hk
          | cons another rest => exact List.mem_cons_of_mem _ hk
        · rcases List.mem_append.mp hslot with hmet | hopened
          · rcases List.mem_append.mp hmet with hhere | hlater
            · exact absurd rfl (hne slot (List.mem_filter.mp hhere).1)
            · exact List.mem_append_left _ hlater
          · exact List.mem_append_right _ hopened

/-- A path that goes through a function is not read to that function. -/
theorem Holds.read (opened : List (Slot R)) (path : List Str)
    (h : realm.Holds base heap made bound function slot)
    (hsole : ∀ ref key writable,
      heap ref key = some (.object (.native function) writable) → (ref, key) = slot)
    (hmet : ∀ other ∈ (realm.course base opened ref path).met, other ≠ slot →
      ¬made other ∧ ∀ name, ¬bound other name)
    (hopened : ∀ other ∈ (realm.course base opened ref path).opened, other ≠ slot →
      made other ∧ ∀ name, ¬bound other name)
    (hfunctions : ∀ key ∈ path.tail.dropLast, ∀ child writable,
      realm.inheritedProperty base (.native function) key ≠ some (.object child writable))
    (hnew : slot ∉ opened)
    (hslot : slot ∈ (realm.course base opened ref path).met ++
      (realm.course base opened ref path).opened) :
    realm.read heap ref path ≠ some (.native function) := by
  induction path generalizing opened ref with
  | nil => exact absurd hslot hnew
  | cons key path ih =>
    cases path with
    | nil => exact absurd hslot hnew
    | cons next rest =>
      rw [course_cons] at hmet hopened hslot
      dsimp only at hmet hopened hslot
      by_cases hhere : slot = (ref, key)
      · subst hhere
        rw [Realm.read, h.grown.find_bound h.held]
        dsimp only
        rw [Realm.read, find_blank h.blank]
        cases rest with
        | nil =>
          cases hfind : realm.inheritedProperty heap (.native function) next with
          | none => simp
          | some property =>
            cases property with
            | primitive | accessor => simp
            | object child writable =>
              simp only [Realm.read, ne_eq, Option.some.injEq]
              rintro rfl
              obtain ⟨object, hobject, hheld⟩ := List.exists_of_findSome?_eq_some hfind
              refine h.functions _ _ h.held ?_
              rw [← hsole _ _ _ hheld]
              exact ⟨.native function, object, hobject, rfl⟩
        | cons another rest =>
          rw [h.inheritedProperty_eq]
          have hnone := hfunctions next List.mem_cons_self
          split
          · next child writable hfind => exact absurd hfind (hnone child writable)
          · simp
      · have hne := h.ne_of_looked opened hhere
        have hnew' := realm.not_mem_pass base hhere hnew
        have hmem := realm.subset_opened base (realm.pass base opened ref key).2
          (realm.pass base opened ref key).1 (next :: rest)
        obtain ⟨writable, hfind⟩ := h.grown.find_pass
          (fun other hother hnot => hmet other (List.mem_append_left _
            (List.mem_filter.mpr ⟨hother, decide_eq_true hnot⟩)) (hne other hother))
          (fun other hother => hopened other (hmem hother) fun heq => hnew' (heq ▸ hother))
        rw [Realm.read, hfind]
        refine ih _ (fun other hother => hmet other (List.mem_append_right _ hother)) hopened
          (fun k hk => hfunctions k ?_) hnew' ?_
        · cases rest with
          | nil => cases hk
          | cons another rest => exact List.mem_cons_of_mem _ hk
        · rcases List.mem_append.mp hslot with hmet | hopened
          · rcases List.mem_append.mp hmet with hhere | hlater
            · exact absurd rfl (hne slot (List.mem_filter.mp hhere).1)
            · exact List.mem_append_left _ hlater
          · exact List.mem_append_right _ hopened

end

variable {names : List Str} {globals : Heap R}

variable (realm) in
/-- Every order of the names that are not array indices leads to the same globals, which have each
function at its name. -/
structure Settled (names : List Str) (globals : Heap R) : Prop where
  installs : ∀ later, later.Perm (names.filter fun name => ¬IsIndex name) →
    realm.installNames (realm.indexed names) later = .ok globals
  found : ∀ name ∈ names, realm.readName globals name = some (.native name)

omit [DecidableEq R] in
theorem exists_of_read {path : List Str} {child : Ref R} (hpath : path ≠ [])
    (h : realm.read heap ref path = some child) :
    ∃ (ref : Ref R) (key : Str) (writable : Bool), heap ref key = some (.object child writable) := by
  induction path generalizing ref with
  | nil => exact absurd rfl hpath
  | cons key path ih =>
    rw [read] at h
    split at h
    · next found writable hfind =>
      cases path with
      | nil =>
        obtain rfl := Option.some.inj h
        obtain ⟨slot, hslot⟩ := exists_of_find hfind
        exact ⟨slot.1, slot.2, writable, hslot⟩
      | cons next rest => exact ih (List.cons_ne_nil _ _) h
    · cases h

theorem native_of_indexed {name : Str} {writable : Bool}
    (h : realm.indexed names ref key = some (.object (.native name) writable)) :
    IsIndex name ∧ (ref, key) = (.builtin realm.globalThis, name) := by
  unfold indexed at h
  split_ifs at h with hindex
  · obtain ⟨hname, _⟩ := Property.object.inj (Option.some.inj h)
    obtain rfl := Ref.native.inj hname
    exact ⟨hindex.2.2, by rw [hindex.1]⟩
  · cases ref with
    | builtin object =>
      obtain ⟨property, _, hproperty⟩ := Option.map_eq_some_iff.mp h
      cases property <;> cases hproperty
    | native | space => cases h

theorem indexed_unknown {name : Str} (hindex : ¬IsIndex name) : Unknown name (realm.indexed names) where
  nowhere ref key writable h := hindex (native_of_indexed h).1
  blank key := by
    refine if_neg ?_
    rintro ⟨heq, -⟩
    cases heq

theorem mem_later {name : Str} :
    name ∈ names.filter (fun name => ¬IsIndex name) ↔ name ∈ names ∧ ¬IsIndex name := by
  rw [List.mem_filter, decide_eq_true_eq]

namespace Settled

variable {name other : Str}

/-- A name installed first works, and is where it goes by itself. -/
theorem first (h : realm.Settled names globals) (hname : name ∈ names) (hindex : ¬IsIndex name) :
    (realm.courseOf names name).works = true ∧
      ∃ heap, Grown (realm.indexed names) heap (realm.OpenedBy names [name])
          (realm.BoundBy names [name]) ∧
        (∀ key, heap (.native name) key = none) ∧
        ∀ later, (name :: later).Perm (names.filter fun name => ¬IsIndex name) →
          realm.installNames heap later = .ok globals := by
  have hrun := h.installs _ (List.perm_cons_erase (mem_later.mpr ⟨hname, hindex⟩)).symm
  cases hinstall : realm.installName (realm.indexed names) name with
  | error stop =>
    rw [installNames, hinstall] at hrun
    cases hrun
  | ok heap =>
    have hstart : Grown (realm.indexed names) (realm.indexed names)
        (fun slot => False ∨ slot ∈ []) fun _ _ => False :=
      (Grown.start _).congr (fun slot => by simp) fun _ _ => Iff.rfl
    have hworks : (realm.courseOf names name).works = true :=
      works_of_place (indexed_bare names) hstart (fun _ _ heq => by cases heq) hinstall
        (segments_ne_nil name)
    have hempty : Grown (realm.indexed names) (realm.indexed names) (realm.OpenedBy names [])
        (realm.BoundBy names []) :=
      (Grown.start _).congr (fun slot => by simp [OpenedBy]) fun slot name => by simp [BoundBy]
    obtain ⟨heap', hinstall', hgrown⟩ := hempty.installName hworks
      fun other hother => absurd hother List.not_mem_nil
    obtain rfl := Except.ok.inj (hinstall.symm.trans hinstall')
    refine ⟨hworks, heap, hgrown, ((indexed_unknown hindex).place (by simp) hinstall),
      fun later hlater => ?_⟩
    have hrun := h.installs _ hlater
    rw [installNames, hinstall] at hrun
    exact hrun

theorem works (h : realm.Settled names globals) (hname : name ∈ names) :
    (realm.courseOf names name).works = true := by
  by_cases hindex : IsIndex name
  · rw [courseOf_index hindex]
    show assignable ((realm.indexed names (.builtin realm.globalThis) name).or _) = true
    rw [indexed_index hname hindex]
    rfl
  · exact (h.first hname hindex).1

theorem home_of (h : realm.Settled names globals) (hnodup : names.Nodup) (hname : name ∈ names)
    {writable : Bool} (hheld : globals ref key = some (.object (.native name) writable)) :
    (ref, key) = (realm.courseOf names name).home := by
  by_cases hindex : IsIndex name
  · have hgrows := installNames_grows (h.installs _ (.refl _))
    rcases hgrows.held ref key _ writable hheld with hbase | ⟨other, hother, heq⟩ | ⟨_, _, hspace⟩
    · rw [courseOf_index hindex]
      exact (native_of_indexed hbase).2
    · obtain rfl := Ref.native.inj heq
      exact absurd hindex (mem_later.mp hother).2
    · cases hspace
  · obtain ⟨_, heap, hgrown, _, hrest⟩ := h.first hname hindex
    have hperm := List.perm_cons_erase (mem_later.mpr ⟨hname, hindex⟩)
    have hgrows := installNames_grows (hrest _ hperm.symm)
    rcases hgrows.held ref key _ writable hheld with hfirst | ⟨other, hother, heq⟩ | ⟨_, _, hspace⟩
    · by_cases hbound : ∃ other, realm.BoundBy names [name] (ref, key) other
      · obtain ⟨other, hother, hslot⟩ := hbound
        rw [List.mem_singleton.mp hother] at hslot
        exact hslot
      · have hnot := not_exists.mp hbound
        by_cases hopened : realm.OpenedBy names [name] (ref, key)
        · have hspace := hgrown.atOpened _ hopened hnot
          rw [hfirst] at hspace
          cases hspace
        · have hbase := hgrown.elsewhere _ hopened hnot
          exact absurd (native_of_indexed (hbase.symm.trans hfirst)).1 hindex
    · obtain rfl := Ref.native.inj heq
      exact absurd hother (hnodup.filter _).not_mem_erase
    · cases hspace

theorem homes (h : realm.Settled names globals) (hnodup : names.Nodup) (hname : name ∈ names)
    (hother : other ∈ names)
    (heq : (realm.courseOf names name).home = (realm.courseOf names other).home) : name = other := by
  obtain ⟨ref, key, writable, hheld⟩ := exists_of_read (segments_ne_nil name) (h.found name hname)
  obtain ⟨ref', key', writable', hheld'⟩ :=
    exists_of_read (segments_ne_nil other) (h.found other hother)
  have hslot := (h.home_of hnodup hname hheld).trans (heq.trans (h.home_of hnodup hother hheld').symm)
  obtain ⟨rfl, rfl⟩ := Prod.mk.inj hslot
  rw [hheld] at hheld'
  exact Ref.native.inj (Property.object.inj (Option.some.inj hheld')).1

theorem blank (h : realm.Settled names globals) (hnodup : names.Nodup) (hname : name ∈ names)
    (hindex : ¬IsIndex name) (key : Str) : globals (.native name) key = none := by
  have hmem := mem_later.mpr ⟨hname, hindex⟩
  have hrun := h.installs _ ((List.perm_append_singleton name _).trans
    (List.perm_cons_erase hmem).symm)
  rw [installNames_append] at hrun
  cases hbefore : realm.installNames (realm.indexed names)
      ((names.filter fun name => ¬IsIndex name).erase name) with
  | error stop =>
    rw [hbefore] at hrun
    cases hrun
  | ok heap =>
    have hunknown := (indexed_unknown hindex).installNames (hnodup.filter _).not_mem_erase hbefore
    rw [hbefore] at hrun
    cases hlast : realm.installName heap name with
    | error stop =>
      change (realm.installName heap name >>= _) = _ at hrun
      rw [hlast] at hrun
      cases hrun
    | ok heap' =>
      change (realm.installName heap name >>= _) = _ at hrun
      rw [hlast] at hrun
      obtain rfl := Except.ok.inj hrun
      exact hunknown.place (by simp) hlast key

end Settled

end Realm

end RustTS.Registry
