import Mathlib.Data.Finset.Card
import Mathlib.Data.Fintype.Basic
import Mathlib.Logic.Relation
import RustTS.Lib.AvoidingPath
import RustTS.Contract.SchemaReferences

/-! The schemas a type depends on are closed: gathered with the recursion cut off at the names of
the path it is on, they hold one for each named type that the type reaches. -/
namespace RustTS.Contract
open Settling

variable {ι : Type}

mutual

/-- The schema and those it holds at any depth. -/
def Schema.nodes : Schema → List Schema
  | .mk name tsType dependencies => .mk name tsType dependencies :: schemaNodes dependencies

def schemaNodes : List Schema → List Schema
  | [] => []
  | schema :: schemas => schema.nodes ++ schemaNodes schemas

end

theorem schemaNodes_append (schemas schemas' : List Schema) :
    schemaNodes (schemas ++ schemas') = schemaNodes schemas ++ schemaNodes schemas' := by
  induction schemas with
  | nil => rfl
  | cons schema schemas ih =>
    show schema.nodes ++ schemaNodes (schemas ++ schemas') = _
    rw [ih]
    exact (List.append_assoc ..).symm

theorem schemaNodes_singleton (name : Str) (tsType : TsType) (dependencies : List Schema) :
    schemaNodes [.mk name tsType dependencies] =
      .mk name tsType dependencies :: schemaNodes dependencies := by
  show schemaNodes [.mk name tsType dependencies] = [.mk name tsType dependencies] ++
    schemaNodes dependencies
  simp [schemaNodes, Schema.nodes]

namespace RustType

variable (types : ι → DerivedType ι)

/-- The name under which a type is on the stack while its schema is built. -/
def stackKey (ty : RustType ι) : Option Str :=
  if ty.declared types then some (ty.schemaName types) else none

/-- The second type is reached from the first through types whose names are not on the stack. -/
abbrev Leads (stack : List Str) : RustType ι → RustType ι → Prop :=
  AvoidingPath.Leads (RustType.pushed types) (stackKey types) stack

/-- The type has this shape. -/
def HasShape (ty : RustType ι) (tsType : TsType) : Prop :=
  ∃ N, ∀ n ≥ N, (RustType.tsType types n ty).run = some (.ok tsType)

/-- The schema is that of a named type. -/
def IsSchemaOf (schema : Schema) (ty : RustType ι) : Prop :=
  ty.declared types = true ∧ schema.name = ty.schemaName types ∧ HasShape types ty schema.tsType

/-- The schemas are those of what some types lead to, and, of what they lead to without the names on
the stack, all. -/
structure Gathered (stack : List Str) (roots : List (RustType ι)) (schemas : List Schema) :
    Prop where
  complete : ∀ root ∈ roots, ∀ ty, Leads types stack root ty → ty.declared types = true →
    ∃ node ∈ schemaNodes schemas, IsSchemaOf types node ty
  sound : ∀ node ∈ schemaNodes schemas, ∃ root ∈ roots, ∃ ty, Leads types [] root ty ∧
    IsSchemaOf types node ty

/-- The type's shape panics: what it merges cannot be merged. -/
def Panics (ty : RustType ι) : Prop :=
  ∃ error N, ∀ n ≥ N, (RustType.tsType types n ty).run = some (.error error)

/-- No two types have one schema name. -/
def UniqueNames : Prop :=
  ∀ ty ty' : RustType ι, ty.declared types = true → ty'.declared types = true →
    ty.schemaName types = ty'.schemaName types → ty = ty'

variable {types} {stack : List Str} {roots roots' : List (RustType ι)}
  {schemas schemas' : List Schema} {E : Prop}

theorem stackKey_of_declared {ty : RustType ι} (h : ty.declared types = true) :
    stackKey types ty = some (ty.schemaName types) := by
  unfold stackKey
  rw [h]
  rfl

private theorem stackKey_of_not {ty : RustType ι} (h : ty.declared types = false) :
    stackKey types ty = none := by
  unfold stackKey
  rw [h]
  rfl

theorem Gathered.nil (stack : List Str) : Gathered types stack [] [] := ⟨nofun, nofun⟩

theorem Gathered.append (h : Gathered types stack roots schemas)
    (h' : Gathered types stack roots' schemas') :
    Gathered types stack (roots ++ roots') (schemas ++ schemas') where
  complete root hroot ty hleads hdeclared := by
    rw [schemaNodes_append]
    rcases List.mem_append.mp hroot with hroot | hroot
    · obtain ⟨node, hnode, hof⟩ := h.complete root hroot ty hleads hdeclared
      exact ⟨node, List.mem_append_left _ hnode, hof⟩
    · obtain ⟨node, hnode, hof⟩ := h'.complete root hroot ty hleads hdeclared
      exact ⟨node, List.mem_append_right _ hnode, hof⟩
  sound node hnode := by
    rw [schemaNodes_append] at hnode
    rcases List.mem_append.mp hnode with hnode | hnode
    · obtain ⟨root, hroot, hof⟩ := h.sound node hnode
      exact ⟨root, List.mem_append_left _ hroot, hof⟩
    · obtain ⟨root, hroot, hof⟩ := h'.sound node hnode
      exact ⟨root, List.mem_append_right _ hroot, hof⟩

private theorem Gathered.on_stack {ty : RustType ι} (hdeclared : ty.declared types = true)
    (hstack : ty.schemaName types ∈ stack) : Gathered types stack [ty] [] where
  complete root hroot c hleads _ := by
    rw [List.mem_singleton.mp hroot] at hleads
    exact absurd hstack (hleads.start _ (stackKey_of_declared hdeclared))
  sound := nofun

/-- A type without a name adds what those below it do. -/
theorem Gathered.unnamed {ty : RustType ι} (hdeclared : ty.declared types = false)
    (h : Gathered types stack (ty.pushed types) schemas) : Gathered types stack [ty] schemas where
  complete root hroot c hleads hc := by
    rw [List.mem_singleton.mp hroot] at hleads
    cases hleads with
    | here =>
      rw [hdeclared] at hc
      cases hc
    | step _ hb hleads => exact h.complete _ hb c hleads hc
  sound node hnode := by
    obtain ⟨b, hb, c, hleads, hof⟩ := h.sound node hnode
    refine ⟨ty, List.mem_singleton_self _, c, .step ?_ hb hleads, hof⟩
    rw [stackKey_of_not hdeclared]
    exact nofun

/-- A type with a name adds what those below it do while the name is on the stack, and itself. -/
theorem Gathered.named (hunique : UniqueNames types) {ty : RustType ι}
    (hdeclared : ty.declared types = true) {tsType : TsType} (hshape : HasShape types ty tsType)
    {inner dependencies : List Schema}
    (hinner : Gathered types (ty.schemaName types :: stack) (ty.pushed types) inner)
    (hdependencies : Gathered types (ty.schemaName types :: stack) (ty.pushed types) dependencies) :
    Gathered types stack [ty]
      (inner ++ [.mk (ty.schemaName types) tsType dependencies]) where
  complete root hroot c hleads hc := by
    rw [List.mem_singleton.mp hroot] at hleads
    rw [schemaNodes_append]
    have hname : ∀ x, stackKey types x = some (ty.schemaName types) → x = ty := by
      intro x hx
      unfold stackKey at hx
      split_ifs at hx with hx'
      exact hunique x ty hx' hdeclared (Option.some.inj hx)
    rcases hleads.avoiding (stackKey_of_declared hdeclared) hname with rfl | ⟨b, hb, hleads⟩
    · refine ⟨.mk (c.schemaName types) tsType dependencies, List.mem_append_right _ ?_, hdeclared,
        rfl, hshape⟩
      rw [schemaNodes_singleton]
      exact List.mem_cons_self ..
    · obtain ⟨node, hnode, hof⟩ := hinner.complete b hb c hleads hc
      exact ⟨node, List.mem_append_left _ hnode, hof⟩
  sound node hnode := by
    have hbelow : (∃ b ∈ ty.pushed types, ∃ c, Leads types [] b c ∧ IsSchemaOf types node c) →
        ∃ root ∈ [ty], ∃ c, Leads types [] root c ∧ IsSchemaOf types node c := by
      rintro ⟨b, hb, c, hleads, hof⟩
      exact ⟨ty, List.mem_singleton_self _, c, .step (fun _ _ => List.not_mem_nil) hb hleads, hof⟩
    rw [schemaNodes_append, schemaNodes_singleton] at hnode
    rcases List.mem_append.mp hnode with hnode | hnode
    · exact hbelow (hinner.sound node hnode)
    · rcases List.mem_cons.mp hnode with rfl | hnode
      · refine ⟨ty, List.mem_singleton_self _, ty, .here fun _ _ => List.not_mem_nil, ?_⟩
        exact ⟨hdeclared, rfl, hshape⟩
      · exact hbelow (hdependencies.sound node hnode)

/-- What pushing a type's schema does: it appends some schemas, and gives the stack back. -/
def Pushes (types : ι → DerivedType ι) (E : Prop) (stack : List Str) (ty : RustType ι) : Prop :=
  ∀ dependencies, Restores stack E
    (fun pushed => ∃ added, pushed = dependencies ++ added ∧ Gathered types stack [ty] added)
    fun n => pushSchemaDependency types n ty dependencies

theorem schemaDependencies_restores {ty : RustType ι}
    (hpushes : ∀ inner ∈ ty.pushed types, Pushes types E stack inner) :
    Restores stack E (Gathered types stack (ty.pushed types)) fun n =>
      schemaDependencies types (pushSchemaDependency types n) ty := by
  have hall : ∀ (done todo : List (RustType ι)) (dependencies : List Schema),
      Gathered types stack done dependencies → (∀ inner ∈ todo, Pushes types E stack inner) →
      Restores stack E (Gathered types stack (done ++ todo)) fun n =>
        todo.foldlM (fun dependencies inner => pushSchemaDependency types n inner dependencies)
          dependencies := by
    intro done todo
    induction todo generalizing done with
    | nil =>
      intro dependencies hdone _
      rw [List.append_nil]
      exact .pure hdone
    | cons inner todo ih =>
      intro dependencies hdone hpushes
      simp only [List.foldlM_cons]
      refine (hpushes inner (List.mem_cons_self ..) dependencies).bind ?_
      rintro pushed ⟨added, rfl, hadded⟩
      have hrest := ih (done ++ [inner]) _ (hdone.append hadded)
        fun inner hinner => hpushes inner (List.mem_cons_of_mem _ hinner)
      rw [List.append_assoc] at hrest
      exact hrest
  exact hall [] _ [] (.nil stack) hpushes

theorem withoutStack_restores {ty : RustType ι} (hacc : Acc (Unfolds types) ty)
    (hE : Panics types ty → E) :
    Restores stack E (HasShape types ty) fun n => withoutStack (tsType types n ty) := by
  have hsettled := RustType.tsType_settled (P := fun _ _ => True) (fun _ _ _ _ => trivial)
    (fun _ _ _ _ _ => trivial) (fun _ _ _ => trivial) hacc
  obtain ⟨N, r, -, hsettles⟩ := hsettled
  have hr : ∀ n ≥ N, (RustType.tsType types n ty).run = some r := hsettles
  refine ⟨N, (r, stack), ⟨rfl, ?_⟩, fun n hn => ?_⟩
  · cases r with
    | ok tsType => exact ⟨N, hr⟩
    | error error => exact hE ⟨error, N, hr⟩
  · show Option.map (·, stack) (RustType.tsType types n ty).run = _
    rw [hr n hn]
    rfl

theorem schemaWith_restores {ty : RustType ι} (hacc : Acc (Unfolds types) ty)
    (hE : Panics types ty → E)
    (hpushes : ∀ inner ∈ ty.pushed types, Pushes types E stack inner) :
    Restores stack E (fun schema => ∃ tsType dependencies,
      schema = .mk (ty.schemaName types) tsType dependencies ∧ HasShape types ty tsType ∧
        Gathered types stack (ty.pushed types) dependencies) fun n =>
      schemaWith types (pushSchemaDependency types n) n ty := by
  refine (withoutStack_restores hacc hE).bind fun tsType hshape => ?_
  refine (schemaDependencies_restores hpushes).bind fun dependencies hdependencies => .pure ?_
  exact ⟨tsType, dependencies, rfl, hshape, hdependencies⟩

theorem pushEntered_restores {ty : RustType ι} (hacc : Acc (Unfolds types) ty)
    (hE : Panics types ty → E)
    (hpushes : ∀ inner ∈ ty.pushed types, Pushes types E stack inner) (dependencies : List Schema) :
    Restores stack E (fun pushed => ∃ inner tsType own,
      pushed = dependencies ++ (inner ++ if ty.declared types then
        [.mk (ty.schemaName types) tsType own] else []) ∧
      HasShape types ty tsType ∧ Gathered types stack (ty.pushed types) inner ∧
      Gathered types stack (ty.pushed types) own) fun n =>
      pushEntered types (pushSchemaDependency types n) n ty dependencies := by
  refine (schemaDependencies_restores hpushes).bind fun inner hinner => ?_
  refine (schemaWith_restores hacc hE hpushes).bind ?_
  rintro schema ⟨tsType, own, rfl, hshape, hown⟩
  refine .pure ⟨inner, tsType, own, ?_, hshape, hinner, hown⟩
  rw [List.append_assoc]
  rfl

/-- To push a type that is entered on the stack is to push it below its own name. -/
theorem pushes_named (hunique : UniqueNames types) {ty : RustType ι}
    (hacc : Acc (Unfolds types) ty) (hE : Panics types ty → E) (hdeclared : ty.declared types = true)
    (hpushes : ty.schemaName types ∉ stack → ∀ inner ∈ ty.pushed types,
      Pushes types E (ty.schemaName types :: stack) inner) : Pushes types E stack ty := by
  intro dependencies
  apply Settles.of_succ
  by_cases hstack : ty.schemaName types ∈ stack
  · have hsame : ∀ n, (pushSchemaDependency types (n + 1) ty dependencies).run stack =
        some (.ok dependencies, stack) := by
      intro n
      unfold pushSchemaDependency
      dsimp only
      rw [if_pos (show hasDeclarationName (ty.schemaName types) = true from hdeclared)]
      show (if ty.schemaName types ∈ stack then _ else _ : WithStack _).run stack = _
      rw [if_pos hstack]
      rfl
    refine ⟨0, (.ok dependencies, stack), ⟨rfl, ?_⟩, fun n _ => hsame n⟩
    exact ⟨[], (List.append_nil _).symm, .on_stack hdeclared hstack⟩
  · obtain ⟨N, ⟨r, after⟩, ⟨hafter, hr⟩, hsettles⟩ :=
      pushEntered_restores hacc hE (hpushes hstack) dependencies
    obtain rfl : after = ty.schemaName types :: stack := hafter
    have hentered : ∀ n ≥ N,
        (pushEntered types (pushSchemaDependency types n) n ty dependencies).run
          (ty.schemaName types :: stack) = some (r, ty.schemaName types :: stack) := hsettles
    refine ⟨N, (r, stack), ⟨rfl, hr.imp ?_⟩, fun n hn => ?_⟩
    · rintro pushed ⟨inner, tsType, own, rfl, hshape, hinner, hown⟩
      rw [hdeclared]
      exact ⟨_, rfl, .named hunique hdeclared hshape hinner hown⟩
    · show (pushSchemaDependency types (n + 1) ty dependencies).run stack = _
      unfold pushSchemaDependency
      dsimp only
      rw [if_pos (show hasDeclarationName (ty.schemaName types) = true from hdeclared)]
      show (if ty.schemaName types ∈ stack then _ else _ : WithStack _).run stack = _
      rw [if_neg hstack]
      show ((pushEntered types (pushSchemaDependency types n) n ty dependencies).run
        (ty.schemaName types :: stack)).bind _ = _
      rw [hentered n hn]
      rfl

theorem pushes_unnamed {ty : RustType ι} (hacc : Acc (Unfolds types) ty)
    (hE : Panics types ty → E) (hdeclared : ty.declared types = false)
    (hpushes : ∀ inner ∈ ty.pushed types, Pushes types E stack inner) : Pushes types E stack ty := by
  intro dependencies
  apply Settles.of_succ
  have hentered := pushEntered_restores hacc hE hpushes dependencies
  have hsame : ∀ n, pushSchemaDependency types (n + 1) ty dependencies =
      pushEntered types (pushSchemaDependency types n) n ty dependencies := by
    intro n
    unfold pushSchemaDependency
    exact if_neg (Bool.eq_false_iff.mp hdeclared)
  simp only [hsame]
  refine Restores.imp hentered ?_
  rintro pushed ⟨inner, tsType, own, rfl, -, hinner, -⟩
  rw [hdeclared]
  refine ⟨inner, ?_, .unnamed hdeclared hinner⟩
  simp

/-- The second type is a field's type of the first, or of one below it. -/
def Reaches (types : ι → DerivedType ι) : RustType ι → RustType ι → Prop :=
  Relation.TransGen (Holds types)

/-- Neither the type nor any that it reaches is written out within itself. -/
def FinitelyWritten (types : ι → DerivedType ι) (ty : RustType ι) : Prop :=
  ∀ inner, inner = ty ∨ Reaches types ty inner → Acc (Unfolds types) inner

/-- The shape of the type panics, or that of a type it reaches. -/
def PanicsWithin (types : ι → DerivedType ι) (ty : RustType ι) : Prop :=
  ∃ inner, (inner = ty ∨ Reaches types ty inner) ∧ Panics types inner

theorem reaches_pushed {root ty inner : RustType ι} (h : ty = root ∨ Reaches types root ty)
    (hinner : inner ∈ ty.pushed types) : inner = root ∨ Reaches types root inner := by
  have hholds : Holds types ty inner := mem_pushed.mp hinner
  rcases h with rfl | h
  · exact .inr (.single hholds)
  · exact .inr (h.tail hholds)

/-- Pushing a type comes to an end: each name is entered once on a path, and between two names types
unfold. -/
theorem pushes (hunique : UniqueNames types) {names : Finset Str}
    (hnames : ∀ ty : RustType ι, ty.declared types = true → ty.schemaName types ∈ names)
    {root : RustType ι} (hfinite : FinitelyWritten types root) (stack : List Str) (ty : RustType ι)
    (hty : ty = root ∨ Reaches types root ty) : Pushes types (PanicsWithin types root) stack ty := by
  induction hleft : (names \ stack.toFinset).card using Nat.strong_induction_on
    generalizing stack ty with
  | _ left ih =>
    subst hleft
    have hnamed : ∀ ty : RustType ι, (ty = root ∨ Reaches types root ty) →
        ty.declared types = true → Pushes types (PanicsWithin types root) stack ty := by
      intro ty hty hdeclared
      refine pushes_named hunique (hfinite ty hty) (fun hpanics => ⟨ty, hty, hpanics⟩) hdeclared
        fun hstack inner hinner => ih _ ?_ _ inner (reaches_pushed hty hinner) rfl
      have hfewer : names \ (ty.schemaName types :: stack).toFinset ⊂ names \ stack.toFinset := by
        refine Finset.ssubset_iff_subset_ne.mpr ⟨fun name hname => ?_, fun heq => ?_⟩
        · simp only [Finset.mem_sdiff, List.mem_toFinset, List.mem_cons, not_or] at hname ⊢
          exact ⟨hname.1, hname.2.2⟩
        · have hmem : ty.schemaName types ∈ names \ stack.toFinset := by
            simp [hnames ty hdeclared, hstack]
          rw [← heq] at hmem
          simp at hmem
      exact Finset.card_lt_card hfewer
    induction hfinite ty hty with
    | intro ty hbelow ihu =>
      cases hdeclared : ty.declared types with
      | true => exact hnamed ty hty hdeclared
      | false =>
        refine pushes_unnamed (.intro ty hbelow) (fun hpanics => ⟨ty, hty, hpanics⟩) hdeclared
          fun inner hinner => ?_
        have hreached := reaches_pushed hty hinner
        cases hinnerDeclared : inner.declared types with
        | true => exact hnamed inner hreached hinnerDeclared
        | false => exact ihu inner (.inl ⟨hinnerDeclared, .inr hinner⟩) hreached

/-- With enough fuel, and from an empty stack, this is the type's schema. -/
def HasSchema (types : ι → DerivedType ι) (ty : RustType ι) (built : Schema) : Prop :=
  ∃ N, ∀ fuel ≥ N, (schema types fuel ty).run [] = some (.ok built, [])

/-- What is to hold of the schema of a type. -/
structure SchemaClosed (types : ι → DerivedType ι) (ty : RustType ι) : Prop where
  terminates : ∀ stack, ∃ N r, (∀ fuel ≥ N, (schema types fuel ty).run stack = some (r, stack)) ∧
    ((∃ built, r = .ok built) ∨ PanicsWithin types ty)
  complete : ∀ built, HasSchema types ty built → ∀ inner, Reaches types ty inner →
    inner.declared types = true → ∃ node ∈ schemaNodes built.dependencies,
      IsSchemaOf types node inner
  resolves : (∀ id, .named id = ty ∨ Reaches types ty (.named id) → (types id).Regular) →
    ∀ built, HasSchema types ty built → ∀ node ∈ built.nodes, ∀ name ∈ node.tsType.refs,
      (∃ dependency ∈ schemaNodes built.dependencies, dependency.name = name) ∨
        ∃ inner, (inner = ty ∨ Reaches types ty inner) ∧ name ∈ inner.texts types

private theorem leads_reaches {ty inner : RustType ι} (h : Leads types stack ty inner) :
    inner = ty ∨ Reaches types ty inner := by
  induction h with
  | here => exact .inl rfl
  | step _ hb _ ih =>
    have hholds := mem_pushed.mp hb
    rcases ih with rfl | ih
    · exact .inr (.single hholds)
    · exact .inr (.head hholds ih)

private theorem reaches_leads {ty inner : RustType ι} (h : Reaches types ty inner) :
    ∃ b ∈ ty.pushed types, Leads types [] b inner := by
  induction h using Relation.TransGen.head_induction_on with
  | single hb => exact ⟨_, mem_pushed.mpr hb, .here fun _ _ => List.not_mem_nil⟩
  | head hb _ ih =>
    obtain ⟨b', hb', hleads⟩ := ih
    exact ⟨_, mem_pushed.mpr hb, .step (fun _ _ => List.not_mem_nil) hb' hleads⟩

/-- A name that the shape of the type refers to is that of a type it reaches, or a text. -/
def RefersTo (types : ι → DerivedType ι) (ty : RustType ι) (name : Str) : Prop :=
  (∃ inner, Reaches types ty inner ∧ inner.declared types = true ∧
    inner.schemaName types = name) ∨
  ∃ inner, (inner = ty ∨ Reaches types ty inner) ∧ name ∈ inner.texts types

theorem RefersTo.of_reaches {ty inner : RustType ι} {name : Str}
    (hreaches : inner = ty ∨ Reaches types ty inner) (h : RefersTo types inner name) :
    RefersTo types ty name := by
  have htrans : ∀ c, Reaches types inner c → Reaches types ty c := by
    intro c hc
    rcases hreaches with rfl | hreaches
    · exact hc
    · exact hreaches.trans hc
  rcases h with ⟨c, hc, hdeclared, hname⟩ | ⟨c, hc, htext⟩
  · exact .inl ⟨c, htrans c hc, hdeclared, hname⟩
  · refine .inr ⟨c, ?_, htext⟩
    rcases hc with rfl | hc
    · exact hreaches
    · exact .inr (htrans c hc)

/-- A derived type in this place of the family is regular. -/
def RegularAt (types : ι → DerivedType ι) (ty : RustType ι) : Prop :=
  ∀ id, .named id = ty → (types id).Regular

theorem holds_of_references {ty inner : RustType ι} (hregular : RegularAt types ty)
    (h : inner ∈ ty.references types) : Holds types ty inner := by
  cases ty with
  | named id => exact .named ((hregular id rfl).shows_of_references h)
  | _ => exact mem_pushed.mp h

private theorem reaches_of_merges {ty inner : RustType ι} (hregular : RegularAt types ty)
    (h : inner ∈ ty.merges types) : Reaches types ty inner := by
  cases ty with
  | named id =>
    rcases (hregular id rfl).shows_of_merges h with hshows | hshows
    · exact .single (.named hshows)
    · exact .tail (.single (.named hshows)) .option
  | _ => cases h

theorem refersTo_of_shape {ty : RustType ι} (hacc : Acc (Unfolds types) ty)
    (hregular : ∀ inner, inner = ty ∨ Reaches types ty inner → RegularAt types inner)
    {tsType : TsType} (hshape : HasShape types ty tsType) {name : Str}
    (hname : name ∈ tsType.refs) : RefersTo types ty name := by
  -- Said of regular types only: `Unfolds` leads to types that `ty` does not reach otherwise.
  have hsettled := RustType.tsType_settled
    (P := fun inner name => (inner = ty ∨ Reaches types ty inner) → RefersTo types inner name)
    ?_ ?_ ?_ hacc
  · obtain ⟨N, hN⟩ := hshape
    exact hsettled.unique hN name hname (.inl rfl)
  · intro c inner hinner hdeclared hc
    exact .inl ⟨inner, .single (holds_of_references (hregular c hc) hinner), hdeclared, rfl⟩
  · intro c inner hinner name h hc
    have hreaches : Reaches types c inner := by
      rcases hinner with ⟨-, hinner⟩ | hinner
      · exact .single (holds_of_references (hregular c hc) hinner)
      · exact reaches_of_merges (hregular c hc) hinner
    refine (h ?_).of_reaches (.inr hreaches)
    rcases hc with rfl | hc
    · exact .inr hreaches
    · exact .inr (hc.trans hreaches)
  · intro c text htext _
    exact .inr ⟨c, .inl rfl, htext⟩

theorem schemaClosed (hunique : UniqueNames types) {names : Finset Str}
    (hnames : ∀ ty : RustType ι, ty.declared types = true → ty.schemaName types ∈ names)
    {ty : RustType ι} (hfinite : FinitelyWritten types ty) : SchemaClosed types ty := by
  have hbuilt : ∀ stack, Restores stack (PanicsWithin types ty) (fun schema => ∃ tsType dependencies,
      schema = .mk (ty.schemaName types) tsType dependencies ∧ HasShape types ty tsType ∧
        Gathered types stack (ty.pushed types) dependencies) fun n => schema types n ty := by
    intro stack
    refine schemaWith_restores (hfinite ty (.inl rfl)) (fun hpanics => ⟨ty, .inl rfl, hpanics⟩)
      fun inner hinner => ?_
    exact pushes hunique hnames hfinite stack inner (reaches_pushed (.inl rfl) hinner)
  have hgathered : ∀ built, HasSchema types ty built → ∃ tsType dependencies,
      built = .mk (ty.schemaName types) tsType dependencies ∧ HasShape types ty tsType ∧
        Gathered types [] (ty.pushed types) dependencies := by
    rintro built ⟨N, hN⟩
    exact ((hbuilt []).unique hN).2
  have hcomplete : ∀ built, HasSchema types ty built → ∀ inner, Reaches types ty inner →
      inner.declared types = true → ∃ node ∈ schemaNodes built.dependencies,
        IsSchemaOf types node inner := by
    intro built hbuilt inner hreaches hdeclared
    obtain ⟨tsType, dependencies, rfl, -, hgathered⟩ := hgathered built hbuilt
    obtain ⟨b, hb, hleads⟩ := reaches_leads hreaches
    exact hgathered.complete b hb inner hleads hdeclared
  refine ⟨fun stack => ?_, hcomplete, ?_⟩
  · obtain ⟨N, ⟨r, after⟩, ⟨hafter, hholds⟩, hsettles⟩ := hbuilt stack
    obtain rfl : after = stack := hafter
    refine ⟨N, r, hsettles, ?_⟩
    cases r with
    | ok built => exact .inl ⟨built, rfl⟩
    | error error => exact .inr hholds
  · intro hregular built hbuilt node hnode name hname
    have hshapes : ∀ inner, inner = ty ∨ Reaches types ty inner → ∀ tsType,
        HasShape types inner tsType → name ∈ tsType.refs → RefersTo types ty name := by
      intro inner hinner tsType hshape hname
      refine (refersTo_of_shape (hfinite inner hinner) ?_ hshape hname).of_reaches hinner
      intro c hc id hid
      subst hid
      refine hregular id ?_
      rcases hc with rfl | hc
      · exact hinner
      · rcases hinner with rfl | hinner
        · exact .inr hc
        · exact .inr (hinner.trans hc)
    have hrefers : RefersTo types ty name := by
      obtain ⟨tsType, dependencies, rfl, hshape, hgathered⟩ := hgathered built hbuilt
      rcases List.mem_cons.mp hnode with rfl | hnode
      · exact hshapes ty (.inl rfl) _ hshape hname
      · obtain ⟨b, hb, c, hleads, -, -, hshape⟩ := hgathered.sound node hnode
        have hreaches : c = ty ∨ Reaches types ty c := by
          rcases leads_reaches hleads with rfl | hreaches
          · exact .inr (.single (mem_pushed.mp hb))
          · exact .inr (.head (mem_pushed.mp hb) hreaches)
        exact hshapes c hreaches _ hshape hname
    rcases hrefers with ⟨inner, hreaches, hdeclared, rfl⟩ | htext
    · obtain ⟨dependency, hdependency, hof⟩ := hcomplete built hbuilt inner hreaches hdeclared
      exact .inl ⟨dependency, hdependency, hof.2.1⟩
    · exact .inr htext

private theorem unknown_undeclared : hasDeclarationName "unknown".toList = false := by decide

theorem named_of_declared {ty : RustType ι} (h : ty.declared types = true) :
    ty = .nativeBytes ∨ ∃ id, ty = .named id := by
  cases ty with
  | named id => exact .inr ⟨id, rfl⟩
  | nativeBytes => exact .inl rfl
  | _ =>
    have hunknown : hasDeclarationName "unknown".toList = true := h
    rw [unknown_undeclared] at hunknown
    cases hunknown

private theorem declared_mem_names {n : ℕ} (types : Fin n → DerivedType (Fin n)) {ty : RustType (Fin n)}
    (h : ty.declared types = true) : ty.schemaName types ∈
      insert "NativeBytes".toList (Finset.univ.image fun id => (types id).schemaName) := by
  rcases named_of_declared h with rfl | ⟨id, rfl⟩
  · exact Finset.mem_insert_self _ _
  · exact Finset.mem_insert_of_mem (Finset.mem_image_of_mem _ (Finset.mem_univ id))

theorem uniqueNames_of_injective (hnames : Function.Injective fun id => (types id).schemaName)
    (hbytes : ∀ id, (types id).schemaName ≠ "NativeBytes".toList) : UniqueNames types := by
  intro ty ty' hdeclared hdeclared' hsame
  rcases named_of_declared hdeclared with rfl | ⟨id, rfl⟩
  · rcases named_of_declared hdeclared' with rfl | ⟨id, rfl⟩
    · rfl
    · exact absurd hsame.symm (hbytes id)
  · rcases named_of_declared hdeclared' with rfl | ⟨id', rfl⟩
    · exact absurd hsame (hbytes id)
    · rw [hnames hsame]

/-- Where each derived type has a name and none merges another, types unfold to smaller ones only. -/
theorem unfolds_wellFounded (hdeclared : ∀ id, hasDeclarationName (types id).schemaName = true)
    (hmerges : ∀ id, (types id).merges = []) : WellFounded (Unfolds types) := by
  have hinner : ∀ ty inner, Unfolds types inner ty → (∀ id, inner ≠ .named id) ∧
      (inner ∈ ty.references types ∨ inner ∈ ty.pushed types) := by
    intro ty inner h
    rcases h with ⟨hundeclared, h⟩ | h
    · refine ⟨fun id hid => ?_, h⟩
      rw [hid] at hundeclared
      have := (hdeclared id).symm.trans hundeclared
      cases this
    · cases ty with
      | named id =>
        rw [show (named id).merges types = (types id).merges from rfl, hmerges id] at h
        cases h
      | _ => cases h
  have hacc : ∀ ty : RustType ι, (∀ id, ty ≠ .named id) → Acc (Unfolds types) ty := by
    intro ty
    induction hsize : sizeOf ty using Nat.strong_induction_on generalizing ty with
    | _ size ih =>
      intro hnot
      refine Acc.intro ty fun inner hunfolds => ?_
      obtain ⟨hinnerNot, hbelow⟩ := hinner ty inner hunfolds
      have hmem : inner ∈ ty.pushed types := by
        cases ty with
        | named id => exact absurd rfl (hnot id)
        | _ => exact hbelow.elim id id
      refine ih (sizeOf inner) ?_ inner rfl hinnerNot
      subst hsize
      cases ty with
      | named id => exact absurd rfl (hnot id)
      | option item | list item | fixedList item | map key item =>
        rw [List.mem_singleton.mp hmem]
        simp
        try omega
      | tuple items =>
        have := List.sizeOf_lt_of_mem (show inner ∈ items from hmem)
        simp
        omega
      | _ => cases hmem
  refine ⟨fun ty => Acc.intro ty fun inner hunfolds => ?_⟩
  exact hacc inner (hinner ty inner hunfolds).1

/-- For every family of derived types with unique schema names, the schema of a type is built, the
stack is given back, and the schemas it depends on are closed. -/
theorem schema_closed {n : ℕ} (types : Fin n → DerivedType (Fin n)) (hunique : UniqueNames types)
    (ty : RustType (Fin n)) (hfinite : FinitelyWritten types ty) : SchemaClosed types ty :=
  schemaClosed hunique (fun _ h => declared_mem_names types h) hfinite

/-- A field of the type, crossing both ways, with nothing said about it. -/
def plainField (name : Str) (ty : RustType ι) : SchemaField ι :=
  ⟨ty, false, false, ⟨name, name, []⟩, false, false, false, false, false, none, none, false⟩

def plainStruct (name : Str) (shape : SchemaShape ι) : DerivedType ι :=
  ⟨name, ⟨true, true⟩, none, none, false, false, .external, .struct shape⟩

/-- `struct Node { next: Option<Box<Node>>, leaves: Vec<Leaf> }` and
`struct Leaf { up: Option<Box<Node>> }`. -/
def nodes : Fin 2 → DerivedType (Fin 2)
  | 0 => plainStruct "Node".toList (.struct [plainField "next".toList (.option (.named 0)),
      plainField "leaves".toList (.list (.named 1))])
  | 1 => plainStruct "Leaf".toList (.struct [plainField "up".toList (.option (.named 0))])

theorem regular_plainStruct {name : Str} {fields : List (SchemaField ι)}
    (h : ∀ field ∈ fields, field.tsType = none) : (plainStruct name (.struct fields)).Regular where
  newtype described hdescribed field hnewtype := by
    cases List.mem_singleton.mp hdescribed
    cases hnewtype
  flattened described hdescribed field hfield _ _ := by
    cases List.mem_singleton.mp hdescribed
    exact h field hfield
  payload tag htag := by cases htag

private theorem nodes_regular : ∀ id, (nodes id).Regular
  | 0 => regular_plainStruct (by simp [plainField])
  | 1 => regular_plainStruct (by simp [plainField])

theorem nodes_reaches : ∀ id, Reaches nodes (.named 0) (.named id) := by
  have hshows : ∀ field ∈ [plainField "next".toList (.option (.named 0)),
      plainField "leaves".toList (.list (.named 1))], (nodes 0).Shows field.ty := by
    intro field hfield
    have hplain : field.crosses ⟨true, true⟩ = true ∧ field.tsType = none := by
      rcases List.mem_cons.mp hfield with rfl | hfield
      · exact ⟨rfl, rfl⟩
      · rw [List.mem_singleton.mp hfield]
        exact ⟨rfl, rfl⟩
    exact .field rfl rfl rfl hfield hplain.1 hplain.2
  have hnext := hshows _ (List.mem_cons_self ..)
  have hleaves := hshows _ (List.mem_cons_of_mem _ (List.mem_singleton_self _))
  intro id
  match id with
  | 0 => exact .tail (.single (.named hnext)) .option
  | 1 => exact .tail (.single (.named hleaves)) .list

private theorem hasSchema_nodes : ∃ built, HasSchema nodes (.named 0) built := by
  refine ⟨?_, 7, fun fuel hfuel => ?_⟩
  rotate_left
  · obtain ⟨n, rfl⟩ := Nat.exists_eq_add_of_le' hfuel
    rfl

/-- Both types have their schemas below that of `Node`, and every reference in it resolves. -/
theorem schema_closed_nodes : ∃ built, HasSchema nodes (.named 0) built ∧
    (∀ id, ∃ node ∈ schemaNodes built.dependencies, node.name = (nodes id).schemaName) ∧
    ∀ node ∈ built.nodes, ∀ name ∈ node.tsType.refs,
      ∃ dependency ∈ schemaNodes built.dependencies, dependency.name = name := by
  have hunique : UniqueNames nodes := uniqueNames_of_injective (by decide) (by decide)
  have hdeclared : ∀ id, hasDeclarationName (nodes id).schemaName = true := by decide
  have hmerges : ∀ id, (nodes id).merges = [] := by
    intro id
    match id with
    | 0 => rfl
    | 1 => rfl
  have htexts : ∀ ty, texts nodes ty = [] := by
    intro ty
    cases ty with
    | named id =>
      match id with
      | 0 => rfl
      | 1 => rfl
    | _ => rfl
  have hclosed : SchemaClosed nodes (.named 0) := schema_closed nodes hunique (.named 0)
    fun inner _ => (unfolds_wellFounded hdeclared hmerges).apply inner
  obtain ⟨built, hbuilt⟩ := hasSchema_nodes
  refine ⟨built, hbuilt, fun id => ?_, fun node hnode name hname => ?_⟩
  · obtain ⟨node, hnode, hof⟩ :=
      hclosed.complete built hbuilt (.named id) (nodes_reaches id) (hdeclared id)
    exact ⟨node, hnode, hof.2.1⟩
  · rcases hclosed.resolves (fun id _ => nodes_regular id) built hbuilt node hnode name hname with
      hresolves | ⟨inner, -, htext⟩
    · exact hresolves
    · rw [htexts inner] at htext
      cases htext

/-- `struct Event { #[rustts(type = "Date")] at: String }`. -/
def overriding : Fin 1 → DerivedType (Fin 1) := fun _ =>
  plainStruct "Event".toList
    (.struct [{ plainField "at".toList .string with tsType := some "Date".toList }])

/-- `struct Hider { #[serde(skip)] inner: Inner }` and `struct Inner`. -/
def omitting : Fin 2 → DerivedType (Fin 2)
  | 0 => plainStruct "Hider".toList (.struct [{ plainField "inner".toList (.named 1) with
      skipSerializing := true, skipDeserializing := true }])
  | 1 => plainStruct "Inner".toList .unit

/-- `struct Chain { #[serde(flatten)] rest: Option<Box<Chain>> }`. -/
def flattening : Fin 1 → DerivedType (Fin 1) := fun id =>
  plainStruct "Chain".toList
    (.struct [{ plainField "rest".toList (.option (.named id)) with flatten := true }])

/-- `#[rustts(name = "")] struct Chain { rest: Option<Box<Chain>> }`. -/
def nameless : Fin 1 → DerivedType (Fin 1) := fun id =>
  plainStruct [] (.struct [plainField "rest".toList (.option (.named id))])

/-- `struct Line { #[serde(flatten)] text: String }`. -/
def mismatching : Fin 1 → DerivedType (Fin 1) := fun _ =>
  plainStruct "Line".toList (.struct [{ plainField "text".toList .string with flatten := true }])

/-- `#[rustts(codec = "json")] struct Hidden(#[serde(skip)] Inner)` and `struct Inner`. -/
def skipping : Fin 2 → DerivedType (Fin 2)
  | 0 => plainStruct "Hidden".toList (.newtype { plainField "0".toList (.named 1) with
      skipSerializing := true, skipDeserializing := true })
  | 1 => plainStruct "Inner".toList .unit

/-- `struct Outer { #[serde(flatten)] #[rustts(type = "Rest")] rest: Rest }` and
`struct Rest { next: Option<Box<Rest>> }`. -/
def relabelling : Fin 2 → DerivedType (Fin 2)
  | 0 => plainStruct "Outer".toList (.struct [{ plainField "rest".toList (.named 1) with
      flatten := true, tsType := some "Rest".toList }])
  | 1 => plainStruct "Rest".toList (.struct [plainField "next".toList (.option (.named 1))])

private theorem flattening_tsType (fuel : ℕ) : tsType flattening fuel (.named 0) = none := by
  induction fuel with
  | zero => rfl
  | succ fuel ih =>
    show (((tsType flattening fuel (.named 0)) >>= _) >>= _) >>= _ = _
    rw [ih]
    rfl

private theorem nameless_tsType (fuel : ℕ) : tsType nameless fuel (.named 0) = none ∧
    tsType nameless fuel (.option (.named 0)) = none := by
  induction fuel with
  | zero => exact ⟨rfl, rfl⟩
  | succ fuel ih =>
    refine ⟨?_, ?_⟩
    · show (((tsType nameless fuel (.option (.named 0))) >>= _) >>= _) >>= _ = _
      rw [ih.2]
      rfl
    · show TsType.nullable <$> tsType nameless fuel (.named 0) = _
      rw [ih.1]
      rfl

/-- The schema of the type refers to a name, and holds no schemas. -/
def Dangles (types : ι → DerivedType ι) (ty : RustType ι) (name : Str) : Prop :=
  ∃ built, HasSchema types ty built ∧ name ∈ built.tsType.refs ∧ built.dependencies = []

/-- A text is no schema's name; a field that is skipped is not shown; a type that is written out
within itself has no schema, nor one that merges a text; a newtype refers to the type of a field that
is skipped, and a merged field with a text to what it merges, though they push nothing. -/
theorem schema_not_closed :
    (UniqueNames overriding ∧ Dangles overriding (.named 0) "Date".toList) ∧
    (UniqueNames omitting ∧ ∃ built, HasSchema omitting (.named 0) built ∧ built.dependencies = []) ∧
    (UniqueNames flattening ∧ ∀ fuel, (schema flattening fuel (.named 0)).run [] = none) ∧
    (UniqueNames nameless ∧ ∀ fuel, (schema nameless fuel (.named 0)).run [] = none) ∧
    (UniqueNames mismatching ∧ ∃ error, ∀ fuel ≥ 2,
      (schema mismatching fuel (.named 0)).run [] = some (.error error, [])) ∧
    (UniqueNames skipping ∧ Dangles skipping (.named 0) "Inner".toList) ∧
    (UniqueNames relabelling ∧ Dangles relabelling (.named 0) "Rest".toList) := by
  refine ⟨⟨?_, ?_⟩, ⟨?_, ?_⟩, ⟨?_, fun fuel => ?_⟩, ⟨?_, fun fuel => ?_⟩, ⟨?_, ?_⟩, ⟨?_, ?_⟩, ?_, ?_⟩
  · exact uniqueNames_of_injective (by decide) (by decide)
  · refine ⟨.mk "Event".toList (.object [.mk "at".toList (.typeRef "Date".toList) false]) [],
      ⟨1, fun fuel hfuel => ?_⟩, by decide, rfl⟩
    obtain ⟨n, rfl⟩ := Nat.exists_eq_add_of_le' hfuel
    rfl
  · exact uniqueNames_of_injective (by decide) (by decide)
  · refine ⟨.mk "Hider".toList (.object []) [], ⟨1, fun fuel hfuel => ?_⟩, rfl⟩
    obtain ⟨n, rfl⟩ := Nat.exists_eq_add_of_le' hfuel
    rfl
  · exact uniqueNames_of_injective (by decide) (by decide)
  · show (Option.map (·, []) (tsType flattening fuel (.named 0)).run).bind _ = none
    rw [flattening_tsType]
    rfl
  · exact uniqueNames_of_injective (by decide) (by decide)
  · show (Option.map (·, []) (tsType nameless fuel (.named 0)).run).bind _ = none
    rw [(nameless_tsType fuel).1]
    rfl
  · exact uniqueNames_of_injective (by decide) (by decide)
  · refine ⟨"serde flatten requires a TsSchema object or map type".toList, fun fuel hfuel => ?_⟩
    obtain ⟨n, rfl⟩ := Nat.exists_eq_add_of_le' hfuel
    rfl
  · exact uniqueNames_of_injective (by decide) (by decide)
  · refine ⟨.mk "Hidden".toList (.typeRef "Inner".toList) [], ⟨1, fun fuel hfuel => ?_⟩,
      by decide, rfl⟩
    obtain ⟨n, rfl⟩ := Nat.exists_eq_add_of_le' hfuel
    rfl
  · exact uniqueNames_of_injective (by decide) (by decide)
  · refine ⟨.mk "Outer".toList (.object [.mk "next".toList
      (.nullable (.typeRef "Rest".toList)) true]) [], ⟨3, fun fuel hfuel => ?_⟩, by decide, rfl⟩
    obtain ⟨n, rfl⟩ := Nat.exists_eq_add_of_le' hfuel
    rfl

end RustType

end RustTS.Contract
