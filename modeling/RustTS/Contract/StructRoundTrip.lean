import Mathlib.Data.List.Pairwise
import RustTS.Contract.Encode
import RustTS.Lib.Outcome

/-! A derived struct that is encoded and decoded again: which of its members come back, and that the
others have the values decoding gives them. -/
namespace RustTS.Contract

open LawfulOutcome

variable {T V : Type} {m : Type → Type} [Monad m] [MonadExcept JsError m] [LawfulOutcome JsError m]

theorem partner_of_mem {X Y : Type} {R : X → Y → Prop} {xs : List X} {ys : List Y}
    (h : List.Forall₂ R xs ys) {x : X} (hx : x ∈ xs) : ∃ y ∈ ys, R x y := by
  induction h with
  | nil => cases hx
  | @cons x' y xs ys hR _ ih =>
    rcases List.mem_cons.mp hx with rfl | hx
    · exact ⟨y, List.mem_cons_self, hR⟩
    · obtain ⟨y', hy', hR'⟩ := ih hx
      exact ⟨y', List.mem_cons_of_mem _ hy', hR'⟩

theorem mapErr_eq_pure {X : Type} {f : JsError → JsError} {x : m X} {a : X} :
    mapErr f x = pure a ↔ x = pure a := rethrow_eq_pure

private theorem encodeField_eq_pure {object object' : Props} {name : Str} {value : m JsValue} :
    encodeField object name value = pure object' ↔
      ∃ v, value = pure v ∧ object' = RankedEntries.define JsString.rank object (.ofText name) v := by
  unfold encodeField
  simp only [bind_eq_pure JsError, mapErr_eq_pure, pure_eq_pure (ε := JsError)]
  simp only [eq_comm]

theorem encodeItem_eq_pure {items items' : List JsValue} {index : Nat} {value : m JsValue} :
    encodeItem items index value = pure items' ↔ ∃ v, value = pure v ∧ items' = items ++ [v] := by
  unfold encodeItem
  simp only [bind_eq_pure JsError, mapErr_eq_pure, pure_eq_pure (ε := JsError)]
  simp only [eq_comm]

theorem jsText_eq_pure {string : JsString} {rust text : Str} :
    (jsText string rust : m Str) = pure text ↔ string.toText = some text := by
  unfold jsText
  cases string.toText with
  | none =>
    constructor
    · exact fun h => absurd h throw_ne_pure
    · exact fun h => by cases h
  | some other => rw [pure_eq_pure (ε := JsError), Option.some.injEq]

/-- Keys are refused unless they are all known. -/
theorem rejectUnknownFrom_eq_pure {known : List Str} {rust : Str} {props : Props} :
    (rejectUnknownFrom known rust props : m Unit) = pure () ↔
      ∀ p ∈ props, ∃ text ∈ known, p.1.toText = some text := by
  induction props with
  | nil => simp [rejectUnknownFrom]
  | cons p props ih =>
    obtain ⟨key, value⟩ := p
    rw [rejectUnknownFrom, List.forall_mem_cons, bind_eq_pure JsError, ← ih]
    simp only [jsText_eq_pure]
    constructor
    · rintro ⟨text, htext, hrest⟩
      split_ifs at hrest with hknown
      · exact ⟨⟨text, hknown, htext⟩, hrest⟩
      · exact absurd hrest throw_ne_pure
    · rintro ⟨⟨text, hknown, htext⟩, hrest⟩
      refine ⟨text, htext, ?_⟩
      rw [if_pos hknown]
      exact hrest

/-- A property is read under the first of its names, the only one the object has. -/
theorem fieldValue_eq_some {object : JsObject} {names : List Str} {name : Str} {value : JsValue}
    (hname : name ∈ names) (hvalue : object.props.lookup (.ofText name) = some value)
    (hpresent : value.isAbsent = false)
    (hothers : ∀ other ∈ names, other ≠ name →
      object.props.lookup (.ofText other) = none ∧ other ≠ "__proto__".toList) :
    fieldValue object names = some value := by
  induction names with
  | nil => cases hname
  | cons first names ih =>
    unfold fieldValue
    dsimp only
    by_cases hfirst : first = name
    · subst hfirst
      have hget : object.get first = value := by rw [JsObject.get, hvalue, Option.getD_some]
      rw [hget, hpresent, if_neg Bool.false_ne_true]
    · obtain ⟨hnone, hproto⟩ := hothers first List.mem_cons_self hfirst
      have hget : (object.get first).isAbsent = true := by
        rw [JsObject.get, hnone, Option.getD_none]
        exact Base.isAbsent_inherited (.inr hproto)
      rw [hget, if_pos rfl]
      have hmem : name ∈ names := (List.mem_cons.mp hname).resolve_left (Ne.symm hfirst)
      exact ih hmem fun other hother => hothers other (List.mem_cons_of_mem _ hother)

theorem fieldValue_eq_none {object : JsObject} {names : List Str}
    (h : ∀ name ∈ names, object.props.lookup (.ofText name) = none ∧ name ≠ "__proto__".toList) :
    fieldValue object names = none := by
  induction names with
  | nil => rfl
  | cons first names ih =>
    obtain ⟨hnone, hproto⟩ := h first List.mem_cons_self
    have hget : (object.get first).isAbsent = true := by
      rw [JsObject.get, hnone, Option.getD_none]
      exact Base.isAbsent_inherited (.inr hproto)
    unfold fieldValue
    dsimp only
    rw [hget, if_pos rfl]
    exact ih fun name hname => h name (List.mem_cons_of_mem _ hname)

section
variable (js : QuickJs) (encodeJs : T → V → m JsValue) (decodeJs : T → JsValue → m V)

/-- The fields that are written, each with its member. -/
def written (fields : List (Field T V)) (values : List V) : List (Field T V × V) :=
  (fields.zip values).filter fun p => p.1.writes p.2

/-- A property is what its field's member is encoded to. -/
def IsProperty (p : Field T V × V) (property : JsString × JsValue) : Prop :=
  property.1 = .ofText p.1.name.serialize ∧ encoder js encodeJs p.1 p.2 = pure property.2

omit [LawfulOutcome JsError m] in
private theorem written_cons {field : Field T V} {value : V} {fields : List (Field T V)} {values : List V} :
    written (field :: fields) (value :: values) =
      if field.writes value then (field, value) :: written fields values
      else written fields values := by
  unfold written
  rw [List.zip_cons_cons, List.filter_cons]

omit [LawfulOutcome JsError m] in
private theorem encodeFieldsInto_end {fields : List (Field T V)} {values : List V}
    (h : fields = [] ∨ values = []) (rust : Str) (object : Props) :
    encodeFieldsInto js encodeJs rust fields values object = pure object := by
  rcases h with rfl | rfl
  · cases values <;> rfl
  · cases fields <;> rfl

omit [LawfulOutcome JsError m] in
private theorem written_end {fields : List (Field T V)} {values : List V} (h : fields = [] ∨ values = []) :
    written fields values = [] := by
  rcases h with rfl | rfl
  · rfl
  · rw [written, List.zip_nil_right, List.filter_nil]

variable {js encodeJs decodeJs}

theorem encodeFieldsInto_end_eq_pure {fields : List (Field T V)} {values : List V}
    (h : fields = [] ∨ values = []) {rust : Str} {object props : Props} :
    encodeFieldsInto js encodeJs rust fields values object = pure props ↔
      ∃ properties, List.Forall₂ (IsProperty js encodeJs) (written fields values) properties ∧
        props = RankedEntries.defineAll JsString.rank object properties := by
  rw [encodeFieldsInto_end js encodeJs h, pure_eq_pure (ε := JsError), written_end h]
  constructor
  · rintro rfl
    exact ⟨[], .nil, rfl⟩
  · rintro ⟨properties, hproperties, rfl⟩
    cases hproperties
    rfl

/-- Without flattened fields, the members that are written become properties one after another. -/
theorem encodeFieldsInto_eq_pure (rust : Str) {fields : List (Field T V)} {values : List V}
    (object : Props) {props : Props} (hflat : ∀ field ∈ fields, field.flatten = false) :
    encodeFieldsInto js encodeJs rust fields values object = pure props ↔
      ∃ properties, List.Forall₂ (IsProperty js encodeJs) (written fields values) properties ∧
        props = RankedEntries.defineAll JsString.rank object properties := by
  induction fields generalizing values object with
  | nil => exact encodeFieldsInto_end_eq_pure (.inl rfl)
  | cons field fields ih =>
    cases values with
    | nil => exact encodeFieldsInto_end_eq_pure (.inr rfl)
    | cons value values =>
      have htail := fun f hf => hflat f (List.mem_cons_of_mem _ hf)
      rw [encodeFieldsInto, written_cons]
      by_cases hwrites : field.writes value = true
      · rw [hwrites, hflat field List.mem_cons_self]
        simp only [Bool.not_true, Bool.false_eq_true, if_false, if_true, bind_eq_pure JsError,
          encodeField_eq_pure]
        constructor
        · rintro ⟨_, ⟨v, hv, rfl⟩, hrest⟩
          obtain ⟨properties, hproperties, rfl⟩ := (ih _ htail).mp hrest
          exact ⟨(.ofText field.name.serialize, v) :: properties, .cons ⟨rfl, hv⟩ hproperties, rfl⟩
        · rintro ⟨properties, hproperties, rfl⟩
          cases hproperties with
          | @cons _ property _ properties hfirst hrest =>
            obtain ⟨key, v⟩ := property
            obtain ⟨rfl, hv⟩ := hfirst
            exact ⟨_, ⟨v, hv, rfl⟩, (ih _ htail).mpr ⟨properties, hrest, rfl⟩⟩
      · rw [Bool.not_eq_true] at hwrites
        rw [hwrites]
        simp only [Bool.not_false, if_true, Bool.false_eq_true, if_false]
        exact ih _ htail

/-- Whether what is written of a member is what decoding looks for. -/
def Field.reached (field : Field T V) (value : V) : Bool :=
  field.writes value && decide (field.name.serialize ∈ field.name.accepted)

variable (js encodeJs decodeJs) in
/-- Through the codec of the field a member comes back, and is not what reads as absent. -/
def Field.Carries (field : Field T V) (value : V) : Prop :=
  ∀ encoded, encoder js encodeJs field value = pure encoded →
    encoded.isAbsent = false ∧ decoder decodeJs field encoded = pure value

variable (decodeJs) in
/-- Whether decoding gives the member that encoding had: a member that does not cross has the value
decoding gives a missing one. -/
def Field.Keeps (field : Field T V) (value : V) (member : Option V) : Prop :=
  if field.skipDeserializing then defaultValue field member = value
  else if field.reached value then True
  else
    match defaultFn field member with
    | some default => default = value
    | none => decoder decodeJs field .undefined = pure value

variable (decodeJs) in
/-- Every member from the one at an index on is kept. -/
def KeepsFrom (scope : Scope V) : Nat → List (Field T V) → List V → Prop
  | _, [], [] => True
  | index, field :: fields, value :: values =>
    field.Keeps decodeJs value (scope.member index) ∧ KeepsFrom scope (index + 1) fields values
  | _, _, _ => False

variable (decodeJs) in
/-- An object has of a field what was written of its member. -/
def Reads (object : JsObject) (field : Field T V) (value : V) : Prop :=
  if field.reached value then
    ∃ encoded, fieldValue object field.name.accepted = some encoded ∧
      decoder decodeJs field encoded = pure value
  else fieldValue object field.name.accepted = none

theorem decodeStructField_eq_pure {object : JsObject} (rest : JsObject) {field : Field T V}
    {value : V} (member : Option V) (hflat : field.flatten = false)
    (hreads : field.skipDeserializing = false → Reads decodeJs object field value) :
    decodeStructField decodeJs object rest field member = pure value ↔
      field.Keeps decodeJs value member := by
  unfold decodeStructField Field.Keeps
  by_cases hskip : field.skipDeserializing = true
  · rw [if_pos hskip, if_pos hskip, pure_eq_pure (ε := JsError)]
  · have hread := hreads (by simpa using hskip)
    rw [if_neg hskip, if_neg hskip, if_neg (by simp [hflat])]
    unfold Reads at hread
    by_cases hreached : field.reached value = true
    · rw [if_pos hreached] at hread
      obtain ⟨encoded, hvalue, hdecoded⟩ := hread
      rw [if_pos hreached, iff_true]
      unfold decodeField decodeFieldOr
      rw [hvalue]
      cases defaultFn field member with
      | some default => exact mapErr_eq_pure.mpr hdecoded
      | none => exact mapErr_eq_pure.mpr hdecoded
    · rw [if_neg hreached] at hread
      rw [if_neg hreached]
      unfold decodeField decodeFieldOr
      rw [hread]
      cases defaultFn field member with
      | some default => exact pure_eq_pure (ε := JsError)
      | none => exact mapErr_eq_pure

theorem decodeMembers_eq_pure {scope : Scope V} {object : JsObject} (rest : JsObject)
    {fields : List (Field T V)} {values : List V} (index : Nat) (hlength : fields.length = values.length)
    (hreads : ∀ p ∈ fields.zip values, p.1.flatten = false ∧
      (p.1.skipDeserializing = false → Reads decodeJs object p.1 p.2)) :
    decodeMembers decodeJs scope object rest index fields = pure values ↔
      KeepsFrom decodeJs scope index fields values := by
  induction fields generalizing values index with
  | nil =>
    obtain rfl := List.length_eq_zero_iff.mp hlength.symm
    simp [decodeMembers, KeepsFrom]
  | cons field fields ih =>
    cases values with
    | nil => cases hlength
    | cons value values =>
      rw [List.zip_cons_cons, List.forall_mem_cons] at hreads
      have hfield := decodeStructField_eq_pure rest (scope.member index) hreads.1.1 hreads.1.2
      have hrest := ih (index + 1) (Nat.succ.inj hlength) hreads.2
      rw [KeepsFrom, ← hfield, ← hrest, decodeMembers, bind_eq_pure JsError]
      simp only [bind_eq_pure JsError, pure_eq_pure (ε := JsError), List.cons.injEq]
      constructor
      · rintro ⟨_, hvalue, _, hvalues, rfl, rfl⟩
        exact ⟨hvalue, hvalues⟩
      · rintro ⟨hvalue, hvalues⟩
        exact ⟨value, hvalue, values, hvalues, rfl, rfl⟩

/-- No name that is written for the one is read for the other, or written for it. -/
def Field.Apart (f g : Field T V) : Prop :=
  (f.skipSerializing = false → g.skipDeserializing = false →
    f.name.serialize ∉ g.name.accepted) ∧
  (g.skipSerializing = false → f.skipDeserializing = false →
    g.name.serialize ∉ f.name.accepted) ∧
  (f.skipSerializing = false → g.skipSerializing = false → f.name.serialize ≠ g.name.serialize)

/-- Fields that encoding and decoding tell from each other, and from what every object inherits. -/
structure NamesApart (fields : List (Field T V)) : Prop where
  flat : ∀ field ∈ fields, field.flatten = false
  apart : fields.Pairwise Field.Apart
  own : ∀ field ∈ fields, field.skipDeserializing = false → "__proto__".toList ∉ field.name.accepted

theorem Field.Apart.symm {f g : Field T V} (h : f.Apart g) : g.Apart f :=
  ⟨h.2.1, h.1, fun hg hf heq => h.2.2 hf hg heq.symm⟩

theorem not_skipped_of_writes {field : Field T V} {value : V} (h : field.writes value = true) :
    field.skipSerializing = false := by
  simp only [Field.writes, Bool.and_eq_true, Bool.not_eq_true'] at h
  exact h.1

theorem NamesApart.zip {fields : List (Field T V)} (h : NamesApart fields) {values : List V}
    (hlength : fields.length = values.length) :
    (fields.zip values).Pairwise fun p q => p.1.Apart q.1 := by
  have hfst : (fields.zip values).map Prod.fst = fields :=
    List.map_fst_zip (Nat.le_of_eq hlength)
  rw [← List.pairwise_map (f := Prod.fst) (R := Field.Apart), hfst]
  exact h.apart

omit [LawfulOutcome JsError m] in
theorem nodup_properties {fields : List (Field T V)} {values : List V} {properties : Props}
    (h : NamesApart fields) (hlength : fields.length = values.length)
    (hproperties : List.Forall₂ (IsProperty js encodeJs) (written fields values) properties) :
    (properties.map Prod.fst).Nodup := by
  have hwritten : (written fields values).Pairwise fun p q =>
      JsString.ofText p.1.name.serialize ≠ JsString.ofText q.1.name.serialize := by
    have hsub := (h.zip hlength).sublist (List.filter_sublist (p := fun p => p.1.writes p.2))
    refine hsub.imp_of_mem fun {p q} hp hq hapart heq => ?_
    have hpw := not_skipped_of_writes (List.mem_filter.mp hp).2
    have hqw := not_skipped_of_writes (List.mem_filter.mp hq).2
    exact hapart.2.2 hpw hqw (JsString.ofText_injective heq)
  have hkeys : properties.map Prod.fst =
      (written fields values).map fun p => JsString.ofText p.1.name.serialize := by
    generalize written fields values = pairs at hproperties
    induction hproperties with
    | nil => rfl
    | cons hp _ ih => rw [List.map_cons, List.map_cons, ih, hp.1]
  rw [hkeys, List.Nodup, List.pairwise_map]
  exact hwritten

omit [LawfulOutcome JsError m] in
/-- Of a field that decoding reads, an object has what was written of its member. -/
theorem reads_of_encoded {fields : List (Field T V)} {values : List V} {object properties : Props}
    (h : NamesApart fields) (hlength : fields.length = values.length)
    (hproperties : List.Forall₂ (IsProperty js encodeJs) (written fields values) properties)
    {p : Field T V × V} (hp : p ∈ fields.zip values) (hread : p.1.skipDeserializing = false)
    (hobject : ∀ name ∈ p.1.name.accepted, JsString.ofText name ∉ object.map Prod.fst)
    (hcarries : p.1.writes p.2 = true → p.1.Carries js encodeJs decodeJs p.2) :
    Reads decodeJs ⟨.plain, RankedEntries.defineAll JsString.rank object properties⟩ p.1 p.2 := by
  have hnodup := nodup_properties h hlength hproperties
  have hfield : p.1 ∈ fields := (List.of_mem_zip hp).1
  -- another field's property has none of the names this one is read under
  have howner : ∀ name ∈ p.1.name.accepted, ∀ e ∈ properties, e.1 = JsString.ofText name →
      p.1.writes p.2 = true ∧ name = p.1.name.serialize := by
    intro name hname e he hkey
    obtain ⟨q, hq, hqe⟩ := partner_of_mem hproperties.flip he
    have hwrites := (List.mem_filter.mp hq).2
    have hserialize : q.1.name.serialize = name := JsString.ofText_injective (hqe.1.symm.trans hkey)
    by_cases hsame : q = p
    · exact ⟨hsame ▸ hwrites, hsame ▸ hserialize.symm⟩
    · have hsymm : Std.Symm fun p q : Field T V × V => p.1.Apart q.1 :=
        ⟨fun _ _ => Field.Apart.symm⟩
      have hapart : q.1.Apart p.1 :=
        (h.zip hlength).forall (List.mem_of_mem_filter hq) hp hsame
      exact absurd (hserialize ▸ hname) (hapart.1 (not_skipped_of_writes hwrites) hread)
  have hnone : ∀ name ∈ p.1.name.accepted,
      ¬(p.1.writes p.2 = true ∧ name = p.1.name.serialize) →
      (RankedEntries.defineAll JsString.rank object properties).lookup (.ofText name) = none ∧
        name ≠ "__proto__".toList := by
    intro name hname hnot
    constructor
    · rw [RankedEntries.lookup_defineAll_of_not_mem, List.lookup_eq_none_iff]
      · intro e he
        have hne : JsString.ofText name ≠ e.1 := fun heq =>
          hobject name hname (heq ▸ List.mem_map_of_mem he)
        simpa using hne
      · intro hmem
        obtain ⟨e, he, hkey⟩ := List.mem_map.mp hmem
        exact hnot (howner name hname e he hkey)
    · rintro rfl
      exact h.own p.1 hfield hread hname
  unfold Reads
  by_cases hreached : p.1.reached p.2 = true
  · rw [if_pos hreached]
    obtain ⟨hwrites, hname⟩ : p.1.writes p.2 = true ∧ p.1.name.serialize ∈ p.1.name.accepted := by
      simpa [Field.reached] using hreached
    have hwritten : p ∈ written fields values := List.mem_filter.mpr ⟨hp, hwrites⟩
    obtain ⟨e, he, hkey, hencoded⟩ := partner_of_mem hproperties hwritten
    obtain ⟨hpresent, hdecoded⟩ := hcarries hwrites e.2 hencoded
    refine ⟨e.2, fieldValue_eq_some hname ?_ hpresent ?_, hdecoded⟩
    · rw [← hkey]
      exact RankedEntries.lookup_defineAll_of_mem object hnodup he
    · exact fun other hother hne => hnone other hother fun hsame => hne hsame.2
  · rw [if_neg hreached]
    apply fieldValue_eq_none
    intro name hname
    apply hnone name hname
    rintro ⟨hwrites, rfl⟩
    exact hreached (by simp [Field.reached, hwrites, hname])

/-- A struct with `deny_unknown_fields` knows all it writes. -/
def KnowsWritten (scope : Scope V) (fields : List (Field T V)) (values : List V) : Prop :=
  scope.denyUnknownFields = true →
    ∀ p ∈ written fields values, p.1.name.serialize ∈ ownKeys scope fields

/-- What the object had before is no field's: its keys are those the struct claims for its tag. -/
def HoldsTag (scope : Scope V) (fields : List (Field T V)) (object : Props) : Prop :=
  ∀ e ∈ object, ∃ tag ∈ scope.tag, e.1 = JsString.ofText tag ∧
    ∀ field ∈ fields, field.skipDeserializing = false → tag ∉ field.name.accepted

theorem rejectUnknown_eq_pure {scope : Scope V} {fields : List (Field T V)} {values : List V}
    {object properties : Props} (h : NamesApart fields) (hobject : HoldsTag scope fields object)
    (hproperties : List.Forall₂ (IsProperty js encodeJs) (written fields values) properties) :
    rejectUnknown scope fields
        ⟨.plain, RankedEntries.defineAll JsString.rank object properties⟩ = (pure () : m Unit) ↔
      KnowsWritten scope fields values := by
  have hflat : hasFlatten fields = false := by
    rw [hasFlatten, List.any_eq_false]
    exact fun field hfield => by simp [h.flat field hfield]
  unfold rejectUnknown KnowsWritten
  rw [hflat]
  by_cases hdeny : scope.denyUnknownFields = true
  · rw [hdeny]
    simp only [Bool.not_false, Bool.and_self, if_true, forall_const]
    rw [rejectUnknownFields, rejectUnknownFrom_eq_pure]
    constructor
    · intro hknown p hp
      obtain ⟨e, he, hkey, -⟩ := partner_of_mem hproperties hp
      have hmem : e.1 ∈ (RankedEntries.defineAll JsString.rank object properties).map Prod.fst :=
        RankedEntries.mem_keys_defineAll.mpr (.inl (List.mem_map_of_mem he))
      obtain ⟨b, hb, hfst⟩ := List.mem_map.mp hmem
      obtain ⟨text, htext, htoText⟩ := hknown b hb
      rw [hfst, hkey, JsString.toText_ofText] at htoText
      exact Option.some.inj htoText ▸ htext
    · intro hknown b hb
      rcases RankedEntries.mem_defineAll hb with hnew | hold
      · obtain ⟨p, hp, hkey, -⟩ := partner_of_mem hproperties.flip hnew
        exact ⟨p.1.name.serialize, hknown p hp, by rw [hkey, JsString.toText_ofText]⟩
      · obtain ⟨tag, htag, hkey, -⟩ := hobject b hold
        refine ⟨tag, ?_, by rw [hkey, JsString.toText_ofText]⟩
        unfold ownKeys
        exact List.mem_append_right _ (Option.mem_toList.mpr htag)
  · simp [hdeny]

/-- Named fields come back as they were exactly where each member is kept and each key known. -/
theorem decodeStruct_encoded (scope : Scope V) {rust : Str} {fields : List (Field T V)}
    {values : List V} {object props : Props} (h : NamesApart fields)
    (hlength : fields.length = values.length) (hobject : HoldsTag scope fields object)
    (hcarries : ∀ p ∈ fields.zip values, p.1.writes p.2 = true → p.1.skipDeserializing = false →
      p.1.Carries js encodeJs decodeJs p.2)
    (hencoded : encodeFieldsInto js encodeJs rust fields values object = pure props) :
    decodeStruct decodeJs scope fields (.object .plain props) = pure values ↔
      KeepsFrom decodeJs scope 0 fields values ∧ KnowsWritten scope fields values := by
  obtain ⟨properties, hproperties, rfl⟩ := (encodeFieldsInto_eq_pure rust object h.flat).mp hencoded
  have hreads : ∀ p ∈ fields.zip values, p.1.flatten = false ∧ (p.1.skipDeserializing = false →
      Reads decodeJs ⟨.plain, RankedEntries.defineAll JsString.rank object properties⟩ p.1 p.2) := by
    intro p hp
    have hfield : p.1 ∈ fields := (List.of_mem_zip hp).1
    refine ⟨h.flat p.1 hfield, fun hread => ?_⟩
    apply reads_of_encoded h hlength hproperties hp hread
    · intro name hname hin
      obtain ⟨e, he, hkey⟩ := List.mem_map.mp hin
      obtain ⟨tag, -, htag, hothers⟩ := hobject e he
      have hsame : name = tag := JsString.ofText_injective (hkey.symm.trans htag)
      exact hothers p.1 hfield hread (hsame ▸ hname)
    · exact fun hwrites => hcarries p hp hwrites hread
  have hflat : hasFlatten fields = false := by
    rw [hasFlatten, List.any_eq_false]
    exact fun field hfield => by simp [h.flat field hfield]
  rw [← rejectUnknown_eq_pure (m := m) h hobject hproperties,
    ← decodeMembers_eq_pure ⟨.plain, []⟩ 0 hlength hreads]
  unfold decodeStruct expectObject unclaimed
  rw [hflat]
  simp only [pure_bind, Bool.false_eq_true, if_false, bind_eq_pure JsError]
  constructor
  · rintro ⟨_, hreject, hmembers⟩
    exact ⟨hmembers, hreject⟩
  · rintro ⟨hmembers, hreject⟩
    exact ⟨(), hreject, hmembers⟩

variable (js encodeJs decodeJs) in
/-- Through the codec of the field a member comes back. -/
def Field.Returns (field : Field T V) (value : V) : Prop :=
  ∀ encoded, encoder js encodeJs field value = pure encoded →
    decoder decodeJs field encoded = pure value

/-- The skipped members of a tuple are the defaults of their types. -/
def SkipsDefaults (fields : List (Field T V)) (values : List V) : Prop :=
  ∀ p ∈ fields.zip values, p.1.skipDeserializing = true → defaultValue p.1 none = p.2

/-- The items of a tuple that both directions skip the same members of. -/
theorem decodeItems_encoded {fields : List (Field T V)} {values : List V} {items items' : List JsValue}
    (hlength : fields.length = values.length)
    (hskip : ∀ field ∈ fields, field.skipSerializing = field.skipDeserializing)
    (hreturns : ∀ p ∈ fields.zip values, p.1.skipSerializing = false →
      p.1.Returns js encodeJs decodeJs p.2)
    (hencoded : encodeTuple js encodeJs fields values items = pure items') :
    (∃ new, items' = items ++ new ∧
      new.length = (fields.filter fun field => !field.skipDeserializing).length) ∧
    (decodeItems decodeJs items' items.length fields = pure values ↔ SkipsDefaults fields values) := by
  induction fields generalizing values items with
  | nil =>
    obtain rfl := List.length_eq_zero_iff.mp hlength.symm
    rw [encodeTuple, pure_eq_pure (ε := JsError)] at hencoded
    · subst hencoded
      exact ⟨⟨[], (List.append_nil _).symm, rfl⟩, by simp [decodeItems, SkipsDefaults]⟩
    · exact fun _ _ _ _ h => by cases h
  | cons field fields ih =>
    cases values with
    | nil => cases hlength
    | cons value values =>
      rw [List.zip_cons_cons, List.forall_mem_cons] at hreturns
      rw [List.forall_mem_cons] at hskip
      have hdefaults : SkipsDefaults (field :: fields) (value :: values) ↔
          (field.skipDeserializing = true → defaultValue field none = value) ∧
            SkipsDefaults fields values := by
        unfold SkipsDefaults
        rw [List.zip_cons_cons, List.forall_mem_cons]
      rw [encodeTuple] at hencoded
      rw [hdefaults, decodeItems, List.filter_cons, ← hskip.1]
      by_cases hskipped : field.skipSerializing = true
      · rw [if_pos hskipped] at hencoded
        obtain ⟨hnew, hdecoded⟩ := ih (Nat.succ.inj hlength) hskip.2 hreturns.2 hencoded
        rw [← hdecoded, hskipped]
        refine ⟨hnew, ?_⟩
        simp only [if_true, forall_const, bind_eq_pure JsError, pure_eq_pure (ε := JsError),
          List.cons.injEq]
        constructor
        · rintro ⟨_, hvalues, rfl, rfl⟩
          exact ⟨rfl, hvalues⟩
        · rintro ⟨rfl, hvalues⟩
          exact ⟨values, hvalues, rfl, rfl⟩
      · rw [if_neg hskipped, bind_eq_pure JsError] at hencoded
        obtain ⟨_, hitem, hrest⟩ := hencoded
        obtain ⟨item, hvalue, rfl⟩ := encodeItem_eq_pure.mp hitem
        obtain ⟨⟨new, rfl, hnew⟩, hdecoded⟩ :=
          ih (Nat.succ.inj hlength) hskip.2 hreturns.2 hrest
        rw [List.length_append, List.length_singleton] at hdecoded
        rw [Bool.not_eq_true] at hskipped
        have hget : (items ++ [item] ++ new).getD items.length .undefined = item := by simp
        have hread : decodeItem (items ++ [item] ++ new) items.length (decoder decodeJs field) =
            pure value := by
          unfold decodeItem
          rw [hget]
          exact mapErr_eq_pure.mpr (hreturns.1 hskipped item hvalue)
        rw [← hdecoded, hskipped]
        refine ⟨⟨item :: new, by simp, by simp [hnew]⟩, ?_⟩
        simp only [Bool.false_eq_true, if_false, false_implies, true_and, hread, pure_bind,
          bind_eq_pure JsError, pure_eq_pure (ε := JsError), List.cons.injEq]
        constructor
        · rintro ⟨_, hvalues, rfl⟩
          exact hvalues
        · exact fun hvalues => ⟨values, hvalues, rfl⟩

/-- Shapes whose members encoding and decoding look for in the same places. -/
def Shape.Sound : Shape T V → Prop
  | .unit | .newtype _ => True
  | .tuple fields => ∀ field ∈ fields, field.skipSerializing = field.skipDeserializing
  | .struct fields => NamesApart fields

variable (js encodeJs decodeJs) in
/-- The members that cross come back through their codecs. -/
def Shape.Returns : Shape T V → List V → Prop
  | .unit, _ => True
  | .newtype field, values => ∀ value ∈ values, field.Returns js encodeJs decodeJs value
  | .tuple fields, values => ∀ p ∈ fields.zip values, p.1.skipSerializing = false →
    p.1.Returns js encodeJs decodeJs p.2
  | .struct fields, values => ∀ p ∈ fields.zip values, p.1.writes p.2 = true →
    p.1.skipDeserializing = false → p.1.Carries js encodeJs decodeJs p.2

variable (decodeJs) in
/-- The members that do not cross are those decoding gives. -/
def Shape.Keeps (scope : Scope V) : Shape T V → List V → Prop
  | .unit, _ | .newtype _, _ => True
  | .tuple fields, values => SkipsDefaults fields values
  | .struct fields, values => KeepsFrom decodeJs scope 0 fields values ∧ KnowsWritten scope fields values

/-- A shape comes back as it was exactly where it keeps the members that do not cross. -/
theorem decodePayload_encoded (scope : Scope V) {rust : Str} {shape : Shape T V} {values : List V}
    {value : JsValue} (hlength : shape.fields.length = values.length) (hsound : shape.Sound)
    (hreturns : shape.Returns js encodeJs decodeJs values)
    (hencoded : encodePayload js encodeJs rust shape values = pure value) :
    decodePayload decodeJs scope shape value = pure values ↔ shape.Keeps decodeJs scope values := by
  cases shape with
  | unit =>
    obtain rfl := List.length_eq_zero_iff.mp hlength.symm
    obtain rfl := pure_inj JsError hencoded
    rw [decodePayload, Shape.Keeps, iff_true]
    show (decodeUnit JsValue.null >>= _) = _
    rw [JsValue.null, decodeUnit, pure_bind]
  | newtype field =>
    obtain ⟨member, rfl⟩ := List.length_eq_one_iff.mp hlength.symm
    rw [encodePayload] at hencoded
    rw [decodePayload, hreturns member List.mem_cons_self value hencoded, pure_bind, Shape.Keeps,
      iff_true]
  | tuple fields =>
    rw [encodePayload, bind_eq_pure JsError] at hencoded
    obtain ⟨items, hitems, harray⟩ := hencoded
    obtain rfl := pure_inj JsError harray
    have hfields : fields.length = values.length := hlength
    obtain ⟨⟨new, hnew, hcount⟩, hdecoded⟩ := decodeItems_encoded hfields hsound hreturns hitems
    rw [List.nil_append] at hnew
    rw [Shape.Keeps, ← hdecoded, decodePayload, decodeTuple, expectArrayLen, hnew, if_pos hcount,
      pure_bind, List.length_nil]
  | struct fields =>
    rw [encodePayload, bind_eq_pure JsError] at hencoded
    obtain ⟨props, hprops, hobject⟩ := hencoded
    obtain rfl := pure_inj JsError hobject
    have hnone : HoldsTag scope fields [] := fun e he => by cases he
    exact decodeStruct_encoded scope hsound hlength hnone hreturns hprops

variable (js encodeJs decodeJs) in
/-- The members of a struct that cross come back through their codecs. -/
def StructDef.Returns (struct : StructDef T V) (values : List V) : Prop :=
  match struct.transparent with
  | some forwarded => ∀ value ∈ values[forwarded.val]?,
    (struct.shape.fields.get forwarded).Returns js encodeJs decodeJs value
  | none => struct.shape.Sound ∧ struct.shape.Returns js encodeJs decodeJs values

variable (decodeJs) in
/-- The members of a struct that do not cross are those decoding gives. -/
def StructDef.Keeps (struct : StructDef T V) (values : List V) : Prop :=
  match struct.transparent with
  | some forwarded => ∀ (index : Nat) (field : Field T V) (value : V),
    struct.shape.fields[index]? = some field → values[index]? = some value → index ≠ forwarded →
      defaultValue field none = value
  | none => struct.shape.Keeps decodeJs struct.scope values

theorem transparent_members {fields : List (Field T V)} {values : List V} {value : V}
    {forwarded : Nat} (hlength : fields.length = values.length)
    (hvalue : values[forwarded]? = some value) :
    (fields.mapIdx fun index field => if index = forwarded then value else defaultValue field none) =
        values ↔
      ∀ (index : Nat) (field : Field T V) (value : V), fields[index]? = some field →
        values[index]? = some value → index ≠ forwarded → defaultValue field none = value := by
  rw [List.ext_getElem?_iff]
  simp only [List.getElem?_mapIdx]
  constructor
  · intro h index field member hfield hmember hne
    have hindex := h index
    rw [hfield, hmember, Option.map_some, if_neg hne] at hindex
    exact Option.some.inj hindex
  · intro h index
    cases hfield : fields[index]? with
    | none =>
      have hend : fields.length ≤ index := List.getElem?_eq_none_iff.mp hfield
      rw [Option.map_none, List.getElem?_eq_none_iff.mpr (hlength ▸ hend)]
    | some field =>
      have hlt : index < values.length := hlength ▸ (List.getElem?_eq_some_iff.mp hfield).1
      rw [Option.map_some]
      by_cases hforwarded : index = forwarded
      · rw [if_pos hforwarded, hforwarded, hvalue]
      · rw [if_neg hforwarded, List.getElem?_eq_getElem hlt,
          h index field _ hfield (List.getElem?_eq_getElem hlt) hforwarded]

/-- A derived struct comes back from JavaScript as it was exactly where each member that does not
cross, be it skipped in one direction or left out by its condition, has the value decoding gives a
missing one, and no key is written that the struct refuses. -/
theorem StructDef.decodeBody_encoded (js : QuickJs) (encodeJs : T → V → m JsValue)
    (decodeJs : T → JsValue → m V) (struct : StructDef T V) (values : List V) (value : JsValue)
    (hlength : struct.shape.fields.length = values.length)
    (hreturns : struct.Returns js encodeJs decodeJs values)
    (hencoded : struct.encodeBody js encodeJs values = pure value) :
    struct.decodeBody decodeJs value = pure values ↔ struct.Keeps decodeJs values := by
  unfold StructDef.encodeBody at hencoded
  unfold StructDef.Returns at hreturns
  unfold StructDef.decodeBody StructDef.Keeps
  cases htransparent : struct.transparent with
  | none =>
    rw [htransparent] at hencoded hreturns
    exact decodePayload_encoded struct.scope hlength hreturns.1 hreturns.2 hencoded
  | some forwarded =>
    rw [htransparent] at hencoded hreturns
    dsimp only at hencoded hreturns ⊢
    cases hmember : values[forwarded.val]? with
    | none =>
      have hend := List.getElem?_eq_none_iff.mp hmember
      have hlt := forwarded.isLt
      omega
    | some member =>
      rw [hmember] at hencoded hreturns
      have hdecoded := hreturns member rfl value hencoded
      rw [StructDef.decodeTransparent, hdecoded, pure_bind, pure_eq_pure (ε := JsError)]
      exact transparent_members hlength hmember

/-- Members come back through JavaScript exactly where the struct keeps them; so no two kept values
of a struct share a JavaScript value. -/
theorem StructDef.comes_back_iff (js : QuickJs) (encodeJs : T → V → m JsValue)
    (decodeJs : T → JsValue → m V) (struct : StructDef T V) (values : List V) (value : JsValue)
    (hlength : struct.shape.fields.length = values.length)
    (hreturns : struct.Returns js encodeJs decodeJs values)
    (hencoded : struct.encodeBody js encodeJs values = pure value) :
    (struct.decodeBody decodeJs value = pure values ↔ struct.Keeps decodeJs values) ∧
    ∀ others : List V, struct.shape.fields.length = others.length →
      struct.Returns js encodeJs decodeJs others → struct.encodeBody js encodeJs others = pure value →
      struct.Keeps decodeJs values → struct.Keeps decodeJs others → others = values := by
  have hiff := StructDef.decodeBody_encoded js encodeJs decodeJs struct values value hlength hreturns
    hencoded
  constructor
  · exact hiff
  · intro others hlengths hreturns' hencoded' hkeeps hkeeps'
    have hback := (StructDef.decodeBody_encoded js encodeJs decodeJs struct others value hlengths
      hreturns' hencoded').mpr hkeeps'
    rw [hiff.mpr hkeeps] at hback
    exact (pure_inj JsError hback).symm

end

/-- A QuickJS whose objects keep their prototype. -/
def plainJs : QuickJs := ⟨makeNumber, fun object _ => .ok object⟩

def encodeText (_ : Unit) (text : Str) : Except JsError JsValue :=
  .ok (.primitive (.string (.ofText text)))

def decodeText (_ : Unit) : JsValue → Except JsError Str
  | .primitive (.string text) => jsText text "String".toList
  | value => .error (mismatch value.shape "String".toList "string".toList)

def textField (name : Str) (skipIf : Option (Str → Bool)) (default : Option (DefaultValue Str)) :
    Field Unit Str where
  ty := ()
  typeName := "String".toList
  traitDefault := []
  optionInner := none
  name := ⟨name, name, []⟩
  codec := .native
  flatten := false
  skipSerializing := false
  skipSerializingIf := skipIf
  skipDeserializing := false
  default := default

/-- A struct that leaves an empty note out, and reads a missing one as `none`. -/
def memo : StructDef Unit Str where
  rust := "Memo".toList
  denyUnknownFields := true
  containerDefault := none
  shape := .struct [textField "title".toList none none,
    textField "note".toList (some List.isEmpty) (some (.path "none".toList))]
  transparent := none

theorem textField_returns (name : Str) (skipIf : Option (Str → Bool))
    (default : Option (DefaultValue Str)) (text : Str) :
    (textField name skipIf default).Carries plainJs encodeText decodeText text := by
  intro encoded hencoded
  obtain rfl := Except.ok.inj hencoded
  exact ⟨rfl, jsText_eq_pure.mpr (JsString.toText_ofText text)⟩

theorem memo_fields {field : Field Unit Str} (h : field ∈ memo.shape.fields) :
    ∃ name skipIf default, field = textField name skipIf default ∧ name ≠ "__proto__".toList := by
  rcases List.mem_cons.mp h with rfl | h
  · exact ⟨_, _, _, rfl, by decide⟩
  · obtain rfl := List.mem_singleton.mp h
    exact ⟨_, _, _, rfl, by decide⟩

theorem memo_returns (values : List Str) : memo.Returns plainJs encodeText decodeText values := by
  refine ⟨⟨?_, ?_, ?_⟩, ?_⟩
  · intro field hfield
    obtain ⟨_, _, _, rfl, -⟩ := memo_fields hfield
    rfl
  · exact .cons (by simp [Field.Apart, textField, Name.accepted]) (.cons (by simp) .nil)
  · intro field hfield _
    obtain ⟨_, _, _, rfl, hname⟩ := memo_fields hfield
    simpa [textField, Name.accepted] using hname.symm
  · intro p hp _ _
    obtain ⟨_, _, _, hfield, -⟩ := memo_fields (List.of_mem_zip hp).1
    rw [hfield]
    exact textField_returns _ _ _ _

/-- A note comes back, and an empty one does not. -/
theorem memo_comes_back_iff :
    (∃ value, memo.encodeBody plainJs encodeText ["a".toList, "b".toList] = pure value ∧
      memo.decodeBody decodeText value = pure ["a".toList, "b".toList]) ∧
    ∃ value, memo.encodeBody plainJs encodeText ["a".toList, []] = pure value ∧
      memo.decodeBody decodeText value ≠ pure ["a".toList, []] := by
  refine ⟨⟨_, rfl, ?_⟩, ⟨_, rfl, ?_⟩⟩
  · refine (StructDef.comes_back_iff plainJs encodeText decodeText memo
      ["a".toList, "b".toList] _ rfl (memo_returns _) rfl).1.mpr ?_
    exact ⟨⟨trivial, trivial, trivial⟩, fun _ => by decide⟩
  · intro h
    have hkeeps := (StructDef.comes_back_iff plainJs encodeText decodeText memo
      ["a".toList, []] _ rfl (memo_returns _) rfl).1.mp h
    have hnote : "none".toList = ([] : Str) := hkeeps.1.2.1
    cases hnote

end RustTS.Contract
