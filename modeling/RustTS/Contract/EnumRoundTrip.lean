import RustTS.Contract.StructRoundTrip

/-! A variant of a derived enum that is encoded and decoded again, in the four serde
representations. -/
namespace RustTS.Contract

open LawfulOutcome

variable {T V : Type} {m : Type → Type} [Monad m] [MonadExcept JsError m] [LawfulOutcome JsError m]

theorem setProperty_eq_pure {js : QuickJs} {object object' : JsObject} {name : Str} {value : JsValue}
    (h : name ≠ "__proto__".toList) :
    setProperty js object name value = (pure object' : m JsObject) ↔
      object' = ⟨object.base, RankedEntries.define JsString.rank object.props (.ofText name) value⟩ := by
  unfold setProperty
  rw [if_neg h, pure_eq_pure (ε := JsError)]
  exact eq_comm

/-- The property of the tag. -/
def tagEntry (tag key : Str) : JsString × JsValue :=
  (.ofText tag, .primitive (.string (.ofText key)))

theorem taggedObject_eq_pure {js : QuickJs} {tag key : Str} {statements : JsObject → m JsObject}
    {value : JsValue} (h : tag ≠ "__proto__".toList) :
    taggedObject js tag key statements = pure value ↔
      ∃ object, statements ⟨.plain, [tagEntry tag key]⟩ = pure object ∧ value = object.toValue := by
  unfold taggedObject
  have hset : setProperty js ⟨.plain, []⟩ tag (.primitive (.string (.ofText key))) =
      (pure ⟨.plain, [tagEntry tag key]⟩ : m JsObject) := (setProperty_eq_pure h).mpr rfl
  rw [hset, pure_bind, bind_eq_pure JsError]
  simp only [pure_eq_pure (ε := JsError), eq_comm]

theorem tagField_eq {object : JsObject} {tag key rust : Str}
    (h : object.props.lookup (.ofText tag) = some (.primitive (.string (.ofText key)))) :
    tagField object tag rust = (pure key : m Str) := by
  have hvalue : fieldValue object [tag] = some (.primitive (.string (.ofText key))) := by
    apply fieldValue_eq_some List.mem_cons_self h rfl
    intro other hother hne
    exact absurd (List.mem_singleton.mp hother) hne
  unfold tagField requireField
  rw [hvalue]
  dsimp only
  rw [pure_bind, mapErr_eq_pure, variantName, jsText_eq_pure, JsString.toText_ofText]

/-- What is merged into an object with a tag is what the object has without it. -/
theorem objectWithout_merged {tag key : Str} {props : Props}
    (hranked : RankedEntries.Ranked JsString.rank props)
    (hkeys : ∀ e ∈ props, ∃ text, e.1 = .ofText text ∧ text ≠ tag) :
    objectWithout ⟨.plain, RankedEntries.defineAll JsString.rank [tagEntry tag key] props⟩ [tag] =
      (pure ⟨.plain, props⟩ : m JsObject) := by
  have hkeep : ∀ e ∈ props, decide (e.1 ≠ JsString.ofText tag) = true := by
    intro e he
    obtain ⟨text, hkey, hne⟩ := hkeys e he
    simpa [hkey] using fun heq => hne (JsString.ofText_injective heq)
  have hsingle : RankedEntries.Ranked JsString.rank [tagEntry tag key] := ⟨by simp, by simp⟩
  have hfilter : (RankedEntries.defineAll JsString.rank [tagEntry tag key] props).filter
      (fun e => decide (e.1 ≠ JsString.ofText tag)) = props := by
    rw [RankedEntries.filter_defineAll hsingle props fun k => decide (k ≠ JsString.ofText tag),
      List.filter_eq_self.mpr hkeep]
    have hdropped : [tagEntry tag key].filter (fun e => decide (e.1 ≠ JsString.ofText tag)) = [] := by
      simp [tagEntry]
    rw [hdropped, RankedEntries.defineAll_self hranked]
  have htexts : ∀ p ∈ RankedEntries.defineAll JsString.rank [tagEntry tag key] props,
      ∃ text, p.1.toText = some text ∧
        (decide (p.1 ≠ JsString.ofText tag) = true ↔ text ∉ [tag]) := by
    intro p hp
    have hkey : ∃ text, p.1 = JsString.ofText text := by
      rcases RankedEntries.mem_defineAll hp with hnew | hold
      · obtain ⟨text, hkey, -⟩ := hkeys p hnew
        exact ⟨text, hkey⟩
      · exact ⟨tag, by rw [List.mem_singleton.mp hold, tagEntry]⟩
    obtain ⟨text, hkey⟩ := hkey
    refine ⟨text, by rw [hkey, JsString.toText_ofText], ?_⟩
    rw [hkey, decide_eq_true_iff, List.mem_singleton]
    exact not_congr ⟨fun h => JsString.ofText_injective h, congrArg _⟩
  unfold objectWithout
  rw [copyWithout_eq (fun k => decide (k ≠ JsString.ofText tag)) htexts, pure_bind, hfilter,
    RankedEntries.defineAll_self hranked]

private theorem externalVariant_single (key : Str) (payload : JsValue) (rust : Str) :
    externalVariant (.object .plain [(.ofText key, payload)]) rust =
      (pure (key, some payload) : m (Str × Option JsValue)) := by
  have hobject : externalVariant (.object .plain [(.ofText key, payload)]) rust = (do
      let name ← jsText (.ofText key) rust
      pure (name, some payload) : m (Str × Option JsValue)) := by
    show (expectObject (.object .plain [(.ofText key, payload)]) rust >>= _) = _
    rw [expectObject, pure_bind]
  rw [hobject, jsText_eq_pure.mpr (JsString.toText_ofText key), pure_bind]

theorem arm_eq_pure {ident : Str} {members : m (List V)} {values : List V}
    {f : JsError → JsError} :
    (do
      let members ← mapErr f members
      pure (ident, members)) = (pure (ident, values) : m (Str × List V)) ↔ members = pure values := by
  rw [bind_eq_pure JsError]
  simp only [mapErr_eq_pure, pure_eq_pure (ε := JsError), Prod.mk.injEq, true_and]
  constructor
  · rintro ⟨_, hmembers, rfl⟩
    exact hmembers
  · exact fun hmembers => ⟨values, hmembers, rfl⟩

section
variable (js : QuickJs) (encodeJs : T → V → m JsValue) (decodeJs : T → JsValue → m V)

/-- A member is written as an object that leaves the tag out, and comes back from it. -/
def Field.Merges (tag : Str) (field : Field T V) (value : V) : Prop :=
  ∀ encoded, encoder js encodeJs field value = pure encoded →
    ∃ props, encoded = .object .plain props ∧ RankedEntries.Ranked JsString.rank props ∧
      (∀ e ∈ props, ∃ text, e.1 = JsString.ofText text ∧ text ≠ tag) ∧
      decoder decodeJs field encoded = pure value

/-- Named fields that leave the tag out. -/
def Shape.LeavesOut (tag : Str) : Shape T V → Prop
  | .unit | .newtype _ => True
  | .tuple _ => False
  | .struct fields => ∀ field ∈ fields, tag ∉ field.name.accepted ∧ tag ≠ field.name.serialize

namespace EnumDef

variable (enum : EnumDef T V)

/-- The members of a variant that cross come back through their codecs. -/
def Returns (variant : Variant T V) (values : List V) : Prop :=
  match enum.tagging, variant.shape with
  | .internal tag, .newtype field => ∀ value ∈ values, field.Merges js encodeJs decodeJs tag value
  | .adjacent .., .newtype field => ∀ value ∈ values, field.Carries js encodeJs decodeJs value
  | _, shape => shape.Sound ∧ shape.Returns js encodeJs decodeJs values

/-- An untagged value that a variant does not decode. -/
def Refuses (variant : Variant T V) (value : JsValue) : Prop :=
  match variant.shape with
  | .unit => asOk (decodeUnit value) = (pure none : m (Option Unit))
  | _ => asOk (enum.decodeHelper decodeJs variant value) = pure none

/-- A value that is told to be the variant's: by the name it has, which is read as the variant
alone, or because no variant before accepts it. -/
def Tells (variant : Variant T V) (value : JsValue) : Prop :=
  let named := enum.variantOf variant.name.serialize = some variant
  match enum.tagging with
  | .external => named ∧ variant.name.serialize ≠ "__proto__".toList
  | .internal tag => named ∧ tag ≠ "__proto__".toList ∧ variant.shape.LeavesOut tag
  | .adjacent tag content =>
    named ∧ tag ≠ "__proto__".toList ∧ content ≠ "__proto__".toList ∧ tag ≠ content
  | .untagged => ∃ before after, enum.decoded = before ++ variant :: after ∧
    ∀ other ∈ before, enum.Refuses decodeJs other value

variable {js encodeJs decodeJs enum} {variant : Variant T V} {values : List V} {value : JsValue}

theorem decodeExternal_encoded (htagging : enum.tagging = .external)
    (hlength : variant.shape.fields.length = values.length)
    (hreturns : enum.Returns js encodeJs decodeJs variant values)
    (htells : enum.Tells decodeJs variant value)
    (hencoded : enum.encodeVariant js encodeJs variant values = pure value) :
    enum.decodeExternal (enum.decodeHelper decodeJs) value = pure (variant.ident, values) ↔
      variant.shape.Keeps decodeJs enum.scope values := by
  unfold Returns at hreturns
  unfold Tells at htells
  unfold encodeVariant at hencoded
  rw [htagging] at hreturns htells hencoded
  obtain ⟨hnamed, hproto⟩ := htells
  unfold decodeExternal
  cases hshape : variant.shape with
  | unit =>
    rw [hshape] at hlength hencoded
    obtain rfl := List.length_eq_zero_iff.mp hlength.symm
    obtain rfl := pure_inj JsError hencoded
    rw [externalVariant, jsText_eq_pure.mpr (JsString.toText_ofText _), pure_bind, pure_bind]
    dsimp only
    rw [hnamed]
    dsimp only
    unfold externalArm
    rw [hshape, Shape.Keeps, iff_true]
    dsimp only
    rw [unitPayload, mapErr_eq_pure.mpr rfl, pure_bind]
  | newtype | tuple | struct =>
    rw [hshape] at hlength hreturns hencoded
    dsimp only at hencoded
    rw [bind_eq_pure JsError] at hencoded
    obtain ⟨payload, hpayload, hobject⟩ := hencoded
    obtain ⟨object, hset, hvalue⟩ := (bind_eq_pure JsError).mp hobject
    obtain rfl := (setProperty_eq_pure hproto).mp hset
    obtain rfl := pure_inj JsError hvalue
    have hdecoded := decodePayload_encoded enum.scope hlength hreturns.1 hreturns.2 hpayload
    rw [← hdecoded]
    have hsplit : externalVariant
        (JsObject.toValue ⟨.plain, RankedEntries.define JsString.rank []
          (.ofText variant.name.serialize) payload⟩) enum.rust =
        (pure (variant.name.serialize, some payload) : m (Str × Option JsValue)) :=
      externalVariant_single _ payload enum.rust
    rw [hsplit, pure_bind]
    dsimp only
    rw [hnamed]
    dsimp only
    unfold externalArm
    rw [hshape]
    dsimp only
    rw [variantPayload, pure_bind, arm_eq_pure, decodeHelper, hshape]

theorem decodeInternal_encoded {tag : Str} (htagging : enum.tagging = .internal tag)
    (hlength : variant.shape.fields.length = values.length)
    (hreturns : enum.Returns js encodeJs decodeJs variant values)
    (htells : enum.Tells decodeJs variant value)
    (hencoded : enum.encodeVariant js encodeJs variant values = pure value) :
    enum.decodeInternal (enum.decodeHelper decodeJs) tag value = pure (variant.ident, values) ↔
      variant.shape.Keeps decodeJs enum.scope values := by
  unfold Returns at hreturns
  unfold Tells at htells
  unfold encodeVariant at hencoded
  rw [htagging] at hreturns htells hencoded
  obtain ⟨hnamed, hproto, hleaves⟩ := htells
  dsimp only at hencoded
  obtain ⟨object, hobject, rfl⟩ := (taggedObject_eq_pure hproto).mp hencoded
  have hscope : enum.scope.tag = some tag := by rw [EnumDef.scope, htagging]
  -- the tag is read from what the statements leave of it
  have hdecode (props : Props) (htag : props.lookup (.ofText tag) =
      some (.primitive (.string (.ofText variant.name.serialize)))) :
      enum.decodeInternal (enum.decodeHelper decodeJs) tag (.object .plain props) =
        internalArm (enum.decodeHelper decodeJs) tag ⟨.plain, props⟩ variant := by
    unfold decodeInternal
    rw [expectObject, pure_bind, tagField_eq htag, pure_bind, hnamed]
  cases hshape : variant.shape with
  | unit =>
    rw [hshape] at hlength hobject
    obtain rfl := List.length_eq_zero_iff.mp hlength.symm
    have hpure : object = ⟨.plain, [tagEntry tag variant.name.serialize]⟩ := by
      have hsame := pure_inj JsError (hobject.symm.trans (pure_bind _ _))
      exact hsame
    rw [hpure, JsObject.toValue, hdecode _ (by simp [tagEntry]), internalArm, hshape, Shape.Keeps,
      iff_true]
  | newtype field =>
    rw [hshape] at hlength hreturns hobject
    obtain ⟨member, rfl⟩ := List.length_eq_one_iff.mp hlength.symm
    dsimp only at hobject
    obtain ⟨source, hsource, hmerge⟩ := (bind_eq_pure JsError).mp hobject
    obtain ⟨props, rfl, hranked, hkeys, hdecoded⟩ := hreturns member List.mem_cons_self source hsource
    rw [mergeObject, pure_bind] at hmerge
    obtain rfl := pure_inj JsError hmerge
    have habsent : JsString.ofText tag ∉ props.map Prod.fst := by
      intro hmem
      obtain ⟨e, he, hkey⟩ := List.mem_map.mp hmem
      obtain ⟨text, htext, hne⟩ := hkeys e he
      exact hne (JsString.ofText_injective (htext.symm.trans hkey))
    have htag : (RankedEntries.defineAll JsString.rank [tagEntry tag variant.name.serialize]
        props).lookup (.ofText tag) =
        some (.primitive (.string (.ofText variant.name.serialize))) := by
      rw [RankedEntries.lookup_defineAll_of_not_mem _ habsent]
      simp [tagEntry]
    rw [JsObject.toValue, hdecode _ htag, internalArm, hshape, Shape.Keeps, iff_true]
    dsimp only
    rw [objectWithout_merged hranked hkeys, pure_bind, decodeHelper, hshape, decodePayload,
      JsObject.toValue, hdecoded, pure_bind, pure_bind]
  | tuple fields =>
    rw [hshape] at hleaves
    exact absurd hleaves id
  | struct fields =>
    rw [hshape] at hlength hreturns hobject hleaves
    obtain ⟨hsound, hreturn⟩ := hreturns
    dsimp only at hobject
    obtain ⟨props, hprops, hpure⟩ := (bind_eq_pure JsError).mp hobject
    obtain rfl := pure_inj JsError hpure
    obtain ⟨properties, hproperties, rfl⟩ := (encodeFieldsInto_eq_pure enum.rust _ hsound.flat).mp hprops
    have hholds : HoldsTag enum.scope fields [tagEntry tag variant.name.serialize] := by
      intro e he
      obtain rfl := List.mem_singleton.mp he
      exact ⟨tag, hscope, rfl, fun field hfield _ => (hleaves field hfield).1⟩
    have habsent : JsString.ofText tag ∉ properties.map Prod.fst := by
      intro hmem
      obtain ⟨e, he, hkey⟩ := List.mem_map.mp hmem
      obtain ⟨p, hp, hserialize, -⟩ := partner_of_mem hproperties.flip he
      have hfield := (List.of_mem_zip (List.mem_of_mem_filter hp)).1
      exact (hleaves p.1 hfield).2 (JsString.ofText_injective (hkey.symm.trans hserialize))
    have htag : (RankedEntries.defineAll JsString.rank [tagEntry tag variant.name.serialize]
        properties).lookup (.ofText tag) =
        some (.primitive (.string (.ofText variant.name.serialize))) := by
      rw [RankedEntries.lookup_defineAll_of_not_mem _ habsent]
      simp [tagEntry]
    have hdecoded := decodeStruct_encoded enum.scope hsound hlength hholds hreturn hprops
    rw [JsObject.toValue, hdecode _ htag, internalArm, hshape, Shape.Keeps, ← hdecoded]
    dsimp only
    rw [decodeHelper, hshape, decodePayload, JsObject.toValue, bind_eq_pure JsError]
    simp only [pure_eq_pure (ε := JsError), Prod.mk.injEq, true_and]
    constructor
    · rintro ⟨_, hmembers, rfl⟩
      exact hmembers
    · exact fun hmembers => ⟨values, hmembers, rfl⟩

/-- The object of an adjacently tagged variant with content. -/
def contentObject (tag content key : Str) (payload : JsValue) : JsObject :=
  ⟨.plain, RankedEntries.define JsString.rank [tagEntry tag key] (.ofText content) payload⟩

private theorem rejectOthers_contentObject {tag content key : Str} {payload : JsValue} :
    enum.rejectOthers tag content (contentObject tag content key payload) = (pure () : m Unit) := by
  unfold rejectOthers
  split_ifs
  · rw [rejectUnknownFields, rejectUnknownFrom_eq_pure]
    intro p hp
    rcases RankedEntries.mem_define hp with rfl | hp
    · exact ⟨content, by simp, JsString.toText_ofText content⟩
    · obtain rfl := List.mem_singleton.mp hp
      exact ⟨tag, by simp, JsString.toText_ofText tag⟩
  · rfl

theorem decodeAdjacent_contentObject {tag content : Str} {payload : JsValue}
    (hnamed : enum.variantOf variant.name.serialize = some variant) (hne : tag ≠ content) :
    enum.decodeAdjacent (enum.decodeHelper decodeJs) tag content
        (contentObject tag content variant.name.serialize payload).toValue =
      enum.adjacentArm (enum.decodeHelper decodeJs) content
        (contentObject tag content variant.name.serialize payload) variant := by
  have hkeys : JsString.ofText tag ≠ JsString.ofText content := fun heq =>
    hne (JsString.ofText_injective heq)
  have htag : (contentObject tag content variant.name.serialize payload).props.lookup (.ofText tag) =
      some (.primitive (.string (.ofText variant.name.serialize))) := by
    unfold contentObject
    rw [RankedEntries.lookup_define, if_neg hkeys]
    simp [tagEntry]
  have hobject : expectObject (contentObject tag content variant.name.serialize payload).toValue
      enum.rust = (pure (contentObject tag content variant.name.serialize payload) : m JsObject) := rfl
  unfold decodeAdjacent
  rw [hobject, pure_bind, rejectOthers_contentObject, pure_bind, tagField_eq htag, pure_bind, hnamed]

theorem fieldValue_contentObject {tag content key : Str} {payload : JsValue}
    (h : payload.isAbsent = false) :
    fieldValue (contentObject tag content key payload) [content] = some payload := by
  apply fieldValue_eq_some List.mem_cons_self
  · unfold contentObject
    rw [RankedEntries.lookup_define, if_pos rfl]
  · exact h
  · intro other hother hne
    exact absurd (List.mem_singleton.mp hother) hne

theorem decodeAdjacent_encoded {tag content : Str} (htagging : enum.tagging = .adjacent tag content)
    (hlength : variant.shape.fields.length = values.length)
    (hreturns : enum.Returns js encodeJs decodeJs variant values)
    (htells : enum.Tells decodeJs variant value)
    (hencoded : enum.encodeVariant js encodeJs variant values = pure value) :
    enum.decodeAdjacent (enum.decodeHelper decodeJs) tag content value = pure (variant.ident, values) ↔
      variant.shape.Keeps decodeJs enum.scope values := by
  unfold Returns at hreturns
  unfold Tells at htells
  unfold encodeVariant at hencoded
  rw [htagging] at hreturns htells hencoded
  obtain ⟨hnamed, hproto, hcontent, hne⟩ := htells
  dsimp only at hencoded
  obtain ⟨object, hobject, rfl⟩ := (taggedObject_eq_pure hproto).mp hencoded
  have hkeys : JsString.ofText tag ≠ JsString.ofText content := fun heq =>
    hne (JsString.ofText_injective heq)
  cases hshape : variant.shape with
  | unit =>
    rw [hshape] at hlength hobject
    obtain rfl := List.length_eq_zero_iff.mp hlength.symm
    have hpure : ⟨.plain, [tagEntry tag variant.name.serialize]⟩ = object :=
      pure_inj JsError hobject
    subst hpure
    have hreject : enum.rejectOthers tag content
        ⟨.plain, [tagEntry tag variant.name.serialize]⟩ = (pure () : m Unit) := by
      unfold rejectOthers
      split_ifs
      · rw [rejectUnknownFields, rejectUnknownFrom_eq_pure]
        intro p hp
        obtain rfl := List.mem_singleton.mp hp
        exact ⟨tag, by simp, JsString.toText_ofText tag⟩
      · rfl
    have hnone : fieldValue ⟨.plain, [tagEntry tag variant.name.serialize]⟩ [content] = none := by
      apply fieldValue_eq_none
      intro name hname
      obtain rfl := List.mem_singleton.mp hname
      refine ⟨?_, hcontent⟩
      rw [RankedEntries.lookup_cons_of_ne hkeys.symm, List.lookup_nil]
    have htag : [tagEntry tag variant.name.serialize].lookup (.ofText tag) =
        some (.primitive (.string (.ofText variant.name.serialize))) := by simp [tagEntry]
    unfold decodeAdjacent
    rw [JsObject.toValue, expectObject, pure_bind, hreject, pure_bind, tagField_eq htag, pure_bind,
      hnamed, Shape.Keeps, iff_true]
    dsimp only
    unfold adjacentArm
    rw [hshape]
    dsimp only
    rw [hnone, unitPayload, mapErr_eq_pure.mpr rfl, pure_bind]
  | newtype field =>
    rw [hshape] at hlength hreturns hobject
    dsimp only at hobject
    obtain ⟨payload, hpayload, hset⟩ := (bind_eq_pure JsError).mp hobject
    obtain rfl := (setProperty_eq_pure hcontent).mp hset
    obtain ⟨member, rfl⟩ := List.length_eq_one_iff.mp hlength.symm
    rw [encodePayload] at hpayload
    obtain ⟨hpresent, hdecoded⟩ := hreturns member List.mem_cons_self payload hpayload
    show enum.decodeAdjacent (enum.decodeHelper decodeJs) tag content
      (contentObject tag content variant.name.serialize payload).toValue = _ ↔ _
    rw [decodeAdjacent_contentObject hnamed hne, Shape.Keeps, iff_true]
    unfold adjacentArm decodeField
    rw [hshape]
    dsimp only
    rw [fieldValue_contentObject hpresent]
    dsimp only
    rw [arm_eq_pure, decodeHelper, hshape, decodePayload, hdecoded, pure_bind]
  | tuple | struct =>
    rw [hshape] at hlength hreturns hobject
    obtain ⟨hsound, hreturn⟩ := hreturns
    dsimp only at hobject
    obtain ⟨payload, hpayload, hset⟩ := (bind_eq_pure JsError).mp hobject
    obtain rfl := (setProperty_eq_pure hcontent).mp hset
    have hpresent : payload.isAbsent = false := by
      rw [encodePayload, bind_eq_pure JsError] at hpayload
      obtain ⟨_, -, hpure⟩ := hpayload
      obtain rfl := pure_inj JsError hpure
      rfl
    have hdecoded := decodePayload_encoded enum.scope hlength hsound hreturn hpayload
    rw [← hdecoded]
    show enum.decodeAdjacent (enum.decodeHelper decodeJs) tag content
      (contentObject tag content variant.name.serialize payload).toValue = _ ↔ _
    rw [decodeAdjacent_contentObject hnamed hne]
    unfold adjacentArm requireField
    rw [hshape]
    dsimp only
    rw [fieldValue_contentObject hpresent, pure_bind, arm_eq_pure, decodeHelper, hshape]

theorem decodeUntagged_eq {before after : List (Variant T V)}
    (hbefore : ∀ other ∈ before, enum.Refuses decodeJs other value) :
    enum.decodeUntagged (enum.decodeHelper decodeJs) value (before ++ variant :: after) =
      enum.decodeUntagged (enum.decodeHelper decodeJs) value (variant :: after) := by
  induction before with
  | nil => rfl
  | cons other before ih =>
    obtain ⟨hother, hrest⟩ := List.forall_mem_cons.mp hbefore
    rw [List.cons_append, decodeUntagged]
    unfold Refuses at hother
    cases hshape : other.shape with
    | unit =>
      rw [hshape] at hother
      dsimp only at hother ⊢
      rw [hother, pure_bind]
      exact ih hrest
    | newtype | tuple | struct =>
      rw [hshape] at hother
      dsimp only at hother ⊢
      rw [hother, pure_bind]
      exact ih hrest

theorem decodeUntagged_encoded (htagging : enum.tagging = .untagged)
    (hlength : variant.shape.fields.length = values.length)
    (hreturns : enum.Returns js encodeJs decodeJs variant values)
    (htells : enum.Tells decodeJs variant value)
    (hencoded : enum.encodeVariant js encodeJs variant values = pure value)
    (hkeeps : variant.shape.Keeps decodeJs enum.scope values) :
    enum.decodeUntagged (enum.decodeHelper decodeJs) value enum.decoded =
      pure (variant.ident, values) := by
  unfold Returns at hreturns
  unfold Tells at htells
  unfold encodeVariant at hencoded
  rw [htagging] at hreturns htells hencoded
  obtain ⟨before, after, hdecoded, hbefore⟩ := htells
  obtain ⟨hsound, hreturn⟩ := hreturns
  have hpayload := (decodePayload_encoded enum.scope hlength hsound hreturn hencoded).mpr hkeeps
  rw [hdecoded, decodeUntagged_eq hbefore, decodeUntagged]
  cases hshape : variant.shape with
  | unit =>
    rw [hshape] at hlength hencoded
    obtain rfl := List.length_eq_zero_iff.mp hlength.symm
    obtain rfl := pure_inj JsError hencoded
    have hsome : asOk (decodeUnit JsValue.null) = (pure (some ()) : m (Option Unit)) := by
      unfold asOk
      rw [tryCatch_eq_pure, JsValue.null, decodeUnit, map_pure]
      exact .inl rfl
    dsimp only
    rw [hsome, pure_bind]
  | newtype | tuple | struct =>
    have hsome : asOk (enum.decodeHelper decodeJs variant value) = pure (some values) := by
      unfold asOk decodeHelper
      rw [tryCatch_eq_pure, hpayload, map_pure]
      exact .inl rfl
    dsimp only
    rw [hsome, pure_bind]

end EnumDef

end

/-- A variant of a derived enum comes back from JavaScript where each member that does not cross has
the value decoding gives a missing one, in all four representations; and in those that name the
variant, only there. -/
theorem EnumDef.decodeBody_encoded (js : QuickJs) (encodeJs : T → V → m JsValue)
    (decodeJs : T → JsValue → m V) (enum : EnumDef T V) (variant : Variant T V) (values : List V)
    (value : JsValue) (hlength : variant.shape.fields.length = values.length)
    (hreturns : enum.Returns js encodeJs decodeJs variant values)
    (htells : enum.Tells decodeJs variant value)
    (hencoded : enum.encodeBody js encodeJs variant values = pure value) :
    (variant.shape.Keeps decodeJs enum.scope values →
      enum.decodeBody (enum.decodeHelper decodeJs) value = pure (variant.ident, values)) ∧
    (enum.tagging ≠ .untagged →
      enum.decodeBody (enum.decodeHelper decodeJs) value = pure (variant.ident, values) →
      variant.shape.Keeps decodeJs enum.scope values) := by
  unfold EnumDef.encodeBody at hencoded
  split_ifs at hencoded with hskip
  · exact absurd hencoded throw_ne_pure
  · unfold EnumDef.decodeBody
    cases htagging : enum.tagging with
    | external =>
      have hiff := decodeExternal_encoded htagging hlength hreturns htells hencoded
      exact ⟨hiff.mpr, fun _ => hiff.mp⟩
    | internal tag =>
      have hiff := decodeInternal_encoded htagging hlength hreturns htells hencoded
      exact ⟨hiff.mpr, fun _ => hiff.mp⟩
    | adjacent tag content =>
      have hiff := decodeAdjacent_encoded htagging hlength hreturns htells hencoded
      exact ⟨hiff.mpr, fun _ => hiff.mp⟩
    | untagged =>
      exact ⟨decodeUntagged_encoded htagging hlength hreturns htells hencoded,
        fun h => absurd rfl h⟩

/-- A variant comes back through JavaScript where the enum keeps its members, and a tagged one only
there; so no two variants of kept members share a JavaScript value. -/
theorem EnumDef.variant_comes_back (js : QuickJs) (encodeJs : T → V → m JsValue)
    (decodeJs : T → JsValue → m V) (enum : EnumDef T V) (variant : Variant T V) (values : List V)
    (value : JsValue) (hlength : variant.shape.fields.length = values.length)
    (hreturns : enum.Returns js encodeJs decodeJs variant values)
    (htells : enum.Tells decodeJs variant value)
    (hencoded : enum.encodeBody js encodeJs variant values = pure value) :
    (variant.shape.Keeps decodeJs enum.scope values →
      enum.decodeBody (enum.decodeHelper decodeJs) value = pure (variant.ident, values)) ∧
    (enum.tagging ≠ .untagged →
      enum.decodeBody (enum.decodeHelper decodeJs) value = pure (variant.ident, values) →
      variant.shape.Keeps decodeJs enum.scope values) ∧
    ∀ (other : Variant T V) (others : List V), other.shape.fields.length = others.length →
      enum.Returns js encodeJs decodeJs other others → enum.Tells decodeJs other value →
      enum.encodeBody js encodeJs other others = pure value →
      variant.shape.Keeps decodeJs enum.scope values → other.shape.Keeps decodeJs enum.scope others →
      other.ident = variant.ident ∧ others = values := by
  have hback := EnumDef.decodeBody_encoded js encodeJs decodeJs enum variant values value hlength
    hreturns htells hencoded
  refine ⟨hback.1, hback.2, ?_⟩
  intro other others hlengths hreturns' htells' hencoded' hkeeps hkeeps'
  have hother := (EnumDef.decodeBody_encoded js encodeJs decodeJs enum other others value hlengths
    hreturns' htells' hencoded').1 hkeeps'
  rw [hback.1 hkeeps] at hother
  have hsame := pure_inj JsError hother
  exact ⟨(congrArg Prod.fst hsame).symm, (congrArg Prod.snd hsame).symm⟩

def memoVariant : Variant Unit Str where
  ident := "Memo".toList
  name := ⟨"memo".toList, "memo".toList, []⟩
  shape := memo.shape
  skipSerializing := false
  skipDeserializing := false

/-- An internally tagged enum. -/
def memoEntries : EnumDef Unit Str where
  rust := "Entry".toList
  tagging := .internal "kind".toList
  denyUnknownFields := false
  variants := [memoVariant]

/-- A variant with its note comes back, next to its tag. -/
theorem memoEntries_variant_comes_back :
    ∃ value, memoEntries.encodeBody plainJs encodeText memoVariant ["a".toList, "b".toList] = pure value ∧
      memoEntries.decodeBody (memoEntries.decodeHelper decodeText) value =
        pure ("Memo".toList, ["a".toList, "b".toList]) := by
  refine ⟨_, rfl, ?_⟩
  refine (EnumDef.variant_comes_back plainJs encodeText decodeText memoEntries memoVariant
    ["a".toList, "b".toList] _ rfl (memo_returns _) ?_ rfl).1 ⟨⟨trivial, trivial, trivial⟩, ?_⟩
  · refine ⟨?_, by decide, ?_⟩
    · rfl
    · intro field hfield
      rcases List.mem_cons.mp hfield with rfl | hfield
      · decide
      · obtain rfl := List.mem_singleton.mp hfield
        decide
  · exact fun h => by cases h

end RustTS.Contract
