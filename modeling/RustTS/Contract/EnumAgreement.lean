import RustTS.Contract.ParsedObject
import RustTS.Contract.SerdeEnum
import RustTS.Contract.StructAgreement

/-! Where the derived decoder of an enum makes the same of JSON as serde does. -/
namespace RustTS.Contract

variable {T V : Type} (readNumber : Number → Int32 ⊕ JsFloat)

theorem asOk_eq_ok {X : Type} (r : Except JsError X) :
    (asOk r : Except JsError (Option X)) = .ok r.toOption := by
  cases r <;> rfl

private theorem toOption_decodeUnit_parse (json : Json) :
    (decodeUnit (.parse readNumber json) : Except JsError Unit).toOption =
      match json with
      | .null => some ()
      | _ => none := by
  cases json with
  | number value =>
    rw [JsValue.parse, JsValue.ofNumber]
    cases readNumber value <;> rfl
  | null | bool | string | array | object =>
    rw [JsValue.parse]
    rfl

namespace EnumDef

variable (enum : EnumDef T V)

/-- What serde hands to the payload decoder of a variant where the derived code hands it `json`: the
named fields of an internally tagged variant come without the tag. -/
def handed (variant : Variant T V) (json : Json) : Json :=
  match enum.tagging with
  | .internal tag =>
    match variant.shape, json with
    | .struct _, .object members | .tuple _, .object members => .object (withoutTag tag members)
    | _, json => json
  | _ => json

/-- Each variant's payload decoder is shared by both sides. -/
def SharesPayload (native : Variant T V → JsValue → Except JsError (List V))
    (payload : Variant T V → Json → Option (List V)) : Prop :=
  ∀ variant ∈ enum.decoded, ∀ json,
    (native variant (.parse readNumber json)).toOption = payload variant (enum.handed variant json)

variable {enum} {native : Variant T V → JsValue → Except JsError (List V)}
  {payload : Variant T V → Json → Option (List V)} {missing : Variant T V → Option (List V)}

theorem variantOf_mem {name : Str} {variant : Variant T V}
    (h : enum.variantOf name = some variant) : variant ∈ enum.decoded :=
  List.mem_of_find?_eq_some h

theorem SharesPayload.whole (h : enum.SharesPayload readNumber native payload)
    (htagging : ∀ tag, enum.tagging ≠ .internal tag) (variant : Variant T V)
    (hmem : variant ∈ enum.decoded) (json : Json) :
    (native variant (.parse readNumber json)).toOption = payload variant json := by
  have hhanded : enum.handed variant json = json := by
    unfold handed
    cases htag : enum.tagging with
    | internal tag => exact absurd htag (htagging tag)
    | external | adjacent | untagged => rfl
  rw [h variant hmem, hhanded]

theorem serdeVariant_eq {variant : Variant T V} {content : Json}
    (h : (native variant (.parse readNumber content)).toOption = payload variant content) :
    serdeVariant payload variant content =
      match variant.shape with
      | .unit => (decodeUnit (.parse readNumber content) : Except JsError Unit).toOption.map
        fun _ => (variant.ident, [])
      | _ => (native variant (.parse readNumber content)).toOption.map
        fun members => (variant.ident, members) := by
  rw [toOption_decodeUnit_parse, h]
  unfold serdeVariant
  cases variant.shape with
  | unit => cases content <;> rfl
  | newtype | tuple | struct => rfl

theorem toOption_externalArm {variant : Variant T V} {content : Json}
    (h : (native variant (.parse readNumber content)).toOption = payload variant content) :
    (enum.externalArm native (some (.parse readNumber content)) variant).toOption =
      serdeVariant payload variant content := by
  rw [serdeVariant_eq readNumber h, externalArm]
  cases variant.shape with
  | unit =>
    show (mapErr _ (decodeUnit _) >>= fun _ => pure _ : Except JsError (Str × List V)).toOption = _
    rw [toOption_bind, toOption_mapErr]
    cases (decodeUnit (.parse readNumber content) : Except JsError Unit).toOption <;> rfl
  | newtype | tuple | struct =>
    show (mapErr _ (native variant _) >>= fun _ => pure _ : Except JsError (Str × List V)).toOption
      = _
    rw [toOption_bind, toOption_mapErr]
    cases (native variant (.parse readNumber content)).toOption <;> rfl

theorem toOption_dispatch {X : Type} {name : Str} {error : JsError}
    {arm : Variant T V → Except JsError X} :
    (match enum.variantOf name with
      | none => throw error
      | some variant => arm variant : Except JsError X).toOption =
      (enum.variantOf name).bind fun variant => (arm variant).toOption := by
  cases enum.variantOf name <;> rfl

theorem props_of_same {members : List (Str × Json)} {name : Str} {content : Json}
    (hsame : ∀ e ∈ members, e.1 = name) (hlast : members.reverse.lookup name = some content) :
    (parseObject readNumber members).props = [(.ofText name, .parse readNumber content)] := by
  have hkeys : ∀ key ∈ (parseObject readNumber members).props.map Prod.fst,
      key = .ofText name := by
    intro key hkey
    obtain ⟨e, he, rfl⟩ := (mem_keys_parseObject readNumber members key).mp hkey
    rw [hsame e he]
  have hlookup : (parseObject readNumber members).props.lookup (.ofText name) =
      some (.parse readNumber content) := by
    rw [lookup_parseObject, hlast]
    rfl
  have hnodup := (ranked_parseObject readNumber members).nodup
  rcases hprops : (parseObject readNumber members).props with _ | ⟨⟨key, value⟩, rest⟩
  · rw [hprops] at hlookup
    cases hlookup
  · rw [hprops] at hkeys hlookup hnodup
    obtain rfl : key = .ofText name := hkeys key List.mem_cons_self
    rw [List.lookup_cons, beq_self_eq_true] at hlookup
    cases hlookup
    cases rest with
    | nil => rfl
    | cons p rest =>
      have hp : p.1 = .ofText name :=
        hkeys p.1 (List.mem_cons_of_mem _ List.mem_cons_self)
      simp [hp] at hnodup

theorem toOption_externalVariant_of_two {members : List (Str × Json)} {e e' : Str × Json}
    (he : e ∈ members) (he' : e' ∈ members) (hne : e.1 ≠ e'.1) (rust : Str) :
    (externalVariant (parseObject readNumber members).toValue rust :
      Except JsError (Str × Option JsValue)).toOption = none := by
  have hkey (x : Str × Json) (hx : x ∈ members) :
      JsString.ofText x.1 ∈ (parseObject readNumber members).props.map Prod.fst :=
    (mem_keys_parseObject readNumber members _).mpr ⟨x, hx, rfl⟩
  unfold externalVariant JsObject.toValue
  rcases hprops : (parseObject readNumber members).props with _ | ⟨p, _ | ⟨p', props⟩⟩
  · rfl
  · have hfirst := hkey e he
    have hsecond := hkey e' he'
    rw [hprops] at hfirst hsecond
    have hboth := (List.mem_singleton.mp hfirst).trans (List.mem_singleton.mp hsecond).symm
    exact absurd (JsString.ofText_injective hboth) hne
  · rfl

theorem toOption_decodeExternal_string (text : Str) :
    (enum.decodeExternal native (.parse readNumber (.string text))).toOption =
      enum.serdeExternal payload (.string text) := by
  have hsplit : (externalVariant (.parse readNumber (.string text)) enum.rust :
      Except JsError (Str × Option JsValue)) = .ok (text, none) := by
    rw [JsValue.parse]
    show (jsText (.ofText text) enum.rust >>= fun name => pure (name, none) :
      Except JsError (Str × Option JsValue)) = _
    rw [jsText_ofText]
    rfl
  rw [decodeExternal, hsplit, serdeExternal]
  refine toOption_dispatch.trans ?_
  cases enum.variantOf text with
  | none => rfl
  | some variant =>
    rw [Option.bind_some, Option.bind_some, externalArm]
    cases variant.shape <;> rfl

/-- The last of several members of one name is no payload of the variant it names. -/
def RepeatsRefused (enum : EnumDef T V) (payload : Variant T V → Json → Option (List V))
    (members : List (Str × Json)) : Prop :=
  ∀ name, (∀ e ∈ members, e.1 = name) → ∀ variant, enum.variantOf name = some variant →
    ∀ content, members.reverse.lookup name = some content →
      serdeVariant payload variant content = none

theorem toOption_decodeExternal (htagging : enum.tagging = .external)
    (hshare : enum.SharesPayload readNumber native payload) (members : List (Str × Json)) :
    (enum.decodeExternal native (.parse readNumber (.object members))).toOption =
        enum.serdeExternal payload (.object members) ↔
      members.length ≤ 1 ∨ enum.RepeatsRefused payload members := by
  have hwhole := hshare.whole readNumber (by simp [htagging])
  have hnative {name : Str} {content : Json} (hsame : ∀ e ∈ members, e.1 = name)
      (hlast : members.reverse.lookup name = some content) :
      (enum.decodeExternal native (.parse readNumber (.object members))).toOption =
        (enum.variantOf name).bind fun variant => serdeVariant payload variant content := by
    have hsplit : (externalVariant (parseObject readNumber members).toValue enum.rust :
        Except JsError (Str × Option JsValue)) = .ok (name, some (.parse readNumber content)) := by
      unfold externalVariant JsObject.toValue
      rw [props_of_same readNumber hsame hlast]
      show (jsText (.ofText name) enum.rust >>= fun name => pure (name, some _) :
        Except JsError (Str × Option JsValue)) = _
      rw [jsText_ofText]
      rfl
    rw [JsValue.parse_object, decodeExternal, hsplit]
    refine toOption_dispatch.trans ?_
    cases hvariant : enum.variantOf name with
    | none => rfl
    | some variant =>
      exact toOption_externalArm readNumber (hwhole variant (variantOf_mem hvariant) content)
  rcases members with _ | ⟨⟨name, content⟩, _ | ⟨e', rest⟩⟩
  · exact iff_of_true (by rw [JsValue.parse_object]; rfl) (.inl (Nat.zero_le _))
  · refine iff_of_true ?_ (.inl (Nat.le_refl _))
    exact hnative (fun e he => List.mem_singleton.mp he ▸ rfl)
      (by rw [List.reverse_singleton, List.lookup_cons, beq_self_eq_true])
  · -- Serde reads one member only.
    show _ = none ↔ _
    rw [or_iff_right (by simp)]
    by_cases hsame : ∀ e ∈ (name, content) :: e' :: rest, e.1 = name
    · cases hlast : ((name, content) :: e' :: rest).reverse.lookup name with
      | none =>
        have hnone := List.lookup_eq_none_iff.mp hlast (name, content)
          (List.mem_reverse.mpr List.mem_cons_self)
        simp at hnone
      | some last =>
        rw [hnative hsame hlast]
        constructor
        · intro h name' hname' variant hvariant content' hlast'
          obtain rfl : name = name' := hname' _ List.mem_cons_self
          obtain rfl : last = content' := Option.some.inj (hlast.symm.trans hlast')
          rw [hvariant] at h
          exact h
        · intro h
          cases hvariant : enum.variantOf name with
          | none => rfl
          | some variant => exact h name hsame variant hvariant last hlast
    · obtain ⟨e, he⟩ := not_forall.mp hsame
      obtain ⟨he, hne⟩ := Classical.not_imp.mp he
      have htwo := toOption_externalVariant_of_two readNumber he List.mem_cons_self hne enum.rust
      refine iff_of_true ?_ fun name' hname' => ?_
      · rw [JsValue.parse_object, decodeExternal, toOption_bind, htwo]
        rfl
      · exact absurd ((hname' e he).trans (hname' _ List.mem_cons_self).symm) hne

theorem fieldValue_last (members : List (Str × Json)) (name : Str) :
    fieldValue (parseObject readNumber members) [name] =
      match members.reverse.lookup name with
      | some json => some (.parse readNumber json)
      | none => if name = "__proto__".toList then some .objectPrototype else none := by
  rw [fieldValue_parseObject]
  unfold nativeReading
  cases members.reverse.lookup name with
  | some json => rfl
  | none =>
    dsimp only
    split_ifs <;> rfl

theorem toOption_variantName_parse (json : Json) (rust : Str) :
    (variantName (.parse readNumber json) rust : Except JsError Str).toOption =
      match json with
      | .string name => some name
      | _ => none := by
  cases json with
  | string text =>
    rw [JsValue.parse]
    show (jsText (.ofText text) rust : Except JsError Str).toOption = _
    rw [jsText_ofText]
    rfl
  | number value =>
    rw [JsValue.parse, JsValue.ofNumber]
    cases readNumber value <;> rfl
  | null | bool | array | object =>
    rw [JsValue.parse]
    rfl

theorem toOption_tagField (members : List (Str × Json)) (tag rust : Str) :
    (tagField (parseObject readNumber members) tag rust : Except JsError Str).toOption =
      match members.reverse.lookup tag with
      | some (.string name) => some name
      | _ => none := by
  rw [tagField, toOption_bind, requireField, fieldValue_last]
  cases members.reverse.lookup tag with
  | some json =>
    show (mapErr _ (variantName (.parse readNumber json) rust) : Except JsError Str).toOption = _
    rw [toOption_mapErr, toOption_variantName_parse]
    cases json <;> rfl
  | none =>
    dsimp only
    split_ifs <;> rfl

theorem toOption_internalArm {tag : Str} (htagging : enum.tagging = .internal tag)
    (hshare : enum.SharesPayload readNumber native payload) {variant : Variant T V}
    (hmem : variant ∈ enum.decoded) (members : List (Str × Json)) :
    (internalArm native tag (parseObject readNumber members) variant).toOption =
      serdeRest payload tag variant members := by
  have hrest : members.filter (fun e => decide (e.1 ∉ [tag])) = withoutTag tag members :=
    List.filter_congr fun e _ => by simp
  have hvariant := hshare variant hmem
  unfold handed at hvariant
  rw [htagging] at hvariant
  unfold internalArm serdeRest
  cases hshape : variant.shape with
  | unit => rfl
  | newtype field =>
    have hpayload := hvariant (.object (withoutTag tag members))
    rw [hshape, JsValue.parse_object] at hpayload
    dsimp only at hpayload ⊢
    rw [objectWithout_parseObject, hrest, toOption_bind, toOption_ok, Option.bind_some,
      toOption_bind, hpayload]
    cases payload variant (.object (withoutTag tag members)) <;> rfl
  | tuple fields | struct fields =>
    have hpayload := hvariant (.object members)
    rw [hshape, JsValue.parse_object] at hpayload
    dsimp only at hpayload ⊢
    rw [toOption_bind, hpayload]
    cases payload variant (.object (withoutTag tag members)) <;> rfl

/-- The last of several tags names no variant whose payload is read. -/
def TagsRefused (enum : EnumDef T V) (payload : Variant T V → Json → Option (List V)) (tag : Str)
    (members : List (Str × Json)) : Prop :=
  ∀ name, members.reverse.lookup tag = some (.string name) → ∀ variant,
    enum.variantOf name = some variant → serdeRest payload tag variant members = none

theorem toOption_decodeInternal {tag : Str} (htagging : enum.tagging = .internal tag)
    (hshare : enum.SharesPayload readNumber native payload) (members : List (Str × Json)) :
    (enum.decodeInternal native tag (.parse readNumber (.object members))).toOption =
        enum.serdeInternal payload tag (.object members) ↔
      (named tag members).length ≤ 1 ∨ enum.TagsRefused payload tag members := by
  have hnative : (enum.decodeInternal native tag (.parse readNumber (.object members))).toOption =
      (match members.reverse.lookup tag with
      | some (.string name) => some name
      | _ => none).bind fun name => (enum.variantOf name).bind fun variant =>
        serdeRest payload tag variant members := by
    have htag := toOption_tagField readNumber members tag enum.rust
    have hobject : (expectObject (parseObject readNumber members).toValue enum.rust :
        Except JsError JsObject) = .ok (parseObject readNumber members) := rfl
    rw [JsValue.parse_object, decodeInternal, hobject]
    simp only [toOption_bind, toOption_ok, Option.bind_some, htag]
    refine congrArg _ (funext fun name => ?_)
    refine toOption_dispatch.trans ?_
    cases hvariant : enum.variantOf name with
    | none => rfl
    | some variant =>
      exact toOption_internalArm readNumber htagging hshare (variantOf_mem hvariant) _
  rw [hnative]
  have hlast := lookup_reverse members tag
  rcases hnamed : named tag members with _ | ⟨⟨key, json⟩, _ | ⟨e, rest⟩⟩
  · rw [serdeInternal, hlast, hnamed]
    exact iff_of_true rfl (.inl (Nat.zero_le _))
  · rw [serdeInternal, hlast, hnamed]
    refine iff_of_true ?_ (.inl (Nat.le_refl _))
    cases json <;> rfl
  · -- Serde refuses a second tag.
    have hserde : enum.serdeInternal payload tag (.object members) = none := by
      rw [serdeInternal, hnamed]
      cases json <;> rfl
    rw [hserde, or_iff_right (by simp)]
    unfold TagsRefused
    cases members.reverse.lookup tag with
    | none => exact iff_of_true rfl nofun
    | some json =>
      cases json with
      | string name =>
        show (enum.variantOf name).bind _ = none ↔ _
        rw [Option.bind_eq_none_iff]
        constructor
        · intro h name' hname' variant hvariant
          cases hname'
          exact h variant hvariant
        · intro h variant hvariant
          exact h name rfl variant hvariant
      | null | bool | number | array | object => exact iff_of_true rfl nofun

theorem toOption_decodeUntagged (htagging : enum.tagging = .untagged)
    (hshare : enum.SharesPayload readNumber native payload) (json : Json)
    {variants : List (Variant T V)} (hmem : ∀ variant ∈ variants, variant ∈ enum.decoded) :
    (enum.decodeUntagged native (.parse readNumber json) variants).toOption =
      serdeUntagged payload json variants := by
  have hwhole := hshare.whole readNumber (by simp [htagging])
  induction variants with
  | nil => rfl
  | cons variant variants ih =>
    have hrest := ih fun v hv => hmem v (List.mem_cons_of_mem _ hv)
    rw [serdeUntagged, serdeVariant_eq readNumber (hwhole variant (hmem variant List.mem_cons_self) json),
      decodeUntagged, ← hrest]
    cases variant.shape with
    | unit =>
      dsimp only
      rw [asOk_eq_ok]
      cases (decodeUnit (.parse readNumber json) : Except JsError Unit).toOption <;> rfl
    | newtype | tuple | struct =>
      dsimp only
      rw [asOk_eq_ok]
      cases (native variant (.parse readNumber json)).toOption <;> rfl

/-- What the payload decoder of a newtype is given where the content is left out. -/
def absentContent (content : Str) : JsValue :=
  if content = "__proto__".toList then .objectPrototype else .undefined

/-- The two make the same of adjacent content that is left out. -/
def MissingContentAlike (native : Variant T V → JsValue → Except JsError (List V))
    (missing : Variant T V → Option (List V)) (content : Str) (variant : Variant T V) : Prop :=
  match variant.shape with
  | .unit => content ≠ "__proto__".toList
  | .newtype _ => (native variant (absentContent content)).toOption = missing variant
  | .tuple _ | .struct _ =>
    content = "__proto__".toList → (native variant .objectPrototype).toOption = none

/-- The derived decoder makes nothing of adjacent content that is left out. -/
def MissingContentRefused (native : Variant T V → JsValue → Except JsError (List V))
    (content : Str) (variant : Variant T V) : Prop :=
  match variant.shape with
  | .unit => content = "__proto__".toList
  | .newtype _ => (native variant (absentContent content)).toOption = none
  | .tuple _ | .struct _ =>
    content = "__proto__".toList → (native variant .objectPrototype).toOption = none

/-- The derived decoder on adjacent content that is left out. -/
def nativeMissing (native : Variant T V → JsValue → Except JsError (List V)) (content : Str)
    (variant : Variant T V) : Option (Str × List V) :=
  match variant.shape with
  | .unit => if content = "__proto__".toList then none else some (variant.ident, [])
  | .newtype _ => (native variant (absentContent content)).toOption.map (variant.ident, ·)
  | .tuple _ | .struct _ =>
    if content = "__proto__".toList then
      (native variant .objectPrototype).toOption.map (variant.ident, ·)
    else none

theorem nativeMissing_eq {content : Str} {variant : Variant T V} :
    nativeMissing native content variant = serdeMissingContent missing variant ↔
      MissingContentAlike native missing content variant := by
  have hmap {a b : Option (List V)} :
      a.map (variant.ident, ·) = b.map (fun members => (variant.ident, members)) ↔ a = b := by
    refine ⟨fun h => Option.map_injective (fun x y hxy => ?_) h, fun h => h ▸ rfl⟩
    exact (Prod.mk.inj hxy).2
  unfold nativeMissing serdeMissingContent MissingContentAlike
  cases variant.shape with
  | unit =>
    dsimp only
    split_ifs with hproto
    · exact iff_of_false nofun fun h => h hproto
    · exact iff_of_true rfl hproto
  | newtype field => exact hmap
  | tuple fields | struct fields =>
    dsimp only
    split_ifs with hproto
    · rw [Option.map_eq_none_iff]
      exact ⟨fun h _ => h, fun h => h hproto⟩
    · exact iff_of_true rfl fun h => absurd h hproto

theorem nativeMissing_eq_none {content : Str} {variant : Variant T V} :
    nativeMissing native content variant = none ↔
      MissingContentRefused native content variant := by
  unfold nativeMissing MissingContentRefused
  cases variant.shape with
  | unit =>
    dsimp only
    split_ifs with hproto
    · exact iff_of_true rfl hproto
    · exact iff_of_false nofun hproto
  | newtype field => exact Option.map_eq_none_iff
  | tuple fields | struct fields =>
    dsimp only
    split_ifs with hproto
    · rw [Option.map_eq_none_iff]
      exact ⟨fun h _ => h, fun h => h hproto⟩
    · exact iff_of_true rfl fun h => absurd h hproto

/-- The last member named as the content is the payload, as it would be in serde. -/
theorem toOption_adjacentArm {tag content : Str} (htagging : enum.tagging = .adjacent tag content)
    (hshare : enum.SharesPayload readNumber native payload) {variant : Variant T V}
    (hmem : variant ∈ enum.decoded) (members : List (Str × Json)) :
    (enum.adjacentArm native content (parseObject readNumber members) variant).toOption =
      match members.reverse.lookup content with
      | some json => serdeVariant payload variant json
      | none => nativeMissing native content variant := by
  have hfield := fieldValue_last readNumber members content
  cases hcontent : members.reverse.lookup content with
  | some json =>
    rw [hcontent] at hfield
    dsimp only at hfield ⊢
    have hwhole := hshare.whole readNumber (by simp [htagging]) variant hmem json
    rw [serdeVariant_eq readNumber hwhole]
    unfold adjacentArm
    cases variant.shape with
    | unit =>
      dsimp only
      rw [hfield, toOption_bind, toOption_mapErr, unitPayload]
      cases (decodeUnit (.parse readNumber json) : Except JsError Unit).toOption <;> rfl
    | newtype field =>
      dsimp only
      rw [decodeField, hfield, toOption_bind]
      dsimp only
      rw [toOption_mapErr]
      cases (native variant (.parse readNumber json)).toOption <;> rfl
    | tuple fields | struct fields =>
      dsimp only
      rw [requireField, hfield]
      show (mapErr _ (native variant _) >>= fun _ => pure _ :
        Except JsError (Str × List V)).toOption = _
      rw [toOption_bind, toOption_mapErr]
      cases (native variant (.parse readNumber json)).toOption <;> rfl
  | none =>
    rw [hcontent] at hfield
    dsimp only at hfield ⊢
    unfold adjacentArm nativeMissing absentContent
    cases variant.shape with
    | unit =>
      dsimp only
      rw [hfield, toOption_bind, toOption_mapErr]
      split_ifs <;> rfl
    | newtype field =>
      dsimp only
      rw [decodeField, hfield, toOption_bind]
      split_ifs
      · dsimp only
        rw [toOption_mapErr]
        cases (native variant .objectPrototype).toOption <;> rfl
      · dsimp only
        rw [toOption_mapErr]
        cases (native variant .undefined).toOption <;> rfl
    | tuple fields | struct fields =>
      dsimp only
      rw [requireField, hfield]
      split_ifs
      · show (mapErr _ (native variant _) >>= fun _ => pure _ :
          Except JsError (Str × List V)).toOption = _
        rw [toOption_bind, toOption_mapErr]
        cases (native variant .objectPrototype).toOption <;> rfl
      · rfl

/-- The two make the same of the content of a variant. Serde refuses a tag and content that are given
more than once. -/
def ContentAlike (native : Variant T V → JsValue → Except JsError (List V))
    (payload : Variant T V → Json → Option (List V)) (missing : Variant T V → Option (List V))
    (tag content : Str) (variant : Variant T V) (members : List (Str × Json)) : Prop :=
  match members.reverse.lookup content with
  | some json => ((named tag members).length = 1 ∧ (named content members).length = 1) ∨
      serdeVariant payload variant json = none
  | none =>
    if (named tag members).length = 1 then MissingContentAlike native missing content variant
    else MissingContentRefused native content variant

/-- Where the derived decoder of an enum makes the same of a value as serde: everywhere but for an
object that repeats its key, tag or content and is read nonetheless, and an adjacently tagged one,
whose content may be left out or whose tag may be written as an object. -/
def ReadsLikeSerde (enum : EnumDef T V) (native : Variant T V → JsValue → Except JsError (List V))
    (payload : Variant T V → Json → Option (List V)) (missing : Variant T V → Option (List V)) :
    EnumInput → Prop
  | .string _ => True
  | .object members =>
    match enum.tagging with
    | .external => members.length ≤ 1 ∨ enum.RepeatsRefused payload members
    | .internal tag => (named tag members).length ≤ 1 ∨ enum.TagsRefused payload tag members
    | .adjacent tag content =>
      (enum.denyUnknownFields = true ∧ ∃ e ∈ members, e.1 ∉ [tag, content]) ∨
        match members.reverse.lookup tag with
        | none => True
        | some (.string name) => ∀ variant, enum.variantOf name = some variant →
          ContentAlike native payload missing tag content variant members
        | some json => (named tag members).length = 1 → ∀ name variant,
          serdeTag json = some name → enum.variantOf name = some variant →
            serdeContent payload missing variant (named content members) = none
    | .untagged => True

theorem none_eq_bind_bind {A B C : Type} {a : Option A} {f : A → Option B} {g : B → Option C} :
    (none = a.bind fun x => (f x).bind g) ↔
      ∀ x y, a = some x → f x = some y → g y = none := by
  cases a with
  | none => simp
  | some x =>
    rw [Option.bind_some]
    constructor
    · intro h x' y hx hy
      obtain rfl := Option.some.inj hx
      rw [hy, Option.bind_some] at h
      exact h.symm
    · intro h
      cases hf : f x with
      | none => rfl
      | some y => exact (h x y rfl hf).symm

theorem toOption_arm_eq {tag content : Str} (htagging : enum.tagging = .adjacent tag content)
    (hshare : enum.SharesPayload readNumber native payload) {variant : Variant T V}
    (hmem : variant ∈ enum.decoded) {members : List (Str × Json)}
    (honce : (named tag members).length = 1) :
    (enum.adjacentArm native content (parseObject readNumber members) variant).toOption =
        serdeContent payload missing variant (named content members) ↔
      ContentAlike native payload missing tag content variant members := by
  rw [toOption_adjacentArm readNumber htagging hshare hmem]
  have hlast := lookup_reverse members content
  unfold ContentAlike
  rcases hnamed : named content members with _ | ⟨⟨_, json⟩, _ | ⟨e, rest⟩⟩
  · rw [hlast, hnamed]
    dsimp only [List.getLast?_nil, Option.map_none]
    rw [if_pos honce]
    exact nativeMissing_eq
  · rw [hlast, hnamed]
    exact iff_of_true rfl (.inl ⟨honce, rfl⟩)
  · cases hcontent : members.reverse.lookup content with
    | none =>
      rw [hlast, hnamed] at hcontent
      simp at hcontent
    | some last =>
      dsimp only
      rw [or_iff_right (by simp)]
      exact Iff.rfl

theorem toOption_arm_eq_none {tag content : Str} (htagging : enum.tagging = .adjacent tag content)
    (hshare : enum.SharesPayload readNumber native payload) {variant : Variant T V}
    (hmem : variant ∈ enum.decoded) {members : List (Str × Json)}
    (hagain : (named tag members).length ≠ 1) :
    (enum.adjacentArm native content (parseObject readNumber members) variant).toOption = none ↔
      ContentAlike native payload missing tag content variant members := by
  rw [toOption_adjacentArm readNumber htagging hshare hmem]
  unfold ContentAlike
  cases members.reverse.lookup content with
  | none =>
    dsimp only
    rw [if_neg hagain]
    exact nativeMissing_eq_none
  | some json =>
    dsimp only
    rw [or_iff_right fun h => hagain h.1]

theorem toOption_decodeAdjacent {tag content : Str}
    (htagging : enum.tagging = .adjacent tag content)
    (hshare : enum.SharesPayload readNumber native payload) (members : List (Str × Json)) :
    (enum.decodeAdjacent native tag content (.parse readNumber (.object members))).toOption =
        enum.serdeAdjacent payload missing tag content (.object members) ↔
      enum.ReadsLikeSerde native payload missing (.object members) := by
  have htag := toOption_tagField readNumber members tag enum.rust
  have hreject := rejectUnknownFields_eq_ok readNumber [tag, content] enum.rust members
  have hdecode (checked : Except JsError Unit) (h : (enum.rejectOthers tag content
      (parseObject readNumber members) : Except JsError Unit) = checked) :
      (enum.decodeAdjacent native tag content (.parse readNumber (.object members))).toOption =
        checked.toOption.bind fun _ =>
          (tagField (parseObject readNumber members) tag enum.rust :
            Except JsError Str).toOption.bind fun name => (enum.variantOf name).bind fun variant =>
              (enum.adjacentArm native content (parseObject readNumber members) variant).toOption := by
    have hobject : (expectObject (parseObject readNumber members).toValue enum.rust :
        Except JsError JsObject) = .ok (parseObject readNumber members) := rfl
    rw [JsValue.parse_object, decodeAdjacent, hobject]
    simp only [toOption_bind, h, toOption_ok, Option.bind_some]
    refine congrArg checked.toOption.bind (funext fun _ => congrArg _ (funext fun name => ?_))
    exact toOption_dispatch
  rw [htag] at hdecode
  unfold rejectOthers at hdecode
  rw [serdeAdjacent, ReadsLikeSerde, htagging]
  by_cases hdenied : enum.denyUnknownFields = true ∧ ∃ e ∈ members, e.1 ∉ [tag, content]
  · rw [if_pos hdenied]
    obtain ⟨hdeny, e, he, hkey⟩ := hdenied
    refine iff_of_true ?_ (.inl ⟨hdeny, e, he, hkey⟩)
    cases h : (rejectUnknownFields (parseObject readNumber members) [tag, content]
      enum.rust : Except JsError Unit) with
    | ok => exact absurd (hreject.mp h e he) hkey
    | error error => exact hdecode (.error error) (by rw [hdeny, if_pos rfl, h])
  · have hchecked := hdecode (.ok ()) (by
      split_ifs with hdeny
      · exact hreject.mpr fun e he => by_contra fun hkey => hdenied ⟨hdeny, e, he, hkey⟩
      · rfl)
    rw [if_neg hdenied, hchecked, toOption_ok, Option.bind_some]
    dsimp only
    rw [or_iff_right hdenied]
    have hlast := lookup_reverse members tag
    rcases hnamed : named tag members with _ | ⟨⟨_, json⟩, _ | ⟨e, rest⟩⟩
    · rw [hlast, hnamed]
      exact iff_of_true rfl trivial
    · have honce : (named tag members).length = 1 := by
        rw [hnamed]
        rfl
      rw [hlast, hnamed]
      cases json with
      | string name =>
        show (enum.variantOf name).bind _ = (enum.variantOf name).bind _ ↔ ∀ variant,
          enum.variantOf name = some variant →
            ContentAlike native payload missing tag content variant members
        cases hvariant : enum.variantOf name with
        | none => exact iff_of_true rfl nofun
        | some variant =>
          rw [Option.bind_some, Option.bind_some,
            toOption_arm_eq readNumber htagging hshare (variantOf_mem hvariant) honce]
          constructor
          · intro h _ heq
            exact Option.some.inj heq ▸ h
          · intro h
            exact h variant rfl
      | null | bool | number | array | object =>
        refine none_eq_bind_bind.trans ?_
        exact ⟨fun h _ => h, fun h => h rfl⟩
    · have hagain : (named tag members).length ≠ 1 := by
        rw [hnamed]
        simp
      show _ = none ↔ _
      cases members.reverse.lookup tag with
      | none => exact iff_of_true rfl trivial
      | some json =>
        cases json with
        | string name =>
          show (enum.variantOf name).bind _ = none ↔ ∀ variant,
            enum.variantOf name = some variant →
              ContentAlike native payload missing tag content variant members
          rw [Option.bind_eq_none_iff]
          refine forall_congr' fun variant => forall_congr' fun hvariant => ?_
          exact toOption_arm_eq_none readNumber htagging hshare (variantOf_mem hvariant) hagain
        | null | bool | number | array | object =>
          exact iff_of_true rfl fun honce => absurd honce (by simp)

end EnumDef

/-- The derived decoder of an enum selects the variant, and gives it the members, that serde does
with the same payload decoders, or fails where serde fails, on every JSON string and object but
these: an adjacently tagged object without its content, where a newtype's payload decodes from
`undefined` and not from what its type takes for a missing field, or the content is named
`__proto__`; one whose tag is written as an object; and one that repeats its only key, its tag or its
content, and whose last member decodes. -/
theorem EnumDef.decodeBody_agrees (enum : EnumDef T V)
    (native : Variant T V → JsValue → Except JsError (List V))
    (payload : Variant T V → Json → Option (List V)) (missing : Variant T V → Option (List V))
    (hshare : enum.SharesPayload readNumber native payload) (input : EnumInput) :
    (enum.decodeBody native (.parse readNumber input.toJson)).toOption =
        enum.deserialize payload missing input.toJson ↔
      enum.ReadsLikeSerde native payload missing input := by
  cases input with
  | string text =>
    refine iff_of_true ?_ trivial
    unfold EnumDef.decodeBody EnumDef.deserialize EnumInput.toJson
    cases htagging : enum.tagging with
    | external => exact EnumDef.toOption_decodeExternal_string readNumber text
    | internal tag =>
      rw [JsValue.parse]
      rfl
    | adjacent tag content =>
      rw [JsValue.parse]
      rfl
    | untagged => exact EnumDef.toOption_decodeUntagged readNumber htagging hshare _ fun _ h => h
  | object members =>
    have hadjacent (tag content : Str) (h : enum.tagging = .adjacent tag content) :
        (enum.decodeAdjacent native tag content (.parse readNumber (.object members))).toOption =
            enum.serdeAdjacent payload missing tag content (.object members) ↔
          enum.ReadsLikeSerde native payload missing (.object members) :=
      EnumDef.toOption_decodeAdjacent readNumber h hshare members
    unfold EnumDef.decodeBody EnumDef.deserialize EnumInput.toJson
    unfold EnumDef.ReadsLikeSerde at hadjacent ⊢
    cases htagging : enum.tagging with
    | external => exact EnumDef.toOption_decodeExternal readNumber htagging hshare members
    | internal tag => exact EnumDef.toOption_decodeInternal readNumber htagging hshare members
    | adjacent tag content =>
      have hagrees := hadjacent tag content htagging
      rw [htagging] at hagrees
      exact hagrees
    | untagged =>
      exact iff_of_true
        (EnumDef.toOption_decodeUntagged readNumber htagging hshare _ fun _ h => h) trivial

private theorem lookup_withoutTag {tag name : Str} (h : name ≠ tag) (members : List (Str × Json)) :
    (EnumDef.withoutTag tag members).reverse.lookup name = members.reverse.lookup name := by
  unfold EnumDef.withoutTag
  rw [← List.filter_reverse]
  induction members.reverse with
  | nil => rfl
  | cons e rest ih =>
    rw [List.filter_cons]
    split_ifs with hkept
    · rw [List.lookup_cons, List.lookup_cons, ih]
    · have hkey : e.1 = tag := by simpa using hkept
      rw [RankedEntries.lookup_cons_of_ne (hkey ▸ h), ih]

private theorem fieldValue_withoutTag {tag : Str} {names : List Str} (h : tag ∉ names)
    (members : List (Str × Json)) :
    fieldValue (parseObject readNumber (EnumDef.withoutTag tag members)) names =
      fieldValue (parseObject readNumber members) names := by
  induction names with
  | nil => rfl
  | cons name names ih =>
    obtain ⟨hname, hnames⟩ := not_or.mp (List.mem_cons.not.mp h)
    unfold fieldValue
    rw [get_parseObject, get_parseObject, lookup_withoutTag fun heq => hname heq.symm, ih hnames]

section Tagged
variable (decodeJs : T → JsValue → Except JsError V)

theorem decodeMembers_withoutTag (scope scope' : Scope V) {tag : Str} {fields : List (Field T V)}
    (hdefault : scope'.containerDefault = scope.containerDefault)
    (hfields : ∀ field ∈ fields, field.skipDeserializing = false → field.flatten = false →
      tag ∉ field.name.accepted)
    (members : List (Str × Json)) (rest : JsObject) (index : Nat) :
    decodeMembers decodeJs scope' (parseObject readNumber (EnumDef.withoutTag tag members)) rest
        index fields =
      decodeMembers decodeJs scope (parseObject readNumber members) rest index fields := by
  induction fields generalizing index with
  | nil => rfl
  | cons field fields ih =>
    have hmember : scope'.member index = scope.member index := by
      rw [Scope.member, Scope.member, hdefault]
    have hfield : decodeStructField decodeJs
          (parseObject readNumber (EnumDef.withoutTag tag members)) rest field
          (scope.member index) =
        decodeStructField decodeJs (parseObject readNumber members) rest field
          (scope.member index) := by
      unfold decodeStructField decodeField decodeFieldOr
      by_cases hskip : field.skipDeserializing = true
      · rw [if_pos hskip, if_pos hskip]
      · by_cases hflat : field.flatten = true
        · rw [if_neg hskip, if_neg hskip, if_pos hflat, if_pos hflat]
        · rw [fieldValue_withoutTag readNumber (hfields field List.mem_cons_self
            (by simpa using hskip) (by simpa using hflat))]
    rw [decodeMembers, decodeMembers, hmember, hfield,
      ih fun field hmem => hfields field (List.mem_cons_of_mem _ hmem)]

/-- A struct that knows the tag decodes from an object as one without decodes from the others. -/
theorem toOption_decodeStruct_tagged (scope : Scope V) {tag : Str} {fields : List (Field T V)}
    (htag : scope.tag = none)
    (hfields : ∀ field ∈ fields, field.skipDeserializing = false → field.flatten = false →
      tag ∉ field.name.accepted) (members : List (Str × Json)) :
    (decodeStruct decodeJs { scope with tag := some tag } fields
        (.parse readNumber (.object members))).toOption =
      (decodeStruct decodeJs scope fields
        (.parse readNumber (.object (EnumDef.withoutTag tag members)))).toOption := by
  have hknown (key : Str) : key ∈ ownKeys { scope with tag := some tag } fields ↔
      key ∈ ownKeys scope fields ∨ key = tag := by
    simp [ownKeys, htag]
  have hreject : (rejectUnknown { scope with tag := some tag } fields
        (parseObject readNumber members) : Except JsError Unit).toOption =
      (rejectUnknown scope fields (parseObject readNumber (EnumDef.withoutTag tag members)) :
        Except JsError Unit).toOption := by
    have hiff : (∀ e ∈ members, e.1 ∈ ownKeys { scope with tag := some tag } fields) ↔
        ∀ e ∈ EnumDef.withoutTag tag members, e.1 ∈ ownKeys scope fields := by
      constructor
      · intro h e he
        obtain ⟨he, hkept⟩ := List.mem_filter.mp he
        exact ((hknown e.1).mp (h e he)).resolve_right (of_decide_eq_true hkept)
      · intro h e he
        by_cases hkey : e.1 = tag
        · exact (hknown e.1).mpr (.inr hkey)
        · exact (hknown e.1).mpr (.inl (h e (List.mem_filter.mpr ⟨he, decide_eq_true hkey⟩)))
    unfold rejectUnknown
    dsimp only
    split_ifs
    · have hleft := rejectUnknownFields_eq_ok readNumber
        (ownKeys { scope with tag := some tag } fields) scope.rust members
      have hright := rejectUnknownFields_eq_ok readNumber (ownKeys scope fields) scope.rust
        (EnumDef.withoutTag tag members)
      by_cases hall : ∀ e ∈ members, e.1 ∈ ownKeys { scope with tag := some tag } fields
      · rw [hleft.mpr hall, hright.mpr (hiff.mp hall)]
      · have hne := mt hleft.mp hall
        have hne' := mt hright.mp fun h => hall (hiff.mpr h)
        generalize (rejectUnknownFields (parseObject readNumber members) _ _ :
          Except JsError Unit) = left at hne ⊢
        generalize (rejectUnknownFields (parseObject readNumber _) _ _ :
          Except JsError Unit) = right at hne' ⊢
        cases left with
        | ok => exact absurd rfl hne
        | error =>
          cases right with
          | ok => exact absurd rfl hne'
          | error => rfl
    · rfl
  have hrest : (unclaimed { scope with tag := some tag } fields (parseObject readNumber members) :
        Except JsError JsObject) =
      unclaimed scope fields (parseObject readNumber (EnumDef.withoutTag tag members)) := by
    have hfilter : members.filter (fun e => decide (e.1 ∉ ownKeys { scope with tag := some tag }
          fields)) =
        (EnumDef.withoutTag tag members).filter fun e => decide (e.1 ∉ ownKeys scope fields) := by
      rw [EnumDef.withoutTag, List.filter_filter]
      refine List.filter_congr fun e _ => ?_
      simp only [hknown, not_or, Bool.decide_and]
    unfold unclaimed
    split_ifs
    · rw [objectWithout_parseObject, objectWithout_parseObject, hfilter]
    · rfl
  have hobject (members : List (Str × Json)) :
      (expectObject (.parse readNumber (.object members)) scope.rust : Except JsError JsObject) =
        .ok (parseObject readNumber members) := by
    rw [JsValue.parse_object]
    rfl
  unfold decodeStruct
  dsimp only
  simp only [hobject, toOption_bind, hreject, hrest, toOption_ok, Option.bind_some,
    decodeMembers_withoutTag readNumber decodeJs { scope with tag := some tag } scope rfl hfields
      members]

/-- The payload decoders that the derive writes are shared with serde's side, given that no field of
an internally tagged variant has the tag's name, which serde refuses. -/
theorem EnumDef.decodeHelper_sharesPayload (enum : EnumDef T V)
    (htag : ∀ tag, enum.tagging = .internal tag → ∀ variant ∈ enum.decoded, ∀ fields,
      variant.shape = .struct fields → ∀ field ∈ fields, field.skipDeserializing = false →
        field.flatten = false → tag ∉ field.name.accepted) :
    enum.SharesPayload readNumber (enum.decodeHelper decodeJs) fun variant json =>
      (decodePayload decodeJs { enum.scope with tag := none } variant.shape
        (.parse readNumber json)).toOption := by
  intro variant hmem json
  unfold EnumDef.decodeHelper EnumDef.handed
  cases htagging : enum.tagging with
  | external | adjacent | untagged =>
    have hscope : { enum.scope with tag := none } = enum.scope := by
      rw [EnumDef.scope, htagging]
    rw [hscope]
  | internal tag =>
    have hscope : enum.scope = { { enum.scope with tag := none } with tag := some tag } := by
      rw [EnumDef.scope, htagging]
    rw [hscope]
    dsimp only
    cases hshape : variant.shape with
    | unit | newtype => rfl
    | tuple fields =>
      cases json with
      | object members =>
        rw [JsValue.parse_object, JsValue.parse_object]
        rfl
      | null | bool | number | string | array => rfl
    | struct fields =>
      cases json with
      | object members =>
        exact toOption_decodeStruct_tagged readNumber decodeJs { enum.scope with tag := none } rfl
          (htag tag htagging variant hmem fields hshape) members
      | number value =>
        rw [JsValue.parse, JsValue.ofNumber]
        cases readNumber value <;> rfl
      | null | bool | string | array =>
        rw [JsValue.parse]
        rfl

end Tagged

/-- `#[serde(tag = "kind", content = "of")] enum Badge { Plain(()), Hidden }`. -/
def badge : EnumDef SampleTy Str where
  rust := "Badge".toList
  tagging := .adjacent "kind".toList "of".toList
  denyUnknownFields := false
  variants := [
    ⟨"Plain".toList, ⟨"Plain".toList, "Plain".toList, []⟩,
      .newtype (sampleField .unit "0".toList []), false, false⟩,
    ⟨"Hidden".toList, ⟨"Hidden".toList, "Hidden".toList, []⟩, .unit, false, false⟩]

def badgePayload (readNumber : Number → Int32 ⊕ JsFloat) (variant : Variant SampleTy Str)
    (json : Json) : Option (List Str) :=
  (decodePayload decodeSample { badge.scope with tag := none } variant.shape
    (.parse readNumber json) : Except JsError (List Str)).toOption

def plainBadge : EnumInput :=
  .object [("kind".toList, .string "Plain".toList), ("of".toList, .null)]

def bareBadge : EnumInput := .object [("kind".toList, .string "Plain".toList)]

/-- The same enum, externally tagged, and an object that gives its variant twice. -/
def externalBadge : EnumDef SampleTy Str := { badge with tagging := .external }

def twiceHidden : EnumInput := .object [("Hidden".toList, .null), ("Hidden".toList, .null)]

/-- With its content given, the variant is what serde reads. -/
theorem badge_with_content :
    (badge.decodeBody (badge.decodeHelper decodeSample)
      (.parse readInt plainBadge.toJson)).toOption =
      badge.deserialize (badgePayload readInt) (fun _ => none) plainBadge.toJson := by
  have hshare : badge.SharesPayload readInt (badge.decodeHelper decodeSample)
      (badgePayload readInt) :=
    EnumDef.decodeHelper_sharesPayload readInt decodeSample badge nofun
  refine (EnumDef.decodeBody_agrees readInt badge _ _ _ hshare plainBadge).mpr (.inr ?_)
  intro variant _
  exact .inl ⟨rfl, rfl⟩

/-- Without its content the variant decodes, where serde misses a field, `()` being no `Option`; and
an external variant that is given twice decodes, where serde reads one member only. -/
theorem badge_without_content :
    ((badge.decodeBody (badge.decodeHelper decodeSample)
      (.parse readInt bareBadge.toJson)).toOption = some ("Plain".toList, [[]]) ∧
    badge.deserialize (badgePayload readInt) (fun _ => none) bareBadge.toJson = none) ∧
    (externalBadge.decodeBody (externalBadge.decodeHelper decodeSample)
      (.parse readInt twiceHidden.toJson)).toOption = some ("Hidden".toList, []) ∧
    externalBadge.deserialize (badgePayload readInt) (fun _ => none) twiceHidden.toJson = none :=
  ⟨⟨rfl, rfl⟩, rfl, rfl⟩

end RustTS.Contract
