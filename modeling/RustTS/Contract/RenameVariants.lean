import RustTS.Contract.Rename
import RustTS.Contract.EnumRoundTrip

/-! Naming the variants of an enum: a rule tells variants that are written in Pascal case from each
other, so decoding finds the variant that was encoded. -/
namespace RustTS.Contract

section
variable (isUppercase : Char → Bool)

/-- An upper case letter of ASCII, then no `_`, and upper case of ASCII only. -/
def isPascal : Str → Bool
  | [] => false
  | c :: rest => c.isUpper && rest.all fun d => decide (d ≠ '_') && (isUppercase d == d.isUpper)

end

def upperFirst : Str → Str
  | [] => []
  | first :: characters => first.toUpper :: characters

/-- A variant of one word. -/
def isWord : Str → Bool
  | [] => false
  | c :: rest => c.isUpper && rest.all fun d => !d.isUpper

def startsUpper : Str → Bool
  | [] => false
  | c :: _ => c.isUpper

section
variable {isUppercase : Char → Bool} {variant : Str}

private theorem toUpper_of_isUpper {c : Char} (h : c.isUpper = true) : c.toUpper = c :=
  Char.toUpper_eq_of_not_isLower (Char.not_isLower_of_isUpper h)

theorem toUpper_toLower_of_isUpper {c : Char} (h : c.isUpper = true) : c.toLower.toUpper = c := by
  rw [Char.toUpper_toLower_eq_toUpper, toUpper_of_isUpper h]

theorem eq_of_toLower_eq {c d : Char} (h : c.toLower = d) (hd : d.isUpper = false ∧ d.isLower = false) :
    c = d := by
  by_cases hc : c.isUpper = true
  · have halpha : d.isLower = true := by
      rw [← h, Char.isLower_toLower_eq_isAlpha]
      simp [Char.isAlpha, hc]
    simp [hd.2] at halpha
  · exact (Char.toLower_eq_of_not_isUpper hc).symm.trans h

theorem pascalFrom_snakeFrom {rest : Str}
    (h : (rest.all fun d => decide (d ≠ '_') && (isUppercase d == d.isUpper)) = true) :
    pascalFrom false (snakeFrom isUppercase rest) = rest := by
  induction rest with
  | nil => rfl
  | cons d rest ih =>
    rw [List.all_cons, Bool.and_eq_true, Bool.and_eq_true, decide_eq_true_eq, beq_iff_eq] at h
    obtain ⟨⟨hne, hupper⟩, hrest⟩ := h
    have hlower : d.toLower ≠ '_' := fun heq => hne (eq_of_toLower_eq heq (by decide))
    unfold snakeFrom
    by_cases hd : isUppercase d = true
    · rw [if_pos hd, pascalFrom, if_pos rfl, pascalFrom, if_neg hlower, if_pos rfl, ih hrest,
        toUpper_toLower_of_isUpper (hupper ▸ hd)]
    · have hsame : d.toLower = d := Char.toLower_eq_of_not_isUpper (hupper ▸ hd)
      rw [if_neg hd, pascalFrom, if_neg hlower, if_neg Bool.false_ne_true, ih hrest, hsame]

theorem pascalFromSnake_snakeFromPascal (h : isPascal isUppercase variant = true) :
    pascalFromSnake (snakeFromPascal isUppercase variant) = variant := by
  cases variant with
  | nil => cases h
  | cons c rest =>
    obtain ⟨hc, hrest⟩ := Bool.and_eq_true_iff.mp h
    have hne : c ≠ '_' := fun heq => absurd (heq ▸ hc) (by decide)
    have hlower : c.toLower ≠ '_' := fun heq => hne (eq_of_toLower_eq heq (by decide))
    rw [snakeFromPascal, pascalFromSnake, pascalFrom, if_neg hlower, if_pos rfl,
      pascalFrom_snakeFrom hrest, toUpper_toLower_of_isUpper hc]

theorem mem_snakeFrom {d : Char} {rest : Str} (h : d ∈ snakeFrom isUppercase rest) :
    d = '_' ∨ ∃ c ∈ rest, c.toLower = d := by
  induction rest with
  | nil => cases h
  | cons c rest ih =>
    have hcases : d = '_' ∨ d = c.toLower ∨ d ∈ snakeFrom isUppercase rest := by
      unfold snakeFrom at h
      split_ifs at h
      · simpa using h
      · exact .inr (by simpa using h)
    obtain hd | rfl | hd := hcases
    · exact .inl hd
    · exact .inr ⟨c, List.mem_cons_self, rfl⟩
    · obtain hunderscore | ⟨c', hc', heq⟩ := ih hd
      · exact .inl hunderscore
      · exact .inr ⟨c', List.mem_cons_of_mem _ hc', heq⟩

theorem mem_snakeFromPascal {d : Char} (h : d ∈ snakeFromPascal isUppercase variant) :
    d = '_' ∨ ∃ c ∈ variant, c.toLower = d := by
  cases variant with
  | nil => cases h
  | cons c rest =>
    obtain rfl | hd := List.mem_cons.mp h
    · exact .inr ⟨c, List.mem_cons_self, rfl⟩
    · obtain hunderscore | ⟨c', hc', heq⟩ := mem_snakeFrom hd
      · exact .inl hunderscore
      · exact .inr ⟨c', List.mem_cons_of_mem _ hc', heq⟩

private theorem not_isUpper_of_mem_snakeFromPascal {d : Char}
    (h : d ∈ snakeFromPascal isUppercase variant) : d.isUpper = false := by
  obtain rfl | ⟨c, -, rfl⟩ := mem_snakeFromPascal h
  · rfl
  · exact Char.isUpper_toLower_eq_false c

theorem hyphen_not_mem_snakeFromPascal (h : '-' ∉ variant) :
    '-' ∉ snakeFromPascal isUppercase variant := by
  intro hmem
  obtain heq | ⟨c, hc, heq⟩ := mem_snakeFromPascal hmem
  · exact absurd heq (by decide)
  · exact h (eq_of_toLower_eq heq (by decide) ▸ hc)

private theorem startsUpper_of_isWord (h : isWord variant = true) : startsUpper variant = true := by
  cases variant with
  | nil => cases h
  | cons c rest => exact (Bool.and_eq_true_iff.mp h).1

private theorem startsUpper_of_isPascal (h : isPascal isUppercase variant = true) :
    startsUpper variant = true := by
  cases variant with
  | nil => cases h
  | cons c rest => exact (Bool.and_eq_true_iff.mp h).1

theorem head_toLower_ne_proto {name : Str} (h : startsUpper variant = true)
    (hname : name.head? = variant.head?.map Char.toLower) : name ≠ "__proto__".toList := by
  cases variant with
  | nil => cases h
  | cons c rest =>
    rintro rfl
    have hc : c.toLower = '_' := (Option.some.inj hname).symm
    have hupper : c.isUpper = true := h
    rw [eq_of_toLower_eq hc (by decide)] at hupper
    exact absurd hupper (by decide)

theorem upperFirst_toAsciiLowercase (h : isWord variant = true) :
    upperFirst (toAsciiLowercase variant) = variant := by
  cases variant with
  | nil => rfl
  | cons c rest =>
    obtain ⟨hc, hrest⟩ := Bool.and_eq_true_iff.mp h
    have hsame : rest.map Char.toLower = rest := by
      conv_rhs => rw [← List.map_id rest]
      refine List.map_congr_left fun d hd => Char.toLower_eq_of_not_isUpper ?_
      simpa using List.all_eq_true.mp hrest d hd
    show c.toLower.toUpper :: rest.map Char.toLower = c :: rest
    rw [toUpper_toLower_of_isUpper hc, hsame]

private theorem toAsciiLowercase_toUpper (text : Str) :
    toAsciiLowercase (toAsciiUppercase text) = toAsciiLowercase text := by
  simp [toAsciiLowercase, toAsciiUppercase]

private theorem upperFirst_lowerFirst (h : startsUpper variant = true) :
    upperFirst (lowerFirst variant) = variant := by
  cases variant with
  | nil => rfl
  | cons c rest => rw [lowerFirst, upperFirst, toUpper_toLower_of_isUpper h]

end

namespace RenameRule

variable {isUppercase : Char → Bool} {rule : RenameRule} {variant : Str}

/-- The variants that the rule tells from each other. -/
def SeparatesVariant (isUppercase : Char → Bool) : RenameRule → Str → Prop
  | .pascal, _ => True
  | .camel, variant => startsUpper variant = true
  | .lower, variant | .upper, variant => isWord variant = true
  | .snake, variant | .screamingSnake, variant => isPascal isUppercase variant = true
  | .kebab, variant | .screamingKebab, variant => isPascal isUppercase variant = true ∧ '-' ∉ variant

/-- The variant whose name this is. -/
def identOf : RenameRule → Str → Str
  | .pascal, name => name
  | .camel, name | .lower, name => upperFirst name
  | .upper, name => upperFirst (toAsciiLowercase name)
  | .snake, name => pascalFromSnake name
  | .screamingSnake, name => pascalFromSnake (toAsciiLowercase name)
  | .kebab, name => pascalFromSnake (underscored name)
  | .screamingKebab, name => pascalFromSnake (toAsciiLowercase (underscored name))

theorem identOf_applyToVariant (h : rule.SeparatesVariant isUppercase variant) :
    rule.identOf (rule.applyToVariant isUppercase variant) = variant := by
  have hlowered : toAsciiLowercase (toAsciiUppercase (snakeFromPascal isUppercase variant)) =
      snakeFromPascal isUppercase variant :=
    toAsciiLowercase_toAsciiUppercase fun _ => not_isUpper_of_mem_snakeFromPascal
  cases rule with
  | pascal => rfl
  | camel => exact upperFirst_lowerFirst h
  | lower => exact upperFirst_toAsciiLowercase h
  | upper =>
    show upperFirst (toAsciiLowercase (toAsciiUppercase variant)) = variant
    rw [toAsciiLowercase_toUpper, upperFirst_toAsciiLowercase h]
  | snake => exact pascalFromSnake_snakeFromPascal h
  | screamingSnake =>
    show pascalFromSnake (toAsciiLowercase (toAsciiUppercase _)) = variant
    rw [hlowered]
    exact pascalFromSnake_snakeFromPascal h
  | kebab =>
    show pascalFromSnake (underscored (hyphenated _)) = variant
    rw [underscored_hyphenated (hyphen_not_mem_snakeFromPascal h.2)]
    exact pascalFromSnake_snakeFromPascal h.1
  | screamingKebab =>
    show pascalFromSnake (toAsciiLowercase (underscored (hyphenated (toAsciiUppercase _)))) = variant
    rw [underscored_hyphenated (hyphen_not_mem_toAsciiUppercase (hyphen_not_mem_snakeFromPascal h.2)),
      hlowered]
    exact pascalFromSnake_snakeFromPascal h.1

private theorem applyToVariant_ne_proto (h : rule.SeparatesVariant isUppercase variant)
    (hproto : variant ≠ "__proto__".toList) :
    rule.applyToVariant isUppercase variant ≠ "__proto__".toList := by
  cases rule with
  | pascal => exact hproto
  | upper | screamingSnake => exact toAsciiUppercase_ne_proto _
  | kebab | screamingKebab => exact hyphenated_ne_proto _
  | camel => exact head_toLower_ne_proto h (by cases variant <;> rfl)
  | lower => exact head_toLower_ne_proto (startsUpper_of_isWord h) (by cases variant <;> rfl)
  | snake => exact head_toLower_ne_proto (startsUpper_of_isPascal h) (by cases variant <;> rfl)

end RenameRule

section
variable {T V : Type}

namespace EnumDef

/-- A `rename_all` rule for both directions names the variants. -/
structure RenamesAll (isUppercase : Char → Bool) (rule : RenameRule) (enum : EnumDef T V) : Prop where
  names : ∀ variant ∈ enum.variants, variant.name =
    Name.variant isUppercase variant.ident ⟨none, none⟩ ⟨some rule, some rule⟩ []
  distinct : (enum.variants.map fun variant => original variant.ident).Nodup

/-- The keys of the tag and the content are told from each other, from what every object inherits and
from the fields of the variant. -/
def Placed (enum : EnumDef T V) (variant : Variant T V) : Prop :=
  match enum.tagging with
  | .external => True
  | .internal tag => tag ≠ "__proto__".toList ∧ variant.shape.LeavesOut tag
  | .adjacent tag content =>
    tag ≠ "__proto__".toList ∧ content ≠ "__proto__".toList ∧ tag ≠ content
  | .untagged => False

namespace RenamesAll

variable {isUppercase : Char → Bool} {rule : RenameRule} {enum : EnumDef T V}

theorem serialize_eq (h : RenamesAll isUppercase rule enum) {variant : Variant T V}
    (hmem : variant ∈ enum.variants) :
    variant.name.serialize = rule.applyToVariant isUppercase (original variant.ident) := by
  rw [h.names variant hmem]
  rfl

theorem eq_of_serialize_eq (h : RenamesAll isUppercase rule enum)
    (hseparates : ∀ variant ∈ enum.variants, rule.SeparatesVariant isUppercase (original variant.ident))
    {variant other : Variant T V} (hmem : variant ∈ enum.variants) (hother : other ∈ enum.variants)
    (heq : other.name.serialize = variant.name.serialize) : other = variant := by
  rw [h.serialize_eq hmem, h.serialize_eq hother] at heq
  refine List.inj_on_of_nodup_map h.distinct hother hmem ?_
  rw [← RenameRule.identOf_applyToVariant (hseparates other hother), heq,
    RenameRule.identOf_applyToVariant (hseparates variant hmem)]

theorem variantOf_serialize (h : RenamesAll isUppercase rule enum)
    (hseparates : ∀ variant ∈ enum.variants, rule.SeparatesVariant isUppercase (original variant.ident))
    {variant : Variant T V} (hmem : variant ∈ enum.variants)
    (hdecoded : variant.skipDeserializing = false) :
    enum.variantOf variant.name.serialize = some variant := by
  have haccepted {other : Variant T V} (hother : other ∈ enum.variants) :
      other.name.accepted = [other.name.serialize] := by
    rw [h.names other hother]
    rfl
  cases hfound : enum.variantOf variant.name.serialize with
  | none =>
    have hin : variant ∈ enum.decoded := List.mem_filter.mpr ⟨hmem, by simp [hdecoded]⟩
    have hnot := List.find?_eq_none.mp hfound variant hin
    simp [haccepted hmem] at hnot
  | some other =>
    have hother : other ∈ enum.variants := (List.mem_filter.mp (List.mem_of_find?_eq_some hfound)).1
    have hname := List.find?_some hfound
    simp only [haccepted hother, decide_eq_true_eq, List.mem_singleton] at hname
    rw [h.eq_of_serialize_eq hseparates hmem hother hname.symm]

end RenamesAll

end EnumDef

variable {m : Type → Type} [Monad m] [MonadExcept JsError m] [LawfulOutcome JsError m]

/-- A variant of a tagged enum whose variants a rule names comes back from JavaScript as itself, and as
it was where it keeps the members that do not cross: under `rename_all` no variant takes another's
name. -/
theorem EnumDef.renamed_variants_come_back (js : QuickJs) (encodeJs : T → V → m JsValue)
    (decodeJs : T → JsValue → m V) (isUppercase : Char → Bool) (rule : RenameRule) (enum : EnumDef T V)
    (variant : Variant T V) (values : List V) (value : JsValue)
    (hrenamed : enum.RenamesAll isUppercase rule)
    (hseparates : ∀ variant ∈ enum.variants, rule.SeparatesVariant isUppercase (original variant.ident))
    (hmem : variant ∈ enum.variants) (hdecoded : variant.skipDeserializing = false)
    (hproto : original variant.ident ≠ "__proto__".toList) (hplaced : enum.Placed variant)
    (hlength : variant.shape.fields.length = values.length)
    (hreturns : enum.Returns js encodeJs decodeJs variant values)
    (hencoded : enum.encodeBody js encodeJs variant values = pure value) :
    (enum.variants.map (·.name.serialize)).Nodup ∧
      (enum.decodeBody (enum.decodeHelper decodeJs) value = pure (variant.ident, values) ↔
        variant.shape.Keeps decodeJs enum.scope values) := by
  have hnamed := hrenamed.variantOf_serialize hseparates hmem hdecoded
  have hkey : variant.name.serialize ≠ "__proto__".toList := by
    rw [hrenamed.serialize_eq hmem]
    exact RenameRule.applyToVariant_ne_proto (hseparates variant hmem) hproto
  have htells : enum.Tells decodeJs variant value ∧ enum.tagging ≠ .untagged := by
    unfold EnumDef.Placed at hplaced
    unfold EnumDef.Tells
    cases htagging : enum.tagging with
    | external => exact ⟨⟨hnamed, hkey⟩, by simp⟩
    | internal tag =>
      rw [htagging] at hplaced
      exact ⟨⟨hnamed, hplaced⟩, by simp⟩
    | adjacent tag content =>
      rw [htagging] at hplaced
      exact ⟨⟨hnamed, hplaced⟩, by simp⟩
    | untagged =>
      rw [htagging] at hplaced
      exact hplaced.elim
  have hback := EnumDef.decodeBody_encoded js encodeJs decodeJs enum variant values value hlength
    hreturns htells.1 hencoded
  refine ⟨?_, hback.2 htells.2, hback.1⟩
  have hnodup := List.Nodup.of_map _ hrenamed.distinct
  exact hnodup.map_on fun one hone other hother heq =>
    hrenamed.eq_of_serialize_eq hseparates hother hone heq

end

def moveVariant (ident name : Str) (shape : Shape Unit Str) : Variant Unit Str where
  ident := ident
  name := ⟨name, name, []⟩
  shape := shape
  skipSerializing := false
  skipDeserializing := false

/-- Two variants under `rename_all = "kebab-case"`. -/
def move : EnumDef Unit Str where
  rust := "Move".toList
  tagging := .external
  denyUnknownFields := false
  variants := [moveVariant "GoHome".toList "go-home".toList .unit,
    moveVariant "GoTo".toList "go-to".toList (.newtype (textField "0".toList none none))]

/-- The second comes back. -/
theorem move_comes_back :
    ∃ value, move.encodeBody plainJs encodeText
        (moveVariant "GoTo".toList "go-to".toList (.newtype (textField "0".toList none none)))
        ["a".toList] = pure value ∧
      move.decodeBody (move.decodeHelper decodeText) value = pure ("GoTo".toList, ["a".toList]) := by
  refine ⟨_, rfl, ?_⟩
  refine (EnumDef.renamed_variants_come_back plainJs encodeText decodeText Char.isUpper .kebab move
    (moveVariant "GoTo".toList "go-to".toList (.newtype (textField "0".toList none none)))
    ["a".toList] _ ⟨?_, by decide⟩ ?_ (.tail _ (.head _)) rfl (by decide) trivial rfl ⟨trivial, ?_⟩
    rfl).2.mpr trivial
  · intro variant hvariant
    rcases List.mem_cons.mp hvariant with rfl | hvariant
    · rfl
    · rw [List.mem_singleton.mp hvariant]
      rfl
  · intro variant hvariant
    rcases List.mem_cons.mp hvariant with rfl | hvariant
    · exact ⟨by decide, by decide⟩
    · rw [List.mem_singleton.mp hvariant]
      exact ⟨by decide, by decide⟩
  · intro text htext encoded hencoded
    obtain rfl := List.mem_singleton.mp htext
    exact (textField_returns _ _ _ _ encoded hencoded).2

end RustTS.Contract
