import Mathlib
import RustTS.Contract.StructRoundTrip

/-! Serde-compatible naming: `rename_all` rules and the names of fields and variants for each direction.
A rule tells fields that are written in snake case from each other. -/
namespace RustTS.Contract

/-- A serde `rename_all` case rule. -/
inductive RenameRule
  | lower | upper | pascal | camel | snake | screamingSnake | kebab | screamingKebab
  deriving DecidableEq, Repr

def RenameRule.parse (lit : Str) : Except Str RenameRule :=
  if lit = "lowercase".toList then .ok .lower
  else if lit = "UPPERCASE".toList then .ok .upper
  else if lit = "PascalCase".toList then .ok .pascal
  else if lit = "camelCase".toList then .ok .camel
  else if lit = "snake_case".toList then .ok .snake
  else if lit = "SCREAMING_SNAKE_CASE".toList then .ok .screamingSnake
  else if lit = "kebab-case".toList then .ok .kebab
  else if lit = "SCREAMING-KEBAB-CASE".toList then .ok .screamingKebab
  else .error "unsupported serde rename_all rule".toList

/-- The text of a rule. -/
def RenameRule.text : RenameRule → Str
  | .lower => "lowercase".toList
  | .upper => "UPPERCASE".toList
  | .pascal => "PascalCase".toList
  | .camel => "camelCase".toList
  | .snake => "snake_case".toList
  | .screamingSnake => "SCREAMING_SNAKE_CASE".toList
  | .kebab => "kebab-case".toList
  | .screamingKebab => "SCREAMING-KEBAB-CASE".toList

theorem RenameRule.parse_eq_ok {lit : Str} {rule : RenameRule} :
    RenameRule.parse lit = .ok rule ↔ lit = rule.text := by
  constructor
  · intro h
    unfold RenameRule.parse at h
    split_ifs at h with hlower hupper hpascal hcamel hsnake hscreaming hkebab hscreamingKebab
    all_goals
      cases h
      assumption
  · rintro rfl
    cases rule <;> rfl

def toAsciiUppercase (text : Str) : Str := text.map Char.toUpper

def toAsciiLowercase (text : Str) : Str := text.map Char.toLower

/-- Replaces each `_` by `-`. -/
def hyphenated (text : Str) : Str := text.map fun c => if c = '_' then '-' else c

/-- The loop of `pascal_from_snake`; `capitalize` holds where a word begins. -/
def pascalFrom (capitalize : Bool) : Str → Str
  | [] => []
  | character :: field =>
    if character = '_' then pascalFrom true field
    else if capitalize then character.toUpper :: pascalFrom false field
    else character :: pascalFrom false field

def pascalFromSnake (field : Str) : Str := pascalFrom true field

section
-- `char::is_uppercase`, which knows all of Unicode
variable (isUppercase : Char → Bool)

/-- The loop of `snake_from_pascal` after the first character. -/
def snakeFrom : Str → Str
  | [] => []
  | character :: variant =>
    if isUppercase character then '_' :: character.toLower :: snakeFrom variant
    else character.toLower :: snakeFrom variant

def snakeFromPascal : Str → Str
  | [] => []
  | character :: variant => character.toLower :: snakeFrom isUppercase variant

def lowerFirst : Str → Str
  | [] => []
  | first :: characters => first.toLower :: characters

namespace RenameRule

/-- Renames a `snake_case` field identifier. -/
def applyToField : RenameRule → Str → Str
  | .lower, field | .snake, field => field
  | .upper, field | .screamingSnake, field => toAsciiUppercase field
  | .pascal, field => pascalFromSnake field
  | .camel, field => lowerFirst (pascalFromSnake field)
  | .kebab, field => hyphenated field
  | .screamingKebab, field => hyphenated (toAsciiUppercase field)

/-- Renames a `PascalCase` variant identifier. -/
def applyToVariant : RenameRule → Str → Str
  | .pascal, variant => variant
  | .lower, variant => toAsciiLowercase variant
  | .upper, variant => toAsciiUppercase variant
  | .camel, variant => lowerFirst variant
  | .snake, variant => snakeFromPascal isUppercase variant
  | .screamingSnake, variant => toAsciiUppercase (snakeFromPascal isUppercase variant)
  | .kebab, variant => hyphenated (snakeFromPascal isUppercase variant)
  | .screamingKebab, variant => hyphenated (toAsciiUppercase (snakeFromPascal isUppercase variant))

end RenameRule

/-- `rename_all` rules for each direction. -/
structure RenameRules where
  serialize : Option RenameRule
  deserialize : Option RenameRule

/-- An explicit serde `rename` for each direction. -/
structure Renamed where
  serialize : Option Str
  deserialize : Option Str

/-- An identifier without `r#`. -/
def original (ident : Str) : Str :=
  if "r#".toList.isPrefixOf ident then ident.drop 2 else ident

namespace Name

def resolve (ident : Str) (renamed : Renamed) (rules : RenameRules) (aliases : List Str)
    (apply : RenameRule → Str → Str) : Name :=
  let directional (explicit : Option Str) (rule : Option RenameRule) : Str :=
    explicit.getD (match rule with
      | some rule => apply rule (original ident)
      | none => original ident)
  ⟨directional renamed.serialize rules.serialize,
    directional renamed.deserialize rules.deserialize, aliases⟩

def field (ident : Str) (renamed : Renamed) (rules : RenameRules) (aliases : List Str) : Name :=
  resolve ident renamed rules aliases RenameRule.applyToField

def variant (ident : Str) (renamed : Renamed) (rules : RenameRules) (aliases : List Str) : Name :=
  resolve ident renamed rules aliases (RenameRule.applyToVariant isUppercase)

end Name

/-- Words that begin with a lower case letter of ASCII and have no upper case, with `_` between them. -/
def isSnakeFrom (wordStart : Bool) : Str → Bool
  | [] => !wordStart
  | c :: rest =>
    if wordStart then c.isLower && isSnakeFrom false rest
    else if c = '_' then isSnakeFrom true rest
    else !isUppercase c && isSnakeFrom false rest

def isSnake (field : Str) : Bool := isSnakeFrom isUppercase true field

variable {isUppercase}

theorem toLower_toUpper_of_isLower {c : Char} (h : c.isLower = true) : c.toUpper.toLower = c := by
  rw [Char.toLower_toUpper_eq_toLower]
  exact Char.toLower_eq_of_not_isUpper (Char.not_isUpper_of_isLower h)

theorem ne_underscore_of_isLower {c : Char} (h : c.isLower = true) : c ≠ '_' := by
  rintro rfl
  exact absurd h (by decide)

theorem snakeFrom_pascalFrom (hascii : ∀ c : Char, c.isUpper = true → isUppercase c = true)
    {field : Str} {wordStart : Bool} (h : isSnakeFrom isUppercase wordStart field = true) :
    snakeFrom isUppercase (pascalFrom wordStart field) = if wordStart then '_' :: field else field := by
  induction field generalizing wordStart with
  | nil => cases wordStart <;> simp_all [isSnakeFrom, pascalFrom, snakeFrom]
  | cons c rest ih =>
    unfold isSnakeFrom at h
    unfold pascalFrom
    cases wordStart with
    | true =>
      simp only [if_true, Bool.and_eq_true] at h ⊢
      have hupper : isUppercase c.toUpper = true := hascii _ (by simp [Char.isAlpha, h.1])
      rw [if_neg (ne_underscore_of_isLower h.1), snakeFrom, if_pos hupper,
        toLower_toUpper_of_isLower h.1, ih h.2]
      rfl
    | false =>
      simp only [Bool.false_eq_true, if_false] at h ⊢
      by_cases hc : c = '_'
      · rw [if_pos hc] at h ⊢
        rw [ih h, hc]
        rfl
      · simp only [if_neg hc, Bool.and_eq_true, Bool.not_eq_true'] at h ⊢
        have hupper : ¬ c.isUpper = true := fun hupper => by simp [hascii c hupper] at h
        rw [snakeFrom, h.1, Char.toLower_eq_of_not_isUpper hupper, ih h.2]
        rfl

private theorem isSnake_cons {field : Str} (h : isSnake isUppercase field = true) :
    ∃ c rest, field = c :: rest ∧ c.isLower = true ∧ isSnakeFrom isUppercase false rest = true := by
  cases field with
  | nil => cases h
  | cons c rest =>
    obtain ⟨hc, hrest⟩ := Bool.and_eq_true_iff.mp h
    exact ⟨c, rest, rfl, hc, hrest⟩

theorem snakeFromPascal_pascalFromSnake (hascii : ∀ c : Char, c.isUpper = true → isUppercase c = true)
    {field : Str} (h : isSnake isUppercase field = true) :
    snakeFromPascal isUppercase (pascalFromSnake field) = field := by
  obtain ⟨c, rest, rfl, hc, hrest⟩ := isSnake_cons h
  rw [pascalFromSnake, pascalFrom, if_neg (ne_underscore_of_isLower hc), if_pos rfl, snakeFromPascal,
    toLower_toUpper_of_isLower hc, snakeFrom_pascalFrom hascii hrest]
  rfl

private theorem snakeFromPascal_lowerFirst (variant : Str) :
    snakeFromPascal isUppercase (lowerFirst variant) = snakeFromPascal isUppercase variant := by
  cases variant with
  | nil => rfl
  | cons c rest => rw [lowerFirst, snakeFromPascal, snakeFromPascal, Char.toLower_toLower_eq_toLower]

end

theorem eq_of_toUpper_eq {c d : Char} (h : c.toUpper = d) (hd : d.isUpper = false ∧ d.isLower = false) :
    c = d := by
  by_cases hc : c.isLower = true
  · have halpha : d.isUpper = true := by
      rw [← h, Char.isUpper_toUpper_eq_isAlpha]
      simp [Char.isAlpha, hc]
    simp [hd.1] at halpha
  · exact (Char.toUpper_eq_of_not_isLower hc).symm.trans h

theorem toAsciiLowercase_toAsciiUppercase {field : Str} (h : ∀ c ∈ field, c.isUpper = false) :
    toAsciiLowercase (toAsciiUppercase field) = field := by
  unfold toAsciiLowercase toAsciiUppercase
  rw [List.map_map]
  conv_rhs => rw [← List.map_id field]
  refine List.map_congr_left fun c hc => ?_
  show c.toUpper.toLower = c
  rw [Char.toLower_toUpper_eq_toLower, Char.toLower_eq_of_not_isUpper (by simp [h c hc])]

/-- Replaces each `-` by `_`. -/
def underscored (text : Str) : Str := text.map fun c => if c = '-' then '_' else c

theorem underscored_hyphenated {field : Str} (h : '-' ∉ field) :
    underscored (hyphenated field) = field := by
  unfold underscored hyphenated
  rw [List.map_map]
  conv_rhs => rw [← List.map_id field]
  refine List.map_congr_left fun c hc => ?_
  by_cases hunderscore : c = '_'
  · simp [hunderscore]
  · have hhyphen : c ≠ '-' := fun heq => h (heq ▸ hc)
    simp [hunderscore, hhyphen]

theorem hyphen_not_mem_toAsciiUppercase {field : Str} (h : '-' ∉ field) :
    '-' ∉ toAsciiUppercase field := by
  intro hmem
  obtain ⟨c, hc, heq⟩ := List.mem_map.mp hmem
  exact h (eq_of_toUpper_eq heq (by decide) ▸ hc)

theorem underscore_not_mem_pascalFrom (capitalize : Bool) (field : Str) :
    '_' ∉ pascalFrom capitalize field := by
  induction field generalizing capitalize with
  | nil => exact List.not_mem_nil
  | cons c rest ih =>
    unfold pascalFrom
    by_cases hc : c = '_'
    · rw [if_pos hc]
      exact ih true
    · rw [if_neg hc]
      cases capitalize with
      | true =>
        have hupper : c.toUpper ≠ '_' := fun heq => hc (eq_of_toUpper_eq heq (by decide))
        simp [hupper.symm, ih false]
      | false => simp [Ne.symm hc, ih false]

private theorem underscore_not_mem_hyphenated (field : Str) : '_' ∉ hyphenated field := by
  intro hmem
  obtain ⟨c, -, heq⟩ := List.mem_map.mp hmem
  by_cases hc : c = '_'
  · rw [if_pos hc] at heq
    exact absurd heq (by decide)
  · rw [if_neg hc] at heq
    exact hc heq

theorem toAsciiUppercase_ne_proto (text : Str) : toAsciiUppercase text ≠ "__proto__".toList := by
  intro heq
  have hmem : 'p' ∈ toAsciiUppercase text := heq ▸ by decide
  obtain ⟨c, -, hc⟩ := List.mem_map.mp hmem
  have hlower := Char.isLower_toUpper_eq_false c
  rw [hc] at hlower
  exact absurd hlower (by decide)

theorem hyphenated_ne_proto (text : Str) : hyphenated text ≠ "__proto__".toList := by
  intro heq
  refine underscore_not_mem_hyphenated text ?_
  rw [heq]
  decide

theorem not_isUpper_of_isSnakeFrom {field : Str} {wordStart : Bool}
    (h : isSnakeFrom Char.isUpper wordStart field = true) : ∀ c ∈ field, c.isUpper = false := by
  induction field generalizing wordStart with
  | nil => simp
  | cons c rest ih =>
    rw [List.forall_mem_cons]
    unfold isSnakeFrom at h
    split_ifs at h with hstart hc
    · obtain ⟨hlower, hrest⟩ := Bool.and_eq_true_iff.mp h
      exact ⟨Bool.eq_false_iff.mpr (Char.not_isUpper_of_isLower hlower), ih hrest⟩
    · exact ⟨hc ▸ rfl, ih h⟩
    · obtain ⟨hupper, hrest⟩ := Bool.and_eq_true_iff.mp h
      exact ⟨Bool.not_eq_true' _ ▸ hupper, ih hrest⟩

namespace RenameRule

variable {rule : RenameRule} {field : Str}

/-- The fields that the rule tells from each other. -/
def Separates : RenameRule → Str → Prop
  | .lower, _ | .snake, _ => True
  | .upper, field | .screamingSnake, field => ∀ c ∈ field, c.isUpper = false
  | .pascal, field | .camel, field => isSnake Char.isUpper field = true
  | .kebab, field => '-' ∉ field
  | .screamingKebab, field => (∀ c ∈ field, c.isUpper = false) ∧ '-' ∉ field

private theorem separates_of_isSnake (rule : RenameRule) (h : isSnake Char.isUpper field = true)
    (hhyphen : '-' ∉ field) : rule.Separates field := by
  have hupper := not_isUpper_of_isSnakeFrom h
  cases rule with
  | lower | snake => trivial
  | upper | screamingSnake => exact hupper
  | pascal | camel => exact h
  | kebab => exact hhyphen
  | screamingKebab => exact ⟨hupper, hhyphen⟩

/-- The field whose name this is. -/
def fieldOf : RenameRule → Str → Str
  | .lower, name | .snake, name => name
  | .upper, name | .screamingSnake, name => toAsciiLowercase name
  | .pascal, name | .camel, name => snakeFromPascal Char.isUpper name
  | .kebab, name => underscored name
  | .screamingKebab, name => toAsciiLowercase (underscored name)

theorem fieldOf_applyToField (h : rule.Separates field) :
    rule.fieldOf (rule.applyToField field) = field := by
  have hascii (c : Char) (hc : c.isUpper = true) : c.isUpper = true := hc
  cases rule with
  | lower | snake => rfl
  | upper | screamingSnake => exact toAsciiLowercase_toAsciiUppercase h
  | pascal => exact snakeFromPascal_pascalFromSnake hascii h
  | camel => exact (snakeFromPascal_lowerFirst _).trans (snakeFromPascal_pascalFromSnake hascii h)
  | kebab => exact underscored_hyphenated h
  | screamingKebab =>
    show toAsciiLowercase (underscored (hyphenated (toAsciiUppercase field))) = field
    rw [underscored_hyphenated (hyphen_not_mem_toAsciiUppercase h.2)]
    exact toAsciiLowercase_toAsciiUppercase h.1

/-- A word that begins with a digit has no case to tell it by. -/
example : RenameRule.pascal.applyToField "x_1".toList = RenameRule.pascal.applyToField "x1".toList := by
  decide

theorem applyToField_ne_proto (rule : RenameRule) (h : field ≠ "__proto__".toList) :
    rule.applyToField field ≠ "__proto__".toList := by
  cases rule with
  | lower | snake => exact h
  | upper | screamingSnake => exact toAsciiUppercase_ne_proto field
  | pascal =>
    intro heq
    have hpascal : pascalFrom true field = "__proto__".toList := heq
    refine underscore_not_mem_pascalFrom true field ?_
    rw [hpascal]
    decide
  | camel =>
    intro heq
    have hlower : lowerFirst (pascalFromSnake field) = "__proto__".toList := heq
    cases hpascal : pascalFromSnake field with
    | nil =>
      rw [hpascal] at hlower
      exact absurd hlower (by decide)
    | cons c rest =>
      rw [hpascal] at hlower
      have hrest : rest = "_proto__".toList := (List.cons.inj hlower).2
      refine underscore_not_mem_pascalFrom true field ?_
      have hfield : pascalFrom true field = c :: rest := hpascal
      rw [hfield, hrest]
      exact List.mem_cons_of_mem _ (by decide)
  | kebab | screamingKebab => exact hyphenated_ne_proto _

end RenameRule

section
variable {T V : Type}

/-- Named fields that a `rename_all` rule for both directions names. -/
structure RenamesAll (rule : RenameRule) (idents : List Str) (fields : List (Field T V)) : Prop where
  names : fields.map (·.name) =
    idents.map fun ident => Name.field ident ⟨none, none⟩ ⟨some rule, some rule⟩ []
  flat : ∀ field ∈ fields, field.flatten = false
  distinct : (idents.map original).Nodup

namespace RenamesAll

variable {rule : RenameRule} {idents : List Str} {fields : List (Field T V)}

theorem name_eq (h : RenamesAll rule idents fields) {field : Field T V} (hfield : field ∈ fields) :
    ∃ ident ∈ idents, field.name =
      ⟨rule.applyToField (original ident), rule.applyToField (original ident), []⟩ := by
  have hmem : field.name ∈ fields.map (·.name) := List.mem_map_of_mem hfield
  rw [h.names] at hmem
  obtain ⟨ident, hident, heq⟩ := List.mem_map.mp hmem
  exact ⟨ident, hident, heq.symm⟩

theorem nodup_serialize (h : RenamesAll rule idents fields)
    (hseparates : ∀ ident ∈ idents, rule.Separates (original ident)) :
    (fields.map (·.name.serialize)).Nodup := by
  have hkeys : fields.map (·.name.serialize) = (idents.map original).map rule.applyToField := by
    have hnames := congrArg (List.map Name.serialize) h.names
    rw [List.map_map, List.map_map] at hnames
    rw [List.map_map]
    exact hnames
  rw [hkeys]
  refine h.distinct.map_on fun field hfield other hother heq => ?_
  obtain ⟨ident, hident, rfl⟩ := List.mem_map.mp hfield
  obtain ⟨ident', hident', rfl⟩ := List.mem_map.mp hother
  rw [← RenameRule.fieldOf_applyToField (hseparates ident hident), heq,
    RenameRule.fieldOf_applyToField (hseparates ident' hident')]

theorem namesApart (h : RenamesAll rule idents fields)
    (hseparates : ∀ ident ∈ idents, rule.Separates (original ident))
    (hproto : ∀ ident ∈ idents, original ident ≠ "__proto__".toList) : NamesApart fields := by
  have haccepted {field : Field T V} (hfield : field ∈ fields) :
      field.name.accepted = [field.name.serialize] := by
    obtain ⟨ident, -, heq⟩ := h.name_eq hfield
    rw [heq]
    rfl
  refine ⟨h.flat, ?_, fun field hfield _ hmem => ?_⟩
  · refine (List.pairwise_map.mp (h.nodup_serialize hseparates)).imp_of_mem fun hf hg hne => ?_
    unfold Field.Apart
    rw [haccepted hf, haccepted hg]
    exact ⟨fun _ _ => by simpa using hne, fun _ _ => by simpa using hne.symm, fun _ _ => hne⟩
  · obtain ⟨ident, hident, heq⟩ := h.name_eq hfield
    rw [haccepted hfield, heq] at hmem
    exact rule.applyToField_ne_proto (hproto ident hident) (List.mem_singleton.mp hmem).symm

end RenamesAll

variable {m : Type → Type} [Monad m] [MonadExcept JsError m] [LawfulOutcome JsError m]

/-- A struct whose fields a rule names comes back from JavaScript as it was, but for the members that do
not cross: under `rename_all` no field takes the key of another. -/
theorem StructDef.renamed_fields_come_back (js : QuickJs) (encodeJs : T → V → m JsValue)
    (decodeJs : T → JsValue → m V) (rule : RenameRule) (idents : List Str) (struct : StructDef T V)
    (fields : List (Field T V)) (values : List V) (value : JsValue)
    (hshape : struct.shape = .struct fields) (htransparent : struct.transparent = none)
    (hrenamed : RenamesAll rule idents fields)
    (hseparates : ∀ ident ∈ idents, rule.Separates (original ident))
    (hproto : ∀ ident ∈ idents, original ident ≠ "__proto__".toList)
    (hlength : fields.length = values.length)
    (hcarries : ∀ p ∈ fields.zip values, p.1.writes p.2 = true → p.1.skipDeserializing = false →
      p.1.Carries js encodeJs decodeJs p.2)
    (hencoded : struct.encodeBody js encodeJs values = pure value) :
    (fields.map (·.name.serialize)).Nodup ∧
      (struct.decodeBody decodeJs value = pure values ↔ struct.Keeps decodeJs values) := by
  have hsound : struct.shape.Sound := by
    rw [hshape]
    exact hrenamed.namesApart hseparates hproto
  have hreturns : struct.Returns js encodeJs decodeJs values := by
    unfold StructDef.Returns
    rw [htransparent]
    refine ⟨hsound, ?_⟩
    rw [hshape]
    exact hcarries
  have hmembers : struct.shape.fields.length = values.length := by
    rw [hshape]
    exact hlength
  exact ⟨hrenamed.nodup_serialize hseparates,
    StructDef.decodeBody_encoded js encodeJs decodeJs struct values value hmembers hreturns hencoded⟩

end

/-- Two fields under `rename_all = "camelCase"`. -/
def account : StructDef Unit Str where
  rust := "Account".toList
  denyUnknownFields := true
  containerDefault := none
  shape := .struct [textField "userName".toList none none, textField "homePage".toList none none]
  transparent := none

/-- Both come back. -/
theorem account_comes_back :
    ∃ value, account.encodeBody plainJs encodeText ["a".toList, "b".toList] = pure value ∧
      account.decodeBody decodeText value = pure ["a".toList, "b".toList] := by
  refine ⟨_, rfl, ?_⟩
  refine (StructDef.renamed_fields_come_back plainJs encodeText decodeText .camel
    ["user_name".toList, "home_page".toList] account _ ["a".toList, "b".toList] _ rfl rfl
    ⟨rfl, by decide, by decide⟩ ?_ ?_ rfl ?_ rfl).2.mpr ?_
  · have hsnake : ∀ ident ∈ ["user_name".toList, "home_page".toList],
        isSnake Char.isUpper (original ident) = true ∧ '-' ∉ original ident := by decide
    intro ident hident
    exact RenameRule.separates_of_isSnake .camel (hsnake ident hident).1 (hsnake ident hident).2
  · decide
  · intro p hp _ _
    rcases List.mem_cons.mp (List.of_mem_zip hp).1 with hfield | hfield
    · rw [hfield]
      exact textField_returns _ _ _ _
    · rw [List.mem_singleton.mp hfield]
      exact textField_returns _ _ _ _
  · exact ⟨⟨trivial, trivial, trivial⟩, fun _ => by decide⟩

end RustTS.Contract
