import RustTS.Lib.DecimalText
import RustTS.Contract.Codec

/-! The path that conversion errors name, built from the innermost segment outwards. -/
namespace RustTS.Contract

/-- What encloses the place of an error: a field or variant, a position, or the key of a map. -/
inductive Segment
  | name (text : Str)
  | index (index : Nat)
  | key (text : Str)
  deriving DecidableEq, Repr

namespace Segment

def text : Segment → Str
  | name text => text
  | index i => bracketed (Nat.toDigits 10 i)
  | key text => bracketed text

def isName : Segment → Bool
  | name _ => true
  | _ => false

/-- Prefixes an error with the segment. -/
def enclose : Segment → JsError → JsError
  | name text, error => atPath error text
  | index i, error => atIndex error i
  | key text, error => atPath error (bracketed text)

/-- The segment after others: names are joined by a point. -/
def attached (segment : Segment) : Str :=
  if segment.isName then '.' :: segment.text else segment.text

theorem enclose_eq (segment : Segment) (error : JsError) :
    segment.enclose error = atPath error segment.text := by
  cases segment <;> rfl

end Segment

/-- Prefixes an error with segments, the outermost first in the list. -/
def enclose (segments : List Segment) (error : JsError) : JsError :=
  segments.foldr Segment.enclose error

/-- The path of segments, the outermost first. -/
def pathText : List Segment → Str
  | [] => []
  | segment :: rest => segment.text ++ rest.flatMap Segment.attached

/-- The message of an error with the path of its place. -/
def exactMessage (segments : List Segment) (leaf : Str) : Str :=
  if segments = [] then leaf else pathText segments ++ ": ".toList ++ leaf

/-- The message of an error without a message. -/
def leafMessage (source target : Str) (message : Option Str) : Str :=
  message.getD ("expected ".toList ++ target ++ ", got ".toList ++ source)

/-- The message within these segments is seen to start with a path, one that is joined by a point
where a name comes first. -/
def Recognised (leaf : Str) (inner : List Segment) : Prop :=
  hasPath (exactMessage inner leaf) = true ∧
    (inner.head?.any Segment.isName = true → (exactMessage inner leaf).head? ≠ some '[')

/-- The messages that the segments make of a leaf, one within the other. -/
def enclosedMessage (source target leaf : Str) : List Segment → Str
  | [] => leaf
  | segment :: rest =>
    prefixPath segment.text (some (enclosedMessage source target leaf rest)) source target

theorem enclose_conversion {source target : Str} (conversion : Option Str → JsError)
    (hat : ∀ message segment, atPath (conversion message) segment =
      conversion (some (prefixPath segment message source target)))
    (message : Option Str) (segment : Segment) (rest : List Segment) :
    enclose (segment :: rest) (conversion message) = conversion
      (some (enclosedMessage source target (leafMessage source target message)
        (segment :: rest))) := by
  induction rest generalizing segment with
  | nil =>
    show segment.enclose (conversion message) = _
    rw [Segment.enclose_eq, hat]
    rfl
  | cons next rest ih =>
    show segment.enclose (enclose (next :: rest) _) = _
    rw [ih next, Segment.enclose_eq, hat]
    rfl

theorem exactMessage_singleton (segment : Segment) (leaf : Str) :
    exactMessage [segment] leaf = segment.text ++ (": ".toList ++ leaf) := by
  simp [exactMessage, pathText]

theorem exactMessage_cons (segment next : Segment) (rest : List Segment) (leaf : Str) :
    exactMessage (segment :: next :: rest) leaf =
      segment.text ++ ((if next.isName then ['.'] else []) ++ exactMessage (next :: rest) leaf) := by
  unfold exactMessage
  rw [if_neg (List.cons_ne_nil _ _), if_neg (List.cons_ne_nil _ _), pathText, pathText,
    List.flatMap_cons, Segment.attached]
  cases next.isName <;> simp

theorem head_exactMessage {next : Segment} (h : next.isName = false) (rest : List Segment)
    (leaf : Str) : (exactMessage (next :: rest) leaf).head? = some '[' := by
  unfold exactMessage pathText
  rw [if_neg (List.cons_ne_nil _ _)]
  cases next with
  | name text => cases h
  | index i => rfl
  | key text => rfl

/-- What stands between a segment and the message it encloses. -/
def separator (inner : Str) : Str :=
  if hasPath inner = false then ": ".toList else if inner.head? = some '[' then [] else ['.']

theorem prefixPath_some (segment inner source target : Str) :
    prefixPath segment (some inner) source target = segment ++ (separator inner ++ inner) := by
  unfold prefixPath separator
  rw [Option.getD_some]
  cases hpath : hasPath inner with
  | false => simp [hpath]
  | true =>
    by_cases hbracket : inner.head? = some '['
    · simp [hpath, hbracket]
    · simp [hpath, hbracket]

section
variable {source target leaf : Str}

/-- A further segment keeps the message exact where what it encloses is exact and recognised. -/
theorem enclosedMessage_cons (segment next : Segment) (rest : List Segment) :
    enclosedMessage source target leaf (segment :: next :: rest) =
        exactMessage (segment :: next :: rest) leaf ↔
      enclosedMessage source target leaf (next :: rest) = exactMessage (next :: rest) leaf ∧
        Recognised leaf (next :: rest) := by
  rw [exactMessage_cons, enclosedMessage, prefixPath_some, List.append_cancel_left_eq]
  generalize enclosedMessage source target leaf (next :: rest) = inner
  unfold separator
  constructor
  · intro h
    cases hname : next.isName with
    | true =>
      rw [hname, if_pos rfl] at h
      split_ifs at h with hpath hbracket
      · cases congrArg List.head? h
      · rw [List.nil_append] at h
        rw [h] at hbracket
        cases hbracket
      · have hinner : inner = exactMessage (next :: rest) leaf := List.append_cancel_left h
        exact ⟨hinner, hinner ▸ by simpa using hpath, fun _ => hinner ▸ hbracket⟩
    | false =>
      have hexact := head_exactMessage hname rest leaf
      rw [hname, if_neg Bool.false_ne_true, List.nil_append] at h
      split_ifs at h with hpath hbracket
      · rw [← h] at hexact
        cases hexact
      · rw [List.nil_append] at h
        refine ⟨h, h ▸ by simpa using hpath, fun hhead => ?_⟩
        rw [List.head?_cons, Option.any_some, hname] at hhead
        cases hhead
      · rw [← h] at hexact
        cases hexact
  · rintro ⟨rfl, hpath, hname⟩
    rw [if_neg (by rw [hpath]; exact Bool.false_ne_true.symm)]
    cases hnext : next.isName with
    | true => rw [if_neg (hname (by simpa using hnext)), if_pos rfl]
    | false =>
      rw [if_pos (head_exactMessage hnext rest leaf), if_neg Bool.false_ne_true]

theorem enclosedMessage_exact (hleaf : hasPath leaf = false) (segment : Segment)
    (rest : List Segment) :
    enclosedMessage source target leaf (segment :: rest) = exactMessage (segment :: rest) leaf ↔
      ∀ inner, inner <:+ rest → inner ≠ [] → Recognised leaf inner := by
  induction rest generalizing segment with
  | nil =>
    refine iff_of_true ?_ fun inner hinner hne => absurd (List.suffix_nil.mp hinner) hne
    rw [exactMessage_singleton, enclosedMessage, enclosedMessage, prefixPath_some, separator,
      if_pos hleaf]
  | cons next rest ih =>
    rw [enclosedMessage_cons, ih next]
    constructor
    · rintro ⟨hrest, hnext⟩ inner hinner hne
      rcases List.suffix_cons_iff.mp hinner with rfl | hinner
      · exact hnext
      · exact hrest inner hinner hne
    · intro h
      refine ⟨fun inner hinner hne => ?_, h _ List.suffix_rfl (List.cons_ne_nil _ _)⟩
      exact h inner (hinner.trans (List.suffix_cons _ _)) hne

end

/-- A name without space, points, colons or brackets, as identifiers are. -/
def IsIdentifier (text : Str) : Prop :=
  text ≠ [] ∧ ∀ c ∈ text, c ∉ ['.', '[', ']', ':'] ∧ isWhitespace c = false

/-- A segment that is read over as a whole. -/
def Segment.IsPlain : Segment → Prop
  | name text => IsIdentifier text
  | index _ => True
  | key text => ∀ c ∈ text, c ≠ '[' ∧ c ≠ ']'

theorem hasPathFrom_identifier {text : Str} (h : IsIdentifier text) (first : Bool) (rest : Str) :
    hasPathFrom first 0 (text ++ rest) = hasPathFrom false 0 rest := by
  obtain ⟨hne, hchars⟩ := h
  induction text generalizing first with
  | nil => exact absurd rfl hne
  | cons c text ih =>
    obtain ⟨hc, hspace⟩ := hchars c (List.mem_cons_self ..)
    simp only [List.mem_cons, List.not_mem_nil, or_false, not_or] at hc
    have hstep : hasPathFrom first 0 (c :: (text ++ rest)) = hasPathFrom false 0 (text ++ rest) := by
      rw [hasPathFrom, if_neg hc.2.1, if_neg hc.2.2.1, if_neg fun hcolon => hc.2.2.2 hcolon.1,
        if_neg (by rw [hspace]; exact fun hfalse => Bool.false_ne_true hfalse.2)]
    rw [List.cons_append, hstep]
    cases text with
    | nil => rfl
    | cons c' text =>
      exact ih false (List.cons_ne_nil _ _) fun c hc => hchars c (List.mem_cons_of_mem _ hc)

theorem hasPathFrom_bracketed {text : Str} (h : ∀ c ∈ text, c ≠ '[' ∧ c ≠ ']') (first : Bool)
    (rest : Str) : hasPathFrom first 0 (bracketed text ++ rest) = hasPathFrom false 0 rest := by
  have hinside : ∀ text : Str, (∀ c ∈ text, c ≠ '[' ∧ c ≠ ']') →
      hasPathFrom false 1 (text ++ ']' :: rest) = hasPathFrom false 0 rest := by
    intro text
    induction text with
    | nil => exact fun _ => rfl
    | cons c text ih =>
      intro h
      obtain ⟨hopen, hclose⟩ := h c (List.mem_cons_self ..)
      rw [List.cons_append, hasPathFrom, if_neg hopen, if_neg hclose,
        if_neg fun hdepth => absurd hdepth.2 Nat.one_ne_zero,
        if_neg fun hdepth => absurd hdepth.1 Nat.one_ne_zero]
      exact ih fun c hc => h c (List.mem_cons_of_mem _ hc)
  show hasPathFrom first 0 ('[' :: (text ++ [']']) ++ rest) = _
  rw [List.cons_append, List.append_assoc]
  exact hinside text h

theorem hasPathFrom_segment {segment : Segment} (h : segment.IsPlain) (first : Bool) (rest : Str) :
    hasPathFrom first 0 (segment.text ++ rest) = hasPathFrom false 0 rest := by
  cases segment with
  | name text => exact hasPathFrom_identifier h first rest
  | index i =>
    refine hasPathFrom_bracketed (fun c hc => ?_) first rest
    have hdigit := DecimalText.isDigit_of_mem hc
    constructor <;> rintro rfl <;> exact absurd hdigit (by decide)
  | key text => exact hasPathFrom_bracketed h first rest

theorem hasPathFrom_exact {segments : List Segment} (hne : segments ≠ [])
    (h : ∀ segment ∈ segments, segment.IsPlain) (first : Bool) (leaf : Str) :
    hasPathFrom first 0 (exactMessage segments leaf) = true := by
  induction segments generalizing first with
  | nil => exact absurd rfl hne
  | cons segment rest ih =>
    have hsegment := h segment (List.mem_cons_self ..)
    cases rest with
    | nil =>
      rw [exactMessage_singleton, hasPathFrom_segment hsegment]
      rfl
    | cons next rest =>
      have hnext := ih (List.cons_ne_nil _ _) (fun s hs => h s (List.mem_cons_of_mem _ hs)) false
      rw [exactMessage_cons, hasPathFrom_segment hsegment]
      cases next.isName with
      | true => exact hnext
      | false => exact hnext

theorem recognised_of_plain {inner : List Segment} (hne : inner ≠ [])
    (h : ∀ segment ∈ inner, segment.IsPlain) (leaf : Str) : Recognised leaf inner := by
  refine ⟨hasPathFrom_exact hne h true leaf, fun hname => ?_⟩
  cases inner with
  | nil => exact absurd rfl hne
  | cons segment rest =>
    cases segment with
    | index i => cases hname
    | key text => cases hname
    | name text =>
      obtain ⟨htext, hchars⟩ := h _ (List.mem_cons_self ..)
      obtain ⟨c, text, rfl⟩ := List.exists_cons_of_ne_nil htext
      obtain ⟨hc, -⟩ := hchars c (List.mem_cons_self ..)
      rintro ⟨rfl⟩
      exact hc (by decide)

/-- The name of a field or variant, or a position. -/
def Segment.IsReference : Segment → Prop
  | name text => IsIdentifier text
  | index _ => True
  | key _ => False

theorem append_border {p : Char → Bool} {a b rest rest' : Str} (ha : ∀ c ∈ a, p c = true)
    (hb : ∀ c ∈ b, p c = true) (hrest : rest.head?.any p = false) (hrest' : rest'.head?.any p = false)
    (h : a ++ rest = b ++ rest') : a = b ∧ rest = rest' := by
  have htake : ∀ (text rest : Str), (∀ c ∈ text, p c = true) → rest.head?.any p = false →
      (text ++ rest).takeWhile p = text := by
    intro text rest htext hhead
    rw [List.takeWhile_append_of_pos htext]
    cases rest with
    | nil => simp
    | cons c rest =>
      rw [List.head?_cons, Option.any_some] at hhead
      rw [List.takeWhile_cons, hhead]
      simp
  have hab : a = b := by
    rw [← htake a rest ha hrest, h, htake b rest' hb hrest']
  subst hab
  exact ⟨rfl, List.append_cancel_left h⟩

theorem head_attached (rest : List Segment) :
    (rest.flatMap Segment.attached).head?.any (· ∉ ['.', '[', ']', ':']) = false := by
  cases rest with
  | nil => rfl
  | cons segment rest =>
    rw [List.flatMap_cons]
    cases segment <;> rfl

theorem index_append {i j : Nat} {rest rest' : Str}
    (h : bracketed (Nat.toDigits 10 i) ++ rest = bracketed (Nat.toDigits 10 j) ++ rest') :
    i = j ∧ rest = rest' := by
  have hdigits : ∀ n : Nat, ∀ c ∈ Nat.toDigits 10 n, c.isDigit = true := fun n c hc =>
    DecimalText.isDigit_of_mem hc
  simp only [bracketed, List.cons_append, List.append_assoc, List.nil_append] at h
  obtain ⟨hij, hrest⟩ := append_border (hdigits i) (hdigits j) rfl rfl (List.cons.inj h).2
  exact ⟨DecimalText.toDigits_injective hij, (List.cons.inj hrest).2⟩

theorem identifier_append {a b : Str} (ha : IsIdentifier a) (hb : IsIdentifier b)
    {rest rest' : List Segment}
    (h : a ++ rest.flatMap Segment.attached = b ++ rest'.flatMap Segment.attached) :
    a = b ∧ rest.flatMap Segment.attached = rest'.flatMap Segment.attached := by
  have hchars : ∀ text : Str, IsIdentifier text →
      ∀ c ∈ text, decide (c ∉ ['.', '[', ']', ':']) = true := fun text htext c hc =>
    decide_eq_true (htext.2 c hc).1
  exact append_border (hchars a ha) (hchars b hb) (head_attached rest) (head_attached rest') h

theorem identifier_ne_index {a : Str} (ha : IsIdentifier a) (i : Nat) (rest rest' : Str) :
    a ++ rest ≠ bracketed (Nat.toDigits 10 i) ++ rest' := by
  obtain ⟨c, text, rfl⟩ := List.exists_cons_of_ne_nil ha.1
  intro h
  obtain ⟨rfl, -⟩ := List.cons.inj h
  exact (ha.2 '[' (List.mem_cons_self ..)).1 (by decide)

theorem attached_injective {rest rest' : List Segment} (h : ∀ segment ∈ rest, segment.IsReference)
    (h' : ∀ segment ∈ rest', segment.IsReference)
    (heq : rest.flatMap Segment.attached = rest'.flatMap Segment.attached) : rest = rest' := by
  induction rest generalizing rest' with
  | nil =>
    cases rest' with
    | nil => rfl
    | cons segment rest' =>
      rw [List.flatMap_cons] at heq
      cases segment <;> cases heq
  | cons segment rest ih =>
    cases rest' with
    | nil =>
      rw [List.flatMap_cons] at heq
      cases segment <;> cases heq
    | cons segment' rest' =>
      have hsegment := h segment (List.mem_cons_self ..)
      have hsegment' := h' segment' (List.mem_cons_self ..)
      have htail := fun s hs => h s (List.mem_cons_of_mem segment hs)
      have htail' := fun s hs => h' s (List.mem_cons_of_mem segment' hs)
      rw [List.flatMap_cons, List.flatMap_cons] at heq
      cases segment with
      | key text => exact hsegment.elim
      | name text =>
        cases segment' with
        | key text' => exact hsegment'.elim
        | index j => cases congrArg List.head? heq
        | name text' =>
          obtain ⟨rfl, hrest⟩ := identifier_append hsegment hsegment' (List.cons.inj heq).2
          rw [ih htail htail' hrest]
      | index i =>
        cases segment' with
        | key text' => exact hsegment'.elim
        | name text' => cases congrArg List.head? heq
        | index j =>
          obtain ⟨rfl, hrest⟩ := index_append heq
          rw [ih htail htail' hrest]

/-- Distinct places have distinct paths. -/
theorem pathText_injective {segments segments' : List Segment}
    (h : ∀ segment ∈ segments, segment.IsReference)
    (h' : ∀ segment ∈ segments', segment.IsReference)
    (heq : pathText segments = pathText segments') : segments = segments' := by
  have hne : ∀ segment : Segment, segment.IsReference → ∀ rest, pathText (segment :: rest) ≠ [] := by
    intro segment hsegment rest hnil
    obtain ⟨htext, -⟩ := List.append_eq_nil_iff.mp hnil
    cases segment with
    | name text => exact hsegment.1 htext
    | index i => cases htext
    | key text => exact hsegment
  cases segments with
  | nil =>
    cases segments' with
    | nil => rfl
    | cons segment' rest' =>
      exact absurd heq.symm (hne segment' (h' segment' (List.mem_cons_self ..)) rest')
  | cons segment rest =>
    have hsegment := h segment (List.mem_cons_self ..)
    cases segments' with
    | nil => exact absurd heq (hne segment hsegment rest)
    | cons segment' rest' =>
      have hsegment' := h' segment' (List.mem_cons_self ..)
      have htail := fun s hs => h s (List.mem_cons_of_mem segment hs)
      have htail' := fun s hs => h' s (List.mem_cons_of_mem segment' hs)
      rw [pathText, pathText] at heq
      cases segment with
      | key text => exact hsegment.elim
      | name text =>
        cases segment' with
        | key text' => exact hsegment'.elim
        | index j => exact absurd heq (identifier_ne_index hsegment j _ _)
        | name text' =>
          obtain ⟨rfl, hrest⟩ := identifier_append hsegment hsegment' heq
          rw [attached_injective htail htail' hrest]
      | index i =>
        cases segment' with
        | key text' => exact hsegment'.elim
        | name text' => exact absurd heq.symm (identifier_ne_index hsegment' i _ _)
        | index j =>
          obtain ⟨rfl, hrest⟩ := index_append heq
          rw [attached_injective htail htail' hrest]

/-- An error within segments has their path before its message exactly where each message within the
outermost one is recognised, and distinct places of identifiers and indices have distinct paths. -/
theorem enclose_exact (source target : Str) (message : Option Str)
    (hleaf : hasPath (leafMessage source target message) = false) (segment : Segment)
    (rest : List Segment) :
    let leaf := leafMessage source target message
    let exact := exactMessage (segment :: rest) leaf
    let recognised := ∀ inner, inner <:+ rest → inner ≠ [] → Recognised leaf inner
    (enclose (segment :: rest) (.fromJs source target message) =
        .fromJs source target (some exact) ↔ recognised) ∧
    (enclose (segment :: rest) (.intoJs source target message) =
        .intoJs source target (some exact) ↔ recognised) ∧
    ∀ segments segments' : List Segment, (∀ segment ∈ segments, segment.IsReference) →
      (∀ segment ∈ segments', segment.IsReference) → pathText segments = pathText segments' →
        segments = segments' := by
  refine ⟨?_, ?_, fun _ _ => pathText_injective⟩
  · rw [enclose_conversion (.fromJs source target) fun _ _ => rfl, JsError.fromJs.injEq,
      Option.some_inj]
    simpa only [true_and] using enclosedMessage_exact hleaf segment rest
  · rw [enclose_conversion (.intoJs source target) fun _ _ => rfl, JsError.intoJs.injEq,
      Option.some_inj]
    simpa only [true_and] using enclosedMessage_exact hleaf segment rest

/-- A field of an item in a map, whose key has a space. -/
theorem enclose_exact_item :
    enclose [.key "a b".toList, .index 2, .name "id".toList]
        (.fromJs "int".toList "u8".toList (some "got 300".toList)) =
      .fromJs "int".toList "u8".toList (some "[a b][2].id: got 300".toList) := by
  refine ((enclose_exact "int".toList "u8".toList (some "got 300".toList) rfl _ _).1.mpr ?_).trans ?_
  · intro inner hinner hne
    refine recognised_of_plain hne (fun segment hsegment => ?_) _
    have hmem := hinner.subset hsegment
    simp only [List.mem_cons, List.not_mem_nil, or_false] at hmem
    rcases hmem with rfl | rfl
    · trivial
    · refine ⟨List.cons_ne_nil _ _, fun c hc => ?_⟩
      have hc : c ∈ ['i', 'd'] := hc
      simp only [List.mem_cons, List.not_mem_nil, or_false] at hc
      rcases hc with rfl | rfl <;> decide
  · decide

/-- A name with a space keeps the segments around it from being joined to it. -/
theorem enclose_not_exact :
    hasPath "got 300".toList = false ∧
    enclose [.name "user".toList, .name "full name".toList]
        (.fromJs "int".toList "u8".toList (some "got 300".toList)) =
      .fromJs "int".toList "u8".toList (some "user: full name: got 300".toList) ∧
    exactMessage [.name "user".toList, .name "full name".toList] "got 300".toList =
      "user.full name: got 300".toList := by
  decide

end RustTS.Contract
