import RustTS.Contract.Derive

/-! The runtime support of the codecs on the objects `JSON.parse` makes. -/
namespace RustTS.Contract

variable (readNumber : Number → Int32 ⊕ JsFloat)

theorem jsText_ofText (text rust : Str) :
    (jsText (JsString.ofText text) rust : Except JsError Str) = .ok text := by
  rw [jsText, JsString.toText_ofText]
  rfl

theorem get_parseObject (members : List (Str × Json)) (name : Str) :
    (parseObject readNumber members).get name =
      ((members.reverse.lookup name).map (JsValue.parse readNumber)).getD
        (Base.plain.inherited name) := by
  unfold JsObject.get
  rw [lookup_parseObject]
  rfl

/-- The member a reader takes for a field, the prototype's property, or none; serde refuses two. -/
inductive Reading
  | member (json : Json)
  | prototype
  | missing
  | twice

/-- The first of a field's names that the object has, which it inherits in one case. -/
def nativeReading (members : List (Str × Json)) : (names : List Str) → Reading
  | [] => .missing
  | name :: names =>
    match members.reverse.lookup name with
    | some json => .member json
    | none => if name = "__proto__".toList then .prototype else nativeReading members names

def Reading.value : Reading → Option JsValue
  | .member json => some (.parse readNumber json)
  | .prototype => some .objectPrototype
  | .missing | .twice => none

theorem fieldValue_parseObject (members : List (Str × Json)) (names : List Str) :
    fieldValue (parseObject readNumber members) names =
      (nativeReading members names).value readNumber := by
  induction names with
  | nil => rfl
  | cons name names ih =>
    unfold fieldValue nativeReading
    dsimp only
    rw [get_parseObject]
    cases members.reverse.lookup name with
    | some json =>
      have hpresent := JsValue.isAbsent_parse readNumber json
      simp [hpresent, Reading.value]
    | none =>
      by_cases hproto : name = "__proto__".toList
      · subst hproto
        rfl
      · have habsent : (Base.plain.inherited name).isAbsent = true :=
          Base.isAbsent_inherited (.inr hproto)
        simp only [Option.map_none, Option.getD_none, habsent, if_true, if_neg hproto]
        exact ih

/-- Nothing is missing that the object has under one of the names. -/
theorem not_mem_of_missing {members : List (Str × Json)} {names : List Str}
    (h : nativeReading members names = .missing) : ∀ e ∈ members, e.1 ∉ names := by
  induction names with
  | nil => exact fun _ _ => List.not_mem_nil
  | cons name names ih =>
    intro e he
    unfold nativeReading at h
    cases hlookup : members.reverse.lookup name with
    | some json => simp [hlookup] at h
    | none =>
      simp only [hlookup] at h
      split_ifs at h
      have hname : e.1 ≠ name := by
        have hnone := List.lookup_eq_none_iff.mp hlookup e (List.mem_reverse.mpr he)
        have hne : name ≠ e.1 := by simpa using hnone
        exact hne.symm
      simpa [hname] using ih h e he

theorem nativeReading_ne_twice (members : List (Str × Json)) (names : List Str) :
    nativeReading members names ≠ .twice := by
  induction names with
  | nil => simp [nativeReading]
  | cons name names ih =>
    unfold nativeReading
    cases members.reverse.lookup name with
    | some json => simp
    | none =>
      dsimp only
      split_ifs
      · simp
      · exact ih

theorem rejectUnknownFrom_eq_ok {known : List Str} {rust : Str} {props : Props} :
    (rejectUnknownFrom known rust props : Except JsError Unit) = .ok () ↔
      ∀ p ∈ props, ∃ text ∈ known, p.1.toText = some text := by
  induction props with
  | nil => simp [rejectUnknownFrom, pure, Except.pure]
  | cons p props ih =>
    obtain ⟨key, value⟩ := p
    rw [rejectUnknownFrom, List.forall_mem_cons, jsText]
    cases htext : key.toText with
    | none => simp [throw, throwThe, MonadExceptOf.throw, bind, Except.bind]
    | some text =>
      show (if text ∈ known then _ else _ : Except JsError Unit) = _ ↔ _
      by_cases hmem : text ∈ known
      · rw [if_pos hmem, ih]
        simp [hmem]
      · rw [if_neg hmem]
        simp [hmem, throw, throwThe, MonadExceptOf.throw]

theorem rejectUnknownFields_eq_ok (known : List Str) (rust : Str) (members : List (Str × Json)) :
    (rejectUnknownFields (parseObject readNumber members) known rust : Except JsError Unit) =
      .ok () ↔ ∀ e ∈ members, e.1 ∈ known := by
  have hmem := mem_keys_parseObject readNumber members
  rw [rejectUnknownFields, rejectUnknownFrom_eq_ok]
  constructor
  · intro h e he
    obtain ⟨p, hp, hfst⟩ := List.mem_map.mp ((hmem (.ofText e.1)).mpr ⟨e, he, rfl⟩)
    obtain ⟨text, hknown, htext⟩ := h p hp
    rw [hfst, JsString.toText_ofText] at htext
    exact Option.some.inj htext ▸ hknown
  · intro h p hp
    obtain ⟨e, he, hfst⟩ := (hmem p.1).mp (List.mem_map_of_mem hp)
    exact ⟨e.1, h e he, by rw [← hfst, JsString.toText_ofText]⟩

/-- What `object_without` leaves of an object is what `JSON.parse` makes of the other members. -/
theorem objectWithout_parseObject (members : List (Str × Json)) (excluded : List Str) :
    (objectWithout (parseObject readNumber members) excluded : Except JsError JsObject) =
      .ok (parseObject readNumber (members.filter fun e => decide (e.1 ∉ excluded))) := by
  let keep (key : JsString) : Bool := (key.toText.map fun text => decide (text ∉ excluded)).getD true
  have hkeep (text : Str) : keep (.ofText text) = decide (text ∉ excluded) := by
    show ((JsString.ofText text).toText.map _).getD true = _
    rw [JsString.toText_ofText]
    rfl
  have htext (p : JsString × JsValue) (hp : p ∈ (parseObject readNumber members).props) :
      ∃ text, p.1.toText = some text ∧ (keep p.1 = true ↔ text ∉ excluded) := by
    obtain ⟨e, _, hkey⟩ := (mem_keys_parseObject readNumber members p.1).mp (List.mem_map_of_mem hp)
    refine ⟨e.1, by rw [← hkey, JsString.toText_ofText], ?_⟩
    rw [← hkey, hkeep, decide_eq_true_iff]
  have hfields : (JsValue.parseFields readNumber members).filter (fun p => keep p.1) =
      JsValue.parseFields readNumber (members.filter fun e => decide (e.1 ∉ excluded)) := by
    rw [JsValue.parseFields_eq, JsValue.parseFields_eq, List.filter_map]
    congr 1
    exact List.filter_congr fun e _ => hkeep e.1
  have hprops : RankedEntries.defineAll JsString.rank []
        ((parseObject readNumber members).props.filter fun p => keep p.1) =
      (parseObject readNumber (members.filter fun e => decide (e.1 ∉ excluded))).props := by
    have hfilter : (parseObject readNumber members).props.filter (fun p => keep p.1) =
        RankedEntries.defineAll JsString.rank []
          ((JsValue.parseFields readNumber members).filter fun p => keep p.1) :=
      RankedEntries.filter_defineAll (RankedEntries.ranked_nil _) _ keep
    rw [RankedEntries.defineAll_self ((ranked_parseObject readNumber members).filter _), hfilter,
      hfields]
    rfl
  rw [objectWithout, copyWithout_eq keep htext, hprops]
  rfl

end RustTS.Contract
