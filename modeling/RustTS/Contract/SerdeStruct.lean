import RustTS.Lib.AllSome
import RustTS.Contract.ParsedObject
import RustTS.Contract.StructCodec

/-! What serde's derived `Deserialize` makes of a JSON object for a struct without flattened
fields. -/
namespace RustTS.Contract

variable {T V : Type}

/-- How serde reads a field: from a JSON value, and what it takes for one that is missing and has
no default (`None` where the type is an `Option`). -/
structure SerdeField (V : Type) where
  deserialize : Json → Option V
  missing : Option V

/-- A field takes its name and its aliases, unless deserializing skips it. -/
def Field.takes (field : Field T V) (key : Str) : Bool :=
  !field.skipDeserializing && decide (key ∈ field.name.accepted)

/-- The first field that takes a key. -/
def fieldOf (fields : List (Field T V)) (key : Str) : Option Nat :=
  fields.findIdx? fun field => field.takes key

section Reference
variable (serde : Field T V → SerdeField V)

/-- The value of a field that no member gives. -/
def serdeMissing (field : Field T V) (containerDefault : Option V) : Option V :=
  if field.skipDeserializing then some (defaultValue field containerDefault)
  else (defaultFn field containerDefault).or (serde field).missing

/-- The loop of `visit_map`: each member goes to the first field that takes its key, once. -/
def visitMap (deny : Bool) (fields : List (Field T V)) :
    (slots : Nat → Option V) → List (Str × Json) → Option (Nat → Option V)
  | slots, [] => some slots
  | slots, (key, json) :: members =>
    match fieldOf fields key with
    | none => if deny then none else visitMap deny fields slots members
    | some index =>
      if (slots index).isSome then none
      else (fields[index]?).bind fun field =>
        ((serde field).deserialize json).bind fun value =>
          visitMap deny fields (Function.update slots index (some value)) members

/-- The end of `visit_map`: fields that got no value take their defaults. -/
def fillSlots (scope : Scope V) (fields : List (Field T V)) (slots : Nat → Option V) :
    Option (List V) :=
  (fields.zipIdx.map fun p => (slots p.2).or (serdeMissing serde p.1 (scope.member p.2))).allSome

def deserializeMembers (scope : Scope V) (fields : List (Field T V)) (members : List (Str × Json)) :
    Option (List V) :=
  (visitMap serde scope.denyUnknownFields fields (fun _ => none) members).bind
    (fillSlots serde scope fields)

/-- A derived struct from a JSON object. -/
def StructDef.deserialize (struct : StructDef T V) (members : List (Str × Json)) :
    Option (List V) :=
  match struct.transparent with
  | some forwarded =>
    ((serde (struct.shape.fields.get forwarded)).deserialize (.object members)).map fun value =>
      struct.shape.fields.mapIdx fun index field =>
        if index = forwarded then value else defaultValue field none
  | none =>
    match struct.shape with
    | .unit | .tuple _ => none
    | .newtype field => ((serde field).deserialize (.object members)).map fun value => [value]
    | .struct fields => deserializeMembers serde struct.scope fields members

end Reference

/-- The members that go to the field at an index. -/
def taken (fields : List (Field T V)) (members : List (Str × Json)) (index : Nat) :
    List (Str × Json) :=
  members.filter fun e => fieldOf fields e.1 = some index

def serdeReading (fields : List (Field T V)) (members : List (Str × Json)) (index : Nat) :
    Reading :=
  match taken fields members index with
  | [] => .missing
  | [e] => .member e.2
  | _ => .twice

/-- What serde makes of a reading. -/
def Reading.serdeValue (serde : SerdeField V) (missing : Option V) : Reading → Option V
  | .member json => serde.deserialize json
  | .missing => missing
  | .prototype | .twice => none

section Outcome
variable (serde : Field T V → SerdeField V)

/-- The value of a member for the field at an index. -/
def slotValue (fields : List (Field T V)) (index : Nat) (json : Json) : Option V :=
  (fields[index]?).bind fun field => (serde field).deserialize json

/-- What a slot holds after the loop, none where the loop fails over it. -/
def slotOutcome (fields : List (Field T V)) (members : List (Str × Json)) (slot : Option V)
    (index : Nat) : Option (Option V) :=
  match taken fields members index with
  | [] => some slot
  | [e] => if slot.isSome then none else (slotValue serde fields index e.2).map some
  | _ => none

theorem taken_cons {fields : List (Field T V)} {e : Str × Json} {members : List (Str × Json)}
    {index : Nat} :
    taken fields (e :: members) index =
      if fieldOf fields e.1 = some index then e :: taken fields members index
      else taken fields members index := by
  simp [taken, List.filter_cons]

theorem slotOutcome_of_ne {fields : List (Field T V)} {e : Str × Json}
    {members : List (Str × Json)} {index : Nat} (h : fieldOf fields e.1 ≠ some index)
    (slot : Option V) :
    slotOutcome serde fields (e :: members) slot index =
      slotOutcome serde fields members slot index := by
  unfold slotOutcome
  rw [taken_cons, if_neg h]

theorem slotOutcome_of_eq {fields : List (Field T V)} {e : Str × Json} {index : Nat}
    (h : fieldOf fields e.1 = some index) (members : List (Str × Json)) (slot : Option V) :
    slotOutcome serde fields (e :: members) slot index =
      if slot.isSome then none
      else (slotValue serde fields index e.2).bind fun value =>
        slotOutcome serde fields members (some value) index := by
  unfold slotOutcome
  rw [taken_cons, if_pos h]
  cases taken fields members index with
  | nil =>
    dsimp only
    cases slotValue serde fields index e.2 <;> rfl
  | cons e' rest =>
    dsimp only
    cases slot <;> cases slotValue serde fields index e.2 <;> cases rest <;> rfl

/-- The loop comes to the slots it should, unless an unknown key is denied. -/
theorem visitMap_eq_some {deny : Bool} {fields : List (Field T V)} {members : List (Str × Json)}
    {slots slots' : Nat → Option V} :
    visitMap serde deny fields slots members = some slots' ↔
      (deny = true → ∀ e ∈ members, fieldOf fields e.1 ≠ none) ∧
      ∀ index, slotOutcome serde fields members (slots index) index = some (slots' index) := by
  induction members generalizing slots with
  | nil =>
    have hslots (index : Nat) :
        slotOutcome serde fields [] (slots index) index = some (slots index) := rfl
    simp only [visitMap, hslots, Option.some.injEq]
    constructor
    · intro h
      exact ⟨fun _ => nofun, fun index => congrFun h index⟩
    · intro h
      exact funext h.2
  | cons e members ih =>
    obtain ⟨key, json⟩ := e
    rw [visitMap]
    cases hfield : fieldOf fields key with
    | none =>
      have houtcome (index : Nat) : slotOutcome serde fields ((key, json) :: members) (slots index)
          index = slotOutcome serde fields members (slots index) index := by
        rw [slotOutcome_of_ne]
        simp [hfield]
      simp only [houtcome]
      cases deny with
      | true => simp [hfield]
      | false => simpa using ih
    | some i =>
      have hknown : (deny = true → ∀ e ∈ (key, json) :: members, fieldOf fields e.1 ≠ none) ↔
          (deny = true → ∀ e ∈ members, fieldOf fields e.1 ≠ none) := by
        simp [hfield]
      have hother {index : Nat} (hne : index ≠ i) :
          slotOutcome serde fields ((key, json) :: members) (slots index) index =
            slotOutcome serde fields members (slots index) index := by
        rw [slotOutcome_of_ne]
        simpa [hfield] using fun h => hne h.symm
      have hkey : fieldOf fields (key, json).1 = some i := hfield
      have hself := slotOutcome_of_eq serde hkey members (slots i)
      rw [hknown]
      simp only
      by_cases hslot : (slots i).isSome = true
      · rw [if_pos hslot] at hself ⊢
        refine iff_of_false (by simp) fun h => ?_
        have hi := h.2 i
        simp [hself] at hi
      · rw [if_neg hslot] at hself ⊢
        rw [← Option.bind_assoc]
        show (slotValue serde fields i json).bind _ = _ ↔ _
        cases hvalue : slotValue serde fields i json with
        | none =>
          refine iff_of_false (by simp) fun h => ?_
          have hi := h.2 i
          simp [hself, hvalue] at hi
        | some value =>
          rw [Option.bind_some, ih]
          refine and_congr Iff.rfl (forall_congr' fun index => ?_)
          by_cases hindex : index = i
          · rw [hindex, Function.update_self, hself, hvalue, Option.bind_some]
          · rw [Function.update_of_ne hindex, hother hindex]

private theorem fieldOf_lt {fields : List (Field T V)} {key : Str} {index : Nat}
    (h : fieldOf fields key = some index) : index < fields.length := by
  obtain ⟨hlt, _⟩ := List.findIdx?_eq_some_iff_getElem.mp h
  exact hlt

private theorem lt_of_taken {fields : List (Field T V)} {members : List (Str × Json)} {index : Nat}
    (h : taken fields members index ≠ []) : index < fields.length := by
  obtain ⟨e, he⟩ := List.exists_mem_of_ne_nil _ h
  exact fieldOf_lt (by simpa using (List.mem_filter.mp he).2)

/-- What serde makes of a field. -/
def serdeOutcome (scope : Scope V) (fields : List (Field T V)) (members : List (Str × Json))
    (field : Field T V) (index : Nat) : Option V :=
  (serdeReading fields members index).serdeValue (serde field)
    (serdeMissing serde field (scope.member index))

theorem serdeOutcome_of_slot {scope : Scope V} {fields : List (Field T V)}
    {members : List (Str × Json)} {field : Field T V} {index : Nat}
    (hfield : fields[index]? = some field) :
    serdeOutcome serde scope fields members field index =
      (slotOutcome serde fields members none index).bind fun slot =>
        slot.or (serdeMissing serde field (scope.member index)) := by
  unfold serdeOutcome serdeReading slotOutcome slotValue
  rw [hfield]
  match taken fields members index with
  | [] => rfl
  | [e] =>
    show (serde field).deserialize e.2 = _
    cases h : (serde field).deserialize e.2 <;> simp [h]
  | _ :: _ :: _ => rfl

/-- Serde decodes an object where every field of the struct comes to something, and no unknown key
is denied. -/
theorem deserializeMembers_eq (scope : Scope V) (fields : List (Field T V))
    (members : List (Str × Json)) :
    deserializeMembers serde scope fields members =
      if scope.denyUnknownFields = true ∧ ∃ e ∈ members, fieldOf fields e.1 = none then none
      else (fields.zipIdx.map fun p =>
        serdeOutcome serde scope fields members p.1 p.2).allSome := by
  unfold deserializeMembers
  split_ifs with hdenied
  · obtain ⟨hdeny, e, he, hunknown⟩ := hdenied
    cases hvisit : visitMap serde scope.denyUnknownFields fields (fun _ => none) members with
    | none => rfl
    | some slots =>
      have hknown := (visitMap_eq_some serde).mp hvisit
      exact absurd hunknown (hknown.1 hdeny e he)
  · have hknown : scope.denyUnknownFields = true → ∀ e ∈ members, fieldOf fields e.1 ≠ none :=
      fun hdeny e he hnone => hdenied ⟨hdeny, e, he, hnone⟩
    have houtcome {field : Field T V} {index : Nat} (hmem : (field, index) ∈ fields.zipIdx) :
        serdeOutcome serde scope fields members field index =
          (slotOutcome serde fields members none index).bind fun slot =>
            slot.or (serdeMissing serde field (scope.member index)) :=
      serdeOutcome_of_slot serde (List.mem_zipIdx_iff_getElem?.mp hmem)
    by_cases hslots : ∀ index, (slotOutcome serde fields members none index).isSome = true
    · -- Every slot comes to something, so the loop ends with these slots.
      let filled (index : Nat) : Option V :=
        (slotOutcome serde fields members none index).get (hslots index)
      have hvisit : visitMap serde scope.denyUnknownFields fields (fun _ => none) members =
          some filled :=
        (visitMap_eq_some serde).mpr ⟨hknown, fun index => (Option.some_get _).symm⟩
      rw [hvisit, Option.bind_some]
      unfold fillSlots
      congr 1
      refine List.map_congr_left fun (field, index) hmem => ?_
      show ((slotOutcome serde fields members none index).get (hslots index)).or _ =
        serdeOutcome serde scope fields members field index
      obtain ⟨slot, hslot⟩ := Option.isSome_iff_exists.mp (hslots index)
      rw [houtcome hmem]
      simp only [hslot, Option.get_some, Option.bind_some]
    · -- The loop fails over a slot, whose field then comes to nothing.
      obtain ⟨index, hindex⟩ := not_forall.mp hslots
      have hnone : slotOutcome serde fields members none index = none := by simpa using hindex
      have htaken : taken fields members index ≠ [] := by
        intro hnil
        simp [slotOutcome, hnil] at hnone
      have hlt := lt_of_taken htaken
      have hmem : (fields[index], index) ∈ fields.zipIdx :=
        List.mem_zipIdx_iff_getElem?.mpr (List.getElem?_eq_getElem hlt)
      have hall : (fields.zipIdx.map fun p =>
          serdeOutcome serde scope fields members p.1 p.2).allSome = none := by
        refine List.allSome_eq_none.mpr (List.mem_map.mpr ⟨_, hmem, ?_⟩)
        show serdeOutcome serde scope fields members fields[index] index = none
        rw [houtcome hmem, hnone, Option.bind_none]
      rw [hall]
      cases hvisit : visitMap serde scope.denyUnknownFields fields (fun _ => none) members with
      | none => rfl
      | some slots =>
        have hsome := ((visitMap_eq_some serde).mp hvisit).2 index
        simp [hnone] at hsome

end Outcome

end RustTS.Contract
