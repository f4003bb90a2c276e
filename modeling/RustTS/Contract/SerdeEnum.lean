import Mathlib.Data.List.Induction
import RustTS.Contract.EnumCodec

/-! What serde's derived `Deserialize` makes of JSON for an enum in the four representations. -/
namespace RustTS.Contract

variable {T V : Type}

namespace EnumDef

variable (enum : EnumDef T V) (payload : Variant T V → Json → Option (List V))
  (missing : Variant T V → Option (List V))

/-- A variant from its content: `null` for a unit. -/
def serdeVariant (variant : Variant T V) (content : Json) : Option (Str × List V) :=
  match variant.shape, content with
  | .unit, .null => some (variant.ident, [])
  | .unit, _ => none
  | _, content => (payload variant content).map fun members => (variant.ident, members)

/-- A string names a unit variant; an object holds one variant. -/
def serdeExternal : Json → Option (Str × List V)
  | .string name =>
    (enum.variantOf name).bind fun variant =>
      match variant.shape with
      | .unit => some (variant.ident, [])
      | _ => none
  | .object [(name, content)] =>
    (enum.variantOf name).bind fun variant => serdeVariant payload variant content
  | _ => none

/-- The members of one name. -/
def named (name : Str) (members : List (Str × Json)) : List (Str × Json) :=
  members.filter fun e => decide (e.1 = name)

def withoutTag (tag : Str) (members : List (Str × Json)) : List (Str × Json) :=
  members.filter fun e => decide (e.1 ≠ tag)

/-- The payload is everything but the tag. -/
def serdeRest (tag : Str) (variant : Variant T V) (members : List (Str × Json)) :
    Option (Str × List V) :=
  match variant.shape with
  | .unit => some (variant.ident, [])
  | _ => (payload variant (.object (withoutTag tag members))).map fun members =>
    (variant.ident, members)

def serdeInternal (tag : Str) : Json → Option (Str × List V)
  | .object members =>
    match named tag members with
    | [(_, .string name)] =>
      (enum.variantOf name).bind fun variant => serdeRest payload tag variant members
    | _ => none
  | _ => none

/-- The tag of an adjacently tagged enum is an enum of unit variants, which JSON may write as an
object of `null` too. -/
def serdeTag : Json → Option Str
  | .string name => some name
  | .object [(name, .null)] => some name
  | _ => none

/-- Content left out: a unit variant has none, and a newtype takes what its type takes for a missing
field. -/
def serdeMissingContent (variant : Variant T V) : Option (Str × List V) :=
  match variant.shape with
  | .unit => some (variant.ident, [])
  | .newtype _ => (missing variant).map fun members => (variant.ident, members)
  | _ => none

def serdeContent (variant : Variant T V) : (content : List (Str × Json)) → Option (Str × List V)
  | [] => serdeMissingContent missing variant
  | [(_, content)] => serdeVariant payload variant content
  | _ => none

def serdeAdjacent (tag content : Str) : Json → Option (Str × List V)
  | .object members =>
    if enum.denyUnknownFields = true ∧ ∃ e ∈ members, e.1 ∉ [tag, content] then none
    else
      match named tag members with
      | [(_, json)] =>
        (serdeTag json).bind fun name =>
          (enum.variantOf name).bind fun variant =>
            serdeContent payload missing variant (named content members)
      | _ => none
  | _ => none

/-- The first variant that decodes wins. -/
def serdeUntagged (json : Json) : List (Variant T V) → Option (Str × List V)
  | [] => none
  | variant :: variants => (serdeVariant payload variant json).or (serdeUntagged json variants)

/-- A derived enum from JSON. -/
def deserialize (json : Json) : Option (Str × List V) :=
  match enum.tagging with
  | .external => enum.serdeExternal payload json
  | .internal tag => enum.serdeInternal payload tag json
  | .adjacent tag content => enum.serdeAdjacent payload missing tag content json
  | .untagged => serdeUntagged payload json enum.decoded

end EnumDef

/-- A JSON string or object. -/
inductive EnumInput
  | string (text : Str)
  | object (members : List (Str × Json))

def EnumInput.toJson : EnumInput → Json
  | .string text => .string text
  | .object members => .object members

theorem lookup_reverse (members : List (Str × Json)) (name : Str) :
    members.reverse.lookup name = (EnumDef.named name members).getLast?.map Prod.snd := by
  induction members using List.reverseRecOn with
  | nil => rfl
  | append_singleton members e ih =>
    rw [List.reverse_append, List.reverse_singleton, List.singleton_append, EnumDef.named,
      List.filter_append]
    by_cases h : e.1 = name
    · rw [← h, List.lookup_cons, beq_self_eq_true]
      simp
    · rw [RankedEntries.lookup_cons_of_ne (Ne.symm h), ih]
      simp [h, EnumDef.named]

end RustTS.Contract
