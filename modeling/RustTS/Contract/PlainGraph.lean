import RustTS.Contract.Bridge
import RustTS.Lib.IndexMap
import RustTS.Lib.Recursion

/-! Graphs of plain objects, whose reads run no script code, and what their conversion comes to:
it ends exactly where the walk `JSON.stringify` makes meets no object inside itself. -/
namespace RustTS.Contract

/-- A value over `n` objects. -/
inductive GraphValue (n : Nat)
  | primitive (value : Primitive)
  | ref (object : Fin n)
  deriving DecidableEq, Repr

/-- An object of a graph: its items or own enumerable properties, or the bytes of a `Uint8Array`
or `ArrayBuffer`. -/
inductive Node (n : Nat)
  | array (items : List (GraphValue n)) (bound : items.length < 2 ^ 32)
  | object (kind : ObjectKind) (props : IndexMap JsString (GraphValue n))
  | bytes (content : Option (List UInt8))

abbrev Heap (n : Nat) := Fin n → Node n

/-- A natural number as QuickJS holds it. -/
def numberValue (n : Nat) : Primitive :=
  if n < 2 ^ 31 then .int (Int32.ofNat n) else .float (.finite false (.ofNat n))

theorem arrayLength_numberValue {n : Nat} (h : n < 2 ^ 32) (rust : Str) :
    arrayLength (.primitive (numberValue n)) rust = .ok n := by
  unfold numberValue
  split_ifs with hsmall
  · have hint : (Int32.ofNat n).toInt = n := by
      rw [Int32.toInt_ofNat_of_lt hsmall]
    simp [arrayLength, hint]
  · have hsafe : n ≤ maxSafeInteger := by
      unfold maxSafeInteger
      omega
    simp [arrayLength, exactInteger_ofNat hsafe]

def indexKey (index : Nat) : JsString := .ofText (Nat.toDigits 10 index)

private theorem indexKey_injective : Function.Injective indexKey := fun a b h => by
  have hdigits := congrArg (Nat.ofDigitChars 10 · 0) (JsString.ofText_injective h)
  simpa only [Nat.ofDigitChars_ten_toDigits] using hdigits

private theorem indexKey_ne_length (index : Nat) : indexKey index ≠ .ofText "length".toList := by
  intro h
  have htext := JsString.ofText_injective h
  have hdigit : 'l'.isDigit = true := by
    apply Nat.isDigit_of_mem_toDigits (b := 10) (n := index) (by decide) (by decide)
    rw [htext]
    decide
  exact absurd hdigit (by decide)

theorem nodup_indexKeys {X Y : Type} (items : List X) (f : X → Y) :
    ((items.zipIdx.map fun (x, i) => (indexKey i, f x)).map Prod.fst).Nodup := by
  have hkeys : (items.zipIdx.map fun (x, i) => (indexKey i, f x)).map Prod.fst =
      (List.range' 0 items.length).map indexKey := by
    rw [← List.zipIdx_map_snd 0 items, List.map_map, List.map_map]
    rfl
  rw [hkeys]
  exact (List.nodup_range').map indexKey_injective

namespace Node

variable {n : Nat}

/-- The properties under their keys. -/
def own : Node n → List (JsString × GraphValue n)
  | .array items _ => items.zipIdx.map fun (v, i) => (indexKey i, v)
  | .object _ props => props.entries
  | .bytes content => (content.getD []).zipIdx.map fun (byte, i) =>
      (indexKey i, .primitive (numberValue byte.toNat))

private theorem nodup_own (node : Node n) : (node.own.map Prod.fst).Nodup := by
  cases node with
  | array items bound => exact nodup_indexKeys items id
  | object kind props => exact props.nodup
  | bytes content =>
    exact nodup_indexKeys (content.getD []) fun byte =>
      (GraphValue.primitive (numberValue byte.toNat) : GraphValue n)

def length? : Node n → Option Nat
  | .array items _ => some items.length
  | .object .. => none
  | .bytes content => some (content.getD []).length

def get (node : Node n) (key : JsString) : GraphValue n :=
  match node.own.lookup key, node.length? with
  | some v, _ => v
  | none, some length =>
    if key = .ofText "length".toList then .primitive (numberValue length) else .primitive .undefined
  | none, none => .primitive .undefined

theorem get_of_mem {node : Node n} {key : JsString} {v : GraphValue n} (h : (key, v) ∈ node.own) :
    node.get key = v := by
  have hlookup : node.own.lookup key = some v := by
    rw [List.lookup_eq_some_iff]
    obtain ⟨pre, post, hsplit⟩ := List.append_of_mem h
    refine ⟨pre, post, hsplit, fun e he => ?_⟩
    have hnodup := node.nodup_own
    rw [hsplit, List.map_append, List.map_cons, List.nodup_middle] at hnodup
    have hne : key ≠ e.1 := by
      intro hk
      apply (List.nodup_cons.mp hnodup).1
      rw [hk]
      exact List.mem_append_left _ (List.mem_map.mpr ⟨e, he, rfl⟩)
    simpa using hne
  unfold get
  rw [hlookup]

def item : Node n → Nat → GraphValue n
  | .array items _, index => items[index]?.getD (.primitive .undefined)
  | node, index => node.get (indexKey index)

def content : Node n → Option (Option (List UInt8))
  | .bytes content => some content
  | _ => none

def shape : Node n → JsShape
  | .array .. => .array
  | .object kind _ => .object kind
  | .bytes _ => .object .object

end Node

section
variable {n : Nat} (heap : Heap n)

def GraphValue.shape : GraphValue n → JsShape
  | .primitive p => .primitive p
  | .ref r => (heap r).shape

/-- The interpreter of a graph. A primitive value has no properties. -/
def plain : Interpreter (GraphValue n) Unit where
  shape := GraphValue.shape heap
  get v key _ := match v with
    | .primitive _ => (.ok (.primitive .undefined), ())
    | .ref r => (.ok ((heap r).get key), ())
  item v index _ := match v with
    | .primitive _ => (.ok (.primitive .undefined), ())
    | .ref r => (.ok ((heap r).item index), ())
  keys v _ := match v with
    | .primitive _ => (.ok [], ())
    | .ref r => (.ok ((heap r).own.map Prod.fst), ())
  bytes v _ := match v with
    | .primitive _ => none
    | .ref r => (heap r).content

/-- What a conversion of part of the value says, and what it made of it. -/
abbrev Walk (n : Nat) (X : Type) :=
  Asking (fun _ : GraphValue n => Except JsError Json) (Except JsError X)

/-- The items of an array from an index on, each converted before the next. -/
def walkItems : List (GraphValue n) → Nat → Walk n (List Json)
  | [], _ => .done (.ok [])
  | v :: rest, index => .ask v fun
    | .error e => .done (.error (atIndex e index))
    | .ok json => (walkItems rest (index + 1)).map fun r => r.map (json :: ·)

/-- Properties, each converted before the next. -/
def walkProps : List (JsString × GraphValue n) → List (Str × Json) → Walk n (List (Str × Json))
  | [], map => .done (.ok map)
  | (key, v) :: rest, map =>
    match stringText key with
    | .error e => .done (.error e)
    | .ok key => .ask v fun
      | .error e => .done (.error (atPath e (bracketed key)))
      | .ok json => walkProps rest (insertField key json map)

/-- The walk of one value, which asks for the conversion of those right inside it. -/
def walk (purpose : Purpose) : GraphValue n → Walk n Json
  | .primitive p => .done (primitiveToJson p purpose)
  | .ref r => match heap r, purpose with
    | .array items _, _ => (walkItems items 0).map fun r => r.map Json.array
    | .bytes content, .validation => .done (.ok (bytesJson content))
    | node, _ => (walkProps node.own []).map fun r => r.map Json.object

def GraphValue.object? : GraphValue n → Option (Fin n)
  | .primitive _ => none
  | .ref r => some r

/-- What the walk of a graph comes to, `none` where it meets an object inside itself and
`JSON.stringify` throws. -/
def stringify (purpose : Purpose) (v : GraphValue n) : Option (Except JsError Json) :=
  Recursion.guarded (walk heap purpose) GraphValue.object? n [] v

variable {X Y : Type}

/-- A conversion comes to `r` once `values` were received, and may receive more. -/
def Yields (c : Conversion X) (values : List (GraphValue n)) (r : Option (Except JsError X)) :
    Prop :=
  ∃ more, c.run (plain heap).answer (values, ()) = (r, values ++ more, ())

variable {heap} {values : List (GraphValue n)} {c : Conversion X} {next : X → Conversion Y}

theorem Yields.done (r : Option (Except JsError X)) : Yields heap (.done r) values r :=
  ⟨[], by rw [Asking.run_done, List.append_nil]⟩

theorem Yields.andThen_none (h : Yields heap c values none) :
    Yields heap (c.andThen next) values none := by
  obtain ⟨more, hrun⟩ := h
  refine ⟨more, ?_⟩
  unfold Conversion.andThen
  rw [Asking.run_bind, hrun]
  rfl

theorem Yields.andThen_error {e : JsError} (h : Yields heap c values (some (.error e))) :
    Yields heap (c.andThen next) values (some (.error e)) := by
  obtain ⟨more, hrun⟩ := h
  refine ⟨more, ?_⟩
  unfold Conversion.andThen
  rw [Asking.run_bind, hrun]
  rfl

theorem Yields.andThen_ok {x : X} {r : Option (Except JsError Y)}
    (h : Yields heap c values (some (.ok x)))
    (hnext : ∀ more, Yields heap (next x) (values ++ more) r) :
    Yields heap (c.andThen next) values r := by
  obtain ⟨more, hrun⟩ := h
  obtain ⟨more', hrun'⟩ := hnext more
  refine ⟨more ++ more', ?_⟩
  unfold Conversion.andThen
  rw [Asking.run_bind, hrun]
  show (next x).run (plain heap).answer (values ++ more, ()) = _
  rw [hrun', List.append_assoc]

theorem Yields.mapError {r : Option (Except JsError X)} (f : JsError → JsError)
    (h : Yields heap c values r) :
    Yields heap (c.mapError f) values (r.map fun r => r.mapError f) := by
  obtain ⟨more, hrun⟩ := h
  refine ⟨more, ?_⟩
  unfold Conversion.mapError
  rw [Asking.run_map, hrun]

theorem received_append {handle : Nat} {v : GraphValue n} (h : values[handle]? = some v)
    (more : List (GraphValue n)) : (values ++ more)[handle]? = some v := by
  rw [List.getElem?_append_left (List.getElem?_eq_some_iff.mp h).1, h]

/-- A read that receives `v` goes on with it. -/
theorem Yields.received {c : Conversion (Nat × JsShape)} {next : Nat × JsShape → Conversion Y}
    {v : GraphValue n} {r : Option (Except JsError Y)}
    (hc : c.run (plain heap).answer (values, ()) =
      (some (.ok (values.length, v.shape heap)), values ++ [v], ()))
    (hnext : Yields heap (next (values.length, v.shape heap)) (values ++ [v]) r) :
    Yields heap (c.andThen next) values r := by
  obtain ⟨more, hrun⟩ := hnext
  refine ⟨v :: more, ?_⟩
  unfold Conversion.andThen
  rw [Asking.run_bind, hc]
  show (next (values.length, v.shape heap)).run (plain heap).answer (values ++ [v], ()) = _
  rw [hrun, List.append_assoc]
  rfl

section
variable (heap) {handle : Nat} {object : Fin n} (h : values[handle]? = some (.ref object))
include h

theorem run_get (key : JsString) : (Conversion.get handle key).run (plain heap).answer (values, ()) =
    (some (.ok (values.length, ((heap object).get key).shape heap)),
      values ++ [(heap object).get key], ()) := by
  simp [Conversion.get, Conversion.ofExcept, Interpreter.answer, Interpreter.received, h, plain]

theorem run_item (index : Nat) :
    (Conversion.item handle index).run (plain heap).answer (values, ()) =
      (some (.ok (values.length, ((heap object).item index).shape heap)),
        values ++ [(heap object).item index], ()) := by
  simp [Conversion.item, Conversion.ofExcept, Interpreter.answer, Interpreter.received, h, plain]

private theorem run_keys : (Conversion.keys handle).run (plain heap).answer (values, ()) =
    (some (.ok ((heap object).own.map Prod.fst)), values, ()) := by
  simp [Conversion.keys, Conversion.ofExcept, Interpreter.answer, h, plain]

theorem Yields.bytes {k : Option (Option (List UInt8)) → Conversion X}
    {r : Option (Except JsError X)} (hk : Yields heap (k (heap object).content) values r) :
    Yields heap (.ask (.bytes handle) k) values r := by
  obtain ⟨more, hrun⟩ := hk
  refine ⟨more, ?_⟩
  have hanswer : (plain heap).answer (.bytes handle) (values, ()) =
      ((heap object).content, values, ()) := by
    simp [Interpreter.answer, h, plain]
  rw [Asking.run_ask, hanswer]
  exact hrun

end

/-- A conversion of every value of the graph to what `f` makes of it. -/
def Converts (heap : Heap n) (convert : Nat → JsShape → Conversion Json)
    (f : GraphValue n → Option (Except JsError Json)) : Prop :=
  ∀ {values : List (GraphValue n)} {handle : Nat} {v : GraphValue n}, values[handle]? = some v →
    Yields heap (convert handle (v.shape heap)) values (f v)

section
variable {convert : Nat → JsShape → Conversion Json}
  {f : GraphValue n → Option (Except JsError Json)} (hconvert : Converts heap convert f)
  {handle : Nat} {object : Fin n}
include hconvert

theorem Converts.items {items : List (GraphValue n)} {bound : items.length < 2 ^ 32}
    (hnode : heap object = .array items bound) {rest : List (GraphValue n)} {index : Nat}
    (hrest : items.drop index = rest) (hvalues : values[handle]? = some (.ref object)) :
    Yields heap (itemsToJson convert handle rest.length index) values
      (Recursion.eval f (walkItems rest index)) := by
  induction rest generalizing index values with
  | nil => exact .done _
  | cons v rest ih =>
    have hitem : (heap object).item index = v := by
      have hget : items[index]? = some v := by
        rw [← List.head?_drop, hrest]
        rfl
      rw [hnode]
      simp [Node.item, hget]
    have hdrop : items.drop (index + 1) = rest := by
      rw [← List.tail_drop, hrest]
      rfl
    have hread := run_item heap hvalues index
    rw [hitem] at hread
    apply Yields.received hread
    have hfirst := (hconvert (List.getElem?_concat_length (l := values) (a := v))).mapError
      (atIndex · index)
    simp only [walkItems, Recursion.eval_ask]
    cases hf : f v with
    | none =>
      rw [hf] at hfirst
      exact hfirst.andThen_none
    | some result =>
      rw [hf] at hfirst
      cases result with
      | error e => exact hfirst.andThen_error
      | ok json =>
        refine hfirst.andThen_ok fun more => ?_
        have hhere := received_append hvalues ([v] ++ more)
        rw [← List.append_assoc] at hhere
        have htail := ih hdrop hhere
        show Yields heap _ _ (Recursion.eval f ((walkItems rest (index + 1)).map _))
        rw [Recursion.eval_map]
        cases hw : Recursion.eval f (walkItems rest (index + 1)) with
        | none =>
          rw [hw] at htail
          exact htail.andThen_none
        | some result =>
          rw [hw] at htail
          cases result with
          | error e => exact htail.andThen_error
          | ok jsons => exact htail.andThen_ok fun _ => .done _

theorem Converts.props {entries : List (JsString × GraphValue n)} (map : List (Str × Json))
    (hentries : ∀ e ∈ entries, e ∈ (heap object).own)
    (hvalues : values[handle]? = some (.ref object)) :
    Yields heap (propsToJson convert handle (entries.map Prod.fst) map) values
      (Recursion.eval f (walkProps entries map)) := by
  induction entries generalizing map values with
  | nil => exact .done _
  | cons entry entries ih =>
    obtain ⟨key, v⟩ := entry
    have hread := run_get heap hvalues key
    rw [Node.get_of_mem (hentries _ List.mem_cons_self)] at hread
    apply Yields.received hread
    unfold walkProps
    cases hkey : stringText key with
    | error e => exact .done _
    | ok text =>
      have hfirst := (hconvert (List.getElem?_concat_length (l := values) (a := v))).mapError
        (atPath · (bracketed text))
      simp only [Conversion.ok_andThen, Recursion.eval_ask]
      cases hf : f v with
      | none =>
        rw [hf] at hfirst
        exact hfirst.andThen_none
      | some result =>
        rw [hf] at hfirst
        cases result with
        | error e => exact hfirst.andThen_error
        | ok json =>
          refine hfirst.andThen_ok fun more => ?_
          have hhere := received_append hvalues ([v] ++ more)
          rw [← List.append_assoc] at hhere
          exact ih _ (fun e he => hentries e (List.mem_cons_of_mem _ he)) hhere

omit hconvert in
theorem get_length {items : List (GraphValue n)} {bound : items.length < 2 ^ 32}
    (hnode : heap object = .array items bound) :
    (heap object).get (.ofText "length".toList) = .primitive (numberValue items.length) := by
  have hlookup : (heap object).own.lookup (.ofText "length".toList) = none := by
    rw [hnode, List.lookup_eq_none_iff]
    intro e he
    obtain ⟨⟨v, i⟩, -, rfl⟩ := List.mem_map.mp he
    simpa using (indexKey_ne_length i).symm
  rw [Node.get, hlookup, hnode]
  rfl

theorem Converts.ofArray {items : List (GraphValue n)} {bound : items.length < 2 ^ 32}
    (hnode : heap object = .array items bound) (hvalues : values[handle]? = some (.ref object)) :
    Yields heap (arrayToJson convert handle) values
      (Recursion.eval f ((walkItems items 0).map fun r => r.map Json.array)) := by
  have hread := run_get heap hvalues (.ofText "length".toList)
  rw [get_length hnode] at hread
  apply Yields.received hread
  show Yields heap ((Conversion.ofExcept (arrayLength (.primitive (numberValue items.length))
    "json".toList)).andThen _) _ _
  rw [arrayLength_numberValue bound, Conversion.ok_andThen, Recursion.eval_map]
  have hitems := hconvert.items hnode (List.drop_zero)
    (received_append hvalues [.primitive (numberValue items.length)])
  cases hw : Recursion.eval f (walkItems items 0) with
  | none =>
    rw [hw] at hitems
    exact hitems.andThen_none
  | some result =>
    rw [hw] at hitems
    cases result with
    | error e => exact hitems.andThen_error
    | ok jsons => exact hitems.andThen_ok fun _ => .done _

theorem Converts.ofObject (hvalues : values[handle]? = some (.ref object)) :
    Yields heap (objectToJson convert handle) values
      (Recursion.eval f ((walkProps (heap object).own []).map fun r => r.map Json.object)) := by
  have hkeys : Yields heap (Conversion.keys handle) values
      (some (.ok ((heap object).own.map Prod.fst))) := ⟨[], by
    rw [run_keys heap hvalues, List.append_nil]⟩
  refine hkeys.andThen_ok fun more => ?_
  have hprops := hconvert.props [] (fun e he => he) (received_append hvalues more)
  rw [Recursion.eval_map]
  cases hw : Recursion.eval f (walkProps (heap object).own []) with
  | none =>
    rw [hw] at hprops
    exact hprops.andThen_none
  | some result =>
    rw [hw] at hprops
    cases result with
    | error e => exact hprops.andThen_error
    | ok fields => exact hprops.andThen_ok fun _ => .done _

end

theorem eval_walkItems {f : GraphValue n → Option (Except JsError Json)}
    {items : List (GraphValue n)} {index : Nat} {jsons : List Json}
    (h : Recursion.eval f (walkItems items index) = some (.ok jsons)) :
    List.Forall₂ (fun v json => f v = some (.ok json)) items jsons := by
  induction items generalizing index jsons with
  | nil =>
    obtain rfl : [] = jsons := by simpa [walkItems] using h
    exact .nil
  | cons v items ih =>
    simp only [walkItems, Recursion.eval_ask, Option.bind_eq_some_iff] at h
    obtain ⟨result, hv, hrest⟩ := h
    cases result with
    | error e => cases hrest
    | ok json =>
      rw [Recursion.eval_map] at hrest
      obtain ⟨tail, htail, hcons⟩ := Option.map_eq_some_iff.mp hrest
      cases tail with
      | error e => cases hcons
      | ok tail =>
        obtain rfl : json :: tail = jsons := by simpa [Except.map] using hcons
        exact .cons hv (ih htail)

/-- What an object converts to: an array that lists what its items do, the array of its bytes,
or an object. -/
theorem eval_walk_ref {heap : Heap n} {purpose : Purpose}
    {f : GraphValue n → Option (Except JsError Json)} {object : Fin n} {json : Json}
    (h : Recursion.eval f (walk heap purpose (.ref object)) = some (.ok json)) :
    (∃ items bound jsons, heap object = .array items bound ∧ json = .array jsons ∧
      List.Forall₂ (fun v json => f v = some (.ok json)) items jsons) ∨
    (∃ content, heap object = .bytes content ∧ json = bytesJson content) ∨
    ∃ fields, json = .object fields := by
  have hfields : ∀ {node : Node n}, Recursion.eval f ((walkProps node.own []).map
      fun r => r.map Json.object) = some (.ok json) → ∃ fields, json = .object fields := by
    intro node hnode
    rw [Recursion.eval_map] at hnode
    obtain ⟨result, -, hresult⟩ := Option.map_eq_some_iff.mp hnode
    cases result with
    | error e => cases hresult
    | ok fields => exact ⟨fields, by simpa [Except.map, eq_comm] using hresult⟩
  cases hnode : heap object with
  | array items bound =>
    simp only [walk, hnode, Recursion.eval_map] at h
    obtain ⟨result, hitems, hresult⟩ := Option.map_eq_some_iff.mp h
    cases result with
    | error e => cases hresult
    | ok jsons =>
      have hjson : json = .array jsons := by simpa [Except.map, eq_comm] using hresult
      exact .inl ⟨items, bound, jsons, rfl, hjson, eval_walkItems hitems⟩
  | object kind props =>
    simp only [walk, hnode] at h
    exact .inr (.inr (hfields h))
  | bytes content =>
    cases purpose with
    | json =>
      simp only [walk, hnode] at h
      exact .inr (.inr (hfields h))
    | validation =>
      simp only [walk, hnode] at h
      exact .inr (.inl ⟨content, rfl, by simpa [eq_comm] using h⟩)

theorem fuelled_number {heap : Heap n} {purpose : Purpose} {fuel : Nat} {v : GraphValue n}
    {k : Number} (h : Recursion.fuelled (walk heap purpose) fuel v = some (.ok (.number k))) :
    ∃ p, v = .primitive p ∧ primitiveToJson p purpose = .ok (.number k) := by
  cases fuel with
  | zero => cases h
  | succ fuel =>
    cases v with
    | primitive p => exact ⟨p, rfl, Option.some.inj h⟩
    | ref object =>
      rcases eval_walk_ref h with ⟨_, _, _, -, hjson, -⟩ | ⟨_, -, hjson⟩ | ⟨_, hjson⟩ <;> cases hjson

/-- On a plain graph `to_json` is the walk, its calls nested at most as deep as the fuel. -/
theorem converts_toJson (heap : Heap n) (purpose : Purpose) (fuel : Nat) :
    Converts heap (toJson purpose fuel) (Recursion.fuelled (walk heap purpose) fuel) := by
  induction fuel with
  | zero =>
    intro values handle v _
    exact .done none
  | succ fuel ih =>
    intro values handle v hv
    cases v with
    | primitive p => exact .done _
    | ref object =>
      rw [Recursion.fuelled]
      cases hnode : heap object with
      | array items bound =>
        have hshape : GraphValue.shape heap (.ref object) = .array := by
          rw [GraphValue.shape, hnode]
          rfl
        have hwalk : walk heap purpose (.ref object) =
            (walkItems items 0).map fun r => r.map Json.array := by
          simp only [walk, hnode]
        rw [hshape, hwalk]
        exact ih.ofArray hnode hv
      | object kind props =>
        have hshape : GraphValue.shape heap (.ref object) = .object kind := by
          rw [GraphValue.shape, hnode]
          rfl
        have hwalk : walk heap purpose (.ref object) =
            (walkProps (heap object).own []).map fun r => r.map Json.object := by
          simp only [walk, hnode]
        rw [hshape, hwalk]
        cases purpose with
        | json => exact ih.ofObject hv
        | validation =>
          apply Yields.bytes heap hv
          have hcontent : (heap object).content = none := by
            rw [hnode]
            rfl
          rw [hcontent]
          exact ih.ofObject hv
      | bytes content =>
        have hshape : GraphValue.shape heap (.ref object) = .object .object := by
          rw [GraphValue.shape, hnode]
          rfl
        rw [hshape]
        cases purpose with
        | json =>
          have hwalk : walk heap .json (.ref object) =
              (walkProps (heap object).own []).map fun r => r.map Json.object := by
            simp only [walk, hnode]
          rw [hwalk]
          exact ih.ofObject hv
        | validation =>
          have hwalk : walk heap .validation (.ref object) = .done (.ok (bytesJson content)) := by
            simp only [walk, hnode]
          rw [hwalk]
          apply Yields.bytes heap hv
          rw [hnode]
          exact .done _

theorem convert_toJson (heap : Heap n) (purpose : Purpose) (fuel : Nat) (v : GraphValue n) :
    ((plain heap).convert (toJson purpose fuel) v ()).1 =
      Recursion.fuelled (walk heap purpose) fuel v := by
  have hroot : [v][0]? = some v := rfl
  obtain ⟨more, hyields⟩ := converts_toJson heap purpose fuel hroot
  exact congrArg Prod.fst hyields

theorem toJson_iff_stringify (heap : Heap n) (purpose : Purpose) (v : GraphValue n)
    (r : Except JsError Json) :
    (∃ fuel, ((plain heap).convert (toJson purpose fuel) v ()).1 = some r) ↔
      stringify heap purpose v = some r := by
  have hkeyed : Recursion.Keyed (walk heap purpose) GraphValue.object? .ref := by
    constructor
    · intro v hv
      cases v with
      | primitive p => exact ⟨_, rfl⟩
      | ref object => cases hv
    · intro v object hv
      cases v with
      | primitive p => cases hv
      | ref object' => rw [Option.some.inj hv]
  simp only [convert_toJson]
  have hiff := Recursion.fuelled_iff_guarded hkeyed (q := v) (x := r)
  rwa [Fintype.card_fin] at hiff

end

/-- Converting a value of a graph ends, with a result or an error, exactly where `JSON.stringify`
does not throw at a cycle, and then with the walk's result. -/
theorem conversion_ends_iff {n : Nat} (heap : Heap n) (purpose : Purpose) (v : GraphValue n) :
    ((∃ fuel r, ((plain heap).convert (toJson purpose fuel) v ()).1 = some r) ↔
      (stringify heap purpose v).isSome) ∧
    ∀ fuel r, ((plain heap).convert (toJson purpose fuel) v ()).1 = some r →
      stringify heap purpose v = some r := by
  constructor
  · constructor
    · rintro ⟨fuel, r, h⟩
      rw [(toJson_iff_stringify heap purpose v r).mp ⟨fuel, h⟩]
      rfl
    · intro h
      obtain ⟨r, hr⟩ := Option.isSome_iff_exists.mp h
      obtain ⟨fuel, hfuel⟩ := (toJson_iff_stringify heap purpose v r).mpr hr
      exact ⟨fuel, r, hfuel⟩
  · intro fuel r h
    exact (toJson_iff_stringify heap purpose v r).mp ⟨fuel, h⟩

/-- `const o = {}; o.self = o`. -/
def selfObject : Heap 1 := fun _ => .object .object
  ⟨[(.ofText "self".toList, .ref 0)], List.nodup_singleton _⟩

theorem selfObject_never_converts :
    (¬∃ fuel r, ((plain selfObject).convert (jsValueToJson fuel) (.ref 0) ()).1 = some r) ∧
    ¬∃ fuel r,
      ((plain selfObject).convert (jsValueToValidationSnapshot fuel) (.ref 0) ()).1 = some r := by
  have hcycle : ∀ purpose, stringify selfObject purpose (.ref 0) = none := by
    intro purpose
    cases purpose <;> rfl
  constructor
  · rintro ⟨fuel, r, hr⟩
    have hwalk := (toJson_iff_stringify selfObject .json (.ref 0) r).mp ⟨fuel, hr⟩
    rw [hcycle] at hwalk
    cases hwalk
  · rintro ⟨fuel, r, hr⟩
    have hwalk := (toJson_iff_stringify selfObject .validation (.ref 0) r).mp ⟨fuel, hr⟩
    rw [hcycle] at hwalk
    cases hwalk

end RustTS.Contract
