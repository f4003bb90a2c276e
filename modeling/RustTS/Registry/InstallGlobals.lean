import RustTS.Contract.JsValue

/-! The globals of a script in a context of its own: `installGlobals` puts every host function at
its dotted name, making a namespace object for each segment on the way. -/
namespace RustTS.Registry

open RustTS.Contract

/-- The objects of a context: those it has before, the native function of a name, and namespaces.
A namespace is named by where it was made, which holds an object ever after. -/
inductive Ref (R : Type)
  | builtin (object : R)
  | native (name : Str)
  | space (parent : Ref R) (segment : Str)
  deriving DecidableEq

/-- An own property. Primitive values are not told apart: the loop writes none. -/
inductive Property (R : Type)
  | primitive (writable : Bool)
  | object (ref : Ref R) (writable : Bool)
  | accessor
  deriving DecidableEq

/-- The properties the objects of a context have themselves. -/
abbrev Heap (R : Type) := Ref R → Str → Option (Property R)

/-- A property of an object the context has before. -/
inductive BuiltinProperty (R : Type)
  | primitive (writable : Bool)
  | object (object : R) (writable : Bool)
  | accessor
  deriving DecidableEq

/-- A context as the loop finds it: the built-in objects, with `ctx`, `console` and the timers
among the globals. `prototypes` lists what an object inherits from, nearest first. -/
structure Realm (R : Type) where
  globalThis : R
  objectPrototype : R
  functionPrototype : R
  prototypes : R → List R
  own : R → Str → Option (BuiltinProperty R)

/-- Assigning a property throws where it is read-only; an accessor runs code of its own. -/
inductive Stop
  | readOnly
  | accessor
  deriving DecidableEq, Repr

variable {R : Type} [DecidableEq R]

namespace Realm

variable (realm : Realm R)

def heap : Heap R
  | .builtin object, key => (realm.own object key).map fun
    | .primitive writable => .primitive writable
    | .object object writable => .object (.builtin object) writable
    | .accessor => .accessor
  | _, _ => none

/-- What a host function inherits from, or a namespace. -/
def inherited : Ref R → List R
  | .builtin object => realm.prototypes object
  | .native _ => realm.functionPrototype :: realm.prototypes realm.functionPrototype
  | .space .. => realm.objectPrototype :: realm.prototypes realm.objectPrototype

/-- The property that reading a key finds. -/
def find (heap : Heap R) (ref : Ref R) (key : Str) : Option (Property R) :=
  (heap ref key).or ((realm.inherited ref).findSome? fun object => heap (.builtin object) key)

end Realm

namespace Heap

def define (heap : Heap R) (ref : Ref R) (key : Str) (property : Property R) : Heap R :=
  fun r k => if r = ref ∧ k = key then some property else heap r k

/-- A new object has no properties. -/
def make (heap : Heap R) (ref : Ref R) : Heap R :=
  fun r k => if r = ref then none else heap r k

end Heap

namespace Realm

variable (realm : Realm R)

/-- `parent[key] = value`. -/
def assign (heap : Heap R) (parent : Ref R) (key : Str) (value : Ref R) : Except Stop (Heap R) :=
  match realm.find heap parent key with
  | some .accessor => .error .accessor
  | some (.primitive false) | some (.object _ false) => .error .readOnly
  | some (.primitive true) | some (.object _ true) | none =>
    .ok (heap.define parent key (.object value true))

def namespaceChild (heap : Heap R) (parent : Ref R) (segment : Str) :
    Except Stop (Ref R × Heap R) :=
  match realm.find heap parent segment with
  | some .accessor => .error .accessor
  | some (.object existing _) => .ok (existing, heap)
  | some (.primitive _) | none => do
    let child := .space parent segment
    let heap ← realm.assign (heap.make child) parent segment child
    pure (child, heap)

/-- The namespace a path ends in. -/
def descend (heap : Heap R) (parent : Ref R) : List Str → Except Stop (Ref R × Heap R)
  | [] => .ok (parent, heap)
  | segment :: rest => do
    let child ← realm.namespaceChild heap parent segment
    descend child.2 child.1 rest

end Realm

/-- `name.split(".")`. -/
def segments (name : Str) : List Str := name.splitOn '.'

namespace Realm

variable (realm : Realm R)

def installName (heap : Heap R) (name : Str) : Except Stop (Heap R) := do
  let leaf := (segments name).getLast?.getD []
  let parent ← realm.descend heap (.builtin realm.globalThis) (segments name).dropLast
  realm.assign parent.2 parent.1 leaf (.native name)

def installNames (heap : Heap R) : List Str → Except Stop (Heap R)
  | [] => .ok heap
  | name :: names => do
    let heap ← realm.installName heap name
    installNames heap names

end Realm

def nameRank (name : Str) : Nat := JsString.rank (.ofText name)

namespace Realm

variable (realm : Realm R)

/-- The object at a path. -/
def read (heap : Heap R) (ref : Ref R) : List Str → Option (Ref R)
  | [] => some ref
  | segment :: rest =>
    match realm.find heap ref segment with
    | some (.object child _) => read heap child rest
    | _ => none

/-- What a script finds at a dotted name. -/
def readName (heap : Heap R) (name : Str) : Option (Ref R) :=
  realm.read heap (.builtin realm.globalThis) (segments name)

end Realm

end RustTS.Registry
