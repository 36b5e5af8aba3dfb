import ReactiveView.Double.Basic
/-!
# Values and the heap

The data model has scalars (`undefined`, `null`, booleans, binary64 numbers, strings) and two
kinds of containers, objects and arrays. A container is a cell of the heap and a value holds a
handle to it, so a container can be shared and can contain itself; two values are the same
container exactly when their handles agree.

An object keeps its properties in the order they were first defined. A property's slot is plain,
observed (writes to it are reported), or a proxy that forwards the key to another object. A
container bound to an observer reports its changes to that observer under its binding path.
Observers keep the list of changes reported to them and their subscribers, each with a
reaction of the caller's type `ρ`.
-/
namespace ReactiveView.Store

/-- A value of the data model; containers are handles into the heap. -/
inductive Value where
  | undefined
  | null
  | bool (b : Bool)
  | number (x : Double)
  | string (s : String)
  | array (ref : Nat)
  | object (ref : Nat)
  deriving DecidableEq, Inhabited, Repr

namespace Value

/-- The name of a value's type. -/
def typeName : Value → String
  | .undefined => "undefined"
  | .null => "null"
  | .bool _ => "boolean"
  | .number _ => "number"
  | .string _ => "string"
  | .array _ => "array"
  | .object _ => "object"

/-- Sameness for change detection: scalars by value with NaN the same as NaN (and the two zeros
the same), containers by handle. -/
def same : Value → Value → Bool
  | .undefined, .undefined => true
  | .null, .null => true
  | .bool a, .bool b => a == b
  | .number a, .number b => a.ieeeEq b || (a.isNaN && b.isNaN)
  | .string a, .string b => a == b
  | .array a, .array b => a == b
  | .object a, .object b => a == b
  | _, _ => false

/-- The number a value holds, if it is a number. -/
def number? : Value → Option Double
  | .number x => some x
  | _ => none

end Value

/-- `key` appended to a dotted path; the empty path is the root. -/
def joinPath (pathPrefix key : String) : String :=
  if pathPrefix.isEmpty then key else pathPrefix ++ "." ++ key

/-- Which observer a container reports to, and under which path. -/
structure Binding where
  observer : Nat
  path : String
  deriving DecidableEq, Repr, Inhabited

/-- A binding covers a later binding request of the same observer at `path` when the paths
agree, the binding is at the root, or `path` lies below the binding's path. -/
def Binding.covers (b : Binding) (observer : Nat) (path : String) : Bool :=
  b.observer == observer &&
    (b.path == path || b.path.isEmpty || (b.path ++ ".").isPrefixOf path)

/-- How an object holds a property. -/
inductive Slot where
  /-- A value whose writes are not reported. -/
  | plain (v : Value)
  /-- A value whose writes are reported. -/
  | observed (v : Value)
  /-- The key is forwarded to another object. -/
  | proxy (source : Nat)
  deriving DecidableEq, Inhabited, Repr

/-- A property of an object. -/
structure Property where
  key : String
  slot : Slot
  enumerable : Bool
  deriving DecidableEq, Inhabited, Repr

/-- The state of an object: properties in definition order, and its binding. -/
structure ObjectCell where
  properties : List Property
  binding : Option Binding
  deriving Inhabited, Repr

/-- The state of an array: its items, and its binding. -/
structure ArrayCell where
  items : List Value
  binding : Option Binding
  deriving Inhabited, Repr

/-- A container of the heap. -/
inductive Cell where
  | object (c : ObjectCell)
  | array (c : ArrayCell)
  deriving Inhabited, Repr

/-- Whether a change wrote a property or reshaped an array. -/
inductive ChangeKind where
  | set
  | array
  deriving DecidableEq, Inhabited, Repr

/-- A reported change: a property written at `path` with its new value, or an array at `path`
reshaped, with its new length as the value. -/
structure Change where
  kind : ChangeKind
  path : String
  value : Value
  deriving DecidableEq, Inhabited, Repr

/-- A subscriber: its number and what it does when a change is delivered. -/
structure Subscriber (ρ : Type) where
  id : Nat
  reaction : ρ

/-- An observer: the changes reported to it, in order, and its subscribers. -/
structure Observer (ρ : Type) where
  changes : List Change
  subscribers : List (Subscriber ρ)
  nextId : Nat

/-- A fresh observer. -/
def Observer.empty {ρ : Type} : Observer ρ := ⟨[], [], 0⟩

/-- The heap: containers and observers, each addressed by its index. -/
structure Heap (ρ : Type) where
  cells : Array Cell
  observers : Array (Observer ρ)

namespace ObjectCell

/-- The property with the given key. -/
def find? (c : ObjectCell) (key : String) : Option Property :=
  c.properties.find? (·.key == key)

/-- Whether the object has its own property with the key. -/
def hasOwn (c : ObjectCell) (key : String) : Bool :=
  c.properties.any (·.key == key)

/-- Define a property: an existing key keeps its place and takes the new slot and flag, a new
key goes last. -/
def put (c : ObjectCell) (key : String) (slot : Slot) (enumerable : Bool) : ObjectCell :=
  if c.hasOwn key then
    { c with properties := c.properties.map fun p =>
        if p.key == key then ⟨key, slot, enumerable⟩ else p }
  else { c with properties := c.properties ++ [⟨key, slot, enumerable⟩] }

/-- Replace the slot of an existing key, keeping its flag. -/
def setSlot (c : ObjectCell) (key : String) (slot : Slot) : ObjectCell :=
  { c with properties := c.properties.map fun p => if p.key == key then { p with slot := slot } else p }

/-- Remove a key, keeping the order of the others. -/
def erase (c : ObjectCell) (key : String) : ObjectCell :=
  { c with properties := c.properties.filter (·.key != key) }

/-- The keys of the enumerable properties, in order. -/
def keys (c : ObjectCell) : List String :=
  (c.properties.filter (·.enumerable)).map (·.key)

end ObjectCell

namespace Heap

variable {ρ : Type}

/-- An empty heap. -/
def empty : Heap ρ := ⟨#[], #[]⟩

/-- The object behind a handle. -/
def object? (h : Heap ρ) (r : Nat) : Option ObjectCell :=
  match h.cells[r]? with
  | some (.object c) => some c
  | _ => none

/-- The array behind a handle. -/
def array? (h : Heap ρ) (r : Nat) : Option ArrayCell :=
  match h.cells[r]? with
  | some (.array c) => some c
  | _ => none

/-- The items of an array, or none. -/
def items (h : Heap ρ) (r : Nat) : List Value :=
  (h.array? r).map (·.items) |>.getD []

/-- The observer behind an index. -/
def observer? (h : Heap ρ) (o : Nat) : Option (Observer ρ) := h.observers[o]?

/-- Replace the object behind a handle. -/
def setObject (h : Heap ρ) (r : Nat) (c : ObjectCell) : Heap ρ :=
  { h with cells := h.cells.set! r (.object c) }

/-- Replace the array behind a handle. -/
def setArray (h : Heap ρ) (r : Nat) (c : ArrayCell) : Heap ρ :=
  { h with cells := h.cells.set! r (.array c) }

/-- Change the observer behind an index. -/
def modifyObserver (h : Heap ρ) (o : Nat) (f : Observer ρ → Observer ρ) : Heap ρ :=
  { h with observers := h.observers.modify o f }

/-- A bound on every walk through the heap that visits each container at most once. -/
def walkFuel (h : Heap ρ) : Nat := h.cells.size + 2

/-- The value an object gives for a key, following proxy slots; `fuel` bounds the chain. -/
def lookup (h : Heap ρ) : Nat → Nat → String → Value
  | 0, _, _ => .undefined
  | fuel + 1, r, key =>
    match h.object? r with
    | none => .undefined
    | some c =>
      match c.find? key with
      | none => .undefined
      | some p =>
        match p.slot with
        | .plain v | .observed v => v
        | .proxy src => h.lookup fuel src key

/-- The value an object gives for a key. -/
def get (h : Heap ρ) (r : Nat) (key : String) : Value := h.lookup h.walkFuel r key

/-- Whether writes to a key of an object are reported, following proxy slots. -/
def interceptsWithin (h : Heap ρ) : Nat → Nat → String → Bool
  | 0, _, _ => false
  | fuel + 1, r, key =>
    match (h.object? r).bind (·.find? key) with
    | some ⟨_, .observed _, _⟩ => true
    | some ⟨_, .proxy src, _⟩ => h.interceptsWithin fuel src key
    | _ => false

/-- Whether writes to a key of an object are reported. -/
def intercepts (h : Heap ρ) (r : Nat) (key : String) : Bool := h.interceptsWithin h.walkFuel r key

/-- The enumerable keys of an object with their values, in order. -/
def entries (h : Heap ρ) (r : Nat) : List (String × Value) :=
  match h.object? r with
  | some c => c.keys.map fun k => (k, h.get r k)
  | none => []

/-- The binding of a container. -/
def binding? (h : Heap ρ) (r : Nat) : Option Binding :=
  match h.cells[r]? with
  | some (.object c) => c.binding
  | some (.array c) => c.binding
  | none => none

end Heap

end ReactiveView.Store
