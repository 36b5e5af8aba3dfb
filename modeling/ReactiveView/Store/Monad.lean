import ReactiveView.Store.Basic
/-!
# Running operations on the heap

Operations on observed data run in `StoreM ρ σ`: they read and change a `World`, which is the
heap together with the state `σ` of whoever reacts to changes, and they may stop with a `Halt`.

A subscriber reacts through a `Handler`, given the fuel left, its reaction and the change. Every
delivery spends one unit of fuel, so a chain of subscribers that keep causing changes stops with
`Halt.exhausted` instead of running forever.

`notify` is the one place where changes are reported: it appends the change to the observer's
list first, then takes the subscribers present at that moment and calls them in subscription
order, each to completion, before it returns.
-/
namespace ReactiveView.Store

/-- The heap and the state of the reactions. -/
structure World (ρ σ : Type) where
  heap : Heap ρ
  user : σ

/-- Why a run stopped early. -/
inductive Halt where
  /-- The engine gave up with this message. -/
  | panic (message : String)
  /-- Reactions kept causing changes past the fuel given. -/
  | exhausted
  deriving DecidableEq, Repr

/-- Operations on observed data. -/
abbrev StoreM (ρ σ : Type) := StateT (World ρ σ) (Except Halt)

/-- What subscribers do: given the fuel left, a subscriber's reaction and the change. -/
abbrev Handler (ρ σ : Type) := Nat → ρ → Change → StoreM ρ σ Unit

variable {ρ σ : Type}

/-- The current heap. -/
def heap : StoreM ρ σ (Heap ρ) := do return (← get).heap

/-- Change the heap. -/
def modifyHeap (f : Heap ρ → Heap ρ) : StoreM ρ σ Unit :=
  modify fun w => { w with heap := f w.heap }

/-- Put a new container into the heap and give its handle. -/
def alloc (c : Cell) : StoreM ρ σ Nat := do
  let h ← heap
  modifyHeap fun h => { h with cells := h.cells.push c }
  return h.cells.size

/-- A new empty object. -/
def newObject : StoreM ρ σ Nat := alloc (.object ⟨[], none⟩)

/-- A new array with the given items. -/
def newArray (items : List Value) : StoreM ρ σ Nat := alloc (.array ⟨items, none⟩)

/-- A new observer, with its index. -/
def newObserver : StoreM ρ σ Nat := do
  let h ← heap
  modifyHeap fun h => { h with observers := h.observers.push Observer.empty }
  return h.observers.size

/-- The observer behind an index, or an empty one. -/
def observerAt (o : Nat) : StoreM ρ σ (Observer ρ) := do
  return ((← heap).observer? o).getD Observer.empty

/-- Report a change to an observer and deliver it to the subscribers it has now. -/
def notify (react : Handler ρ σ) (fuel : Nat) (o : Nat) (c : Change) : StoreM ρ σ Unit :=
  match fuel with
  | 0 => throw .exhausted
  | fuel + 1 => do
    modifyHeap fun h => h.modifyObserver o fun obs => { obs with changes := obs.changes ++ [c] }
    let subscribers := (← observerAt o).subscribers
    subscribers.forM fun s => react fuel s.reaction c

/-- Add a subscriber to an observer; its number counts up from zero for each observer. -/
def subscribe (o : Nat) (reaction : ρ) : StoreM ρ σ Nat := do
  let obs ← observerAt o
  modifyHeap fun h => h.modifyObserver o fun obs =>
    { obs with subscribers := obs.subscribers ++ [⟨obs.nextId, reaction⟩], nextId := obs.nextId + 1 }
  return obs.nextId

/-- Remove a subscriber; whether it was there. -/
def unsubscribe (o : Nat) (id : Nat) : StoreM ρ σ Bool := do
  let obs ← observerAt o
  let kept := obs.subscribers.filter (·.id != id)
  modifyHeap fun h => h.modifyObserver o fun obs => { obs with subscribers := kept }
  return kept.length != obs.subscribers.length

/-- The changes an observer holds. -/
def changes (o : Nat) : StoreM ρ σ (List Change) := do
  return (← observerAt o).changes

/-- The changes an observer holds, which it then forgets. -/
def takeChanges (o : Nat) : StoreM ρ σ (List Change) := do
  let cs := (← observerAt o).changes
  modifyHeap fun h => h.modifyObserver o fun obs => { obs with changes := [] }
  return cs

end ReactiveView.Store
