import ReactiveView.Store.Observe
/-!
# Writing object properties

* `set` forwards through a proxy slot; on an observed slot it binds the new value under the
  property's path, writes it, and reports the write unless the old value was the same; on a
  plain slot it just writes; a new key becomes a plain enumerable property.
* `define` writes a plain property with the given flag, in place or at the end.
* `proxy` forwards a key that the object does not have to another object.
* `addProperty` adds a key that the object does not have as an observed property, binding the
  value and reporting the addition when the object is bound.
* `removeProperty` deletes a key, keeping the order of the others, and reports `undefined` for
  it when the object is bound.
-/
namespace ReactiveView.Store

variable {ρ σ : Type}

/-- The object behind a handle, or an empty one. -/
def objectAt (r : Nat) : StoreM ρ σ ObjectCell := do
  return ((← heap).object? r).getD ⟨[], none⟩

/-- Write an observed property and report it when the value changed. -/
def setObserved (react : Handler ρ σ) (fuel r : Nat) (key : String) (v : Value)
    (binding : Option Binding) : StoreM ρ σ Unit := do
  match binding with
  | some b => let _ ← observeAt b.observer (← heap).walkFuel v (joinPath b.path key) []
  | none => pure ()
  let c ← objectAt r
  let old : Value :=
    match c.find? key with
    | some ⟨_, .plain old, _⟩ | some ⟨_, .observed old, _⟩ => old
    | _ => .undefined
  if c.hasOwn key then modifyHeap fun h => h.setObject r (c.setSlot key (.observed v))
  if old.same v then return
  match binding with
  | some b => notify react fuel b.observer ⟨.set, joinPath b.path key, v⟩
  | none => pure ()

/-- Write a property, following proxy slots at most `chain` times. -/
def setWithin (react : Handler ρ σ) (fuel : Nat) : Nat → Nat → String → Value → StoreM ρ σ Unit
  | 0, _, _, _ => throw .exhausted
  | chain + 1, r, key, v => do
    let c ← objectAt r
    match c.find? key with
    | some ⟨_, .proxy src, _⟩ => setWithin react fuel chain src key v
    | some ⟨_, .observed _, _⟩ => setObserved react fuel r key v c.binding
    | some ⟨_, .plain _, _⟩ => modifyHeap fun h => h.setObject r (c.setSlot key (.plain v))
    | none => modifyHeap fun h => h.setObject r (c.put key (.plain v) true)

/-- Write a property of an object. -/
def setProperty (react : Handler ρ σ) (fuel r : Nat) (key : String) (v : Value) :
    StoreM ρ σ Unit := do
  setWithin react fuel (← heap).walkFuel r key v

/-- Define a plain property with the given flag. -/
def define (r : Nat) (key : String) (v : Value) (enumerable : Bool) : StoreM ρ σ Unit := do
  let c ← objectAt r
  modifyHeap fun h => h.setObject r (c.put key (.plain v) enumerable)

/-- Forward a key the object does not have to another object; whether it was added. -/
def proxy (r src : Nat) (key : String) : StoreM ρ σ Bool := do
  let c ← objectAt r
  if c.hasOwn key then return false
  modifyHeap fun h => h.setObject r (c.put key (.proxy src) true)
  return true

/-- Add a key the object does not have as an observed property; whether it was added. -/
def addProperty (react : Handler ρ σ) (fuel r : Nat) (key : String) (v : Value)
    (enumerable : Bool) : StoreM ρ σ Bool := do
  let c ← objectAt r
  if c.hasOwn key then return false
  let binding := c.binding
  match binding with
  | some b => let _ ← observeAt b.observer (← heap).walkFuel v (joinPath b.path key) []
  | none => pure ()
  let c ← objectAt r
  modifyHeap fun h => h.setObject r (c.put key (.observed v) enumerable)
  match binding with
  | some b => notify react fuel b.observer ⟨.set, joinPath b.path key, v⟩
  | none => pure ()
  return true

/-- Delete a key; whether it was there. -/
def removeProperty (react : Handler ρ σ) (fuel r : Nat) (key : String) : StoreM ρ σ Bool := do
  let c ← objectAt r
  if !c.hasOwn key then return false
  modifyHeap fun h => h.setObject r (c.erase key)
  match c.binding with
  | some b => notify react fuel b.observer ⟨.set, joinPath b.path key, .undefined⟩
  | none => pure ()
  return true

end ReactiveView.Store
