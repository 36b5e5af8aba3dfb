import ReactiveView.Store.Monad
/-!
# Binding containers to an observer

Observing a value walks it and binds every container it reaches to the observer, each under the
path that led to it, so that writes report themselves. An object that is bound afresh (it had
no binding, or one to another observer) turns its enumerable plain properties into observed
ones; an object already bound to the same observer keeps its plain properties plain. A container
whose binding covers the new path (same observer, and the same path, the root, or a path above)
is left as it is and not entered. Each container is visited at most once per walk.
-/
namespace ReactiveView.Store

variable {ρ σ : Type}

/-- Bind an object to an observer at a path: `none` when its binding already covers the path,
otherwise whether the binding is fresh. -/
def bindObject (r o : Nat) (path : String) : StoreM ρ σ (Option Bool) := do
  match (← heap).object? r with
  | none => return none
  | some c =>
    let fresh? : Option Bool :=
      match c.binding with
      | some b => if b.covers o path then none else some (b.observer != o)
      | none => some true
    match fresh? with
    | none => return none
    | some fresh =>
      modifyHeap fun h => h.setObject r { c with binding := some ⟨o, path⟩ }
      return some fresh

/-- Bind an array to an observer at a path: whether it was not already covered. -/
def bindArray (r o : Nat) (path : String) : StoreM ρ σ Bool := do
  match (← heap).array? r with
  | none => return false
  | some c =>
    match c.binding with
    | some b => if b.covers o path then return false else pure ()
    | none => pure ()
    modifyHeap fun h => h.setArray r { c with binding := some ⟨o, path⟩ }
    return true

/-- Turn an object's properties into observed ones and give those with their values: observed
properties always, enumerable plain ones when `fresh`; proxies and other plain ones are
skipped. -/
def interceptProperties (r : Nat) (fresh : Bool) : StoreM ρ σ (List (String × Value)) := do
  match (← heap).object? r with
  | none => return []
  | some c =>
    let step (p : Property) : Property × Option (String × Value) :=
      match p.slot with
      | .plain v => if fresh && p.enumerable then ({ p with slot := .observed v }, some (p.key, v))
          else (p, none)
      | .observed v => (p, some (p.key, v))
      | .proxy _ => (p, none)
    let stepped := c.properties.map step
    modifyHeap fun h => h.setObject r { c with properties := stepped.map (·.1) }
    return stepped.filterMap (·.2)

/-- Bind a value and what it contains to an observer under `path`, skipping the containers in
`seen`; gives the containers visited so far. `fuel` bounds the depth of the walk. -/
def observeAt (o : Nat) : Nat → Value → String → List Nat → StoreM ρ σ (List Nat)
  | 0, _, _, seen => return seen
  | fuel + 1, v, path, seen =>
    match v with
    | .object r => do
      if seen.contains r then return seen
      let seen := r :: seen
      match ← bindObject r o path with
      | none => return seen
      | some fresh =>
        let children ← interceptProperties r fresh
        children.foldlM (fun seen (k, child) => observeAt o fuel child (joinPath path k) seen) seen
    | .array r => do
      if seen.contains r then return seen
      let seen := r :: seen
      if !(← bindArray r o path) then return seen
      let items := (← heap).items r
      (items.zipIdx).foldlM
        (fun seen (item, i) => observeAt o fuel item (joinPath path (toString i)) seen) seen
    | _ => return seen

/-- Bind the items of an array under its path, marking the array itself as visited. -/
def observeElements (o r : Nat) (path : String) (seen : List Nat) : StoreM ρ σ (List Nat) := do
  let seen := if seen.contains r then seen else r :: seen
  let h ← heap
  (h.items r).zipIdx.foldlM
    (fun seen (item, i) => observeAt o h.walkFuel item (joinPath path (toString i)) seen) seen

/-- Bind a value and everything it contains to an observer, at the root path. -/
def observe (v : Value) (o : Nat) : StoreM ρ σ Unit := do
  let _ ← observeAt o (← heap).walkFuel v "" []

end ReactiveView.Store
