import ReactiveView.Render.Compile
import ReactiveView.Render.Mount
import ReactiveView.Store.Object
/-!
# Views

A view ties a document, the element a selector picks in it, and an observed data object. The
template is the element as it stood when the view was made. Rendering compiles the template
against the data and mounts the result at the selector; updating renders again exactly when the
view's observer has recorded changes since the last update, and forgets them.

The view also has a scope: an object that forwards each key of the data to the data, so that
reading and writing through the view reaches the data. Keys the data gains later are forwarded
the first time they are used through the view.
-/
namespace ReactiveView.Render

open Markup Store

/-- A view of data in a document. -/
structure View where
  document : Document
  selector : String
  el : NodePath
  template : Node
  data : Nat
  scope : Nat
  observer : Nat
  options : Options

/-- Operations on views: they can fail, and they run on observed data. -/
abbrev ViewM (ρ σ : Type) := ExceptT Failure (StoreM ρ σ)

variable {ρ σ : Type}

/-- Lift a result that may fail. -/
def liftFailure {α : Type} : Except Failure α → ViewM ρ σ α
  | .ok a => pure a
  | .error f => throw f

namespace View

/-- Compile the template against the data and mount it. -/
def render (v : View) : ViewM ρ σ View := do
  let h ← (heap : StoreM ρ σ (Heap ρ))
  let fragment := compileNode h v.data v.options.missing v.template
  let (d, el) ← liftFailure (mount v.document v.selector fragment v.options.strategy)
  return { v with document := d, el := el }

/-- Bind the data of a new view to a new observer and forward each of its keys through a new
scope: the data object, the scope and the observer. The data must be an object or `undefined`,
which stands for a new empty object. -/
def bindData (data : Value) : ViewM ρ σ (Nat × Nat × Nat) := do
  let data ← match data with
    | .object r => pure r
    | .undefined => (newObject : StoreM ρ σ Nat)
    | other => throw (.invalidData other.typeName)
  let o ← (newObserver : StoreM ρ σ Nat)
  (observe (.object data) o : StoreM ρ σ Unit)
  let scope ← (newObject : StoreM ρ σ Nat)
  let keys := ((← (heap : StoreM ρ σ (Heap ρ))).object? data).map (·.keys) |>.getD []
  for k in keys do
    let _ ← (proxy scope data k : StoreM ρ σ Bool)
  return (data, scope, o)

/-- The view of `data` at the element a selector picks, before its first render: the element
becomes the template, and the data is bound to a new observer and a new scope. -/
def prepare (document : Document) (selector : String) (data : Value) (options : Options) :
    ViewM ρ σ View := do
  let el ← liftFailure (resolveTarget document selector)
  let template ← match document.get? el with
    | some n => pure n
    | none => throw (.invalidMountTarget selector)
  let bound ← bindData data
  return ⟨document, selector, el, template, bound.1, bound.2.1, bound.2.2, options⟩

/-- Make a view of `data` at the element a selector picks and render it once. -/
def make (document : Document) (selector : String) (data : Value) (options : Options) :
    ViewM ρ σ View := do
  let v ← prepare document selector data options
  v.render

/-- Render again when the observer has recorded changes; whether it did. -/
def update (v : View) : ViewM ρ σ (Bool × View) := do
  let cs ← (takeChanges v.observer : StoreM ρ σ (List Change))
  if cs.isEmpty then return (false, v)
  let v ← v.render
  return (true, v)

/-- Forward a key of the data through the scope, if the data has it and the scope does not. -/
def expose (v : View) (key : String) : StoreM ρ σ Unit := do
  let h ← heap
  let inScope := (h.object? v.scope).map (·.hasOwn key) |>.getD false
  let inData := (h.object? v.data).map (·.hasOwn key) |>.getD false
  if !inScope && inData then
    let _ ← proxy v.scope v.data key

/-- Read a key through the view. -/
def get (v : View) (key : String) : StoreM ρ σ Value := do
  v.expose key
  return (← heap).get v.scope key

/-- Write a key through the view. -/
def set (react : Handler ρ σ) (fuel : Nat) (v : View) (key : String) (value : Value) :
    StoreM ρ σ Unit := do
  v.expose key
  setProperty react fuel v.scope key value

/-- Add a key to the data and forward it through the scope; whether it was added. -/
def add (react : Handler ρ σ) (fuel : Nat) (v : View) (key : String) (value : Value) :
    StoreM ρ σ Bool := do
  let added ← addProperty react fuel v.data key value true
  if added then
    let _ ← proxy v.scope v.data key
  return added

end View

end ReactiveView.Render
