import ReactiveView.Store.Observe
import ReactiveView.Store.Show
/-!
# Array mutators

The seven mutators `push`, `pop`, `shift`, `unshift`, `splice`, `sort` and `reverse` change an
array's items the way their namesakes do on script arrays. After the items change, a bound
array binds its items afresh under their index paths and reports its new length.

`splice` reads its start as a position (a negative one counts from the end, a missing or
non-number one is zero) and its count as a number of items (missing means all the rest, a
non-number none). `sort` orders the items by their text, `undefined` last, keeping equal items
in their order; it cannot sort an array in which two or more items are defined and one of them
shows the array itself when turned into text, and stops with a panic there.
-/
namespace ReactiveView.Store

/-- The array mutators. -/
inductive ArrayMethod where
  | push
  | pop
  | shift
  | unshift
  | splice
  | sort
  | reverse
  deriving DecidableEq, Repr, Inhabited

namespace ArrayMethod

/-- All mutators, in their usual order. -/
def all : List ArrayMethod := [.push, .pop, .shift, .unshift, .splice, .sort, .reverse]

/-- The name of a mutator. -/
def name : ArrayMethod → String
  | .push => "push"
  | .pop => "pop"
  | .shift => "shift"
  | .unshift => "unshift"
  | .splice => "splice"
  | .sort => "sort"
  | .reverse => "reverse"

/-- The mutator with exactly this name. -/
def ofName? (s : String) : Option ArrayMethod := all.find? (·.name == s)

end ArrayMethod

variable {ρ σ : Type}

/-- The array behind a handle, or an empty one. -/
def arrayAt (r : Nat) : StoreM ρ σ ArrayCell := do
  return ((← heap).array? r).getD ⟨[], none⟩

/-- Change an array's items with `op`; a bound array then binds its items and reports its
length. -/
def mutate {α : Type} (react : Handler ρ σ) (fuel r : Nat) (op : List Value → List Value × α) :
    StoreM ρ σ α := do
  let c ← arrayAt r
  let (items, result) := op c.items
  modifyHeap fun h => h.setArray r { c with items := items }
  match c.binding with
  | none => return result
  | some b =>
    let _ ← observeElements b.observer r b.path []
    let len := ((← heap).items r).length
    notify react fuel b.observer ⟨.array, b.path, .number (Double.ofNat len)⟩
    return result

/-- A position given as a value: not a number is `0`, a negative one counts back from the end,
and positions are capped at the length. -/
def relativeIndex (v : Value) (len : Nat) : Nat :=
  match v.number? with
  | none => 0
  | some x =>
    if x.lt (Double.zero false) then len - x.neg.toCount Double.wordMax
    else min (x.toCount Double.wordMax) len

/-- The items of `items` from `start` on, `count` of them, replaced by `values`: the new items
and the removed ones. -/
def spliceItems (items : List Value) (start count : Nat) (values : List Value) :
    List Value × List Value :=
  let start := min start items.length
  let stop := min (start + count) items.length
  (items.take start ++ values ++ items.drop stop, (items.drop start).take (stop - start))

namespace Heap

/-- Whether turning a value into text reads the items of the array `target`. -/
def displayReaches (h : Heap ρ) (target : Nat) : Nat → List Nat → Value → Bool
  | 0, _, _ => false
  | fuel + 1, joining, v =>
    match v with
    | .array r =>
      if r == target then true
      else if joining.contains r then false
      else (h.items r).any fun item =>
        match item with
        | .undefined | .null => false
        | _ => h.displayReaches target fuel (r :: joining) item
    | _ => false

end Heap

/-- The order of sorting keys: text in character order, `undefined` (no key) last. -/
def keyLe : Option String → Option String → Bool
  | none, none => true
  | none, some _ => false
  | some _, none => true
  | some a, some b => decide (a ≤ b)

/-- Sort an array's items by their text, `undefined` last, equal items in their order. -/
def sortItems (r : Nat) : StoreM ρ σ (List Value) := do
  let h ← heap
  let items := h.items r
  let defined := items.filter (· != .undefined)
  if 2 ≤ defined.length && defined.any (h.displayReaches r h.walkFuel []) then
    throw (.panic "RefCell already mutably borrowed")
  let keyed := items.map fun v => (v, if v == .undefined then none else some (h.display v))
  return (keyed.mergeSort fun a b => keyLe a.2 b.2).map (·.1)

/-- Run a mutator with its arguments and give what it returns. -/
def callArray (react : Handler ρ σ) (fuel r : Nat) (m : ArrayMethod) (args : List Value) :
    StoreM ρ σ Value :=
  match m with
  | .push => do
    let n ← mutate react fuel r fun items => (items ++ args, (items ++ args).length)
    return .number (Double.ofNat n)
  | .pop => mutate react fuel r fun items =>
      match items.getLast? with
      | some v => (items.dropLast, v)
      | none => (items, .undefined)
  | .shift => mutate react fuel r fun items =>
      match items with
      | v :: rest => (rest, v)
      | [] => ([], .undefined)
  | .unshift => do
    let n ← mutate react fuel r fun items => (args ++ items, (args ++ items).length)
    return .number (Double.ofNat n)
  | .splice => do
    let len := ((← heap).items r).length
    let start := match args[0]? with
      | some a => relativeIndex a len
      | none => 0
    let count := match args[1]? with
      | some c => match c.number? with
        | some x => x.toCount Double.wordMax
        | none => 0
      | none => len - start
    let removed ← mutate react fuel r fun items => spliceItems items start count (args.drop 2)
    return .array (← newArray removed)
  | .sort => do
    let sorted ← sortItems r
    mutate react fuel r fun _ => (sorted, .array r)
  | .reverse => mutate react fuel r fun items => (items.reverse, .array r)

end ReactiveView.Store
