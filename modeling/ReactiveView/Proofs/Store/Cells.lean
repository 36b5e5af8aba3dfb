import ReactiveView.Store.Monad
/-!
# Cells of the heap

How the accessors of a heap (`object?`, `array?`, `binding?`, `items`) read back after each
of the three ways the store writes it: replacing an object, replacing an array, or changing an
observer. A write to one handle leaves every other handle as it was, and writing an observer
leaves every cell as it was.

For objects, `setSlot`, `put` and `erase` keep the binding, and the properties they leave are
described key by key. A binding that covers a path also covers every path below it
(`Binding.covers_joinPath`): this is why a walk that starts below a bound container never
rebinds it.
-/
namespace ReactiveView.Store

set_option autoImplicit false

namespace Heap

variable {ρ : Type} (h : Heap ρ)

/-! ## Reading a cell -/

theorem object?_eq_some {r : Nat} {c : ObjectCell} :
    h.object? r = some c ↔ h.cells[r]? = some (.object c) := by
  unfold object?
  split <;> simp_all

theorem array?_eq_some {r : Nat} {c : ArrayCell} :
    h.array? r = some c ↔ h.cells[r]? = some (.array c) := by
  unfold array?
  split <;> simp_all

theorem lt_of_object? {r : Nat} {c : ObjectCell} (hc : h.object? r = some c) : r < h.cells.size :=
  (Array.getElem?_eq_some_iff.1 ((object?_eq_some h).1 hc)).1

theorem lt_of_array? {r : Nat} {c : ArrayCell} (hc : h.array? r = some c) : r < h.cells.size :=
  (Array.getElem?_eq_some_iff.1 ((array?_eq_some h).1 hc)).1

theorem binding?_of_object? {r : Nat} {c : ObjectCell} (hc : h.object? r = some c) :
    h.binding? r = c.binding := by
  simp [binding?, (object?_eq_some h).1 hc]

theorem binding?_of_array? {r : Nat} {c : ArrayCell} (hc : h.array? r = some c) :
    h.binding? r = c.binding := by
  simp [binding?, (array?_eq_some h).1 hc]

theorem items_of_array? {r : Nat} {c : ArrayCell} (hc : h.array? r = some c) : h.items r = c.items := by
  simp [items, hc]

/-- Two heaps with the same cell at a handle read the same there. -/
theorem accessors_congr {h' : Heap ρ} {r : Nat} (same : h'.cells[r]? = h.cells[r]?) :
    h'.object? r = h.object? r ∧ h'.array? r = h.array? r ∧ h'.binding? r = h.binding? r ∧
      h'.items r = h.items r := by
  simp [object?, array?, binding?, items, same]

/-! ## Writing a cell -/

@[simp] theorem size_setObject (r : Nat) (c : ObjectCell) :
    (h.setObject r c).cells.size = h.cells.size := by
  simp [setObject]

@[simp] theorem size_setArray (r : Nat) (c : ArrayCell) :
    (h.setArray r c).cells.size = h.cells.size := by
  simp [setArray]

@[simp] theorem cells_modifyObserver (o : Nat) (f : Observer ρ → Observer ρ) :
    (h.modifyObserver o f).cells = h.cells := rfl

@[simp] theorem observers_setObject (r : Nat) (c : ObjectCell) :
    (h.setObject r c).observers = h.observers := rfl

@[simp] theorem observers_setArray (r : Nat) (c : ArrayCell) :
    (h.setArray r c).observers = h.observers := rfl

theorem setObject_cell_ne {r r' : Nat} (c : ObjectCell) (hne : r' ≠ r) :
    (h.setObject r c).cells[r']? = h.cells[r']? := by
  simp [setObject, Ne.symm hne]

theorem setArray_cell_ne {r r' : Nat} (c : ArrayCell) (hne : r' ≠ r) :
    (h.setArray r c).cells[r']? = h.cells[r']? := by
  simp [setArray, Ne.symm hne]

theorem setObject_cell_self {r : Nat} (c : ObjectCell) (hr : r < h.cells.size) :
    (h.setObject r c).cells[r]? = some (.object c) := by
  simp [setObject, hr]

theorem setArray_cell_self {r : Nat} (c : ArrayCell) (hr : r < h.cells.size) :
    (h.setArray r c).cells[r]? = some (.array c) := by
  simp [setArray, hr]

@[simp] theorem setObject_setObject (r : Nat) (c c' : ObjectCell) :
    (h.setObject r c).setObject r c' = h.setObject r c' := by
  simp [setObject, Array.setIfInBounds_setIfInBounds]

theorem object?_setObject_self {r : Nat} {c₀ : ObjectCell} (c : ObjectCell)
    (hc : h.object? r = some c₀) : (h.setObject r c).object? r = some c := by
  rw [object?_eq_some, setObject_cell_self h c (h.lt_of_object? hc)]

theorem array?_setArray_self {r : Nat} {c₀ : ArrayCell} (c : ArrayCell)
    (hc : h.array? r = some c₀) : (h.setArray r c).array? r = some c := by
  rw [array?_eq_some, setArray_cell_self h c (h.lt_of_array? hc)]

/-! ## Changing an observer -/

@[simp] theorem observer?_modifyObserver (o o' : Nat) (f : Observer ρ → Observer ρ) :
    (h.modifyObserver o f).observer? o' = if o = o' then (h.observer? o').map f else h.observer? o' := by
  simp [modifyObserver, observer?, Array.getElem?_modify]

@[simp] theorem size_modifyObserver (o : Nat) (f : Observer ρ → Observer ρ) :
    (h.modifyObserver o f).observers.size = h.observers.size := by
  simp [modifyObserver]

end Heap

/-! ## Properties of an object -/

namespace ObjectCell

@[simp] theorem binding_setSlot (c : ObjectCell) (key : String) (slot : Slot) :
    (c.setSlot key slot).binding = c.binding := rfl

@[simp] theorem binding_erase (c : ObjectCell) (key : String) : (c.erase key).binding = c.binding := rfl

@[simp] theorem binding_put (c : ObjectCell) (key : String) (slot : Slot) (enumerable : Bool) :
    (c.put key slot enumerable).binding = c.binding := by
  unfold put
  split <;> rfl

/-- After `setSlot`, a property is either one that was there under another key, or the key's
own property with its new slot. -/
theorem mem_setSlot {c : ObjectCell} {key : String} {slot : Slot} {p : Property}
    (hp : p ∈ (c.setSlot key slot).properties) :
    (p ∈ c.properties ∧ p.key ≠ key) ∨ (p.key = key ∧ p.slot = slot) := by
  simp only [setSlot, List.mem_map] at hp
  obtain ⟨q, hq, rfl⟩ := hp
  by_cases same : q.key = key
  · exact .inr (by simp [same])
  · exact .inl (by simp [same, hq])

/-- After `put`, a property is either one that was there under another key, or the key's own
property with the given slot and flag. -/
theorem mem_put {c : ObjectCell} {key : String} {slot : Slot} {enumerable : Bool} {p : Property}
    (hp : p ∈ (c.put key slot enumerable).properties) :
    (p ∈ c.properties ∧ p.key ≠ key) ∨ p = ⟨key, slot, enumerable⟩ := by
  unfold put at hp
  split at hp
  · simp only [List.mem_map] at hp
    obtain ⟨q, hq, rfl⟩ := hp
    by_cases same : q.key = key
    · exact .inr (by simp [same])
    · exact .inl (by simp [same, hq])
  · rename_i absent
    rcases List.mem_append.1 hp with old | last
    · refine .inl ⟨old, fun same => absent ?_⟩
      exact List.any_eq_true.2 ⟨p, old, by simp [same]⟩
    · exact .inr (List.mem_singleton.1 last)

theorem mem_erase {c : ObjectCell} {key : String} {p : Property} (hp : p ∈ (c.erase key).properties) :
    p ∈ c.properties := by
  simp only [erase, List.mem_filter] at hp
  exact hp.1

end ObjectCell

/-! ## Paths below a binding -/

theorem joinPath_of_ne_empty {pathPrefix : String} (key : String) (hp : pathPrefix ≠ "") :
    joinPath pathPrefix key = pathPrefix ++ "." ++ key := by
  simp [joinPath, String.isEmpty_iff, hp]

/-- A binding that covers a path covers the path of every key below it. -/
theorem Binding.covers_joinPath {b : Binding} {o : Nat} {path : String} (key : String)
    (hb : b.covers o path = true) : b.covers o (joinPath path key) = true := by
  simp only [Binding.covers, Bool.and_eq_true, Bool.or_eq_true, beq_iff_eq] at hb ⊢
  obtain ⟨same, rest⟩ := hb
  refine ⟨same, ?_⟩
  rcases rest with (equal | empty) | below
  · by_cases root : b.path = ""
    · exact .inl (.inr (String.isEmpty_iff.2 root))
    · rw [← equal, joinPath_of_ne_empty key root]
      refine .inr ?_
      simp only [String.isPrefixOf, String.startsWith_string_iff, String.toList_append]
      exact List.prefix_append _ _
  · exact .inl (.inr empty)
  · have nonempty : path ≠ "" := by
      rintro rfl
      simp [String.isPrefixOf, String.startsWith_string_iff] at below
    rw [joinPath_of_ne_empty key nonempty]
    refine .inr ?_
    simp only [String.isPrefixOf, String.startsWith_string_iff, String.toList_append] at below ⊢
    exact below.trans (List.prefix_append _ _ |>.trans (List.prefix_append _ _))

end ReactiveView.Store
