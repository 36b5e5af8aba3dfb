import ReactiveView.Proofs.Store.Closure
/-!
# Sound heaps

A heap is sound for an observer `o` when every binding in it is one to `o` and every container
bound to `o` is closed. Every operation on observed data keeps a sound heap sound, under
conditions on what it is given (`Mutation.Allowed`): the values it stores, and the values it
hands to a walk, are clean; a write lands on an observed slot or on an object bound to nothing;
plain definitions and forwards go to containers bound to nothing. Reports keep the heap sound
when every reaction of a subscriber does, which covers writes made from within reactions.

Each operation is taken from the case lemmas of `Mutation`: a write to an object is one
`setObject` of a closed object (`Heap.Sound.setObject_getD`); an array mutator writes the items
and walks them with the array pending (`mutate_sound`); a walk from the root is
`observeAt_closes` with nothing pending.
-/
namespace ReactiveView.Store

set_option autoImplicit false

variable {ρ σ : Type}

/-! ## Sound heaps -/

/-- The heap is sound for `o`: every binding is one to `o`, and every container bound to `o` is
closed. -/
structure Heap.Sound (h : Heap ρ) (o : Nat) : Prop where
  only : h.OnlyTo o
  closed : h.Closed o

/-- Runs after which `P` holds whenever it held before. -/
def Preserving (P : World ρ σ → Prop) (w w' : World ρ σ) : Prop := P w → P w'

instance (P : World ρ σ → Prop) : IsPreorder (World ρ σ) (Preserving P) where
  refl _ := id
  trans _ _ _ first second := second ∘ first

theorem Cell.Closed.of_bindings {h h' : Heap ρ} {o : Nat} {cell : Cell} (closed : cell.Closed h o)
    (bindings : ∀ r, h'.binding? r = h.binding? r) : cell.Closed h' o :=
  ⟨closed.observed, fun x mem r hr => by
    rw [bindings r]
    exact closed.bound x mem r hr⟩

namespace Heap.Sound

variable {h h' : Heap ρ} {o r : Nat}

theorem walking (sound : h.Sound o) : h.Walking o [] [] :=
  ⟨sound.only, sound.closed, List.nil_subset _, (fun _ mem => by cases mem), List.nodup_nil⟩

theorem of_walking {seen : List Nat} (walking : h.Walking o [] seen) : h.Sound o :=
  ⟨walking.only, walking.closed⟩

/-- Soundness reads only the cells. -/
theorem congr (sound : h.Sound o) (same : h'.cells = h.cells) : h'.Sound o := by
  have bindings : ∀ r, h'.binding? r = h.binding? r := fun r => by
    rw [binding?_eq, binding?_eq, same]
  refine ⟨fun r b hb => sound.only r b (bindings r ▸ hb), fun r cell path hc hb _ => ?_⟩
  rw [same] at hc
  exact (sound.closed r cell path hc hb List.not_mem_nil).of_bindings bindings

/-- In a sound heap, a value bound to `o` reaches only values bound to `o`. -/
theorem boundTo_of_reaches (sound : h.Sound o) {x u : Value} (bound : h.BoundTo o x)
    (reach : h.Reaches x u) : h.BoundTo o u := by
  induction reach with
  | refl x => exact bound
  | step hr hc mem _ ih =>
    obtain ⟨path, hb⟩ := bound _ hr
    rw [binding?_eq, hc, Option.bind_some] at hb
    exact ih ((sound.closed _ _ path hc hb List.not_mem_nil).bound _ mem)

theorem clean_of_boundTo (sound : h.Sound o) {x : Value} (bound : h.BoundTo o x) : h.Clean o x :=
  fun _ reach => .inl (sound.boundTo_of_reaches bound reach)

end Heap.Sound

/-- An object whose properties are those of a closed object, or observed ones holding a value
bound to `o`, is closed. -/
theorem Cell.Closed.of_properties {h : Heap ρ} {o : Nat} {c c' : ObjectCell}
    (closed : (Cell.object c).Closed h o) {v : Value} (bound : h.BoundTo o v)
    (props : ∀ p ∈ c'.properties, p ∈ c.properties ∨ p.slot = .observed v) :
    (Cell.object c').Closed h o := by
  refine ⟨fun p mem => ?_, fun y mem => ?_⟩
  · rcases props p mem with old | new
    · exact closed.observed p old
    · exact ⟨v, new⟩
  · obtain ⟨p, held, hy⟩ := List.mem_filterMap.1 mem
    rcases props p held with old | new
    · exact closed.bound y (List.mem_filterMap.2 ⟨p, old, hy⟩)
    · rw [new] at hy
      cases hy
      exact bound

/-- Replacing one cell keeps the heap sound when every binding stays as it was and the new cell,
if bound, is closed. -/
theorem Heap.Sound.rewrite {h h' : Heap ρ} {o r : Nat} (sound : h.Sound o)
    (bindings : ∀ r', h'.binding? r' = h.binding? r')
    (others : ∀ r', r' ≠ r → h'.cells[r']? = h.cells[r']?)
    (self : ∀ cell b, h'.cells[r]? = some cell → cell.binding = some b → cell.Closed h o) :
    h'.Sound o := by
  refine ⟨fun r' b hb => sound.only r' b (bindings r' ▸ hb), fun r' cell path hc hb _ => ?_⟩
  by_cases same : r' = r
  · subst same
    exact (self cell _ hc hb).of_bindings bindings
  · rw [others r' same] at hc
    exact (sound.closed r' cell path hc hb List.not_mem_nil).of_bindings bindings

theorem Heap.setObject_cell {h : Heap ρ} {r : Nat} {c : ObjectCell} {cell : Cell}
    (hc : (h.setObject r c).cells[r]? = some cell) : cell = .object c := by
  simp only [Heap.setObject, Array.set!_eq_setIfInBounds, Array.getElem?_setIfInBounds_self] at hc
  split at hc <;> simp_all

theorem Heap.setArray_cell {h : Heap ρ} {r : Nat} {c : ArrayCell} {cell : Cell}
    (hc : (h.setArray r c).cells[r]? = some cell) : cell = .array c := by
  simp only [Heap.setArray, Array.set!_eq_setIfInBounds, Array.getElem?_setIfInBounds_self] at hc
  split at hc <;> simp_all

theorem Heap.binding?_setObject (h : Heap ρ) {r : Nat} {c : ObjectCell}
    (hb : c.binding = h.binding? r) (r' : Nat) : (h.setObject r c).binding? r' = h.binding? r' := by
  by_cases same : r' = r
  · subst same
    by_cases hr : r' < h.cells.size
    · rw [binding?_eq, h.setObject_cell_self c hr, Option.bind_some]
      exact hb
    · have kept : (h.setObject r' c).cells = h.cells := by
        simp [Heap.setObject, Array.set!_eq_setIfInBounds,
          Array.setIfInBounds_eq_of_size_le (Nat.le_of_not_lt hr)]
      rw [binding?_eq, binding?_eq, kept]
  · exact (Heap.accessors_congr h (h.setObject_cell_ne c same)).2.2.1

theorem Heap.binding?_setArray (h : Heap ρ) {r : Nat} {c : ArrayCell}
    (hb : c.binding = h.binding? r) (r' : Nat) : (h.setArray r c).binding? r' = h.binding? r' := by
  by_cases same : r' = r
  · subst same
    by_cases hr : r' < h.cells.size
    · rw [binding?_eq, h.setArray_cell_self c hr, Option.bind_some]
      exact hb
    · have kept : (h.setArray r' c).cells = h.cells := by
        simp [Heap.setArray, Array.set!_eq_setIfInBounds,
          Array.setIfInBounds_eq_of_size_le (Nat.le_of_not_lt hr)]
      rw [binding?_eq, binding?_eq, kept]
  · exact (Heap.accessors_congr h (h.setArray_cell_ne c same)).2.2.1

/-- The binding of the object `objectAt` reads is the binding of the handle. -/
theorem Heap.binding?_of_getD {h : Heap ρ} {r : Nat} {b : Binding}
    (hb : ((h.object? r).getD ⟨[], none⟩).binding = some b) : h.binding? r = some b := by
  cases hc : h.object? r with
  | none => simp [hc] at hb
  | some c =>
    rw [hc, Option.getD_some] at hb
    rw [h.binding?_of_object? hc, hb]

/-- The object `objectAt` reads at a handle bound to nothing is bound to nothing. -/
theorem Heap.binding_getD_of_unbound {h : Heap ρ} {r : Nat} (unbound : h.binding? r = none) :
    ((h.object? r).getD ⟨[], none⟩).binding = none := by
  cases hc : h.object? r with
  | none => rfl
  | some c => rw [Option.getD_some, ← h.binding?_of_object? hc, unbound]

namespace Heap.Sound

variable {h : Heap ρ} {o r : Nat}

/-- Writing an object keeps the heap sound when its binding stays, and it is closed if bound. -/
theorem setObject (sound : h.Sound o) {c : ObjectCell} (hb : c.binding = h.binding? r)
    (closed : ∀ b, c.binding = some b → (Cell.object c).Closed h o) : (h.setObject r c).Sound o :=
  sound.rewrite (h.binding?_setObject hb) (fun _ other => h.setObject_cell_ne c other)
    fun cell b hc hcb => by
      cases Heap.setObject_cell hc
      exact closed b hcb

/-- Writing an array keeps the heap sound when its binding stays, and it is closed if bound. -/
theorem setArray (sound : h.Sound o) {c : ArrayCell} (hb : c.binding = h.binding? r)
    (closed : ∀ b, c.binding = some b → (Cell.array c).Closed h o) : (h.setArray r c).Sound o :=
  sound.rewrite (h.binding?_setArray hb) (fun _ other => h.setArray_cell_ne c other)
    fun cell b hc hcb => by
      cases Heap.setArray_cell hc
      exact closed b hcb

/-- Anything may be written to an object at a handle bound to nothing. -/
theorem setObject_unbound (sound : h.Sound o) (unbound : h.binding? r = none)
    {c : ObjectCell} (hc : c.binding = none) : (h.setObject r c).Sound o :=
  sound.setObject (hc.trans unbound.symm) fun b hb => by simp [hc] at hb

/-- The closed object a bound handle names in a sound heap. -/
theorem closed_of_getD (sound : h.Sound o) {b : Binding}
    (hb : ((h.object? r).getD ⟨[], none⟩).binding = some b) :
    (Cell.object ((h.object? r).getD ⟨[], none⟩)).Closed h o := by
  have bound := Heap.binding?_of_getD hb
  cases hc : h.object? r with
  | none => simp [hc] at hb
  | some c =>
    simp only [hc, Option.getD_some] at hb ⊢
    obtain ⟨o', path⟩ := b
    cases sound.only r _ bound
    exact sound.closed r (.object c) path ((Heap.object?_eq_some h).1 hc) hb List.not_mem_nil

end Heap.Sound

/-- The binding of the container a write reads at a handle that names one of its kind, or a
handle bound to nothing, is the handle's. -/
theorem Heap.binding_getD_object {h : Heap ρ} {r : Nat}
    (kind : (h.object? r).isSome ∨ h.binding? r = none) :
    ((h.object? r).getD ⟨[], none⟩).binding = h.binding? r := by
  cases hc : h.object? r with
  | none =>
    rw [hc] at kind
    simp only [Option.isSome_none, Bool.false_eq_true, false_or] at kind
    rw [kind]
    rfl
  | some c => rw [Option.getD_some, h.binding?_of_object? hc]

theorem Heap.binding_getD_array {h : Heap ρ} {r : Nat}
    (kind : (h.array? r).isSome ∨ h.binding? r = none) :
    ((h.array? r).getD ⟨[], none⟩).binding = h.binding? r := by
  cases hc : h.array? r with
  | none =>
    rw [hc] at kind
    simp only [Option.isSome_none, Bool.false_eq_true, false_or] at kind
    rw [kind]
    rfl
  | some c => rw [Option.getD_some, h.binding?_of_array? hc]

/-- Writing the object a handle names keeps a sound heap sound when the binding stays and every
new property is an old one or observed, holding a value bound to `o` if the object is bound. -/
theorem Heap.Sound.setObject_getD {h : Heap ρ} {o r : Nat} (sound : h.Sound o)
    (kind : (h.object? r).isSome ∨ h.binding? r = none) {c : ObjectCell} {v : Value}
    (hb : c.binding = ((h.object? r).getD ⟨[], none⟩).binding)
    (bound : ∀ b, c.binding = some b → h.BoundTo o v)
    (props : ∀ p ∈ c.properties, p ∈ ((h.object? r).getD ⟨[], none⟩).properties ∨
      p.slot = .observed v) :
    (h.setObject r c).Sound o :=
  sound.setObject (hb.trans (Heap.binding_getD_object kind)) fun b held =>
    (sound.closed_of_getD (hb ▸ held)).of_properties (bound b held) props

/-- Writing an observed slot keeps the heap sound when the value is bound to `o` or the object
is not bound. -/
theorem World.writeObserved_sound {w : World ρ σ} {o r : Nat} {key : String} {v : Value}
    (sound : w.heap.Sound o)
    (bound : ∀ b, ((w.heap.object? r).getD ⟨[], none⟩).binding = some b → w.heap.BoundTo o v) :
    (w.writeObserved r key v).heap.Sound o := by
  dsimp only [World.writeObserved]
  split
  next own =>
    cases hc : w.heap.object? r with
    | none => simp [hc, ObjectCell.hasOwn] at own
    | some c =>
      simp only [hc, Option.getD_some] at bound ⊢
      -- the slot is rewritten in place: the binding and the other properties stay
      refine sound.setObject_getD (v := v) (.inl (by rw [hc]; rfl)) ?_ ?_ fun p mem => ?_
      · rw [hc, Option.getD_some, ObjectCell.binding_setSlot]
      · rw [ObjectCell.binding_setSlot]
        exact bound
      · rw [hc, Option.getD_some]
        exact (ObjectCell.mem_setSlot mem).imp (·.1) (·.2)
  next => exact sound

/-- A walk to `o` from the root of a sound heap, on a clean value, leaves the heap sound and the
value bound. -/
theorem observeAt_sound {o : Nat} {v : Value} {path : String} {seen : List Nat} {w w' : World ρ σ}
    (run : (observeAt o w.heap.walkFuel v path [] : StoreM ρ σ (List Nat)).run w = .ok (seen, w'))
    (sound : w.heap.Sound o) (clean : w.heap.Clean o v) : w'.heap.Sound o ∧ w'.heap.BoundTo o v := by
  obtain ⟨walking, bound⟩ := observeAt_closes run sound.walking clean (by simp [Heap.walkFuel])
  exact ⟨.of_walking walking, bound⟩

/-- Where a write to `key` at `r` lands, following forwards at most `chain` times, it finds an
observed slot, or an object bound to nothing. -/
def Heap.Writable (h : Heap ρ) : Nat → Nat → String → Prop
  | 0, _, _ => True
  | chain + 1, r, key =>
    match ((h.object? r).getD ⟨[], none⟩).find? key with
    | some ⟨_, .proxy src, _⟩ => h.Writable chain src key
    | some ⟨_, .observed _, _⟩ => True
    | _ => h.binding? r = none

section Writes

variable {react : Handler ρ σ} {fuel o : Nat}
  (reactions : ∀ k s c, Keeps (Preserving fun w : World ρ σ => w.heap.Sound o) (react k s c))
include reactions

/-- A report keeps the heap sound: recording it touches no cell, and every reaction keeps the
heap sound. -/
theorem notify_sound {o' : Nat} {c : Change} {w w' : World ρ σ} (sound : w.heap.Sound o)
    (run : (notify react fuel o' c).run w = .ok ((), w')) : w'.heap.Sound o := by
  obtain ⟨n, rfl, rest⟩ := notify_run_ok run
  exact Keeps.forM _ (fun s _ => reactions n s.reaction c) rest (sound.congr (w.heap.cells_record o' c))

theorem setObserved_sound {r : Nat} {key : String} {v : Value} {w w' : World ρ σ}
    (sound : w.heap.Sound o) (clean : w.heap.Clean o v)
    (run : (setObserved react fuel r key v ((w.heap.object? r).getD ⟨[], none⟩).binding).run w =
      .ok ((), w')) : w'.heap.Sound o := by
  obtain ⟨w₁, walk, rest⟩ := setObserved_cases run
  -- a bound object has the value walked first, which binds it
  have written : (w₁.writeObserved r key v).heap.Sound o := by
    cases hb : ((w.heap.object? r).getD ⟨[], none⟩).binding with
    | none =>
      simp only [WalksBelow, hb] at walk
      subst walk
      exact World.writeObserved_sound sound fun b held => by simp [hb] at held
    | some b =>
      simp only [WalksBelow, hb] at walk
      obtain ⟨seen, walk⟩ := walk
      rw [sound.only r b (Heap.binding?_of_getD hb)] at walk
      obtain ⟨sound₁, bound⟩ := observeAt_sound walk sound clean
      exact World.writeObserved_sound sound₁ fun _ _ => bound
  rcases rest with ⟨-, rfl⟩ | ⟨-, b, -, report⟩
  · exact written
  · exact notify_sound reactions written report

theorem setWithin_sound {key : String} {v : Value} {w : World ρ σ} (sound : w.heap.Sound o)
    (clean : w.heap.Clean o v) : ∀ {chain r : Nat} {w' : World ρ σ},
      (setWithin react fuel chain r key v).run w = .ok ((), w') → w.heap.Writable chain r key →
      w'.heap.Sound o
  | 0, _, _, run, _ => by
    obtain ⟨n, impossible, -⟩ := setWithin_cases run
    cases impossible
  | chain + 1, r, w', run, writable => by
    obtain ⟨n, same, step⟩ := setWithin_cases run
    cases same
    dsimp only at step
    simp only [Heap.Writable] at writable
    split at step
    next src _ found =>
      simp only [found] at writable
      exact setWithin_sound sound clean step writable
    next old _ found =>
      exact setObserved_sound reactions sound clean step
    next old _ found =>
      simp only [found] at writable
      subst step
      exact sound.setObject_unbound writable
        (by rw [ObjectCell.binding_setSlot]; exact Heap.binding_getD_of_unbound writable)
    next found =>
      simp only [found] at writable
      subst step
      exact sound.setObject_unbound writable
        (by rw [ObjectCell.binding_put]; exact Heap.binding_getD_of_unbound writable)

end Writes

/-! ## Writing containers of a sound heap -/

/-- Values are clean when a property that holds of them passes to everything they hold and
holds only of values bound to `o` or that a walk can close. -/
theorem Heap.clean_of_closure {h : Heap ρ} {o : Nat} (G : Value → Prop)
    (base : ∀ x, G x → h.BoundTo o x ∨ h.Instrumentable x)
    (step : ∀ x r cell y, G x → x.ref? = some r → h.cells[r]? = some cell → y ∈ cell.values → G y)
    {x : Value} (hx : G x) : h.Clean o x := by
  intro u reach
  induction reach with
  | refl x => exact base x hx
  | step hr hc mem _ ih => exact ih (step _ _ _ _ hx hr hc mem)

/-- A new array bound to nothing keeps the heap sound. -/
theorem Heap.Sound.push {h : Heap ρ} {o : Nat} (sound : h.Sound o) (items : List Value) :
    ({ h with cells := h.cells.push (.array ⟨items, none⟩) } : Heap ρ).Sound o := by
  have others : ∀ r', r' ≠ h.cells.size →
      ({ h with cells := h.cells.push (.array ⟨items, none⟩) } : Heap ρ).cells[r']? = h.cells[r']? :=
    fun r' other => by simp [Array.getElem?_push, other]
  refine sound.rewrite (fun r' => ?_) others fun cell b hc held => ?_
  · by_cases fresh : r' = h.cells.size
    · subst fresh
      simp [Heap.binding?_eq, Cell.binding]
    · rw [Heap.binding?_eq, Heap.binding?_eq, others r' fresh]
  · simp only [Array.getElem?_push, if_true, Option.some.injEq] at hc
    subst hc
    cases held

/-- A heap that differs from a sound one only at a container bound to `o`, with every binding
as it was, is one a walk can start from with that container pending. -/
theorem Heap.Sound.pending {h h' : Heap ρ} {o r : Nat} (sound : h.Sound o)
    (bindings : ∀ r', h'.binding? r' = h.binding? r')
    (others : ∀ r', r' ≠ r → h'.cells[r']? = h.cells[r']?) {path : String}
    (hb : h.binding? r = some ⟨o, path⟩) : h'.Walking o [r] [r] where
  only r' b held := sound.only r' b (bindings r' ▸ held)
  closed r' cell path' hc held waiting := by
    rw [others r' fun same => waiting (same ▸ List.mem_singleton_self r)] at hc
    exact (sound.closed r' cell path' hc held List.not_mem_nil).of_bindings bindings
  pending_seen := List.Subset.refl _
  seen_bound r' mem := by
    rw [List.mem_singleton.1 mem]
    exact ⟨path, (bindings r).trans hb⟩
  nodup := List.nodup_cons.2 ⟨List.not_mem_nil, List.nodup_nil⟩

/-- In a sound heap, new items written to a bound array, each an old item or a clean value, are
clean: a walk from them meets the array only at its new items. -/
theorem Heap.Sound.clean_items {h : Heap ρ} {o r : Nat} {c : ArrayCell} {path : String}
    (sound : h.Sound o) (hc : h.array? r = some c) (hb : c.binding = some ⟨o, path⟩)
    {items : List Value} (new : ∀ x ∈ items, x ∈ c.items ∨ h.Clean o x) :
    ∀ x ∈ items, (h.setArray r { c with items := items }).Clean o x := by
  have hc₀ := (Heap.array?_eq_some h).1 hc
  have bindings := h.binding?_setArray (c := { c with items := items }) (h.binding?_of_array? hc).symm
  have others : ∀ r', r' ≠ r → (h.setArray r { c with items := items }).cells[r']? = h.cells[r']? :=
    fun _ other => h.setArray_cell_ne _ other
  have closed : (Cell.array c).Closed h o := sound.closed r _ path hc₀ hb List.not_mem_nil
  have fresh : ∀ x ∈ items, h.Clean o x := fun x mem =>
    (new x mem).elim (fun old => sound.clean_of_boundTo (closed.bound x old)) id
  refine fun x mem => Heap.clean_of_closure (h.Clean o) (fun x hx => ?_)
    (fun x r' cell y hx hr hc' held => ?_) (fresh x mem)
  · -- what could be closed in `h` still can: only the items of the array changed
    rcases hx x (.refl x) with bound | shape
    · exact .inl fun r' hr => by rw [bindings]; exact bound r' hr
    · refine .inr ?_
      cases x with
      | object r' =>
        obtain ⟨c', hc', props⟩ := shape
        have other : r' ≠ r := by
          rintro rfl
          rw [(Heap.object?_eq_some h).1 hc'] at hc₀
          cases hc₀
        exact ⟨c', by rw [(Heap.accessors_congr h (others r' other)).1, hc'], props⟩
      | array r' =>
        by_cases same : r' = r
        · subst same
          exact ⟨_, h.array?_setArray_self _ hc⟩
        · obtain ⟨c', hc'⟩ := shape
          exact ⟨c', by rw [(Heap.accessors_congr h (others r' same)).2.1, hc']⟩
      | _ => trivial
  · by_cases same : r' = r
    · subst same
      cases Heap.setArray_cell hc'
      exact fresh y held
    · rw [others r' same] at hc'
      exact hx.child hr hc' held

theorem Heap.Instruments.object?_isSome {o : Nat} {h h' : Heap ρ} (walked : Heap.Instruments o h h')
    {r : Nat} (hc : (h.object? r).isSome) : (h'.object? r).isSome := by
  obtain ⟨c, hc⟩ := Option.isSome_iff_exists.1 hc
  obtain ⟨cell', hc', step⟩ := walked.cell_forth ((Heap.object?_eq_some h).1 hc)
  cases step with
  | object _ _ _ => simp [(Heap.object?_eq_some h').2 hc']

theorem Heap.object?_isSome_of_binding {h : Heap ρ} {r : Nat} {b : Binding}
    (hb : ((h.object? r).getD ⟨[], none⟩).binding = some b) : (h.object? r).isSome := by
  cases hc : h.object? r with
  | none => simp [hc] at hb
  | some c => rfl

theorem Heap.object?_isSome_of_hasOwn {h : Heap ρ} {r : Nat} {key : String}
    (own : ((h.object? r).getD ⟨[], none⟩).hasOwn key = true) : (h.object? r).isSome := by
  cases hc : h.object? r with
  | none => simp [hc, ObjectCell.hasOwn] at own
  | some c => rfl

theorem observe_run_ok {v : Value} {o : Nat} {w w' : World ρ σ}
    (run : (observe v o : StoreM ρ σ Unit).run w = .ok ((), w')) :
    ∃ seen, (observeAt o w.heap.walkFuel v "" [] : StoreM ρ σ (List Nat)).run w = .ok (seen, w') := by
  simp only [observe] at run
  obtain ⟨h, w₀, read, run⟩ := run_bind_ok.1 run
  cases read
  obtain ⟨seen, w₁, walk, rest⟩ := run_bind_ok.1 run
  cases rest
  exact ⟨seen, walk⟩

theorem observeElements_nil_run {o r : Nat} {path : String} {seen : List Nat} {w w' : World ρ σ}
    (run : (observeElements o r path [] : StoreM ρ σ (List Nat)).run w = .ok (seen, w')) :
    ((w.heap.items r).zipIdx.foldlM
      (fun acc x => observeAt o w.heap.walkFuel x.1 (joinPath path (toString x.2)) acc) [r]).run w =
      .ok (seen, w') := by
  simp only [observeElements] at run
  obtain ⟨h, w₀, read, run⟩ := run_bind_ok.1 run
  cases read
  exact run

section Operations

variable {react : Handler ρ σ} {fuel o : Nat}
  (reactions : ∀ k s c, Keeps (Preserving fun w : World ρ σ => w.heap.Sound o) (react k s c))
include reactions

theorem addProperty_sound {r : Nat} {key : String} {v : Value} {enumerable added : Bool}
    {w w' : World ρ σ} (sound : w.heap.Sound o) (clean : w.heap.Clean o v)
    (kind : (w.heap.object? r).isSome ∨ w.heap.binding? r = none)
    (run : (addProperty react fuel r key v enumerable).run w = .ok (added, w')) : w'.heap.Sound o := by
  rcases addProperty_cases run with ⟨-, -, rfl⟩ | ⟨-, -, w₁, walk, rest⟩
  · exact sound
  · dsimp only at rest
    have props : ∀ (c : ObjectCell), ∀ p ∈ (c.put key (.observed v) enumerable).properties,
        p ∈ c.properties ∨ p.slot = .observed v := fun c p mem =>
      (ObjectCell.mem_put mem).imp (·.1) fun same => by rw [same]
    -- a bound object has the value walked first, which binds it
    cases hb : ((w.heap.object? r).getD ⟨[], none⟩).binding with
    | none =>
      simp only [WalksBelow, hb] at walk rest
      subst walk rest
      exact sound.setObject_unbound ((Heap.binding_getD_object kind).symm.trans hb)
        (by rw [ObjectCell.binding_put]; exact hb)
    | some b =>
      simp only [WalksBelow, hb] at walk rest
      obtain ⟨seen, walk⟩ := walk
      have walked : Heap.Instruments b.observer w.heap w₁.heap :=
        observeAt_keeps b.observer _ v _ [] walk
      rw [sound.only r b (Heap.binding?_of_getD hb)] at walk walked
      obtain ⟨sound₁, bound⟩ := observeAt_sound walk sound clean
      exact notify_sound reactions (sound₁.setObject_getD
        (.inl (walked.object?_isSome (Heap.object?_isSome_of_binding hb)))
        (ObjectCell.binding_put ..) (fun _ _ => bound) (props _)) rest

theorem removeProperty_sound {r : Nat} {key : String} {removed : Bool} {w w' : World ρ σ}
    (sound : w.heap.Sound o) (run : (removeProperty react fuel r key).run w = .ok (removed, w')) :
    w'.heap.Sound o := by
  rcases removeProperty_cases run with ⟨-, -, rfl⟩ | ⟨own, -, rest⟩
  · exact sound
  · dsimp only at rest
    have erased : (w.heap.setObject r (((w.heap.object? r).getD ⟨[], none⟩).erase key)).Sound o :=
      sound.setObject_getD (v := .undefined) (.inl (Heap.object?_isSome_of_hasOwn own)) rfl
        (fun _ _ _ scalar => by cases scalar) fun p mem => .inl (ObjectCell.mem_erase mem)
    split at rest
    · exact notify_sound reactions erased rest
    · subst rest
      exact erased

/-- An array mutator keeps the heap sound when its new items are old items or clean values: a
bound array has its items walked afresh, with the array pending meanwhile. -/
theorem mutate_sound {α : Type} {r : Nat} {op : List Value → List Value × α} {a : α}
    {w w' : World ρ σ} (sound : w.heap.Sound o)
    (kind : (w.heap.array? r).isSome ∨ w.heap.binding? r = none)
    (new : ∀ x ∈ (op ((w.heap.array? r).getD ⟨[], none⟩).items).1,
      x ∈ ((w.heap.array? r).getD ⟨[], none⟩).items ∨ w.heap.Clean o x)
    (run : (mutate react fuel r op).run w = .ok (a, w')) : w'.heap.Sound o := by
  obtain ⟨-, rest⟩ := mutate_cases run
  split at rest
  next unbound =>
    subst rest
    exact sound.setArray ((Heap.binding_getD_array kind).symm ▸ rfl) fun b held => by
      simp [unbound] at held
  next b bound =>
    obtain ⟨seen, w₁, walk, report⟩ := rest
    cases hc : w.heap.array? r with
    | none => simp [hc] at bound
    | some c =>
      simp only [hc, Option.getD_some] at bound new walk
      obtain ⟨o', path⟩ := b
      cases sound.only r _ (by rw [w.heap.binding?_of_array? hc, bound])
      -- the items are walked with the array pending; once walked, the array is closed
      have hc₁ := w.heap.setArray_cell_self { c with items := (op c.items).1 } (w.heap.lt_of_array? hc)
      have items := Heap.items_of_array? _ (w.heap.array?_setArray_self { c with items := (op c.items).1 } hc)
      have fold := observeElements_nil_run walk
      simp only [items] at fold
      obtain ⟨walking, -⟩ := walk_claimed (fun x => joinPath path (toString x.2)) Prod.fst _
        (fun _ _ => observeAt_closes)
        (sound.pending (w.heap.binding?_setArray (c := { c with items := (op c.items).1 })
            (w.heap.binding?_of_array? hc).symm)
          (fun _ other => w.heap.setArray_cell_ne _ other) (by rw [w.heap.binding?_of_array? hc, bound]))
        hc₁ (show Cell.Observed (.array { c with items := (op c.items).1 }) from trivial)
        (fun y held => List.mem_map.1 ((List.zipIdx_map_fst 0 _).symm ▸ held))
        (fun x mem => sound.clean_items hc bound new x.1 (List.fst_mem_of_mem_zipIdx mem))
        (by simp [Heap.walkFuel]) fold
      exact notify_sound reactions (.of_walking walking) report

/-- An array mutator keeps the heap sound when its arguments are clean. -/
theorem callArray_sound {r : Nat} {m : ArrayMethod} {args : List Value} {result : Value}
    {w w' : World ρ σ} (sound : w.heap.Sound o)
    (kind : (w.heap.array? r).isSome ∨ w.heap.binding? r = none) (clean : ∀ x ∈ args, w.heap.Clean o x)
    (run : (callArray react fuel r m args).run w = .ok (result, w')) : w'.heap.Sound o := by
  obtain ⟨α, op, a, w₁, new, mutation, rest⟩ := callArray_cases run
  have mutated := mutate_sound reactions sound kind (fun x mem => (new x mem).imp id (clean x))
    mutation
  rcases rest with rfl | ⟨removed, rfl⟩
  · exact mutated
  · exact mutated.push removed

end Operations

/-! ## Allowed mutations -/

/-- A heap with no bindings is sound for every observer. -/
theorem Heap.Sound.of_unbound {h : Heap ρ} {o : Nat} (unbound : ∀ r, h.binding? r = none) :
    h.Sound o where
  only r b hb := by
    rw [unbound r] at hb
    cases hb
  closed r cell path hc hb _ := by
    have none := unbound r
    rw [Heap.binding?_eq, hc, Option.bind_some, hb] at none
    cases none

/-- A bound object holding a property that is not observed makes the heap unsound. -/
theorem Heap.not_sound_of_unobserved {h : Heap ρ} {o r : Nat} {c : ObjectCell} {path : String}
    (hc : h.object? r = some c) (hb : c.binding = some ⟨o, path⟩) {p : Property}
    (held : p ∈ c.properties) (unobserved : ∀ x, p.slot ≠ .observed x) : ¬ h.Sound o := by
  intro sound
  have closed := sound.closed r (.object c) path ((Heap.object?_eq_some h).1 hc) hb List.not_mem_nil
  obtain ⟨x, observed⟩ := closed.observed p held
  exact unobserved x observed

theorem Heap.instrumentable_of_ref?_none {h : Heap ρ} {v : Value} (scalar : v.ref? = none) :
    h.Instrumentable v := by
  cases v with
  | object r => cases scalar
  | array r => cases scalar
  | _ => trivial

/-- What a mutation must meet to keep a heap sound for `o`. The values it stores, or hands to a
walk, are clean. A write lands on an observed slot or on an object bound to nothing; a key is
added to, and an array mutated at, a handle that names a container of that kind or is bound to
nothing; plain definitions and forwards go to handles bound to nothing; and the observer is
`o`. -/
def Mutation.Allowed (o : Nat) (h : Heap ρ) : Mutation → Prop
  | .set r key v => h.Clean o v ∧ h.Writable h.walkFuel r key
  | .add r _ v _ => h.Clean o v ∧ ((h.object? r).isSome ∨ h.binding? r = none)
  | .remove _ _ => True
  | .call r _ args => (∀ x ∈ args, h.Clean o x) ∧ ((h.array? r).isSome ∨ h.binding? r = none)
  | .define r _ _ _ => h.binding? r = none
  | .proxy r _ _ => h.binding? r = none
  | .observe v o' => o' = o ∧ h.Clean o v

/-- Every allowed mutation keeps a sound heap sound, reactions of subscribers included when each
of them does; observing a value also binds everything it reaches. -/
theorem Mutation.run_keeps_sound {react : Handler ρ σ} {fuel o : Nat} {m : Mutation}
    {w w' : World ρ σ}
    (reactions : ∀ k s c, Keeps (Preserving fun w : World ρ σ => w.heap.Sound o) (react k s c))
    (sound : w.heap.Sound o) (allowed : m.Allowed o w.heap)
    (run : (m.run react fuel).run w = .ok ((), w')) :
    w'.heap.Sound o ∧ ∀ v, m = .observe v o → ∀ u, w'.heap.Reaches v u → w'.heap.BoundTo o u := by
  -- only an observation has a value to bind
  suffices kept : w'.heap.Sound o by
    refine ⟨kept, fun v same u reach => ?_⟩
    subst same
    obtain ⟨seen, walk⟩ := observe_run_ok run
    exact kept.boundTo_of_reaches (observeAt_sound walk sound allowed.2).2 reach
  cases m with
  | set r key v =>
    simp only [Mutation.run, setProperty] at run
    obtain ⟨h, w₀, read, run⟩ := run_bind_ok.1 run
    cases read
    exact setWithin_sound reactions sound allowed.1 run allowed.2
  | add r key v enumerable =>
    simp only [Mutation.run] at run
    obtain ⟨added, run, -⟩ := run_map_ok.1 run
    exact addProperty_sound reactions sound allowed.1 allowed.2 run
  | remove r key =>
    simp only [Mutation.run] at run
    obtain ⟨removed, run, -⟩ := run_map_ok.1 run
    exact removeProperty_sound reactions sound run
  | call r m args =>
    simp only [Mutation.run] at run
    obtain ⟨result, run, -⟩ := run_map_ok.1 run
    exact callArray_sound reactions sound allowed.2 allowed.1 run
  | define r key v enumerable =>
    simp only [Mutation.run, run_define, Except.ok.injEq, Prod.mk.injEq] at run
    obtain ⟨-, rfl⟩ := run
    exact sound.setObject_unbound allowed
      (by rw [ObjectCell.binding_put]; exact Heap.binding_getD_of_unbound allowed)
  | proxy r src key =>
    simp only [Mutation.run] at run
    obtain ⟨added, run, -⟩ := run_map_ok.1 run
    rcases proxy_cases run with ⟨-, -, rfl⟩ | ⟨-, -, rfl⟩
    · exact sound
    · exact sound.setObject_unbound allowed
        (by rw [ObjectCell.binding_put]; exact Heap.binding_getD_of_unbound allowed)
  | observe v o' =>
    obtain ⟨rfl, clean⟩ := allowed
    obtain ⟨seen, walk⟩ := observe_run_ok run
    exact (observeAt_sound walk sound clean).1

/-- Observing the fresh object `{a: 1}` in a heap with no bindings leaves the heap sound and
the object bound. -/
theorem Mutation.observe_fresh_object_binds_it :
    let w : World Unit Unit :=
      ⟨⟨#[.object ⟨[⟨"a", .plain (.number (Double.ofNat 1)), true⟩], none⟩], #[Observer.empty]⟩, ()⟩
    ∃ w', ((Mutation.observe (.object 0) 0).run (fun _ _ _ => pure ()) 1).run w = .ok ((), w') ∧
      w'.heap.Sound 0 ∧ w'.heap.BoundTo 0 (.object 0) := by
  intro w
  obtain ⟨w', run⟩ : ∃ w',
      ((Mutation.observe (.object 0) 0).run (fun _ _ _ => pure ()) 1).run w = .ok ((), w') :=
    ⟨_, rfl⟩
  have unbound : ∀ r, w.heap.binding? r = none := by
    intro r
    rcases r with _ | r
    · rfl
    · simp [w, Heap.binding?]
  -- the object holds one enumerable plain number, so a walk closes it
  have clean : w.heap.Clean 0 (.object 0) :=
    Heap.clean_of_closure (fun x => x = .object 0 ∨ x.ref? = none)
      (fun x held => by
        rcases held with rfl | scalar
        · refine .inr ⟨_, rfl, fun p mem => ?_⟩
          simp only [List.mem_singleton] at mem
          subst mem
          exact .inl ⟨_, rfl, rfl⟩
        · exact .inr (Heap.instrumentable_of_ref?_none scalar))
      (fun x r cell y held hr hc mem => by
        rcases held with rfl | scalar
        · cases hr
          simp only [w, List.getElem?_toArray, List.getElem?_cons_zero, Option.some.injEq] at hc
          subst hc
          simp only [Cell.values, List.filterMap_cons, Slot.value?, List.filterMap_nil,
            List.mem_singleton] at mem
          exact .inr (by rw [mem]; rfl)
        · rw [scalar] at hr
          cases hr)
      (.inl rfl)
  have allowed : (Mutation.observe (.object 0) 0).Allowed 0 w.heap := ⟨rfl, clean⟩
  obtain ⟨sound, bound⟩ := Mutation.run_keeps_sound (fun _ _ _ => Keeps.pure ())
    (Heap.Sound.of_unbound unbound) allowed run
  exact ⟨w', run, sound, bound _ rfl _ (.refl _)⟩

/-- The data `{a: 1, w: {}}`, not observed yet. The key `w` is deleted, its object is given a
plain property `h` that is not enumerable, the data is observed, and the object is written to
`a`. The write is to an observed slot, and its walk binds the object under `a`, but leaves `h`
plain: the heap is no longer closed, and a write to `h` would not be reported. -/
theorem Mutation.hidden_property_stays_plain :
    let react : Handler Unit Unit := fun _ _ _ => pure ()
    let w : World Unit Unit :=
      ⟨⟨#[.object ⟨[⟨"a", .plain (.number (Double.ofNat 1)), true⟩, ⟨"w", .plain (.object 1), true⟩],
            none⟩, .object ⟨[], none⟩], #[Observer.empty, Observer.empty]⟩, ()⟩
    ∃ w', ([Mutation.remove 0 "w", .define 1 "h" (.number (Double.ofNat 1)) false,
          .observe (.object 0) 0, .set 0 "a" (.object 1)].forM (·.run react 1)).run w =
        .ok ((), w') ∧
      w'.heap.object? 1 = some ⟨[⟨"h", .plain (.number (Double.ofNat 1)), false⟩], some ⟨0, "a"⟩⟩ ∧
      w'.heap.intercepts 1 "h" = false ∧ ¬ w'.heap.Sound 0 := by
  dsimp only
  let w' : World Unit Unit :=
    ⟨⟨#[.object ⟨[⟨"a", .observed (.object 1), true⟩], some ⟨0, ""⟩⟩,
        .object ⟨[⟨"h", .plain (.number (Double.ofNat 1)), false⟩], some ⟨0, "a"⟩⟩],
      #[⟨[⟨.set, "a", .object 1⟩], [], 0⟩, Observer.empty]⟩, ()⟩
  have hc : w'.heap.object? 1 =
      some ⟨[⟨"h", .plain (.number (Double.ofNat 1)), false⟩], some ⟨0, "a"⟩⟩ := rfl
  exact ⟨w', rfl, hc, rfl, Heap.not_sound_of_unobserved hc rfl (List.mem_singleton_self _)
    fun x same => by cases same⟩

end ReactiveView.Store
