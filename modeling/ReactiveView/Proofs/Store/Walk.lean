import Mathlib.Data.List.Basic
import ReactiveView.Proofs.Store.Run
import ReactiveView.Proofs.Store.Cells
import ReactiveView.Store.Observe
/-!
# Walks that observe a value

`observeAt o` walks a value and binds each container it reaches to the observer `o`, under the
path that led there. This module gives the walk's three frame conditions, on which everything
said later about writes rests.

* A walk only *instruments* the heap (`Heap.Instruments`): every cell keeps its kind, its keys,
  flags, values and items; a binding can only change to one of `o`; a plain enumerable property
  can become observed, and nothing else about a slot changes. Observers are not touched, so a
  walk reports nothing.
* A walk leaves alone every container it has already visited, and every container whose
  binding covers its path (`observeAt_frame`). A write observes the new value below the path of
  the object written to, so it never moves the binding of its own writer.
* The list of visited containers only grows, and never holds a container twice.

What `interceptProperties` does to an object is described by `ObjectCell.intercept`, and what it
hands on to the walk by the object's observed properties afterwards.
-/
namespace ReactiveView.Store

set_option autoImplicit false

/-! ## What a walk may do to a cell -/

/-- A property as interception leaves it: an enumerable plain one becomes observed when the
object's binding is fresh; every other property stays as it is. -/
def Property.intercept (fresh : Bool) (p : Property) : Property :=
  match p.slot with
  | .plain v => if fresh && p.enumerable then { p with slot := .observed v } else p
  | _ => p

/-- The key and value of an observed property. -/
def Property.observedEntry? (p : Property) : Option (String × Value) :=
  match p.slot with
  | .observed v => some (p.key, v)
  | _ => none

/-- An object after interception. -/
def ObjectCell.intercept (fresh : Bool) (c : ObjectCell) : ObjectCell :=
  { c with properties := c.properties.map (Property.intercept fresh) }

theorem Property.intercept_intercept (f g : Bool) (p : Property) :
    (p.intercept f).intercept g = p.intercept (f || g) := by
  rcases p with ⟨key, slot, enumerable⟩
  cases slot <;> cases f <;> cases g <;> cases enumerable <;> rfl

@[simp] theorem Property.intercept_false : Property.intercept false = id := by
  funext p
  rcases p with ⟨key, slot, enumerable⟩
  cases slot <;> rfl

/-- A binding a walk to `o` may leave in place of `b`: `b` itself, or one to `o`. -/
def Rebinds (o : Nat) (b b' : Option Binding) : Prop := b' = b ∨ ∃ path, b' = some ⟨o, path⟩

theorem Rebinds.refl (o : Nat) (b : Option Binding) : Rebinds o b b := .inl rfl

theorem Rebinds.trans {o : Nat} {b b' b'' : Option Binding} (first : Rebinds o b b')
    (second : Rebinds o b' b'') : Rebinds o b b'' := by
  rcases second with rfl | moved
  · exact first
  · exact .inr moved

/-- The container a value is a handle to. -/
def Value.ref? : Value → Option Nat
  | .object r | .array r => some r
  | _ => none

/-- What a walk to `o` may do to one cell. -/
inductive Cell.Instruments (o : Nat) : Cell → Cell → Prop
  | object {c c' : ObjectCell} (fresh : Bool) :
      c'.properties = c.properties.map (Property.intercept fresh) → Rebinds o c.binding c'.binding →
      Cell.Instruments o (.object c) (.object c')
  | array {c c' : ArrayCell} :
      c'.items = c.items → Rebinds o c.binding c'.binding → Cell.Instruments o (.array c) (.array c')

theorem Cell.Instruments.refl (o : Nat) : ∀ c : Cell, Cell.Instruments o c c
  | .object _ => .object false (by simp) (Rebinds.refl o _)
  | .array _ => .array rfl (Rebinds.refl o _)

theorem Cell.Instruments.trans {o : Nat} {c c' c'' : Cell} :
    Cell.Instruments o c c' → Cell.Instruments o c' c'' → Cell.Instruments o c c''
  | .object f props bound, .object g props' bound' =>
    .object (f || g) (by simp [props', props, Property.intercept_intercept]) (bound.trans bound')
  | .array items bound, .array items' bound' => .array (items'.trans items) (bound.trans bound')

/-- `h'` is `h` with some containers bound to `o` and some enumerable plain properties of
objects intercepted; observers as they were. -/
structure Heap.Instruments {ρ : Type} (o : Nat) (h h' : Heap ρ) : Prop where
  size : h'.cells.size = h.cells.size
  cells : ∀ r : Nat, Option.Rel (Cell.Instruments o) h.cells[r]? h'.cells[r]?
  observers : h'.observers = h.observers

namespace Heap.Instruments

variable {ρ : Type} {o : Nat}

theorem refl (h : Heap ρ) : Heap.Instruments o h h :=
  ⟨rfl, fun r => by cases h.cells[r]? <;> constructor; exact Cell.Instruments.refl o _, rfl⟩

theorem trans {h h' h'' : Heap ρ} (first : Heap.Instruments o h h')
    (second : Heap.Instruments o h' h'') : Heap.Instruments o h h'' := by
  refine ⟨second.size.trans first.size, fun r => ?_, second.observers.trans first.observers⟩
  have one := first.cells r
  have two := second.cells r
  generalize h.cells[r]? = a at one
  generalize h'.cells[r]? = b at one two
  generalize h''.cells[r]? = c at two
  cases one with
  | none => cases two; exact .none
  | some step =>
    cases two with
    | some step' => exact .some (step.trans step')

/-- Binding an object to `o` instruments the heap. -/
theorem setObject_bind (h : Heap ρ) {r : Nat} {c : ObjectCell} (hc : h.object? r = some c)
    (path : String) : Heap.Instruments o h (h.setObject r { c with binding := some ⟨o, path⟩ }) := by
  refine ⟨by simp, fun r' => ?_, rfl⟩
  by_cases same : r' = r
  · subst same
    rw [h.setObject_cell_self _ (h.lt_of_object? hc), (h.object?_eq_some).1 hc]
    exact .some (.object false (by simp) (.inr ⟨path, rfl⟩))
  · rw [h.setObject_cell_ne _ same]
    cases h.cells[r']? <;> constructor; exact Cell.Instruments.refl o _

/-- Intercepting an object's properties instruments the heap. -/
theorem setObject_intercept (h : Heap ρ) {r : Nat} {c : ObjectCell} (hc : h.object? r = some c)
    (fresh : Bool) : Heap.Instruments o h (h.setObject r (c.intercept fresh)) := by
  refine ⟨by simp, fun r' => ?_, rfl⟩
  by_cases same : r' = r
  · subst same
    rw [h.setObject_cell_self _ (h.lt_of_object? hc), (h.object?_eq_some).1 hc]
    exact .some (.object fresh rfl (Rebinds.refl o _))
  · rw [h.setObject_cell_ne _ same]
    cases h.cells[r']? <;> constructor; exact Cell.Instruments.refl o _

/-- Binding an array to `o` instruments the heap. -/
theorem setArray_bind (h : Heap ρ) {r : Nat} {c : ArrayCell} (hc : h.array? r = some c)
    (path : String) : Heap.Instruments o h (h.setArray r { c with binding := some ⟨o, path⟩ }) := by
  refine ⟨by simp, fun r' => ?_, rfl⟩
  by_cases same : r' = r
  · subst same
    rw [h.setArray_cell_self _ (h.lt_of_array? hc), (h.array?_eq_some).1 hc]
    exact .some (.array rfl (.inr ⟨path, rfl⟩))
  · rw [h.setArray_cell_ne _ same]
    cases h.cells[r']? <;> constructor; exact Cell.Instruments.refl o _

end Heap.Instruments

/-- `Heap.Instruments` between the heaps of two worlds. -/
def World.Instruments {ρ σ : Type} (o : Nat) (w w' : World ρ σ) : Prop :=
  Heap.Instruments o w.heap w'.heap

instance {ρ σ : Type} (o : Nat) : IsPreorder (World ρ σ) (World.Instruments o) where
  refl w := Heap.Instruments.refl w.heap
  trans a b c first second :=
    @Heap.Instruments.trans _ o a.heap b.heap c.heap first second

/-! ## The steps of a walk -/

variable {ρ σ : Type}

section Steps

variable {r o : Nat} {path : String} {w : World ρ σ}

theorem bindObject_run_none (hc : w.heap.object? r = none) :
    (bindObject r o path : StoreM ρ σ (Option Bool)).run w = .ok (none, w) := by
  simp [bindObject, hc]

theorem bindObject_run_covered {c : ObjectCell} {b : Binding} (hc : w.heap.object? r = some c)
    (hb : c.binding = some b) (covered : b.covers o path = true) :
    (bindObject r o path : StoreM ρ σ (Option Bool)).run w = .ok (none, w) := by
  simp [bindObject, hc, hb, covered]

/-- An object whose binding does not cover the path is bound there; the answer says whether it
was bound to `o` before. -/
theorem bindObject_run_bind {c : ObjectCell} (hc : w.heap.object? r = some c)
    (free : ∀ b, c.binding = some b → b.covers o path = false) :
    (bindObject r o path : StoreM ρ σ (Option Bool)).run w =
      .ok (some (c.binding.all (·.observer != o)),
        { w with heap := w.heap.setObject r { c with binding := some ⟨o, path⟩ } }) := by
  rcases hb : c.binding with _ | b
  · simp [bindObject, hc, hb]
  · simp [bindObject, hc, hb, free b hb]

theorem bindArray_run_none (hc : w.heap.array? r = none) :
    (bindArray r o path : StoreM ρ σ Bool).run w = .ok (false, w) := by
  simp [bindArray, hc]

theorem bindArray_run_covered {c : ArrayCell} {b : Binding} (hc : w.heap.array? r = some c)
    (hb : c.binding = some b) (covered : b.covers o path = true) :
    (bindArray r o path : StoreM ρ σ Bool).run w = .ok (false, w) := by
  simp [bindArray, hc, hb, covered]

theorem bindArray_run_bind {c : ArrayCell} (hc : w.heap.array? r = some c)
    (free : ∀ b, c.binding = some b → b.covers o path = false) :
    (bindArray r o path : StoreM ρ σ Bool).run w =
      .ok (true, { w with heap := w.heap.setArray r { c with binding := some ⟨o, path⟩ } }) := by
  rcases hb : c.binding with _ | b
  · simp [bindArray, hc, hb]
  · simp [bindArray, hc, hb, free b hb]

theorem interceptProperties_run_none {fresh : Bool} (hc : w.heap.object? r = none) :
    (interceptProperties r fresh : StoreM ρ σ (List (String × Value))).run w = .ok ([], w) := by
  simp [interceptProperties, hc]

/-- Interception rewrites the object as `ObjectCell.intercept` says and hands on exactly the
properties that are observed afterwards. -/
theorem interceptProperties_run {fresh : Bool} {c : ObjectCell} (hc : w.heap.object? r = some c) :
    (interceptProperties r fresh : StoreM ρ σ (List (String × Value))).run w =
      .ok ((c.intercept fresh).properties.filterMap Property.observedEntry?,
        { w with heap := w.heap.setObject r (c.intercept fresh) }) := by
  simp only [interceptProperties, StateT.run_bind, run_heap, ok_bind, hc, run_modifyHeap,
    StateT.run_pure, pure_eq_ok, ObjectCell.intercept, List.map_map, List.filterMap_map]
  refine congrArg Except.ok (Prod.ext ?_ ?_)
  · apply List.filterMap_congr
    rintro ⟨key, slot, enumerable⟩ -
    -- only a plain slot depends on whether the object is fresh
    cases slot with
    | plain v =>
      simp only [Function.comp, Property.intercept, Property.observedEntry?]
      split <;> rfl
    | observed v | proxy src => rfl
  · show World.mk _ _ = World.mk _ _
    congr 3
    apply List.map_congr_left
    rintro ⟨key, slot, enumerable⟩ -
    cases slot with
    | plain v =>
      simp only [Function.comp, Property.intercept]
      split <;> rfl
    | observed v | proxy src => rfl

end Steps

/-! ## A walk only instruments the heap -/

theorem bindObject_keeps (r o : Nat) (path : String) :
    Keeps (World.Instruments o) (bindObject r o path : StoreM ρ σ (Option Bool)) := by
  intro w res w' run
  rcases hc : w.heap.object? r with _ | c
  · rw [bindObject_run_none hc] at run
    cases run
    exact refl_of (World.Instruments o) w
  · by_cases covered : ∃ b, c.binding = some b ∧ b.covers o path = true
    · obtain ⟨b, hb, cov⟩ := covered
      rw [bindObject_run_covered hc hb cov] at run
      cases run
      exact refl_of (World.Instruments o) w
    · have free : ∀ b, c.binding = some b → b.covers o path = false := by
        intro b hb
        simpa using fun cov => covered ⟨b, hb, cov⟩
      rw [bindObject_run_bind hc free] at run
      cases run
      exact Heap.Instruments.setObject_bind w.heap hc path

theorem bindArray_keeps (r o : Nat) (path : String) :
    Keeps (World.Instruments o) (bindArray r o path : StoreM ρ σ Bool) := by
  intro w res w' run
  rcases hc : w.heap.array? r with _ | c
  · rw [bindArray_run_none hc] at run
    cases run
    exact refl_of (World.Instruments o) w
  · by_cases covered : ∃ b, c.binding = some b ∧ b.covers o path = true
    · obtain ⟨b, hb, cov⟩ := covered
      rw [bindArray_run_covered hc hb cov] at run
      cases run
      exact refl_of (World.Instruments o) w
    · have free : ∀ b, c.binding = some b → b.covers o path = false := by
        intro b hb
        simpa using fun cov => covered ⟨b, hb, cov⟩
      rw [bindArray_run_bind hc free] at run
      cases run
      exact Heap.Instruments.setArray_bind w.heap hc path

theorem interceptProperties_keeps (r o : Nat) (fresh : Bool) :
    Keeps (World.Instruments o) (interceptProperties r fresh : StoreM ρ σ (List (String × Value))) := by
  intro w res w' run
  rcases hc : w.heap.object? r with _ | c
  · rw [interceptProperties_run_none hc] at run
    cases run
    exact refl_of (World.Instruments o) w
  · rw [interceptProperties_run hc] at run
    cases run
    exact Heap.Instruments.setObject_intercept w.heap hc fresh

/-- A walk only instruments the heap. -/
theorem observeAt_keeps (o : Nat) :
    ∀ (n : Nat) (v : Value) (path : String) (seen : List Nat),
      Keeps (World.Instruments o) (observeAt o n v path seen : StoreM ρ σ (List Nat))
  | 0, _, _, seen => Keeps.pure seen
  | n + 1, v, path, seen => by
    cases v with
    | object r =>
      simp only [observeAt]
      split
      · exact Keeps.pure seen
      · refine Keeps.bind (bindObject_keeps r o path) fun res => ?_
        cases res with
        | none => exact Keeps.pure _
        | some fresh =>
          exact Keeps.bind (interceptProperties_keeps r o fresh) fun children =>
            Keeps.foldlM children (fun acc x _ => observeAt_keeps o n x.2 _ acc) _
    | array r =>
      simp only [observeAt]
      split
      · exact Keeps.pure seen
      · refine Keeps.bind (bindArray_keeps r o path) fun bound => ?_
        split
        · exact Keeps.pure _
        · exact Keeps.bind Keeps.heap fun _ =>
            Keeps.foldlM _ (fun acc x _ => observeAt_keeps o n x.1 _ acc) _
    | _ => exact Keeps.pure seen

theorem observeElements_keeps (o r : Nat) (path : String) (seen : List Nat) :
    Keeps (World.Instruments o) (observeElements o r path seen : StoreM ρ σ (List Nat)) :=
  Keeps.bind Keeps.heap fun _ => Keeps.foldlM _ (fun acc x _ => observeAt_keeps o _ x.1 _ acc) _

theorem observe_keeps (v : Value) (o : Nat) :
    Keeps (World.Instruments o) (observe v o : StoreM ρ σ Unit) :=
  Keeps.bind Keeps.heap fun _ => Keeps.bind (observeAt_keeps o _ v "" []) fun _ => Keeps.pure ()


/-! ## What one step of a walk can do -/

section Cases

variable {o n r : Nat} {v : Value} {path : String} {seen seen' : List Nat} {w w' : World ρ σ}

/-- The object an object walk leaves behind: bound to `o` at the path, with its enumerable
plain properties intercepted when it was not bound to `o` before. -/
def ObjectCell.claim (c : ObjectCell) (o : Nat) (path : String) : ObjectCell :=
  ({ c with binding := some ⟨o, path⟩ } : ObjectCell).intercept (c.binding.all (·.observer != o))

/-- One step of a walk into an object: it was visited before; or it is not an object, or its
binding covers the path, and the walk stops there; or it is claimed and the walk goes on into its
observed properties. -/
theorem observeAt_object_cases
    (run : (observeAt o (n + 1) (.object r) path seen : StoreM ρ σ (List Nat)).run w = .ok (seen', w')) :
    (r ∈ seen ∧ seen' = seen ∧ w' = w) ∨
    (r ∉ seen ∧ seen' = r :: seen ∧ w' = w ∧
      (w.heap.object? r = none ∨
        ∃ c b, w.heap.object? r = some c ∧ c.binding = some b ∧ b.covers o path = true)) ∨
    (r ∉ seen ∧ ∃ c, w.heap.object? r = some c ∧ (∀ b, c.binding = some b → b.covers o path = false) ∧
      (((c.claim o path).properties.filterMap Property.observedEntry?).foldlM
        (fun seen x => observeAt o n x.2 (joinPath path x.1) seen) (r :: seen)).run
        { w with heap := w.heap.setObject r (c.claim o path) } = .ok (seen', w')) := by
  simp only [observeAt] at run
  split at run
  · rename_i visited
    cases run
    exact .inl ⟨List.contains_iff_mem.1 visited, rfl, rfl⟩
  · rename_i fresh
    have unvisited : r ∉ seen := fun mem => fresh (List.contains_iff_mem.2 mem)
    obtain ⟨res, w₁, bind, rest⟩ := run_bind_ok.1 run
    rcases hc : w.heap.object? r with _ | c
    · rw [bindObject_run_none hc] at bind
      cases bind
      cases rest
      exact .inr (.inl ⟨unvisited, rfl, rfl, .inl rfl⟩)
    · by_cases covered : ∃ b, c.binding = some b ∧ b.covers o path = true
      · obtain ⟨b, hb, cov⟩ := covered
        rw [bindObject_run_covered hc hb cov] at bind
        cases bind
        cases rest
        exact .inr (.inl ⟨unvisited, rfl, rfl, .inr ⟨c, b, rfl, hb, cov⟩⟩)
      · have free : ∀ b, c.binding = some b → b.covers o path = false := by
          intro b hb
          simpa using fun cov => covered ⟨b, hb, cov⟩
        rw [bindObject_run_bind hc free] at bind
        cases bind
        obtain ⟨children, w₂, intercepted, fold⟩ := run_bind_ok.1 rest
        rw [interceptProperties_run (w.heap.object?_setObject_self _ hc)] at intercepted
        cases intercepted
        refine .inr (.inr ⟨unvisited, c, rfl, free, ?_⟩)
        simpa [ObjectCell.claim] using fold

/-- One step of a walk into an array: visited before; not an array or covered; or bound at the
path, the walk going on into its items at their index paths. -/
theorem observeAt_array_cases
    (run : (observeAt o (n + 1) (.array r) path seen : StoreM ρ σ (List Nat)).run w = .ok (seen', w')) :
    (r ∈ seen ∧ seen' = seen ∧ w' = w) ∨
    (r ∉ seen ∧ seen' = r :: seen ∧ w' = w ∧
      (w.heap.array? r = none ∨
        ∃ c b, w.heap.array? r = some c ∧ c.binding = some b ∧ b.covers o path = true)) ∨
    (r ∉ seen ∧ ∃ c, w.heap.array? r = some c ∧ (∀ b, c.binding = some b → b.covers o path = false) ∧
      ((c.items.zipIdx).foldlM (fun seen x => observeAt o n x.1 (joinPath path (toString x.2)) seen)
        (r :: seen)).run { w with heap := w.heap.setArray r { c with binding := some ⟨o, path⟩ } } =
        .ok (seen', w')) := by
  simp only [observeAt] at run
  split at run
  · rename_i visited
    cases run
    exact .inl ⟨List.contains_iff_mem.1 visited, rfl, rfl⟩
  · rename_i fresh
    have unvisited : r ∉ seen := fun mem => fresh (List.contains_iff_mem.2 mem)
    obtain ⟨bound, w₁, bind, rest⟩ := run_bind_ok.1 run
    rcases hc : w.heap.array? r with _ | c
    · rw [bindArray_run_none hc] at bind
      cases bind
      cases rest
      exact .inr (.inl ⟨unvisited, rfl, rfl, .inl rfl⟩)
    · by_cases covered : ∃ b, c.binding = some b ∧ b.covers o path = true
      · obtain ⟨b, hb, cov⟩ := covered
        rw [bindArray_run_covered hc hb cov] at bind
        cases bind
        cases rest
        exact .inr (.inl ⟨unvisited, rfl, rfl, .inr ⟨c, b, rfl, hb, cov⟩⟩)
      · have free : ∀ b, c.binding = some b → b.covers o path = false := by
          intro b hb
          simpa using fun cov => covered ⟨b, hb, cov⟩
        rw [bindArray_run_bind hc free] at bind
        cases bind
        obtain ⟨h, w₂, read, fold⟩ := run_bind_ok.1 rest
        cases read
        refine .inr (.inr ⟨unvisited, c, rfl, free, ?_⟩)
        simpa [Heap.items_of_array? _ (w.heap.array?_setArray_self _ hc)] using fold

/-- A walk into a scalar, or with no fuel left, does nothing. -/
theorem observeAt_run_stop (stop : n = 0 ∨ v.ref? = none)
    (run : (observeAt o n v path seen : StoreM ρ σ (List Nat)).run w = .ok (seen', w')) :
    seen' = seen ∧ w' = w := by
  rcases stop with rfl | scalar
  · cases run
    exact ⟨rfl, rfl⟩
  · obtain _ | n := n
    · cases run
      exact ⟨rfl, rfl⟩
    · cases v with
      | object r => cases scalar
      | array r => cases scalar
      | _ => cases run; exact ⟨rfl, rfl⟩

end Cases

/-! ## The visited list -/

section Seen

variable {o : Nat}

/-- A walk only adds to the list of containers visited. -/
theorem observeAt_seen_suffix :
    ∀ {n : Nat} {v : Value} {path : String} {seen seen' : List Nat} {w w' : World ρ σ},
      (observeAt o n v path seen : StoreM ρ σ (List Nat)).run w = .ok (seen', w') → seen <:+ seen'
  | 0, _, _, _, _, _, _, run => by
    obtain ⟨rfl, -⟩ := observeAt_run_stop (.inl rfl) run
    exact List.suffix_refl _
  | n + 1, .object r, path, seen, seen', w, w', run => by
    rcases observeAt_object_cases run with ⟨-, rfl, -⟩ | ⟨-, rfl, -⟩ | ⟨-, c, -, -, fold⟩
    · exact List.suffix_refl _
    · exact List.suffix_cons _ _
    · exact foldlM_invariant (fun acc _ => seen <:+ acc) _
        (fun _ _ _ _ _ _ below step => below.trans (observeAt_seen_suffix step))
        (List.suffix_cons _ _) fold
  | n + 1, .array r, path, seen, seen', w, w', run => by
    rcases observeAt_array_cases run with ⟨-, rfl, -⟩ | ⟨-, rfl, -⟩ | ⟨-, c, -, -, fold⟩
    · exact List.suffix_refl _
    · exact List.suffix_cons _ _
    · exact foldlM_invariant (fun acc _ => seen <:+ acc) _
        (fun _ _ _ _ _ _ below step => below.trans (observeAt_seen_suffix step))
        (List.suffix_cons _ _) fold
  | n + 1, .undefined, _, _, _, _, _, run
  | n + 1, .null, _, _, _, _, _, run
  | n + 1, .bool _, _, _, _, _, _, run
  | n + 1, .number _, _, _, _, _, _, run
  | n + 1, .string _, _, _, _, _, _, run => by
    obtain ⟨rfl, -⟩ := observeAt_run_stop (.inr rfl) run
    exact List.suffix_refl _

/-- A walk never visits a container twice. -/
theorem observeAt_seen_nodup :
    ∀ {n : Nat} {v : Value} {path : String} {seen seen' : List Nat} {w w' : World ρ σ},
      (observeAt o n v path seen : StoreM ρ σ (List Nat)).run w = .ok (seen', w') → seen.Nodup →
        seen'.Nodup
  | 0, _, _, _, _, _, _, run, nodup => by
    rwa [(observeAt_run_stop (.inl rfl) run).1]
  | n + 1, .object r, path, seen, seen', w, w', run, nodup => by
    rcases observeAt_object_cases run with ⟨-, rfl, -⟩ | ⟨fresh, rfl, -⟩ | ⟨fresh, c, -, -, fold⟩
    · exact nodup
    · exact List.nodup_cons.2 ⟨fresh, nodup⟩
    · exact foldlM_invariant (fun acc _ => acc.Nodup) _
        (fun _ _ _ _ _ _ distinct step => observeAt_seen_nodup step distinct)
        (List.nodup_cons.2 ⟨fresh, nodup⟩) fold
  | n + 1, .array r, path, seen, seen', w, w', run, nodup => by
    rcases observeAt_array_cases run with ⟨-, rfl, -⟩ | ⟨fresh, rfl, -⟩ | ⟨fresh, c, -, -, fold⟩
    · exact nodup
    · exact List.nodup_cons.2 ⟨fresh, nodup⟩
    · exact foldlM_invariant (fun acc _ => acc.Nodup) _
        (fun _ _ _ _ _ _ distinct step => observeAt_seen_nodup step distinct)
        (List.nodup_cons.2 ⟨fresh, nodup⟩) fold
  | n + 1, .undefined, _, _, _, _, _, run, nodup
  | n + 1, .null, _, _, _, _, _, run, nodup
  | n + 1, .bool _, _, _, _, _, _, run, nodup
  | n + 1, .number _, _, _, _, _, _, run, nodup
  | n + 1, .string _, _, _, _, _, _, run, nodup => by
    rwa [(observeAt_run_stop (.inr rfl) run).1]

end Seen

/-! ## What a walk leaves alone -/

/-- A container a walk to `o` at `path` that has visited `seen` must leave alone: one it has
visited, or one whose binding covers the path. -/
def Heap.Settled (h : Heap ρ) (o : Nat) (path : String) (seen : List Nat) (r : Nat) : Prop :=
  r ∈ seen ∨ ∃ b, h.binding? r = some b ∧ b.covers o path = true

/-- What is settled for a walk stays settled for the walks below it, once more has been visited
and as long as the container itself is untouched. -/
theorem Heap.Settled.below {h h' : Heap ρ} {o : Nat} {path : String} {seen acc : List Nat}
    {r : Nat} (settled : h.Settled o path seen r) (grown : seen <:+ acc)
    (same : h'.cells[r]? = h.cells[r]?) (key : String) : h'.Settled o (joinPath path key) acc r := by
  rcases settled with visited | ⟨b, hb, covered⟩
  · exact .inl (grown.subset visited)
  · refine .inr ⟨b, ?_, Binding.covers_joinPath key covered⟩
    rw [(Heap.accessors_congr h same).2.2.1, hb]

/-- The claimed container itself is not settled. -/
theorem Heap.Settled.ne_of_free {h : Heap ρ} {o r r' : Nat} {path : String} {seen : List Nat}
    (settled : h.Settled o path seen r') (unvisited : r ∉ seen)
    (free : ∀ b, h.binding? r = some b → b.covers o path = false) : r' ≠ r := by
  rintro rfl
  rcases settled with visited | ⟨b, hb, covered⟩
  · exact unvisited visited
  · simp [free b hb] at covered

/-- A walk leaves every settled container as it was. -/
theorem observeAt_frame {o : Nat} :
    ∀ {n : Nat} {v : Value} {path : String} {seen seen' : List Nat} {w w' : World ρ σ},
      (observeAt o n v path seen : StoreM ρ σ (List Nat)).run w = .ok (seen', w') →
        ∀ {r' : Nat}, w.heap.Settled o path seen r' → w'.heap.cells[r']? = w.heap.cells[r']?
  | 0, _, _, _, _, _, _, run, _, _ => by
    rw [(observeAt_run_stop (.inl rfl) run).2]
  | n + 1, .object r, path, seen, seen', w, w', run, r', settled => by
    rcases observeAt_object_cases run with ⟨-, -, rfl⟩ | ⟨-, -, rfl, -⟩ | ⟨unvisited, c, hc, free, fold⟩
    · rfl
    · rfl
    · have other : r' ≠ r := settled.ne_of_free unvisited fun b hb => by
        rw [w.heap.binding?_of_object? hc] at hb
        exact free b hb
      have claimed : (w.heap.setObject r (c.claim o path)).cells[r']? = w.heap.cells[r']? :=
        w.heap.setObject_cell_ne _ other
      exact (foldlM_invariant (fun acc (w₁ : World ρ σ) => seen <:+ acc ∧ w₁.heap.cells[r']? = w.heap.cells[r']?) _
        (fun x _ acc w₁ acc' w₂ ⟨grown, same⟩ step =>
          ⟨grown.trans (observeAt_seen_suffix step),
            (observeAt_frame step (settled.below grown same x.1)).trans same⟩)
        ⟨List.suffix_cons _ _, claimed⟩ fold).2
  | n + 1, .array r, path, seen, seen', w, w', run, r', settled => by
    rcases observeAt_array_cases run with ⟨-, -, rfl⟩ | ⟨-, -, rfl, -⟩ | ⟨unvisited, c, hc, free, fold⟩
    · rfl
    · rfl
    · have other : r' ≠ r := settled.ne_of_free unvisited fun b hb => by
        rw [w.heap.binding?_of_array? hc] at hb
        exact free b hb
      have claimed : (w.heap.setArray r { c with binding := some ⟨o, path⟩ }).cells[r']? =
          w.heap.cells[r']? := w.heap.setArray_cell_ne _ other
      exact (foldlM_invariant (fun acc (w₁ : World ρ σ) => seen <:+ acc ∧ w₁.heap.cells[r']? = w.heap.cells[r']?) _
        (fun x _ acc w₁ acc' w₂ ⟨grown, same⟩ step =>
          ⟨grown.trans (observeAt_seen_suffix step),
            (observeAt_frame step (settled.below grown same (toString x.2))).trans same⟩)
        ⟨List.suffix_cons _ _, claimed⟩ fold).2
  | n + 1, .undefined, _, _, _, _, _, run, _, _
  | n + 1, .null, _, _, _, _, _, run, _, _
  | n + 1, .bool _, _, _, _, _, _, run, _, _
  | n + 1, .number _, _, _, _, _, _, run, _, _
  | n + 1, .string _, _, _, _, _, _, run, _, _ => by
    rw [(observeAt_run_stop (.inr rfl) run).2]

/-- Walks one after another, started with `r` visited, leave the cell of `r` as it was. -/
theorem foldWalks_frame {β : Type} {o n r : Nat} (val : β → Value) (visit : β → String)
    (xs : List β) {start seen : List Nat} {w w' : World ρ σ} (visited : r ∈ start)
    (fold : (xs.foldlM (fun acc x => observeAt o n (val x) (visit x) acc) start).run w =
      .ok (seen, w')) :
    w'.heap.cells[r]? = w.heap.cells[r]? :=
  (foldlM_invariant (fun acc (w₁ : World ρ σ) => r ∈ acc ∧ w₁.heap.cells[r]? = w.heap.cells[r]?) xs
    (fun _ _ _ _ _ _ ⟨mem, same⟩ step =>
      ⟨(observeAt_seen_suffix step).subset mem, (observeAt_frame step (.inl mem)).trans same⟩)
    ⟨visited, rfl⟩ fold).2

end ReactiveView.Store
