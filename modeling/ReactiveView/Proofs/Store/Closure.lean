import Mathlib.Data.List.Perm.Subperm
import ReactiveView.Proofs.Store.Mutation
/-!
# Closed heaps

Take one observer `o`. A container bound to `o` is *closed* when every property of it is observed
and every container it holds is bound to `o` as well; the heap is closed when every container
bound to `o` is. In a closed heap, every write below a bound container is reported, however deep
it lands.

A walk to `o` keeps the heap closed when it starts from a *clean* value: every container the
value reaches is bound to `o` already, or has the kind its handle says and holds only enumerable
plain properties and observed ones (`Heap.Instrumentable`), so that claiming it leaves every
property observed. A walk claims a container before it walks the values in it, so while those
are walked the container is *pending*: bound, with its properties observed, but holding values
not yet bound. `observeAt_closes` carries the list of pending containers through the walk.

A property that is not enumerable, or a forward, in a container that a write hands to the walk
stays as it is when the container is claimed, and the heap is no longer closed
(`Mutation.hidden_property_stays_plain`).
-/
namespace ReactiveView.Store

set_option autoImplicit false

variable {ρ σ : Type}

/-! ## Closed containers -/

/-- The value a slot holds; a forward holds none. -/
def Slot.value? : Slot → Option Value
  | .plain v | .observed v => some v
  | .proxy _ => none

/-- The values a container holds: those of an object's properties, forwards apart, and the items
of an array. -/
def Cell.values : Cell → List Value
  | .object c => c.properties.filterMap (·.slot.value?)
  | .array c => c.items

/-- The binding of a container. -/
def Cell.binding : Cell → Option Binding
  | .object c => c.binding
  | .array c => c.binding

/-- Every property of an object is observed; an array has none. -/
def Cell.Observed : Cell → Prop
  | .object c => ∀ p ∈ c.properties, ∃ x, p.slot = .observed x
  | .array _ => True

/-- The value is a handle to a container bound to `o`; a scalar is no handle. -/
def Heap.BoundTo (h : Heap ρ) (o : Nat) (v : Value) : Prop :=
  ∀ r, v.ref? = some r → ∃ path, h.binding? r = some ⟨o, path⟩

/-- Every binding in the heap is one to `o`. -/
def Heap.OnlyTo (h : Heap ρ) (o : Nat) : Prop :=
  ∀ r b, h.binding? r = some b → b.observer = o

/-- A container closed for `o`: its properties are observed, and every value it holds is a
handle to a container bound to `o`, or a scalar. -/
structure Cell.Closed (h : Heap ρ) (o : Nat) (cell : Cell) : Prop where
  observed : cell.Observed
  bound : ∀ x ∈ cell.values, h.BoundTo o x

/-- Every container bound to `o`, those in `pending` apart, is closed. -/
def Heap.ClosedExcept (h : Heap ρ) (o : Nat) (pending : List Nat) : Prop :=
  ∀ r cell path, h.cells[r]? = some cell → cell.binding = some ⟨o, path⟩ → r ∉ pending →
    cell.Closed h o

/-- Every container bound to `o` is closed. -/
def Heap.Closed (h : Heap ρ) (o : Nat) : Prop := h.ClosedExcept o []

/-! ## Clean values -/

/-- The values a value reaches through the values held by the containers on the way; forwards
are not followed. -/
inductive Heap.Reaches (h : Heap ρ) : Value → Value → Prop
  | refl (v : Value) : h.Reaches v v
  | step {v x u : Value} {r : Nat} {cell : Cell} :
      v.ref? = some r → h.cells[r]? = some cell → x ∈ cell.values → h.Reaches x u → h.Reaches v u

/-- A property that a fresh binding leaves observed: an enumerable plain one or an observed one. -/
def Property.Interceptable (p : Property) : Prop :=
  (∃ x, p.slot = .plain x ∧ p.enumerable = true) ∨ ∃ x, p.slot = .observed x

/-- A container that a walk closes when it claims it: the handle names a container of its own
kind, and an object's properties are interceptable. -/
def Heap.Instrumentable (h : Heap ρ) : Value → Prop
  | .object r => ∃ c, h.object? r = some c ∧ ∀ p ∈ c.properties, p.Interceptable
  | .array r => ∃ c, h.array? r = some c
  | _ => True

/-- Every container that the value reaches is bound to `o`, or a walk can close it. -/
def Heap.Clean (h : Heap ρ) (o : Nat) (v : Value) : Prop :=
  ∀ u, h.Reaches v u → h.BoundTo o u ∨ h.Instrumentable u

/-! ## Reading bindings and values -/

theorem Heap.binding?_eq (h : Heap ρ) (r : Nat) :
    h.binding? r = (h.cells[r]?).bind Cell.binding := by
  cases hc : h.cells[r]? with
  | none => simp [Heap.binding?, hc]
  | some cell => cases cell <;> simp [Heap.binding?, hc, Cell.binding]

theorem Heap.lt_of_binding? {h : Heap ρ} {r : Nat} {b : Binding} (hb : h.binding? r = some b) :
    r < h.cells.size := by
  rw [Heap.binding?_eq] at hb
  cases hc : h.cells[r]? with
  | none => simp [hc] at hb
  | some cell => exact (Array.getElem?_eq_some_iff.1 hc).1

@[simp] theorem Property.value?_intercept (fresh : Bool) (p : Property) :
    (p.intercept fresh).slot.value? = p.slot.value? := by
  rcases p with ⟨key, slot, enumerable⟩
  cases slot with
  | plain x =>
    simp only [Property.intercept]
    split <;> rfl
  | observed x => rfl
  | proxy src => rfl

theorem Property.Interceptable.intercept {p : Property} (hp : p.Interceptable) (fresh : Bool) :
    (p.intercept fresh).Interceptable := by
  rcases p with ⟨key, slot, enumerable⟩
  rcases hp with ⟨x, rfl, rfl⟩ | ⟨x, rfl⟩
  · cases fresh
    · exact .inl ⟨x, rfl, rfl⟩
    · exact .inr ⟨x, rfl⟩
  · exact .inr ⟨x, rfl⟩

/-- A fresh binding leaves an interceptable property observed. -/
theorem Property.Interceptable.observed {p : Property} (hp : p.Interceptable) :
    ∃ x, (p.intercept true).slot = .observed x := by
  rcases p with ⟨key, slot, enumerable⟩
  rcases hp with ⟨x, rfl, rfl⟩ | ⟨x, rfl⟩
  · exact ⟨x, rfl⟩
  · exact ⟨x, rfl⟩

theorem Cell.Instruments.values {o : Nat} {cell cell' : Cell} (step : Cell.Instruments o cell cell') :
    cell'.values = cell.values := by
  cases step with
  | object fresh props _ => simp [Cell.values, props, List.filterMap_map]
  | array items _ => exact items

theorem Cell.Instruments.binding {o : Nat} {cell cell' : Cell}
    (step : Cell.Instruments o cell cell') : Rebinds o cell.binding cell'.binding := by
  cases step with
  | object _ _ bound => exact bound
  | array _ bound => exact bound

/-! ## What a walk keeps -/

theorem Heap.Reaches.trans {h : Heap ρ} {x y u : Value} (first : h.Reaches x y)
    (second : h.Reaches y u) : h.Reaches x u := by
  induction first with
  | refl => exact second
  | step hr hc mem _ ih => exact .step hr hc mem (ih second)

theorem Heap.Clean.of_reaches {h : Heap ρ} {o : Nat} {x y : Value} (clean : h.Clean o x)
    (reach : h.Reaches x y) : h.Clean o y :=
  fun u onward => clean u (reach.trans onward)

/-- What a value holds is clean when the value is. -/
theorem Heap.Clean.child {h : Heap ρ} {o r : Nat} {x y : Value} {cell : Cell} (clean : h.Clean o x)
    (hr : x.ref? = some r) (hc : h.cells[r]? = some cell) (mem : y ∈ cell.values) : h.Clean o y :=
  clean.of_reaches (.step hr hc mem (.refl y))

namespace Heap.Instruments

variable {o : Nat} {h h' : Heap ρ}

theorem cell_forth (walked : Heap.Instruments o h h') {r : Nat} {cell : Cell}
    (hc : h.cells[r]? = some cell) : ∃ cell', h'.cells[r]? = some cell' ∧ Cell.Instruments o cell cell' := by
  have rel := walked.cells r
  rw [hc] at rel
  generalize same : h'.cells[r]? = b at rel
  cases rel with
  | some step => exact ⟨_, rfl, step⟩

theorem cell_back (walked : Heap.Instruments o h h') {r : Nat} {cell' : Cell}
    (hc : h'.cells[r]? = some cell') : ∃ cell, h.cells[r]? = some cell ∧ Cell.Instruments o cell cell' := by
  have rel := walked.cells r
  rw [hc] at rel
  generalize same : h.cells[r]? = a at rel
  cases rel with
  | some step => exact ⟨_, rfl, step⟩

/-- A walk to `o` keeps every binding to `o`, though perhaps at another path. -/
theorem bound (walked : Heap.Instruments o h h') {r : Nat} {path : String}
    (hb : h.binding? r = some ⟨o, path⟩) : ∃ path', h'.binding? r = some ⟨o, path'⟩ := by
  rw [binding?_eq] at hb ⊢
  cases hc : h.cells[r]? with
  | none => simp [hc] at hb
  | some cell =>
    obtain ⟨cell', hc', step⟩ := walked.cell_forth hc
    simp only [hc, Option.bind_some] at hb
    rcases step.binding with same | ⟨path', moved⟩
    · exact ⟨path, by rw [hc', Option.bind_some, same, hb]⟩
    · exact ⟨path', by rw [hc', Option.bind_some, moved]⟩

theorem onlyTo (walked : Heap.Instruments o h h') (only : h.OnlyTo o) : h'.OnlyTo o := by
  intro r b hb
  rw [binding?_eq] at hb
  cases hc' : h'.cells[r]? with
  | none => simp [hc'] at hb
  | some cell' =>
    obtain ⟨cell, hc, step⟩ := walked.cell_back hc'
    simp only [hc', Option.bind_some] at hb
    rcases step.binding with same | ⟨path', moved⟩
    · exact only r b (by rw [binding?_eq, hc, Option.bind_some, ← same, hb])
    · rw [moved] at hb
      cases hb
      rfl

theorem boundTo (walked : Heap.Instruments o h h') {x : Value} (bound : h.BoundTo o x) :
    h'.BoundTo o x := fun r hr =>
  let ⟨_, hb⟩ := bound r hr
  walked.bound hb

/-- A walk changes no value held anywhere, so it reaches nothing new. -/
theorem reaches (walked : Heap.Instruments o h h') {x u : Value} (reach : h'.Reaches x u) :
    h.Reaches x u := by
  induction reach with
  | refl x => exact .refl x
  | step hr hc mem _ ih =>
    obtain ⟨cell, hc₀, step⟩ := walked.cell_back hc
    exact .step hr hc₀ (step.values ▸ mem) ih

theorem instrumentable (walked : Heap.Instruments o h h') {x : Value} (hx : h.Instrumentable x) :
    h'.Instrumentable x := by
  cases x with
  | object r =>
    obtain ⟨c, hc, props⟩ := hx
    obtain ⟨cell', hc', step⟩ := walked.cell_forth ((object?_eq_some h).1 hc)
    cases step with
    | object fresh same _ =>
      refine ⟨_, (object?_eq_some h').2 hc', fun p mem => ?_⟩
      rw [same] at mem
      obtain ⟨q, held, rfl⟩ := List.mem_map.1 mem
      exact (props q held).intercept fresh
  | array r =>
    obtain ⟨c, hc⟩ := hx
    obtain ⟨cell', hc', step⟩ := walked.cell_forth ((array?_eq_some h).1 hc)
    cases step with
    | array _ _ => exact ⟨_, (array?_eq_some h').2 hc'⟩
  | _ => trivial

theorem clean (walked : Heap.Instruments o h h') {x : Value} (clean : h.Clean o x) :
    h'.Clean o x := fun u reach =>
  (clean u (walked.reaches reach)).imp walked.boundTo walked.instrumentable

theorem closed (walked : Heap.Instruments o h h') {cell : Cell} (closed : cell.Closed h o) :
    cell.Closed h' o :=
  ⟨closed.observed, fun x mem => walked.boundTo (closed.bound x mem)⟩

end Heap.Instruments

/-- Claiming an object for `o` instruments the heap. -/
theorem Heap.Instruments.setObject_claim {o : Nat} (h : Heap ρ) {r : Nat} {c : ObjectCell}
    (hc : h.object? r = some c) (path : String) :
    Heap.Instruments o h (h.setObject r (c.claim o path)) := by
  have bind : Heap.Instruments o h _ := Heap.Instruments.setObject_bind h hc path
  have intercept : Heap.Instruments o _ _ := Heap.Instruments.setObject_intercept _
    (h.object?_setObject_self { c with binding := some ⟨o, path⟩ } hc) (c.binding.all (·.observer != o))
  rw [Heap.setObject_setObject] at intercept
  exact bind.trans intercept

/-! ## Reading bound values -/

theorem Binding.observer_of_covers {b : Binding} {o : Nat} {path : String}
    (covered : b.covers o path = true) : b.observer = o := by
  simp only [Binding.covers, Bool.and_eq_true, beq_iff_eq] at covered
  exact covered.1

theorem Heap.boundTo_of_binding? {h : Heap ρ} {o r : Nat} {v : Value} {path : String}
    (hv : v.ref? = some r) (hb : h.binding? r = some ⟨o, path⟩) : h.BoundTo o v := by
  intro r' hr'
  rw [hv] at hr'
  cases hr'
  exact ⟨path, hb⟩

theorem Property.value?_of_observedEntry? {p : Property} {x : String × Value}
    (hx : p.observedEntry? = some x) : p.slot.value? = some x.2 := by
  rcases p with ⟨key, slot, enumerable⟩
  cases slot with
  | observed y =>
    simp only [Property.observedEntry?, Option.some.injEq] at hx
    subst hx
    rfl
  | plain y => cases hx
  | proxy src => cases hx

/-- The observed entries of an object are among its values. -/
theorem ObjectCell.mem_values_of_entry {c : ObjectCell} {x : String × Value}
    (mem : x ∈ c.properties.filterMap Property.observedEntry?) : x.2 ∈ Cell.values (.object c) := by
  obtain ⟨p, held, hx⟩ := List.mem_filterMap.1 mem
  exact List.mem_filterMap.2 ⟨p, held, Property.value?_of_observedEntry? hx⟩

/-- Every value of an object whose properties are all observed is an observed entry. -/
theorem ObjectCell.entry_of_mem_values {c : ObjectCell} (observed : Cell.Observed (.object c))
    {y : Value} (mem : y ∈ Cell.values (.object c)) :
    ∃ x ∈ c.properties.filterMap Property.observedEntry?, x.2 = y := by
  obtain ⟨p, held, hy⟩ := List.mem_filterMap.1 mem
  obtain ⟨z, hz⟩ := observed p held
  rw [hz] at hy
  cases hy
  exact ⟨(p.key, y), List.mem_filterMap.2 ⟨p, held, by simp [Property.observedEntry?, hz]⟩, rfl⟩

/-! ## The walk -/

/-- What holds at every step of a walk to `o` that has visited `seen`: every binding is one to
`o`; every container bound to `o` is closed but the claimed ones whose values are still being
walked (`pending`); and the containers visited are bound to `o`, each listed once. -/
structure Heap.Walking (h : Heap ρ) (o : Nat) (pending seen : List Nat) : Prop where
  only : h.OnlyTo o
  closed : h.ClosedExcept o pending
  pending_seen : pending ⊆ seen
  seen_bound : ∀ r ∈ seen, ∃ path, h.binding? r = some ⟨o, path⟩
  nodup : seen.Nodup

namespace Heap.Walking

variable {h : Heap ρ} {o r : Nat} {pending seen : List Nat}

/-- A walk visits no more containers than the heap has: this is what bounds its depth. -/
theorem length_le (walking : h.Walking o pending seen) : seen.length ≤ h.cells.size := by
  have sub : seen ⊆ List.range h.cells.size := fun r mem =>
    List.mem_range.2 (lt_of_binding? (walking.seen_bound r mem).choose_spec)
  simpa using (List.Nodup.subperm walking.nodup sub).length_le

theorem boundTo_of_mem (walking : h.Walking o pending seen) {v : Value} (hv : v.ref? = some r)
    (visited : r ∈ seen) : h.BoundTo o v :=
  let ⟨_, hb⟩ := walking.seen_bound r visited
  boundTo_of_binding? hv hb

/-- Visiting a container bound to `o` that the walk leaves alone. -/
theorem visit (walking : h.Walking o pending seen) (fresh : r ∉ seen) {path : String}
    (hb : h.binding? r = some ⟨o, path⟩) : h.Walking o pending (r :: seen) where
  only := walking.only
  closed := walking.closed
  pending_seen := List.Subset.trans walking.pending_seen (List.subset_cons_self r seen)
  seen_bound r' mem := by
    rcases List.mem_cons.1 mem with rfl | mem
    · exact ⟨path, hb⟩
    · exact walking.seen_bound r' mem
  nodup := List.nodup_cons.2 ⟨fresh, walking.nodup⟩

/-- Claiming a container: it is bound to `o` and pending, and no other container changes. -/
theorem claim {h' : Heap ρ} (walking : h.Walking o pending seen) (fresh : r ∉ seen)
    (walked : Heap.Instruments o h h') (others : ∀ r', r' ≠ r → h'.cells[r']? = h.cells[r']?)
    {path : String} (hb : h'.binding? r = some ⟨o, path⟩) :
    h'.Walking o (r :: pending) (r :: seen) where
  only := walked.onlyTo walking.only
  closed r' cell path' hc bound waiting := by
    have other : r' ≠ r := fun same => waiting (same ▸ List.mem_cons_self ..)
    rw [others r' other] at hc
    exact walked.closed (walking.closed r' cell path' hc bound fun mem => waiting (.tail r mem))
  pending_seen := List.cons_subset_cons r walking.pending_seen
  seen_bound r' mem := by
    rcases List.mem_cons.1 mem with rfl | mem
    · exact ⟨path, hb⟩
    · obtain ⟨_, hb'⟩ := walking.seen_bound r' mem
      exact walked.bound hb'
  nodup := List.nodup_cons.2 ⟨fresh, walking.nodup⟩

/-- Once the values of a claimed container are walked, it is closed and no longer pending. -/
theorem close (walking : h.Walking o (r :: pending) seen) {cell : Cell}
    (hc : h.cells[r]? = some cell) (closed : cell.Closed h o) : h.Walking o pending seen where
  only := walking.only
  closed r' cell' path hc' bound waiting := by
    by_cases same : r' = r
    · subst same
      rw [hc] at hc'
      cases hc'
      exact closed
    · exact walking.closed r' cell' path hc' bound fun mem =>
        (List.mem_cons.1 mem).elim same waiting
  pending_seen := List.Subset.trans (List.subset_cons_self r pending) walking.pending_seen
  seen_bound := walking.seen_bound
  nodup := walking.nodup

end Heap.Walking

/-- The object a walk claims has every property observed: a fresh binding intercepts all of
them, and an object bound to `o` before was closed. -/
theorem ObjectCell.claim_observed {h : Heap ρ} {o r : Nat} {pending seen : List Nat}
    {c : ObjectCell} (walking : h.Walking o pending seen) (fresh : r ∉ seen)
    (hc : h.object? r = some c) (clean : h.Clean o (.object r)) (path : String) :
    Cell.Observed (.object (c.claim o path)) := by
  intro p mem
  simp only [ObjectCell.claim, ObjectCell.intercept] at mem
  obtain ⟨q, held, rfl⟩ := List.mem_map.1 mem
  cases hb : c.binding with
  | none =>
    -- not bound before, so not bound to `o`: the object is one a walk can close
    rcases clean _ (.refl _) with bound | ⟨c', hc', props⟩
    · obtain ⟨_, hb'⟩ := bound r rfl
      rw [h.binding?_of_object? hc, hb] at hb'
      cases hb'
    · rw [hc] at hc'
      cases hc'
      exact (props q held).observed
  | some b =>
    -- bound to `o` before and not pending, so closed already
    obtain ⟨o', bpath⟩ := b
    have owner : o' = o := walking.only r _ (by rw [h.binding?_of_object? hc, hb])
    subst owner
    have closed := walking.closed r (.object c) bpath ((Heap.object?_eq_some h).1 hc) hb
      fun mem => fresh (walking.pending_seen mem)
    simp only [Option.all_some, bne_self_eq_false, Property.intercept_false, id]
    exact closed.observed q held

/-- The walks of the values of a claimed container, one after the other. Each keeps the walk's
invariant and binds its value; the container itself, visited, stays as claimed; so at the end
it is closed and no longer pending. -/
theorem walk_claimed {β : Type} {o n r : Nat} {cell : Cell} {pending seen seen' : List Nat}
    {w₁ w' : World ρ σ} (visit : β → String) (val : β → Value) (xs : List β)
    (walk : ∀ x ∈ xs, ∀ {acc acc' : List Nat} {w₂ w₃ : World ρ σ},
      (observeAt o n (val x) (visit x) acc : StoreM ρ σ (List Nat)).run w₂ = .ok (acc', w₃) →
      w₂.heap.Walking o (r :: pending) acc → w₂.heap.Clean o (val x) →
      w₂.heap.cells.size < n + acc.length →
      w₃.heap.Walking o (r :: pending) acc' ∧ w₃.heap.BoundTo o (val x))
    (start : w₁.heap.Walking o (r :: pending) (r :: seen)) (hc : w₁.heap.cells[r]? = some cell)
    (observed : cell.Observed) (covers : ∀ y ∈ cell.values, ∃ x ∈ xs, val x = y)
    (clean : ∀ x ∈ xs, w₁.heap.Clean o (val x)) (fuel : w₁.heap.cells.size < n + 1 + seen.length)
    (fold : (xs.foldlM (fun acc x => observeAt o n (val x) (visit x) acc) (r :: seen)).run w₁ =
      .ok (seen', w')) :
    w'.heap.Walking o pending seen' ∧ w'.heap.cells[r]? = some cell := by
  -- the invariant of the fold: the walk's invariant, the visited list grown from `r :: seen`,
  -- the heap instrumented from `w₁`, and every value walked so far bound
  obtain ⟨walking, -, walked, bound⟩ := foldlM_induct
    (fun pre acc (w₂ : World ρ σ) => w₂.heap.Walking o (r :: pending) acc ∧ r :: seen <:+ acc ∧
      Heap.Instruments o w₁.heap w₂.heap ∧ ∀ x ∈ pre, w₂.heap.BoundTo o (val x)) xs
    (fun pre x acc w₂ acc' w₃ below ⟨walking, grown, walked, bound⟩ step => by
      have mem : x ∈ xs := below.subset (by simp)
      have keeps : Heap.Instruments o w₂.heap w₃.heap := observeAt_keeps o n (val x) (visit x) acc step
      have longer := grown.length_le
      have size := walked.size
      simp only [List.length_cons] at longer
      obtain ⟨walking', bound'⟩ := walk x mem step walking (walked.clean (clean x mem)) (by omega)
      refine ⟨walking', grown.trans (observeAt_seen_suffix step), walked.trans keeps, ?_⟩
      intro y held
      rcases List.mem_append.1 held with before | now
      · exact keeps.boundTo (bound y before)
      · rw [List.mem_singleton.1 now]
        exact bound')
    ⟨start, List.suffix_refl _, Heap.Instruments.refl _, fun _ held => by cases held⟩ fold
  -- the walks below never revisit the claimed container
  have same := foldWalks_frame val visit xs (List.mem_cons_self ..) fold
  rw [hc] at same
  refine ⟨walking.close same ⟨observed, fun y held => ?_⟩, same⟩
  obtain ⟨x, mem, rfl⟩ := covers y held
  exact bound x mem

/-- A container whose binding covers a walk's path is bound to the walk's observer. -/
theorem Heap.bound_of_covers {h : Heap ρ} {o r : Nat} {b : Binding} {path : String}
    (hb : h.binding? r = some b) (covered : b.covers o path = true) :
    h.binding? r = some ⟨o, b.path⟩ := by
  rw [hb, ← Binding.observer_of_covers covered]

/-- Where a walk stops at an object handle, on a clean value, without claiming anything (no
object there, or one whose binding covers the path), the container is bound to `o` already. -/
theorem Heap.bound_of_object_stop {h : Heap ρ} {o r : Nat} {path : String}
    (clean : h.Clean o (.object r))
    (stop : h.object? r = none ∨
      ∃ c b, h.object? r = some c ∧ c.binding = some b ∧ b.covers o path = true) :
    ∃ bpath, h.binding? r = some ⟨o, bpath⟩ := by
  rcases stop with none | ⟨c, b, hc, hb, covered⟩
  · rcases clean _ (.refl _) with bound | ⟨c, hc, -⟩
    · exact bound r rfl
    · rw [none] at hc
      cases hc
  · exact ⟨_, Heap.bound_of_covers (by rw [h.binding?_of_object? hc, hb]) covered⟩

/-- Where a walk stops at an array handle, on a clean value, without claiming anything, the
container is bound to `o` already. -/
theorem Heap.bound_of_array_stop {h : Heap ρ} {o r : Nat} {path : String}
    (clean : h.Clean o (.array r))
    (stop : h.array? r = none ∨
      ∃ c b, h.array? r = some c ∧ c.binding = some b ∧ b.covers o path = true) :
    ∃ bpath, h.binding? r = some ⟨o, bpath⟩ := by
  rcases stop with none | ⟨c, b, hc, hb, covered⟩
  · rcases clean _ (.refl _) with bound | ⟨c, hc⟩
    · exact bound r rfl
    · rw [none] at hc
      cases hc
  · exact ⟨_, Heap.bound_of_covers (by rw [h.binding?_of_array? hc, hb]) covered⟩

/-- Claiming an object keeps its values. -/
theorem ObjectCell.values_claim (c : ObjectCell) (o : Nat) (path : String) :
    Cell.values (.object (c.claim o path)) = Cell.values (.object c) :=
  (Cell.Instruments.object (c.binding.all (·.observer != o)) rfl (.inr ⟨path, rfl⟩) :
    Cell.Instruments o (.object c) (.object (c.claim o path))).values

/-- A walk to `o` from a clean value keeps the walk's invariant and leaves the value bound to
`o`. The fuel suffices: each level of the walk visits one more container, and there are no
more containers than cells. -/
theorem observeAt_closes {o : Nat} :
    ∀ {n : Nat} {v : Value} {path : String} {pending seen seen' : List Nat} {w w' : World ρ σ},
      (observeAt o n v path seen : StoreM ρ σ (List Nat)).run w = .ok (seen', w') →
      w.heap.Walking o pending seen → w.heap.Clean o v → w.heap.cells.size < n + seen.length →
      w'.heap.Walking o pending seen' ∧ w'.heap.BoundTo o v
  | 0, _, _, _, _, _, _, _, _, walking, _, fuel => by
    have := walking.length_le
    omega
  | n + 1, .object r, path, pending, seen, seen', w, w', run, walking, clean, fuel => by
    rcases observeAt_object_cases run with ⟨visited, rfl, rfl⟩ | ⟨fresh, rfl, rfl, stop⟩ |
      ⟨fresh, c, hc, -, fold⟩
    · exact ⟨walking, walking.boundTo_of_mem rfl visited⟩
    · obtain ⟨bpath, hb⟩ := Heap.bound_of_object_stop clean stop
      exact ⟨walking.visit fresh hb, Heap.boundTo_of_binding? rfl hb⟩
    · -- the object is claimed, then its observed properties are walked
      have claimed : Heap.Instruments o w.heap _ := Heap.Instruments.setObject_claim w.heap hc path
      have hc₁ := w.heap.setObject_cell_self (c.claim o path) (w.heap.lt_of_object? hc)
      have hb₁ : (w.heap.setObject r (c.claim o path)).binding? r = some ⟨o, path⟩ := by
        rw [Heap.binding?_eq, hc₁]
        rfl
      have observed := ObjectCell.claim_observed walking fresh hc clean path
      obtain ⟨walking', hc'⟩ := walk_claimed (fun x => joinPath path x.1) Prod.snd _
        (fun _ _ => observeAt_closes)
        (walking.claim fresh claimed (fun _ other => w.heap.setObject_cell_ne _ other) hb₁) hc₁
        observed (fun _ held => ObjectCell.entry_of_mem_values observed held)
        (fun x mem => claimed.clean (clean.child rfl ((Heap.object?_eq_some _).1 hc)
          (c.values_claim o path ▸ ObjectCell.mem_values_of_entry mem)))
        (claimed.size ▸ fuel) fold
      have hb' : w'.heap.binding? r = some ⟨o, path⟩ := by
        rw [Heap.binding?_eq, hc']
        rfl
      exact ⟨walking', Heap.boundTo_of_binding? rfl hb'⟩
  | n + 1, .array r, path, pending, seen, seen', w, w', run, walking, clean, fuel => by
    rcases observeAt_array_cases run with ⟨visited, rfl, rfl⟩ | ⟨fresh, rfl, rfl, stop⟩ |
      ⟨fresh, c, hc, -, fold⟩
    · exact ⟨walking, walking.boundTo_of_mem rfl visited⟩
    · obtain ⟨bpath, hb⟩ := Heap.bound_of_array_stop clean stop
      exact ⟨walking.visit fresh hb, Heap.boundTo_of_binding? rfl hb⟩
    · -- the array is bound, then its items are walked
      have claimed : Heap.Instruments o w.heap _ := Heap.Instruments.setArray_bind w.heap hc path
      have hc₁ := w.heap.setArray_cell_self { c with binding := some ⟨o, path⟩ } (w.heap.lt_of_array? hc)
      have hb₁ : (w.heap.setArray r { c with binding := some ⟨o, path⟩ }).binding? r =
          some ⟨o, path⟩ := by
        rw [Heap.binding?_eq, hc₁]
        rfl
      obtain ⟨walking', hc'⟩ := walk_claimed (fun x => joinPath path (toString x.2)) Prod.fst _
        (fun _ _ => observeAt_closes)
        (walking.claim fresh claimed (fun _ other => w.heap.setArray_cell_ne _ other) hb₁) hc₁
        (show Cell.Observed (.array { c with binding := some ⟨o, path⟩ }) from trivial)
        (fun y held => List.mem_map.1 ((List.zipIdx_map_fst 0 c.items).symm ▸ held))
        (fun x mem => claimed.clean (clean.child rfl ((Heap.array?_eq_some _).1 hc)
          (List.fst_mem_of_mem_zipIdx mem)))
        (claimed.size ▸ fuel) fold
      have hb' : w'.heap.binding? r = some ⟨o, path⟩ := by
        rw [Heap.binding?_eq, hc']
        rfl
      exact ⟨walking', Heap.boundTo_of_binding? rfl hb'⟩
  | n + 1, .undefined, _, _, _, _, _, _, run, walking, _, _
  | n + 1, .null, _, _, _, _, _, _, run, walking, _, _
  | n + 1, .bool _, _, _, _, _, _, _, run, walking, _, _
  | n + 1, .number _, _, _, _, _, _, _, run, walking, _, _
  | n + 1, .string _, _, _, _, _, _, _, run, walking, _, _ => by
    obtain ⟨rfl, rfl⟩ := observeAt_run_stop (.inr rfl) run
    exact ⟨walking, fun _ scalar => by cases scalar⟩

end ReactiveView.Store
