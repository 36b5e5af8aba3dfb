import ReactiveView.Proofs.Store.Walk
import ReactiveView.Store.Items
import ReactiveView.Store.Object
/-!
# What one write does

The operations that change observed data, each opened once into the steps its successful runs
take: which walk it makes, which cell it writes and what it reports. The modules that prove
invariants of writes start from these lemmas and do not unfold the operations again.

* A write to an observed property observes the new value below the property's path
  (`WalksBelow`), reads the object again, writes the slot if the object still has the key, and
  reports the write unless the old value is the same as the new one (`setObserved_cases`).
* Adding and deleting a key report at most once, at the end (`addProperty_cases`,
  `removeProperty_cases`).
* An array mutator writes the new items, and a bound array then binds its items afresh and
  reports its length (`mutate_cases`). Every mutator is one `mutate`, after reads that change
  nothing and, for `splice`, before allocating the array of removed items (`callArray_cases`).

`Mutation` lists the operations a program applies to observed data.
-/
namespace ReactiveView.Store

set_option autoImplicit false

variable {ρ σ : Type}

/-! ## Reading, allocating and reporting -/

@[simp] theorem run_objectAt (r : Nat) (w : World ρ σ) :
    (objectAt r : StoreM ρ σ ObjectCell).run w = .ok ((w.heap.object? r).getD ⟨[], none⟩, w) := rfl

@[simp] theorem run_arrayAt (r : Nat) (w : World ρ σ) :
    (arrayAt r : StoreM ρ σ ArrayCell).run w = .ok ((w.heap.array? r).getD ⟨[], none⟩, w) := rfl

@[simp] theorem run_observerAt (o : Nat) (w : World ρ σ) :
    (observerAt o : StoreM ρ σ (Observer ρ)).run w =
      .ok ((w.heap.observer? o).getD Observer.empty, w) := rfl

@[simp] theorem run_alloc (c : Cell) (w : World ρ σ) :
    (alloc c : StoreM ρ σ Nat).run w =
      .ok (w.heap.cells.size, { w with heap := { w.heap with cells := w.heap.cells.push c } }) := rfl

/-- The heap after observer `o` records the change `c`. -/
def Heap.record (h : Heap ρ) (o : Nat) (c : Change) : Heap ρ :=
  h.modifyObserver o fun obs => { obs with changes := obs.changes ++ [c] }

@[simp] theorem Heap.cells_record (h : Heap ρ) (o : Nat) (c : Change) :
    (h.record o c).cells = h.cells := rfl

/-- Recording a change leaves every observer's subscribers as they were. -/
@[simp] theorem Heap.subscribers_record (h : Heap ρ) (o o' : Nat) (c : Change) :
    (((h.record o c).observer? o').getD Observer.empty).subscribers =
      ((h.observer? o').getD Observer.empty).subscribers := by
  simp only [record, observer?_modifyObserver]
  split
  · cases h.observer? o' <;> rfl
  · rfl

/-- A report records the change, then runs the reactions of the subscribers the observer has. -/
theorem notify_run_ok {react : Handler ρ σ} {fuel o : Nat} {c : Change} {w w' : World ρ σ}
    (run : (notify react fuel o c).run w = .ok ((), w')) :
    ∃ n, fuel = n + 1 ∧
      (((w.heap.observer? o).getD Observer.empty).subscribers.forM fun s => react n s.reaction c).run
        { w with heap := w.heap.record o c } = .ok ((), w') := by
  cases fuel with
  | zero =>
    simp only [notify, run_throw] at run
    cases run
  | succ n =>
    refine ⟨n, rfl, ?_⟩
    simp only [notify] at run
    obtain ⟨_, w₁, write, run⟩ := run_bind_ok.1 run
    cases write
    obtain ⟨obs, w₂, read, run⟩ := run_bind_ok.1 run
    simp only [run_observerAt, Except.ok.injEq, Prod.mk.injEq] at read
    obtain ⟨rfl, rfl⟩ := read
    rw [← w.heap.subscribers_record o o c]
    exact run

/-! ## Writing an observed property -/

/-- The value a key holds in the object's own slot: `undefined` for a proxy or an absent key. -/
def ObjectCell.stored (c : ObjectCell) (key : String) : Value :=
  match c.find? key with
  | some ⟨_, .plain old, _⟩ => old
  | some ⟨_, .observed old, _⟩ => old
  | _ => .undefined

/-- The walk a write under `key` makes for an object with this binding: a bound object observes
the written value below the key's path; an unbound one does nothing. -/
def WalksBelow (binding : Option Binding) (key : String) (v : Value) (w w₁ : World ρ σ) : Prop :=
  match binding with
  | some b => ∃ seen, (observeAt b.observer w.heap.walkFuel v (joinPath b.path key) [] :
      StoreM ρ σ (List Nat)).run w = .ok (seen, w₁)
  | none => w₁ = w

/-- The walk of a write leaves the observers alone. -/
theorem WalksBelow.observers {binding : Option Binding} {key : String} {v : Value}
    {w w₁ : World ρ σ} (walk : WalksBelow binding key v w w₁) :
    w₁.heap.observers = w.heap.observers := by
  cases binding with
  | none => rw [walk]
  | some b =>
    obtain ⟨seen, run⟩ := walk
    exact (observeAt_keeps b.observer _ v _ [] run).observers

/-- The walk of a write to an object leaves the object itself alone: its binding covers the
path of every key below it. -/
theorem WalksBelow.object {r : Nat} {c : ObjectCell} {key : String} {v : Value}
    {w w₁ : World ρ σ} (hc : w.heap.object? r = some c) (walk : WalksBelow c.binding key v w w₁) :
    w₁.heap.object? r = some c := by
  cases hb : c.binding with
  | none =>
    rw [hb] at walk
    rw [show w₁ = w from walk, hc]
  | some b =>
    rw [hb] at walk
    obtain ⟨seen, run⟩ := walk
    have covered : b.covers b.observer (joinPath b.path key) = true :=
      Binding.covers_joinPath key (by simp [Binding.covers])
    have settled : w.heap.Settled b.observer (joinPath b.path key) [] r :=
      .inr ⟨b, (w.heap.binding?_of_object? hc).trans hb, covered⟩
    rw [(Heap.accessors_congr w.heap (observeAt_frame run settled)).1, hc]

/-- The world after an observed write stores the value in the object's own slot, when the object
still has the key. -/
def World.writeObserved (w : World ρ σ) (r : Nat) (key : String) (v : Value) : World ρ σ :=
  let c := (w.heap.object? r).getD ⟨[], none⟩
  if c.hasOwn key then { w with heap := w.heap.setObject r (c.setSlot key (.observed v)) } else w

@[simp] theorem World.observers_writeObserved (w : World ρ σ) (r : Nat) (key : String) (v : Value) :
    (w.writeObserved r key v).heap.observers = w.heap.observers := by
  simp only [writeObserved]
  split <;> rfl

theorem setObserved_cases {react : Handler ρ σ} {fuel r : Nat} {key : String} {v : Value}
    {binding : Option Binding} {w w' : World ρ σ}
    (run : (setObserved react fuel r key v binding).run w = .ok ((), w')) :
    ∃ w₁, WalksBelow binding key v w w₁ ∧
      let old := ((w₁.heap.object? r).getD ⟨[], none⟩).stored key
      ((old.same v = true ∨ binding = none) ∧ w' = w₁.writeObserved r key v) ∨
      (old.same v = false ∧ ∃ b, binding = some b ∧
        (notify react fuel b.observer ⟨.set, joinPath b.path key, v⟩).run
          (w₁.writeObserved r key v) = .ok ((), w')) := by
  cases binding with
  | none =>
    refine ⟨w, rfl, ?_⟩
    simp only [setObserved] at run
    obtain ⟨c, w₀, read, rest⟩ := run_bind_ok.1 run
    simp only [run_objectAt, Except.ok.injEq, Prod.mk.injEq] at read
    obtain ⟨hc, rfl⟩ := read
    -- an unbound object reports nothing, so both arms of the last test are `pure ()`
    refine .inl ⟨.inr rfl, ?_⟩
    split at rest
    · rename_i own
      obtain ⟨_, w₂, write, rest⟩ := run_bind_ok.1 rest
      cases write
      rw [ite_self] at rest
      cases rest
      simp [World.writeObserved, hc, own]
    · rename_i own
      rw [ite_self] at rest
      cases rest
      simp [World.writeObserved, hc, own]
  | some b =>
    simp only [setObserved] at run
    obtain ⟨h, w₀, read, run⟩ := run_bind_ok.1 run
    cases read
    obtain ⟨seen, w₁, walk, rest⟩ := run_bind_ok.1 run
    refine ⟨w₁, ⟨seen, walk⟩, ?_⟩
    obtain ⟨c, w₀, read, rest⟩ := run_bind_ok.1 rest
    simp only [run_objectAt, Except.ok.injEq, Prod.mk.injEq] at read
    obtain ⟨hc, rfl⟩ := read
    simp only [hc]
    -- the old value is read inline in the definition; `stored` is the same match
    have tail : ∀ w₂, (if (c.stored key).same v = true then pure () else
        notify react fuel b.observer ⟨.set, joinPath b.path key, v⟩ : StoreM ρ σ Unit).run w₂ =
          .ok ((), w') →
        (((c.stored key).same v = true ∨ some b = none) ∧ w' = w₂) ∨
        ((c.stored key).same v = false ∧ ∃ b', some b = some b' ∧
          (notify react fuel b'.observer ⟨.set, joinPath b'.path key, v⟩).run w₂ = .ok ((), w')) := by
      intro w₂ run
      by_cases same : (c.stored key).same v = true
      · rw [if_pos same] at run
        cases run
        exact .inl ⟨.inl same, rfl⟩
      · rw [if_neg same] at run
        exact .inr ⟨by simpa using same, b, rfl, run⟩
    split at rest
    · rename_i own
      obtain ⟨_, w₂, write, rest⟩ := run_bind_ok.1 rest
      cases write
      simpa [World.writeObserved, hc, own] using tail _ rest
    · rename_i own
      simpa [World.writeObserved, hc, own] using tail _ rest

/-! ## Adding and deleting a key -/

theorem addProperty_cases {react : Handler ρ σ} {fuel r : Nat} {key : String} {v : Value}
    {enumerable added : Bool} {w w' : World ρ σ}
    (run : (addProperty react fuel r key v enumerable).run w = .ok (added, w')) :
    let c := (w.heap.object? r).getD ⟨[], none⟩
    (c.hasOwn key = true ∧ added = false ∧ w' = w) ∨
    (c.hasOwn key = false ∧ added = true ∧ ∃ w₁, WalksBelow c.binding key v w w₁ ∧
      let c₁ := (w₁.heap.object? r).getD ⟨[], none⟩
      let w₂ : World ρ σ := { w₁ with heap := w₁.heap.setObject r (c₁.put key (.observed v) enumerable) }
      match c.binding with
      | some b => (notify react fuel b.observer ⟨.set, joinPath b.path key, v⟩).run w₂ = .ok ((), w')
      | none => w' = w₂) := by
  simp only [addProperty] at run
  obtain ⟨c, w₀, read, run⟩ := run_bind_ok.1 run
  simp only [run_objectAt, Except.ok.injEq, Prod.mk.injEq] at read
  obtain ⟨hc, rfl⟩ := read
  simp only [hc]
  split at run
  · rename_i own
    cases run
    exact .inl ⟨own, rfl, rfl⟩
  · rename_i own
    cases hb : c.binding with
    | none =>
      simp only [hb] at run
      obtain ⟨c₁, w₁, read, run⟩ := run_bind_ok.1 run
      simp only [run_objectAt, Except.ok.injEq, Prod.mk.injEq] at read
      obtain ⟨rfl, rfl⟩ := read
      obtain ⟨_, w₂, write, run⟩ := run_bind_ok.1 run
      cases write
      cases run
      exact .inr ⟨by simpa using own, rfl, w, rfl, rfl⟩
    | some b =>
      simp only [hb] at run
      obtain ⟨h, w₀, read, run⟩ := run_bind_ok.1 run
      cases read
      obtain ⟨seen, w₁, walk, run⟩ := run_bind_ok.1 run
      obtain ⟨c₁, w₀, read, run⟩ := run_bind_ok.1 run
      simp only [run_objectAt, Except.ok.injEq, Prod.mk.injEq] at read
      obtain ⟨rfl, rfl⟩ := read
      obtain ⟨_, w₂, write, run⟩ := run_bind_ok.1 run
      cases write
      obtain ⟨_, w₃, report, run⟩ := run_bind_ok.1 run
      cases run
      exact .inr ⟨by simpa using own, rfl, w₁, ⟨seen, walk⟩, report⟩

theorem removeProperty_cases {react : Handler ρ σ} {fuel r : Nat} {key : String}
    {removed : Bool} {w w' : World ρ σ}
    (run : (removeProperty react fuel r key).run w = .ok (removed, w')) :
    let c := (w.heap.object? r).getD ⟨[], none⟩
    (c.hasOwn key = false ∧ removed = false ∧ w' = w) ∨
    (c.hasOwn key = true ∧ removed = true ∧
      let w₁ : World ρ σ := { w with heap := w.heap.setObject r (c.erase key) }
      match c.binding with
      | some b => (notify react fuel b.observer ⟨.set, joinPath b.path key, .undefined⟩).run w₁ =
          .ok ((), w')
      | none => w' = w₁) := by
  simp only [removeProperty] at run
  obtain ⟨c, w₀, read, run⟩ := run_bind_ok.1 run
  simp only [run_objectAt, Except.ok.injEq, Prod.mk.injEq] at read
  obtain ⟨hc, rfl⟩ := read
  simp only [hc]
  split at run
  · rename_i absent
    cases run
    exact .inl ⟨by simpa using absent, rfl, rfl⟩
  · rename_i own
    obtain ⟨_, w₁, write, run⟩ := run_bind_ok.1 run
    cases write
    refine .inr ⟨by simpa using own, ?_⟩
    cases hb : c.binding with
    | none =>
      simp only [hb] at run
      cases run
      exact ⟨rfl, rfl⟩
    | some b =>
      simp only [hb] at run
      obtain ⟨_, w₂, report, run⟩ := run_bind_ok.1 run
      cases run
      exact ⟨rfl, report⟩

/-! ## Array mutators -/

theorem mutate_cases {α : Type} {react : Handler ρ σ} {fuel r : Nat}
    {op : List Value → List Value × α} {a : α} {w w' : World ρ σ}
    (run : (mutate react fuel r op).run w = .ok (a, w')) :
    let c := (w.heap.array? r).getD ⟨[], none⟩
    let w₀ : World ρ σ := { w with heap := w.heap.setArray r { c with items := (op c.items).1 } }
    a = (op c.items).2 ∧
    match c.binding with
    | none => w' = w₀
    | some b => ∃ seen w₁,
        (observeElements b.observer r b.path [] : StoreM ρ σ (List Nat)).run w₀ = .ok (seen, w₁) ∧
        (notify react fuel b.observer
          ⟨.array, b.path, .number (Double.ofNat (w₁.heap.items r).length)⟩).run w₁ = .ok ((), w') := by
  simp only [mutate] at run
  obtain ⟨c, w₀, read, run⟩ := run_bind_ok.1 run
  simp only [run_arrayAt, Except.ok.injEq, Prod.mk.injEq] at read
  obtain ⟨hc, rfl⟩ := read
  simp only [hc]
  obtain ⟨_, w₀, write, run⟩ := run_bind_ok.1 run
  cases write
  cases hb : c.binding with
  | none =>
    simp only [hb] at run
    cases run
    exact ⟨rfl, rfl⟩
  | some b =>
    simp only [hb] at run
    obtain ⟨seen, w₁, walk, run⟩ := run_bind_ok.1 run
    obtain ⟨h, w₂, read, run⟩ := run_bind_ok.1 run
    cases read
    obtain ⟨_, w₃, report, run⟩ := run_bind_ok.1 run
    cases run
    exact ⟨rfl, seen, w₁, walk, report⟩

/-- Sorting only reads the heap, and gives items of the array. -/
theorem sortItems_run {r : Nat} {sorted : List Value} {w w' : World ρ σ}
    (run : (sortItems r : StoreM ρ σ (List Value)).run w = .ok (sorted, w')) :
    w' = w ∧ ∀ x ∈ sorted, x ∈ w.heap.items r := by
  simp only [sortItems] at run
  obtain ⟨h, w₀, read, run⟩ := run_bind_ok.1 run
  cases read
  split at run
  · obtain ⟨_, _, stop, -⟩ := run_bind_ok.1 run
    rw [run_throw] at stop
    cases stop
  · cases run
    refine ⟨rfl, fun x mem => ?_⟩
    -- sorting permutes the keyed items, and the key is dropped again
    simp only [List.mem_map, List.mem_mergeSort] at mem
    obtain ⟨_, ⟨y, mem, rfl⟩, rfl⟩ := mem
    exact mem

/-- Every mutator is one `mutate`, after reads that change nothing, whose new items are old items
or arguments; `splice` then allocates the array of the removed items. -/
theorem callArray_cases {react : Handler ρ σ} {fuel r : Nat} {m : ArrayMethod}
    {args : List Value} {result : Value} {w w' : World ρ σ}
    (run : (callArray react fuel r m args).run w = .ok (result, w')) :
    let old := (w.heap.array? r).getD ⟨[], none⟩
    ∃ (α : Type) (op : List Value → List Value × α) (a : α) (w₁ : World ρ σ),
      (∀ x ∈ (op old.items).1, x ∈ old.items ∨ x ∈ args) ∧
      (mutate react fuel r op).run w = .ok (a, w₁) ∧
      (w' = w₁ ∨ ∃ items,
        w' = { w₁ with heap := { w₁.heap with cells := w₁.heap.cells.push (.array ⟨items, none⟩) } }) := by
  -- every mutator keeps some of the old items and adds some of its arguments
  cases m with
  | push =>
    simp only [callArray] at run
    obtain ⟨n, w₁, mutation, run⟩ := run_bind_ok.1 run
    cases run
    exact ⟨_, _, n, _, fun x mem => List.mem_append.1 mem, mutation, .inl rfl⟩
  | unshift =>
    simp only [callArray] at run
    obtain ⟨n, w₁, mutation, run⟩ := run_bind_ok.1 run
    cases run
    exact ⟨_, _, n, _, fun x mem => (List.mem_append.1 mem).symm, mutation, .inl rfl⟩
  | pop =>
    simp only [callArray] at run
    refine ⟨_, _, result, w', fun x mem => ?_, run, .inl rfl⟩
    split at mem
    · exact .inl (List.dropLast_subset _ mem)
    · exact .inl mem
  | shift =>
    simp only [callArray] at run
    refine ⟨_, _, result, w', fun x mem => ?_, run, .inl rfl⟩
    split at mem
    next v rest front =>
      rw [front]
      exact .inl (List.mem_cons_of_mem v mem)
    next => cases mem
  | reverse =>
    simp only [callArray] at run
    exact ⟨_, _, result, w', fun x mem => .inl (List.mem_reverse.1 mem), run, .inl rfl⟩
  | splice =>
    simp only [callArray] at run
    obtain ⟨h, w₀, read, run⟩ := run_bind_ok.1 run
    cases read
    obtain ⟨removed, w₁, mutation, run⟩ := run_bind_ok.1 run
    obtain ⟨handle, w₂, allocation, run⟩ := run_bind_ok.1 run
    cases run
    cases allocation
    refine ⟨_, _, removed, _, fun x mem => ?_, mutation, .inr ⟨_, rfl⟩⟩
    simp only [spliceItems, List.mem_append] at mem
    rcases mem with (kept | added) | kept
    · exact .inl (List.mem_of_mem_take kept)
    · exact .inr (List.mem_of_mem_drop added)
    · exact .inl (List.mem_of_mem_drop kept)
  | sort =>
    simp only [callArray] at run
    obtain ⟨sorted, w₀, reading, rest⟩ := run_bind_ok.1 run
    obtain ⟨same, sorted_mem⟩ := sortItems_run reading
    subst same
    refine ⟨_, _, result, w', fun x mem => .inl ?_, rest, .inl rfl⟩
    have items := sorted_mem x mem
    simp only [Heap.items] at items
    cases hc : w₀.heap.array? r <;> simp_all

/-! ## Writing through proxy slots -/

/-- One step of a write: a proxy slot hands the write on to its object, an observed slot is
written by `setObserved`, a plain slot is overwritten and a new key becomes plain. -/
theorem setWithin_cases {react : Handler ρ σ} {fuel chain r : Nat} {key : String} {v : Value}
    {w w' : World ρ σ} (run : (setWithin react fuel chain r key v).run w = .ok ((), w')) :
    ∃ n, chain = n + 1 ∧
      let c := (w.heap.object? r).getD ⟨[], none⟩
      match c.find? key with
      | some ⟨_, .proxy src, _⟩ => (setWithin react fuel n src key v).run w = .ok ((), w')
      | some ⟨_, .observed _, _⟩ => (setObserved react fuel r key v c.binding).run w = .ok ((), w')
      | some ⟨_, .plain _, _⟩ => w' = { w with heap := w.heap.setObject r (c.setSlot key (.plain v)) }
      | none => w' = { w with heap := w.heap.setObject r (c.put key (.plain v) true) } := by
  cases chain with
  | zero =>
    simp only [setWithin, run_throw] at run
    cases run
  | succ n =>
    refine ⟨n, rfl, ?_⟩
    simp only [setWithin] at run
    obtain ⟨c, w₀, read, run⟩ := run_bind_ok.1 run
    simp only [run_objectAt, Except.ok.injEq, Prod.mk.injEq] at read
    obtain ⟨hc, rfl⟩ := read
    simp only [hc]
    cases hf : c.find? key with
    | none =>
      simp only [hf] at run
      cases run
      rfl
    | some p =>
      obtain ⟨k, slot, enumerable⟩ := p
      cases slot with
      | plain old =>
        simp only [hf] at run
        cases run
        rfl
      | observed old =>
        simp only [hf] at run
        exact run
      | proxy src =>
        simp only [hf] at run
        exact run

/-! ## Defining and forwarding -/

@[simp] theorem run_define (r : Nat) (key : String) (v : Value) (enumerable : Bool) (w : World ρ σ) :
    (define r key v enumerable : StoreM ρ σ Unit).run w =
      .ok ((), { w with heap :=
        w.heap.setObject r (((w.heap.object? r).getD ⟨[], none⟩).put key (.plain v) enumerable) }) :=
  rfl

theorem proxy_cases {r src : Nat} {key : String} {added : Bool} {w w' : World ρ σ}
    (run : (proxy r src key : StoreM ρ σ Bool).run w = .ok (added, w')) :
    let c := (w.heap.object? r).getD ⟨[], none⟩
    (c.hasOwn key = true ∧ added = false ∧ w' = w) ∨
    (c.hasOwn key = false ∧ added = true ∧
      w' = { w with heap := w.heap.setObject r (c.put key (.proxy src) true) }) := by
  simp only [proxy] at run
  obtain ⟨c, w₀, read, run⟩ := run_bind_ok.1 run
  simp only [run_objectAt, Except.ok.injEq, Prod.mk.injEq] at read
  obtain ⟨hc, rfl⟩ := read
  simp only [hc]
  split at run
  · rename_i own
    cases run
    exact .inl ⟨own, rfl, rfl⟩
  · rename_i own
    obtain ⟨_, w₁, write, run⟩ := run_bind_ok.1 run
    cases write
    cases run
    exact .inr ⟨by simpa using own, rfl, rfl⟩

/-! ## Mutations -/

/-- An operation a program applies to observed data. -/
inductive Mutation where
  /-- Write a property, following proxy slots. -/
  | set (r : Nat) (key : String) (v : Value)
  /-- Add an observed property that the object does not have. -/
  | add (r : Nat) (key : String) (v : Value) (enumerable : Bool)
  /-- Delete a property. -/
  | remove (r : Nat) (key : String)
  /-- Run an array mutator with its arguments. -/
  | call (r : Nat) (m : ArrayMethod) (args : List Value)
  /-- Define a plain property with the given flag. -/
  | define (r : Nat) (key : String) (v : Value) (enumerable : Bool)
  /-- Forward a key that the object does not have to another object. -/
  | proxy (r src : Nat) (key : String)
  /-- Bind a value and everything it contains to an observer. -/
  | observe (v : Value) (o : Nat)
  deriving DecidableEq, Repr

/-- Run a mutation, dropping what it gives back. -/
def Mutation.run (react : Handler ρ σ) (fuel : Nat) : Mutation → StoreM ρ σ Unit
  | .set r key v => setProperty react fuel r key v
  | .add r key v enumerable => (fun _ => ()) <$> addProperty react fuel r key v enumerable
  | .remove r key => (fun _ => ()) <$> removeProperty react fuel r key
  | .call r m args => (fun _ => ()) <$> callArray react fuel r m args
  | .define r key v enumerable => Store.define r key v enumerable
  | .proxy r src key => (fun _ => ()) <$> Store.proxy r src key
  | .observe v o => Store.observe v o

end ReactiveView.Store
