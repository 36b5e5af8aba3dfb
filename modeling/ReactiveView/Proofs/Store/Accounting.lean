import ReactiveView.Proofs.Store.Mutation
/-!
# Accounting for changes

Each observer keeps the changes reported to it, in order (`Heap.log`). When no observer has
subscribers (`Heap.Quiet`), a report only appends its change, and each mutation adds to an
observer's log exactly the changes it is documented to report:

* a write, followed through proxy slots to the object that owns the key, reports the key's path
  below that object and the new value, when the slot is observed, the object is bound to the
  observer and the old value is not the same as the new one;
* adding a key that the object does not have reports its path and value, and deleting a key
  that it has reports `undefined`, both when the object is bound to the observer;
* an array mutator on an array bound to the observer reports the array's path and its new
  length, whether or not anything changed;
* nothing else reports anything: writes to plain or absent keys, writes of the same value,
  defining, forwarding and observing.

`Mutation.report` computes these changes from the heaps before and after the mutation. Observing
the written value never reports, because walks leave the observers alone, and never moves the
writer's own binding, because that binding covers the written path (`WalksBelow.object`).
-/
namespace ReactiveView.Store

set_option autoImplicit false

variable {ρ σ : Type}

/-! ## Logs -/

/-- The changes reported to observer `o` so far. -/
def Heap.log (h : Heap ρ) (o : Nat) : List Change :=
  ((h.observer? o).getD Observer.empty).changes

/-- No observer has subscribers, so a report only records its change. -/
def Heap.Quiet (h : Heap ρ) : Prop :=
  ∀ obs ∈ h.observers, obs.subscribers = []

theorem run_changes (o : Nat) (w : World ρ σ) :
    (changes o : StoreM ρ σ (List Change)).run w = .ok (w.heap.log o, w) := rfl

namespace Heap

variable (h : Heap ρ)

theorem log_congr {h' : Heap ρ} (same : h'.observers = h.observers) (o : Nat) :
    h'.log o = h.log o := by
  simp [log, observer?, same]

@[simp] theorem log_setObject (r : Nat) (c : ObjectCell) (o : Nat) :
    (h.setObject r c).log o = h.log o := rfl

@[simp] theorem log_setArray (r : Nat) (c : ArrayCell) (o : Nat) :
    (h.setArray r c).log o = h.log o := rfl

@[simp] theorem items_record (o : Nat) (c : Change) (r : Nat) :
    (h.record o c).items r = h.items r := rfl

/-- Recording a change appends it to the log of its observer, and of no other. -/
theorem log_record {o : Nat} (ho : o < h.observers.size) (o' : Nat) (c : Change) :
    (h.record o' c).log o = h.log o ++ if o' = o then [c] else [] := by
  simp only [log, record, observer?_modifyObserver]
  by_cases same : o' = o
  · subst same
    simp [observer?, ho]
  · simp [same]

theorem Quiet.congr {h h' : Heap ρ} (same : h'.observers = h.observers) (quiet : h.Quiet) :
    h'.Quiet := by
  intro obs mem
  exact quiet obs (same ▸ mem)

theorem Quiet.subscribers {h : Heap ρ} (quiet : h.Quiet) (o : Nat) :
    ((h.observer? o).getD Observer.empty).subscribers = [] := by
  cases found : h.observer? o with
  | none => rfl
  | some obs => exact quiet obs (Array.mem_of_getElem? found)

end Heap

/-- Without subscribers, a report only records its change. -/
theorem notify_run_quiet {react : Handler ρ σ} {fuel o : Nat} {c : Change} {w w' : World ρ σ}
    (quiet : w.heap.Quiet) (run : (notify react fuel o c).run w = .ok ((), w')) :
    w' = { w with heap := w.heap.record o c } := by
  obtain ⟨n, -, run⟩ := notify_run_ok run
  rw [quiet.subscribers o] at run
  cases run
  rfl

/-! ## What each mutation reports -/

/-- What a container with binding `b` reports to observer `o` when `change` happens to it: the
change, when the container is bound to `o`, and nothing otherwise. -/
def reportTo (o : Nat) (change : Binding → Change) : Option Binding → List Change
  | some b => if b.observer = o then [change b] else []
  | none => []

/-- What writing `v` under `key` of the object `r` reports to `o`. The write follows proxy
slots, at most `chain` of them, to the object that owns the key; a write to its observed slot
reports the key's path below that object and the new value, unless the old value is the same.
Writes to plain or absent keys report nothing. -/
def Heap.setReport (h : Heap ρ) (o : Nat) : Nat → Nat → String → Value → List Change
  | 0, _, _, _ => []
  | chain + 1, r, key, v =>
    let c := (h.object? r).getD ⟨[], none⟩
    match c.find? key with
    | some ⟨_, .proxy src, _⟩ => h.setReport o chain src key v
    | some ⟨_, .observed old, _⟩ =>
      if old.same v then [] else reportTo o (fun b => ⟨.set, joinPath b.path key, v⟩) c.binding
    | _ => []

/-- The changes a mutation reports to `o`, read from the heap `h` before it and, for the new
length of an array, the heap `h'` after it. -/
def Mutation.report (o : Nat) (h h' : Heap ρ) : Mutation → List Change
  | .set r key v => h.setReport o h.walkFuel r key v
  | .add r key v _ =>
    let c := (h.object? r).getD ⟨[], none⟩
    if c.hasOwn key then [] else reportTo o (fun b => ⟨.set, joinPath b.path key, v⟩) c.binding
  | .remove r key =>
    let c := (h.object? r).getD ⟨[], none⟩
    if c.hasOwn key then reportTo o (fun b => ⟨.set, joinPath b.path key, .undefined⟩) c.binding
    else []
  | .call r _ _ =>
    reportTo o (fun b => ⟨.array, b.path, .number (Double.ofNat (h'.items r).length)⟩)
      ((h.array? r).getD ⟨[], none⟩).binding
  | .define .. | .proxy .. | .observe .. => []

/-! ## Logs after each mutation -/

section Logs

variable {react : Handler ρ σ} {fuel o : Nat} {w w' : World ρ σ}

/-- A report on a container's observer appends its change to the log of `o` exactly when the
container is bound to `o`. The report may run in a later world than `w₀`, as long as the
observers are the same. -/
theorem notify_log {w₀ : World ρ σ} (quiet : w₀.heap.Quiet) (ho : o < w₀.heap.observers.size)
    {b : Binding} (change : Binding → Change)
    (run : (notify react fuel b.observer (change b)).run w = .ok ((), w'))
    (same : w.heap.observers = w₀.heap.observers) :
    w'.heap.log o = w₀.heap.log o ++ reportTo o change (some b) := by
  have ho' : o < w.heap.observers.size := by
    rw [same]
    exact ho
  rw [notify_run_quiet (quiet.congr same) run, w.heap.log_record ho', Heap.log_congr _ same]
  rfl

theorem setObserved_log (quiet : w.heap.Quiet) (ho : o < w.heap.observers.size) {r : Nat}
    {key : String} {v : Value} {c : ObjectCell} (hc : w.heap.object? r = some c)
    (run : (setObserved react fuel r key v c.binding).run w = .ok ((), w')) :
    w'.heap.log o = w.heap.log o ++
      if (c.stored key).same v then []
      else reportTo o (fun b => ⟨.set, joinPath b.path key, v⟩) c.binding := by
  obtain ⟨w₁, walk, rest⟩ := setObserved_cases run
  have kept : (w₁.writeObserved r key v).heap.observers = w.heap.observers := by
    rw [World.observers_writeObserved, walk.observers]
  -- the walk leaves the written object alone, so the old value is read from `c`
  rw [walk.object hc, Option.getD_some] at rest
  rcases rest with ⟨silent, done⟩ | ⟨differ, b, hb, report⟩
  · rw [done, Heap.log_congr _ kept]
    rcases silent with same | unbound
    · simp [same]
    · simp [unbound, reportTo]
  · rw [notify_log quiet ho (fun b => ⟨.set, joinPath b.path key, v⟩) report kept, hb]
    simp [differ]

theorem Heap.object?_of_find? {h : Heap ρ} {r : Nat} {key : String} {p : Property}
    (found : ((h.object? r).getD ⟨[], none⟩).find? key = some p) :
    h.object? r = some ((h.object? r).getD ⟨[], none⟩) := by
  cases hc : h.object? r with
  | none => simp [hc, ObjectCell.find?] at found
  | some c => rfl

theorem ObjectCell.stored_of_find? {c : ObjectCell} {key k : String} {old : Value} {e : Bool}
    (found : c.find? key = some ⟨k, .observed old, e⟩) : c.stored key = old := by
  simp [stored, found]

theorem setWithin_log (quiet : w.heap.Quiet) (ho : o < w.heap.observers.size) {key : String}
    {v : Value} : ∀ {chain r : Nat}, (setWithin react fuel chain r key v).run w = .ok ((), w') →
      w'.heap.log o = w.heap.log o ++ w.heap.setReport o chain r key v
  | 0, _, run => by
    obtain ⟨n, impossible, -⟩ := setWithin_cases run
    cases impossible
  | chain + 1, r, run => by
    obtain ⟨n, same, step⟩ := setWithin_cases run
    cases same
    dsimp only at step
    simp only [Heap.setReport]
    split at step
    next src _ found =>
      simp only [found]
      exact setWithin_log quiet ho step
    next old _ found =>
      simp only [found]
      rw [setObserved_log quiet ho (Heap.object?_of_find? found) step,
        ObjectCell.stored_of_find? found]
    next old _ found =>
      simp only [found]
      rw [step]
      simp
    next found =>
      simp only [found]
      rw [step]
      simp

theorem addProperty_log (quiet : w.heap.Quiet) (ho : o < w.heap.observers.size) {r : Nat}
    {key : String} {v : Value} {enumerable added : Bool}
    (run : (addProperty react fuel r key v enumerable).run w = .ok (added, w')) :
    w'.heap.log o = w.heap.log o ++ (Mutation.add r key v enumerable).report o w.heap w'.heap := by
  simp only [Mutation.report]
  rcases addProperty_cases run with ⟨own, -, rfl⟩ | ⟨own, -, w₁, walk, rest⟩
  · simp [own]
  · have kept : w₁.heap.observers = w.heap.observers := walk.observers
    simp only [own, Bool.false_eq_true, if_false]
    dsimp only at rest
    split at rest
    next b hb =>
      rw [notify_log quiet ho (fun b => ⟨.set, joinPath b.path key, v⟩) rest kept, hb]
    next hb =>
      rw [rest, Heap.log_setObject, Heap.log_congr _ kept, hb]
      simp [reportTo]

theorem removeProperty_log (quiet : w.heap.Quiet) (ho : o < w.heap.observers.size) {r : Nat}
    {key : String} {removed : Bool}
    (run : (removeProperty react fuel r key).run w = .ok (removed, w')) :
    w'.heap.log o = w.heap.log o ++ (Mutation.remove r key).report o w.heap w'.heap := by
  simp only [Mutation.report]
  rcases removeProperty_cases run with ⟨absent, -, rfl⟩ | ⟨own, -, rest⟩
  · simp [absent]
  · simp only [own, if_true]
    dsimp only at rest
    split at rest
    next b hb =>
      rw [notify_log quiet ho (fun b => ⟨.set, joinPath b.path key, .undefined⟩) rest rfl, hb]
    next hb =>
      rw [rest, Heap.log_setObject, hb]
      simp [reportTo]

/-- An array mutator reports the array's new length once, when the array is bound; it keeps
the number of cells. -/
theorem mutate_log {α : Type} (quiet : w.heap.Quiet) (ho : o < w.heap.observers.size) {r : Nat}
    {op : List Value → List Value × α} {a : α} (run : (mutate react fuel r op).run w = .ok (a, w')) :
    w'.heap.log o = w.heap.log o ++
      reportTo o (fun b => ⟨.array, b.path, .number (Double.ofNat (w'.heap.items r).length)⟩)
        ((w.heap.array? r).getD ⟨[], none⟩).binding ∧
    w'.heap.cells.size = w.heap.cells.size := by
  obtain ⟨-, rest⟩ := mutate_cases run
  split at rest
  next hb =>
    rw [rest, hb]
    simp [reportTo]
  next b hb =>
    obtain ⟨seen, w₁, walk, report⟩ := rest
    have instruments := observeElements_keeps b.observer r b.path [] walk
    have kept : w₁.heap.observers = w.heap.observers := instruments.observers
    rw [notify_run_quiet (quiet.congr kept) report, hb]
    refine ⟨?_, ?_⟩
    · rw [w₁.heap.log_record (by rw [kept]; exact ho), Heap.log_congr _ kept]
      rfl
    · rw [Heap.cells_record, instruments.size, Heap.size_setArray]

/-- A new cell leaves the items of every array that was there. -/
theorem Heap.items_push (h : Heap ρ) (c : Cell) {r : Nat} (hr : r < h.cells.size) :
    ({ h with cells := h.cells.push c } : Heap ρ).items r = h.items r := by
  simp [items, array?, Array.getElem?_push, Nat.ne_of_lt hr]

theorem callArray_log (quiet : w.heap.Quiet) (ho : o < w.heap.observers.size) {r : Nat}
    {m : ArrayMethod} {args : List Value} {result : Value}
    (run : (callArray react fuel r m args).run w = .ok (result, w')) :
    w'.heap.log o = w.heap.log o ++ (Mutation.call r m args).report o w.heap w'.heap := by
  simp only [Mutation.report]
  obtain ⟨α, op, a, w₁, -, mutation, rest⟩ := callArray_cases run
  obtain ⟨logged, size⟩ := mutate_log quiet ho mutation
  rcases rest with rfl | ⟨removed, rfl⟩
  · exact logged
  · -- the array of removed items goes after every cell, so the mutated array keeps its items
    rw [show ({ w₁.heap with cells := w₁.heap.cells.push (.array ⟨removed, none⟩) } : Heap ρ).log o =
      w₁.heap.log o from rfl, logged]
    cases hb : ((w.heap.array? r).getD ⟨[], none⟩).binding with
    | none => simp only [reportTo]
    | some b =>
      have found : (w.heap.array? r).isSome := by
        cases hc : w.heap.array? r with
        | none => simp [hc] at hb
        | some _ => rfl
      obtain ⟨cell, hc⟩ := Option.isSome_iff_exists.1 found
      have hr : r < w₁.heap.cells.size := size ▸ w.heap.lt_of_array? hc
      simp only [reportTo, w₁.heap.items_push _ hr]

end Logs

/-! ## Change accounting -/

/-- Without subscribers, a mutation appends to the log of every observer exactly the changes
that `Mutation.report` gives, after the changes already there, and nothing else. -/
theorem Mutation.log_grows_by_report {react : Handler ρ σ} {fuel o : Nat} {m : Mutation}
    {w w' : World ρ σ} (quiet : w.heap.Quiet) (ho : o < w.heap.observers.size)
    (run : (m.run react fuel).run w = .ok ((), w')) :
    w'.heap.log o = w.heap.log o ++ m.report o w.heap w'.heap := by
  cases m with
  | set r key v =>
    simp only [Mutation.run, setProperty] at run
    obtain ⟨h, w₀, read, run⟩ := run_bind_ok.1 run
    cases read
    exact setWithin_log quiet ho run
  | add r key v enumerable =>
    simp only [Mutation.run] at run
    obtain ⟨added, run, -⟩ := run_map_ok.1 run
    exact addProperty_log quiet ho run
  | remove r key =>
    simp only [Mutation.run] at run
    obtain ⟨removed, run, -⟩ := run_map_ok.1 run
    exact removeProperty_log quiet ho run
  | call r m args =>
    simp only [Mutation.run] at run
    obtain ⟨result, run, -⟩ := run_map_ok.1 run
    exact callArray_log quiet ho run
  | define r key v enumerable =>
    simp only [Mutation.run, run_define, Except.ok.injEq, Prod.mk.injEq] at run
    obtain ⟨-, rfl⟩ := run
    simp [Mutation.report]
  | proxy r src key =>
    simp only [Mutation.run] at run
    obtain ⟨added, run, -⟩ := run_map_ok.1 run
    rcases proxy_cases run with ⟨-, -, rfl⟩ | ⟨-, -, rfl⟩ <;> simp [Mutation.report]
  | observe v o' =>
    simp only [Mutation.run] at run
    rw [Heap.log_congr _ (observe_keeps v o' run).observers]
    simp [Mutation.report]

/-- Writing `true` over `false` in an observed slot of the root object reports the write once. -/
theorem Mutation.set_reports_its_change :
    let w : World Unit Unit :=
      ⟨⟨#[.object ⟨[⟨"a", .observed (.bool false), true⟩], some ⟨0, ""⟩⟩], #[Observer.empty]⟩, ()⟩
    ∃ w', ((Mutation.set 0 "a" (.bool true)).run (fun _ _ _ => pure ()) 1).run w = .ok ((), w') ∧
      w'.heap.log 0 = w.heap.log 0 ++ [⟨.set, "a", .bool true⟩] := by
  intro w
  obtain ⟨w', run⟩ : ∃ w', ((Mutation.set 0 "a" (.bool true)).run (fun _ _ _ => pure ()) 1).run w =
      .ok ((), w') := ⟨_, rfl⟩
  refine ⟨w', run, ?_⟩
  rw [Mutation.log_grows_by_report (by simp [w, Heap.Quiet, Observer.empty]) (by decide) run]
  rfl

end ReactiveView.Store
