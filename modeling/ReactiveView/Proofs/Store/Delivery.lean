import ReactiveView.Proofs.Store.Accounting
/-!
# Delivering a change

`notify` records its change at the end of the observer's log before anything else happens, then
takes the subscribers the observer has at that moment and runs their reactions one after
another, each with the change. A reaction may write observed data, which reports changes of its
own from inside the delivery, and it may subscribe and unsubscribe.

Each of those keeps every log growing (`LogsGrow`): what a log held before is still its
beginning afterwards. Under reactions that keep logs growing, a report is delivered exactly as
`Delivered` says (`notify_delivers_in_preorder`): the subscribers present when it began, each
once and in the order they subscribed, each reaction starting where the previous one ended; a
subscriber that comes during the delivery is not among them. The log is the old log, then the
change, then what each reaction added, in the order of the reactions. A nested report does the
same inside the segment of the reaction that made it, so a log lists the reports of a run in
the order they began: the pre-order of their nesting, with none lost and none merged.
-/
namespace ReactiveView.Store

set_option autoImplicit false

variable {ρ σ : Type}

/-! ## Growing logs -/

/-- Every observer's log at the start is the beginning of its log at the end. -/
def LogsGrow (w w' : World ρ σ) : Prop :=
  ∀ o, w.heap.log o <+: w'.heap.log o

instance : IsPreorder (World ρ σ) LogsGrow where
  refl _ _ := List.prefix_refl _
  trans _ _ _ first second o := (first o).trans (second o)

/-- A step that leaves the observers alone leaves every log as it was. -/
theorem LogsGrow.of_observers {w w' : World ρ σ} (same : w'.heap.observers = w.heap.observers) :
    LogsGrow w w' := fun o =>
  ⟨[], by rw [List.append_nil, w.heap.log_congr same o]⟩

/-- Changing an observer in a way that keeps its changes keeps every log. -/
theorem Heap.log_modifyObserver (h : Heap ρ) {o : Nat} {f : Observer ρ → Observer ρ}
    (keeps : ∀ obs, (f obs).changes = obs.changes) (o' : Nat) :
    (h.modifyObserver o f).log o' = h.log o' := by
  simp only [log, observer?_modifyObserver]
  split
  · cases h.observer? o' with
    | none => rfl
    | some obs => exact keeps obs
  · rfl

/-- Recording a change only appends to a log. -/
theorem LogsGrow.record (w : World ρ σ) (o : Nat) (c : Change) :
    LogsGrow w { w with heap := w.heap.record o c } := fun o' => by
  by_cases inside : o' < w.heap.observers.size
  · exact ⟨_, (w.heap.log_record inside o c).symm⟩
  · -- an observer that does not exist has the empty log, before and after
    have absent : ∀ h : Heap ρ, ¬ o' < h.observers.size → h.log o' = [] := fun h out => by
      simp [Heap.log, Heap.observer?, Array.getElem?_eq_none (Nat.le_of_not_lt out),
        Observer.empty]
    rw [absent w.heap inside]
    exact List.nil_prefix

/-! ## One delivery -/

/-- The subscribers an observer has. -/
def Heap.subscribersOf (h : Heap ρ) (o : Nat) : List (Subscriber ρ) :=
  ((h.observer? o).getD Observer.empty).subscribers

/-- A report with fuel left records its change and then runs the reactions of the subscribers
the observer had before. -/
theorem run_notify_succ (react : Handler ρ σ) (n o : Nat) (c : Change) (w : World ρ σ) :
    (notify react (n + 1) o c).run w =
      ((w.heap.subscribersOf o).forM fun s => react n s.reaction c).run
        { w with heap := w.heap.record o c } := by
  simp only [notify, StateT.run_bind, run_modifyHeap, ok_bind, run_observerAt]
  exact congrArg (fun subs : List (Subscriber ρ) => (subs.forM fun s => react n s.reaction c).run
    { w with heap := w.heap.record o c }) (w.heap.subscribers_record o o c)

/-- The deliveries of the change `c` to the subscribers `subs`: their reactions ran one after
another from `w` to `w'`, each with the fuel `n`, and the reaction of the `i`th subscriber
added `segs[i]` to the log of the observer `o`. -/
inductive Delivered (react : Handler ρ σ) (n : Nat) (c : Change) (o : Nat) :
    List (Subscriber ρ) → World ρ σ → World ρ σ → List (List Change) → Prop
  | nil (w : World ρ σ) : Delivered react n c o [] w w []
  | cons {s : Subscriber ρ} {rest : List (Subscriber ρ)} {w w₁ w' : World ρ σ}
      {seg : List Change} {segs : List (List Change)} :
      (react n s.reaction c).run w = .ok ((), w₁) → w₁.heap.log o = w.heap.log o ++ seg →
      Delivered react n c o rest w₁ w' segs →
      Delivered react n c o (s :: rest) w w' (seg :: segs)

section Deliveries

variable {react : Handler ρ σ} {n : Nat} {c : Change} {o : Nat}

/-- After the deliveries, the log holds what each reaction added, in the order of the
reactions. -/
theorem Delivered.log {subs : List (Subscriber ρ)} {w w' : World ρ σ}
    {segs : List (List Change)} (delivered : Delivered react n c o subs w w' segs) :
    w'.heap.log o = w.heap.log o ++ segs.flatten := by
  induction delivered with
  | nil w => simp
  | cons ran added rest ih => rw [ih, added, List.flatten_cons, List.append_assoc]

/-- One segment for each subscriber. -/
theorem Delivered.length {subs : List (Subscriber ρ)} {w w' : World ρ σ}
    {segs : List (List Change)} (delivered : Delivered react n c o subs w w' segs) :
    segs.length = subs.length := by
  induction delivered with
  | nil w => rfl
  | cons ran added rest ih => simp [ih]

/-- The deliveries are the loop over the subscribers. -/
theorem Delivered.run {subs : List (Subscriber ρ)} {w w' : World ρ σ}
    {segs : List (List Change)} (delivered : Delivered react n c o subs w w' segs) :
    (subs.forM fun s => react n s.reaction c).run w = .ok ((), w') := by
  induction delivered with
  | nil w => rfl
  | cons ran added rest ih =>
    rw [List.forM_eq_forM, List.forM_cons, StateT.run_bind, ran, ok_bind]
    simpa only [List.forM_eq_forM] using ih

/-- A loop of reactions that keep logs growing is a chain of deliveries. -/
theorem delivered_of_run (reactions : ∀ r c', Keeps LogsGrow (react n r c')) :
    ∀ (subs : List (Subscriber ρ)) {w w' : World ρ σ},
      (subs.forM fun s => react n s.reaction c).run w = .ok ((), w') →
      ∃ segs, Delivered react n c o subs w w' segs
  | [], w, w', ran => by
    cases ran
    exact ⟨[], .nil w⟩
  | s :: rest, w, w', ran => by
    rw [List.forM_eq_forM, List.forM_cons] at ran
    simp only [← List.forM_eq_forM] at ran
    obtain ⟨u, w₁, first, later⟩ := run_bind_ok.1 ran
    -- the reaction only appended to the log, so what it added is a segment
    obtain ⟨seg, added⟩ := reactions s.reaction c first o
    obtain ⟨segs, delivered⟩ := delivered_of_run reactions rest later
    exact ⟨seg :: segs, .cons first added.symm delivered⟩

end Deliveries

/-! ## Reports keep logs growing -/

/-- A report keeps logs growing when the reactions it can run do. -/
theorem notify_keeps {react : Handler ρ σ} {fuel : Nat}
    (reactions : ∀ k < fuel, ∀ r c, Keeps LogsGrow (react k r c)) (o : Nat) (c : Change) :
    Keeps LogsGrow (notify react fuel o c) := by
  intro w u w' ran
  cases fuel with
  | zero =>
    simp only [notify, run_throw] at ran
    cases ran
  | succ n =>
    rw [run_notify_succ] at ran
    exact trans_of LogsGrow (LogsGrow.record w o c)
      (Keeps.forM _ (fun s _ => reactions n (Nat.lt_succ_self n) s.reaction c) ran)

/-! ## What reactions may do -/

/-- Changing an observer's subscribers keeps every log. -/
theorem LogsGrow.of_modifyObserver (w : World ρ σ) {o : Nat} {f : Observer ρ → Observer ρ}
    (keeps : ∀ obs, (f obs).changes = obs.changes) :
    LogsGrow w { w with heap := w.heap.modifyObserver o f } := fun o' =>
  ⟨[], by rw [List.append_nil, w.heap.log_modifyObserver keeps o']⟩

/-- Writing a cell leaves every log as it was. -/
theorem LogsGrow.setObject (w : World ρ σ) (r : Nat) (c : ObjectCell) :
    LogsGrow w { w with heap := w.heap.setObject r c } :=
  LogsGrow.of_observers rfl

theorem LogsGrow.setArray (w : World ρ σ) (r : Nat) (c : ArrayCell) :
    LogsGrow w { w with heap := w.heap.setArray r c } :=
  LogsGrow.of_observers rfl

theorem subscribe_keeps (o : Nat) (r : ρ) : Keeps LogsGrow (subscribe o r : StoreM ρ σ Nat) := by
  intro w id w' ran
  simp only [subscribe, StateT.run_bind, run_observerAt, ok_bind, run_modifyHeap,
    StateT.run_pure, pure_eq_ok, Except.ok.injEq, Prod.mk.injEq] at ran
  obtain ⟨-, rfl⟩ := ran
  exact LogsGrow.of_modifyObserver w fun _ => rfl

theorem unsubscribe_keeps (o id : Nat) : Keeps LogsGrow (unsubscribe o id : StoreM ρ σ Bool) := by
  intro w removed w' ran
  simp only [unsubscribe, StateT.run_bind, run_observerAt, ok_bind, run_modifyHeap,
    StateT.run_pure, pure_eq_ok, Except.ok.injEq, Prod.mk.injEq] at ran
  obtain ⟨-, rfl⟩ := ran
  exact LogsGrow.of_modifyObserver w fun _ => rfl

section Writes

variable {react : Handler ρ σ} {fuel : Nat}
  (reactions : ∀ k < fuel, ∀ r c, Keeps LogsGrow (react k r c))
include reactions

/-- An observed write walks the value, writes the slot and may report: only the report touches
a log. -/
theorem setObserved_keeps (r : Nat) (key : String) (v : Value) (binding : Option Binding) :
    Keeps LogsGrow (setObserved react fuel r key v binding) := by
  intro w u w' ran
  obtain ⟨w₁, walk, rest⟩ := setObserved_cases ran
  have written : LogsGrow w (w₁.writeObserved r key v) :=
    LogsGrow.of_observers ((World.observers_writeObserved w₁ r key v).trans walk.observers)
  rcases rest with ⟨-, rfl⟩ | ⟨-, b, -, reported⟩
  · exact written
  · exact trans_of LogsGrow written (notify_keeps reactions _ _ reported)

theorem setWithin_keeps (key : String) (v : Value) :
    ∀ chain r, Keeps LogsGrow (setWithin react fuel chain r key v) := by
  intro chain
  induction chain with
  | zero =>
    intro r w u w' ran
    obtain ⟨n, impossible, -⟩ := setWithin_cases ran
    cases impossible
  | succ chain ih =>
    intro r w u w' ran
    obtain ⟨n, same, step⟩ := setWithin_cases ran
    cases same
    dsimp only at step
    -- a forward passes the write on; a plain or new slot is a write to the object only
    split at step
    next => exact ih _ step
    next => exact setObserved_keeps reactions r key v _ step
    next => exact step ▸ LogsGrow.of_observers rfl
    next => exact step ▸ LogsGrow.of_observers rfl

theorem addProperty_keeps (r : Nat) (key : String) (v : Value) (enumerable : Bool) :
    Keeps LogsGrow (addProperty react fuel r key v enumerable) := by
  intro w added w' ran
  rcases addProperty_cases ran with ⟨-, -, rfl⟩ | ⟨-, -, w₁, walk, rest⟩
  · exact refl_of LogsGrow _
  · dsimp only at rest
    have walked : LogsGrow w w₁ := LogsGrow.of_observers walk.observers
    split at rest
    · exact trans_of LogsGrow (trans_of LogsGrow walked (LogsGrow.setObject w₁ r _))
        (notify_keeps reactions _ _ rest)
    · rw [rest]
      exact trans_of LogsGrow walked (LogsGrow.setObject w₁ r _)

theorem removeProperty_keeps (r : Nat) (key : String) :
    Keeps LogsGrow (removeProperty react fuel r key) := by
  intro w removed w' ran
  rcases removeProperty_cases ran with ⟨-, -, rfl⟩ | ⟨-, -, rest⟩
  · exact refl_of LogsGrow _
  · dsimp only at rest
    split at rest
    · exact trans_of LogsGrow (LogsGrow.setObject w r _) (notify_keeps reactions _ _ rest)
    · rw [rest]
      exact LogsGrow.setObject w r _

theorem mutate_keeps {α : Type} (r : Nat) (op : List Value → List Value × α) :
    Keeps LogsGrow (mutate react fuel r op) := by
  intro w a w' ran
  obtain ⟨-, rest⟩ := mutate_cases ran
  split at rest
  · rw [rest]
    exact LogsGrow.setArray w r _
  · obtain ⟨seen, w₁, walk, reported⟩ := rest
    have walked := LogsGrow.of_observers (observeElements_keeps _ _ _ _ walk).observers
    exact trans_of LogsGrow (trans_of LogsGrow (LogsGrow.setArray w r _) walked)
      (notify_keeps reactions _ _ reported)

theorem callArray_keeps (r : Nat) (m : ArrayMethod) (args : List Value) :
    Keeps LogsGrow (callArray react fuel r m args) := by
  intro w result w' ran
  obtain ⟨α, op, a, w₁, -, mutation, rest⟩ := callArray_cases ran
  have mutated := mutate_keeps reactions r op mutation
  rcases rest with rfl | ⟨removed, rfl⟩
  · exact mutated
  · exact trans_of LogsGrow mutated (LogsGrow.of_observers rfl)

/-- Every operation on observed data keeps logs growing when the reactions it can run do. -/
theorem Mutation.run_keeps_logs (m : Mutation) : Keeps LogsGrow (m.run react fuel) := by
  cases m with
  | set r key v => exact Keeps.bind Keeps.heap fun h => setWithin_keeps reactions key v _ r
  | add r key v enumerable => exact Keeps.map _ (addProperty_keeps reactions r key v enumerable)
  | remove r key => exact Keeps.map _ (removeProperty_keeps reactions r key)
  | call r m args => exact Keeps.map _ (callArray_keeps reactions r m args)
  | define r key v enumerable =>
    intro w u w' ran
    simp only [Mutation.run, run_define, Except.ok.injEq, Prod.mk.injEq] at ran
    obtain ⟨-, rfl⟩ := ran
    exact LogsGrow.of_observers rfl
  | proxy r src key =>
    intro w u w' ran
    obtain ⟨added, ran, -⟩ := run_map_ok.1 ran
    rcases proxy_cases ran with ⟨-, -, rfl⟩ | ⟨-, -, rfl⟩
    · exact refl_of LogsGrow _
    · exact LogsGrow.of_observers rfl
  | observe v o =>
    intro w u w' ran
    exact LogsGrow.of_observers (observe_keeps v o ran).observers

end Writes

/-- How a report is delivered, when reactions keep logs growing. The report keeps logs growing
itself, so reports made from inside reactions are delivered the same way. It succeeds exactly
when the subscribers the observer had when it began react to the change, each once, in the
order they subscribed, one after another; and then the observer's log is what it was, then the
change, then what each reaction added, in the order of the reactions. -/
theorem notify_delivers_in_preorder {react : Handler ρ σ} {fuel o : Nat} {c : Change}
    {w w' : World ρ σ} (ho : o < w.heap.observers.size)
    (reactions : ∀ k < fuel, ∀ r c', Keeps LogsGrow (react k r c')) :
    Keeps LogsGrow (notify react fuel o c) ∧
      ((notify react fuel o c).run w = .ok ((), w') ↔
        ∃ n segs, fuel = n + 1 ∧
          Delivered react n c o (w.heap.subscribersOf o) { w with heap := w.heap.record o c } w'
            segs ∧
          w'.heap.log o = w.heap.log o ++ c :: segs.flatten) := by
  refine ⟨notify_keeps reactions o c, fun ran => ?_, ?_⟩
  · cases fuel with
    | zero =>
      simp only [notify, run_throw] at ran
      cases ran
    | succ n =>
      rw [run_notify_succ] at ran
      obtain ⟨segs, delivered⟩ := delivered_of_run (reactions n (Nat.lt_succ_self n)) _ ran
      refine ⟨n, segs, rfl, delivered, ?_⟩
      -- the change is recorded first, and the reactions' segments follow it
      rw [delivered.log, w.heap.log_record ho o c, if_pos rfl, List.append_assoc,
        List.singleton_append]
  · rintro ⟨n, segs, rfl, delivered, -⟩
    rw [run_notify_succ]
    exact delivered.run

/-- Delivery to two subscribers whose reactions each subscribe once more while the change is
being delivered: the two present at the start react, and the two that come do not. -/
theorem notify_delivers_to_those_present :
    let react : Handler Nat Unit := fun _ r _ => do
      let _ ← (subscribe 0 r : StoreM Nat Unit Nat)
    let w : World Nat Unit := ⟨⟨#[], #[⟨[], [⟨0, 7⟩, ⟨1, 8⟩], 2⟩]⟩, ()⟩
    let c : Change := ⟨.set, "a", .undefined⟩
    0 < w.heap.observers.size ∧ (∀ k < 1, ∀ r c', Keeps LogsGrow (react k r c')) ∧
      ∃ w', (notify react 1 0 c).run w = .ok ((), w') ∧
        ∃ n segs, 1 = n + 1 ∧
          Delivered react n c 0 (w.heap.subscribersOf 0) { w with heap := w.heap.record 0 c } w'
            segs ∧
          w'.heap.log 0 = w.heap.log 0 ++ c :: segs.flatten := by
  intro react w c
  have reacts : ∀ k < 1, ∀ r c', Keeps LogsGrow (react k r c') :=
    fun _ _ r _ => Keeps.bind (subscribe_keeps 0 r) fun _ => Keeps.pure ()
  obtain ⟨w', run⟩ : ∃ w', (notify react 1 0 c).run w = .ok ((), w') := ⟨_, rfl⟩
  exact ⟨by decide, reacts, w', run, (notify_delivers_in_preorder (by decide) reacts).2.1 run⟩

end ReactiveView.Store
