import ReactiveView.Proofs.Store.Acyclic
import ReactiveView.Proofs.Store.JsonRoundTrip
import ReactiveView.Proofs.Store.Traversal
import ReactiveView.Proofs.Store.Delivery
/-!
# Reading back a write

A write of `v` under `key` to an object `r` follows the forwards of the key from `r` to the
object `e` where they stop, and stores `v` in the own slot of `e`. When the forwards stop and
the reactions to reports do nothing, the write always returns (`setProperty_lands`), and what it
leaves is described by `Lands`: every other cell is at most instrumented by the walk that
observes `v`, which binds containers and turns plain slots into observed ones and so changes no
read. Reading `key` from `r` afterwards gives `v` (`Lands.get`).

A path that reads an object before the write reads it still afterwards, when the heap holds no
cycle. `Heap.Ranked` ranks the containers so that every handle a container holds and every
forward goes to a container of lower rank. A segment of a path that gives a container then goes
down in rank and reads only cells of higher rank than the container it gives
(`Heap.segment_above`), so a path that ends at `r` reads only cells above the rank of `r`
(`Heap.resolve_above`), while the write changes only `e`, whose rank is at most that of `r`
(`Heap.ReadsAbove`).

Values built from JSON are new containers behind the old ones, with no forward
(`ofJson_extends`), so building the value before the write changes nothing that was read.
`Lands.resolve` puts the three together.
-/
namespace ReactiveView.Store

set_option autoImplicit false

variable {ρ σ : Type}

/-! ## Ranked heaps -/

/-- The containers a cell points to: those its values are handles to, and those its forwards
go to. -/
def Cell.Points (cell : Cell) (t : Nat) : Prop :=
  (∃ x ∈ cell.values, x.ref? = some t) ∨
    ∃ c p, cell = .object c ∧ p ∈ c.properties ∧ p.slot = .proxy t

/-- What a slot reads: its value, or for a forward what `follow` reads from the object it
forwards to. -/
def Slot.read (follow : Nat → Value) : Slot → Value
  | .plain v | .observed v => v
  | .proxy src => follow src

@[simp] theorem Property.read_intercept (fresh : Bool) (p : Property) (follow : Nat → Value) :
    (p.intercept fresh).slot.read follow = p.slot.read follow := by
  rcases p with ⟨key, slot, enumerable⟩
  cases slot with
  | plain x =>
    simp only [Property.intercept]
    split <;> rfl
  | observed x | proxy src => rfl

theorem ObjectCell.points_of_value {c : ObjectCell} {key : String} {p : Property} {x : Value}
    {t : Nat} (found : c.find? key = some p) (held : p.slot.value? = some x)
    (ref : x.ref? = some t) : (Cell.object c).Points t :=
  .inl ⟨x, List.mem_filterMap.2 ⟨p, (Render.ObjectCell.mem_of_find? found).1, held⟩, ref⟩

theorem ObjectCell.points_of_proxy {c : ObjectCell} {key : String} {p : Property} {t : Nat}
    (found : c.find? key = some p) (slot : p.slot = .proxy t) : (Cell.object c).Points t :=
  .inr ⟨c, p, rfl, (Render.ObjectCell.mem_of_find? found).1, slot⟩

namespace Heap

/-- A ranking of the containers under which every container a cell points to is a cell of the
heap of lower rank: following handles and forwards always goes down, so the heap holds no
cycle and no handle to a missing container. -/
def Ranked (h : Heap ρ) (rank : Nat → Nat) : Prop :=
  ∀ r cell t, h.cells[r]? = some cell → cell.Points t → t < h.cells.size ∧ rank t < rank r

variable {h h' : Heap ρ} {rank : Nat → Nat} {key : String}

/-- A forward goes down in rank, to a cell. -/
theorem Ranked.forward (ranked : h.Ranked rank) {r src : Nat} (fwd : h.forward? r key = some src) :
    src < h.cells.size ∧ rank src < rank r := by
  obtain ⟨c, p, hc, found, slot⟩ := forward?_eq_some.1 fwd
  exact ranked r _ src ((object?_eq_some h).1 hc) (ObjectCell.points_of_proxy found slot)

/-- Following forwards from a cell stays among cells and never goes up in rank. -/
theorem Ranked.leads (ranked : h.Ranked rank) {r e : Nat} (leads : h.Leads key r e)
    (inside : r < h.cells.size) : e < h.cells.size ∧ rank e ≤ rank r := by
  induction leads with
  | refl => exact ⟨inside, Nat.le_refl _⟩
  | hop fwd _ ih =>
    obtain ⟨lt, down⟩ := ranked.forward fwd
    obtain ⟨within, le⟩ := ih lt
    exact ⟨within, by omega⟩

/-- Forwards of a heap with fewer forwards are forwards of the first. -/
theorem Leads.of_fewer (fewer : FewerForwards h h') {r e : Nat} (leads : h'.Leads key r e) :
    h.Leads key r e := by
  induction leads with
  | refl r => exact .refl r
  | hop fwd _ ih => exact .hop (fewer _ _ _ fwd) ih

/-- Every walk along the forwards of a ranked heap stops: a forward goes down in rank. -/
theorem Ranked.forwardsStop (ranked : h.Ranked rank) : h.ForwardsStop := by
  intro key r
  induction h_rank : rank r using Nat.strong_induction_on generalizing r with
  | _ k ih =>
    cases fwd : h.forward? r key with
    | none => exact ⟨0, .stop fwd⟩
    | some src =>
      obtain ⟨n, walk⟩ := ih (rank src) (h_rank ▸ (ranked.forward fwd).2) src rfl
      exact ⟨n + 1, .hop fwd walk⟩

/-- A heap whose containers can be ranked: it holds no cycle of handles or forwards, and no
handle to a missing container. -/
def Acyclic (h : Heap ρ) : Prop := ∃ rank, h.Ranked rank

/-! ## Cells that read alike -/

/-- A cell at most instrumented finds each key in the slot it had, intercepted. -/
theorem finds_of_rel {o r : Nat}
    (rel : Option.Rel (Cell.Instruments o) h.cells[r]? h'.cells[r]?) :
    ∃ fresh, ∀ key, (h'.object? r).bind (·.find? key) =
      ((h.object? r).bind (·.find? key)).map (Property.intercept fresh) := by
  simp only [object?]
  generalize h.cells[r]? = a at rel ⊢
  generalize h'.cells[r]? = b at rel ⊢
  cases rel with
  | none => exact ⟨false, fun _ => rfl⟩
  | some step =>
    cases step with
    | @object c c' fresh props _ =>
      refine ⟨fresh, fun key => ?_⟩
      rcases c' with ⟨properties, binding⟩
      dsimp only at props
      subst props
      exact c.find?_map_keys _ (Property.key_intercept fresh) key
    | array => exact ⟨false, fun _ => rfl⟩

/-- A cell at most instrumented forwards as it did. -/
theorem forward?_of_rel {o r : Nat}
    (rel : Option.Rel (Cell.Instruments o) h.cells[r]? h'.cells[r]?) (key : String) :
    h'.forward? r key = h.forward? r key := by
  obtain ⟨fresh, finds⟩ := finds_of_rel rel
  simp only [forward?, finds key]
  cases (h.object? r).bind (·.find? key) with
  | none => rfl
  | some p =>
    rcases p with ⟨k, slot, enumerable⟩
    cases slot with
    | plain x => cases fresh <;> cases enumerable <;> rfl
    | observed x | proxy src => rfl

/-- A cell at most instrumented has the items it had. -/
theorem items_of_rel {o r : Nat} (rel : Option.Rel (Cell.Instruments o) h.cells[r]? h'.cells[r]?) :
    h'.items r = h.items r := by
  simp only [items, array?]
  generalize h.cells[r]? = a at rel ⊢
  generalize h'.cells[r]? = b at rel ⊢
  cases rel with
  | none => rfl
  | some step =>
    cases step with
    | object => rfl
    | array same _ => simp [same]

/-! ## Reads above a rank -/

/-- `h'` reads as `h` at every cell of rank above `k`: it has at least the cells of `h`, and each
cell of `h` of rank above `k` is at most instrumented by `o` in `h'`. -/
structure ReadsAbove (h h' : Heap ρ) (rank : Nat → Nat) (o k : Nat) : Prop where
  size : h.cells.size ≤ h'.cells.size
  cells : ∀ r, r < h.cells.size → k < rank r →
    Option.Rel (Cell.Instruments o) h.cells[r]? h'.cells[r]?

/-- One hop of a read: the object's slot for the key, read at once or followed with one hop
less; `undefined` where the object or the key is missing. -/
theorem lookup_succ (h : Heap ρ) (n r : Nat) (key : String) :
    h.lookup (n + 1) r key =
      (((h.object? r).bind (·.find? key)).map fun p => p.slot.read (h.lookup n · key)).getD
        .undefined := by
  simp only [lookup]
  cases h.object? r with
  | none => rfl
  | some c =>
    dsimp only [Option.bind_some]
    cases c.find? key with
    | none => rfl
    | some p => cases p.slot <;> rfl

section Above

variable {o k : Nat} (ranked : h.Ranked rank) (alike : h.ReadsAbove h' rank o k) {t : Nat}
  (high : k ≤ rank t)
include ranked alike high

/-- A read that gives a container of rank at least `k` starts above it in rank, and reads the
same in `h'` with any longer chain. -/
theorem lookup_above : ∀ (n r : Nat) (key : String), (h.lookup n r key).ref? = some t →
    rank t < rank r ∧ ∀ m, n ≤ m → h'.lookup m r key = h.lookup n r key := by
  intro n
  induction n with
  | zero =>
    intro r key ref
    simp [lookup, Value.ref?] at ref
  | succ n ih =>
    intro r key ref
    rw [lookup_succ] at ref
    cases found : (h.object? r).bind (·.find? key) with
    | none => simp [found, Value.ref?] at ref
    | some p =>
      rw [found, Option.map_some, Option.getD_some] at ref
      obtain ⟨c, hc, hp⟩ := Option.bind_eq_some_iff.1 found
      have cell := (object?_eq_some h).1 hc
      -- the object reads a value of its own, or what the object it forwards to reads
      have below : rank t < rank r ∧ ∀ m, n ≤ m →
          p.slot.read (h'.lookup m · key) = p.slot.read (h.lookup n · key) := by
        cases slot : p.slot with
        | plain x | observed x =>
          simp only [slot, Slot.read] at ref
          have points := ObjectCell.points_of_value hp (by simp [slot, Slot.value?]) ref
          exact ⟨(ranked r _ t cell points).2, fun _ _ => rfl⟩
        | proxy src =>
          simp only [slot, Slot.read] at ref
          obtain ⟨lt, later⟩ := ih src key ref
          exact ⟨Nat.lt_trans lt (ranked r _ src cell (ObjectCell.points_of_proxy hp slot)).2, later⟩
      obtain ⟨fresh, finds⟩ := finds_of_rel (alike.cells r (lt_of_object? h hc) (by omega))
      refine ⟨below.1, fun m long => ?_⟩
      obtain ⟨m, rfl⟩ : ∃ m', m = m' + 1 := ⟨m - 1, by omega⟩
      rw [lookup_succ, lookup_succ, finds, found, Option.map_some, Option.map_some, Option.map_some,
        Property.read_intercept, below.2 m (by omega)]

/-- A read of a key that gives a container of rank at least `k` reads the same in `h'`. -/
theorem get_above {r : Nat} (ref : (h.get r key).ref? = some t) :
    rank t < rank r ∧ h'.get r key = h.get r key := by
  obtain ⟨down, later⟩ := lookup_above ranked alike high h.walkFuel r key ref
  have longer : h.walkFuel ≤ h'.walkFuel := by
    have := alike.size
    simp only [walkFuel]
    omega
  exact ⟨down, later h'.walkFuel longer⟩

/-- A segment that gives a container of rank at least `k` goes down from a container, and
reads the same in `h'`. -/
theorem segment_above {v : Value} {seg : String} (ref : (h.segment v seg).ref? = some t) :
    ∃ u, v.ref? = some u ∧ rank t < rank u ∧ h'.segment v seg = h.segment v seg := by
  cases v with
  | object r =>
    obtain ⟨down, same⟩ := get_above ranked alike high ref
    exact ⟨r, rfl, down, same⟩
  | array r =>
    -- only an item of the array is a container, and the array holds it
    have held : ∃ x ∈ h.items r, x.ref? = some t := by
      simp only [segment] at ref
      split at ref
      · simp [Value.ref?] at ref
      · split at ref
        · rename_i i _
          cases item : (h.items r)[i]? with
          | none => simp [item, Value.ref?] at ref
          | some x => exact ⟨x, List.mem_of_getElem? item, by simpa [item] using ref⟩
        · simp [Value.ref?] at ref
    obtain ⟨x, mem, refx⟩ := held
    cases hc : h.array? r with
    | none => simp [items, hc] at mem
    | some c =>
      rw [items_of_array? h hc] at mem
      have down := (ranked r _ t ((array?_eq_some h).1 hc) (.inl ⟨x, mem, refx⟩)).2
      have same := items_of_rel (alike.cells r (lt_of_array? h hc) (by omega))
      exact ⟨r, rfl, down, by simp only [segment, same]⟩
  | string s =>
    simp only [segment] at ref
    split at ref <;> simp [Value.ref?] at ref
  | undefined | null | bool | number => simp [segment, Value.ref?] at ref

end Above

/-- One segment of a path, as `Heap.resolve` reads it: `undefined` stays, anything else takes
the trimmed segment. -/
def stepPath (h : Heap ρ) (cur : Value) (seg : String) : Value :=
  if cur == .undefined then cur else h.segment cur (Text.trim seg)

theorem resolve_eq_foldl (h : Heap ρ) (v : Value) (path : String) :
    h.resolve v path = (Text.splitChar path '.').foldl h.stepPath v := rfl

section Above

variable {o k : Nat} (ranked : h.Ranked rank) (alike : h.ReadsAbove h' rank o k)
include ranked alike

/-- Segments that end at a container of rank at least `k` start from a container no lower, and
read the same in `h'`. -/
theorem foldl_above (segs : List String) : ∀ (v : Value) {t : Nat}, k ≤ rank t →
    (segs.foldl h.stepPath v).ref? = some t →
      (∃ u, v.ref? = some u ∧ rank t ≤ rank u) ∧ segs.foldl h'.stepPath v = segs.foldl h.stepPath v := by
  induction segs with
  | nil => intro v t _ ref; exact ⟨⟨t, ref, Nat.le_refl _⟩, rfl⟩
  | cons seg segs ih =>
    intro v t high ref
    obtain ⟨⟨u, refu, le⟩, rest⟩ := ih (h.stepPath v seg) high ref
    -- the value the segment starts from is defined: what it gives is a container
    have defined : v ≠ .undefined := by
      rintro rfl
      simp [stepPath, Value.ref?] at refu
    have seg_ref : (h.segment v (Text.trim seg)).ref? = some u := by
      simpa [stepPath, defined] using refu
    obtain ⟨u', refv, down, same⟩ := segment_above ranked alike (Nat.le_trans high le) seg_ref
    have step : h'.stepPath v seg = h.stepPath v seg := by simp [stepPath, defined, same]
    refine ⟨⟨u', refv, by omega⟩, ?_⟩
    rw [List.foldl_cons, List.foldl_cons, step, rest]

/-- A path that gives a container of rank at least `k` reads the same in `h'`. -/
theorem resolve_above {v : Value} {path : String} {t : Nat} (high : k ≤ rank t)
    (ref : (h.resolve v path).ref? = some t) : h'.resolve v path = h.resolve v path :=
  (foldl_above ranked alike _ v high ref).2

end Above

end Heap

/-! ## Where a write lands -/

theorem ObjectCell.find?_setSlot_self (c : ObjectCell) (key : String) (s : Slot) :
    (c.setSlot key s).find? key = (c.find? key).map fun p => { p with slot := s } := by
  rw [ObjectCell.setSlot,
    c.find?_map_keys _ (fun p => by by_cases same : p.key = key <;> simp [same])]
  cases found : c.find? key with
  | none => rfl
  | some p => simp [(Render.ObjectCell.mem_of_find? found).2]

/-- What a write of `v` under `key` that stops at the object `e` leaves in place of `h`: as many
cells, every other cell at most instrumented by one observer, and, where `e` is a cell, `v` in
the own slot of `e` for the key. -/
structure Lands (e : Nat) (key : String) (v : Value) (h h' : Heap ρ) : Prop where
  size : h'.cells.size = h.cells.size
  others : ∃ o, ∀ t, t ≠ e → Option.Rel (Cell.Instruments o) h.cells[t]? h'.cells[t]?
  written : e < h.cells.size →
    ∃ c p, h'.object? e = some c ∧ c.find? key = some p ∧ p.slot.value? = some v

namespace Lands

variable {e : Nat} {key : String} {v : Value} {h h₁ h' : Heap ρ}

/-- Writing the object `e` with the value in its slot for the key, after a walk that only
instruments the heap. -/
theorem of_write {o : Nat} (walked : Heap.Instruments o h h₁) (c : ObjectCell) {p : Property}
    (found : c.find? key = some p) (held : p.slot.value? = some v) :
    Lands e key v h (h₁.setObject e c) := by
  refine ⟨by simp [walked.size], ⟨o, fun t other => ?_⟩, fun inside => ?_⟩
  · rw [Heap.setObject_cell_ne _ _ other]
    exact walked.cells t
  · refine ⟨c, p, (Heap.object?_eq_some _).2 (Heap.setObject_cell_self _ _ ?_), found, held⟩
    rw [walked.size]
    exact inside

/-- Replacing the slot an object has for the key with one that holds the value, after a walk
that only instruments the heap. -/
theorem of_setSlot {o : Nat} (walked : Heap.Instruments o h h₁) {c : ObjectCell} {p : Property}
    (found : c.find? key = some p) {s : Slot} (held : s.value? = some v) :
    Lands e key v h (h₁.setObject e (c.setSlot key s)) :=
  of_write walked _ (p := { p with slot := s })
    (by rw [ObjectCell.find?_setSlot_self, found]; rfl) held

/-- Only the cells of the heap left behind matter. -/
theorem of_cells (lands : Lands e key v h h₁) (same : h'.cells = h₁.cells) : Lands e key v h h' := by
  have object : h'.object? e = h₁.object? e := by simp [Heap.object?, same]
  refine ⟨by rw [same, lands.size], ?_, fun inside => ?_⟩
  · obtain ⟨o, others⟩ := lands.others
    exact ⟨o, fun t other => by rw [same]; exact others t other⟩
  · rw [object]
    exact lands.written inside

end Lands

/-- The walk of a write only instruments the heap. -/
theorem WalksBelow.instruments {binding : Option Binding} {key : String} {v : Value}
    {w w₁ : World ρ σ} (walk : WalksBelow binding key v w w₁) :
    ∃ o, Heap.Instruments o w.heap w₁.heap := by
  cases binding with
  | none =>
    rw [show w₁ = w from walk]
    exact ⟨0, Heap.Instruments.refl _⟩
  | some b =>
    obtain ⟨seen, run⟩ := walk
    exact ⟨b.observer, observeAt_keeps b.observer _ v _ [] run⟩

section Idle

variable {react : Handler ρ σ} {fuel : Nat}
  (idle : ∀ n s c (w : World ρ σ), (react n s c).run w = .ok ((), w))
include idle

/-- With reactions that do nothing, a report only records the change. -/
theorem notify_run_idle (n o : Nat) (c : Change) (w : World ρ σ) :
    (notify react (n + 1) o c).run w = .ok ((), { w with heap := w.heap.record o c }) := by
  rw [run_notify_succ]
  generalize { w with heap := w.heap.record o c } = w'
  induction w.heap.subscribersOf o with
  | nil => rfl
  | cons s subs ih => exact run_bind_ok.2 ⟨(), w', idle n s.reaction c w', ih⟩

/-- With reactions that do nothing and fuel for one report, writing an observed slot returns. -/
theorem setObserved_returns (pos : 0 < fuel) (r : Nat) (key : String) (v : Value)
    (binding : Option Binding) : Returns (setObserved react fuel r key v binding) := by
  obtain ⟨n, rfl⟩ : ∃ n, fuel = n + 1 := ⟨fuel - 1, by omega⟩
  unfold setObserved
  cases binding with
  | none =>
    -- an unbound object writes the slot and reports nothing
    dsimp only
    refine Returns.bind (fun w => ⟨_, _, rfl⟩) fun c => ?_
    split
    · exact Returns.bind (fun w => ⟨(), _, rfl⟩) fun _ => by
        rw [ite_self]
        exact Returns.pure ()
    · rw [ite_self]
      exact Returns.pure ()
  | some b =>
    -- a bound object walks the value first, and a report of a change only records it
    dsimp only
    have report : ∀ old : Value, Returns (if old.same v then pure () else
        notify react (n + 1) b.observer ⟨.set, joinPath b.path key, v⟩ : StoreM ρ σ Unit) := by
      intro old
      split
      · exact Returns.pure ()
      · exact fun w => ⟨(), _, notify_run_idle idle n _ _ w⟩
    refine Returns.bind Returns.heap fun _ => Returns.bind (observeAt_returns _ _ _ _) fun _ => ?_
    refine Returns.bind (fun w => ⟨_, _, rfl⟩) fun c => ?_
    split
    · exact Returns.bind (fun w => ⟨(), _, rfl⟩) fun _ => report _
    · exact report _

/-- A write at an object that does not forward the key returns, and stores the value there. -/
theorem setWithin_one_lands (pos : 0 < fuel) {w : World ρ σ} {e : Nat} {key : String} {v : Value}
    (settled : w.heap.forward? e key = none) :
    ∃ w', (setWithin react fuel 1 e key v).run w = .ok ((), w') ∧ Lands e key v w.heap w'.heap := by
  -- the slot the object has for the key decides how it is written
  set c := (w.heap.object? e).getD ⟨[], none⟩ with object
  cases found : c.find? key with
  | none =>
    refine ⟨{ w with heap := w.heap.setObject e (c.put key (.plain v) true) }, ?_,
      Lands.of_write (Heap.Instruments.refl (o := 0) _) _ (c.find?_put_self key _ true) rfl⟩
    simp only [setWithin, StateT.run_bind, run_objectAt, ok_bind, ← object, found]
    rfl
  | some p =>
    rcases p with ⟨k, slot, enumerable⟩
    have hc : w.heap.object? e = some c := Heap.object?_of_find? found
    cases slot with
    | plain old =>
      refine ⟨{ w with heap := w.heap.setObject e (c.setSlot key (.plain v)) }, ?_,
        Lands.of_setSlot (Heap.Instruments.refl (o := 0) _) found rfl⟩
      simp only [setWithin, StateT.run_bind, run_objectAt, ok_bind, ← object, found]
      rfl
    | observed old =>
      obtain ⟨_, w', run⟩ := setObserved_returns idle pos e key v c.binding w
      refine ⟨w', by simpa [setWithin, ← object, found] using run, ?_⟩
      obtain ⟨w₁, walk, rest⟩ := setObserved_cases run
      obtain ⟨o, walked⟩ := walk.instruments
      -- the walk leaves the object alone, so the write finds the key in the slot it had
      have written : (w₁.writeObserved e key v).heap =
          w₁.heap.setObject e (c.setSlot key (.observed v)) := by
        simp [World.writeObserved, WalksBelow.object hc walk, ObjectCell.hasOwn_of_find? found]
      have lands : Lands e key v w.heap (w₁.heap.setObject e (c.setSlot key (.observed v))) :=
        Lands.of_setSlot walked found rfl
      rcases rest with ⟨-, rfl⟩ | ⟨-, b, -, reported⟩
      · rw [written]
        exact lands
      · obtain ⟨n, rfl⟩ : ∃ n, fuel = n + 1 := ⟨fuel - 1, by omega⟩
        rw [notify_run_idle idle] at reported
        cases reported
        exact lands.of_cells (by simp [written])
    | proxy src =>
      have forwards : w.heap.forward? e key = some src := by simp [Heap.forward?, hc, found]
      simp [forwards] at settled

/-- A write along forwards that stop returns, and stores the value where they stop. -/
theorem setWithin_lands (pos : 0 < fuel) {w : World ρ σ} {key : String} {v : Value} {n r : Nat}
    (walk : w.heap.Hops key n r) {chain : Nat} (long : n < chain) :
    ∃ e w', w.heap.Leads key r e ∧ w.heap.forward? e key = none ∧
      (setWithin react fuel chain r key v).run w = .ok ((), w') ∧ Lands e key v w.heap w'.heap := by
  obtain ⟨e, leads, settled, walks⟩ := walk.ends
  have same := walks (fun m r => (setWithin react fuel m r key v).run w) setWithin_forward
    setWithin_settled long
  obtain ⟨w', run, lands⟩ := setWithin_one_lands idle pos settled
  exact ⟨e, w', leads, settled, same.trans run, lands⟩

/-- In a heap whose forwards stop, a write with reactions that do nothing returns, and stores the
value where the forwards of its key stop. -/
theorem setProperty_lands (pos : 0 < fuel) {w : World ρ σ} (stops : w.heap.ForwardsStop) (r : Nat)
    (key : String) (v : Value) :
    ∃ e w', w.heap.Leads key r e ∧ w.heap.forward? e key = none ∧
      (setProperty react fuel r key v).run w = .ok ((), w') ∧ Lands e key v w.heap w'.heap := by
  obtain ⟨n, walk⟩ := stops key r
  have long : n < w.heap.walkFuel := by
    have := walk.le_size
    simp only [Heap.walkFuel]
    omega
  obtain ⟨e, w', leads, settled, run, lands⟩ := setWithin_lands idle pos walk long
  exact ⟨e, w', leads, settled, by simpa [setProperty] using run, lands⟩

end Idle

/-- A read along forwards that every object before `e` still has reads what `e` reads. -/
theorem Heap.Leads.reads {h h' : Heap ρ} {key : String} {r e : Nat} {v : Value}
    (leads : h.Leads key r e) (settled : h.forward? e key = none)
    (same : ∀ t, t ≠ e → h'.forward? t key = h.forward? t key) (at_end : h'.Reads key e v) :
    h'.Reads key r v := by
  induction leads with
  | refl => exact at_end
  | @hop t src last fwd _ ih =>
    have other : t ≠ last := by
      rintro rfl
      simp [settled] at fwd
    exact .forward (by rw [same t other]; exact fwd) (ih settled same at_end)

/-- After a write that stops at the cell `e`, a read of the key from an object whose forwards
led to `e` gives the value written. -/
theorem Lands.get {e r : Nat} {key : String} {v : Value} {h h' : Heap ρ} (lands : Lands e key v h h')
    (leads : h.Leads key r e) (settled : h.forward? e key = none) (inside : e < h.cells.size) :
    h'.get r key = v := by
  obtain ⟨c, p, hc, found, held⟩ := lands.written inside
  obtain ⟨o, others⟩ := lands.others
  -- the write stopped at `e`, which reads the value in its own slot
  have at_end : h'.Reads key e v := by
    rcases p with ⟨k, slot, enumerable⟩
    cases slot with
    | plain x =>
      cases held
      exact .plain (k := k) (e := enumerable) (by simp [hc, found])
    | observed x =>
      cases held
      exact .observed (k := k) (e := enumerable) (by simp [hc, found])
    | proxy src => cases held
  have reads := leads.reads settled (fun t other => Heap.forward?_of_rel (others t other) key) at_end
  obtain ⟨n, walk⟩ := reads.hops
  exact (Heap.reads_get walk).unique reads

/-! ## Values built from JSON -/

section Build

open Heap

mutual
/-- Building a value from any JSON document returns; it keeps every cell of the heap and adds
cells that forward nothing. -/
theorem ofJson_extends : ∀ (J : Json) (w : World ρ σ),
    ∃ v w', (ofJson J).run w = .ok (v, w') ∧ w.heap.Grows w'.heap ∧ FewerForwards w.heap w'.heap
  | .null, w => ⟨.null, w, rfl, .refl _, .refl _⟩
  | .bool b, w => ⟨.bool b, w, rfl, .refl _, .refl _⟩
  | .number n, w => ⟨.number n.toDouble, w, rfl, .refl _, .refl _⟩
  | .string s, w => ⟨.string s, w, rfl, .refl _, .refl _⟩
  | .array items, w => by
    obtain ⟨vs, w₁, run, grows, fewer⟩ := ofJsonItems_extends items w
    refine ⟨.array w₁.heap.cells.size,
      { w₁ with heap := { w₁.heap with cells := w₁.heap.cells.push (.array ⟨vs, none⟩) } }, ?_,
      grows.trans (grows_push _ _), fewer.trans (FewerForwards.push (by simp))⟩
    rw [ofJson.eq_5]
    exact run_bind_ok.2 ⟨vs, w₁, run, rfl⟩
  | .object fields, w => by
    -- a new empty object first, then its fields defined on it
    obtain ⟨w', run, size, kept, fewer⟩ := ofJsonFields_extends w.heap.cells.size fields
      { w with heap := { w.heap with cells := w.heap.cells.push (.object ⟨[], none⟩) } }
    simp only [Array.size_push] at size kept
    refine ⟨.object w.heap.cells.size, w', ?_, ⟨by omega, fun r _ lt => ?_⟩,
      (FewerForwards.push fun c same => by cases same; rfl).trans fewer⟩
    · rw [ofJson.eq_6]
      exact run_bind_ok.2 ⟨_, _, rfl, run_bind_ok.2 ⟨(), w', run, rfl⟩⟩
    · rw [kept r (by omega) (by omega)]
      exact (grows_push w.heap _).2 r (Nat.zero_le r) lt

/-- Building the values of JSON items, one after the other. -/
theorem ofJsonItems_extends : ∀ (items : List Json) (w : World ρ σ),
    ∃ vs w', (ofJsonItems items).run w = .ok (vs, w') ∧ w.heap.Grows w'.heap ∧
      FewerForwards w.heap w'.heap
  | [], w => ⟨[], w, rfl, .refl _, .refl _⟩
  | j :: rest, w => by
    obtain ⟨v, w₁, run₁, grows₁, fewer₁⟩ := ofJson_extends j w
    obtain ⟨vs, w₂, run₂, grows₂, fewer₂⟩ := ofJsonItems_extends rest w₁
    refine ⟨v :: vs, w₂, ?_, grows₁.trans grows₂, fewer₁.trans fewer₂⟩
    rw [ofJsonItems.eq_2]
    exact run_bind_ok.2 ⟨v, w₁, run₁, run_bind_ok.2 ⟨vs, w₂, run₂, rfl⟩⟩

/-- Defining the fields of a JSON object on the object at `r`: every other cell stays, and each
field is a plain property, so no forward is added. -/
theorem ofJsonFields_extends : ∀ (r : Nat) (fields : List (String × Json)) (w : World ρ σ),
    ∃ w', (ofJsonFields r fields).run w = .ok ((), w') ∧ w.heap.cells.size ≤ w'.heap.cells.size ∧
      (∀ t, t < w.heap.cells.size → t ≠ r → w'.heap.cells[t]? = w.heap.cells[t]?) ∧
      FewerForwards w.heap w'.heap
  | r, [], w => ⟨w, rfl, Nat.le_refl _, fun _ _ _ => rfl, .refl _⟩
  | r, (k, j) :: rest, w => by
    obtain ⟨v, w₁, run₁, grows₁, fewer₁⟩ := ofJson_extends j w
    obtain ⟨w₃, run₃, size₃, kept₃, fewer₃⟩ := ofJsonFields_extends r rest
      { w₁ with heap :=
          w₁.heap.setObject r (((w₁.heap.object? r).getD ⟨[], none⟩).put k (.plain v) true) }
    simp only [size_setObject] at size₃ kept₃
    refine ⟨w₃, ?_, Nat.le_trans grows₁.1 size₃, fun t lt other => ?_,
      fewer₁.trans ((FewerForwards.setObject
        (ObjectCell.writesOnly_put _ k true (by simp))).trans fewer₃)⟩
    · rw [ofJsonFields.eq_2]
      exact run_bind_ok.2 ⟨v, w₁, run₁, run_bind_ok.2 ⟨(), _, run_define .., run₃⟩⟩
    · rw [kept₃ t (Nat.lt_of_lt_of_le lt grows₁.1) other, setObject_cell_ne _ _ other]
      exact grows₁.2 t (Nat.zero_le t) lt
end

end Build

/-! ## Reading back in a heap with no cycle -/

section Ranked

variable {rank : Nat → Nat} {h h₁ h₂ : Heap ρ} {e r : Nat} {key : String} {v : Value}
  (ranked : h.Ranked rank) (grows : h.Grows h₁) (fewer : Heap.FewerForwards h h₁)
  (lands : Lands e key v h₁ h₂) (leads : h₁.Leads key r e) (inside : r < h.cells.size)
include ranked grows fewer lands leads inside

/-- A write from a cell, after building cells the heap did not have, reads back: the key of the
cell reads the value written. -/
theorem Lands.get_of_ranked (settled : h₁.forward? e key = none) : h₂.get r key = v :=
  lands.get leads settled
    (Nat.lt_of_lt_of_le (ranked.leads (Heap.Leads.of_fewer fewer leads) inside).1 grows.1)

/-- A write to a key of an object `r` that a path reads, after building cells the heap did not
have, changes nothing the path reads: the path still reads `r`. -/
theorem Lands.resolve {start : Value} {path : String} (reads : h.resolve start path = .object r) :
    h₂.resolve start path = .object r := by
  -- the write stops at a cell of rank at most that of `r`, and changes no cell above it
  obtain ⟨-, below⟩ := ranked.leads (Heap.Leads.of_fewer fewer leads) inside
  obtain ⟨o, others⟩ := lands.others
  have alike : h.ReadsAbove h₂ rank o (rank e) := by
    refine ⟨Nat.le_trans grows.1 (by rw [lands.size]), fun t lt high => ?_⟩
    have other : t ≠ e := by
      rintro rfl
      omega
    rw [← grows.2 t (Nat.zero_le t) lt]
    exact others t other
  rw [Heap.resolve_above ranked alike below (by rw [reads]; rfl), reads]

end Ranked

end ReactiveView.Store
