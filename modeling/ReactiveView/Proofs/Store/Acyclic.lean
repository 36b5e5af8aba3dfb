import ReactiveView.Proofs.Store.Soundness
import ReactiveView.Proofs.Render.Mirror
/-!
# Forwards that never go round

A read, a write or the test whether a key is reported follows the forwards of the key from
object to object, with no list of the objects met. It ends exactly when that walk stops
(`Heap.Hops`); then it reads, writes or tests at the walk's end as if that object were asked
directly (`Heap.Hops.ends`). In a heap whose forwards stop for every key (`Heap.ForwardsStop`) the
three always end so.

Of the operations on data only a forward added by `proxy` can make a walk go round: every other
write leaves at most the forwards there were (`Heap.FewerForwards`), and so keeps every walk
finite. `proxy` checks only that the object does not have the key. A forward from `r` to `src`
keeps every walk finite when the walk from `src` does not come back to `r`
(`Heap.ForwardsStop.add`), and when it does, the walk from `r` never stops
(`Heap.not_hops_of_leads_back`). In particular an object told to forward a key to itself goes
round for ever, and a write of that key never ends (`proxy_onto_itself_never_stops`).

So the heaps built by operations whose forwards avoid coming back, from a heap whose forwards
stop, keep them stopping, with reactions to reports that keep them stopping too
(`built_forwards_end`).
-/
namespace ReactiveView.Store

set_option autoImplicit false

variable {ρ σ : Type}

namespace Heap

variable {h h' : Heap ρ} {key : String}

/-! ## Where a walk ends -/

/-- Following the forwards of `key` from `r` reaches `t`, after no hop or more. -/
inductive Leads (h : Heap ρ) (key : String) : Nat → Nat → Prop
  | refl (r : Nat) : Leads h key r r
  | hop {r src t : Nat} : h.forward? r key = some src → Leads h key src t → Leads h key r t

/-- From an object that does not forward the key, following forwards stays there. -/
theorem Leads.eq_of_settled {r t : Nat} (settled : h.forward? r key = none)
    (leads : h.Leads key r t) : t = r := by
  cases leads with
  | refl => rfl
  | hop fwd _ => simp [settled] at fwd

theorem interceptsWithin_forward {n r src : Nat} (fwd : h.forward? r key = some src) :
    h.interceptsWithin (n + 1) r key = h.interceptsWithin n src key := by
  obtain ⟨c, p, hr, hp, slot⟩ := forward?_eq_some.1 fwd
  rcases p with ⟨k, slot', enumerable⟩
  cases slot
  simp [interceptsWithin, hr, hp]

/-- Where an object does not forward the key, the test stops there, whatever the chain left. -/
theorem interceptsWithin_settled {n r : Nat} (settled : h.forward? r key = none) :
    h.interceptsWithin (n + 1) r key = h.interceptsWithin 1 r key := by
  cases hr : h.object? r with
  | none => simp only [interceptsWithin, hr, Option.bind_none]
  | some c =>
    cases hp : c.find? key with
    | none => simp only [interceptsWithin, hr, hp, Option.bind_some]
    | some p =>
      rcases p with ⟨k, slot, enumerable⟩
      cases slot with
      | plain v => simp only [interceptsWithin, hr, hp, Option.bind_some]
      | observed v => simp only [interceptsWithin, hr, hp, Option.bind_some]
      | proxy src => simp [forward?, hr, hp] at settled

/-- A walk that stops ends at an object that does not forward the key, and a walk along the
forwards with a chain longer than the walk's hops gives there what one step gives. -/
theorem Hops.ends {n r : Nat} (walk : h.Hops key n r) :
    ∃ e, h.Leads key r e ∧ h.forward? e key = none ∧
      ∀ {β : Type} (F : Nat → Nat → β),
        (∀ {m r src : Nat}, h.forward? r key = some src → F (m + 1) r = F m src) →
        (∀ {m r : Nat}, h.forward? r key = none → F (m + 1) r = F 1 r) →
        ∀ {m : Nat}, n < m → F m r = F 1 e := by
  induction walk with
  | @stop r settled =>
    refine ⟨r, .refl r, settled, fun F _ stay m long => ?_⟩
    obtain ⟨m, rfl⟩ : ∃ k, m = k + 1 := ⟨m - 1, by omega⟩
    exact stay settled
  | @hop n r src fwd _ ih =>
    obtain ⟨e, leads, settled, walks⟩ := ih
    refine ⟨e, .hop fwd leads, settled, fun F forward stay m long => ?_⟩
    obtain ⟨m, rfl⟩ : ∃ k, m = k + 1 := ⟨m - 1, by omega⟩
    rw [forward fwd]
    exact walks F forward stay (by omega)

/-! ## Fewer forwards -/

/-- Every forward of `h'` is one of `h`. -/
def FewerForwards (h h' : Heap ρ) : Prop :=
  ∀ r key src, h'.forward? r key = some src → h.forward? r key = some src

theorem FewerForwards.refl (h : Heap ρ) : FewerForwards h h := fun _ _ _ => id

theorem FewerForwards.trans {h'' : Heap ρ} (first : FewerForwards h h')
    (second : FewerForwards h' h'') : FewerForwards h h'' :=
  fun r key src fwd => first r key src (second r key src fwd)

/-- Two heaps with the same cell at `r` forward alike there. -/
theorem forward?_congr {r : Nat} (same : h'.cells[r]? = h.cells[r]?) (key : String) :
    h'.forward? r key = h.forward? r key := by
  simp only [forward?, (accessors_congr h same).1]

theorem FewerForwards.of_cells (same : h'.cells = h.cells) : FewerForwards h h' := by
  intro r key src fwd
  rwa [forward?_congr (show h'.cells[r]? = h.cells[r]? by rw [same]) key] at fwd

/-- Walks in a heap with fewer forwards stop no later. -/
theorem ForwardsStop.of_fewer (stops : h.ForwardsStop) (fewer : FewerForwards h h') :
    h'.ForwardsStop := by
  intro key r
  obtain ⟨n, walk⟩ := stops key r
  -- the walk in `h'` follows the walk in `h` as long as `h'` forwards at all
  induction walk with
  | @stop r settled =>
    cases fwd : h'.forward? r key with
    | none => exact ⟨0, .stop fwd⟩
    | some src =>
      rw [fewer r key src fwd] at settled
      cases settled
  | @hop n r src fwd _ ih =>
    cases fwd' : h'.forward? r key with
    | none => exact ⟨0, .stop fwd'⟩
    | some src' =>
      have same : h.forward? r key = some src' := fewer r key src' fwd'
      rw [fwd, Option.some.injEq] at same
      subst same
      obtain ⟨m, walk'⟩ := ih
      exact ⟨m + 1, .hop fwd' walk'⟩

/-! ## Adding a forward -/

/-- A walk in `h` is a walk in `h'` when `h'` forwards as `h` at every object it reaches. -/
theorem Hops.transfer {n r : Nat} (walk : h.Hops key n r)
    (same : ∀ t, h.Leads key r t → h'.forward? t key = h.forward? t key) : h'.Hops key n r := by
  induction walk with
  | @stop r settled => exact .stop ((same r (.refl r)).trans settled)
  | @hop n r src fwd _ ih =>
    exact .hop ((same r (.refl r)).trans fwd) (ih fun t leads => same t (.hop fwd leads))

/-- A walk in `h` to `r` leads in `h'` to `r` too, when `h'` forwards as `h` everywhere but at `r`,
where `h` does not forward; so it stops in `h'` when the walk from `r` does. -/
theorem Leads.hops_of_end {x r : Nat} (leads : h.Leads key x r) (absent : h.forward? r key = none)
    (others : ∀ t, t ≠ r → h'.forward? t key = h.forward? t key)
    (there : ∃ m, h'.Hops key m r) : ∃ m, h'.Hops key m x := by
  induction leads with
  | refl => exact there
  | @hop y s t fwd _ ih =>
    have moved : y ≠ t := by
      rintro rfl
      simp [absent] at fwd
    obtain ⟨m, walk⟩ := ih absent others there
    exact ⟨m + 1, .hop ((others y moved).trans fwd) walk⟩

/-- Adding a forward of `key` from `r`, which did not forward it, to `src` keeps every walk
finite when the walk of `key` from `src` does not come back to `r`. -/
theorem ForwardsStop.add {r src : Nat} (stops : h.ForwardsStop) (absent : h.forward? r key = none)
    (fresh : ¬ h.Leads key src r) (added : h'.forward? r key = some src)
    (others : ∀ t k, t ≠ r ∨ k ≠ key → h'.forward? t k = h.forward? t k) : h'.ForwardsStop := by
  intro k x
  obtain ⟨n, walk⟩ := stops k x
  by_cases other : k = key
  · subst other
    by_cases through : h.Leads k x r
    · -- the walk reaches `r`, and goes on from there to `src`, whose walk avoids `r`
      obtain ⟨m, fromSrc⟩ := stops k src
      have avoids : h'.Hops k m src := fromSrc.transfer fun t leads =>
        others t k (.inl fun same => fresh (same ▸ leads))
      exact through.hops_of_end absent (fun t moved => others t k (.inl moved))
        ⟨m + 1, .hop added avoids⟩
    · exact ⟨n, walk.transfer fun t leads => others t k (.inl fun same => through (same ▸ leads))⟩
  · exact ⟨n, walk.transfer fun t _ => others t k (.inr other)⟩

/-- Where `h'` forwards as `h` everywhere but at `r`, which `h` does not forward, a walk in `h'`
from an object whose walk in `h` reaches `r` reaches `r` too, in no more hops. -/
theorem Leads.hops_shorter {x r : Nat} (leads : h.Leads key x r) (absent : h.forward? r key = none)
    (others : ∀ t, t ≠ r → h'.forward? t key = h.forward? t key) :
    ∀ {m : Nat}, h'.Hops key m x → ∃ k ≤ m, h'.Hops key k r := by
  induction leads with
  | refl => exact fun walk => ⟨_, Nat.le_refl _, walk⟩
  | @hop y s t fwd _ ih =>
    intro m walk
    have moved : y ≠ t := by
      rintro rfl
      simp [absent] at fwd
    cases walk with
    | stop settled =>
      rw [others y moved, fwd] at settled
      cases settled
    | hop fwd' rest =>
      rw [others y moved, fwd, Option.some.injEq] at fwd'
      subst fwd'
      obtain ⟨k, shorter, walk'⟩ := ih absent others rest
      exact ⟨k, by omega, walk'⟩

/-- Adding a forward of `key` from `r` to `src` whose walk comes back to `r` closes a cycle: the
walk from `r` never stops. -/
theorem not_hops_of_leads_back {r src : Nat} (back : h.Leads key src r)
    (absent : h.forward? r key = none) (added : h'.forward? r key = some src)
    (others : ∀ t, t ≠ r → h'.forward? t key = h.forward? t key) (n : Nat) : ¬ h'.Hops key n r := by
  intro walk
  cases walk with
  | stop settled =>
    rw [added] at settled
    cases settled
  | @hop m _ s fwd rest =>
    rw [added, Option.some.injEq] at fwd
    subst fwd
    -- back at `r` in no more than `m` hops, where the whole walk took `m + 1`
    obtain ⟨k, shorter, again⟩ := back.hops_shorter absent others rest
    have := again.unique (.hop added rest)
    omega

end Heap

/-! ## Writes that add no forward -/

namespace ObjectCell

/-- Rewriting the properties of an object while keeping their keys rewrites what a key finds. -/
theorem find?_map_keys (c : ObjectCell) (f : Property → Property) (keep : ∀ p, (f p).key = p.key)
    (k : String) :
    ({ c with properties := c.properties.map f } : ObjectCell).find? k = (c.find? k).map f := by
  simp only [find?, List.find?_map]
  congr 2
  funext p
  simp [keep]

/-- `c'` is `c` with at most the property at `key` written, and that one no forward. -/
def WritesOnly (key : String) (c c' : ObjectCell) : Prop :=
  (∀ k, k ≠ key → c'.find? k = c.find? k) ∧ ∀ p, c'.find? key = some p → ∀ src, p.slot ≠ .proxy src

theorem writesOnly_setSlot (c : ObjectCell) (key : String) {s : Slot}
    (plain : ∀ src, s ≠ .proxy src) : WritesOnly key c (c.setSlot key s) := by
  have found := c.find?_map_keys (fun p => if p.key == key then { p with slot := s } else p)
    (fun p => by by_cases same : p.key = key <;> simp [same])
  refine ⟨fun k other => ?_, fun p hp src => ?_⟩
  · rw [setSlot, found]
    cases hk : c.find? k with
    | none => rfl
    | some p =>
      -- the property found keeps its slot: its key is not the one written
      have key_ : p.key = k := (Render.ObjectCell.mem_of_find? hk).2
      simp [key_, other]
  · rw [setSlot, found] at hp
    obtain ⟨q, hq, rfl⟩ := Option.map_eq_some_iff.1 hp
    simpa [(Render.ObjectCell.mem_of_find? hq).2] using plain src

/-- Defining a key leaves what every other key finds. -/
theorem find?_put_ne (c : ObjectCell) {key k : String} (s : Slot) (enumerable : Bool)
    (other : k ≠ key) : (c.put key s enumerable).find? k = c.find? k := by
  unfold put
  split
  · rw [c.find?_map_keys _ (fun p => by by_cases same : p.key = key <;> simp [same])]
    cases hk : c.find? k with
    | none => rfl
    | some p =>
      have key_ : p.key = k := (Render.ObjectCell.mem_of_find? hk).2
      simp [key_, other]
  · -- the new key goes last, after every key found before
    simp only [find?, List.find?_append]
    cases hk : c.properties.find? (·.key == k) with
    | some p => rfl
    | none => simp [Ne.symm other]

theorem writesOnly_put (c : ObjectCell) (key : String) {s : Slot} (enumerable : Bool)
    (plain : ∀ src, s ≠ .proxy src) : WritesOnly key c (c.put key s enumerable) := by
  refine ⟨fun k other => c.find?_put_ne s enumerable other, fun p hp src => ?_⟩
  rw [c.find?_put_self key s enumerable, Option.some.injEq] at hp
  rw [← hp]
  exact plain src

theorem writesOnly_erase (c : ObjectCell) (key : String) : WritesOnly key c (c.erase key) := by
  refine ⟨fun k other => ?_, fun p hp => ?_⟩
  · simp only [find?, erase, List.find?_filter]
    congr 1
    funext p
    by_cases same : p.key = k
    · simp [same, other]
    · simp [same]
  · obtain ⟨mem, key_⟩ := Render.ObjectCell.mem_of_find? hp
    simp [erase, key_] at mem

end ObjectCell

/-- The slot of an intercepted property forwards exactly where the property did. -/
theorem Property.slot_intercept_proxy {fresh : Bool} {p : Property} {src : Nat}
    (slot : (p.intercept fresh).slot = .proxy src) : p.slot = .proxy src := by
  rcases p with ⟨key, s, enumerable⟩
  cases s with
  | plain v =>
    simp only [Property.intercept] at slot
    split at slot <;> cases slot
  | observed v | proxy src' => exact slot

namespace Heap

variable {h h' : Heap ρ}

theorem FewerForwards.setObject {r : Nat} {key : String} {c' : ObjectCell}
    (only : ObjectCell.WritesOnly key ((h.object? r).getD ⟨[], none⟩) c') :
    FewerForwards h (h.setObject r c') := by
  intro t k src fwd
  by_cases same : t = r
  · subst same
    obtain ⟨c₁, p, ht, hp, slot⟩ := forward?_eq_some.1 fwd
    have inside : t < h.cells.size := by simpa using (h.setObject t c').lt_of_object? ht
    rw [object?_eq_some, setObject_cell_self h c' inside, Option.some.injEq, Cell.object.injEq] at ht
    subst ht
    by_cases written : k = key
    · subst written
      exact absurd slot (only.2 p hp src)
    · -- any other key finds what it found before
      rw [only.1 k written] at hp
      cases hc : h.object? t with
      | none => simp [hc, ObjectCell.find?] at hp
      | some c =>
        rw [hc, Option.getD_some] at hp
        exact forward?_eq_some.2 ⟨c, p, hc, hp, slot⟩
  · rwa [forward?_congr (h.setObject_cell_ne c' same) k] at fwd

/-- After an array is written, its handle is no object. -/
theorem object?_setArray_self (r : Nat) (c : ArrayCell) : (h.setArray r c).object? r = none := by
  by_cases inside : r < h.cells.size
  · simp [object?, setArray_cell_self h c inside]
  · have outside : (h.setArray r c).cells[r]? = none :=
      Array.getElem?_eq_none (by simpa using Nat.le_of_not_lt inside)
    simp [object?, outside]

theorem FewerForwards.setArray (r : Nat) (c : ArrayCell) : FewerForwards h (h.setArray r c) := by
  intro t k src fwd
  by_cases same : t = r
  · subst same
    simp [forward?, object?_setArray_self] at fwd
  · rwa [forward?_congr (h.setArray_cell_ne c same) k] at fwd

/-- A new cell that is no object with properties adds no forward. -/
theorem FewerForwards.push {cell : Cell} (bare : ∀ c, cell = .object c → c.properties = []) :
    FewerForwards h { h with cells := h.cells.push cell } := by
  intro t k src fwd
  obtain ⟨c, p, ht, hp, slot⟩ := forward?_eq_some.1 fwd
  rw [object?_eq_some, Array.getElem?_push] at ht
  split at ht
  · rw [Option.some.injEq] at ht
    simp [ObjectCell.find?, bare c ht] at hp
  · exact forward?_eq_some.2 ⟨c, p, (object?_eq_some h).2 ht, hp, slot⟩

theorem FewerForwards.of_instruments {o : Nat} (walked : Heap.Instruments o h h') :
    FewerForwards h h' := by
  intro t k src fwd
  obtain ⟨c', p, ht, hp, slot⟩ := forward?_eq_some.1 fwd
  obtain ⟨cell, hc, step⟩ := walked.cell_back ((object?_eq_some h').1 ht)
  cases step with
  | @object c _ fresh props _ =>
    -- the walk only intercepts properties, which keeps every forward where it was
    have found : c'.find? k = (c.find? k).map (Property.intercept fresh) := by
      rcases c' with ⟨properties, binding⟩
      dsimp only at props
      subst props
      exact c.find?_map_keys _ (Property.key_intercept fresh) k
    rw [found] at hp
    obtain ⟨q, hq, rfl⟩ := Option.map_eq_some_iff.1 hp
    exact forward?_eq_some.2 ⟨c, q, (object?_eq_some h).2 hc, hq, Property.slot_intercept_proxy slot⟩

/-- What an object reads for a key, read through its handle: nothing where it has no object. -/
theorem bind_find?_eq (h : Heap ρ) (r : Nat) (k : String) :
    (h.object? r).bind (·.find? k) = ((h.object? r).getD ⟨[], none⟩).find? k := by
  cases h.object? r <;> rfl

/-- `proxy` from `r` to `src`, when the walk of the key from `src` does not come back to `r`,
keeps every walk finite. -/
theorem ForwardsStop.proxy {r src : Nat} {key : String} (stops : h.ForwardsStop)
    (absent : ((h.object? r).getD ⟨[], none⟩).hasOwn key = false) (fresh : ¬ h.Leads key src r) :
    (h.setObject r (((h.object? r).getD ⟨[], none⟩).put key (.proxy src) true)).ForwardsStop := by
  by_cases inside : r < h.cells.size
  · have written : (h.setObject r (((h.object? r).getD ⟨[], none⟩).put key (.proxy src) true)).object? r =
        some (((h.object? r).getD ⟨[], none⟩).put key (.proxy src) true) := by
      rw [object?_eq_some, setObject_cell_self h _ inside]
    refine ForwardsStop.add stops ?_ fresh ?_ fun t k away => ?_
    · simp [forward?, bind_find?_eq, Render.ObjectCell.find?_of_hasOwn_false absent]
    · simp [forward?, written, ObjectCell.find?_put_self]
    · by_cases same : t = r
      · -- the written object finds every other key where it did
        subst same
        have other : k ≠ key := away.resolve_left (not_not.2 rfl)
        simp only [forward?, written, Option.bind_some, ObjectCell.find?_put_ne _ _ _ other,
          bind_find?_eq]
      · exact forward?_congr (h.setObject_cell_ne _ same) k
  · -- past the cells the write changes nothing
    exact stops.of_fewer (FewerForwards.of_cells (by simp [setObject, Array.setIfInBounds, inside]))

end Heap

/-! ## Operations keep walks finite -/

/-- The forwards of the world's heap stop. -/
def World.ForwardsStop (w : World ρ σ) : Prop := w.heap.ForwardsStop

theorem Preserving.of_fewer {w w' : World ρ σ} (fewer : Heap.FewerForwards w.heap w'.heap) :
    Preserving World.ForwardsStop w w' :=
  fun stops => Heap.ForwardsStop.of_fewer stops fewer

/-- The walk of a write adds no forward. -/
theorem WalksBelow.fewer {binding : Option Binding} {key : String} {v : Value} {w w₁ : World ρ σ}
    (walk : WalksBelow binding key v w w₁) : Heap.FewerForwards w.heap w₁.heap := by
  cases binding with
  | none =>
    rw [show w₁ = w from walk]
    exact Heap.FewerForwards.refl _
  | some b =>
    obtain ⟨seen, run⟩ := walk
    exact Heap.FewerForwards.of_instruments (observeAt_keeps b.observer _ v _ [] run)

/-- Writing an observed slot adds no forward. -/
theorem World.fewer_writeObserved (w : World ρ σ) (r : Nat) (key : String) (v : Value) :
    Heap.FewerForwards w.heap (w.writeObserved r key v).heap := by
  dsimp only [World.writeObserved]
  split
  · exact Heap.FewerForwards.setObject (ObjectCell.writesOnly_setSlot _ key (by simp))
  · exact Heap.FewerForwards.refl _

section Writes

variable {react : Handler ρ σ} {fuel : Nat}
  (reactions : ∀ k s c, Keeps (Preserving World.ForwardsStop) (react k s c))
include reactions

/-- A report keeps walks finite when the reactions it runs do: recording it touches no cell. -/
theorem notify_stops (o : Nat) (c : Change) :
    Keeps (Preserving World.ForwardsStop) (notify react fuel o c) := by
  intro w u w' ran
  obtain ⟨n, rfl, rest⟩ := notify_run_ok ran
  have recorded : Preserving World.ForwardsStop w { w with heap := w.heap.record o c } :=
    Preserving.of_fewer (Heap.FewerForwards.of_cells (w.heap.cells_record o c))
  exact trans_of (Preserving World.ForwardsStop) recorded
    (Keeps.forM _ (fun s _ => reactions n s.reaction c) rest)

theorem setObserved_stops (r : Nat) (key : String) (v : Value) (binding : Option Binding) :
    Keeps (Preserving World.ForwardsStop) (setObserved react fuel r key v binding) := by
  intro w u w' ran
  obtain ⟨w₁, walk, rest⟩ := setObserved_cases ran
  have written : Preserving World.ForwardsStop w (w₁.writeObserved r key v) :=
    Preserving.of_fewer (walk.fewer.trans (w₁.fewer_writeObserved r key v))
  rcases rest with ⟨-, rfl⟩ | ⟨-, b, -, reported⟩
  · exact written
  · exact trans_of (Preserving World.ForwardsStop) written (notify_stops reactions _ _ reported)

theorem setWithin_stops (key : String) (v : Value) :
    ∀ chain r, Keeps (Preserving World.ForwardsStop) (setWithin react fuel chain r key v) := by
  intro chain
  induction chain with
  | zero =>
    intro r w u w' ran
    obtain ⟨n, impossible, -⟩ := setWithin_cases ran
    cases impossible
  | succ chain ih =>
    intro r w u w' ran
    obtain ⟨n, same, step⟩ := setWithin_cases ran
    cases same
    dsimp only at step
    -- a forward passes the write on; a plain or a new slot takes a plain value
    split at step
    next => exact ih _ step
    next => exact setObserved_stops reactions r key v _ step
    next =>
      subst step
      exact Preserving.of_fewer
        (Heap.FewerForwards.setObject (ObjectCell.writesOnly_setSlot _ key (by simp)))
    next =>
      subst step
      exact Preserving.of_fewer
        (Heap.FewerForwards.setObject (ObjectCell.writesOnly_put _ key true (by simp)))

theorem addProperty_stops (r : Nat) (key : String) (v : Value) (enumerable : Bool) :
    Keeps (Preserving World.ForwardsStop) (addProperty react fuel r key v enumerable) := by
  intro w added w' ran
  rcases addProperty_cases ran with ⟨-, -, rfl⟩ | ⟨-, -, w₁, walk, rest⟩
  · exact refl_of (Preserving World.ForwardsStop) _
  · dsimp only at rest
    have written : Preserving World.ForwardsStop w { w₁ with heap := (w₁.heap.setObject r
        (((w₁.heap.object? r).getD ⟨[], none⟩).put key (.observed v) enumerable)) } :=
      Preserving.of_fewer (walk.fewer.trans
        (Heap.FewerForwards.setObject (ObjectCell.writesOnly_put _ key enumerable (by simp))))
    split at rest
    · exact trans_of (Preserving World.ForwardsStop) written (notify_stops reactions _ _ rest)
    · rw [rest]
      exact written

theorem removeProperty_stops (r : Nat) (key : String) :
    Keeps (Preserving World.ForwardsStop) (removeProperty react fuel r key) := by
  intro w removed w' ran
  rcases removeProperty_cases ran with ⟨-, -, rfl⟩ | ⟨-, -, rest⟩
  · exact refl_of (Preserving World.ForwardsStop) _
  · dsimp only at rest
    have erased : Preserving World.ForwardsStop w
        { w with heap := (w.heap.setObject r (((w.heap.object? r).getD ⟨[], none⟩).erase key)) } :=
      Preserving.of_fewer (Heap.FewerForwards.setObject (ObjectCell.writesOnly_erase _ key))
    split at rest
    · exact trans_of (Preserving World.ForwardsStop) erased (notify_stops reactions _ _ rest)
    · rw [rest]
      exact erased

theorem mutate_stops {α : Type} (r : Nat) (op : List Value → List Value × α) :
    Keeps (Preserving World.ForwardsStop) (mutate react fuel r op) := by
  intro w a w' ran
  obtain ⟨-, rest⟩ := mutate_cases ran
  have written : Preserving World.ForwardsStop w { w with heap := (w.heap.setArray r
      { (w.heap.array? r).getD ⟨[], none⟩ with
        items := (op ((w.heap.array? r).getD ⟨[], none⟩).items).1 }) } :=
    Preserving.of_fewer (Heap.FewerForwards.setArray r _)
  split at rest
  · rw [rest]
    exact written
  · obtain ⟨seen, w₁, walk, reported⟩ := rest
    have walked := Preserving.of_fewer (Heap.FewerForwards.of_instruments
      (observeElements_keeps _ _ _ _ walk))
    exact trans_of (Preserving World.ForwardsStop) (trans_of (Preserving World.ForwardsStop) written walked)
      (notify_stops reactions _ _ reported)

theorem callArray_stops (r : Nat) (m : ArrayMethod) (args : List Value) :
    Keeps (Preserving World.ForwardsStop) (callArray react fuel r m args) := by
  intro w result w' ran
  obtain ⟨α, op, a, w₁, -, mutation, rest⟩ := callArray_cases ran
  have mutated := mutate_stops reactions r op mutation
  rcases rest with rfl | ⟨removed, rfl⟩
  · exact mutated
  · -- the array of removed items is new, and an array forwards nothing
    exact trans_of (Preserving World.ForwardsStop) mutated
      (Preserving.of_fewer (Heap.FewerForwards.push fun c same => by cases same))

/-- Every operation on data keeps walks finite, when the reactions it runs do and a forward it
adds leads to an object whose walk of the key does not come back. -/
theorem Mutation.run_stops {m : Mutation} {w w' : World ρ σ}
    (avoids : ∀ r src key, m = .proxy r src key → ¬ w.heap.Leads key src r)
    (stops : w.heap.ForwardsStop) (run : (m.run react fuel).run w = .ok ((), w')) :
    w'.heap.ForwardsStop := by
  cases m with
  | set r key v =>
    exact Keeps.bind Keeps.heap (fun _ => setWithin_stops reactions key v _ r) run stops
  | add r key v enumerable =>
    exact Keeps.map _ (addProperty_stops reactions r key v enumerable) run stops
  | remove r key => exact Keeps.map _ (removeProperty_stops reactions r key) run stops
  | call r m args => exact Keeps.map _ (callArray_stops reactions r m args) run stops
  | define r key v enumerable =>
    simp only [Mutation.run, run_define, Except.ok.injEq, Prod.mk.injEq] at run
    obtain ⟨-, rfl⟩ := run
    exact stops.of_fewer
      (Heap.FewerForwards.setObject (ObjectCell.writesOnly_put _ key enumerable (by simp)))
  | proxy r src key =>
    obtain ⟨added, ran, -⟩ := run_map_ok.1 run
    rcases proxy_cases ran with ⟨-, -, rfl⟩ | ⟨absent, -, rfl⟩
    · exact stops
    · exact stops.proxy absent (avoids r src key rfl)
  | observe v o => exact stops.of_fewer (Heap.FewerForwards.of_instruments (observe_keeps v o run))

end Writes

/-! ## Built heaps -/

/-- The worlds built from `w₀` by making objects and by operations on data, each forward among
them added to an object whose walk of the key does not come back to the object forwarding. -/
inductive Built (react : Handler ρ σ) (fuel : Nat) (w₀ : World ρ σ) : World ρ σ → Prop
  | start : Built react fuel w₀ w₀
  | new {w w' : World ρ σ} {r : Nat} : Built react fuel w₀ w →
      (newObject : StoreM ρ σ Nat).run w = .ok (r, w') → Built react fuel w₀ w'
  | step {w w' : World ρ σ} {m : Mutation} : Built react fuel w₀ w →
      (∀ r src key, m = .proxy r src key → ¬ w.heap.Leads key src r) →
      (m.run react fuel).run w = .ok ((), w') → Built react fuel w₀ w'

theorem Built.stops {react : Handler ρ σ} {fuel : Nat} {w₀ w : World ρ σ}
    (reactions : ∀ k s c, Keeps (Preserving World.ForwardsStop) (react k s c))
    (start : w₀.heap.ForwardsStop) (built : Built react fuel w₀ w) : w.heap.ForwardsStop := by
  induction built with
  | start => exact start
  | new _ made stops =>
    simp only [newObject, run_alloc, Except.ok.injEq, Prod.mk.injEq] at made
    obtain ⟨-, rfl⟩ := made
    -- a new object has no property, so it forwards nothing
    exact stops.of_fewer (Heap.FewerForwards.push fun c same => by cases same; rfl)
  | step _ avoids run stops => exact Mutation.run_stops reactions avoids stops run

/-- In every world built from one whose forwards stop, by making objects and by operations on
data that give an object a forward only to an object whose walk of the key does not come back to
it, and with reactions to reports that keep forwards stopping, the forwards of every key from
every object stop after finitely many hops, at an object that does not forward the key. A read
of the key, the test whether it is reported and a write of it all end there, and do there what
they do at that object alone. -/
theorem built_forwards_end {react : Handler ρ σ} {fuel : Nat} {w₀ w : World ρ σ}
    (reactions : ∀ k s c, Keeps (Preserving World.ForwardsStop) (react k s c))
    (start : w₀.heap.ForwardsStop) (built : Built react fuel w₀ w) (r : Nat) (key : String) :
    ∃ n e, w.heap.Hops key n r ∧ w.heap.Leads key r e ∧ w.heap.forward? e key = none ∧
      w.heap.get r key = w.heap.lookup 1 e key ∧
      w.heap.intercepts r key = w.heap.interceptsWithin 1 e key ∧
      ∀ v, (setProperty react fuel r key v).run w = (setWithin react fuel 1 e key v).run w := by
  obtain ⟨n, walk⟩ := built.stops reactions start key r
  obtain ⟨e, leads, settled, walks⟩ := walk.ends
  have long : n < w.heap.walkFuel := by
    have := walk.le_size
    simp only [Heap.walkFuel]
    omega
  refine ⟨n, e, walk, leads, settled, ?_, ?_, fun v => ?_⟩
  · exact walks (fun m r => w.heap.lookup m r key) Heap.lookup_forward Heap.lookup_settled long
  · exact walks (fun m r => w.heap.interceptsWithin m r key) Heap.interceptsWithin_forward
      Heap.interceptsWithin_settled long
  · simp only [setProperty, StateT.run_bind, run_heap, ok_bind]
    exact walks (fun m r => (setWithin react fuel m r key v).run w) setWithin_forward
      setWithin_settled long

/-- Two new objects, the second forwarding `k` to the first: reading, testing and writing `k`
on the second end at the first. -/
theorem forward_to_new_object_ends :
    let react : Handler Unit Unit := fun _ _ _ => pure ()
    let w₀ : World Unit Unit := ⟨Heap.empty, ()⟩
    let w : World Unit Unit :=
      ⟨⟨#[.object ⟨[], none⟩, .object ⟨[⟨"k", .proxy 0, true⟩], none⟩], #[]⟩, ()⟩
    (∀ k s c, Keeps (Preserving World.ForwardsStop) (react k s c)) ∧ w₀.heap.ForwardsStop ∧
      Built react 0 w₀ w ∧
      ∃ n e, w.heap.Hops "k" n 1 ∧ w.heap.Leads "k" 1 e ∧ w.heap.forward? e "k" = none ∧
        w.heap.get 1 "k" = w.heap.lookup 1 e "k" ∧
        w.heap.intercepts 1 "k" = w.heap.interceptsWithin 1 e "k" ∧
        ∀ v, (setProperty react 0 1 "k" v).run w = (setWithin react 0 1 e "k" v).run w := by
  intro react w₀ w
  have reactions : ∀ k s c, Keeps (Preserving World.ForwardsStop) (react k s c) :=
    fun _ _ _ => Keeps.pure ()
  have start : w₀.heap.ForwardsStop := fun key r =>
    ⟨0, .stop (by simp [Heap.forward?, Heap.object?, w₀, Heap.empty])⟩
  let w₁ : World Unit Unit := ⟨⟨#[.object ⟨[], none⟩], #[]⟩, ()⟩
  let w₂ : World Unit Unit := ⟨⟨#[.object ⟨[], none⟩, .object ⟨[], none⟩], #[]⟩, ()⟩
  -- the first object forwards nothing, so its walk stays there
  have avoids : ∀ r src key, Mutation.proxy 1 0 "k" = .proxy r src key →
      ¬ w₂.heap.Leads key src r := by
    intro r src key same leads
    simp only [Mutation.proxy.injEq] at same
    obtain ⟨rfl, rfl, rfl⟩ := same
    cases leads.eq_of_settled rfl
  have made : Built react 0 w₀ w₂ :=
    .new (.new .start (show (newObject : StoreM Unit Unit Nat).run w₀ = .ok (0, w₁) from rfl))
      (show (newObject : StoreM Unit Unit Nat).run w₁ = .ok (1, w₂) from rfl)
  have built : Built react 0 w₀ w := .step made avoids rfl
  exact ⟨reactions, start, built, built_forwards_end reactions start built 1 "k"⟩

/-- `proxy` lets an object forward a key to itself. From then on the forwards of that key never
stop, and a write of it halts with its chain exhausted, whatever chain it is given. -/
theorem proxy_onto_itself_never_stops :
    let w : World Unit Unit := ⟨⟨#[.object ⟨[], none⟩], #[]⟩, ()⟩
    let w' : World Unit Unit := ⟨⟨#[.object ⟨[⟨"k", .proxy 0, true⟩], none⟩], #[]⟩, ()⟩
    w.heap.ForwardsStop ∧ (proxy 0 0 "k" : StoreM Unit Unit Bool).run w = .ok (true, w') ∧
      (∀ n, ¬ w'.heap.Hops "k" n 0) ∧
      ∀ (react : Handler Unit Unit) (fuel chain : Nat) (v : Value),
        (setWithin react fuel chain 0 "k" v).run w' = .error .exhausted := by
  intro w w'
  have loops : w'.heap.forward? 0 "k" = some 0 := rfl
  -- past the one object neither heap forwards anything
  have others : ∀ t, t ≠ 0 → w'.heap.forward? t "k" = w.heap.forward? t "k" := by
    intro t moved
    obtain ⟨t, rfl⟩ : ∃ u, t = u + 1 := ⟨t - 1, by omega⟩
    simp [Heap.forward?, Heap.object?, w, w']
  refine ⟨fun key r => ⟨0, .stop ?_⟩, rfl,
    Heap.not_hops_of_leads_back (.refl 0) rfl loops others, fun react fuel chain v => ?_⟩
  · rcases r with _ | r <;> simp [Heap.forward?, Heap.object?, w, ObjectCell.find?]
  · induction chain with
    | zero => rfl
    | succ chain ih => rw [setWithin_forward loops, ih]

end ReactiveView.Store
