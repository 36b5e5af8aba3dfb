import ReactiveView.Proofs.Store.Closure
import ReactiveView.Proofs.Store.Forwarding
import ReactiveView.Proofs.Render.Scope
/-!
# A view mirrors its data

A view reads and writes its data through its scope. Each property of the scope forwards its key
to the data or holds a plain value of the scope's own (`View.Forwards`); the view writes such a
value when neither the scope nor the data has the key. A plain value *shadows* its key
(`View.Shadowed`): from then on reads and writes of the key through the view stay on the scope,
whatever the data does, and adding the key through the view cannot forward it any more.

`View.mirrors_unshadowed_keys` says what the view does with every key that is not shadowed:

* a key of the data reads through the view as it reads from the data, and a write through the
  view is the data's own write, once the scope forwards the key; using the key arranges that
  and changes nothing else;
* a write to a key that neither has stays on the scope as a plain value, leaving the data and
  the observers alone, and the key is shadowed from then on;
* a key added through the view reads as the added value, when no subscriber reacts to the
  addition.

`View.plain_slot_hides_added_key` replays a shadowed key: written through the view before the
data has it, then added through the view, it reads the first value while the data holds the
second.
-/
namespace ReactiveView.Store

set_option autoImplicit false

variable {ρ σ : Type}

/-! ## Keys of a written object -/

theorem ObjectCell.find?_put_self (c : ObjectCell) (key : String) (slot : Slot) (enumerable : Bool) :
    (c.put key slot enumerable).find? key = some ⟨key, slot, enumerable⟩ := by
  unfold put find?
  split
  next own =>
    -- the rewritten properties keep their keys, so the first match is the rewritten first match
    have same : ((fun p : Property => p.key == key) ∘ fun p : Property =>
        if p.key == key then (⟨key, slot, enumerable⟩ : Property) else p) = fun p => p.key == key := by
      funext q
      by_cases h : q.key = key <;> simp [h]
    rw [List.find?_map, same]
    obtain ⟨q, found⟩ := Option.isSome_iff_exists.1 (List.find?_isSome.2 (List.any_eq_true.1 own))
    have hq : q.key = key := by simpa using List.find?_some found
    simp [found, hq]
  next absent =>
    simp only [hasOwn, Bool.not_eq_true, List.any_eq_false] at absent
    rw [List.find?_append, List.find?_eq_none.2 (fun x mem => by simp [absent x mem])]
    simp

theorem ObjectCell.hasOwn_of_find? {c : ObjectCell} {key : String} {p : Property}
    (found : c.find? key = some p) : c.hasOwn key = true := by
  simp only [find?] at found
  exact List.any_eq_true.2 ⟨p, List.mem_of_find?_eq_some found, by simpa using List.find?_some found⟩

theorem ObjectCell.hasOwn_eq_false {c : ObjectCell} {key : String} (absent : c.find? key = none) :
    c.hasOwn key = false := by
  simp only [find?, List.find?_eq_none] at absent
  simpa [hasOwn] using absent

@[simp] theorem Property.key_intercept (fresh : Bool) (p : Property) :
    (p.intercept fresh).key = p.key := by
  rcases p with ⟨key, slot, enumerable⟩
  cases slot <;> simp [Property.intercept]
  split <;> rfl

theorem ObjectCell.find?_intercept (c : ObjectCell) (fresh : Bool) (key : String) :
    (c.intercept fresh).find? key = (c.find? key).map (Property.intercept fresh) := by
  simp only [find?, ObjectCell.intercept, List.find?_map]
  congr
  funext p
  simp

/-! ## Adding a key when no subscriber reacts -/

/-- A read stops at an observed slot. -/
theorem Heap.get_of_observed {h : Heap ρ} {r : Nat} {c : ObjectCell} {key : String} {p : Property}
    {x : Value} (hc : h.object? r = some c) (found : c.find? key = some p) (slot : p.slot = .observed x) :
    h.get r key = x := by
  simp [Heap.get, Heap.walkFuel, Heap.lookup, hc, found, slot]

/-- The walk of a write only intercepts the properties of another object. -/
theorem WalksBelow.find?_object {binding : Option Binding} {key : String} {v : Value}
    {w w₁ : World ρ σ} (walk : WalksBelow binding key v w w₁) {r : Nat} {c : ObjectCell}
    (hc : w.heap.object? r = some c) :
    ∃ fresh c₁, w₁.heap.object? r = some c₁ ∧
      ∀ k, c₁.find? k = (c.find? k).map (Property.intercept fresh) := by
  cases binding with
  | none =>
    rw [show w₁ = w from walk]
    exact ⟨false, c, hc, fun k => by simp⟩
  | some b =>
    obtain ⟨seen, run⟩ := walk
    have walked := observeAt_keeps b.observer _ v _ [] run
    obtain ⟨cell, at_, step⟩ := walked.cell_forth ((Heap.object?_eq_some _).1 hc)
    cases step with
    | object fresh props _ =>
      refine ⟨fresh, _, (Heap.object?_eq_some _).2 at_, fun k => ?_⟩
      rw [← ObjectCell.find?_intercept]
      simp only [ObjectCell.find?, ObjectCell.intercept, props]

/-- With no subscriber to react, adding a key writes it as observed and leaves every other object
as the walk of the new value leaves it: with the same keys, and its slots at most intercepted. -/
theorem addProperty_quiet {react : Handler ρ σ} {fuel r r' : Nat} {key : String} {v : Value}
    {enumerable : Bool} {c c' : ObjectCell} {w w' : World ρ σ} (quiet : w.heap.Quiet)
    (hc : w.heap.object? r = some c) (hc' : w.heap.object? r' = some c') (other : r' ≠ r)
    (run : (addProperty react fuel r key v enumerable).run w = .ok (true, w')) :
    w'.heap.object? r = some (c.put key (.observed v) enumerable) ∧
      ∃ fresh c₁, w'.heap.object? r' = some c₁ ∧
        ∀ k, c₁.find? k = (c'.find? k).map (Property.intercept fresh) := by
  rcases addProperty_cases run with ⟨-, impossible, -⟩ | ⟨-, -, w₁, walk, notified⟩
  · cases impossible
  simp only [hc, Option.getD_some] at walk notified
  obtain ⟨fresh, c₁, hc₁, slots⟩ := WalksBelow.find?_object walk hc'
  simp only [WalksBelow.object hc walk, Option.getD_some] at notified
  -- the report only records the change, so the cells are as the write left them
  have cells : w'.heap.cells = (w₁.heap.setObject r (c.put key (.observed v) enumerable)).cells := by
    cases hb : c.binding with
    | none =>
      simp only [hb] at notified
      rw [notified]
    | some b =>
      simp only [hb] at notified
      have quiet₁ : ({ w₁ with heap := w₁.heap.setObject r (c.put key (.observed v) enumerable) } :
          World ρ σ).heap.Quiet := quiet.congr (by simp [walk.observers])
      rw [notify_run_quiet quiet₁ notified, Heap.cells_record]
  refine ⟨?_, fresh, c₁, ?_, slots⟩
  · rw [Heap.object?_eq_some, cells]
    exact Heap.setObject_cell_self _ _ (Heap.lt_of_object? _ (WalksBelow.object hc walk))
  · rw [Heap.object?_eq_some, cells, Heap.setObject_cell_ne _ _ other, ← Heap.object?_eq_some]
    exact hc₁

end ReactiveView.Store

namespace ReactiveView.Render

open Store

set_option autoImplicit false

variable {ρ σ : Type}

/-! ## Reading and writing through the scope -/

/-- The scope holds a plain value of its own for the key, which hides the data's. -/
def View.Shadowed (S : ObjectCell) (key : String) : Prop :=
  ∃ p x, S.find? key = some p ∧ p.slot = .plain x

section Scope

variable {v : View} {key : String} {S D : ObjectCell} {w : World ρ σ}

/-- A scope that does not shadow a key forwards it to the data, or does not have it. -/
theorem View.slot_of_unshadowed (forwards : v.Forwards S) (clear : ¬ View.Shadowed S key) :
    S.find? key = none ∨ ∃ p, S.find? key = some p ∧ p.slot = .proxy v.data := by
  cases found : S.find? key with
  | none => exact .inl rfl
  | some p =>
    obtain ⟨mem, -⟩ := ObjectCell.mem_of_find? found
    rcases forwards p mem with forward | ⟨x, plain⟩
    · exact .inr ⟨p, rfl, forward⟩
    · exact absurd ⟨p, x, found, plain⟩ clear

theorem View.expose_run_of_forward? {src : Nat} (fwd : w.heap.forward? v.scope key = some src) :
    (v.expose key).run w = .ok ((), w) := by
  obtain ⟨S, p, hs, found, -⟩ := Heap.forward?_eq_some.1 fwd
  simp [View.expose, hs, ObjectCell.hasOwn_of_find? found]

/-- Where the scope forwards a key to the data, the view reads the data's value. -/
theorem View.get_of_forward? (fwd : w.heap.forward? v.scope key = some v.data) :
    (v.get key).run w = .ok (w.heap.get v.data key, w) := by
  simp only [View.get, StateT.run_bind, View.expose_run_of_forward? fwd, ok_bind, run_heap]
  rw [Heap.get_of_forward? fwd]
  rfl

/-- Forwarding a key the scope forwards to the data, or does not have, leaves it forwarded to
the data, and the data as it was. -/
theorem View.proxy_forwards {added : Bool} {w' : World ρ σ} (hs : w.heap.object? v.scope = some S)
    (slot : S.find? key = none ∨ ∃ p, S.find? key = some p ∧ p.slot = .proxy v.data)
    (distinct : v.scope ≠ v.data) (run : (proxy v.scope v.data key).run w = .ok (added, w')) :
    w'.heap.forward? v.scope key = some v.data ∧ w'.heap.object? v.data = w.heap.object? v.data := by
  rcases slot with absent | ⟨p, found, forward⟩
  · simp only [proxy, StateT.run_bind, run_objectAt, hs, Option.getD_some, ok_bind,
      ObjectCell.hasOwn_eq_false absent] at run
    cases run
    refine ⟨Heap.forward?_eq_some.2
      ⟨_, _, w.heap.object?_setObject_self _ hs, ObjectCell.find?_put_self _ _ _ _, rfl⟩, ?_⟩
    exact (Heap.accessors_congr w.heap (w.heap.setObject_cell_ne _ (Ne.symm distinct))).1
  · simp only [proxy, StateT.run_bind, run_objectAt, hs, Option.getD_some, ok_bind,
      ObjectCell.hasOwn_of_find? found] at run
    cases run
    exact ⟨Heap.forward?_eq_some.2 ⟨S, p, hs, found, forward⟩, rfl⟩

/-- Using a key of the data through the view makes the scope forward it, unless the scope
shadows it; nothing else changes. -/
theorem View.expose_run_of_owned (hs : w.heap.object? v.scope = some S)
    (hd : w.heap.object? v.data = some D) (distinct : v.scope ≠ v.data) (forwards : v.Forwards S)
    (clear : ¬ View.Shadowed S key) (owned : D.hasOwn key = true) :
    ∃ w₁, (v.expose key).run w = .ok ((), w₁) ∧ w₁.heap.forward? v.scope key = some v.data ∧
      w₁.heap.object? v.data = some D ∧ w₁.heap.observers = w.heap.observers := by
  rcases View.slot_of_unshadowed forwards clear with absent | ⟨p, found, forward⟩
  · -- the scope does not have the key yet, and exposing it forwards it
    have proxied : (proxy v.scope v.data key).run w =
        .ok (true, { w with heap := w.heap.setObject v.scope (S.put key (.proxy v.data) true) }) := by
      simp [proxy, hs, ObjectCell.hasOwn_eq_false absent]
    obtain ⟨fwd, data⟩ := View.proxy_forwards hs (.inl absent) distinct proxied
    refine ⟨_, ?_, fwd, data.trans hd, rfl⟩
    simp [View.expose, hs, hd, owned, ObjectCell.hasOwn_eq_false absent, proxied]
  · have fwd := Heap.forward?_eq_some.2 ⟨S, p, hs, found, forward⟩
    exact ⟨w, View.expose_run_of_forward? fwd, fwd, hd, rfl⟩

/-- A write through the view to a key that neither the scope nor the data has stays on the
scope, as a plain value. -/
theorem View.set_run_of_unknown {react : Handler ρ σ} {fuel : Nat} {value : Value}
    (hs : w.heap.object? v.scope = some S) (hd : w.heap.object? v.data = some D)
    (absent : D.hasOwn key = false) (unknown : S.find? key = none) :
    (v.set react fuel key value).run w =
      .ok ((), { w with heap := w.heap.setObject v.scope (S.put key (.plain value) true) }) := by
  simp [View.set, View.expose, setProperty, setWithin, Heap.walkFuel, hs, hd, absent, unknown]

/-- With no subscriber to react, a key added through the view reads as the added value, unless
the scope shadows it. -/
theorem View.get_after_add {react : Handler ρ σ} {fuel : Nat} {value : Value} {w' : World ρ σ}
    (hs : w.heap.object? v.scope = some S) (hd : w.heap.object? v.data = some D)
    (distinct : v.scope ≠ v.data) (forwards : v.Forwards S) (clear : ¬ View.Shadowed S key)
    (quiet : w.heap.Quiet) (run : (v.add react fuel key value).run w = .ok (true, w')) :
    (v.get key).run w' = .ok (value, w') := by
  simp only [View.add] at run
  obtain ⟨added, w₁, adding, run⟩ := run_bind_ok.1 run
  cases added
  · cases run
  obtain ⟨data₁, fresh, S₁, hs₁, slots⟩ := addProperty_quiet quiet hd hs distinct adding
  -- the walk of the added value leaves the scope's slot for the key a forward or nothing
  have slot₁ : S₁.find? key = none ∨ ∃ p, S₁.find? key = some p ∧ p.slot = .proxy v.data := by
    rw [slots key]
    rcases View.slot_of_unshadowed forwards clear with absent | ⟨p, found, forward⟩
    · exact .inl (by rw [absent]; rfl)
    · refine .inr ⟨p.intercept fresh, by rw [found]; rfl, ?_⟩
      simp [Property.intercept, forward]
  simp only [if_true] at run
  obtain ⟨_, w₂, proxied, run⟩ := run_bind_ok.1 run
  cases run
  obtain ⟨fwd, data₂⟩ := View.proxy_forwards hs₁ slot₁ distinct proxied
  rw [View.get_of_forward? fwd, Heap.get_of_observed (data₂.trans data₁)
    (ObjectCell.find?_put_self _ _ _ _) rfl]

end Scope

/-! ## Mirroring -/

/-- A view mirrors its data on every key its scope does not shadow with a plain value of its own.
A key of the data reads through the view as it reads from the data, and a write through the view
is the data's own write, once the scope forwards the key, which using it arranges and which
changes nothing else. A write to a key that neither has stays on the scope as a plain value,
with the data and the observers left alone, and from then on that value shadows the key. A key
added through the view, with no subscriber to react, reads as the added value. -/
theorem View.mirrors_unshadowed_keys {react : Handler ρ σ} {fuel : Nat} {v : View} {key : String}
    {value : Value} {S D : ObjectCell} {w : World ρ σ}
    (hs : w.heap.object? v.scope = some S) (hd : w.heap.object? v.data = some D)
    (distinct : v.scope ≠ v.data) (forwards : v.Forwards S) (clear : ¬ View.Shadowed S key) :
    (D.hasOwn key = true →
      ∃ w₁, (v.expose key).run w = .ok ((), w₁) ∧ w₁.heap.object? v.data = some D ∧
        w₁.heap.observers = w.heap.observers ∧
        (v.get key).run w = .ok (w₁.heap.get v.data key, w₁) ∧
        (v.set react fuel key value).run w = (setProperty react fuel v.data key value).run w₁) ∧
    (D.hasOwn key = false → S.find? key = none →
      (v.set react fuel key value).run w =
          .ok ((), { w with heap := w.heap.setObject v.scope (S.put key (.plain value) true) }) ∧
        View.Shadowed (S.put key (.plain value) true) key) ∧
    (w.heap.Quiet → ∀ w', (v.add react fuel key value).run w = .ok (true, w') →
      (v.get key).run w' = .ok (value, w')) := by
  refine ⟨fun owned => ?_, fun absent unknown => ?_,
    fun quiet w' run => View.get_after_add hs hd distinct forwards clear quiet run⟩
  · obtain ⟨w₁, exposed, fwd, data, observers⟩ :=
      View.expose_run_of_owned hs hd distinct forwards clear owned
    refine ⟨w₁, exposed, data, observers, ?_, ?_⟩
    · simp only [View.get, StateT.run_bind, exposed, ok_bind, run_heap]
      rw [Heap.get_of_forward? fwd]
      rfl
    · simp only [View.set, StateT.run_bind, exposed, ok_bind]
      exact setProperty_of_forward? fwd
  · exact ⟨View.set_run_of_unknown hs hd absent unknown,
      ⟨_, value, ObjectCell.find?_put_self _ _ _ _, rfl⟩⟩

/-- The data `{a: 1}` bound to its observer, with a scope that forwards `a`: the view reads `a`
from the data. -/
theorem View.forwarded_key_reads_data :
    let v : View := ⟨⟨[]⟩, "#app", [0], .text "{{ a }}", 0, 1, 0, {}⟩
    let S : ObjectCell := ⟨[⟨"a", .proxy 0, true⟩], none⟩
    let D : ObjectCell := ⟨[⟨"a", .observed (.number (Double.ofNat 1)), true⟩], some ⟨0, ""⟩⟩
    let w : World Unit Unit := ⟨⟨#[.object D, .object S], #[Observer.empty]⟩, ()⟩
    v.Forwards S ∧ ¬ View.Shadowed S "a" ∧
      ∃ w₁, (v.get "a").run w = .ok (w₁.heap.get v.data "a", w₁) := by
  intro v S D w
  have forwards : v.Forwards S := by
    intro p mem
    simp only [S, List.mem_singleton] at mem
    exact .inl (by rw [mem])
  have clear : ¬ View.Shadowed S "a" := by
    rintro ⟨p, x, found, plain⟩
    simp only [S, ObjectCell.find?, List.find?] at found
    cases found
    cases plain
  obtain ⟨w₁, -, -, -, reads, -⟩ :=
    (@View.mirrors_unshadowed_keys Unit Unit (fun _ _ _ => pure ()) 1 v "a" .undefined S D w
      rfl rfl (by decide) forwards clear).1 rfl
  exact ⟨forwards, clear, w₁, reads⟩

/-- A write of `1` to `b` through the view of `{}` stays on the scope; adding `b = 2` through the
view then succeeds and the data reads `2`, but the view still reads `1`. -/
theorem View.plain_slot_hides_added_key :
    let react : Handler Unit Unit := fun _ _ _ => pure ()
    let v : View := ⟨⟨[]⟩, "#app", [0], .text "{{ b }}", 0, 1, 0, {}⟩
    let w : World Unit Unit :=
      ⟨⟨#[.object ⟨[], some ⟨0, ""⟩⟩, .object ⟨[], none⟩], #[Observer.empty]⟩, ()⟩
    ∃ w', (do
        v.set react 1 "b" (.number (Double.ofNat 1))
        v.add react 1 "b" (.number (Double.ofNat 2))).run w = .ok (true, w') ∧
      w'.heap.get v.data "b" = .number (Double.ofNat 2) ∧
      (v.get "b").run w' = .ok (.number (Double.ofNat 1), w') :=
  ⟨_, rfl, rfl, rfl⟩

end ReactiveView.Render
