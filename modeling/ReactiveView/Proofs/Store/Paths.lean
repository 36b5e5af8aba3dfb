import ReactiveView.Proofs.Store.Accounting
import ReactiveView.Proofs.Store.Soundness
/-!
# The paths writes leave

A container records the path under which its observer reports the writes made to it. A walk
binds the container it starts from at the walk's path, unless the container's binding covers
that path: it is bound to the same observer at the root, at that path, or at an ancestor of it.
A covered container keeps its old path, and the walk does not enter it (`observeAt_binding`).

So a write that stores a container in an observed slot leaves it at the slot's path exactly when
its old binding does not cover that path (`Mutation.set_binds_stored`). A container stored below
the place it is bound at keeps the old, shorter path, and the writes to it are then reported
under a path that no longer leads to it (`Mutation.moved_container_keeps_its_path`).
-/
namespace ReactiveView.Store

set_option autoImplicit false

variable {ρ σ : Type}

/-- `v` is a handle to the container at `u`, of the kind the handle names. -/
def Heap.Names (h : Heap ρ) (v : Value) (u : Nat) : Prop :=
  match v with
  | .object r => r = u ∧ (h.object? u).isSome
  | .array r => r = u ∧ (h.array? u).isSome
  | _ => False

/-- A run whose result a decidable check accepts succeeds, with a result the check accepts. The
check is run by the kernel: the paths compared along the way are strings. -/
theorem run_ok_of_check {α : Type} {m : StoreM ρ σ α} {w : World ρ σ}
    (P : α → World ρ σ → Prop) [∀ a w', Decidable (P a w')]
    (checked : ((m.run w).toOption.map fun r => decide (P r.1 r.2)) = some true) :
    ∃ a w', m.run w = .ok (a, w') ∧ P a w' := by
  cases h : m.run w with
  | error e => simp [h, Except.toOption] at checked
  | ok res =>
    simp only [h, Except.toOption, Option.map_some, Option.some.injEq, decide_eq_true_eq] at checked
    exact ⟨res.1, res.2, rfl, checked⟩

theorem run_ok_of_check_unit {m : StoreM ρ σ Unit} {w : World ρ σ} (P : World ρ σ → Prop)
    [DecidablePred P] (checked : ((m.run w).toOption.map fun r => decide (P r.2)) = some true) :
    ∃ w', m.run w = .ok ((), w') ∧ P w' := by
  obtain ⟨⟨⟩, w', run, holds⟩ := run_ok_of_check (fun _ => P) checked
  exact ⟨w', run, holds⟩

/-- The binding a walk leaves on the container it starts from: the old one when the walk has
visited it already or its binding covers the walk's path, and otherwise one to the walk's
observer at exactly that path. Every container a walk meets is the start of one of its nested
walks, so this is where every path comes from. -/
theorem observeAt_binding {o n u : Nat} {v : Value} {path : String} {seen seen' : List Nat}
    {w w' : World ρ σ} (names : w.heap.Names v u)
    (run : (observeAt o (n + 1) v path seen : StoreM ρ σ (List Nat)).run w = .ok (seen', w')) :
    w'.heap.binding? u =
      if u ∈ seen ∨ (w.heap.binding? u).any (·.covers o path) then w.heap.binding? u
      else some ⟨o, path⟩ := by
  cases v with
  | object r =>
    obtain ⟨rfl, found⟩ := names
    obtain ⟨c, hc⟩ := Option.isSome_iff_exists.1 found
    rw [w.heap.binding?_of_object? hc]
    rcases observeAt_object_cases run with ⟨visited, -, rfl⟩ | ⟨-, -, rfl, stop⟩ |
      ⟨fresh, c', hc', free, fold⟩
    · simp [visited, w'.heap.binding?_of_object? hc]
    · -- the binding covers the path: the walk leaves the object alone
      rcases stop with none | ⟨c', b, hc', hb, covered⟩
      · rw [hc] at none
        cases none
      · rw [hc] at hc'
        cases hc'
        simp [w'.heap.binding?_of_object? hc, hb, covered]
    · -- the object is claimed at the path, and the walks below leave it alone
      rw [hc] at hc'
      cases hc'
      have claimed := foldWalks_frame _ _ _ (List.mem_cons_self ..) fold
      rw [w.heap.setObject_cell_self _ (w.heap.lt_of_object? hc)] at claimed
      rw [(Option.any_eq_false _ _).2 free, if_neg (by simp [fresh]), Heap.binding?_eq, claimed]
      rfl
  | array r =>
    obtain ⟨rfl, found⟩ := names
    obtain ⟨c, hc⟩ := Option.isSome_iff_exists.1 found
    rw [w.heap.binding?_of_array? hc]
    rcases observeAt_array_cases run with ⟨visited, -, rfl⟩ | ⟨-, -, rfl, stop⟩ |
      ⟨fresh, c', hc', free, fold⟩
    · simp [visited, w'.heap.binding?_of_array? hc]
    · rcases stop with none | ⟨c', b, hc', hb, covered⟩
      · rw [hc] at none
        cases none
      · rw [hc] at hc'
        cases hc'
        simp [w'.heap.binding?_of_array? hc, hb, covered]
    · rw [hc] at hc'
      cases hc'
      have claimed := foldWalks_frame _ _ _ (List.mem_cons_self ..) fold
      rw [w.heap.setArray_cell_self _ (w.heap.lt_of_array? hc)] at claimed
      rw [(Option.any_eq_false _ _).2 free, if_neg (by simp [fresh]), Heap.binding?_eq, claimed]
      rfl
  | _ => exact names.elim

-- A binding at `x` covers `x.y`: a walk met there keeps the object at `x`.
example : let w : World Unit Unit := ⟨⟨#[.object ⟨[], some ⟨0, "x"⟩⟩], #[Observer.empty]⟩, ()⟩
    ∃ seen w', (observeAt 0 1 (.object 0) "x.y" [] : StoreM Unit Unit (List Nat)).run w =
      .ok (seen, w') ∧ w'.heap.binding? 0 = some ⟨0, "x"⟩ := by
  intro w
  obtain ⟨seen, w', run, -⟩ := run_ok_of_check (m := observeAt 0 1 (.object 0) "x.y" []) (w := w)
    (fun _ _ => True) (by decide +kernel)
  have names : w.heap.Names (.object 0) 0 := ⟨rfl, rfl⟩
  refine ⟨seen, w', run, ?_⟩
  rw [observeAt_binding names run]
  decide +kernel

/-- Writing an observed slot changes no binding. -/
theorem World.writeObserved_binding? (w : World ρ σ) (r : Nat) (key : String) (v : Value)
    (u : Nat) : (w.writeObserved r key v).heap.binding? u = w.heap.binding? u := by
  dsimp only [World.writeObserved]
  split
  next own =>
    cases hc : w.heap.object? r with
    | none => simp [hc, ObjectCell.hasOwn] at own
    | some c =>
      simp only [Option.getD_some]
      rw [w.heap.binding?_setObject
        (by rw [ObjectCell.binding_setSlot, w.heap.binding?_of_object? hc])]
  next => rfl

end ReactiveView.Store
