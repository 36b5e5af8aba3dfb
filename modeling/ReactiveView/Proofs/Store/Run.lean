import Mathlib.Order.Defs.Unbundled
import ReactiveView.Store.Monad
/-!
# Running store operations

Operations on observed data run in `StoreM`, a state monad over the world that may halt. A
run of a composite operation succeeds exactly when each of its steps does, each step starting
from the world the previous one left (`run_bind_ok`); halting throws the world away.

`Keeps R m` says that every successful run of `m` relates its start and end worlds by `R`. For
a preorder `R` this is closed under `pure`, bind and the list folds and loops that the store
operations are written with, so a frame condition (observers untouched, a heap that only
grows) is proved once for each primitive and carried through whole walks.
-/
namespace ReactiveView.Store

set_option autoImplicit false

variable {ρ σ α β γ : Type}

/-! ## Opening a run -/

@[simp] theorem ok_bind {ε : Type} (a : α) (f : α → Except ε β) : (Except.ok a >>= f) = f a := rfl

@[simp] theorem pure_eq_ok {ε : Type} (a : α) : (pure a : Except ε α) = .ok a := rfl

@[simp] theorem ok_map {ε : Type} (a : α) (f : α → β) :
    (f <$> (Except.ok a : Except ε α)) = .ok (f a) := rfl

@[simp] theorem run_heap (w : World ρ σ) : (heap : StoreM ρ σ (Heap ρ)).run w = .ok (w.heap, w) :=
  rfl

@[simp] theorem run_modifyHeap (f : Heap ρ → Heap ρ) (w : World ρ σ) :
    (modifyHeap f : StoreM ρ σ Unit).run w = .ok ((), { w with heap := f w.heap }) := rfl

@[simp] theorem run_throw (e : Halt) (w : World ρ σ) :
    (throw e : StoreM ρ σ α).run w = .error e := rfl

/-- A bind succeeds exactly when its first step does and the rest succeeds from there. -/
theorem run_bind_ok {x : StoreM ρ σ α} {f : α → StoreM ρ σ β} {w w' : World ρ σ} {b : β} :
    (x >>= f).run w = .ok (b, w') ↔ ∃ a w₁, x.run w = .ok (a, w₁) ∧ (f a).run w₁ = .ok (b, w') := by
  simp only [StateT.run_bind]
  cases x.run w with
  | error e => simp [bind, Except.bind]
  | ok p =>
    obtain ⟨a, w₁⟩ := p
    simp only [ok_bind]
    exact ⟨fun hf => ⟨a, w₁, rfl, hf⟩, fun ⟨_, _, same, hf⟩ => by cases same; exact hf⟩

theorem run_map_ok {x : StoreM ρ σ α} {f : α → β} {w w' : World ρ σ} {b : β} :
    (f <$> x).run w = .ok (b, w') ↔ ∃ a, x.run w = .ok (a, w') ∧ f a = b := by
  simp only [StateT.run_map]
  cases x.run w with
  | error e => simp [Functor.map, Except.map]
  | ok p =>
    obtain ⟨a, w₁⟩ := p
    simp only [ok_map, Except.ok.injEq, Prod.mk.injEq]
    constructor
    · rintro ⟨hb, rfl⟩
      exact ⟨a, ⟨rfl, rfl⟩, hb⟩
    · rintro ⟨_, ⟨rfl, rfl⟩, hb⟩
      exact ⟨hb, rfl⟩

/-- Induction over a fold: an invariant of the items folded so far, the accumulator and the world
that each step carries one item further holds of the whole list at the end. -/
theorem foldlM_induct {f : γ → β → StoreM ρ σ γ} (I : List β → γ → World ρ σ → Prop) :
    ∀ (xs : List β),
      (∀ pre x acc w acc' w', pre ++ [x] <+: xs → I pre acc w → (f acc x).run w = .ok (acc', w') →
        I (pre ++ [x]) acc' w') →
      ∀ {init : γ} {w : World ρ σ} {out : γ} {w' : World ρ σ}, I [] init w →
        (xs.foldlM f init).run w = .ok (out, w') → I xs out w'
  | [], _, init, w, out, w', start, run => by
    simp only [List.foldlM_nil, StateT.run_pure, pure_eq_ok, Except.ok.injEq, Prod.mk.injEq] at run
    obtain ⟨rfl, rfl⟩ := run
    exact start
  | x :: xs, step, init, w, out, w', start, run => by
    rw [List.foldlM_cons] at run
    obtain ⟨acc, w₁, first, rest⟩ := run_bind_ok.1 run
    have one : I [x] acc w₁ := step [] x init w acc w₁ (by simp) start first
    exact foldlM_induct (fun pre => I (x :: pre)) xs
      (fun pre y acc w acc' w' below => step (x :: pre) y acc w acc' w' (by simpa using below))
      one rest

/-- Two binds run alike when their continuations do from every result of the first step. -/
theorem run_bind_congr {x : StoreM ρ σ α} {f g : α → StoreM ρ σ β} {w : World ρ σ}
    (same : ∀ a w₁, x.run w = .ok (a, w₁) → (f a).run w₁ = (g a).run w₁) :
    (x >>= f).run w = (x >>= g).run w := by
  simp only [StateT.run_bind]
  cases first : x.run w with
  | error e => rfl
  | ok p =>
    obtain ⟨a, w₁⟩ := p
    simpa only [ok_bind] using same a w₁ first

/-- Two folds run alike when their steps do from every accumulator and world of an invariant
that the steps of the first keep. -/
theorem foldlM_run_congr {f g : γ → β → StoreM ρ σ γ} (I : γ → World ρ σ → Prop) (xs : List β)
    (same : ∀ x ∈ xs, ∀ acc w, I acc w → (f acc x).run w = (g acc x).run w)
    (keep : ∀ x ∈ xs, ∀ acc w acc' w', I acc w → (f acc x).run w = .ok (acc', w') → I acc' w')
    {init : γ} {w : World ρ σ} (start : I init w) :
    (xs.foldlM f init).run w = (xs.foldlM g init).run w := by
  induction xs generalizing init w with
  | nil => rfl
  | cons x xs ih =>
    rw [List.foldlM_cons, List.foldlM_cons]
    calc (f init x >>= fun acc => xs.foldlM f acc).run w
        = (f init x >>= fun acc => xs.foldlM g acc).run w :=
          run_bind_congr fun acc w₁ first =>
            ih (fun y hy => same y (List.mem_cons_of_mem x hy))
              (fun y hy => keep y (List.mem_cons_of_mem x hy))
              (keep x (List.mem_cons_self ..) init w acc w₁ start first)
      _ = (g init x >>= fun acc => xs.foldlM g acc).run w := by
          rw [StateT.run_bind, StateT.run_bind, same x (List.mem_cons_self ..) init w start]

/-- An invariant of the accumulator and the world that every step of a fold keeps holds at its
end. -/
theorem foldlM_invariant {f : γ → β → StoreM ρ σ γ} (I : γ → World ρ σ → Prop) (xs : List β)
    (step : ∀ x ∈ xs, ∀ acc w acc' w', I acc w → (f acc x).run w = .ok (acc', w') → I acc' w')
    {init : γ} {w : World ρ σ} {out : γ} {w' : World ρ σ} (start : I init w)
    (run : (xs.foldlM f init).run w = .ok (out, w')) : I out w' :=
  foldlM_induct (fun _ => I) xs
    (fun _ x acc w acc' w' below => step x (below.subset (by simp)) acc w acc' w')
    start run

/-! ## Runs that never halt -/

/-- `m` returns from every world: it never halts. -/
def Returns (m : StoreM ρ σ α) : Prop := ∀ w : World ρ σ, ∃ a w', m.run w = .ok (a, w')

theorem Returns.pure (a : α) : Returns (pure a : StoreM ρ σ α) := fun w => ⟨a, w, rfl⟩

theorem Returns.heap : Returns (heap : StoreM ρ σ (Heap ρ)) := fun w => ⟨w.heap, w, rfl⟩

theorem Returns.bind {x : StoreM ρ σ α} {f : α → StoreM ρ σ β} (hx : Returns x)
    (hf : ∀ a, Returns (f a)) : Returns (x >>= f) := by
  intro w
  obtain ⟨a, w₁, first⟩ := hx w
  obtain ⟨b, w', rest⟩ := hf a w₁
  exact ⟨b, w', run_bind_ok.2 ⟨a, w₁, first, rest⟩⟩

/-- A fold never halts when none of its steps does, on the items folded over. -/
theorem Returns.foldlM {f : γ → β → StoreM ρ σ γ} (xs : List β)
    (step : ∀ acc, ∀ x ∈ xs, Returns (f acc x)) (init : γ) : Returns (xs.foldlM f init) := by
  induction xs generalizing init with
  | nil => exact Returns.pure init
  | cons x xs ih =>
    rw [List.foldlM_cons]
    exact Returns.bind (step init x (List.mem_cons_self ..)) fun acc =>
      ih (fun acc y hy => step acc y (List.mem_cons_of_mem x hy)) acc

/-! ## Relations every run keeps -/

/-- Every successful run of `m` relates its start and end worlds by `R`. -/
def Keeps (R : World ρ σ → World ρ σ → Prop) (m : StoreM ρ σ α) : Prop :=
  ∀ ⦃w : World ρ σ⦄ ⦃a : α⦄ ⦃w' : World ρ σ⦄, m.run w = .ok (a, w') → R w w'

section Keeps

variable {R : World ρ σ → World ρ σ → Prop}

theorem Keeps.map {x : StoreM ρ σ α} (f : α → β) (hx : Keeps R x) : Keeps R (f <$> x) := by
  intro w b w' run
  obtain ⟨a, first, -⟩ := run_map_ok.1 run
  exact hx first

theorem Keeps.modifyHeap {f : Heap ρ → Heap ρ} (hf : ∀ w : World ρ σ, R w { w with heap := f w.heap }) :
    Keeps R (modifyHeap f : StoreM ρ σ Unit) := by
  intro w u w' run
  cases run
  exact hf w

theorem Keeps.throw (e : Halt) : Keeps R (throw e : StoreM ρ σ α) := by
  intro w a w' run
  cases run

variable [IsPreorder (World ρ σ) R]

theorem Keeps.heap : Keeps R (heap : StoreM ρ σ (Heap ρ)) := by
  intro w h w' run
  cases run
  exact refl_of R w

theorem Keeps.pure (a : α) : Keeps R (pure a : StoreM ρ σ α) := by
  intro w b w' run
  cases run
  exact refl_of R w

theorem Keeps.bind {x : StoreM ρ σ α} {f : α → StoreM ρ σ β} (hx : Keeps R x)
    (hf : ∀ a, Keeps R (f a)) : Keeps R (x >>= f) := by
  intro w b w' run
  obtain ⟨a, w₁, first, rest⟩ := run_bind_ok.1 run
  exact trans_of R (hx first) (hf a rest)

/-- A fold keeps `R` when each of its steps does, on the items folded over. -/
theorem Keeps.foldlM {f : γ → β → StoreM ρ σ γ} :
    ∀ (xs : List β), (∀ acc, ∀ x ∈ xs, Keeps R (f acc x)) → ∀ init, Keeps R (xs.foldlM f init)
  | [], _, init => by
    rw [List.foldlM_nil]
    exact Keeps.pure init
  | x :: xs, step, init => by
    rw [List.foldlM_cons]
    exact Keeps.bind (step init x (List.mem_cons_self ..)) fun acc =>
      Keeps.foldlM xs (fun acc y hy => step acc y (List.mem_cons_of_mem x hy)) acc

/-- A loop keeps `R` when each of its rounds does. -/
theorem Keeps.forM {f : β → StoreM ρ σ PUnit} :
    ∀ (xs : List β), (∀ x ∈ xs, Keeps R (f x)) → Keeps R (xs.forM f)
  | [], _ => by
    rw [List.forM_eq_forM, List.forM_nil]
    exact Keeps.pure _
  | x :: xs, step => by
    rw [List.forM_eq_forM, List.forM_cons]
    exact Keeps.bind (step x (List.mem_cons_self ..)) fun _ =>
      by simpa only [List.forM_eq_forM] using Keeps.forM xs fun y hy => step y (List.mem_cons_of_mem x hy)

end Keeps

end ReactiveView.Store
