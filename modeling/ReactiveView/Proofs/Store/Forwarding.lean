import ReactiveView.Proofs.Store.Mutation
import Mathlib.Data.List.Perm.Subperm
/-!
# Following forwards

A proxy slot forwards a key of one object to another object, and reads and writes follow such
slots from object to object. Both walks are bounded by a chain length: a read through
`Heap.get` may follow as many forwards as the heap has cells, plus two, and a write through
`setProperty` as many.

This module shows that the bound never cuts a walk short. The forwards of a key form a
function from objects to objects, so a walk from `r` either stops after some number of hops
(`Heap.Hops`), a number that `r` alone decides, or goes round a cycle for ever. The objects on
a walk that stops are all different, so it stops within as many hops as there are cells
(`Hops.le_size`). A longer chain therefore walks exactly as the bound does (`chain_stable`, for
reads `lookup_stable` and for writes `setWithin_stable`), and reading or writing through a
forward is reading or writing the object it forwards to (`Heap.get_of_forward?`,
`setProperty_of_forward?`).

A read with no bound at all is `Heap.Reads`, the rules by which an object reads a key: an absent
key reads `undefined`, a plain or observed slot its value, and a proxy slot what the object it
forwards to reads. Such a read finishes exactly when the walk of its key stops (`reads_iff_hops`),
it has one answer (`Reads.unique`), and when it finishes `Heap.get` gives that answer
(`reads_get`). A heap whose forwards form no cycle is one where every walk stops
(`Heap.ForwardsStop`).
-/
namespace ReactiveView.Store

set_option autoImplicit false

variable {ρ σ : Type}

namespace Heap

/-- Where an object forwards a key: the source of its proxy slot for the key. -/
def forward? (h : Heap ρ) (r : Nat) (key : String) : Option Nat :=
  match (h.object? r).bind (·.find? key) with
  | some ⟨_, .proxy src, _⟩ => some src
  | _ => none

/-- Following the forwards of `key` from `r` stops after exactly `n` hops. -/
inductive Hops (h : Heap ρ) (key : String) : Nat → Nat → Prop
  | stop {r : Nat} : h.forward? r key = none → Hops h key 0 r
  | hop {n r src : Nat} : h.forward? r key = some src → Hops h key n src → Hops h key (n + 1) r

variable {h : Heap ρ} {key : String}

theorem forward?_eq_some {r src : Nat} :
    h.forward? r key = some src ↔
      ∃ c p, h.object? r = some c ∧ c.find? key = some p ∧ p.slot = .proxy src := by
  simp only [forward?]
  cases hr : h.object? r with
  | none => simp
  | some c =>
    cases hp : c.find? key with
    | none => simp [hp]
    | some p =>
      rcases p with ⟨k, slot, enumerable⟩
      cases slot <;> simp [hp]

/-- Only an object forwards. -/
theorem lt_of_forward? {r src : Nat} (fwd : h.forward? r key = some src) : r < h.cells.size := by
  obtain ⟨c, -, hr, -⟩ := forward?_eq_some.1 fwd
  exact h.lt_of_object? hr

/-- A walk that stops has one length. -/
theorem Hops.unique {n m r : Nat} (first : h.Hops key n r) (second : h.Hops key m r) : n = m := by
  induction first generalizing m with
  | stop none_ =>
    cases second with
    | stop _ => rfl
    | hop fwd _ => simp [none_] at fwd
  | hop fwd _ ih =>
    cases second with
    | stop none_ => simp [fwd] at none_
    | hop fwd' rest =>
      rw [fwd, Option.some.injEq] at fwd'
      subst fwd'
      rw [ih rest]

/-- The objects a walk of `n` hops leaves from: `n` different cells, each the start of a walk of
at most `n` hops. -/
theorem Hops.trail {n r : Nat} (walk : h.Hops key n r) :
    ∃ l : List Nat, l.length = n ∧ l.Nodup ∧
      ∀ x ∈ l, x < h.cells.size ∧ ∃ j ≤ n, h.Hops key j x := by
  induction walk with
  | stop _ => exact ⟨[], rfl, List.nodup_nil, by simp⟩
  | @hop n r src fwd rest ih =>
    obtain ⟨l, length, nodup, starts⟩ := ih
    -- `r` is `n + 1` hops from its end, every object after it at most `n`
    have fresh : r ∉ l := by
      intro mem
      obtain ⟨-, j, le, again⟩ := starts r mem
      have := Hops.unique (.hop fwd rest) again
      omega
    refine ⟨r :: l, by simp [length], List.nodup_cons.2 ⟨fresh, nodup⟩, ?_⟩
    intro x mem
    rcases List.mem_cons.1 mem with rfl | later
    · exact ⟨lt_of_forward? fwd, n + 1, Nat.le_refl _, .hop fwd rest⟩
    · obtain ⟨lt, j, le, again⟩ := starts x later
      exact ⟨lt, j, Nat.le_succ_of_le le, again⟩

/-- A walk that stops makes at most as many hops as there are cells. -/
theorem Hops.le_size {n r : Nat} (walk : h.Hops key n r) : n ≤ h.cells.size := by
  obtain ⟨l, length, nodup, starts⟩ := walk.trail
  have inside : l ⊆ List.range h.cells.size := fun x mem => List.mem_range.2 (starts x mem).1
  calc n = l.length := length.symm
    _ ≤ (List.range h.cells.size).length := (List.subperm_of_subset nodup inside).length_le
    _ = h.cells.size := List.length_range

/-! A walk along the forwards of `key` under a chain bound `n`, from the object `r`, with the
result `F n r`: with no chain left it gives one answer, one hop of chain follows one forward, and
an object that does not forward the key ends the walk, whatever chain is left. Reads and writes
through forwards are such walks. -/

/-- A walk that one more hop of chain would change follows forwards that stop after exactly as
many hops as the chain allowed. -/
theorem hops_of_ne {β : Type} (F : Nat → Nat → β) (zero : ∀ r r', F 0 r = F 0 r')
    (forward : ∀ {n r src}, h.forward? r key = some src → F (n + 1) r = F n src)
    (settled : ∀ {n r}, h.forward? r key = none → F (n + 1) r = F 1 r) :
    ∀ {n r : Nat}, F n r ≠ F (n + 1) r → h.Hops key n r
  | 0, r, differs => by
    cases fwd : h.forward? r key with
    | none => exact .stop fwd
    | some src => exact absurd ((zero r src).trans (forward fwd).symm) differs
  | n + 1, r, differs => by
    cases fwd : h.forward? r key with
    | none => exact absurd ((settled fwd).trans (settled fwd).symm) differs
    | some src =>
      rw [forward fwd, forward fwd] at differs
      exact .hop fwd (hops_of_ne F zero forward settled differs)

/-- A walk with a chain longer than the cells of the heap gives what any longer chain gives. -/
theorem chain_stable {β : Type} (F : Nat → Nat → β) (zero : ∀ r r', F 0 r = F 0 r')
    (forward : ∀ {n r src}, h.forward? r key = some src → F (n + 1) r = F n src)
    (settled : ∀ {n r}, h.forward? r key = none → F (n + 1) r = F 1 r) {n : Nat} (r : Nat)
    (long : h.cells.size < n) : F n r = F (n + 1) r := by
  by_contra differs
  have := (hops_of_ne F zero forward settled differs).le_size
  omega

end Heap

/-! ## Reads -/

namespace Heap

variable {h : Heap ρ} {key : String}

theorem lookup_forward {n r src : Nat} (fwd : h.forward? r key = some src) :
    h.lookup (n + 1) r key = h.lookup n src key := by
  obtain ⟨c, p, hr, hp, slot⟩ := forward?_eq_some.1 fwd
  simp [lookup, hr, hp, slot]

/-- Where an object does not forward the key, a read stops there, whatever the chain left. -/
theorem lookup_settled {n r : Nat} (settled : h.forward? r key = none) :
    h.lookup (n + 1) r key = h.lookup 1 r key := by
  cases hr : h.object? r with
  | none => simp only [lookup, hr]
  | some c =>
    cases hp : c.find? key with
    | none => simp only [lookup, hr, hp]
    | some p =>
      rcases p with ⟨k, slot, enumerable⟩
      cases slot with
      | plain v => simp only [lookup, hr, hp]
      | observed v => simp only [lookup, hr, hp]
      | proxy src => simp [forward?, hr, hp] at settled

/-- A chain longer than the cells of the heap reads as any longer one. -/
theorem lookup_stable {n : Nat} (r : Nat) (long : h.cells.size < n) :
    h.lookup n r key = h.lookup (n + 1) r key :=
  chain_stable (fun n r => h.lookup n r key) (fun _ _ => rfl) lookup_forward lookup_settled r long

/-- Reading a key through a forward is reading it from the object forwarded to. -/
theorem get_of_forward? {r src : Nat} (fwd : h.forward? r key = some src) :
    h.get r key = h.get src key := by
  simp only [get, walkFuel]
  rw [lookup_forward fwd, lookup_stable src (by omega)]

/-- A read with a chain longer than the hops of a walk that stops reads at the walk's end. -/
theorem lookup_of_hops {n r : Nat} (walk : h.Hops key n r) :
    ∀ {m : Nat}, n < m → h.lookup m r key = h.lookup (n + 1) r key := by
  induction walk with
  | stop settled =>
    intro m long
    obtain ⟨m, rfl⟩ : ∃ k, m = k + 1 := ⟨m - 1, by omega⟩
    exact lookup_settled settled
  | @hop n r src fwd _ ih =>
    intro m long
    obtain ⟨m, rfl⟩ : ∃ k, m = k + 1 := ⟨m - 1, by omega⟩
    rw [lookup_forward fwd, lookup_forward fwd, ih (by omega)]

/-! ## Reads with no bound -/

/-- Every walk along forwards stops: the forwards of no key go round a cycle. -/
def ForwardsStop (h : Heap ρ) : Prop := ∀ key r, ∃ n, h.Hops key n r

/-- Reading a key with no bound on forwards, by the rules of an object's reads: an absent key
reads `undefined`, a plain or observed slot its value, and a proxy slot what the object it
forwards to reads. -/
inductive Reads (h : Heap ρ) (key : String) : Nat → Value → Prop
  | absent {r : Nat} : (h.object? r).bind (·.find? key) = none → Reads h key r .undefined
  | plain {r : Nat} {k : String} {v : Value} {e : Bool} :
      (h.object? r).bind (·.find? key) = some ⟨k, .plain v, e⟩ → Reads h key r v
  | observed {r : Nat} {k : String} {v : Value} {e : Bool} :
      (h.object? r).bind (·.find? key) = some ⟨k, .observed v, e⟩ → Reads h key r v
  | forward {r src : Nat} {v : Value} :
      h.forward? r key = some src → Reads h key src v → Reads h key r v

/-- An object whose slot for the key is not a proxy does not forward it. -/
theorem forward?_eq_none_of_slot {r : Nat} {p : Property}
    (slot : (h.object? r).bind (·.find? key) = some p) (own : ∀ src, p.slot ≠ .proxy src) :
    h.forward? r key = none := by
  rcases p with ⟨k, s, e⟩
  cases s with
  | proxy src => exact absurd rfl (own src)
  | plain v | observed v => simp [forward?, slot]

/-- A walk that stops reads, at its end, what a bounded read one hop longer gives. -/
theorem reads_of_hops {n r : Nat} (walk : h.Hops key n r) : h.Reads key r (h.lookup (n + 1) r key) := by
  induction walk with
  | @stop r settled =>
    cases hr : h.object? r with
    | none => simpa only [lookup, hr] using Reads.absent (by simp [hr])
    | some c =>
      cases hp : c.find? key with
      | none => simpa only [lookup, hr, hp] using Reads.absent (by simp [hr, hp])
      | some p =>
        rcases p with ⟨k, slot, e⟩
        cases slot with
        | plain v => simpa only [lookup, hr, hp] using Reads.plain (k := k) (e := e) (by simp [hr, hp])
        | observed v =>
          simpa only [lookup, hr, hp] using Reads.observed (k := k) (e := e) (by simp [hr, hp])
        | proxy src => simp [forward?, hr, hp] at settled
  | hop fwd _ ih =>
    rw [lookup_forward fwd]
    exact .forward fwd ih

/-- A read that finishes follows a walk that stops. -/
theorem Reads.hops {r : Nat} {v : Value} (read : h.Reads key r v) : ∃ n, h.Hops key n r := by
  induction read with
  | absent missing => exact ⟨0, .stop (by simp [forward?, missing])⟩
  | plain slot => exact ⟨0, .stop (forward?_eq_none_of_slot slot fun _ => by simp)⟩
  | observed slot => exact ⟨0, .stop (forward?_eq_none_of_slot slot fun _ => by simp)⟩
  | forward fwd _ ih =>
    obtain ⟨n, walk⟩ := ih
    exact ⟨n + 1, .hop fwd walk⟩

/-- A read without a bound finishes exactly when the walk of its key stops. -/
theorem reads_iff_hops {r : Nat} : (∃ v, h.Reads key r v) ↔ ∃ n, h.Hops key n r :=
  ⟨fun found => found.elim fun _ read => read.hops,
    fun found => found.elim fun _ walk => ⟨_, reads_of_hops walk⟩⟩

/-- A read has one answer. -/
theorem Reads.unique {r : Nat} {v v' : Value} (read : h.Reads key r v) (read' : h.Reads key r v') :
    v = v' := by
  induction read generalizing v' with
  | absent missing =>
    cases read' with
    | absent _ => rfl
    | plain slot | observed slot => simp [missing] at slot
    | forward fwd _ => simp [forward?, missing] at fwd
  | plain slot =>
    cases read' with
    | absent missing => simp [missing] at slot
    | plain slot' | observed slot' => simp_all
    | forward fwd _ => simp [forward?, slot] at fwd
  | observed slot =>
    cases read' with
    | absent missing => simp [missing] at slot
    | plain slot' | observed slot' => simp_all
    | forward fwd _ => simp [forward?, slot] at fwd
  | forward fwd _ ih =>
    cases read' with
    | absent missing => simp [forward?, missing] at fwd
    | plain slot | observed slot => simp [forward?, slot] at fwd
    | forward fwd' rest =>
      rw [fwd, Option.some.injEq] at fwd'
      subst fwd'
      exact ih rest

/-- Where the walk of a key stops, the bounded read of `Heap.get` is the read without a bound. -/
theorem reads_get {n r : Nat} (walk : h.Hops key n r) : h.Reads key r (h.get r key) := by
  have long : n < h.walkFuel := by
    have := walk.le_size
    simp only [walkFuel]
    omega
  rw [get, lookup_of_hops walk long]
  exact reads_of_hops walk

end Heap

/-! ## Writes -/

section Writes

variable {react : Handler ρ σ} {fuel : Nat} {key : String} {v : Value}

open Heap

theorem setWithin_forward {n r src : Nat} {w : World ρ σ} (fwd : w.heap.forward? r key = some src) :
    (setWithin react fuel (n + 1) r key v).run w = (setWithin react fuel n src key v).run w := by
  obtain ⟨c, p, hr, hp, slot⟩ := forward?_eq_some.1 fwd
  rcases p with ⟨k, slot', enumerable⟩
  cases slot
  simp [setWithin, hr, hp]

/-- Where an object does not forward the key, a write stops there, whatever the chain left. -/
theorem setWithin_settled {n r : Nat} {w : World ρ σ} (settled : w.heap.forward? r key = none) :
    (setWithin react fuel (n + 1) r key v).run w = (setWithin react fuel 1 r key v).run w := by
  simp only [setWithin, StateT.run_bind, run_objectAt, ok_bind]
  cases hr : w.heap.object? r with
  | none => rfl
  | some c =>
    cases hp : c.find? key with
    | none => simp only [Option.getD_some, hp]
    | some p =>
      rcases p with ⟨k, slot, enumerable⟩
      cases slot with
      | plain old => simp only [Option.getD_some, hp]
      | observed old => simp only [Option.getD_some, hp]
      | proxy src => simp [forward?, hr, hp] at settled

/-- A chain longer than the cells of the heap writes as any longer one. -/
theorem setWithin_stable {n : Nat} (r : Nat) {w : World ρ σ} (long : w.heap.cells.size < n) :
    (setWithin react fuel n r key v).run w = (setWithin react fuel (n + 1) r key v).run w :=
  chain_stable (fun n r => (setWithin react fuel n r key v).run w) (fun _ _ => rfl)
    setWithin_forward setWithin_settled r long

/-- Writing a key through a forward is writing it to the object forwarded to. -/
theorem setProperty_of_forward? {r src : Nat} {w : World ρ σ}
    (fwd : w.heap.forward? r key = some src) :
    (setProperty react fuel r key v).run w = (setProperty react fuel src key v).run w := by
  simp only [setProperty, StateT.run_bind, run_heap, ok_bind, walkFuel]
  rw [setWithin_forward fwd, setWithin_stable src (by omega)]

end Writes

end ReactiveView.Store
