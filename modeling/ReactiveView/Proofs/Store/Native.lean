import ReactiveView.Proofs.Double.Sign
import ReactiveView.Proofs.Store.Mutation
/-!
# Array mutators and the script standard

The mutators are meant to behave as their namesakes on script arrays do (the ECMAScript
`Array.prototype` methods). `Script.native` writes the standard down for the calls whose
positions and counts are numbers, `sort` aside: the items an array ends with, and what the call
gives back, which is a value, a new array of the removed items, or the array itself. For
`splice` the standard turns its start and its delete count into integers or infinities
(ToIntegerOrInfinity, which rounds toward zero), counts a negative start back from the end,
clamps both to the array, and deletes nothing when it is given no arguments.

`callArray_runs_natively`: on an array whose length fits a machine word, a call is one `mutate`
with the standard's change of the items, followed by handing out the standard's answer, except
for two kinds of `splice` (`spliceSlips`). Without arguments it deletes every item
(`splice_without_arguments_empties`), and a start between `-1` and `0`, which the standard
rounds to `0`, makes it start at the end.
-/
namespace ReactiveView.Store

set_option autoImplicit false

namespace Script

/-! ## The standard -/

/-- What ToIntegerOrInfinity gives: an integer, or an infinity. -/
inductive Extended where
  | negInf
  | int (n : Int)
  | posInf
  deriving DecidableEq, Repr

/-- ToIntegerOrInfinity on a number: a NaN gives `0`, an infinity stays infinite, and any other
value loses its fraction, rounding toward zero (so `-0.5` gives `0`). -/
def toIntegerOrInfinity (x : Double) : Extended :=
  if x.isNaN then .int 0
  else if x.isInfinite then (if x.negative then .negInf else .posInf)
  else .int x.truncate

/-- Where `splice` starts in `len` items, given its relative start: a negative start counts
back from the end, and the result lies between `0` and `len`. -/
def actualStart (len : Nat) : Extended → Nat
  | .negInf => 0
  | .int n => if n < 0 then (len + n).toNat else min n.toNat len
  | .posInf => len

/-- How many items `splice` deletes from `start` on: its delete count clamped between `0` and
the number of items left. -/
def actualDeleteCount (len start : Nat) : Extended → Nat
  | .negInf => 0
  | .int n => min n.toNat (len - start)
  | .posInf => len - start

/-- What a method gives back. -/
inductive Answer where
  /-- A value: a new length, an item taken out, or `undefined`. -/
  | value (v : Value)
  /-- A new array holding the removed items. -/
  | removed (items : List Value)
  /-- The array itself. -/
  | self

/-- `splice` on `items`, given its start and its delete count when present, and the items to
insert: the new items and the removed ones. Without a start it deletes nothing. -/
def splice (start count : Option Double) (inserted items : List Value) : List Value × Answer :=
  let len := items.length
  let first := match start with
    | some s => actualStart len (toIntegerOrInfinity s)
    | none => 0
  let deleted := match start, count with
    | none, _ => 0
    | some _, none => len - first
    | some _, some c => actualDeleteCount len first (toIntegerOrInfinity c)
  (items.take first ++ inserted ++ items.drop (first + deleted),
    .removed ((items.drop first).take deleted))

/-- The standard's mutators on script arrays: for a call, the change of the items with the
answer, when the positions and counts the call reads are numbers; `sort` is left out. -/
def native : ArrayMethod → List Value → Option (List Value → List Value × Answer)
  | .push, args => some fun items =>
      (items ++ args, .value (.number (Double.ofNat (items.length + args.length))))
  | .pop, _ => some fun items =>
      if items.isEmpty then ([], .value .undefined)
      else (items.dropLast, .value (items.getLastD .undefined))
  | .shift, _ => some fun items =>
      match items with
      | [] => ([], .value .undefined)
      | first :: rest => (rest, .value first)
  | .unshift, args => some fun items =>
      (args ++ items, .value (.number (Double.ofNat (items.length + args.length))))
  | .splice, [] => some (splice none none [])
  | .splice, [.number s] => some (splice (some s) none [])
  | .splice, .number s :: .number c :: inserted => some (splice (some s) (some c) inserted)
  | .splice, _ => none
  | .sort, _ => none
  | .reverse, _ => some fun items => (items.reverse, .self)

variable {ρ σ : Type}

/-- Hand out an answer of a call on the array `r`: the removed items go into a new array. -/
def Answer.give (r : Nat) : Answer → StoreM ρ σ Value
  | .value v => pure v
  | .removed items => do return .array (← newArray items)
  | .self => pure (.array r)

/-- The `splice` calls whose start and count the engine reads otherwise than the standard: no
arguments at all, or a start between `-1` and `0`. -/
def spliceSlips (args : List Value) : Prop :=
  args = [] ∨
    ∃ x rest, args = .number x :: rest ∧ x.lt (Double.zero false) = true ∧ x.truncate = 0

end Script

open Script

/-! ## Reading positions and counts -/

/-- A start read as a position agrees with the standard, except between `-1` and `0`. -/
theorem relativeIndex_number {x : Double} {len : Nat} (fits : len ≤ Double.wordMax)
    (whole : ¬ (x.lt (Double.zero false) = true ∧ x.truncate = 0)) :
    relativeIndex (.number x) len = actualStart len (toIntegerOrInfinity x) := by
  simp only [relativeIndex, Value.number?]
  by_cases below : x.lt (Double.zero false) = true
  · obtain ⟨notNaN, sign, -⟩ := Double.lt_zero_iff.1 below
    have nonpos := Double.truncate_nonpos sign
    have negative : x.truncate < 0 :=
      Int.lt_iff_le_and_ne.2 ⟨nonpos, fun zero => whole ⟨below, zero⟩⟩
    rw [if_pos below]
    by_cases infinite : x.isInfinite = true
    · -- minus infinity counts back past the first item
      simp [toIntegerOrInfinity, actualStart, Double.toCount, notNaN, infinite, sign]
      omega
    · simp [toIntegerOrInfinity, actualStart, Double.toCount, notNaN, infinite,
        Double.truncate_neg, negative]
      omega
  · rw [if_neg below]
    by_cases nan : x.isNaN = true
    · simp [toIntegerOrInfinity, actualStart, Double.toCount, nan]
    · have notNaN : x.isNaN = false := by simpa using nan
      -- not below zero: the sign bit is clear, or the value is a zero
      have above : x.negative = false ∨ (x.field = 0 ∧ x.fraction = 0) := by
        by_cases sign : x.negative = true
        · right
          by_contra nonzero
          exact below (Double.lt_zero_iff.2 ⟨notNaN, sign, by omega⟩)
        · exact .inl (by simpa using sign)
      by_cases infinite : x.isInfinite = true
      · have sign : x.negative = false := by
          simp only [Double.isInfinite, Bool.and_eq_true, beq_iff_eq] at infinite
          rcases above with sign | ⟨zero, -⟩
          · exact sign
          · omega
        simp [toIntegerOrInfinity, actualStart, Double.toCount, notNaN, infinite, sign]
        omega
      · have nonneg : 0 ≤ x.truncate := by
          rcases above with sign | ⟨zero, fraction⟩
          · exact Double.truncate_nonneg sign
          · rw [Double.truncate_of_zero zero fraction]
        simp [toIntegerOrInfinity, actualStart, Double.toCount, notNaN, infinite,
          Int.not_lt.2 nonneg]
        omega

/-- A delete count read as a count and clamped to the items left agrees with the standard. -/
theorem toCount_clamped (x : Double) {len : Nat} (start : Nat) (fits : len - start ≤ Double.wordMax) :
    min (x.toCount Double.wordMax) (len - start) =
      actualDeleteCount len start (toIntegerOrInfinity x) := by
  by_cases nan : x.isNaN = true
  · simp [toIntegerOrInfinity, actualDeleteCount, Double.toCount, nan]
  · by_cases infinite : x.isInfinite = true
    · cases sign : x.negative <;>
        simp [toIntegerOrInfinity, actualDeleteCount, Double.toCount, nan, infinite, sign]
      omega
    · simp [toIntegerOrInfinity, actualDeleteCount, Double.toCount, nan, infinite]
      omega

/-- What `spliceItems` does from a start inside the items: the count is cut to the items left. -/
theorem spliceItems_of_le {items : List Value} {start : Nat} (count : Nat) (values : List Value)
    (inside : start ≤ items.length) :
    spliceItems items start count values =
      (items.take start ++ values ++ items.drop (start + min count (items.length - start)),
        (items.drop start).take (min count (items.length - start))) := by
  have stop : min (start + count) items.length = start + min count (items.length - start) := by
    omega
  simp only [spliceItems, Nat.min_eq_left inside, stop, Nat.add_sub_cancel_left]

theorem actualStart_le (len : Nat) (e : Extended) : actualStart len e ≤ len := by
  cases e with
  | int n =>
    simp only [actualStart]
    split <;> omega
  | negInf => exact Nat.zero_le len
  | posInf => exact Nat.le_refl len

/-! ## Running a call -/

variable {ρ σ : Type}

/-- Changing what a mutator gives back changes nothing else. -/
theorem mutate_map {α β : Type} (react : Handler ρ σ) (fuel r : Nat)
    (op : List Value → List Value × α) (f : α → β) :
    mutate react fuel r (fun items => ((op items).1, f (op items).2)) =
      f <$> mutate react fuel r op := by
  simp only [mutate, map_bind]
  congr
  funext c
  congr
  funext u
  cases c.binding with
  | none => simp
  | some b => simp

/-- A mutator reads the items once, so two changes that agree on them run alike. -/
theorem mutate_congr {α γ : Type} {react : Handler ρ σ} {fuel r : Nat}
    {op : List Value → List Value × α} {w : World ρ σ} {c : ArrayCell}
    (hc : w.heap.array? r = some c) (op' : List Value → List Value × α)
    (same : op c.items = op' c.items) (k : α → StoreM ρ σ γ) :
    (mutate react fuel r op >>= k).run w = (mutate react fuel r op' >>= k).run w := by
  simp only [mutate, bind_assoc, StateT.run_bind, run_arrayAt, hc, Option.getD_some, ok_bind, same]

/-- A change that agrees with a mutator on the new items, and answers with what the mutator
gives back, hands that answer out after the mutator runs. -/
theorem mutate_give {α : Type} (react : Handler ρ σ) (fuel r : Nat)
    {change : List Value → List Value × Answer} (op : List Value → List Value × α)
    (f : α → Answer) (agree : ∀ items, change items = ((op items).1, f (op items).2)) :
    (mutate react fuel r change >>= Answer.give r) =
      (mutate react fuel r op >>= fun a => Answer.give r (f a)) := by
  rw [show change = _ from funext agree, mutate_map, map_eq_pure_bind, bind_assoc]
  simp

/-- A `splice` whose change agrees with the engine's on the items runs as the engine's does. -/
theorem mutate_splice {react : Handler ρ σ} {fuel r : Nat}
    {change : List Value → List Value × Answer} {w : World ρ σ} {c : ArrayCell}
    (hc : w.heap.array? r = some c) {start count : Nat} {inserted : List Value}
    (agrees : change c.items = Prod.map id Answer.removed (spliceItems c.items start count inserted)) :
    (mutate react fuel r change >>= Answer.give r).run w =
      (do
        let removed ← mutate react fuel r fun items => spliceItems items start count inserted
        return Value.array (← newArray removed)).run w := by
  rw [mutate_congr hc (fun items => ((spliceItems items start count inserted).1,
      .removed (spliceItems items start count inserted).2)) agrees,
    mutate_give react fuel r (fun items => spliceItems items start count inserted) Answer.removed
      fun _ => rfl]
  rfl

/-- A change that agrees with a mutator giving back a value, and answers with that value, runs
as the mutator does. -/
theorem mutate_give_value (react : Handler ρ σ) (fuel r : Nat)
    {change : List Value → List Value × Answer} (op : List Value → List Value × Value)
    (agree : ∀ items, change items = ((op items).1, .value (op items).2)) :
    (mutate react fuel r change >>= Answer.give r) = mutate react fuel r op := by
  rw [mutate_give react fuel r op Answer.value agree]
  exact bind_pure _

/-- The mutators other than `sort` do what the standard says on every array whose length fits a
machine word (a vector's length always does), for every call whose positions and counts are
numbers, but for the `splice` calls of `spliceSlips`: the call is one `mutate` that changes the
items as the standard does (and, on a bound array, binds the new items and reports the new
length), followed by handing out the standard's answer. -/
theorem callArray_runs_natively {react : Handler ρ σ} {fuel r : Nat} {m : ArrayMethod}
    {args : List Value} {change : List Value → List Value × Answer} {w : World ρ σ}
    {c : ArrayCell} (hc : w.heap.array? r = some c) (fits : c.items.length ≤ Double.wordMax)
    (standard : native m args = some change) (read : m = .splice → ¬ spliceSlips args) :
    (callArray react fuel r m args).run w = (mutate react fuel r change >>= Answer.give r).run w := by
  cases m with
  | push =>
    simp only [native, Option.some.injEq] at standard
    subst standard
    apply congrArg (StateT.run · w)
    simp only [callArray]
    -- the new length is what the engine's change gives back
    refine (mutate_give react fuel r _ (fun n => .value (.number (Double.ofNat n)))
      fun items => ?_).symm
    simp
  | unshift =>
    simp only [native, Option.some.injEq] at standard
    subst standard
    apply congrArg (StateT.run · w)
    simp only [callArray]
    refine (mutate_give react fuel r _ (fun n => .value (.number (Double.ofNat n)))
      fun items => ?_).symm
    simp [Nat.add_comm]
  | pop =>
    simp only [native, Option.some.injEq] at standard
    subst standard
    apply congrArg (StateT.run · w)
    simp only [callArray]
    refine (mutate_give_value react fuel r _ fun items => ?_).symm
    rcases List.eq_nil_or_concat items with rfl | ⟨front, last, rfl⟩ <;> simp
  | shift =>
    simp only [native, Option.some.injEq] at standard
    subst standard
    apply congrArg (StateT.run · w)
    simp only [callArray]
    refine (mutate_give_value react fuel r _ fun items => ?_).symm
    cases items <;> rfl
  | reverse =>
    simp only [native, Option.some.injEq] at standard
    subst standard
    -- both give the array itself back, whatever the change
    rw [mutate_give react fuel r (fun items => (items.reverse, ())) (fun _ => Answer.self)
      fun _ => rfl]
    show (mutate react fuel r fun items =>
      ((items.reverse, ()).1, (fun _ => Value.array r) (items.reverse, ()).2)).run w = _
    rw [mutate_map react fuel r (fun items => (items.reverse, ())) (fun _ => Value.array r),
      map_eq_pure_bind]
    rfl
  | sort => simp [native] at standard
  | splice =>
    have slips := read rfl
    have length : w.heap.items r = c.items := w.heap.items_of_array? hc
    rcases args with _ | ⟨start, rest⟩
    · exact absurd (.inl rfl) slips
    cases start
    case number s =>
      -- the start is read as the standard reads it
      have whole : ¬ (s.lt (Double.zero false) = true ∧ s.truncate = 0) :=
        fun both => slips (.inr ⟨s, rest, rfl, both.1, both.2⟩)
      have first := relativeIndex_number fits whole
      have inside : relativeIndex (.number s) c.items.length ≤ c.items.length :=
        first ▸ actualStart_le _ _
      rcases rest with _ | ⟨count, inserted⟩
      · simp only [native, Option.some.injEq] at standard
        subst standard
        have agrees : Script.splice (some s) none [] c.items = Prod.map id Answer.removed
            (spliceItems c.items (relativeIndex (.number s) c.items.length)
              (c.items.length - relativeIndex (.number s) c.items.length) []) := by
          simp only [Script.splice, ← first, spliceItems_of_le _ _ inside, Nat.min_self,
            Prod.map_apply, id]
        rw [mutate_splice hc agrees]
        simp only [callArray, StateT.run_bind, run_heap, ok_bind, length]
        rfl
      cases count
      case number n =>
        simp only [native, Option.some.injEq] at standard
        subst standard
        -- the count is clamped to the items left, as the standard clamps it
        have clamped := toCount_clamped n (relativeIndex (.number s) c.items.length)
          (Nat.le_trans (Nat.sub_le _ _) fits)
        have agrees : Script.splice (some s) (some n) inserted c.items = Prod.map id Answer.removed
            (spliceItems c.items (relativeIndex (.number s) c.items.length)
              (n.toCount Double.wordMax) inserted) := by
          simp only [Script.splice, ← first, ← clamped, spliceItems_of_le _ _ inside,
            Prod.map_apply, id]
        rw [mutate_splice hc agrees]
        simp only [callArray, StateT.run_bind, run_heap, ok_bind, length]
        rfl
      all_goals simp [native] at standard
    all_goals simp [native] at standard

/-- `splice(-1, 1, "x")` on `[1, 2, 3]` reads its start and count as the standard does. -/
theorem splice_from_the_end_runs_natively :
    let items := [Value.number (Double.ofNat 1), .number (Double.ofNat 2), .number (Double.ofNat 3)]
    let args := [Value.number (Double.ofInt (-1)), .number (Double.ofNat 1), .string "x"]
    let w : World Unit Unit := ⟨⟨#[.array ⟨items, none⟩], #[]⟩, ()⟩
    let change := Script.splice (some (Double.ofInt (-1))) (some (Double.ofNat 1)) [.string "x"]
    w.heap.array? 0 = some ⟨items, none⟩ ∧ items.length ≤ Double.wordMax ∧
      native .splice args = some change ∧ ¬ spliceSlips args ∧
      (callArray (fun _ _ _ => pure ()) 0 0 .splice args).run w =
        (mutate (fun _ _ _ => pure ()) 0 0 change >>= Answer.give 0).run w := by
  intro items args w change
  have whole : ¬ spliceSlips args := by
    rintro (empty | ⟨x, rest, listed, -, zero⟩)
    · simp [args] at empty
    · simp only [args, List.cons.injEq, Value.number.injEq] at listed
      rw [← listed.1] at zero
      exact absurd zero (by decide +kernel)
  exact ⟨rfl, by decide, rfl, whole,
    callArray_runs_natively rfl (by decide) rfl fun _ => whole⟩

/-- `splice()` on `[1, 2, 3]`: the standard deletes nothing and gives back an empty array, but
the call deletes every item and gives them back in a new array. -/
theorem splice_without_arguments_empties :
    let items := [Value.number (Double.ofNat 1), .number (Double.ofNat 2), .number (Double.ofNat 3)]
    let w : World Unit Unit := ⟨⟨#[.array ⟨items, none⟩], #[]⟩, ()⟩
    native .splice [] = some (Script.splice none none []) ∧
      Script.splice none none [] items = (items, .removed []) ∧
      ∃ w', (callArray (fun _ _ _ => pure ()) 0 0 .splice []).run w = .ok (.array 1, w') ∧
        w'.heap.items 0 = [] ∧ w'.heap.items 1 = items :=
  ⟨rfl, rfl, _, rfl, rfl, rfl⟩

/-- `splice(-0.5, 1)` on `[1, 2, 3]`: the standard rounds the start to `0` and deletes the first
item; the call starts at the end and deletes nothing. -/
example :
    let items := [Value.number (Double.ofNat 1), .number (Double.ofNat 2), .number (Double.ofNat 3)]
    let half := Double.ofDecimal true 5 (-1)
    let w : World Unit Unit := ⟨⟨#[.array ⟨items, none⟩], #[]⟩, ()⟩
    (Script.splice (some half) (some (Double.ofNat 1)) [] items).1 = items.drop 1 ∧
      ((callArray (fun _ _ _ => pure ()) 0 0 .splice
        [.number half, .number (Double.ofNat 1)]).run w).toOption.map (·.2.heap.items 0) =
        some items := by
  decide +kernel

end ReactiveView.Store
