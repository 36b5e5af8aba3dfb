import Mathlib
import ReactiveView.Proofs.Double.Exact
import ReactiveView.Proofs.Store.Mutation
import ReactiveView.Store.Convert
import ReactiveView.Store.Show
/-!
# JSON read into the store and written back

`ofJson` builds a value from a JSON document, with a new container for each array and object,
and `Heap.toJson` writes a value back as JSON. The main result is `toJson_ofJson_normalizes`:
for every document that a JSON library can hold (`Json.WellFormed`: whole numbers that fit in
64 bits, other numbers finite, no key twice in one object), building it into any heap succeeds,
and writing the value back gives the document in normal form (`Json.normalize`). Keys and items
keep their order, and each number becomes the whole number it stands for as a binary64 value
when that value is whole and below `9e15` in magnitude, and that binary64 value otherwise
(`JsonNumber.normal`).

Two facts carry it. What a value built into the cells `[a, b)` writes back depends on those
cells only, and never on a container met again, since each container of a built value is new
and the walk down meets each one once (`Heap.Stores`). And building allocates its cells one
after the other behind every cell already there, writing no older cell but the object whose
fields it is defining (`ofJson_stores`). The number case rests on the exact value of a binary64
value (`jsonInteger_iff`).
-/
namespace ReactiveView

set_option autoImplicit false

/-! ## Documents a JSON library holds, and their normal form -/

namespace JsonNumber

/-- A number that a JSON library holds: a whole number without a sign below `2 ^ 64`, a
negative whole number not below `-2 ^ 63`, or a finite binary64 value. -/
def Representable : JsonNumber → Prop
  | .nat n => n < 2 ^ 64
  | .int i => -2 ^ 63 ≤ i ∧ i < 0
  | .double x => x.isFinite = true

/-- The normal form of a number: the whole number it stands for as a binary64 value, when that
value is whole and below `9e15` in magnitude, and otherwise that binary64 value. -/
def normal (n : JsonNumber) : Json :=
  if n.toDouble.toRat.den = 1 ∧ |n.toDouble.toRat| < 9000000000000000 then
    Json.ofInt n.toDouble.toRat.num
  else .number (.double n.toDouble)

theorem Representable.isFinite {n : JsonNumber} (held : n.Representable) :
    n.toDouble.isFinite = true := by
  cases n with
  | nat n => exact Double.ofNat_isFinite held
  | int i => exact Double.ofInt_isFinite (by simp only [Representable] at held; omega)
  | double x => exact held

end JsonNumber

namespace Json

mutual
/-- A document that a JSON library can hold: its numbers are representable, and no object has
a key twice. -/
def WellFormed : Json → Prop
  | .number n => n.Representable
  | .array items => ItemsWellFormed items
  | .object fields => (fields.map (·.1)).Nodup ∧ FieldsWellFormed fields
  | _ => True

/-- Every item is well formed. -/
def ItemsWellFormed : List Json → Prop
  | [] => True
  | j :: rest => WellFormed j ∧ ItemsWellFormed rest

/-- Every field's value is well formed. -/
def FieldsWellFormed : List (String × Json) → Prop
  | [] => True
  | (_, j) :: rest => WellFormed j ∧ FieldsWellFormed rest
end

mutual
/-- The document with each number in normal form; keys and items keep their order. -/
def normalize : Json → Json
  | .number n => n.normal
  | .array items => .array (normalizeItems items)
  | .object fields => .object (normalizeFields fields)
  | j => j

/-- Items in normal form. -/
def normalizeItems : List Json → List Json
  | [] => []
  | j :: rest => normalize j :: normalizeItems rest

/-- Fields with their values in normal form. -/
def normalizeFields : List (String × Json) → List (String × Json)
  | [] => []
  | (k, j) :: rest => (k, normalize j) :: normalizeFields rest
end

theorem keys_normalizeFields :
    ∀ fields : List (String × Json), (normalizeFields fields).map (·.1) = fields.map (·.1)
  | [] => rfl
  | (k, j) :: rest => by
    rw [normalizeFields, List.map_cons, List.map_cons, keys_normalizeFields rest]

end Json

namespace Store

variable {ρ σ : Type}

/-! ## Numbers -/

/-- A finite number is written as a JSON integer exactly when it is a whole number below `9e15`
in magnitude. -/
theorem jsonInteger_iff {x : Double} (finite : x.isFinite = true) :
    Heap.jsonInteger x = true ↔ x.toRat.den = 1 ∧ |x.toRat| < 9000000000000000 := by
  have whole : ∀ {x : Double}, x.isIntegral = true →
      |x.toRat| = (x.wholePart : ℚ) := fun whole => by
    rw [← Double.truncate_eq_toRat whole, ← Int.cast_abs, Int.abs_eq_natAbs,
      Double.natAbs_truncate]
    rfl
  unfold Heap.jsonInteger
  rw [Bool.and_eq_true, Double.abs_lt_bound_iff finite]
  constructor
  · rintro ⟨integral, small⟩
    refine ⟨?_, by rw [whole integral]; exact_mod_cast small⟩
    rw [← Double.truncate_eq_toRat integral]
    exact Rat.den_intCast _
  · rintro ⟨den, small⟩
    have integral := Double.isIntegral_of_toRat finite ((Rat.den_eq_one_iff _).1 den).symm
    exact ⟨integral, by rw [whole integral] at small; exact_mod_cast small⟩

/-- A number written as a JSON integer is written as the whole number it stands for. -/
theorem truncate_eq_num {x : Double} (integer : Heap.jsonInteger x = true) :
    x.truncate = x.toRat.num := by
  have integral : x.isIntegral = true := by
    unfold Heap.jsonInteger at integer
    exact (Bool.and_eq_true _ _ ▸ integer).1
  rw [← Double.truncate_eq_toRat integral, Rat.num_intCast]

/-- A representable number is written back in normal form. -/
theorem toJsonWithin_number (h : Heap ρ) (fuel : Nat) (seen : List Nat) {n : JsonNumber}
    (held : n.Representable) : h.toJsonWithin (fuel + 1) seen (.number n.toDouble) = n.normal := by
  have finite := held.isFinite
  rw [Heap.toJsonWithin, JsonNumber.normal]
  by_cases integer : Heap.jsonInteger n.toDouble = true
  · rw [if_pos integer, if_pos ((jsonInteger_iff finite).1 integer), truncate_eq_num integer]
  · rw [if_neg integer, if_neg (fun normal => integer ((jsonInteger_iff finite).2 normal))]
    simp [Json.ofDouble, JsonNumber.ofDouble?, finite]

/-! ## What a range of cells stores -/

namespace Heap

/-- `h'` has the cells of `h` in `[a, b)`. -/
def Agrees (h' h : Heap ρ) (a b : Nat) : Prop :=
  ∀ r, a ≤ r → r < b → h'.cells[r]? = h.cells[r]?

theorem Agrees.trans {h'' h' h : Heap ρ} {a b : Nat} (outer : h''.Agrees h' a b)
    (inner : h'.Agrees h a b) : h''.Agrees h a b :=
  fun r low high => (outer r low high).trans (inner r low high)

theorem Agrees.narrow {h' h : Heap ρ} {a b c d : Nat} (agrees : h'.Agrees h a b) (low : a ≤ c)
    (high : d ≤ b) : h'.Agrees h c d :=
  fun r lowR highR => agrees r (by omega) (by omega)

/-- `v` is stored in the cells `[a, b)` of `h` as the document `j`: every heap with those cells
writes `v` back as `j`, given more fuel than there are cells and none of them among the
containers being written. -/
def Stores (h : Heap ρ) (v : Value) (j : Json) (a b : Nat) : Prop :=
  a ≤ b ∧ ∀ h' : Heap ρ, h'.Agrees h a b → ∀ fuel seen, b - a < fuel →
    (∀ r ∈ seen, r < a ∨ b ≤ r) → h'.toJsonWithin fuel seen v = j

/-- Values stored one after the other in `[a, b)`. -/
def StoresAll (h : Heap ρ) : List Value → List Json → Nat → Nat → Prop
  | [], [], a, b => a = b
  | v :: vs, j :: js, a, b => ∃ m, h.Stores v j a m ∧ h.StoresAll vs js m b
  | _, _, _, _ => False

theorem Stores.congr {h h' : Heap ρ} {v : Value} {j : Json} {a b : Nat} (stores : h.Stores v j a b)
    (agrees : h'.Agrees h a b) : h'.Stores v j a b :=
  ⟨stores.1, fun h'' agrees' => stores.2 h'' (agrees'.trans agrees)⟩

/-! Containers being written all lie outside a range of cells. -/

theorem not_mem_of_outside {seen : List Nat} {a b r : Nat} (outside : ∀ r ∈ seen, r < a ∨ b ≤ r)
    (low : a ≤ r) (high : r < b) : r ∉ seen := fun mem => by
  have := outside r mem
  omega

theorem outside_narrow {seen : List Nat} {a b c d : Nat} (outside : ∀ r ∈ seen, r < a ∨ b ≤ r)
    (low : a ≤ c) (high : d ≤ b) : ∀ r ∈ seen, r < c ∨ d ≤ r := fun r mem => by
  have := outside r mem
  omega

theorem outside_cons {seen : List Nat} {a b x : Nat} (outside : ∀ r ∈ seen, r < a ∨ b ≤ r)
    (side : x < a ∨ b ≤ x) : ∀ r ∈ x :: seen, r < a ∨ b ≤ r := fun r mem => by
  rcases List.mem_cons.1 mem with rfl | mem
  · exact side
  · exact outside r mem

/-- A run of stored values takes up its range from left to right. -/
theorem StoresAll.le {h : Heap ρ} :
    ∀ {vs : List Value} {js : List Json} {a b : Nat}, h.StoresAll vs js a b → a ≤ b
  | [], [], _, _, same => Nat.le_of_eq same
  | _ :: _, _ :: _, _, _, ⟨_, first, rest⟩ => Nat.le_trans first.1 rest.le

theorem StoresAll.congr {h h' : Heap ρ} :
    ∀ {vs : List Value} {js : List Json} {a b : Nat}, h.StoresAll vs js a b →
      h'.Agrees h a b → h'.StoresAll vs js a b
  | [], [], _, _, stores, _ => stores
  | _ :: _, _ :: _, _, _, ⟨m, first, rest⟩, agrees =>
    ⟨m, first.congr (agrees.narrow (Nat.le_refl _) rest.le),
      rest.congr (agrees.narrow first.1 (Nat.le_refl _))⟩

/-- Values stored one after the other are written back item by item. -/
theorem StoresAll.map {h h' : Heap ρ} {fuel : Nat} {seen : List Nat} :
    ∀ {vs : List Value} {js : List Json} {a b : Nat}, h.StoresAll vs js a b →
      h'.Agrees h a b → b - a < fuel → (∀ r ∈ seen, r < a ∨ b ≤ r) →
      vs.map (h'.toJsonWithin fuel seen) = js
  | [], [], _, _, _, _, _, _ => rfl
  | v :: vs, j :: js, a, b, ⟨m, first, rest⟩, agrees, enough, outside => by
    have earlier := first.1
    have later := rest.le
    rw [List.map_cons,
      first.2 h' (agrees.narrow (Nat.le_refl _) later) fuel seen (by omega)
        (outside_narrow outside (Nat.le_refl _) later),
      rest.map (agrees.narrow first.1 (Nat.le_refl _)) (by omega)
        (outside_narrow outside first.1 (Nat.le_refl _))]

/-- A scalar takes no cell. -/
theorem stores_scalar (h : Heap ρ) {v : Value} {j : Json} (a : Nat)
    (writes : ∀ (h' : Heap ρ) fuel seen, h'.toJsonWithin (fuel + 1) seen v = j) :
    h.Stores v j a a := by
  refine ⟨Nat.le_refl a, fun h' _ fuel seen enough _ => ?_⟩
  obtain ⟨fuel, rfl⟩ : ∃ f, fuel = f + 1 := ⟨fuel - 1, by omega⟩
  exact writes h' fuel seen

/-- An array whose items are stored just below it stores the document of its items. -/
theorem stores_array {h : Heap ρ} {vs : List Value} {js : List Json} {a b : Nat}
    (items : h.StoresAll vs js a b) (cell : h.array? b = some ⟨vs, none⟩) :
    h.Stores (.array b) (.array js) a (b + 1) := by
  have below := items.le
  refine ⟨by omega, fun h' agrees fuel seen enough outside => ?_⟩
  obtain ⟨fuel, rfl⟩ : ∃ f, fuel = f + 1 := ⟨fuel - 1, by omega⟩
  have fresh : b ∉ seen := not_mem_of_outside outside below (Nat.lt_succ_self b)
  have same := (Heap.accessors_congr h (agrees b (by omega) (by omega))).2.2.2
  -- the items lie below the array, which is now among the containers being written
  rw [Heap.toJsonWithin, if_neg (by simpa using fresh), same, Heap.items_of_array? h cell,
    items.map (agrees.narrow (Nat.le_refl _) (by omega)) (by omega)
      (outside_cons (outside_narrow outside (Nat.le_refl a) (Nat.le_succ b))
        (.inr (Nat.le_refl b)))]

theorem StoresAll.length {h : Heap ρ} :
    ∀ {vs : List Value} {js : List Json} {a b : Nat}, h.StoresAll vs js a b →
      vs.length = js.length
  | [], [], _, _, _ => rfl
  | _ :: _, _ :: _, _, _, ⟨_, _, rest⟩ => by rw [List.length_cons, List.length_cons, rest.length]

/-! ## Objects built from fields -/

/-- The properties an object gets from keys and values: plain and enumerable, in order. -/
def fieldProperties (keys : List String) (vs : List Value) : List Property :=
  List.zipWith (fun k v => ⟨k, .plain v, true⟩) keys vs

@[simp] theorem fieldProperties_cons (k : String) (keys : List String) (v : Value)
    (vs : List Value) :
    fieldProperties (k :: keys) (v :: vs) = ⟨k, .plain v, true⟩ :: fieldProperties keys vs := rfl

/-- Every property built from fields is enumerable, so the keys are the fields' keys. -/
theorem keys_fieldProperties :
    ∀ {keys : List String} {vs : List Value}, keys.length = vs.length →
      ((fieldProperties keys vs).filter (·.enumerable)).map (·.key) = keys
  | [], [], _ => rfl
  | k :: keys, v :: vs, len => by
    rw [fieldProperties_cons, List.filter_cons_of_pos rfl, List.map_cons,
      keys_fieldProperties (Nat.succ.inj len)]

/-- A plain property reads as its value. -/
theorem get_of_plain {h : Heap ρ} {a : Nat} {c : ObjectCell} {key k : String} {v : Value}
    {enumerable : Bool} (cell : h.object? a = some c)
    (found : c.find? key = some ⟨k, .plain v, enumerable⟩) : h.get a key = v := by
  simp only [Heap.get, Heap.walkFuel, Heap.lookup, cell, found]

/-- After properties of other keys, each key of the fields reads as its own value. -/
theorem get_fieldProperties {h : Heap ρ} {a : Nat} {binding : Option Binding} :
    ∀ {pre : List Property} {keys : List String} {vs : List Value},
      h.object? a = some ⟨pre ++ fieldProperties keys vs, binding⟩ →
      (pre.map (·.key) ++ keys).Nodup → keys.length = vs.length →
      keys.map (fun k => (k, h.get a k)) = keys.zip vs
  | _, [], [], _, _, _ => rfl
  | pre, k :: keys, v :: vs, cell, nodup, len => by
    -- the key is not among the earlier properties, so its own property is the one found
    have fresh : k ∉ pre.map (·.key) := fun mem =>
      List.disjoint_of_nodup_append nodup mem List.mem_cons_self
    have found : ObjectCell.find? ⟨pre ++ fieldProperties (k :: keys) (v :: vs), binding⟩ k =
        some ⟨k, .plain v, true⟩ := by
      rw [ObjectCell.find?, List.find?_append, List.find?_eq_none.2 fun p mem same =>
        fresh (List.mem_map.2 ⟨p, mem, by simpa using same⟩)]
      simp
    have moved : pre ++ fieldProperties (k :: keys) (v :: vs) =
        (pre ++ [⟨k, .plain v, true⟩]) ++ fieldProperties keys vs := by simp
    rw [moved] at cell
    rw [List.map_cons, List.zip_cons_cons, get_of_plain (by rw [moved]; exact cell) found,
      get_fieldProperties cell (by simpa using nodup) (Nat.succ.inj len)]

/-- The entries of an object built from distinct keys are its keys with their values. -/
theorem entries_fieldProperties {h : Heap ρ} {a : Nat} {keys : List String} {vs : List Value}
    {binding : Option Binding} (cell : h.object? a = some ⟨fieldProperties keys vs, binding⟩)
    (nodup : keys.Nodup) (len : keys.length = vs.length) : h.entries a = keys.zip vs := by
  rw [Heap.entries, cell]
  dsimp only
  unfold ObjectCell.keys
  rw [keys_fieldProperties len]
  have cell' : h.object? a = some ⟨[] ++ fieldProperties keys vs, binding⟩ := by simpa using cell
  exact get_fieldProperties cell' (by simpa using nodup) len

/-- An object whose field values are stored just above it stores the document of its fields. -/
theorem stores_object {h : Heap ρ} {keys : List String} {vs : List Value} {js : List Json}
    {a b : Nat} (cell : h.object? a = some ⟨fieldProperties keys vs, none⟩) (nodup : keys.Nodup)
    (len : keys.length = vs.length) (values : h.StoresAll vs js (a + 1) b) :
    h.Stores (.object a) (.object (keys.zip js)) a b := by
  have above := values.le
  refine ⟨by omega, fun h' agrees fuel seen enough outside => ?_⟩
  obtain ⟨fuel, rfl⟩ : ∃ f, fuel = f + 1 := ⟨fuel - 1, by omega⟩
  have fresh : a ∉ seen := not_mem_of_outside outside (Nat.le_refl a) (by omega)
  have same := (Heap.accessors_congr h (agrees a (Nat.le_refl a) (by omega))).1
  -- the values lie above the object, which is now among the containers being written
  have written : vs.map (h'.toJsonWithin fuel (a :: seen)) = js := values.map
    (agrees.narrow (by omega) (Nat.le_refl _)) (by omega)
    (outside_cons (outside_narrow outside (Nat.le_succ a) (Nat.le_refl b))
      (.inl (Nat.lt_succ_self a)))
  rw [Heap.toJsonWithin, if_neg (by simpa using fresh),
    entries_fieldProperties (same.trans cell) nodup len, ← written, List.zip_map_right]
  rfl

/-! ## Building a value from a document -/

/-- `h'` keeps every cell of `h`, and may have more. -/
def Grows (h h' : Heap ρ) : Prop :=
  h.cells.size ≤ h'.cells.size ∧ h'.Agrees h 0 h.cells.size

theorem Grows.refl (h : Heap ρ) : h.Grows h := ⟨Nat.le_refl _, fun _ _ _ => rfl⟩

theorem Grows.trans {h h' h'' : Heap ρ} (first : h.Grows h') (second : h'.Grows h'') :
    h.Grows h'' :=
  ⟨Nat.le_trans first.1 second.1,
    (second.2.narrow (Nat.le_refl 0) first.1).trans first.2⟩

theorem grows_push (h : Heap ρ) (c : Cell) : h.Grows { h with cells := h.cells.push c } :=
  ⟨by simp, fun r _ lt => by rw [Array.getElem?_push_lt lt, Array.getElem?_eq_getElem lt]⟩

theorem cell_push (h : Heap ρ) (c : Cell) :
    ({ h with cells := h.cells.push c } : Heap ρ).cells[h.cells.size]? = some c := by
  simp

end Heap

open Heap

mutual
/-- Building a well-formed document into any heap succeeds; it keeps the heap's cells, and the
cells it adds store the value as the document in normal form. -/
theorem ofJson_stores : ∀ (J : Json), J.WellFormed → ∀ (w : World ρ σ),
    ∃ v w', (ofJson J).run w = .ok (v, w') ∧ w.heap.Grows w'.heap ∧
      w'.heap.Stores v J.normalize w.heap.cells.size w'.heap.cells.size
  | .null, _, w => ⟨.null, w, rfl, .refl _, stores_scalar _ _ fun _ _ _ => rfl⟩
  | .bool b, _, w => ⟨.bool b, w, rfl, .refl _, stores_scalar _ _ fun _ _ _ => rfl⟩
  | .number n, held, w => ⟨.number n.toDouble, w, rfl, .refl _,
      stores_scalar _ _ fun h' fuel seen => toJsonWithin_number h' fuel seen held⟩
  | .string s, _, w => ⟨.string s, w, rfl, .refl _, stores_scalar _ _ fun _ _ _ => rfl⟩
  | .array items, held, w => by
    -- the items first, then the array's own cell behind them
    obtain ⟨vs, w₁, run, grows, stored⟩ := ofJsonItems_stores items held w
    refine ⟨.array w₁.heap.cells.size,
      { w₁ with heap := { w₁.heap with cells := w₁.heap.cells.push (.array ⟨vs, none⟩) } },
      ?_, grows.trans (grows_push _ _), ?_⟩
    · rw [ofJson.eq_5]
      exact run_bind_ok.2 ⟨vs, w₁, run, rfl⟩
    · have cell : Heap.array? { w₁.heap with cells := w₁.heap.cells.push (.array ⟨vs, none⟩) }
          w₁.heap.cells.size = some ⟨vs, none⟩ := by
        rw [Heap.array?_eq_some, cell_push]
      rw [Json.normalize]
      simp only [Array.size_push]
      exact stores_array (stored.congr ((grows_push _ _).2.narrow (Nat.zero_le _) (Nat.le_refl _)))
        cell
  | .object fields, held, w => by
    -- the object's own cell first, then its fields' values behind it
    obtain ⟨nodup, held⟩ := held
    obtain ⟨vs, w₂, run, size, kept, cell, stored⟩ := ofJsonFields_stores w.heap.cells.size fields
      held { w with heap := { w.heap with cells := w.heap.cells.push (.object ⟨[], none⟩) } } []
      (by rw [Heap.object?_eq_some, cell_push]) (by simpa using nodup)
    have len := stored.length
    simp only [List.length_map] at len
    refine ⟨.object w.heap.cells.size, w₂, ?_, ⟨by simp at size; omega, fun r _ lt => ?_⟩, ?_⟩
    · rw [ofJson.eq_6]
      exact run_bind_ok.2 ⟨_, _, rfl, run_bind_ok.2 ⟨(), w₂, run, rfl⟩⟩
    · rw [kept r (by simp; omega) (by omega)]
      exact (grows_push w.heap _).2 r (Nat.zero_le r) lt
    · have keys := Json.keys_normalizeFields fields
      have whole : (fields.map (·.1)).zip ((Json.normalizeFields fields).map (·.2)) =
          Json.normalizeFields fields := by
        rw [← keys, ← List.unzip_fst, ← List.unzip_snd, List.zip_unzip]
      rw [Json.normalize, ← whole]
      exact stores_object (by simpa using cell) nodup (by rw [len, ← keys, List.length_map])
        (by simpa using stored)

/-- Building the items of a well-formed array, one after the other. -/
theorem ofJsonItems_stores : ∀ (items : List Json), Json.ItemsWellFormed items →
    ∀ (w : World ρ σ), ∃ vs w', (ofJsonItems items).run w = .ok (vs, w') ∧
      w.heap.Grows w'.heap ∧
      w'.heap.StoresAll vs (Json.normalizeItems items) w.heap.cells.size w'.heap.cells.size
  | [], _, w => ⟨[], w, rfl, .refl _, rfl⟩
  | j :: rest, held, w => by
    obtain ⟨first, held⟩ := held
    obtain ⟨v, w₁, run₁, grows₁, stored₁⟩ := ofJson_stores j first w
    obtain ⟨vs, w₂, run₂, grows₂, stored₂⟩ := ofJsonItems_stores rest held w₁
    refine ⟨v :: vs, w₂, ?_, grows₁.trans grows₂, w₁.heap.cells.size,
      stored₁.congr (grows₂.2.narrow (Nat.zero_le _) (Nat.le_refl _)), stored₂⟩
    rw [ofJsonItems.eq_2]
    exact run_bind_ok.2 ⟨v, w₁, run₁, run_bind_ok.2 ⟨vs, w₂, run₂, rfl⟩⟩

/-- Defining the fields of a well-formed object on the object at `r`, whose keys so far are none
of the fields' keys: each field becomes a plain enumerable property in order, its value stored in
the cells added behind every older one, and no older cell but `r` changes. -/
theorem ofJsonFields_stores : ∀ (r : Nat) (fields : List (String × Json)),
    Json.FieldsWellFormed fields → ∀ (w : World ρ σ) (pre : List Property),
      w.heap.object? r = some ⟨pre, none⟩ → (pre.map (·.key) ++ fields.map (·.1)).Nodup →
      ∃ vs w', (ofJsonFields r fields).run w = .ok ((), w') ∧
        w.heap.cells.size ≤ w'.heap.cells.size ∧
        (∀ r', r' < w.heap.cells.size → r' ≠ r → w'.heap.cells[r']? = w.heap.cells[r']?) ∧
        w'.heap.object? r = some ⟨pre ++ fieldProperties (fields.map (·.1)) vs, none⟩ ∧
        w'.heap.StoresAll vs ((Json.normalizeFields fields).map (·.2)) w.heap.cells.size
          w'.heap.cells.size
  | r, [], _, w, pre, cell, _ =>
    ⟨[], w, rfl, Nat.le_refl _, fun _ _ _ => rfl, by simpa [fieldProperties] using cell, rfl⟩
  | r, (k, j) :: rest, held, w, pre, cell, nodup => by
    obtain ⟨first, held⟩ := held
    obtain ⟨v, w₁, run₁, grows₁, stored₁⟩ := ofJson_stores j first w
    have below := w.heap.lt_of_object? cell
    have cell₁ : w₁.heap.object? r = some ⟨pre, none⟩ := by
      rw [(Heap.accessors_congr w.heap (grows₁.2 r (Nat.zero_le r) below)).1, cell]
    -- the key is new to the object, so defining it puts it last
    have fresh : k ∉ pre.map (·.key) := fun mem =>
      List.disjoint_of_nodup_append nodup mem List.mem_cons_self
    have put : ((w₁.heap.object? r).getD ⟨[], none⟩).put k (.plain v) true =
        ⟨pre ++ [⟨k, .plain v, true⟩], none⟩ := by
      have absent : ObjectCell.hasOwn ⟨pre, none⟩ k = false := by
        simpa [ObjectCell.hasOwn] using fun p mem same => fresh (List.mem_map.2 ⟨p, mem, same⟩)
      rw [cell₁, Option.getD_some, ObjectCell.put, if_neg (by simp [absent])]
    have cell₂ := Heap.object?_setObject_self w₁.heap ⟨pre ++ [⟨k, .plain v, true⟩], none⟩ cell₁
    obtain ⟨vs, w₃, run₃, size₃, kept₃, cell₃, stored₃⟩ := ofJsonFields_stores r rest held
      { w₁ with heap := w₁.heap.setObject r ⟨pre ++ [⟨k, .plain v, true⟩], none⟩ } _ cell₂
      (by simpa using nodup)
    simp only [Heap.size_setObject] at size₃ kept₃ stored₃
    -- cells other than `r` below the end of the first value are untouched afterwards
    have agrees : ∀ r', r' < w₁.heap.cells.size → r' ≠ r →
        w₃.heap.cells[r']? = w₁.heap.cells[r']? := fun r' lt ne => by
      rw [kept₃ r' lt ne, Heap.setObject_cell_ne _ _ ne]
    refine ⟨v :: vs, w₃, ?_, Nat.le_trans grows₁.1 size₃, fun r' lt ne => ?_, ?_, ?_⟩
    · rw [ofJsonFields.eq_2]
      exact run_bind_ok.2 ⟨v, w₁, run₁, run_bind_ok.2 ⟨(), _, by rw [run_define, put], run₃⟩⟩
    · rw [agrees r' (Nat.lt_of_lt_of_le lt grows₁.1) ne]
      exact grows₁.2 r' (Nat.zero_le r') lt
    · simpa using cell₃
    · refine ⟨w₁.heap.cells.size, stored₁.congr fun r' low high => agrees r' high (by omega),
        stored₃⟩
end

/-- Reading a JSON document that a JSON library can hold into the store and writing the value
back gives the document in normal form: keys and items in their order, and each number the
whole number it stands for as a binary64 value when that value is whole and below `9e15` in
magnitude, and that binary64 value otherwise. Reading never fails, whatever the heap. -/
theorem toJson_ofJson_normalizes (J : Json) (wf : J.WellFormed) (w : World ρ σ) :
    ∃ v w', (ofJson J).run w = .ok (v, w') ∧ w'.heap.toJson v = J.normalize := by
  obtain ⟨v, w', run, -, stored⟩ := ofJson_stores J wf w
  refine ⟨v, w', run, stored.2 w'.heap (fun _ _ _ => rfl) _ [] ?_ (by simp)⟩
  simp only [Heap.walkFuel]
  omega

/-- An object holding a whole number, an array of `1.5` and a text, and a null is well formed,
so it comes back from an empty heap in normal form. -/
theorem mixed_document_normalizes :
    (Json.object [("a", .number (.nat 1)),
      ("b", .array [.number (.double ⟨0x3FF8000000000000⟩), .string "x"]),
      ("c", .null)]).WellFormed ∧
    ∃ v w', (ofJson (.object [("a", .number (.nat 1)),
        ("b", .array [.number (.double ⟨0x3FF8000000000000⟩), .string "x"]), ("c", .null)])).run
        (⟨Heap.empty, ()⟩ : World Unit Unit) = .ok (v, w') ∧
      w'.heap.toJson v = (Json.object [("a", .number (.nat 1)),
        ("b", .array [.number (.double ⟨0x3FF8000000000000⟩), .string "x"]),
        ("c", .null)]).normalize := by
  have wf : (Json.object [("a", .number (.nat 1)),
      ("b", .array [.number (.double ⟨0x3FF8000000000000⟩), .string "x"]),
      ("c", .null)]).WellFormed := by
    simp only [Json.WellFormed, Json.ItemsWellFormed, Json.FieldsWellFormed,
      JsonNumber.Representable, and_true]
    decide
  exact ⟨wf, toJson_ofJson_normalizes _ wf _⟩

end Store

end ReactiveView
