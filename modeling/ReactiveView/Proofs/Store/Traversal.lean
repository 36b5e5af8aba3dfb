import ReactiveView.Proofs.Store.Forwarding
import ReactiveView.Store.Show
/-!
# Walks over the heap end

The heap is a graph: a container can be shared, and it can hold itself. Three recursions walk
it, and each carries a list of containers that keeps it from going round a cycle:

* observing a value (`observeAt`) keeps the containers visited so far in the whole walk, and
  never enters one twice;
* turning a value into JSON (`Heap.toJsonWithin`) or into text (`Heap.displayWithin`) keeps the
  containers being converted, those on the way from the value down to where it is. A container
  is dropped from the list once converted, so one shared by two siblings is converted in full both
  times, and only a container met inside itself is cut off.

Each recursion is written with a bound on its depth, and none ever reaches it. A container is
entered only when it is not in the list, and is then added to it, so below a call the recursion
goes at most as deep as the number of cells not in its list (`Heap.unvisited`), which is less than
the bound `walkFuel`. Hence:

* a walk that observes never halts (`observeAt_returns`) and runs alike under every bound from
  `walkFuel` on (`observeAt_settles`); its list of visited containers has no repeats, and it
  changes no cell outside that list (`observeAt_untouched`): it handles each container at most
  once;
* the JSON and the text of a value are what the rules of the conversions give with no bound at
  all (`Heap.JsonOf`, `Heap.DisplayOf`). From every value those rules have a derivation, a finite
  one, and only one answer (`jsonOf_iff`, `displayOf_iff`). The JSON of an object reads its keys
  through forwards, also with no bound (`Heap.Reads`), so it needs a heap whose forwards stop.

`traversals_end` gathers these.
-/
namespace ReactiveView.Store

set_option autoImplicit false

variable {ρ σ : Type}

namespace Heap

variable (h : Heap ρ)

/-! ## How deep a walk can go -/

/-- The cells of the heap that are not in a list of containers. -/
def unvisited (seen : List Nat) : Nat :=
  ((List.range h.cells.size).filter (· ∉ seen)).length

theorem unvisited_le_size (seen : List Nat) : h.unvisited seen ≤ h.cells.size := by
  simpa [unvisited] using List.length_filter_le (· ∉ seen) (List.range h.cells.size)

/-- Listing more containers leaves fewer unvisited. -/
theorem unvisited_anti {seen acc : List Nat} (sub : seen ⊆ acc) :
    h.unvisited acc ≤ h.unvisited seen :=
  (List.monotone_filter_right _ fun x fresh => by
    simp only [decide_eq_true_eq] at fresh ⊢
    exact fun mem => fresh (sub mem)).length_le

/-- Entering a cell that was not listed leaves one fewer unvisited. -/
theorem unvisited_cons_lt {r : Nat} {seen : List Nat} (inside : r < h.cells.size) (fresh : r ∉ seen) :
    h.unvisited (r :: seen) < h.unvisited seen := by
  have split : (List.range h.cells.size).filter (· ∉ r :: seen) =
      ((List.range h.cells.size).filter (· ∉ seen)).filter (· ≠ r) := by
    rw [List.filter_filter]
    refine List.filter_congr fun x _ => ?_
    simp
  simp only [unvisited, split]
  exact List.length_filter_lt_length_iff_exists.2 ⟨r, by simp [inside, fresh], by simp⟩

/-- The unvisited cells depend on the number of cells only. -/
theorem unvisited_of_size {h' : Heap ρ} (same : h'.cells.size = h.cells.size) (seen : List Nat) :
    h'.unvisited seen = h.unvisited seen := by
  simp only [unvisited, same]

/-- A handle past the cells holds no items. -/
theorem items_of_size_le {r : Nat} (outside : h.cells.size ≤ r) : h.items r = [] := by
  have none_ : h.cells[r]? = none := Array.getElem?_eq_none outside
  simp [items, array?, none_]

/-- A handle past the cells holds no object. -/
theorem object?_of_size_le {r : Nat} (outside : h.cells.size ≤ r) : h.object? r = none := by
  have none_ : h.cells[r]? = none := Array.getElem?_eq_none outside
  simp [object?, none_]

/-- Every list of containers leaves fewer cells unvisited than the bound of a walk. -/
theorem unvisited_lt_walkFuel (seen : List Nat) : h.unvisited seen < h.walkFuel := by
  have := h.unvisited_le_size seen
  simp only [walkFuel]
  omega

/-- An array with an item is a cell, so entering it leaves one cell fewer unvisited. -/
theorem unvisited_cons_of_item {r : Nat} {seen : List Nat} {item : Value} (mem : item ∈ h.items r)
    (fresh : r ∉ seen) : h.unvisited (r :: seen) < h.unvisited seen := by
  have inside : r < h.cells.size := by
    by_contra outside
    simp [items_of_size_le h (Nat.le_of_not_lt outside)] at mem
  exact h.unvisited_cons_lt inside fresh

/-- An object with a key is a cell, so entering it leaves one cell fewer unvisited. -/
theorem unvisited_cons_of_key {r : Nat} {seen : List Nat} {k : String}
    (mem : k ∈ ((h.object? r).map ObjectCell.keys).getD []) (fresh : r ∉ seen) :
    h.unvisited (r :: seen) < h.unvisited seen := by
  have inside : r < h.cells.size := by
    by_contra outside
    simp [object?_of_size_le h (Nat.le_of_not_lt outside)] at mem
  exact h.unvisited_cons_lt inside fresh

/-- The enumerable keys of an object, or none. -/
theorem entries_eq (r : Nat) :
    h.entries r = (((h.object? r).map ObjectCell.keys).getD []).map fun k => (k, h.get r k) := by
  unfold entries
  cases h.object? r <;> rfl

/-! ## JSON with no bound -/

mutual
/-- The JSON of a value by the rules of the conversion, with no bound on its depth. `seen` holds
the containers being converted: one of them met again is `null`; any other container is converted
with itself added, an array item by item and an object key by key, each enumerable key with the
value the object reads for it. -/
inductive JsonOf : List Nat → Value → Json → Prop
  | undefined {seen : List Nat} : JsonOf seen .undefined .null
  | null {seen : List Nat} : JsonOf seen .null .null
  | bool {seen : List Nat} (b : Bool) : JsonOf seen (.bool b) (.bool b)
  | number {seen : List Nat} (x : Double) :
      JsonOf seen (.number x) (if jsonInteger x then Json.ofInt x.truncate else Json.ofDouble x)
  | string {seen : List Nat} (s : String) : JsonOf seen (.string s) (.string s)
  | arrayAgain {seen : List Nat} {r : Nat} : r ∈ seen → JsonOf seen (.array r) .null
  | objectAgain {seen : List Nat} {r : Nat} : r ∈ seen → JsonOf seen (.object r) .null
  | array {seen : List Nat} {r : Nat} {items : List Json} :
      r ∉ seen → JsonOfItems (r :: seen) (h.items r) items → JsonOf seen (.array r) (.array items)
  | object {seen : List Nat} {r : Nat} {fields : List (String × Json)} :
      r ∉ seen → JsonOfFields (r :: seen) r (((h.object? r).map ObjectCell.keys).getD []) fields →
        JsonOf seen (.object r) (.object fields)

/-- The JSON of the items of an array, one by one. -/
inductive JsonOfItems : List Nat → List Value → List Json → Prop
  | nil {seen : List Nat} : JsonOfItems seen [] []
  | cons {seen : List Nat} {v : Value} {j : Json} {vs : List Value} {js : List Json} :
      JsonOf seen v j → JsonOfItems seen vs js → JsonOfItems seen (v :: vs) (j :: js)

/-- The JSON fields of keys of the object `r`: each key with the JSON of what the object reads
for it. -/
inductive JsonOfFields : List Nat → Nat → List String → List (String × Json) → Prop
  | nil {seen : List Nat} {r : Nat} : JsonOfFields seen r [] []
  | cons {seen : List Nat} {r : Nat} {k : String} {v : Value} {j : Json} {ks : List String}
      {fields : List (String × Json)} :
      h.Reads k r v → JsonOf seen v j → JsonOfFields seen r ks fields →
        JsonOfFields seen r (k :: ks) ((k, j) :: fields)
end

variable {h}

theorem JsonOfItems.of_map {seen : List Nat} {f : Value → Json} {vs : List Value}
    (each : ∀ v ∈ vs, h.JsonOf seen v (f v)) : h.JsonOfItems seen vs (vs.map f) := by
  induction vs with
  | nil => exact .nil
  | cons v vs ih =>
    exact .cons (each v (List.mem_cons_self ..)) (ih fun x mem => each x (List.mem_cons_of_mem v mem))

theorem JsonOfItems.eq_map {seen : List Nat} {f : Value → Json} {vs : List Value} {js : List Json}
    (each : ∀ v ∈ vs, ∀ j, h.JsonOf seen v j → j = f v) (items : h.JsonOfItems seen vs js) :
    js = vs.map f := by
  induction vs generalizing js with
  | nil => cases items; rfl
  | cons v vs ih =>
    cases items with
    | cons first rest =>
      rw [List.map_cons, each v (List.mem_cons_self ..) _ first,
        ih (fun x mem => each x (List.mem_cons_of_mem v mem)) rest]

theorem JsonOfFields.of_map {seen : List Nat} {r : Nat} {f : Value → Json} {ks : List String}
    (stops : h.ForwardsStop) (each : ∀ k ∈ ks, h.JsonOf seen (h.get r k) (f (h.get r k))) :
    h.JsonOfFields seen r ks (ks.map fun k => (k, f (h.get r k))) := by
  induction ks with
  | nil => exact .nil
  | cons k ks ih =>
    obtain ⟨n, walk⟩ := stops k r
    exact .cons (reads_get walk) (each k (List.mem_cons_self ..))
      (ih fun x mem => each x (List.mem_cons_of_mem k mem))

theorem JsonOfFields.eq_map {seen : List Nat} {r : Nat} {f : Value → Json} {ks : List String}
    {fields : List (String × Json)} (each : ∀ k ∈ ks, ∀ j, h.JsonOf seen (h.get r k) j → j = f (h.get r k))
    (given : h.JsonOfFields seen r ks fields) : fields = ks.map fun k => (k, f (h.get r k)) := by
  induction ks generalizing fields with
  | nil => cases given; rfl
  | cons k ks ih =>
    cases given with
    | cons read first rest =>
      -- what the object reads for the key is what `get` gives
      obtain ⟨n, walk⟩ := read.hops
      have same := read.unique (reads_get walk)
      subst same
      rw [List.map_cons, each k (List.mem_cons_self ..) _ first,
        ih (fun x mem => each x (List.mem_cons_of_mem k mem)) rest]

/-- With a bound above the unvisited cells, the bounded conversion follows the rules. -/
theorem jsonOf_toJsonWithin (stops : h.ForwardsStop) :
    ∀ (n : Nat) (seen : List Nat) (v : Value), h.unvisited seen < n →
      h.JsonOf seen v (h.toJsonWithin n seen v) := by
  intro n
  induction n with
  | zero => intro seen v deep; omega
  | succ n ih =>
    intro seen v deep
    cases v with
    | undefined => exact .undefined
    | null => exact .null
    | bool b => exact .bool b
    | number x => exact .number x
    | string s => exact .string s
    | array r =>
      by_cases again : r ∈ seen
      · simpa [toJsonWithin, again] using JsonOf.arrayAgain again
      · simp only [toJsonWithin, List.contains_iff_mem, again, if_false]
        refine .array again (JsonOfItems.of_map fun item mem => ih _ item ?_)
        have := h.unvisited_cons_of_item mem again
        omega
    | object r =>
      by_cases again : r ∈ seen
      · simpa [toJsonWithin, again] using JsonOf.objectAgain again
      · simp only [toJsonWithin, List.contains_iff_mem, again, if_false]
        rw [entries_eq, List.map_map]
        refine .object again (JsonOfFields.of_map stops fun k mem => ih _ _ ?_)
        have := h.unvisited_cons_of_key mem again
        omega

/-- With a bound above the unvisited cells, the rules give only what the bounded conversion
gives. -/
theorem JsonOf.eq_toJsonWithin :
    ∀ (n : Nat) {seen : List Nat} {v : Value} {j : Json}, h.unvisited seen < n →
      h.JsonOf seen v j → j = h.toJsonWithin n seen v := by
  intro n
  induction n with
  | zero => intro seen v j deep; omega
  | succ n ih =>
    intro seen v j deep given
    cases given with
    | undefined | null | bool | number | string => rfl
    | arrayAgain again => simp [toJsonWithin, again]
    | objectAgain again => simp [toJsonWithin, again]
    | @array _ r items again rest =>
      simp only [toJsonWithin, List.contains_iff_mem, again, if_false]
      refine congrArg Json.array (rest.eq_map fun item mem j' item' => ih ?_ item')
      have := h.unvisited_cons_of_item mem again
      omega
    | @object _ r fields again rest =>
      simp only [toJsonWithin, List.contains_iff_mem, again, if_false]
      rw [entries_eq, List.map_map]
      refine congrArg Json.object (rest.eq_map fun k mem j' field => ih ?_ field)
      have := h.unvisited_cons_of_key mem again
      omega

/-- In a heap whose forwards stop, the JSON of a value is the one answer of the conversion's
rules with no bound. -/
theorem jsonOf_iff (stops : h.ForwardsStop) {v : Value} {j : Json} :
    h.JsonOf [] v j ↔ j = h.toJson v := by
  constructor
  · exact fun given => JsonOf.eq_toJsonWithin _ (h.unvisited_lt_walkFuel []) given
  · rintro rfl
    exact jsonOf_toJsonWithin stops _ [] v (h.unvisited_lt_walkFuel [])

/-! ## Text with no bound -/

variable (h)

mutual
/-- The text of a value by the rules of the conversion, with no bound on its depth. `joining`
holds the arrays whose items are being joined: one of them met again is the empty text; any other
array is the texts of its items joined by commas, with itself added. -/
inductive DisplayOf : List Nat → Value → String → Prop
  | undefined {joining : List Nat} : DisplayOf joining .undefined "undefined"
  | null {joining : List Nat} : DisplayOf joining .null "null"
  | bool {joining : List Nat} (b : Bool) : DisplayOf joining (.bool b) (if b then "true" else "false")
  | number {joining : List Nat} (x : Double) : DisplayOf joining (.number x) (displayNumber x)
  | string {joining : List Nat} (s : String) : DisplayOf joining (.string s) s
  | object {joining : List Nat} (r : Nat) : DisplayOf joining (.object r) "[object Object]"
  | arrayAgain {joining : List Nat} {r : Nat} : r ∈ joining → DisplayOf joining (.array r) ""
  | array {joining : List Nat} {r : Nat} {parts : List String} :
      r ∉ joining → DisplayOfItems (r :: joining) (h.items r) parts →
        DisplayOf joining (.array r) (",".intercalate parts)

/-- The texts of the items of an array: `undefined` and `null` items are empty, any other item
has its text. -/
inductive DisplayOfItems : List Nat → List Value → List String → Prop
  | nil {joining : List Nat} : DisplayOfItems joining [] []
  | blank {joining : List Nat} {v : Value} {vs : List Value} {parts : List String} :
      v = .undefined ∨ v = .null → DisplayOfItems joining vs parts →
        DisplayOfItems joining (v :: vs) ("" :: parts)
  | cons {joining : List Nat} {v : Value} {s : String} {vs : List Value} {parts : List String} :
      v ≠ .undefined → v ≠ .null → DisplayOf joining v s → DisplayOfItems joining vs parts →
        DisplayOfItems joining (v :: vs) (s :: parts)
end

variable {h}

/-- What the text of an item is: empty for `undefined` and `null`, otherwise a text of the item. -/
def ItemText (joining : List Nat) (v : Value) (s : String) : Prop :=
  ((v = .undefined ∨ v = .null) ∧ s = "") ∨ (v ≠ .undefined ∧ v ≠ .null ∧ h.DisplayOf joining v s)

theorem DisplayOfItems.of_map {joining : List Nat} {f : Value → String} {vs : List Value}
    (each : ∀ v ∈ vs, h.ItemText joining v (f v)) : h.DisplayOfItems joining vs (vs.map f) := by
  induction vs with
  | nil => exact .nil
  | cons v vs ih =>
    have rest := ih fun x mem => each x (List.mem_cons_of_mem v mem)
    rcases each v (List.mem_cons_self ..) with ⟨blank, empty⟩ | ⟨defined, notNull, text⟩
    · rw [List.map_cons, empty]
      exact .blank blank rest
    · exact .cons defined notNull text rest

theorem DisplayOfItems.eq_map {joining : List Nat} {f : Value → String} {vs : List Value}
    {parts : List String} (each : ∀ v ∈ vs, ∀ s, h.ItemText joining v s → s = f v)
    (items : h.DisplayOfItems joining vs parts) : parts = vs.map f := by
  induction vs generalizing parts with
  | nil => cases items; rfl
  | cons v vs ih =>
    have rest := fun {parts'} (given : h.DisplayOfItems joining vs parts') =>
      ih (fun x mem => each x (List.mem_cons_of_mem v mem)) given
    cases items with
    | blank blank given =>
      rw [List.map_cons, ← each v (List.mem_cons_self ..) _ (.inl ⟨blank, rfl⟩), rest given]
    | cons defined notNull text given =>
      rw [List.map_cons, ← each v (List.mem_cons_self ..) _ (.inr ⟨defined, notNull, text⟩),
        rest given]

/-- With a bound above the unvisited cells, the bounded text follows the rules. -/
theorem displayOf_displayWithin :
    ∀ (n : Nat) (joining : List Nat) (v : Value), h.unvisited joining < n →
      h.DisplayOf joining v (h.displayWithin n joining v) := by
  intro n
  induction n with
  | zero => intro joining v deep; omega
  | succ n ih =>
    intro joining v deep
    cases v with
    | undefined => exact .undefined
    | null => exact .null
    | bool b => exact .bool b
    | number x => exact .number x
    | string s => exact .string s
    | object r => exact .object r
    | array r =>
      by_cases again : r ∈ joining
      · simpa [displayWithin, again] using DisplayOf.arrayAgain again
      · simp only [displayWithin, List.contains_iff_mem, again, if_false]
        refine .array again (DisplayOfItems.of_map fun item mem => ?_)
        have deeper : h.unvisited (r :: joining) < n := by
          have := h.unvisited_cons_of_item mem again
          omega
        -- an `undefined` or `null` item is empty, any other has its bounded text
        cases item with
        | undefined => exact .inl ⟨.inl rfl, rfl⟩
        | null => exact .inl ⟨.inr rfl, rfl⟩
        | bool b | number b | string b | array b | object b =>
          exact .inr ⟨by simp, by simp, ih _ _ deeper⟩

/-- With a bound above the unvisited cells, the rules give only what the bounded text gives. -/
theorem DisplayOf.eq_displayWithin :
    ∀ (n : Nat) {joining : List Nat} {v : Value} {s : String}, h.unvisited joining < n →
      h.DisplayOf joining v s → s = h.displayWithin n joining v := by
  intro n
  induction n with
  | zero => intro joining v s deep; omega
  | succ n ih =>
    intro joining v s deep given
    cases given with
    | undefined | null | bool | number | string | object => rfl
    | arrayAgain again => simp [displayWithin, again]
    | @array _ r parts again rest =>
      simp only [displayWithin, List.contains_iff_mem, again, if_false]
      refine congrArg (String.intercalate ",") (rest.eq_map fun item mem s' text => ?_)
      have deeper : h.unvisited (r :: joining) < n := by
        have := h.unvisited_cons_of_item mem again
        omega
      rcases text with ⟨blank, rfl⟩ | ⟨defined, notNull, text⟩
      · rcases blank with rfl | rfl <;> rfl
      · rw [ih deeper text]
        cases item with
        | undefined => exact absurd rfl defined
        | null => exact absurd rfl notNull
        | bool | number | string | array | object => rfl

/-- The text of a value is the one answer of the conversion's rules with no bound. -/
theorem displayOf_iff {v : Value} {s : String} : h.DisplayOf [] v s ↔ s = h.display v := by
  constructor
  · exact fun given => DisplayOf.eq_displayWithin _ (h.unvisited_lt_walkFuel []) given
  · rintro rfl
    exact displayOf_displayWithin _ [] v (h.unvisited_lt_walkFuel [])

end Heap

/-! ## Observing ends -/

section Walks

variable {o : Nat}

theorem bindObject_returns (r o : Nat) (path : String) :
    Returns (bindObject r o path : StoreM ρ σ (Option Bool)) := by
  intro w
  rcases hc : w.heap.object? r with _ | c
  · exact ⟨_, _, bindObject_run_none hc⟩
  · by_cases covered : ∃ b, c.binding = some b ∧ b.covers o path = true
    · obtain ⟨b, hb, cov⟩ := covered
      exact ⟨_, _, bindObject_run_covered hc hb cov⟩
    · exact ⟨_, _, bindObject_run_bind hc fun b hb => by simpa using fun cov => covered ⟨b, hb, cov⟩⟩

theorem bindArray_returns (r o : Nat) (path : String) :
    Returns (bindArray r o path : StoreM ρ σ Bool) := by
  intro w
  rcases hc : w.heap.array? r with _ | c
  · exact ⟨_, _, bindArray_run_none hc⟩
  · by_cases covered : ∃ b, c.binding = some b ∧ b.covers o path = true
    · obtain ⟨b, hb, cov⟩ := covered
      exact ⟨_, _, bindArray_run_covered hc hb cov⟩
    · exact ⟨_, _, bindArray_run_bind hc fun b hb => by simpa using fun cov => covered ⟨b, hb, cov⟩⟩

theorem interceptProperties_returns (r : Nat) (fresh : Bool) :
    Returns (interceptProperties r fresh : StoreM ρ σ (List (String × Value))) := by
  intro w
  rcases hc : w.heap.object? r with _ | c
  · exact ⟨_, _, interceptProperties_run_none hc⟩
  · exact ⟨_, _, interceptProperties_run hc⟩

/-- A walk never halts. -/
theorem observeAt_returns :
    ∀ (n : Nat) (v : Value) (path : String) (seen : List Nat),
      Returns (observeAt o n v path seen : StoreM ρ σ (List Nat)) := by
  intro n
  induction n with
  | zero => intro v path seen; exact Returns.pure seen
  | succ n ih =>
    intro v path seen
    cases v with
    | object r =>
      simp only [observeAt]
      split
      · exact Returns.pure seen
      · refine Returns.bind (bindObject_returns r o path) fun res => ?_
        cases res with
        | none => exact Returns.pure _
        | some fresh =>
          exact Returns.bind (interceptProperties_returns r fresh) fun children =>
            Returns.foldlM children (fun acc x _ => ih x.2 _ acc) _
    | array r =>
      simp only [observeAt]
      split
      · exact Returns.pure seen
      · refine Returns.bind (bindArray_returns r o path) fun bound => ?_
        split
        · exact Returns.pure _
        · exact Returns.bind Returns.heap fun _ => Returns.foldlM _ (fun acc x _ => ih x.1 _ acc) _
    | undefined | null | bool | number | string => exact Returns.pure seen

/-- An object a walk binds is a cell of the heap. -/
theorem lt_of_bindObject {r : Nat} {path : String} {fresh : Bool} {w w₁ : World ρ σ}
    (bound : (bindObject r o path : StoreM ρ σ (Option Bool)).run w = .ok (some fresh, w₁)) :
    r < w.heap.cells.size := by
  cases hc : w.heap.object? r with
  | none => rw [bindObject_run_none hc] at bound; cases bound
  | some c => exact w.heap.lt_of_object? hc

/-- An array a walk binds is a cell of the heap. -/
theorem lt_of_bindArray {r : Nat} {path : String} {w w₁ : World ρ σ}
    (bound : (bindArray r o path : StoreM ρ σ Bool).run w = .ok (true, w₁)) :
    r < w.heap.cells.size := by
  cases hc : w.heap.array? r with
  | none => rw [bindArray_run_none hc] at bound; cases bound
  | some c => exact w.heap.lt_of_array? hc

/-- Walks one after another, from a list of visited containers, run alike under two bounds
above the cells that list leaves unvisited, when single walks do: each starts from a longer list
in a heap of as many cells. -/
theorem foldWalks_settles {β : Type} {n m : Nat} (val : β → Value) (visit : β → String)
    (xs : List β) {start : List Nat} {w : World ρ σ}
    (settles : ∀ (v : Value) (path : String) (seen : List Nat) (w : World ρ σ),
      w.heap.unvisited seen < n → w.heap.unvisited seen < m →
        (observeAt o n v path seen : StoreM ρ σ (List Nat)).run w = (observeAt o m v path seen).run w)
    (deep : w.heap.unvisited start < n) (deep' : w.heap.unvisited start < m) :
    (xs.foldlM (fun acc x => observeAt o n (val x) (visit x) acc) start).run w =
      (xs.foldlM (fun acc x => observeAt o m (val x) (visit x) acc) start).run w := by
  refine foldlM_run_congr
    (fun acc (w₁ : World ρ σ) => start <:+ acc ∧ w₁.heap.cells.size = w.heap.cells.size) xs
    ?_ ?_ ⟨List.suffix_refl _, rfl⟩
  · rintro x - acc w₁ ⟨grown, size⟩
    have fewer : w₁.heap.unvisited acc ≤ w.heap.unvisited start := by
      rw [w.heap.unvisited_of_size size]
      exact w.heap.unvisited_anti grown.subset
    exact settles _ _ _ _ (by omega) (by omega)
  · rintro x - acc w₁ acc' w₂ ⟨grown, size⟩ step
    have keeps : Heap.Instruments o w₁.heap w₂.heap := observeAt_keeps o n _ _ acc step
    exact ⟨grown.trans (observeAt_seen_suffix step), keeps.size.trans size⟩

/-- A walk runs alike under any two bounds above the number of cells it has not visited: it
enters a container only when it is not visited yet, and visits it then, so it never goes deeper
than that. -/
theorem observeAt_settles :
    ∀ (n m : Nat) (v : Value) (path : String) (seen : List Nat) (w : World ρ σ),
      w.heap.unvisited seen < n → w.heap.unvisited seen < m →
        (observeAt o n v path seen : StoreM ρ σ (List Nat)).run w = (observeAt o m v path seen).run w := by
  intro n
  induction n with
  | zero => intro m v path seen w deep; omega
  | succ n ih =>
    intro m v path seen w deep deep'
    obtain ⟨m, rfl⟩ : ∃ k, m = k + 1 := ⟨m - 1, by omega⟩
    cases v with
    | object r =>
      simp only [observeAt]
      by_cases again : r ∈ seen
      · simp [again]
      · simp only [List.contains_iff_mem, again, if_false]
        refine run_bind_congr fun res w₁ bound => ?_
        cases res with
        | none => rfl
        | some fresh =>
          refine run_bind_congr fun children w₂ intercepted => ?_
          -- the object is a cell, so visiting it leaves one cell fewer unvisited
          have keeps : Heap.Instruments o w.heap w₂.heap :=
            Heap.Instruments.trans (bindObject_keeps r o path bound)
              (interceptProperties_keeps r o fresh intercepted)
          have fewer : w₂.heap.unvisited (r :: seen) < w.heap.unvisited seen := by
            rw [w.heap.unvisited_of_size keeps.size]
            exact w.heap.unvisited_cons_lt (lt_of_bindObject bound) again
          exact foldWalks_settles Prod.snd (fun x => joinPath path x.1) children (ih m)
            (by omega) (by omega)
    | array r =>
      simp only [observeAt]
      by_cases again : r ∈ seen
      · simp [again]
      · simp only [List.contains_iff_mem, again, if_false]
        refine run_bind_congr fun bound w₁ bind => ?_
        cases bound with
        | false => rfl
        | true =>
          simp only [Bool.not_true, Bool.false_eq_true, if_false]
          refine run_bind_congr fun h w₂ read => ?_
          rw [run_heap] at read
          cases read
          have keeps : Heap.Instruments o w.heap w₁.heap := bindArray_keeps r o path bind
          have fewer : w₁.heap.unvisited (r :: seen) < w.heap.unvisited seen := by
            rw [w.heap.unvisited_of_size keeps.size]
            exact w.heap.unvisited_cons_lt (lt_of_bindArray bind) again
          exact foldWalks_settles Prod.fst (fun x => joinPath path (toString x.2)) _ (ih m)
            (by omega) (by omega)
    | undefined | null | bool | number | string => rfl

/-- Walks one after another change only cells they visit, when single walks do. -/
theorem foldWalks_untouched {β : Type} {n : Nat} (val : β → Value) (visit : β → String)
    (xs : List β)
    (untouched : ∀ {v : Value} {path : String} {seen seen' : List Nat} {w w' : World ρ σ},
      (observeAt o n v path seen : StoreM ρ σ (List Nat)).run w = .ok (seen', w') →
        ∀ {r : Nat}, r ∉ seen' → w'.heap.cells[r]? = w.heap.cells[r]?)
    {start out : List Nat} {w w' : World ρ σ}
    (fold : (xs.foldlM (fun acc x => observeAt o n (val x) (visit x) acc) start).run w = .ok (out, w'))
    {r : Nat} (fresh : r ∉ out) : r ∉ start ∧ w'.heap.cells[r]? = w.heap.cells[r]? := by
  -- a cell not visited by the end was not visited at any step before
  obtain ⟨grown, same⟩ := foldlM_invariant
    (fun acc (w₁ : World ρ σ) => start <:+ acc ∧ (r ∉ acc → w₁.heap.cells[r]? = w.heap.cells[r]?))
    xs (fun x _ acc w₁ acc' w₂ ⟨grown, same⟩ step =>
      ⟨grown.trans (observeAt_seen_suffix step), fun later =>
        (untouched step later).trans (same fun now => later ((observeAt_seen_suffix step).subset now))⟩)
    ⟨List.suffix_refl _, fun _ => rfl⟩ fold
  exact ⟨fun mem => fresh (grown.subset mem), same fresh⟩

/-- A walk changes only the cells it visits: a cell it has not visited by its end is as it was. -/
theorem observeAt_untouched :
    ∀ {n : Nat} {v : Value} {path : String} {seen seen' : List Nat} {w w' : World ρ σ},
      (observeAt o n v path seen : StoreM ρ σ (List Nat)).run w = .ok (seen', w') →
        ∀ {r : Nat}, r ∉ seen' → w'.heap.cells[r]? = w.heap.cells[r]? := by
  intro n
  induction n with
  | zero =>
    intro v path seen seen' w w' run r _
    rw [(observeAt_run_stop (.inl rfl) run).2]
  | succ n ih =>
    intro v path seen seen' w w' run r fresh
    cases v with
    | object u =>
      rcases observeAt_object_cases run with ⟨-, -, rfl⟩ | ⟨-, -, rfl, -⟩ | ⟨-, c, -, -, fold⟩
      · rfl
      · rfl
      · -- the claimed object is visited before its properties are walked
        obtain ⟨other, same⟩ := foldWalks_untouched _ _ _ ih fold fresh
        have differs : r ≠ u := by
          rintro rfl
          exact other (List.mem_cons_self ..)
        rw [same, w.heap.setObject_cell_ne _ differs]
    | array u =>
      rcases observeAt_array_cases run with ⟨-, -, rfl⟩ | ⟨-, -, rfl, -⟩ | ⟨-, c, -, -, fold⟩
      · rfl
      · rfl
      · obtain ⟨other, same⟩ := foldWalks_untouched _ _ _ ih fold fresh
        have differs : r ≠ u := by
          rintro rfl
          exact other (List.mem_cons_self ..)
        rw [same, w.heap.setArray_cell_ne _ differs]
    | undefined | null | bool | number | string =>
      rw [(observeAt_run_stop (.inr rfl) run).2]

/-- A walk under the heap's bound, from a list of distinct containers, returns; it adds each
container it visits once, and changes no cell but those it adds. -/
theorem observeAt_visits_once (v : Value) (path : String) {seen : List Nat} (w : World ρ σ)
    (distinct : seen.Nodup) :
    ∃ seen' w', (observeAt o w.heap.walkFuel v path seen : StoreM ρ σ (List Nat)).run w =
      .ok (seen', w') ∧ seen'.Nodup ∧ ∀ r, r ∈ seen ∨ r ∉ seen' → w'.heap.cells[r]? = w.heap.cells[r]? := by
  obtain ⟨seen', w', run⟩ := observeAt_returns w.heap.walkFuel v path seen w
  refine ⟨seen', w', run, observeAt_seen_nodup run distinct, fun r kept => ?_⟩
  rcases kept with visited | fresh
  · exact observeAt_frame run (.inl visited)
  · exact observeAt_untouched run fresh

/-- Marking an array visited and walking its items runs alike under every bound from the heap's
on, and never halts. -/
theorem observeElements_settles (r : Nat) (path : String) (seen : List Nat) (w : World ρ σ)
    {n : Nat} (long : w.heap.walkFuel ≤ n) :
    (observeElements o r path seen : StoreM ρ σ (List Nat)).run w =
      ((w.heap.items r).zipIdx.foldlM (fun acc x => observeAt o n x.1 (joinPath path (toString x.2)) acc)
        (if seen.contains r then seen else r :: seen)).run w := by
  have deep := w.heap.unvisited_lt_walkFuel (if seen.contains r then seen else r :: seen)
  simp only [observeElements, StateT.run_bind, run_heap, ok_bind]
  exact foldWalks_settles Prod.fst (fun x => joinPath path (toString x.2)) _
    (observeAt_settles _ _) deep (by omega)

theorem observe_returns (v : Value) (o : Nat) : Returns (observe v o : StoreM ρ σ Unit) :=
  Returns.bind Returns.heap fun h =>
    Returns.bind (observeAt_returns h.walkFuel v "" []) fun _ => Returns.pure ()

theorem observeElements_returns (r : Nat) (path : String) (seen : List Nat) :
    Returns (observeElements o r path seen : StoreM ρ σ (List Nat)) :=
  Returns.bind Returns.heap fun _ => Returns.foldlM _ (fun acc x _ => observeAt_returns _ x.1 _ acc) _

end Walks

/-- In a heap whose forwards stop, the walks over values end, however its containers are shared
or hold themselves.

* A walk that observes never halts and runs alike under every bound from the heap's on. From a
  list of distinct visited containers it adds each container it enters once, and changes only the
  cells it adds. Observing a value never halts; walking an array's items never halts either, and
  runs alike under every bound from the heap's on.
* The JSON and the text of a value are the one answer of their conversions' rules with no bound
  (`Heap.JsonOf`, `Heap.DisplayOf`): by those rules a container is `null`, and an array the empty
  text, exactly when it is met again while it is being converted; any other is converted in full,
  each of its items with the same list, so a container held twice side by side is converted in
  full twice. -/
theorem traversals_end (w : World ρ σ) (stops : w.heap.ForwardsStop) (o : Nat) :
    (∀ v path seen n, w.heap.walkFuel ≤ n →
      (observeAt o n v path seen : StoreM ρ σ (List Nat)).run w =
        (observeAt o w.heap.walkFuel v path seen).run w) ∧
    (∀ v path seen, seen.Nodup → ∃ seen' w',
      (observeAt o w.heap.walkFuel v path seen : StoreM ρ σ (List Nat)).run w = .ok (seen', w') ∧
        seen'.Nodup ∧ ∀ r, r ∈ seen ∨ r ∉ seen' → w'.heap.cells[r]? = w.heap.cells[r]?) ∧
    (∀ v, Returns (observe v o : StoreM ρ σ Unit)) ∧
    (∀ r path seen, Returns (observeElements o r path seen : StoreM ρ σ (List Nat))) ∧
    (∀ r path seen n, w.heap.walkFuel ≤ n →
      (observeElements o r path seen : StoreM ρ σ (List Nat)).run w =
        ((w.heap.items r).zipIdx.foldlM
          (fun acc x => observeAt o n x.1 (joinPath path (toString x.2)) acc)
          (if seen.contains r then seen else r :: seen)).run w) ∧
    (∀ v j, w.heap.JsonOf [] v j ↔ j = w.heap.toJson v) ∧
    (∀ v s, w.heap.DisplayOf [] v s ↔ s = w.heap.display v) := by
  have deep := w.heap.unvisited_lt_walkFuel
  exact ⟨fun v path seen n long =>
      observeAt_settles n _ v path seen w (Nat.lt_of_lt_of_le (deep seen) long) (deep seen),
    fun v path seen distinct => observeAt_visits_once v path w distinct,
    fun v => observe_returns v o, fun r path seen => observeElements_returns r path seen,
    fun r path seen n long => observeElements_settles r path seen w long,
    fun v j => Heap.jsonOf_iff stops, fun v s => Heap.displayOf_iff⟩

/-- An array holding another array twice and then itself: the inner array is converted in full
both times, and the outer one, met again inside itself, is `null` in JSON and empty in text. -/
theorem traversals_end_shared_and_self :
    let w : World Unit Unit :=
      ⟨⟨#[.array ⟨[.array 1, .array 1, .array 0], none⟩, .array ⟨[.string "x"], none⟩], #[]⟩, ()⟩
    w.heap.ForwardsStop ∧
      w.heap.JsonOf [] (.array 0) (.array [.array [.string "x"], .array [.string "x"], .null]) ∧
      w.heap.DisplayOf [] (.array 0) "x,x," := by
  intro w
  -- the heap holds no objects, so no key is forwarded
  have stops : w.heap.ForwardsStop := by
    intro key r
    refine ⟨0, .stop ?_⟩
    rcases r with _ | _ | r <;> simp [Heap.forward?, Heap.object?, w]
  have ends := traversals_end w stops 0
  exact ⟨stops, (ends.2.2.2.2.2.1 _ _).2 rfl, (ends.2.2.2.2.2.2 _ _).2 (by decide)⟩

end ReactiveView.Store
