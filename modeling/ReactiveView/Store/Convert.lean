import ReactiveView.Store.Object
import ReactiveView.Json.Basic
/-!
# Values from JSON

`ofJson` builds a value from a JSON document: numbers become binary64 values, arrays and objects
become new containers, and every key of an object becomes an enumerable plain property, in the
order of the document.
-/
namespace ReactiveView.Store

variable {ρ σ : Type}

mutual
/-- A value built from a JSON document, with new containers for its arrays and objects. -/
def ofJson : Json → StoreM ρ σ Value
  | .null => return .null
  | .bool b => return .bool b
  | .number n => return .number n.toDouble
  | .string s => return .string s
  | .array items => do
    let vs ← ofJsonItems items
    return .array (← newArray vs)
  | .object fields => do
    let r ← newObject
    ofJsonFields r fields
    return .object r

/-- The values of JSON items. -/
def ofJsonItems : List Json → StoreM ρ σ (List Value)
  | [] => return []
  | j :: rest => do
    let v ← ofJson j
    return v :: (← ofJsonItems rest)

/-- Define the fields of a JSON object on an object, in order. -/
def ofJsonFields (r : Nat) : List (String × Json) → StoreM ρ σ Unit
  | [] => return
  | (k, j) :: rest => do
    define r k (← ofJson j) true
    ofJsonFields r rest
end

end ReactiveView.Store
