import ServiceDirectory.Number.Shortest
import ServiceDirectory.Table

/-! JSON values. -/
namespace ServiceDirectory.Json

inductive Value where
  | null
  | bool (b : Bool)
  | integer (n : Int)
  | floating (x : Number.Binary64)
  | string (s : String)
  | array (items : List Value)
  | object (fields : List (String × Value))
  deriving Repr, Inhabited

namespace Value

def ofNat (n : Nat) : Value := .integer n

def texts (items : List String) : Value := .array (items.map .string)

def ofOption (f : α → Value) : Option α → Value
  | none => .null
  | some a => f a

mutual

def sorted : Value → Value
  | .array items => .array (sortedItems items)
  | .object fields =>
    .object ((Table.ofEntries (sortedFields fields)).mergeSort fun a b => a.1 ≤ b.1)
  | v => v

def sortedItems : List Value → List Value
  | [] => []
  | v :: rest => v.sorted :: sortedItems rest

def sortedFields : List (String × Value) → List (String × Value)
  | [] => []
  | (k, v) :: rest => (k, v.sorted) :: sortedFields rest

end

end Value
end ServiceDirectory.Json
