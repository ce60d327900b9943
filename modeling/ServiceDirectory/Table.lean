/-! Finite maps from texts, as lists of entries with distinct keys. -/
namespace ServiceDirectory

abbrev Table (β : Type) := List (String × β)

namespace Table

def get? (t : Table β) (key : String) : Option β := (List.find? (·.1 == key) t).map (·.2)

def holds (t : Table β) (key : String) : Bool := t.any (·.1 == key)

def put (t : Table β) (key : String) (value : β) : Table β :=
  match t with
  | [] => [(key, value)]
  | (k, v) :: rest => if k == key then (key, value) :: rest else (k, v) :: put rest key value

def remove (t : Table β) (key : String) : Table β := List.filter (·.1 != key) t

def keys (t : Table β) : List String := t.map (·.1)

def values (t : Table β) : List β := t.map (·.2)

def adjust (t : Table β) (key : String) (f : β → β) : Table β :=
  t.map fun (k, v) => if k == key then (k, f v) else (k, v)

def ofEntries (entries : List (String × β)) : Table β :=
  entries.foldl (fun t (k, v) => put t k v) []

theorem getPutSame (t : Table β) (key : String) (v : β) : (t.put key v).get? key = some v := by
  induction t with
  | nil => simp [put, get?]
  | cons head rest ih =>
    obtain ⟨k, w⟩ := head
    by_cases h : k = key
    · simp [put, get?, h]
    · simpa [put, get?, h] using ih

theorem getPutOther (t : Table β) {key other : String} (v : β) (h : other ≠ key) :
    (t.put key v).get? other = t.get? other := by
  induction t with
  | nil => simp [put, get?, Ne.symm h]
  | cons head rest ih =>
    obtain ⟨k, w⟩ := head
    by_cases hk : k = key
    · subst hk; simp [put, get?, Ne.symm h]
    · by_cases ho : k = other
      · simp [put, get?, ho, h]
      · simpa [put, get?, hk, ho] using ih

theorem getRemoveSame (t : Table β) (key : String) : (t.remove key).get? key = none := by
  simp [remove, get?]

end Table

def sortedDistinct (names : List String) : List String :=
  (names.mergeSort (· ≤ ·)).eraseReps

end ServiceDirectory
