import ServiceDirectory.Number.Bounds

/-! How records are read from a source of fields, whatever the source is. -/
namespace ServiceDirectory.Decode

/-- What happens when a field is not given: by name an error, an empty value or a default; in a
sequence the first two are both an error. -/
inductive Absence where
  | refused
  | empty
  | defaulted
  deriving DecidableEq, Repr

structure Field (S E ρ : Type) where
  name : String
  absence : Absence
  store : S → ρ → Except E ρ

structure Dialect (S E : Type) where
  text : S → Except E String
  flag : S → Except E Bool
  natural : (limit : Nat) → (kind : String) → S → Except E Nat
  list : {α : Type} → (S → Except E α) → S → Except E (List α)
  table : {α : Type} → (S → Except E α) → S → Except E (List (String × α))
  optional : {α : Type} → (S → Except E α) → S → Except E (Option α)
  record : {ρ : Type} → (kind : String) → List (Field S E ρ) → ρ → S → Except E ρ

namespace Dialect

def word32 (d : Dialect S E) : S → Except E Nat := d.natural Number.largest32 "u32"

def word64 (d : Dialect S E) : S → Except E Nat := d.natural Number.largest64 "u64"

def size (d : Dialect S E) : S → Except E Nat := d.natural Number.largest64 "usize"

end Dialect

def field (name : String) (absence : Absence) (read : S → Except E α) (put : α → ρ → ρ) :
    Field S E ρ :=
  ⟨name, absence, fun source record => do return put (← read source) record⟩

end ServiceDirectory.Decode
