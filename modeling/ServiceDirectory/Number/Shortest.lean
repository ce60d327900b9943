import ServiceDirectory.Number.Binary64

/-! The fewest decimal digits that read back as the same number, and the two ways they are laid
out: positional throughout, or with an exponent for very large and very small numbers. -/
namespace ServiceDirectory.Number

def ratioLt (a b c d : Nat) : Bool := decide (a * d < c * b)

def leadingZeros (num den : Nat) : Nat → Nat
  | 0 => 0
  | fuel + 1 => if den ≤ num then 0 else leadingZeros (num * 10) den fuel + 1

def decimalExponent (num den : Nat) : Int :=
  if den ≤ num then ((Nat.toDigits 10 (num / den)).length : Int) - 1
  else -(leadingZeros num den 400 : Int)

def decimalRatio (d : Nat) (q : Int) : Nat × Nat :=
  if 0 ≤ q then (d * Nat.pow 10 q.toNat, 1) else (d, Nat.pow 10 (-q).toNat)

def trimZeros : Nat → Nat → Int → Nat × Int
  | 0, d, q => (d, q)
  | fuel + 1, d, q => if d != 0 && d % 10 == 0 then trimZeros fuel (d / 10) (q + 1) else (d, q)

/-- The decimal of `count` digits or fewer next to `num / den` that stays within the bounds `low`
and `high`; the bounds themselves belong to it when `closed` is set. -/
def nearestOfSize (num den : Nat) (low high : Nat × Nat) (closed : Bool) (count : Nat) :
    Option (Nat × Int) :=
  let q := decimalExponent num den - (count : Int) + 1
  let grid := decimalRatio 1 q
  let d := num * grid.2 / (den * grid.1)
  let within (c : Nat) : Bool :=
    let v := decimalRatio c q
    if closed then !ratioLt v.1 v.2 low.1 low.2 && !ratioLt high.1 high.2 v.1 v.2
    else ratioLt low.1 low.2 v.1 v.2 && ratioLt v.1 v.2 high.1 high.2
  let twiceRest := 2 * (num * grid.2 - d * (den * grid.1))
  let lowerNearer := twiceRest < den * grid.1 || (twiceRest == den * grid.1 && d % 2 == 0)
  match within d, within (d + 1) with
  | true, true => some (if lowerNearer then d else d + 1, q)
  | true, false => some (d, q)
  | false, true => some (d + 1, q)
  | false, false => none

def shortest (m : Nat) (e : Int) : Nat × Int :=
  if m == 0 then (0, 0)
  else
    let unit : Nat × Nat :=
      if 2 ≤ e then (Nat.pow 2 (e - 2).toNat, 1) else (1, Nat.pow 2 (2 - e).toNat)
    let below := if m == Nat.pow 2 52 && -1074 < e then 4 * m - 1 else 4 * m - 2
    let low := (below * unit.1, unit.2)
    let high := ((4 * m + 2) * unit.1, unit.2)
    let found := (List.range 17).findSome? fun i =>
      nearestOfSize (4 * m * unit.1) unit.2 low high (m % 2 == 0) (i + 1)
    match found with
    | some (d, q) => trimZeros 20 d q
    | none => (0, 0)

def layOut (digits : Nat) (e : Int) : String :=
  let text := Nat.toDigits 10 digits
  let zeros (n : Int) : List Char := List.replicate n.toNat '0'
  let point : Int := text.length + e
  if 0 ≤ e then String.ofList (text ++ zeros e)
  else if 0 < point then
    String.ofList (text.take point.toNat ++ '.' :: text.drop point.toNat)
  else String.ofList ('0' :: '.' :: zeros (-point) ++ text)

def layOutScientific (digits : Nat) (e : Int) : String :=
  let text := Nat.toDigits 10 digits
  let power := toString ((text.length : Int) + e - 1)
  match text with
  | [] => ""
  | [d] => String.ofList [d] ++ "e" ++ power
  | d :: rest => String.ofList (d :: '.' :: rest) ++ "e" ++ power

namespace Binary64

def signText (negative : Bool) : String := if negative then "-" else ""

def positional : Binary64 → String
  | .nan => "NaN"
  | .infinite negative => signText negative ++ "inf"
  | .finite negative m e =>
    let (d, q) := shortest m e
    signText negative ++ layOut d q

def compact : Binary64 → String
  | .nan => "NaN"
  | .infinite negative => signText negative ++ "inf"
  | .finite negative m e =>
    let (d, q) := shortest m e
    let point : Int := ((Nat.toDigits 10 d).length : Int) + q
    if d == 0 then signText negative ++ "0.0"
    else if 0 ≤ q && point ≤ 16 then signText negative ++ layOut d q ++ ".0"
    else if -5 < point && point ≤ 16 then signText negative ++ layOut d q
    else signText negative ++ layOutScientific d q

end Binary64
end ServiceDirectory.Number
