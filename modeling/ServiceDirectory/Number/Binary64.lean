/-! Double-precision numbers as exact multiples of powers of two, and rounding to them. -/
namespace ServiceDirectory.Number

inductive Binary64 where
  | finite (negative : Bool) (mantissa : Nat) (exponent : Int)
  | infinite (negative : Bool)
  | nan
  deriving DecidableEq, Repr

namespace Binary64

def divNearest (num den : Nat) : Nat :=
  let q := num / den
  let r := num % den
  if 2 * r > den || (2 * r == den && q % 2 == 1) then q + 1 else q

def shifted (num den : Nat) (e : Int) : Nat × Nat :=
  if 0 ≤ e then (num, den * Nat.pow 2 e.toNat) else (num * Nat.pow 2 (-e).toNat, den)

/-- The number nearest to `num / den`: 53 bits, fewer below `2 ^ -1022`, infinite from half a unit
beyond the largest one on. -/
def ofRatio (negative : Bool) (num den : Nat) : Binary64 :=
  if num == 0 then .finite negative 0 0
  else
    let guess : Int := (Nat.log2 num : Int) - (Nat.log2 den : Int) - 52
    let fraction := shifted num den guess
    let exact := if fraction.1 / fraction.2 < Nat.pow 2 52 then guess - 1 else guess
    let e := max exact (-1074)
    let fraction := shifted num den e
    let m := divNearest fraction.1 fraction.2
    let (m, e) := if m == Nat.pow 2 53 then (Nat.pow 2 52, e + 1) else (m, e)
    if 971 < e then .infinite negative else .finite negative m e

def ofDecimal (negative : Bool) (digits : Nat) (e : Int) : Binary64 :=
  let size : Int := (Nat.toDigits 10 digits).length
  if digits == 0 then .finite negative 0 0
  else if 400 < size + e then .infinite negative
  else if size + e < -400 then .finite negative 0 0
  else if 0 ≤ e then ofRatio negative (digits * Nat.pow 10 e.toNat) 1
  else ofRatio negative digits (Nat.pow 10 (-e).toNat)

def ofNatural (negative : Bool) (n : Nat) : Binary64 := ofRatio negative n 1

def magnitude (m : Nat) (e : Int) : Nat × Nat :=
  if 0 ≤ e then (m * Nat.pow 2 e.toNat, 1) else (m, Nat.pow 2 (-e).toNat)

def times : Binary64 → Binary64 → Binary64
  | .finite n m e, .finite n' m' e' =>
    let r := magnitude m e
    let r' := magnitude m' e'
    ofRatio (n != n') (r.1 * r'.1) (r.2 * r'.2)
  | x, _ => x

def divide : Binary64 → Binary64 → Binary64
  | .finite n m e, .finite n' m' e' =>
    let r := magnitude m e
    let r' := magnitude m' e'
    ofRatio (n != n') (r.1 * r'.2) (r.2 * r'.1)
  | x, _ => x

def isFinite : Binary64 → Bool
  | .finite _ _ _ => true
  | _ => false

def isZero : Binary64 → Bool
  | .finite _ m _ => m == 0
  | _ => false

def toNatural (limit : Nat) : Binary64 → Nat
  | .nan => 0
  | .infinite negative => if negative then 0 else limit
  | .finite negative m e =>
    if negative then 0
    else if 0 ≤ e then min (m * Nat.pow 2 e.toNat) limit
    else
      let unit := Nat.pow 2 (-e).toNat
      min ((2 * m + unit) / (2 * unit)) limit

end Binary64
end ServiceDirectory.Number
