import ServiceDirectory.Number.Literal
import ServiceDirectory.Json.Draft

/-! Numbers in JSON text. Whole numbers that fit 64 bits are exact. Others keep the leading digits
that fit 64 bits and are scaled by powers of ten, with one rounding for each step. -/
namespace ServiceDirectory.Json
open Number (Binary64 isDigit digitValue naturalOf)

def absorb (n : Nat) : List Char → Nat × List Char
  | [] => (n, [])
  | c :: rest =>
    let next := 10 * n + digitValue c
    if next ≤ Number.largest64 then absorb next rest else (n, c :: rest)

def powerOfTen (k : Nat) : Binary64 := .ofNatural false (Nat.pow 10 k)

def scale : Nat → Binary64 → Int → Option Binary64
  | 0, x, _ => some x
  | fuel + 1, x, e =>
    if e.natAbs ≤ 308 then
      if 0 ≤ e then some (x.times (powerOfTen e.toNat)) |>.filter (·.isFinite)
      else some (x.divide (powerOfTen e.natAbs))
    else if x.isZero then some x
    else if 0 ≤ e then none
    else scale fuel (x.divide (powerOfTen 308)) (e + 308)

structure NumberParts where
  negative : Bool
  whole : List Char
  fraction : List Char
  exponent : Option Int
  deriving Repr

namespace NumberParts

def largestExponent : Nat := 2147483647

def double (p : NumberParts) : Option Binary64 :=
  let (n, long) := absorb 0 p.whole
  let (n, unused) := absorb n p.fraction
  let point : Int := (long.length : Int) - ((p.fraction.length - unused.length : Nat) : Int)
  let written := p.exponent.getD 0
  let size :=
    if written.natAbs ≤ largestExponent then
      scale 8 (.ofNatural false n) (point + written)
    else if n != 0 && 0 < written then none
    else some (.ofNatural false 0)
  size.map fun x => match x with
    | .finite _ m e => .finite p.negative m e
    | other => other

def draft (p : NumberParts) : Draft :=
  let n := naturalOf p.whole
  let whole := p.fraction.isEmpty && p.exponent.isNone
  if whole && !p.negative && n ≤ Number.largest64 then .integer n
  else if whole && p.negative && 0 < n && Number.fitsSigned64 (-(n : Int)) then
    .integer (-(n : Int))
  else match p.double with
    | some x => .floating x
    | none => .broken .malformed none

end NumberParts

def digitsDue : List Char → Draft
  | [] => .broken .cutShort (some .malformed)
  | _ => .broken .malformed (some .malformed)

def readExponent (cs : List Char) : Except Draft (Option Int × List Char) :=
  match cs with
  | [] => .ok (none, [])
  | c :: rest =>
    if c == 'e' || c == 'E' then
      let (negative, rest) := match rest with
        | '-' :: more => (true, more)
        | '+' :: more => (false, more)
        | _ => (false, rest)
      let digits := rest.takeWhile isDigit
      if digits.isEmpty then .error (digitsDue rest)
      else
        let n : Int := naturalOf digits
        .ok (some (if negative then -n else n), rest.dropWhile isDigit)
    else .ok (none, cs)

def readFraction (cs : List Char) : Except Draft (List Char × List Char) :=
  match cs with
  | '.' :: rest =>
    let digits := rest.takeWhile isDigit
    if digits.isEmpty then .error (digitsDue rest) else .ok (digits, rest.dropWhile isDigit)
  | _ => .ok ([], cs)

def readWhole (cs : List Char) : Except Draft (List Char × List Char) :=
  let digits := cs.takeWhile isDigit
  match digits with
  | [] => .error (digitsDue cs)
  | '0' :: _ :: _ => .error (.broken .malformed (some .malformed))
  | _ => .ok (digits, cs.dropWhile isDigit)

def readParts (negative : Bool) (cs : List Char) : Except Draft (NumberParts × List Char) := do
  let (whole, cs) ← readWhole cs
  let (fraction, cs) ← readFraction cs
  let (exponent, cs) ← readExponent cs
  return (⟨negative, whole, fraction, exponent⟩, cs)

def readNumber (negative : Bool) (cs : List Char) : Draft × List Char :=
  match readParts negative cs with
  | .ok (parts, rest) => (parts.draft, rest)
  | .error broken => (broken, [])

end ServiceDirectory.Json
