import ServiceDirectory.Number.Binary64
import ServiceDirectory.Number.Bounds

/-! Numbers written in plain text: whole numbers with an optional sign, and decimals. -/
namespace ServiceDirectory.Number

def isDigit (c : Char) : Bool := '0' ≤ c && c ≤ '9'

def digitValue (c : Char) : Nat := c.toNat - 48

def naturalOf (digits : List Char) : Nat :=
  digits.foldl (fun n c => 10 * n + digitValue c) 0

def readNatural? (cs : List Char) : Option Nat :=
  if !cs.isEmpty && cs.all isDigit then some (naturalOf cs) else none

def readBounded? (limit : Nat) (cs : List Char) : Option Nat :=
  let digits := match cs with
    | '+' :: rest => rest
    | _ => cs
  (readNatural? digits).filter (· ≤ limit)

def readInteger? : List Char → Option Int
  | '-' :: rest => (readNatural? rest).map fun n => -(n : Int)
  | '+' :: rest => (readNatural? rest).map fun n => (n : Int)
  | cs => (readNatural? cs).map fun n => (n : Int)

def readSigned64? (cs : List Char) : Option Int :=
  (readInteger? cs).filter fitsSigned64

def readExponent? : List Char → Option Int
  | [] => some 0
  | c :: rest => if c == 'e' || c == 'E' then readInteger? rest else none

def readUnsignedDecimal? (negative : Bool) (cs : List Char) : Option Binary64 := do
  let whole := cs.takeWhile isDigit
  let rest := cs.dropWhile isDigit
  let (fraction, rest) := match rest with
    | '.' :: more => (more.takeWhile isDigit, more.dropWhile isDigit)
    | _ => ([], rest)
  if whole.isEmpty && fraction.isEmpty then none
  let e ← readExponent? rest
  some (.ofDecimal negative (naturalOf (whole ++ fraction)) (e - (fraction.length : Int)))

def readDecimal? (cs : List Char) : Option Binary64 :=
  let (negative, body) := match cs with
    | '-' :: rest => (true, rest)
    | '+' :: rest => (false, rest)
    | _ => (false, cs)
  let word := String.ofList (body.map Char.toLower)
  if word == "inf" || word == "infinity" then some (.infinite negative)
  else if word == "nan" then some .nan
  else readUnsignedDecimal? negative body

end ServiceDirectory.Number
