import ServiceDirectory.Text.Blank
import ServiceDirectory.Number.Literal
import ServiceDirectory.Time.Timestamp

/-! Reading a moment from text. The grammar is RFC 3339 made lenient: fields may have fewer digits
and blanks before them, a space may stand for the `T`, years may carry a sign and more digits, and
the offset may be `Z`, `UTC` or hours and minutes with any colons and blanks between. -/
namespace ServiceDirectory.Time

inductive StampError where
  | outOfRange
  | impossible
  | invalid
  | tooShort
  | tooLong
  deriving DecidableEq, Repr

def StampError.message : StampError → String
  | .outOfRange => "input is out of range"
  | .impossible => "no possible date and time matching input"
  | .invalid => "input contains invalid characters"
  | .tooShort => "premature end of input"
  | .tooLong => "trailing input"

abbrev Reader (α : Type) := List Char → Except StampError (α × List Char)

def skipBlanks (cs : List Char) : List Char := cs.dropWhile Text.isBlank

def number (width : Nat) : Reader Nat := fun cs =>
  let digits := (cs.take width).takeWhile Number.isDigit
  if cs.isEmpty then .error .tooShort
  else if digits.isEmpty then .error .invalid
  else .ok (Number.naturalOf digits, cs.drop digits.length)

def longNumber : Reader Nat := fun cs =>
  let digits := cs.takeWhile Number.isDigit
  if cs.isEmpty then .error .tooShort
  else if digits.isEmpty then .error .invalid
  else
    let n := Number.naturalOf digits
    if Number.fitsSigned64 n then .ok (n, cs.drop digits.length) else .error .outOfRange

def field (low high : Nat) : Reader Nat := fun cs => do
  let (n, rest) ← number 2 (skipBlanks cs)
  if low ≤ n && n ≤ high then .ok (n, rest) else .error .outOfRange

def year : Reader Int := fun cs => do
  let (y, rest) ← match skipBlanks cs with
    | '-' :: more => do
      let (n, rest) ← longNumber more
      pure (-(n : Int), rest)
    | '+' :: more => do
      let (n, rest) ← longNumber more
      pure ((n : Int), rest)
    | more => do
      let (n, rest) ← number 4 more
      pure ((n : Int), rest)
  if Number.fitsSigned32 y then .ok (y, rest) else .error .outOfRange

def mark (c : Char) (cs : List Char) : Except StampError (List Char) :=
  match skipBlanks cs with
  | [] => .error .tooShort
  | d :: rest => if d == c then .ok rest else .error .invalid

def separator : List Char → Except StampError (List Char)
  | [] => .error .tooShort
  | c :: rest => if c == 'T' || c == 't' || c == ' ' then .ok rest else .error .invalid

def fraction (cs : List Char) : Except StampError (Nat × List Char) :=
  match cs with
  | '.' :: rest => do
    let (n, after) ← number 9 rest
    let places := rest.length - after.length
    .ok (n * Nat.pow 10 (9 - places), after.dropWhile Number.isDigit)
  | _ => .ok (0, cs)

def pair : Reader (Nat × Nat)
  | a :: b :: rest =>
    if Number.isDigit a && Number.isDigit b then
      .ok ((Number.digitValue a, Number.digitValue b), rest)
    else .error .invalid
  | [a] => .error (if a.toNat < 128 then .tooShort else .invalid)
  | [] => .error .tooShort

def isUtcWord (cs : List Char) : Bool := (cs.take 3).map Char.toUpper == ['U', 'T', 'C']

def offset (cs : List Char) : Except StampError (Int × List Char) := do
  if isUtcWord cs then return (0, cs.drop 3)
  let (negative, rest) ← match cs with
    | 'Z' :: rest => return (0, rest)
    | 'z' :: rest => return (0, rest)
    | c :: rest =>
      if c == '+' then pure (false, rest)
      else if c == '-' || c == Char.ofNat 0x2212 then pure (true, rest)
      else .error .invalid
    | [] => .error .tooShort
  let ((h, i), rest) ← pair rest
  let ((m, n), rest) ← pair (rest.dropWhile fun c => c == ':' || Text.isBlank c)
  if 6 ≤ m then .error .outOfRange
  let seconds : Int := ((10 * h + i) * 3600 + (10 * m + n) * 60 : Nat)
  return (if negative then -seconds else seconds, rest)

def firstYear : Int := -262143

def lastYear : Int := 262142

/-- A second of 60 is a leap second, in any minute. -/
def assemble (date : Date) (hour minute second nano : Nat) (offset : Int) :
    Except StampError Timestamp :=
  if date.year < firstYear || lastYear < date.year || !date.valid then .error .outOfRange
  else if offset ≤ -86400 || 86400 ≤ offset then .error .outOfRange
  else
    let ofDay : Nat := hour * 3600 + minute * 60 + second
    let seconds : Int := date.toDays * 86400 + (ofDay : Int) - offset
    let day := (if second == 60 then seconds - 1 else seconds) / 86400
    if day < (Date.mk firstYear 1 1).toDays || (Date.mk lastYear 12 31).toDays < day then
      .error .impossible
    else .ok ⟨seconds * Timestamp.perSecond + (nano : Int), second == 60⟩

def readTimestamp (s : String) : Except StampError Timestamp := do
  let (y, cs) ← year s.toList
  let (m, cs) ← field 1 12 (← mark '-' cs)
  let (d, cs) ← field 1 31 (← mark '-' cs)
  let cs ← separator cs
  let (hour, cs) ← field 0 23 cs
  let (minute, cs) ← field 0 59 (← mark ':' cs)
  let (second, cs) ← field 0 60 (← mark ':' cs)
  let (nano, cs) ← fraction cs
  let (east, cs) ← offset (skipBlanks cs)
  if (skipBlanks cs).isEmpty then assemble ⟨y, m, d⟩ hour minute second nano east
  else .error .tooLong

end ServiceDirectory.Time
