import ServiceDirectory.Number.Literal

/-! Numeric addresses with their ports: four bytes in decimal, or groups of hexadecimal digits in
brackets. Each scan gives what it leaves of the text. -/
namespace ServiceDirectory.Endpoint
open Number (isDigit naturalOf)

abbrev Scan := List Char → Option (List Char)

def largestPort : Nat := 65535

def isHexDigit (c : Char) : Bool :=
  isDigit c || ('a' ≤ c && c ≤ 'f') || ('A' ≤ c && c ≤ 'F')

def scanMark (mark : Char) : Scan
  | [] => none
  | c :: rest => if c == mark then some rest else none

/-- Any number of digits, leading zeros among them. -/
def scanNumber (largest : Nat) : Scan := fun cs =>
  let digits := cs.takeWhile isDigit
  if digits.isEmpty || largest < naturalOf digits then none else some (cs.dropWhile isDigit)

def scanByte : Scan := fun cs =>
  let digits := cs.takeWhile isDigit
  if 3 < digits.length || (1 < digits.length && digits.head? == some '0') then none
  else scanNumber 255 cs

def scanGroup : Scan := fun cs =>
  let digits := cs.takeWhile isHexDigit
  if digits.isEmpty || 4 < digits.length then none else some (cs.dropWhile isHexDigit)

def scanFourBytes : Scan := fun cs => do
  let cs ← scanMark '.' (← scanByte cs)
  let cs ← scanMark '.' (← scanByte cs)
  let cs ← scanMark '.' (← scanByte cs)
  scanByte cs

/-- At most so many groups with colons between them, and how many there are. Four bytes in decimal
may stand in the place of two groups, and nothing after them. -/
def scanGroups : Nat → Bool → List Char → (Nat × Bool) × List Char
  | 0, _, cs => ((0, false), cs)
  | room + 1, first, cs =>
    let start := if first then some cs else scanMark ':' cs
    match (if room == 0 then none else start.bind scanFourBytes), start.bind scanGroup with
    | some rest, _ => ((2, true), rest)
    | none, some rest =>
      let ((count, mixed), rest) := scanGroups room false rest
      ((count + 1, mixed), rest)
    | none, none => ((0, false), cs)

def allGroups : Nat := 8

/-- All groups, or two colons for one or more groups of zeros. -/
def scanEightGroups : Scan := fun cs =>
  let ((count, mixed), rest) := scanGroups allGroups true cs
  if count == allGroups then some rest
  else if mixed then none
  else do
    let rest ← scanMark ':' (← scanMark ':' rest)
    return (scanGroups (allGroups - (count + 1)) true rest).2

def scanScope : Scan := fun cs => (scanMark '%' cs).bind (scanNumber Number.largest32)

def scanPort : Scan := fun cs => (scanMark ':' cs).bind (scanNumber largestPort)

def scanPlain : Scan := fun cs => do scanPort (← scanFourBytes cs)

def scanBracketed : Scan := fun cs => do
  let cs ← scanEightGroups (← scanMark '[' cs)
  let cs ← scanMark ']' ((scanScope cs).getD cs)
  scanPort cs

def isNumeric (cs : List Char) : Bool := ((scanPlain cs).or (scanBracketed cs)) == some []

end ServiceDirectory.Endpoint
