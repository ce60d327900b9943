import ServiceDirectory.Toml.Tree

/-! Numbers, dates and texts of TOML. -/
namespace ServiceDirectory.Toml
open Number (isDigit)

abbrev Reader (α : Type) := List Char → Option (α × List Char)

def isSpace (c : Char) : Bool := c == ' ' || c == '\t'

def skipSpaces (cs : List Char) : List Char := cs.dropWhile isSpace

def isWordChar (c : Char) : Bool :=
  isDigit c || ('a' ≤ c && c ≤ 'z') || ('A' ≤ c && c ≤ 'Z') || c == '+' || c == '-' || c == '.' ||
    c == '_' || c == ':'

def ungroup (digit : Char → Bool) (cs : List Char) : Option (List Char) :=
  let ok := (cs.zip (cs.drop 1)).all fun (a, b) => !(a == '_' && b == '_')
  match cs.head?, cs.getLast? with
  | some a, some b =>
    if ok && a != '_' && b != '_' && cs.all fun c => digit c || c == '_' then
      some (cs.filter (· != '_'))
    else none
  | _, _ => none

def inRange (n : Int) : Option Int := if Number.fitsSigned64 n then some n else none

def radixValue (base : Nat) (cs : List Char) : Nat :=
  cs.foldl (fun n c =>
    let d := if isDigit c then c.toNat - 48
      else if 'a' ≤ c then c.toNat - 87 else c.toNat - 55
    base * n + d) 0

def isHexDigit (c : Char) : Bool :=
  isDigit c || ('a' ≤ c && c ≤ 'f') || ('A' ≤ c && c ≤ 'F')

def radixInteger? (cs : List Char) : Option Int :=
  match cs with
  | '0' :: 'x' :: rest => (ungroup isHexDigit rest).bind fun d => inRange (radixValue 16 d)
  | '0' :: 'o' :: rest =>
    (ungroup (fun c => '0' ≤ c && c ≤ '7') rest).bind fun d => inRange (radixValue 8 d)
  | '0' :: 'b' :: rest =>
    (ungroup (fun c => c == '0' || c == '1') rest).bind fun d => inRange (radixValue 2 d)
  | _ => none

def sign (cs : List Char) : Bool × List Char :=
  match cs with
  | '-' :: rest => (true, rest)
  | '+' :: rest => (false, rest)
  | _ => (false, cs)

def decimalDigits? (cs : List Char) : Option (List Char) :=
  (ungroup isDigit cs).bind fun digits => match digits with
    | '0' :: _ :: _ => none
    | _ => some digits

def decimalInteger? (cs : List Char) : Option Int :=
  let (negative, body) := sign cs
  (decimalDigits? body).bind fun digits =>
    let n : Int := Number.naturalOf digits
    inRange (if negative then -n else n)

def splitFirst (mark : Char → Bool) (cs : List Char) : List Char × Option (List Char) :=
  match cs.dropWhile (! mark ·) with
  | [] => (cs, none)
  | _ :: rest => (cs.takeWhile (! mark ·), some rest)

def float? (cs : List Char) : Option Number.Binary64 := do
  let (negative, body) := sign cs
  if body == "inf".toList then return .infinite negative
  if body == "nan".toList then return .nan
  let (mantissa, exponent) := splitFirst (fun c => c == 'e' || c == 'E') body
  let (whole, fraction) := splitFirst (· == '.') mantissa
  if exponent.isNone && fraction.isNone then none
  let whole ← decimalDigits? whole
  let fraction ← match fraction with
    | some digits => ungroup isDigit digits
    | none => some []
  let power : Int ← match exponent with
    | some e => do
      let (down, digits) := sign e
      let n : Int := Number.naturalOf (← ungroup isDigit digits)
      pure (if down then -n else n)
    | none => some 0
  let x := Number.Binary64.ofDecimal negative (Number.naturalOf (whole ++ fraction))
    (power - (fraction.length : Int))
  if x.isFinite then return x else none

def shaped (shape : List Char) (cs : List Char) : Bool :=
  shape.length == cs.length &&
    (shape.zip cs).all fun (s, c) => if s == '0' then isDigit c else s == c

def isDate (cs : List Char) : Bool := shaped "0000-00-00".toList cs

def isTime (offsetAllowed : Bool) (cs : List Char) : Bool :=
  shaped "00:00:00".toList (cs.take 8) &&
    let rest := cs.drop 8
    let rest := match rest with
      | '.' :: more => if (more.takeWhile isDigit).isEmpty then rest else more.dropWhile isDigit
      | _ => rest
    rest.isEmpty || (offsetAllowed && (rest == ['Z'] || rest == ['z'] ||
      shaped "+00:00".toList rest || shaped "-00:00".toList rest))

def isDatetime (cs : List Char) : Bool :=
  isDate cs || isTime false cs ||
    (isDate (cs.take 10) && (["T".toList, "t".toList, " ".toList].contains ((cs.drop 10).take 1)) &&
      isTime true (cs.drop 11))

def readWord : Reader Tree := fun cs =>
  let word := cs.takeWhile isWordChar
  let rest := cs.dropWhile isWordChar
  let long := match rest with
    | ' ' :: more =>
      let time := more.takeWhile isWordChar
      if isDate word && isDatetime (word ++ ' ' :: time) then
        some (word ++ ' ' :: time, more.dropWhile isWordChar)
      else none
    | _ => none
  match long with
  | some (stamp, rest) => some (.text (String.ofList stamp), rest)
  | none =>
    if word == "true".toList then some (.flag true, rest)
    else if word == "false".toList then some (.flag false, rest)
    else if isDatetime word then some (.text (String.ofList word), rest)
    else match radixInteger? word, decimalInteger? word, float? word with
      | some n, _, _ => some (.integer n, rest)
      | none, some n, _ => some (.integer n, rest)
      | none, none, some x => some (.floating x, rest)
      | none, none, none => none

/-! Texts -/

def shortEscapes : List (Char × Nat) :=
  [('b', 8), ('t', 9), ('n', 10), ('f', 12), ('r', 13), ('"', 34), ('\\', 92)]

def codePoint? (width : Nat) (cs : List Char) : Option (Char × List Char) :=
  let digits := cs.take width
  if digits.length == width && digits.all isHexDigit && (radixValue 16 digits).isValidChar then
    some (Char.ofNat (radixValue 16 digits), cs.drop width)
  else none

def isControl (c : Char) : Bool := (c.toNat < 0x20 && c != '\t') || c.toNat == 0x7F

def readEscape : Reader Char
  | 'u' :: rest => codePoint? 4 rest
  | 'U' :: rest => codePoint? 8 rest
  | c :: rest => (shortEscapes.find? (·.1 == c)).map fun (_, n) => (Char.ofNat n, rest)
  | [] => none

def basicText : Nat → List Char → List Char → Option (String × List Char)
  | 0, _, _ => none
  | fuel + 1, seen, cs =>
    match cs with
    | [] => none
    | '"' :: rest => some (String.ofList seen.reverse, rest)
    | '\\' :: rest => (readEscape rest).bind fun (c, rest) => basicText fuel (c :: seen) rest
    | c :: rest => if isControl c then none else basicText fuel (c :: seen) rest

def literalText : List Char → Option (String × List Char) := fun cs =>
  let inside := cs.takeWhile (· != '\'')
  match cs.dropWhile (· != '\'') with
  | _ :: rest => if inside.any isControl then none else some (String.ofList inside, rest)
  | [] => none

def dropFirstBreak (cs : List Char) : List Char :=
  match cs with
  | '\n' :: rest => rest
  | _ => cs

def closing (quote : Char) (seen : List Char) (cs : List Char) : Option (String × List Char) :=
  let count := (cs.takeWhile (· == quote)).length
  if count < 3 || 5 < count then none
  else some (String.ofList (List.replicate (count - 3) quote ++ seen).reverse, cs.drop count)

def longText : Nat → List Char → List Char → Option (String × List Char)
  | 0, _, _ => none
  | fuel + 1, seen, cs =>
    match cs with
    | [] => none
    | '"' :: '"' :: '"' :: _ => closing '"' seen cs
    | '\\' :: rest =>
      match skipSpaces rest with
      | '\n' :: more => longText fuel seen (more.dropWhile fun c => isSpace c || c == '\n')
      | _ => (readEscape rest).bind fun (c, rest) => longText fuel (c :: seen) rest
    | c :: rest => if isControl c && c != '\n' then none else longText fuel (c :: seen) rest

def longLiteral : Nat → List Char → List Char → Option (String × List Char)
  | 0, _, _ => none
  | fuel + 1, seen, cs =>
    match cs with
    | [] => none
    | '\'' :: '\'' :: '\'' :: _ => closing '\'' seen cs
    | c :: rest => if isControl c && c != '\n' then none else longLiteral fuel (c :: seen) rest

def readText (cs : List Char) : Option (String × List Char) :=
  let fuel := cs.length + 1
  match cs with
  | '"' :: '"' :: '"' :: rest => longText fuel [] (dropFirstBreak rest)
  | '\'' :: '\'' :: '\'' :: rest => longLiteral fuel [] (dropFirstBreak rest)
  | '"' :: rest => basicText fuel [] rest
  | '\'' :: rest => literalText rest
  | _ => none

/-! Keys -/

def isBareChar (c : Char) : Bool :=
  isDigit c || ('a' ≤ c && c ≤ 'z') || ('A' ≤ c && c ≤ 'Z') || c == '_' || c == '-'

def readKeyPart (cs : List Char) : Option (String × List Char) :=
  match cs with
  | '"' :: rest => basicText (cs.length + 1) [] rest
  | '\'' :: rest => literalText rest
  | _ =>
    let name := cs.takeWhile isBareChar
    if name.isEmpty then none else some (String.ofList name, cs.dropWhile isBareChar)

def readKey : Nat → List Char → Option (List String × List Char)
  | 0, _ => none
  | fuel + 1, cs =>
    match readKeyPart (skipSpaces cs) with
    | none => none
    | some (name, rest) =>
      match skipSpaces rest with
      | '.' :: more => (readKey fuel more).map fun (names, rest) => (name :: names, rest)
      | rest => some ([name], rest)

end ServiceDirectory.Toml
