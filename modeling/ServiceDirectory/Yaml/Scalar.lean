import ServiceDirectory.Number.Literal

/-! What plain words mean in YAML. -/
namespace ServiceDirectory.Yaml
open Number (Binary64)

inductive Scalar where
  | null
  | flag (b : Bool)
  | integer (n : Int)
  | real (word : String)
  | text (s : String)
  deriving DecidableEq, Repr

def digitIn? (base : Nat) (c : Char) : Option Nat :=
  let n :=
    if '0' ≤ c && c ≤ '9' then some (c.toNat - 48)
    else if 'a' ≤ c && c ≤ 'f' then some (c.toNat - 87)
    else if 'A' ≤ c && c ≤ 'F' then some (c.toNat - 55)
    else none
  n.filter (· < base)

def naturalIn? (base : Nat) (cs : List Char) : Option Nat :=
  if cs.isEmpty then none
  else (cs.mapM (digitIn? base)).map fun digits => digits.foldl (fun n d => base * n + d) 0

def integerIn? (base : Nat) (cs : List Char) : Option Int :=
  let signed : Option Int := match cs with
    | '-' :: rest => (naturalIn? base rest).map fun n => -(n : Int)
    | '+' :: rest => (naturalIn? base rest).map fun n => (n : Int)
    | _ => (naturalIn? base cs).map fun n => (n : Int)
  signed.filter Number.fitsSigned64

def infinityWords : List String :=
  [".inf", ".Inf", ".INF", "+.inf", "+.Inf", "+.INF", "-.inf", "-.Inf", "-.INF"]

def nanWords : List String := [".nan", ".NaN", ".NAN"]

def isReal (word : String) : Bool :=
  infinityWords.contains word || nanWords.contains word ||
    (word.toList.any Number.isDigit && (Number.readDecimal? word.toList).isSome)

def markedInteger? (word : String) : Option Int :=
  match word.toList with
  | '0' :: 'x' :: rest => integerIn? 16 rest
  | '0' :: 'o' :: rest => integerIn? 8 rest
  | '+' :: rest => Number.readSigned64? rest
  | _ => none

def isNull (word : String) : Bool := word == "" || word == "~" || word == "null"

def plain (word : String) : Scalar :=
  match markedInteger? word with
  | some n => .integer n
  | none =>
    if isNull word then .null
    else if word == "true" then .flag true
    else if word == "false" then .flag false
    else match Number.readSigned64? word.toList with
      | some n => .integer n
      | none => if isReal word then .real word else .text word

def tagged (tag word : String) : Scalar :=
  if tag == "bool" then
    (if word == "true" then .flag true else if word == "false" then .flag false else .null)
  else if tag == "int" then
    match Number.readSigned64? word.toList with
    | some n => .integer n
    | none => .null
  else if tag == "float" then (if isReal word then .real word else .null)
  else if tag == "null" then .null
  else .text word

end ServiceDirectory.Yaml
