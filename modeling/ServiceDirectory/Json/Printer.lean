import ServiceDirectory.Json.Value

/-! JSON values to text, without white space. -/
namespace ServiceDirectory.Json

def hexDigit (n : Nat) : Char := Nat.digitChar n

def escapeChar (c : Char) : List Char :=
  if c == '"' then ['\\', '"']
  else if c == '\\' then ['\\', '\\']
  else if c == '\n' then ['\\', 'n']
  else if c == '\r' then ['\\', 'r']
  else if c == '\t' then ['\\', 't']
  else if c.toNat == 8 then ['\\', 'b']
  else if c.toNat == 12 then ['\\', 'f']
  else if c.toNat < 0x20 then
    ['\\', 'u', '0', '0', hexDigit (c.toNat / 16), hexDigit (c.toNat % 16)]
  else [c]

def stringChars (s : String) : List Char := '"' :: s.toList.flatMap escapeChar ++ ['"']

mutual

def chars : Value → List Char
  | .null => "null".toList
  | .bool true => "true".toList
  | .bool false => "false".toList
  | .integer n => (toString n).toList
  | .floating x => x.compact.toList
  | .string s => stringChars s
  | .array items => '[' :: itemChars true items
  | .object fields => '\x7b' :: fieldChars true fields

def itemChars (first : Bool) : List Value → List Char
  | [] => [']']
  | v :: rest => (if first then [] else [',']) ++ chars v ++ itemChars false rest

def fieldChars (first : Bool) : List (String × Value) → List Char
  | [] => ['\x7d']
  | (k, v) :: rest =>
    (if first then [] else [',']) ++ stringChars k ++ ':' :: chars v ++ fieldChars false rest

end

def render (v : Value) : String := String.ofList (chars v)

end ServiceDirectory.Json
