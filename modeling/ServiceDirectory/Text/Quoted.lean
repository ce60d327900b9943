import ServiceDirectory.Text.Unprintable

/-! Texts in messages stand between double quotes. -/
namespace ServiceDirectory.Text

def hexText (n : Nat) : String := String.ofList (Nat.toDigits 16 n)

def quotedChar (c : Char) : List Char :=
  if c == '"' then ['\\', '"']
  else if c == '\\' then ['\\', '\\']
  else if c == '\t' then ['\\', 't']
  else if c == '\r' then ['\\', 'r']
  else if c == '\n' then ['\\', 'n']
  else if c.toNat == 0 then ['\\', '0']
  else if isHidden c then "\\u\x7b".toList ++ (hexText c.toNat).toList ++ "\x7d".toList
  else [c]

def quoted (s : String) : String :=
  String.ofList ('"' :: s.toList.flatMap quotedChar ++ ['"'])

end ServiceDirectory.Text
