import ServiceDirectory.Number.Literal

/-! Text of a span of whole milliseconds. -/
namespace ServiceDirectory.Time

def thousandths (n : Nat) : String :=
  if n % 100 == 0 then toString (n / 100)
  else if n % 10 == 0 then (if n < 100 then "0" else "") ++ toString (n / 10)
  else (if n < 10 then "00" else if n < 100 then "0" else "") ++ toString n

def spanText (ms : Nat) : String :=
  if ms == 0 then "0ns"
  else if ms < 1000 then toString ms ++ "ms"
  else if ms % 1000 == 0 then toString (ms / 1000) ++ "s"
  else toString (ms / 1000) ++ "." ++ thousandths (ms % 1000) ++ "s"

end ServiceDirectory.Time
