import ServiceDirectory.Time.Calendar

/-! Moments of universal time, to the nanosecond, and their text. -/
namespace ServiceDirectory

/-- Nanoseconds since 1970-01-01T00:00:00Z. A moment inside a leap second is counted with the
second after it and marked. -/
structure Timestamp where
  nanos : Int
  leap : Bool
  deriving DecidableEq, Repr

namespace Timestamp

def perSecond : Int := 1000000000

def perMilli : Int := 1000000

def ofNanos (n : Int) : Timestamp := ⟨n, false⟩

def origin : Timestamp := ofNanos (1767225600 * perSecond)

def ofMillis (ms : Int) : Timestamp := ofNanos (origin.nanos + ms * perMilli)

def toMillis (t : Timestamp) : Int := (t.nanos - origin.nanos) / perMilli

def since (t earlier : Timestamp) : Int := t.nanos - earlier.nanos

def later (t u : Timestamp) : Timestamp := if t.nanos < u.nanos then u else t

theorem laterNotBefore (t u : Timestamp) : t.nanos ≤ (later t u).nanos := by
  unfold later; split <;> omega

def padded (width n : Nat) : String :=
  let digits := Nat.toDigits 10 n
  String.ofList (List.replicate (width - digits.length) '0' ++ digits)

def yearText (y : Int) : String :=
  if 0 ≤ y && y ≤ 9999 then padded 4 y.toNat
  else (if y < 0 then "-" else "+") ++ padded 4 y.natAbs

def fractionText (nanos : Nat) : String :=
  if nanos == 0 then ""
  else if nanos % 1000000 == 0 then "." ++ padded 3 (nanos / 1000000)
  else if nanos % 1000 == 0 then "." ++ padded 6 (nanos / 1000)
  else "." ++ padded 9 nanos

def text (t : Timestamp) : String :=
  let counted := if t.leap then t.nanos - perSecond else t.nanos
  let seconds := counted / perSecond
  let date := Time.Date.ofDays (seconds / 86400)
  let ofDay := (seconds % 86400).toNat
  let second := if t.leap then ofDay % 60 + 1 else ofDay % 60
  yearText date.year ++ "-" ++ padded 2 date.month ++ "-" ++ padded 2 date.day ++ "T" ++
    padded 2 (ofDay / 3600) ++ ":" ++ padded 2 (ofDay / 60 % 60) ++ ":" ++ padded 2 second ++
    fractionText (counted % perSecond).toNat ++ "Z"

end Timestamp
end ServiceDirectory
