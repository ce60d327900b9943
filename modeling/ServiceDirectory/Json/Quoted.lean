import ServiceDirectory.Json.Fault

/-! Quoted strings in JSON text. -/
namespace ServiceDirectory.Json

structure QuotedText where
  text : Option String
  fault : Option Fault
  rest : List Char
  deriving Repr

def hexValue? (c : Char) : Option Nat :=
  if '0' ≤ c && c ≤ '9' then some (c.toNat - 48)
  else if 'a' ≤ c && c ≤ 'f' then some (c.toNat - 87)
  else if 'A' ≤ c && c ≤ 'F' then some (c.toNat - 55)
  else none

def readHex4 (cs : List Char) : Except Fault (Nat × List Char) :=
  let four := cs.take 4
  if four.foldr (fun c size => c.utf8Size + size) 0 < 4 then .error .cutShort
  else match four.mapM hexValue? with
    | some [a, b, c, d] => .ok (((a * 16 + b) * 16 + c) * 16 + d, cs.drop 4)
    | _ => .error .malformed

def shortEscape? (c : Char) : Option Char :=
  if c == '"' || c == '\\' || c == '/' then some c
  else if c == 'b' then some (Char.ofNat 8)
  else if c == 'f' then some (Char.ofNat 12)
  else if c == 'n' then some '\n'
  else if c == 'r' then some '\r'
  else if c == 't' then some '\t'
  else none

def isHighSurrogate (n : Nat) : Bool := 0xD800 ≤ n && n < 0xDC00

def isLowSurrogate (n : Nat) : Bool := 0xDC00 ≤ n && n < 0xE000

def readLowHalf? : List Char → Option (Nat × List Char)
  | '\\' :: 'u' :: rest =>
    match readHex4 rest with
    | .ok (n, rest) => if isLowSurrogate n then some (n, rest) else none
    | .error _ => none
  | _ => none

def endsInEscape : List Char → Bool
  | [] => true
  | ['\\'] => true
  | '\\' :: 'u' :: rest => match readHex4 rest with
    | .ok _ => false
    | .error _ => true
  | _ => false

def readQuotedFrom : Nat → List Char → List Char → Bool → QuotedText
  | 0, _, _, whole => ⟨if whole then some "" else none, some .cutShort, []⟩
  | fuel + 1, cs, seen, whole =>
    let fail (fault : Fault) : QuotedText := ⟨if whole then some "" else none, some fault, []⟩
    match cs with
    | [] => fail .cutShort
    | '"' :: rest => ⟨if whole then some (String.ofList seen.reverse) else none, none, rest⟩
    | '\\' :: 'u' :: rest =>
      match readHex4 rest with
      | .error fault => fail fault
      | .ok (n, rest) =>
        if isHighSurrogate n then
          match readLowHalf? rest with
          | some (low, rest) =>
            let code := 0x10000 + (n - 0xD800) * 0x400 + (low - 0xDC00)
            readQuotedFrom fuel rest (Char.ofNat code :: seen) whole
          | none => readQuotedFrom fuel rest seen (whole && endsInEscape rest)
        else if isLowSurrogate n then readQuotedFrom fuel rest seen false
        else readQuotedFrom fuel rest (Char.ofNat n :: seen) whole
    | '\\' :: c :: rest =>
      match shortEscape? c with
      | some d => readQuotedFrom fuel rest (d :: seen) whole
      | none => fail .malformed
    | ['\\'] => fail .cutShort
    | c :: rest =>
      if c.toNat < 0x20 then fail .malformed else readQuotedFrom fuel rest (c :: seen) whole

def readQuoted (cs : List Char) : QuotedText := readQuotedFrom (cs.length + 1) cs [] true

def QuotedText.readFault (q : QuotedText) : Option Fault :=
  if q.text.isNone then some .malformed else q.fault

end ServiceDirectory.Json
