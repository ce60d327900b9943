import ServiceDirectory.Json.Number
import ServiceDirectory.Json.Quoted

/-! JSON text to drafts. -/
namespace ServiceDirectory.Json

def isSpace (c : Char) : Bool := c == ' ' || c == '\n' || c == '\t' || c == '\r'

def skipSpace (cs : List Char) : List Char := cs.dropWhile isSpace

def brokenBy (fault : Fault) : Draft := .broken fault (some fault)

def readWord (draft : Draft) : List Char → List Char → Draft × List Char
  | [], cs => (draft, cs)
  | _ :: _, [] => (brokenBy .cutShort, [])
  | w :: word, c :: cs => if w == c then readWord draft word cs else (brokenBy .malformed, [])

def QuotedText.draft (q : QuotedText) : Draft :=
  match q.text, q.fault with
  | some s, none => .string s
  | some _, some fault => brokenBy fault
  | none, fault => .broken .malformed fault

mutual

def readDraft : Nat → List Char → Draft × List Char
  | 0, _ => (brokenBy .cutShort, [])
  | fuel + 1, cs =>
    match skipSpace cs with
    | [] => (brokenBy .cutShort, [])
    | '"' :: rest =>
      let q := readQuoted rest
      (q.draft, q.rest)
    | '[' :: rest =>
      let (items, stop, rest) := readItems fuel true rest
      (.array items stop, rest)
    | '\x7b' :: rest =>
      let (fields, stop, rest) := readFields fuel true rest
      (.object fields stop, rest)
    | 'n' :: rest => readWord .null ['u', 'l', 'l'] rest
    | 't' :: rest => readWord (.bool true) ['r', 'u', 'e'] rest
    | 'f' :: rest => readWord (.bool false) ['a', 'l', 's', 'e'] rest
    | '-' :: rest => readNumber true rest
    | c :: rest =>
      if Number.isDigit c then readNumber false (c :: rest) else (brokenBy .malformed, [])

def readItems : Nat → Bool → List Char → List Draft × Option Fault × List Char
  | 0, _, _ => ([], some .cutShort, [])
  | fuel + 1, first, cs =>
    match skipSpace cs with
    | [] => ([], some .cutShort, [])
    | ']' :: rest => ([], none, rest)
    | c :: rest =>
      if !first && c != ',' then ([], some .malformed, [])
      else
        let start := if first then c :: rest else skipSpace rest
        match start with
        | ']' :: _ => ([], some .malformed, [])
        | _ =>
          let (item, rest) := readDraft fuel start
          let (items, stop, rest) := readItems fuel false rest
          (item :: items, stop, rest)

def readFields : Nat → Bool → List Char → List (Option String × Draft) × Option Fault × List Char
  | 0, _, _ => ([], some .cutShort, [])
  | fuel + 1, first, cs =>
    match skipSpace cs with
    | [] => ([], some .cutShort, [])
    | '\x7d' :: rest => ([], none, rest)
    | c :: rest =>
      if !first && c != ',' then ([], some .malformed, [])
      else
        let start := if first then c :: rest else skipSpace rest
        match start with
        | [] => ([], some .cutShort, [])
        | '"' :: rest =>
          let q := readQuoted rest
          match q.fault with
          | some fault =>
            if q.text.isNone then ([(none, brokenBy fault)], some fault, [])
            else ([], some fault, [])
          | none =>
            match skipSpace q.rest with
            | [] => ([(q.text, brokenBy .cutShort)], some .cutShort, [])
            | ':' :: rest =>
              let (item, rest) := readDraft fuel rest
              let (fields, stop, rest) := readFields fuel false rest
              ((q.text, item) :: fields, stop, rest)
            | _ => ([(q.text, brokenBy .malformed)], some .malformed, [])
        | _ => ([], some .malformed, [])

end

def draftOf (text : String) : Draft × List Char :=
  let cs := text.toList
  readDraft (2 * cs.length + 2) cs

def readWith (read : Draft → Except Fault α) (text : String) : Except Fault α := do
  let (draft, rest) := draftOf text
  let a ← read draft
  if (skipSpace rest).isEmpty then .ok a else .error .malformed

def deepest : Nat := 127

def readValue (text : String) : Except Fault Value := readWith (·.value deepest) text

end ServiceDirectory.Json
