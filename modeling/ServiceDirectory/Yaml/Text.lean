import ServiceDirectory.Yaml.Node

/-! Quoted, plain and block texts of YAML. -/
namespace ServiceDirectory.Yaml

def foldBreaks (count : Nat) : List Char :=
  if count == 1 then [' '] else List.replicate (count - 1) '\n'

def trimSeen (seen : List Char) : List Char := seen.dropWhile isSpace

def breaksAhead : Nat → List Char → Nat → Nat × List Char
  | 0, cs, count => (count, cs)
  | fuel + 1, cs, count =>
    match cs.dropWhile isSpace with
    | '\n' :: rest => breaksAhead fuel rest (count + 1)
    | _ => (count, cs.dropWhile isSpace)

def simpleEscapes : List (Char × Nat) :=
  [('0', 0), ('a', 7), ('b', 8), ('t', 9), ('\t', 9), ('n', 10), ('v', 11), ('f', 12), ('r', 13),
    ('e', 27), (' ', 32), ('"', 34), ('/', 47), ('\\', 92), ('N', 0x85), ('_', 0xA0), ('L', 0x2028),
    ('P', 0x2029)]

def escapeWidth? (c : Char) : Option Nat :=
  if c == 'x' then some 2 else if c == 'u' then some 4 else if c == 'U' then some 8 else none

def codePoint? (cs : List Char) : Option Char :=
  match naturalIn? 16 cs with
  | some n => if n.isValidChar then some (Char.ofNat n) else none
  | none => none

def doubleQuoted : Nat → List Char → List Char → Option (String × List Char)
  | 0, _, _ => none
  | fuel + 1, cs, seen =>
    match cs with
    | [] => none
    | '"' :: rest => some (String.ofList seen.reverse, rest)
    | '\\' :: '\n' :: rest => doubleQuoted fuel (rest.dropWhile isSpace) seen
    | '\\' :: c :: rest =>
      match simpleEscapes.find? (·.1 == c), escapeWidth? c with
      | some (_, n), _ => doubleQuoted fuel rest (Char.ofNat n :: seen)
      | none, some width =>
        if rest.length < width then none
        else (codePoint? (rest.take width)).bind fun d =>
          doubleQuoted fuel (rest.drop width) (d :: seen)
      | none, none => none
    | '\n' :: rest =>
      let (count, rest) := breaksAhead fuel rest 1
      doubleQuoted fuel rest ((foldBreaks count).reverse ++ trimSeen seen)
    | c :: rest => doubleQuoted fuel rest (c :: seen)

def singleQuoted : Nat → List Char → List Char → Option (String × List Char)
  | 0, _, _ => none
  | fuel + 1, cs, seen =>
    match cs with
    | [] => none
    | '\'' :: '\'' :: rest => singleQuoted fuel rest ('\'' :: seen)
    | '\'' :: rest => some (String.ofList seen.reverse, rest)
    | '\n' :: rest =>
      let (count, rest) := breaksAhead fuel rest 1
      singleQuoted fuel rest ((foldBreaks count).reverse ++ trimSeen seen)
    | c :: rest => singleQuoted fuel rest (c :: seen)

def columnAfter (column : Nat) (passed : List Char) : Nat :=
  passed.foldl (fun n c => if isBreak c then 0 else n + 1) column

def readQuoted : Reading (String × Bool) := do
  let p ← get
  let fuel := p.rest.length + 1
  let result := match p.rest with
    | '"' :: rest => doubleQuoted fuel rest []
    | '\'' :: rest => singleQuoted fuel rest []
    | _ => none
  match result with
  | none => Reading.refuse
  | some (text, rest) =>
    let passed := p.rest.take (p.rest.length - rest.length)
    set { p with rest, column := columnAfter p.column passed }
    return (text, !passed.any isBreak)

def plainLine (inFlow : Bool) : Nat → List Char → List Char → List Char × List Char
  | 0, cs, seen => (seen, cs)
  | fuel + 1, cs, seen =>
    match cs with
    | [] => (seen, [])
    | ':' :: rest =>
      let ends := gapAhead rest || (inFlow && (match rest with
        | c :: _ => isFlowMark c
        | [] => true))
      if ends then (seen, cs) else plainLine inFlow fuel rest (':' :: seen)
    | '#' :: rest =>
      match seen with
      | c :: _ => if isSpace c then (seen, cs) else plainLine inFlow fuel rest ('#' :: seen)
      | [] => (seen, cs)
    | c :: rest =>
      if isBreak c || (inFlow && isFlowMark c) then (seen, cs)
      else plainLine inFlow fuel rest (c :: seen)

def startsPlain (inFlow : Bool) : List Char → Bool
  | [] => false
  | c :: rest =>
    if c == '-' || c == '?' || c == ':' then
      !gapAhead rest && !(inFlow && (match rest with
        | d :: _ => isFlowMark d
        | [] => true))
    else !(",[]\x7b\x7d#&*!|>'\"%@".toList.contains c || c == Char.ofNat 96 || gapAhead (c :: rest))

def readPlainLine (inFlow : Bool) : Reading String := do
  let p ← get
  let (seen, rest) := plainLine inFlow (p.rest.length + 1) p.rest []
  set { p with rest, column := p.column + seen.length }
  return String.ofList (trimSeen seen).reverse

def readPlainMore (inFlow : Bool) (parent : Int) : Nat → String → Reading String
  | 0, text => return text
  | fuel + 1, text => do
    let p ← get
    match p.rest with
    | '\n' :: rest =>
      let (count, after) := breaksAhead (rest.length + 1) rest 1
      let passed := p.rest.take (p.rest.length - after.length)
      let next := { p with rest := after, column := columnAfter p.column passed }
      let goesOn := parent < (next.column : Int) && !Reading.markerAhead next &&
        (match after with
          | [] => false
          | c :: _ =>
            c != '#' && !(inFlow && isFlowMark c) && !(c == ':' && gapAhead (after.drop 1)))
      if goesOn then
        set next
        let line ← readPlainLine inFlow
        readPlainMore inFlow parent fuel (text ++ String.ofList (foldBreaks count) ++ line)
      else return text
    | _ => return text

/-! Block texts -/

inductive Chomp where
  | clip
  | strip
  | keep
  deriving DecidableEq, Repr

def readHeader : Nat → List Char → Option Nat → Chomp → Option (Option Nat × Chomp × List Char)
  | 0, cs, width, chomp => some (width, chomp, cs)
  | fuel + 1, cs, width, chomp =>
    match cs with
    | '+' :: rest => readHeader fuel rest width .keep
    | '-' :: rest => readHeader fuel rest width .strip
    | c :: rest =>
      if '1' ≤ c && c ≤ '9' then readHeader fuel rest (some (c.toNat - 48)) chomp
      else
        match (c :: rest).dropWhile isSpace with
        | '\n' :: more => some (width, chomp, more)
        | [] => some (width, chomp, [])
        | '#' :: more =>
          if isSpace c then some (width, chomp, (more.dropWhile (! isBreak ·)).drop 1) else none
        | _ => none
    | [] => some (width, chomp, [])

def splitLine (cs : List Char) : List Char × List Char :=
  (cs.takeWhile (! isBreak ·), (cs.dropWhile (! isBreak ·)).drop 1)

def isBlankLine (line : List Char) : Bool := line.all (· == ' ')

def firstIndent : Nat → List Char → Nat
  | 0, _ => 0
  | fuel + 1, cs =>
    match cs with
    | [] => 0
    | _ =>
      let (line, rest) := splitLine cs
      if isBlankLine line then firstIndent fuel rest else (line.takeWhile (· == ' ')).length

def blockLines (indent : Nat) : Nat → List Char → List (List Char) × List Char
  | 0, cs => ([], cs)
  | fuel + 1, cs =>
    match cs with
    | [] => ([], [])
    | _ =>
      let (line, rest) := splitLine cs
      if isBlankLine line && line.length < indent then
        let (lines, after) := blockLines indent fuel rest
        ([] :: lines, after)
      else if indent ≤ (line.takeWhile (· == ' ')).length then
        let (lines, after) := blockLines indent fuel rest
        (line.drop indent :: lines, after)
      else ([], cs)

def foldLines : List (List Char) → List Char
  | [] => []
  | [line] => line
  | line :: next :: rest =>
    let more := foldLines (next :: rest)
    let indented (l : List Char) : Bool := match l with
      | c :: _ => isSpace c
      | [] => false
    if line.isEmpty then '\n' :: more
    else if next.isEmpty then
      (match rest.dropWhile (·.isEmpty) with
        | l :: _ => if indented l || indented line then line ++ '\n' :: more else line ++ more
        | [] => line ++ more)
    else if indented line || indented next then line ++ '\n' :: more
    else line ++ ' ' :: more

def blockText (folded : Bool) (chomp : Chomp) (lines : List (List Char)) : String :=
  let backwards := lines.reverse
  let content := (backwards.dropWhile (·.isEmpty)).reverse
  let trailing := lines.length - content.length
  let body := if folded then foldLines content else (['\n'] : List Char).intercalate content
  let ending := match chomp with
    | .strip => []
    | .clip => if content.isEmpty then [] else ['\n']
    | .keep => List.replicate (if content.isEmpty then trailing else trailing + 1) '\n'
  String.ofList (body ++ ending)

def readBlockText (parent : Int) : Reading String := do
  let p ← get
  match p.rest with
  | [] => Reading.refuse
  | mark :: rest =>
    match readHeader (rest.length + 1) rest none .clip with
    | none => Reading.refuse
    | some (width, chomp, rest) =>
      let least := (parent + 1).toNat
      let indent := match width with
        | some n => (max parent 0).toNat + n
        | none => max least (firstIndent (rest.length + 1) rest)
      let (lines, after) := blockLines indent (rest.length + 1) rest
      set { p with rest := after, column := 0 }
      return blockText (mark == '>') chomp lines

end ServiceDirectory.Yaml
