import ServiceDirectory.Yaml.Scalar

/-! YAML documents as trees, and the state of reading one. -/
namespace ServiceDirectory.Yaml

inductive Node where
  | scalar (value : Scalar)
  | sequence (items : List Node)
  | mapping (entries : List (Scalar × Node))
  deriving Repr, Inhabited

structure Place where
  rest : List Char
  column : Nat
  anchors : List (String × Node)

abbrev Reading := StateT Place Option

def isSpace (c : Char) : Bool := c == ' ' || c == '\t'

def isBreak (c : Char) : Bool := c == '\n'

def gapAhead : List Char → Bool
  | [] => true
  | c :: _ => isSpace c || isBreak c

def isFlowMark (c : Char) : Bool := ",[]\x7b\x7d".toList.contains c

def unifyBreaks : List Char → List Char
  | '\r' :: '\n' :: rest => '\n' :: unifyBreaks rest
  | '\r' :: rest => '\n' :: unifyBreaks rest
  | c :: rest => c :: unifyBreaks rest
  | [] => []

namespace Reading

def refuse : Reading α := fun _ => none

def rest : Reading (List Char) := do return (← get).rest

def column : Reading Nat := do return (← get).column

def skip (n : Nat) : Reading Unit :=
  modify fun p => { p with rest := p.rest.drop n, column := p.column + n }

def skipSpaces : Reading Unit := do
  skip ((← rest).takeWhile isSpace).length

def emptyFrom : Nat → List Char → Nat → List Char × Nat
  | 0, cs, column => (cs, column)
  | fuel + 1, cs, column =>
    match cs with
    | '\n' :: rest => emptyFrom fuel rest 0
    | '#' :: rest => emptyFrom fuel (rest.dropWhile (! isBreak ·)) column
    | c :: rest => if isSpace c then emptyFrom fuel rest (column + 1) else (cs, column)
    | [] => ([], column)

def skipEmpty : Reading Unit :=
  modify fun p =>
    let (rest, column) := emptyFrom (p.rest.length + 1) p.rest p.column
    { p with rest, column }

def lineOver : Reading Bool := do
  skipSpaces
  match ← rest with
  | [] => return true
  | c :: _ => return isBreak c || c == '#'

def markerAhead (p : Place) : Bool :=
  p.column == 0 && (["---".toList, "...".toList].any fun m =>
    m.isPrefixOf p.rest && gapAhead (p.rest.drop 3))

def bind_ (name : String) (node : Node) : Reading Unit :=
  modify fun p => { p with anchors := (name, node) :: p.anchors }

end Reading
end ServiceDirectory.Yaml
