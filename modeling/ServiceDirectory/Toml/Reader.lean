import ServiceDirectory.Toml.Scalar

/-! Reading TOML. -/
namespace ServiceDirectory.Toml

def skipComment (cs : List Char) : Option (List Char) :=
  match cs with
  | '#' :: rest =>
    if (rest.takeWhile (· != '\n')).any isControl then none else some (rest.dropWhile (· != '\n'))
  | _ => some cs

def skipLines : Nat → List Char → Option (List Char)
  | 0, cs => some cs
  | fuel + 1, cs =>
    match skipSpaces cs with
    | '\n' :: rest => skipLines fuel rest
    | '#' :: rest => (skipComment ('#' :: rest)).bind (skipLines fuel)
    | rest => some rest

mutual

def readValue : Nat → List Char → Option (Tree × List Char)
  | 0, _ => none
  | fuel + 1, cs =>
    match cs with
    | '[' :: rest => readItems fuel rest []
    | '\x7b' :: rest =>
      match skipSpaces rest with
      | '\x7d' :: rest => some (.table .inline [], rest)
      | rest => readPairs fuel rest (.table .header [])
    | '"' :: _ => (readText cs).map fun (s, rest) => (.text s, rest)
    | '\'' :: _ => (readText cs).map fun (s, rest) => (.text s, rest)
    | _ => readWord cs

def readItems : Nat → List Char → List Tree → Option (Tree × List Char)
  | 0, _, _ => none
  | fuel + 1, cs, seen =>
    match skipLines fuel cs with
    | none => none
    | some (']' :: rest) => some (.array seen.reverse, rest)
    | some cs =>
      match readValue fuel cs with
      | none => none
      | some (item, rest) =>
        match skipLines fuel rest with
        | some (',' :: rest) => readItems fuel rest (item :: seen)
        | some (']' :: rest) => some (.array (item :: seen).reverse, rest)
        | _ => none

def readPairs : Nat → List Char → Tree → Option (Tree × List Char)
  | 0, _, _ => none
  | fuel + 1, cs, table =>
    match readPair fuel cs with
    | none => none
    | some ((keys, value), rest) =>
      match Tree.assign value keys.dropLast (keys.getLastD "") table with
      | none => none
      | some table =>
        match skipSpaces rest with
        | ',' :: rest => readPairs fuel rest table
        | '\x7d' :: rest => some (.table .inline table.entries, rest)
        | _ => none

def readPair : Nat → List Char → Option ((List String × Tree) × List Char)
  | 0, _ => none
  | fuel + 1, cs =>
    match readKey (cs.length + 1) cs with
    | some (keys, '=' :: rest) =>
      (readValue fuel (skipSpaces rest)).map fun (value, rest) => ((keys, value), rest)
    | _ => none

end

def readHeader (cs : List Char) : Option ((Bool × List String) × List Char) :=
  match cs with
  | '[' :: '[' :: rest =>
    match readKey (rest.length + 1) rest with
    | some (keys, ']' :: ']' :: rest) => some ((true, keys), rest)
    | _ => none
  | '[' :: rest =>
    match readKey (rest.length + 1) rest with
    | some (keys, ']' :: rest) => some ((false, keys), rest)
    | _ => none
  | _ => none

def endLine (cs : List Char) : Option (List Char) :=
  match skipComment (skipSpaces cs) with
  | some ('\n' :: rest) => some rest
  | some [] => some []
  | _ => none

def readLines (fuel : Nat) : Nat → List Char → List String → Tree → Option Tree
  | 0, _, _, _ => none
  | lines + 1, cs, path, root =>
    match skipSpaces cs with
    | [] => some root
    | '\n' :: rest => readLines fuel lines rest path root
    | '#' :: rest =>
      match endLine ('#' :: rest) with
      | some rest => readLines fuel lines rest path root
      | none => none
    | '[' :: rest =>
      match readHeader ('[' :: rest) with
      | none => none
      | some ((many, keys), rest) =>
        let name := keys.getLastD ""
        let opened := if many then Tree.appendTable keys.dropLast name root
          else Tree.openTable keys.dropLast name root
        match opened, endLine rest with
        | some root, some rest => readLines fuel lines rest keys root
        | _, _ => none
    | rest =>
      match readPair fuel rest with
      | none => none
      | some ((keys, value), rest) =>
        match Tree.assignAt path keys.dropLast (keys.getLastD "") value root, endLine rest with
        | some root, some rest => readLines fuel lines rest path root
        | _, _ => none

def unifyBreaks : List Char → List Char
  | '\r' :: '\n' :: rest => '\n' :: unifyBreaks rest
  | c :: rest => c :: unifyBreaks rest
  | [] => []

def read? (text : String) : Option Tree :=
  let cs := unifyBreaks text.toList
  readLines (2 * cs.length + 4) (cs.length + 2) cs [] (.table .header [])

end ServiceDirectory.Toml
