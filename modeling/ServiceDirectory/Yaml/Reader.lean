import ServiceDirectory.Yaml.Text

/-! Reading YAML. Nesting follows the columns in which lines start. -/
namespace ServiceDirectory.Yaml
open Reading

structure Properties where
  tag : Option String
  anchor : Option String

def nameChars (cs : List Char) : List Char :=
  cs.takeWhile fun c => !(isSpace c || isBreak c || isFlowMark c)

def tagName (cs : List Char) : String :=
  match cs with
  | '!' :: '!' :: rest => "!" ++ String.ofList rest
  | _ => String.ofList cs

def readProperties : Nat → Properties → Reading Properties
  | 0, p => return p
  | fuel + 1, p => do
    match ← rest with
    | '&' :: more =>
      let name := nameChars more
      skip (name.length + 1)
      skipSpaces
      readProperties fuel { p with anchor := some (String.ofList name) }
    | '!' :: more =>
      let name := '!' :: nameChars more
      skip name.length
      skipSpaces
      readProperties fuel { p with tag := some (tagName name) }
    | _ => return p

def wordNode (p : Properties) (word : String) : Node :=
  match p.tag.map String.toList with
  | some ('!' :: c :: core) => .scalar (tagged (String.ofList (c :: core)) word)
  | some _ => .scalar (.text word)
  | none => .scalar (plain word)

def named (p : Properties) (node : Node) : Reading Node := do
  match p.anchor with
  | some name => bind_ name node
  | none => pure ()
  return node

def readAlias : Reading Node := do
  let name := nameChars ((← rest).drop 1)
  skip (name.length + 1)
  match (← get).anchors.find? (·.1 == String.ofList name) with
  | some (_, node) => return node
  | none => refuse

def colonAhead : List Char → Bool
  | ':' :: rest => gapAhead rest
  | _ => false

def flowColonAhead (quoted : Bool) : List Char → Bool
  | ':' :: rest => quoted || gapAhead rest || (match rest with
    | c :: _ => isFlowMark c
    | [] => true)
  | _ => false

def keyOf : Node → Reading Scalar
  | .scalar value => return value
  | _ => refuse

def hasKey (entries : List (Scalar × Node)) (key : Scalar) : Bool := entries.any (·.1 == key)

mutual

def readFlow : Nat → Reading (Node × Bool)
  | 0 => refuse
  | fuel + 1 => do
    skipEmpty
    let p ← readProperties fuel ⟨none, none⟩
    skipEmpty
    match ← rest with
    | [] => refuse
    | '[' :: _ => do
      skip 1
      let node ← readFlowItems fuel []
      return (← named p node, true)
    | '\x7b' :: _ => do
      skip 1
      let node ← readFlowEntries fuel []
      return (← named p node, true)
    | '*' :: _ => return (← readAlias, false)
    | c :: more =>
      if c == '"' || c == '\'' then
        let (text, _) ← readQuoted
        return (← named p (.scalar (.text text)), true)
      else if c == ',' || c == ']' || c == '\x7d' || flowColonAhead false (c :: more) then
        return (← named p (wordNode p ""), false)
      else if startsPlain true (c :: more) then
        let line ← readPlainLine true
        let word ← readPlainMore true (-1) fuel line
        return (← named p (wordNode p word), false)
      else refuse

def readFlowItems : Nat → List Node → Reading Node
  | 0, _ => refuse
  | fuel + 1, seen => do
    skipEmpty
    match ← rest with
    | ']' :: _ => do
      skip 1
      return .sequence seen.reverse
    | ',' :: _ => refuse
    | _ => do
      let (node, quoted) ← readFlow fuel
      skipEmpty
      let item ← if flowColonAhead quoted (← rest) then do
          skip 1
          let key ← keyOf node
          let (value, _) ← readFlow fuel
          pure (Node.mapping [(key, value)])
        else pure node
      skipEmpty
      match ← rest with
      | ',' :: _ => do
        skip 1
        readFlowItems fuel (item :: seen)
      | ']' :: _ => do
        skip 1
        return .sequence (item :: seen).reverse
      | _ => refuse

def readFlowEntries : Nat → List (Scalar × Node) → Reading Node
  | 0, _ => refuse
  | fuel + 1, seen => do
    skipEmpty
    match ← rest with
    | '\x7d' :: _ => do
      skip 1
      return .mapping seen.reverse
    | ',' :: _ => refuse
    | _ => do
      let (node, quoted) ← readFlow fuel
      let key ← keyOf node
      if hasKey seen key then refuse
      skipEmpty
      let value ← if flowColonAhead quoted (← rest) then do
          skip 1
          let (value, _) ← readFlow fuel
          pure value
        else pure (Node.scalar .null)
      skipEmpty
      match ← rest with
      | ',' :: _ => do
        skip 1
        readFlowEntries fuel ((key, value) :: seen)
      | '\x7d' :: _ => do
        skip 1
        return .mapping ((key, value) :: seen).reverse
      | _ => refuse

end

def atLineEnd (node : Node) : Reading Node := do
  if ← lineOver then return node else refuse

def dashAhead : List Char → Bool
  | '-' :: rest => gapAhead rest
  | _ => false

mutual

/-- A node at its first character, inside what starts at column `parent`. `inline` says that it
stands behind a key on the same line, where no mapping can begin. -/
def readBlock : Nat → Int → Bool → Reading Node
  | 0, _, _ => refuse
  | fuel + 1, parent, inline => do
    let start ← column
    let p ← readProperties fuel ⟨none, none⟩
    if (p.tag.isSome || p.anchor.isSome) && (← lineOver) then
      skipEmpty
      let here ← column
      let atEnd := (← rest).isEmpty || markerAhead (← get)
      if atEnd || (here : Int) ≤ parent then named p (wordNode p "")
      else named p (← readContent fuel parent false { p with anchor := none } here)
    else named p (← readContent fuel parent inline p start)

def readContent : Nat → Int → Bool → Properties → Nat → Reading Node
  | 0, _, _, _, _ => refuse
  | fuel + 1, parent, inline, p, start => do
    let cs ← rest
    if dashAhead cs then
      if inline then refuse else readItems fuel start []
    else match cs with
      | '|' :: _ => return .scalar (.text (← readBlockText parent))
      | '>' :: _ => return .scalar (.text (← readBlockText parent))
      | '[' :: _ => do atLineEnd (← readFlow fuel).1
      | '\x7b' :: _ => do atLineEnd (← readFlow fuel).1
      | '*' :: _ => do atLineEnd (← readAlias)
      | c :: _ =>
        if c == '"' || c == '\'' then
          let (text, oneLine) ← readQuoted
          let after ← get
          skipSpaces
          if oneLine && colonAhead (← rest) then
            if inline then refuse else readEntries fuel start (.text text) []
          else
            set after
            atLineEnd (.scalar (.text text))
        else if startsPlain false cs then
          let line ← readPlainLine false
          if colonAhead (← rest) then
            if inline then refuse
            else
              let key ← keyOf (wordNode p line)
              readEntries fuel start key []
          else
            let word ← readPlainMore false parent fuel line
            atLineEnd (wordNode p word)
        else refuse
      | [] => refuse

def readItems : Nat → Nat → List Node → Reading Node
  | 0, _, _ => refuse
  | fuel + 1, dash, seen => do
    skip 1
    let item ← if ← lineOver then do
        skipEmpty
        let here ← column
        let atEnd := (← rest).isEmpty || markerAhead (← get)
        if !atEnd && dash < here then readBlock fuel dash false else pure (Node.scalar .null)
      else readBlock fuel dash false
    skipEmpty
    let here ← column
    let cs ← rest
    if cs.isEmpty || markerAhead (← get) || here < dash then return .sequence (item :: seen).reverse
    else if here == dash then
      if dashAhead cs then readItems fuel dash (item :: seen)
      else return .sequence (item :: seen).reverse
    else refuse

def readEntries : Nat → Nat → Scalar → List (Scalar × Node) → Reading Node
  | 0, _, _, _ => refuse
  | fuel + 1, edge, key, seen => do
    if hasKey seen key then refuse
    skip 1
    let value ← if ← lineOver then do
        skipEmpty
        let here ← column
        let cs ← rest
        let atEnd := cs.isEmpty || markerAhead (← get)
        if !atEnd && (edge < here || (edge == here && dashAhead cs)) then
          readBlock fuel (if edge < here then (edge : Int) else (edge : Int) - 1) false
        else pure (Node.scalar .null)
      else readBlock fuel edge true
    let seen := (key, value) :: seen
    skipEmpty
    let here ← column
    let cs ← rest
    if cs.isEmpty || markerAhead (← get) || here < edge then return .mapping seen.reverse
    else if here == edge then
      let key ← readKey
      readEntries fuel edge key seen
    else refuse

def readKey : Reading Scalar := do
  let cs ← rest
  match cs with
  | [] => refuse
  | c :: _ =>
    let key ← if c == '"' || c == '\'' then do
        let (text, oneLine) ← readQuoted
        skipSpaces
        if oneLine then pure (Scalar.text text) else refuse
      else if startsPlain false cs then do
        let line ← readPlainLine false
        pure (plain line)
      else refuse
    if colonAhead (← rest) then return key else refuse

end

def skipDirectives : Nat → Reading Unit
  | 0 => pure ()
  | fuel + 1 => do
    skipEmpty
    match ← rest with
    | '%' :: _ => do
      modify fun p => { p with rest := p.rest.dropWhile (! isBreak ·) }
      skipDirectives fuel
    | _ => pure ()

def readDocument (fuel : Nat) : Reading (Option Node) := do
  skipDirectives fuel
  let started := "---".toList.isPrefixOf (← rest) && markerAhead (← get)
  if started then skip 3
  skipEmpty
  let node ← if (← rest).isEmpty || markerAhead (← get) then
      pure (if started then some (Node.scalar .null) else none)
    else do pure (some (← readBlock fuel (-1) false))
  skipEmpty
  if "...".toList.isPrefixOf (← rest) && markerAhead (← get) then
    skip 3
    skipEmpty
  if (← rest).isEmpty then return node else refuse

def read? (text : String) : Option (Option Node) :=
  let cs := unifyBreaks text.toList
  (readDocument (4 * cs.length + 8) ⟨cs, 0, []⟩).map (·.1)

end ServiceDirectory.Yaml
