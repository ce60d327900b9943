import ServiceDirectory.Json.Reader
import ServiceDirectory.Settings.Source
import ServiceDirectory.Toml.Reader
import ServiceDirectory.Yaml.Reader

/-! The formats of settings files. -/
namespace ServiceDirectory.Settings

inductive FileFormat where
  | json
  | yaml
  | toml
  deriving DecidableEq, Repr

namespace FileFormat

def ofExtension? (extension : String) : Option FileFormat :=
  if extension == "json" then some .json
  else if extension == "yaml" || extension == "yml" then some .yaml
  else if extension == "toml" then some .toml
  else none

def extension (path : String) : String :=
  let name := (path.toList.reverse.takeWhile (· != '/')).reverse
  let backwards := name.reverse
  match backwards.dropWhile (· != '.') with
  | [] => ""
  | [_] => ""
  | _ => String.ofList (backwards.takeWhile (· != '.')).reverse

end FileFormat

section
variable (origin : String)

mutual

def ofJsonValue : Json.Value → Source
  | .null => .scalar (some origin) .nil
  | .bool b => .scalar (some origin) (.flag b)
  | .integer n =>
    .scalar (some origin)
      (if Number.fitsSigned64 n then .integer n else .floating (.ofNatural false n.toNat))
  | .floating x => .scalar (some origin) (.floating x)
  | .string s => .scalar (some origin) (.text s)
  | .array items => .array (some origin) (ofJsonItems items)
  | .object fields => .table (some origin) (Table.ofEntries (ofJsonFields fields))

def ofJsonItems : List Json.Value → List Source
  | [] => []
  | v :: rest => ofJsonValue v :: ofJsonItems rest

def ofJsonFields : List (String × Json.Value) → List (String × Source)
  | [] => []
  | (k, v) :: rest => (k, ofJsonValue v) :: ofJsonFields rest

end

def ofYamlScalar : Yaml.Scalar → Option Scalar
  | .null => some .nil
  | .flag b => some (.flag b)
  | .integer n => some (.integer n)
  | .real word => (Number.readDecimal? word.toList).map .floating
  | .text s => some (.text s)

def yamlKey : Yaml.Scalar → Option String
  | .null => none
  | .flag b => some (toString b)
  | .integer n => some (toString n)
  | .real word => some word
  | .text s => some s

mutual

def ofYamlNode : Yaml.Node → Option Source
  | .scalar value => (ofYamlScalar value).map (.scalar (some origin))
  | .sequence items => (ofYamlItems items).map (.array (some origin))
  | .mapping entries =>
    (ofYamlEntries entries).map fun e => .table (some origin) (Table.ofEntries e)

def ofYamlItems : List Yaml.Node → Option (List Source)
  | [] => some []
  | n :: rest => do return (← ofYamlNode n) :: (← ofYamlItems rest)

def ofYamlEntries : List (Yaml.Scalar × Yaml.Node) → Option (List (String × Source))
  | [] => some []
  | (k, n) :: rest => do return (← yamlKey k, ← ofYamlNode n) :: (← ofYamlEntries rest)

end

mutual

def ofTomlTree : Toml.Tree → Source
  | .flag b => .scalar (some origin) (.flag b)
  | .integer n => .scalar (some origin) (.integer n)
  | .floating x => .scalar (some origin) (.floating x)
  | .text s => .scalar (some origin) (.text s)
  | .array items => .array (some origin) (ofTomlItems items)
  | .tables items => .array (some origin) (ofTomlItems items).reverse
  | .table _ entries => .table (some origin) (ofTomlEntries entries)

def ofTomlItems : List Toml.Tree → List Source
  | [] => []
  | t :: rest => ofTomlTree t :: ofTomlItems rest

def ofTomlEntries : List (String × Toml.Tree) → List (String × Source)
  | [] => []
  | (k, t) :: rest => (k, ofTomlTree t) :: ofTomlEntries rest

end

def readEntriesOf (format : FileFormat) (text : String) : Option (List (String × Source)) :=
  let table : Option Source → Option (List (String × Source)) := fun s => match s with
    | some (.table _ entries) => some entries
    | _ => none
  match format with
  | .json =>
    match Json.readValue text with
    | .ok v => table (some (ofJsonValue origin v))
    | .error _ => none
  | .yaml =>
    match Yaml.read? text with
    | some (some node) => table (ofYamlNode origin node)
    | some none => some []
    | none => none
  | .toml => table ((Toml.read? text).map (ofTomlTree origin))

end

def dropMark (text : String) : String :=
  match text.toList with
  | c :: rest => if c.toNat == 0xFEFF then String.ofList rest else text
  | [] => text

def readFile (path text : String) : Except LoadError (List (String × Source)) :=
  match FileFormat.ofExtension? (FileFormat.extension path) with
  | none =>
    .error (.foreign
      ("configuration file " ++ Text.quoted path ++ " is not of a registered file format"))
  | some format =>
    match readEntriesOf path format (dropMark text) with
    | some entries => .ok entries
    | none => .error (.fileParse ("invalid settings in " ++ path))

end ServiceDirectory.Settings
