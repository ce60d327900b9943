import ServiceDirectory.Settings.Layer
import ServiceDirectory.Text.Letters

/-! Settings from environment variables: `MERIDIAN_`, the section, two underscores, the field. -/
namespace ServiceDirectory.Settings

def variableStart : List Char := "meridian_".toList

def dotted : List Char → List Char
  | '_' :: '_' :: rest => '.' :: dotted rest
  | c :: rest => c :: dotted rest
  | [] => []

def variableKey? (name : String) : Option String :=
  let cs := (Text.lower name).toList
  if variableStart.isPrefixOf cs then
    some (String.ofList (dotted (cs.drop variableStart.length)))
  else none

def parsed (text : String) : Scalar :=
  let word := Text.lower text
  if word == "true" then .flag true
  else if word == "false" then .flag false
  else match Number.readSigned64? text.toList, Number.readDecimal? text.toList with
    | some n, _ => .integer n
    | none, some x => .floating x
    | none, none => .text text

def environmentOrigin : String := "the environment"

def environmentEntries (environment : List (String × String)) : List (String × Source) :=
  environment.filterMap fun (name, text) =>
    (variableKey? name).map fun key => (key, .scalar (some environmentOrigin) (parsed text))

end ServiceDirectory.Settings
