import ServiceDirectory.Number.Shortest
import ServiceDirectory.Table
import ServiceDirectory.Text.Quoted

/-! Values as files and environment give them, with where they came from. -/
namespace ServiceDirectory.Settings

inductive Scalar where
  | nil
  | flag (b : Bool)
  | integer (n : Int)
  | floating (x : Number.Binary64)
  | text (s : String)
  deriving DecidableEq, Repr

inductive Source where
  | scalar (origin : Option String) (value : Scalar)
  | table (origin : Option String) (entries : List (String × Source))
  | array (origin : Option String) (items : List Source)
  deriving Repr, Inhabited

namespace Source

def nothing : Source := .scalar none .nil

def emptyTable : Source := .table none []

def origin : Source → Option String
  | .scalar origin _ => origin
  | .table origin _ => origin
  | .array origin _ => origin

def found : Source → String
  | .scalar _ .nil => "unit value"
  | .scalar _ (.flag b) => "boolean `" ++ toString b ++ "`"
  | .scalar _ (.integer n) => "64-bit integer `" ++ toString n ++ "`"
  | .scalar _ (.floating x) => "floating point `" ++ x.positional ++ "`"
  | .scalar _ (.text s) => "string " ++ Text.quoted s
  | .table _ _ => "map"
  | .array _ _ => "sequence"

def shape : Source → String
  | .scalar _ (.integer n) => "integer `" ++ toString n ++ "`"
  | .scalar _ (.floating x) => "floating point `" ++ x.compact ++ "`"
  | s => s.found

end Source

inductive LoadError where
  | type (found expected : String) (key origin : Option String)
  | message (text : String) (key : Option String)
  | notFound (key : String)
  | fileParse (text : String)
  | foreign (text : String)
  deriving DecidableEq, Repr

namespace LoadError

def kind : LoadError → String
  | .type _ _ _ _ => "Type"
  | .message _ _ => "Message"
  | .notFound _ => "NotFound"
  | .fileParse _ => "FileParse"
  | .foreign _ => "Foreign"

def forKey (key : Option String) : String :=
  match key with
  | some key => " for key `" ++ key ++ "`"
  | none => ""

def text : LoadError → String
  | .type found expected key origin =>
    "invalid type: " ++ found ++ ", expected " ++ expected ++ forKey key ++
      (match origin with
        | some origin => " in " ++ origin
        | none => "")
  | .message text key => text ++ forKey key
  | .notFound key => "missing configuration field " ++ Text.quoted key
  | .fileParse text => text
  | .foreign text => text

def joinKey (step rest : String) : String :=
  if rest.toList.head? == some '[' then step ++ rest else step ++ "." ++ rest

def within (step : String) : LoadError → LoadError
  | .type found expected key origin =>
    .type found expected (some ((key.map (joinKey step)).getD step)) origin
  | .message text key => .message text (some ((key.map (joinKey step)).getD step))
  | .notFound key => .notFound (joinKey step key)
  | e => e

end LoadError
end ServiceDirectory.Settings
