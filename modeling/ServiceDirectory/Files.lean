import ServiceDirectory.Table

/-! The files that a run can read, and the places where it could write one. -/
namespace ServiceDirectory

inductive PathKind where
  | missing
  | file
  | directory
  deriving DecidableEq, Repr

structure FilePath where
  absolute : Bool
  steps : List String
  deriving DecidableEq, Repr

structure Files where
  texts : Table String
  directories : List (List String)
  deriving DecidableEq, Repr

namespace FilePath

def splitSlashes (cs : List Char) : List (List Char) :=
  cs.foldr (fun c parts => match parts with
    | [] => [[c]]
    | p :: rest => if c == '/' then [] :: p :: rest else (c :: p) :: rest) [[]]

def parse (path : String) : FilePath :=
  let parts := (splitSlashes path.toList).map String.ofList
  ⟨path.toList.head? == some '/', parts.filter fun p => !(p == "" || p == ".")⟩

def parent (p : FilePath) : FilePath := { p with steps := p.steps.dropLast }

end FilePath

namespace Files

def paths (f : Files) : List FilePath := f.texts.keys.map FilePath.parse

def holdsFile (f : Files) (p : FilePath) : Bool :=
  f.paths.any fun q => q.absolute == p.absolute && p.steps.isPrefixOf q.steps

def kind (f : Files) (p : FilePath) : PathKind :=
  if p.steps.isEmpty then .directory
  else if f.paths.contains p then .file
  else if f.holdsFile p || (p.absolute && f.directories.contains p.steps) then .directory
  else .missing

def endsInSlash (path : String) : Bool := path.toList.getLast? == some '/'

def present (f : Files) (path : String) : Bool :=
  match f.kind (.parse path) with
  | .missing => false
  | .file => !endsInSlash path
  | .directory => path != ""

def read? (f : Files) (path : String) : Option String :=
  (f.texts.find? fun (q, _) => FilePath.parse q == FilePath.parse path).map (·.2)

def appendTrouble? (f : Files) (path : String) : Option String :=
  let p := FilePath.parse path
  if path.toList.contains (Char.ofNat 0) then some "file name contained an unexpected NUL byte"
  else if path == "" then some "No such file or directory (os error 2)"
  else match f.kind p with
    | .directory => some "Is a directory (os error 21)"
    | .file => if endsInSlash path then some "Not a directory (os error 20)" else none
    | .missing =>
      match f.kind p.parent with
      | .missing => some "No such file or directory (os error 2)"
      | .file => some "Not a directory (os error 20)"
      | .directory => if endsInSlash path then some "Is a directory (os error 21)" else none

end Files
end ServiceDirectory
