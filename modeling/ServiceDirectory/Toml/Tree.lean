import ServiceDirectory.Number.Literal
import ServiceDirectory.Table

/-! TOML documents as trees, and the rules on defining things once. -/
namespace ServiceDirectory.Toml
open Number (Binary64)

inductive Making where
  | implied
  | header
  | dotted
  | inline
  deriving DecidableEq, Repr

inductive Tree where
  | flag (b : Bool)
  | integer (n : Int)
  | floating (x : Binary64)
  | text (s : String)
  | array (items : List Tree)
  | tables (items : List Tree)
  | table (making : Making) (entries : List (String × Tree))
  deriving Repr, Inhabited

namespace Tree

def entries : Tree → List (String × Tree)
  | .table _ entries => entries
  | _ => []

def descend (change : Tree → Option Tree) : List String → Tree → Option Tree
  | [], t => change t
  | _ :: _, .tables [] => none
  | key :: rest, .table making entries =>
    if making == .inline then none
    else
      let inner := (Table.get? entries key).getD (.table .implied [])
      match inner with
      | .tables (last :: earlier) => do
        let last ← descend change rest last
        return .table making (Table.put entries key (.tables (last :: earlier)))
      | .table _ _ => do
        let inner ← descend change rest inner
        return .table making (Table.put entries key inner)
      | _ => none
  | _, _ => none

def openTable (path : List String) (name : String) : Tree → Option Tree :=
  descend (fun t => match t with
    | .table making entries =>
      if making == .inline then none
      else match Table.get? entries name with
        | none => some (.table making (Table.put entries name (.table .header [])))
        | some (.table .implied inner) =>
          some (.table making (Table.put entries name (.table .header inner)))
        | some _ => none
    | _ => none) path

def appendTable (path : List String) (name : String) : Tree → Option Tree :=
  descend (fun t => match t with
    | .table making entries =>
      if making == .inline then none
      else match Table.get? entries name with
        | none => some (.table making (Table.put entries name (.tables [.table .header []])))
        | some (.tables items) =>
          some (.table making (Table.put entries name (.tables (.table .header [] :: items))))
        | some _ => none
    | _ => none) path

def assign (value : Tree) : List String → String → Tree → Option Tree
  | [], name, .table making entries =>
    if (Table.get? entries name).isSome then none
    else some (.table making (entries ++ [(name, value)]))
  | key :: rest, name, .table making entries =>
    match (Table.get? entries key).getD (.table .dotted []) with
    | .table .dotted inner => do
      let inner ← assign value rest name (.table .dotted inner)
      return .table making (Table.put entries key inner)
    | .table .implied inner => do
      let inner ← assign value rest name (.table .implied inner)
      return .table making (Table.put entries key inner)
    | _ => none
  | _, _, _ => none

def assignAt (path : List String) (keys : List String) (name : String) (value : Tree) :
    Tree → Option Tree :=
  descend (assign value keys name) path

end Tree
end ServiceDirectory.Toml
