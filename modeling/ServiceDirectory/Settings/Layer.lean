import ServiceDirectory.Number.Literal
import ServiceDirectory.Settings.Source

/-! Laying one source over another. A key may be a path into tables and arrays. -/
namespace ServiceDirectory.Settings

inductive Step where
  | key (name : String)
  | index (place : Int)
  deriving DecidableEq, Repr

def isKeyChar (c : Char) : Bool :=
  ('a' ≤ c && c ≤ 'z') || ('A' ≤ c && c ≤ 'Z') || Number.isDigit c || c == '_' || c == '-'

def readSteps : Nat → List Char → Option (List Step)
  | _, [] => some []
  | 0, _ => none
  | fuel + 1, '.' :: rest =>
    let name := rest.takeWhile isKeyChar
    if name.isEmpty then none
    else (readSteps fuel (rest.dropWhile isKeyChar)).map (.key (String.ofList name) :: ·)
  | fuel + 1, '[' :: rest =>
    match Number.readSigned64? (rest.takeWhile (· != ']')), rest.dropWhile (· != ']') with
    | some place, _ :: more => (readSteps fuel more).map (.index place :: ·)
    | _, _ => none
  | _, _ => none

def pathOf (key : String) : List Step :=
  let cs := key.toList
  let name := cs.takeWhile isKeyChar
  let path := if name.isEmpty then none
    else (readSteps cs.length (cs.dropWhile isKeyChar)).map (.key (String.ofList name) :: ·)
  path.getD [.key key]

namespace Source

def entries : Source → List (String × Source)
  | .table _ entries => entries
  | _ => []

def items : Source → List Source
  | .array _ items => items
  | _ => []

def changeItem (change : Source → Source) (place : Int) (items : List Source) : List Source :=
  let index := if place < 0 then (items.length : Int) + place else place
  if index < 0 then
    change nothing :: (List.replicate (index.natAbs - 1) nothing ++ items)
  else
    let filled := items ++ List.replicate (index.toNat + 1 - items.length) nothing
    filled.modify index.toNat change

def changeAt (change : Source → Source) : List Step → Source → Source
  | [], s => change s
  | .key name :: rest, s =>
    let inner := ((Table.get? s.entries name).getD nothing)
    let outer := match s with
      | .table origin _ => origin
      | _ => none
    .table outer (Table.put s.entries name (changeAt change rest inner))
  | .index place :: rest, s =>
    let outer := match s with
      | .array origin _ => origin
      | _ => none
    .array outer (changeItem (changeAt change rest) place s.items)

mutual

def overlay (below : Source) : Source → Source
  | .table _ entries =>
    let base := match below with
      | .table origin existing => .table origin existing
      | _ => emptyTable
    overlayEntries base entries
  | other => other

def overlayEntries (below : Source) : List (String × Source) → Source
  | [] => below
  | (key, s) :: rest =>
    let inner := (Table.get? below.entries key).getD nothing
    let merged := overlay inner s
    overlayEntries (.table below.origin (Table.put below.entries key merged)) rest

end

def set (s : Source) (key : String) (value : Source) : Source :=
  changeAt (fun below => overlay below value) (pathOf key) s

def layer (s : Source) (entries : List (String × Source)) : Source :=
  entries.foldl (fun s (key, value) => s.set key value) s

end Source
end ServiceDirectory.Settings
