import ServiceDirectory.Decode.Dialect
import ServiceDirectory.Number.Literal
import ServiceDirectory.Settings.Source
import ServiceDirectory.Text.Letters

/-! Records from sources. Scalars are turned into one another where that makes sense, so that a
number may be written as a text and the other way round. -/
namespace ServiceDirectory.Settings
open Decode (Dialect Field)

def wrongType (expected : String) (s : Source) : LoadError :=
  .type s.found expected none s.origin

def wrongShape (expected : String) (s : Source) : LoadError :=
  .message ("invalid type: " ++ s.shape ++ ", expected " ++ expected) none

def truthWords : Table Bool :=
  [("true", true), ("on", true), ("yes", true), ("false", false), ("off", false), ("no", false)]

def readTruth? (s : String) : Option Bool :=
  let word := Text.lower s
  if word == "1" then some true else if word == "0" then some false else truthWords.get? word

def unsignedName : String := "an unsigned 64 bit or less integer"

def asNatural? : Scalar → Option Nat
  | .nil => none
  | .flag b => some b.toNat
  | .integer n => if 0 ≤ n then some n.toNat else none
  | .floating x => some (x.toNatural Number.largest64)
  | .text s =>
    match truthWords.get? (Text.lower s) with
    | some b => some b.toNat
    | none => Number.readBounded? Number.largest64 s.toList

def tooWide (n : Nat) (s : Source) : LoadError :=
  .type ("64-bit unsigned integer `" ++ toString n ++ "`") "an unsigned 32 bit integer" none
    s.origin

def readNatural (limit : Nat) (s : Source) : Except LoadError Nat :=
  match s with
  | .scalar _ value =>
    match asNatural? value with
    | some n => if n ≤ limit then .ok n else .error (tooWide n s)
    | none => .error (wrongType unsignedName s)
  | _ => .error (wrongType unsignedName s)

def asFlag? : Scalar → Option Bool
  | .nil => none
  | .flag b => some b
  | .integer n => some (n != 0)
  | .floating x => some (!x.isZero)
  | .text s => readTruth? s

def readFlag (s : Source) : Except LoadError Bool :=
  match s with
  | .scalar _ value =>
    match asFlag? value with
    | some b => .ok b
    | none => .error (wrongType "a boolean" s)
  | _ => .error (wrongType "a boolean" s)

def asText? : Scalar → Option String
  | .nil => none
  | .flag b => some (toString b)
  | .integer n => some (toString n)
  | .floating x => some x.positional
  | .text s => some s

def readText (s : Source) : Except LoadError String :=
  match s with
  | .scalar _ value =>
    match asText? value with
    | some t => .ok t
    | none => .error (wrongType "a string" s)
  | _ => .error (wrongType "a string" s)

def readOptional (read : Source → Except LoadError α) (s : Source) :
    Except LoadError (Option α) :=
  match s with
  | .scalar _ .nil => .ok none
  | s => do return some (← read s)

def itemName (index : Nat) : String := "[" ++ toString index ++ "]"

def readItems (read : Source → Except LoadError α) (index : Nat) :
    List Source → Except LoadError (List α)
  | [] => .ok []
  | s :: rest => do
    let a ← (read s).mapError (.within (itemName index))
    let more ← readItems read (index + 1) rest
    return a :: more

def readList (read : Source → Except LoadError α) (s : Source) : Except LoadError (List α) :=
  match s with
  | .array _ items => readItems read 0 items
  | s => .error (wrongShape "a sequence" s)

def readEntries (read : Source → Except LoadError α) :
    List (String × Source) → Except LoadError (List (String × α))
  | [] => .ok []
  | (key, s) :: rest => do
    let a ← (read s).mapError (.within key)
    let more ← readEntries read rest
    return (key, a) :: more

def readTable (read : Source → Except LoadError α) (s : Source) : Except LoadError (Table α) :=
  match s with
  | .table _ entries => do return Table.ofEntries (← readEntries read entries)
  | s => .error (wrongShape "a map" s)

def readNamed (fields : List (Field Source LoadError ρ)) :
    List (String × Source) → ρ → Except LoadError ρ
  | [], record => .ok record
  | (key, s) :: rest, record =>
    match fields.find? (·.name == key) with
    | some f => do readNamed fields rest (← (f.store s record).mapError (.within key))
    | none => readNamed fields rest record

def readOrdered (kind : String) (total : Nat) :
    List (Field Source LoadError ρ) → List Source → (place : Nat) → ρ → Except LoadError ρ
  | [], _, _, record => .ok record
  | f :: rest, [], place, record =>
    if f.absence == .defaulted then readOrdered kind total rest [] (place + 1) record
    else
      .error (.message ("invalid length " ++ toString place ++ ", expected struct " ++ kind ++
        " with " ++ toString total ++ " elements") none)
  | f :: rest, s :: more, place, record => do
    let record ← (f.store s record).mapError (.within (itemName place))
    readOrdered kind total rest more (place + 1) record

def readRecord (kind : String) (fields : List (Field Source LoadError ρ)) (start : ρ)
    (s : Source) : Except LoadError ρ :=
  match s with
  | .table _ entries => do
    let record ← readNamed fields entries start
    let met := entries.map (·.1)
    match fields.find? fun f => f.absence == .refused && !met.contains f.name with
    | some f => .error (.notFound f.name)
    | none => .ok record
  | .array _ items => readOrdered kind fields.length fields items 0 start
  | s => .error (wrongShape ("struct " ++ kind) s)

def fromSource : Dialect Source LoadError where
  text := readText
  flag := readFlag
  natural := fun limit _ => readNatural limit
  list := readList
  table := readTable
  optional := readOptional
  record := readRecord

end ServiceDirectory.Settings
