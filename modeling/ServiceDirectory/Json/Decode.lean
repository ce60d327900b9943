import ServiceDirectory.Decode.Dialect
import ServiceDirectory.Json.Reader
import ServiceDirectory.Table

/-! Records from JSON drafts. -/
namespace ServiceDirectory.Json
open Decode (Field Dialect Absence)

def misfit (expected : String) : Draft → Except Fault α
  | .broken fault _ => .error fault
  | d => .error (.misfit ("invalid type: " ++ d.describe ++ ", expected " ++ expected))

def readText : Draft → Except Fault String
  | .string s => .ok s
  | d => misfit "a string" d

def readFlag : Draft → Except Fault Bool
  | .bool b => .ok b
  | d => misfit "a boolean" d

def readNatural (limit : Nat) (kind : String) : Draft → Except Fault Nat
  | .integer n =>
    if 0 ≤ n && n ≤ (limit : Int) then .ok n.toNat
    else .error (.misfit ("invalid value: integer `" ++ toString n ++ "`, expected " ++ kind))
  | d => misfit kind d

def readEach (read : Draft → Except Fault α) : List Draft → Except Fault (List α)
  | [] => .ok []
  | d :: rest => do
    let a ← read d
    let more ← readEach read rest
    return a :: more

def readList (read : Draft → Except Fault α) : Draft → Except Fault (List α)
  | .array items stop => do
    let list ← readEach read items
    Draft.finish stop
    return list
  | d => misfit "a sequence" d

def readEntries (read : Draft → Except Fault α) :
    List (Option String × Draft) → Except Fault (List (String × α))
  | [] => .ok []
  | (none, _) :: _ => .error .malformed
  | (some key, d) :: rest => do
    let a ← read d
    let more ← readEntries read rest
    return (key, a) :: more

def readTable (read : Draft → Except Fault α) : Draft → Except Fault (Table α)
  | .object fields stop => do
    let entries ← readEntries read fields
    Draft.finish stop
    return Table.ofEntries entries
  | d => misfit "a map" d

def readOptional (read : Draft → Except Fault α) : Draft → Except Fault (Option α)
  | .null => .ok none
  | d => do return some (← read d)

def readNamed (fields : List (Field Draft Fault ρ)) :
    List (Option String × Draft) → List String → ρ → Except Fault (List String × ρ)
  | [], met, record => .ok (met, record)
  | (none, _) :: _, _, _ => .error .malformed
  | (some key, d) :: rest, met, record =>
    match fields.find? (·.name == key) with
    | some f =>
      if met.contains key then .error (.misfit ("duplicate field `" ++ key ++ "`"))
      else do readNamed fields rest (key :: met) (← f.store d record)
    | none => do
      d.skip
      readNamed fields rest met record

def missing? (fields : List (Field Draft Fault ρ)) (met : List String) : Option String :=
  (fields.find? fun f => f.absence == .refused && !met.contains f.name).map (·.name)

def readOrdered (surplus : Nat → Fault) (kind : String) (total : Nat) (stop : Option Fault) :
    List (Field Draft Fault ρ) → List Draft → (place : Nat) → ρ → Except Fault ρ
  | [], [], _, record => do
    Draft.finish stop
    return record
  | [], _ :: more, place, _ => .error (surplus (place + 1 + more.length))
  | f :: rest, [], place, record => do
    Draft.finish stop
    if f.absence == .defaulted then readOrdered surplus kind total stop rest [] (place + 1) record
    else
      .error (.misfit ("invalid length " ++ toString place ++ ", expected struct " ++ kind ++
        " with " ++ toString total ++ " elements"))
  | f :: rest, d :: more, place, record => do
    readOrdered surplus kind total stop rest more (place + 1) (← f.store d record)

def readRecord (surplus : Nat → Fault) (kind : String) (fields : List (Field Draft Fault ρ))
    (start : ρ) : Draft → Except Fault ρ
  | .object entries stop => do
    let (met, record) ← readNamed fields entries [] start
    Draft.finish stop
    match missing? fields met with
    | some name => .error (.misfit ("missing field `" ++ name ++ "`"))
    | none => .ok record
  | .array items stop => readOrdered surplus kind fields.length stop fields items 0 start
  | d => misfit ("struct " ++ kind) d

def dialect (surplus : Nat → Fault) : Dialect Draft Fault where
  text := readText
  flag := readFlag
  natural := readNatural
  list := readList
  table := readTable
  optional := readOptional
  record := readRecord surplus

def ofText : Dialect Draft Fault := dialect fun _ => .malformed

def ofValue : Dialect Draft Fault :=
  dialect fun count =>
    .misfit ("invalid length " ++ toString count ++ ", expected fewer elements in array")

end ServiceDirectory.Json
