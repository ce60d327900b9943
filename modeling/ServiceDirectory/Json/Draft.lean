import ServiceDirectory.Json.Fault
import ServiceDirectory.Json.Value
import ServiceDirectory.Text.Quoted

/-! A JSON text as far as it can be read. A fault stays where it was met, so that whoever reads the
draft in order meets the faults of text and shape in the order of the text. -/
namespace ServiceDirectory.Json

/-- `broken read skip` stands for a value that gives `read` when its content is asked for, and
`skip`, if anything, when it is passed over. An array or object ends at `stop`. A key without a text
is one that can only be passed over. -/
inductive Draft where
  | null
  | bool (b : Bool)
  | integer (n : Int)
  | floating (x : Number.Binary64)
  | string (s : String)
  | array (items : List Draft) (stop : Option Fault)
  | object (fields : List (Option String × Draft)) (stop : Option Fault)
  | broken (read : Fault) (skip : Option Fault)
  deriving Repr, Inhabited

namespace Draft

def finish : Option Fault → Except Fault Unit
  | none => .ok ()
  | some fault => .error fault

mutual

def skip : Draft → Except Fault Unit
  | .array items stop => do
    skipItems items
    finish stop
  | .object fields stop => do
    skipFields fields
    finish stop
  | .broken _ fault => finish fault
  | _ => .ok ()

def skipItems : List Draft → Except Fault Unit
  | [] => .ok ()
  | d :: rest => do
    d.skip
    skipItems rest

def skipFields : List (Option String × Draft) → Except Fault Unit
  | [] => .ok ()
  | (_, d) :: rest => do
    d.skip
    skipFields rest

end

mutual

def ofValue : Value → Draft
  | .null => .null
  | .bool b => .bool b
  | .integer n => .integer n
  | .floating x => .floating x
  | .string s => .string s
  | .array items => .array (ofItems items) none
  | .object fields => .object (ofFields fields) none

def ofItems : List Value → List Draft
  | [] => []
  | v :: rest => ofValue v :: ofItems rest

def ofFields : List (String × Value) → List (Option String × Draft)
  | [] => []
  | (k, v) :: rest => (some k, ofValue v) :: ofFields rest

end

mutual

def value (depth : Nat) : Draft → Except Fault Value
  | .null => .ok .null
  | .bool b => .ok (.bool b)
  | .integer n => .ok (.integer n)
  | .floating x => .ok (.floating x)
  | .string s => .ok (.string s)
  | .array items stop =>
    match depth with
    | 0 => .error .malformed
    | depth + 1 => do
      let vs ← valueItems depth items
      finish stop
      return .array vs
  | .object fields stop =>
    match depth with
    | 0 => .error .malformed
    | depth + 1 => do
      let vs ← valueFields depth fields
      finish stop
      return .object vs
  | .broken fault _ => .error fault

def valueItems (depth : Nat) : List Draft → Except Fault (List Value)
  | [] => .ok []
  | d :: rest => do
    let v ← d.value depth
    let vs ← valueItems depth rest
    return v :: vs

def valueFields (depth : Nat) :
    List (Option String × Draft) → Except Fault (List (String × Value))
  | [] => .ok []
  | (none, _) :: _ => .error .malformed
  | (some k, d) :: rest => do
    let v ← d.value depth
    let vs ← valueFields depth rest
    return (k, v) :: vs

end

def describe : Draft → String
  | .null => "null"
  | .bool b => "boolean `" ++ toString b ++ "`"
  | .integer n => "integer `" ++ toString n ++ "`"
  | .floating x => "floating point `" ++ x.compact ++ "`"
  | .string s => "string " ++ Text.quoted s
  | .array _ _ => "sequence"
  | .object _ _ => "map"
  | .broken _ _ => "nothing"

end Draft
end ServiceDirectory.Json
