import ServiceDirectory.Event
import ServiceDirectory.Failure
import ServiceDirectory.Json.Decode
import ServiceDirectory.Json.Printer
import ServiceDirectory.Time.Reader

/-! Instances and events in JSON. -/
namespace ServiceDirectory.Json
open Decode (Field field)

def stampValue (t : Timestamp) : Value := .string t.text

def tableValue (t : Table String) : Value := .object (t.map fun (k, v) => (k, .string v))

def instanceValue (i : Instance) : Value := .object [
  ("id", .string i.id),
  ("name", .string i.name),
  ("version", .string i.version),
  ("endpoint", .string i.endpoint),
  ("weight", .ofNat i.weight),
  ("tags", .texts i.tags),
  ("metadata", tableValue i.metadata),
  ("status", .string i.status.name),
  ("registered_at", stampValue i.registeredAt),
  ("last_heartbeat", stampValue i.lastHeartbeat)]

def eventValue (e : Event) : Value := .object [
  ("kind", .string e.kind.name),
  ("instance", instanceValue e.snapshot),
  ("previous_status", .ofOption (fun s => .string s.name) e.previous),
  ("timestamp", stampValue e.stamp)]

def oneOf (names : List String) : String :=
  ", ".intercalate (names.map fun n => "`" ++ n ++ "`")

def readVariant (names : List String) (ofName? : String → Option α) (name : String) :
    Except Fault α :=
  match ofName? name with
  | some a => .ok a
  | none =>
    .error (.misfit ("unknown variant `" ++ name ++ "`, expected one of " ++ oneOf names))

def readNameOf (names : List String) (ofName? : String → Option α) : Draft → Except Fault α
  | .string s => readVariant names ofName? s
  | .object [] stop => do
    Draft.finish stop
    .error .malformed
  | .object ((none, _) :: _) _ => .error .malformed
  | .object ((some key, content) :: more) stop => do
    let a ← readVariant names ofName? key
    match content with
    | .null =>
      if more.isEmpty then
        Draft.finish stop
        return a
      else .error .malformed
    | d => misfit "unit" d
  | .broken fault _ => .error fault
  | _ => .error .malformed

def readStatus : Draft → Except Fault Status :=
  readNameOf (Status.all.map Status.name) Status.ofName?

def readEventKind : Draft → Except Fault EventKind :=
  readNameOf (EventKind.all.map EventKind.name) EventKind.ofName?

def readStamp : Draft → Except Fault Timestamp
  | .string s =>
    match Time.readTimestamp s with
    | .ok t => .ok t
    | .error e => .error (.misfit e.message)
  | d => misfit "an RFC 3339 formatted date and time string" d

def instanceFields : List (Field Draft Fault Instance) := [
  field "id" .refused ofText.text fun id i => { i with id },
  field "name" .refused ofText.text fun name i => { i with name },
  field "version" .defaulted ofText.text fun version i => { i with version },
  field "endpoint" .refused ofText.text fun endpoint i => { i with endpoint },
  field "weight" .defaulted ofText.word32 fun weight i => { i with weight },
  field "tags" .defaulted (ofText.list ofText.text) fun tags i => { i with tags },
  field "metadata" .defaulted (ofText.table ofText.text) fun metadata i => { i with metadata },
  field "status" .defaulted readStatus fun status i => { i with status },
  field "registered_at" .refused readStamp fun registeredAt i => { i with registeredAt },
  field "last_heartbeat" .refused readStamp fun lastHeartbeat i => { i with lastHeartbeat }]

def blankInstance : Instance := .fresh "" "" "" .origin

def readInstanceDraft : Draft → Except Fault Instance :=
  ofText.record "ServiceInstance" instanceFields blankInstance

def eventFields : List (Field Draft Fault Event) := [
  field "kind" .refused readEventKind fun kind e => { e with kind },
  field "instance" .refused readInstanceDraft fun snapshot e => { e with snapshot },
  field "previous_status" .empty (ofText.optional readStatus) fun previous e => { e with previous },
  field "timestamp" .refused readStamp fun stamp e => { e with stamp }]

def readEventDraft : Draft → Except Fault Event :=
  ofText.record "ServiceEvent" eventFields (.plain .registered blankInstance .origin)

def readInstance (text : String) : Except Fault Instance := readWith readInstanceDraft text

def readEvent (text : String) : Except Fault Event := readWith readEventDraft text

def Fault.failure? : Fault → Option Failure
  | .misfit message => some ⟨.serialization, message⟩
  | _ => none

end ServiceDirectory.Json
