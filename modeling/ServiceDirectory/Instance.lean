import ServiceDirectory.Table
import ServiceDirectory.Time.Timestamp

/-! Addressable instances of services. -/
namespace ServiceDirectory

inductive Status where
  | starting
  | up
  | down
  deriving DecidableEq, Repr

namespace Status

def all : List Status := [.starting, .up, .down]

def name : Status → String
  | .starting => "starting"
  | .up => "up"
  | .down => "down"

def ofName? (s : String) : Option Status := all.find? (·.name == s)

theorem nameDetermines (s : Status) : ofName? s.name = some s := by cases s <;> rfl

end Status

structure Instance where
  id : String
  name : String
  version : String
  endpoint : String
  weight : Nat
  tags : List String
  metadata : Table String
  status : Status
  registeredAt : Timestamp
  lastHeartbeat : Timestamp
  deriving DecidableEq, Repr

namespace Instance

def fresh (id name endpoint : String) (now : Timestamp) : Instance :=
  ⟨id, name, "", endpoint, 1, [], [], .starting, now, now⟩

def withVersion (i : Instance) (version : String) : Instance := { i with version }

def withWeight (i : Instance) (weight : Nat) : Instance := { i with weight }

def withTag (i : Instance) (tag : String) : Instance := { i with tags := i.tags ++ [tag] }

def withMetadata (i : Instance) (key value : String) : Instance :=
  { i with metadata := i.metadata.put key value }

def hasTag (i : Instance) (tag : String) : Bool := i.tags.contains tag

def stale (i : Instance) (timeout : Nat) (now : Timestamp) : Bool :=
  decide ((timeout : Int) * Timestamp.perMilli < now.since i.lastHeartbeat)

def touch (i : Instance) (now : Timestamp) : Instance :=
  { i with lastHeartbeat := i.lastHeartbeat.later now }

def sameButHeartbeat (i j : Instance) : Prop := i = { j with lastHeartbeat := i.lastHeartbeat }

theorem touchForward (i : Instance) (now : Timestamp) :
    i.lastHeartbeat.nanos ≤ (i.touch now).lastHeartbeat.nanos :=
  Timestamp.laterNotBefore _ _

end Instance
end ServiceDirectory
