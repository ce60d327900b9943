import ServiceDirectory.Instance

/-! Notices of what happened to an instance. -/
namespace ServiceDirectory

inductive EventKind where
  | registered
  | deregistered
  | statusChanged
  | expired
  deriving DecidableEq, Repr

namespace EventKind

def all : List EventKind := [.registered, .deregistered, .statusChanged, .expired]

def name : EventKind → String
  | .registered => "registered"
  | .deregistered => "deregistered"
  | .statusChanged => "status_changed"
  | .expired => "expired"

def ofName? (s : String) : Option EventKind := all.find? (·.name == s)

def terminal : EventKind → Bool
  | .deregistered => true
  | .expired => true
  | _ => false

theorem nameDetermines (k : EventKind) : ofName? k.name = some k := by cases k <;> rfl

end EventKind

structure Event where
  kind : EventKind
  snapshot : Instance
  previous : Option Status
  stamp : Timestamp
  deriving DecidableEq, Repr

namespace Event

def plain (kind : EventKind) (snapshot : Instance) (now : Timestamp) : Event :=
  ⟨kind, snapshot, none, now⟩

def statusChange (snapshot : Instance) (previous : Status) (now : Timestamp) : Event :=
  ⟨.statusChanged, snapshot, some previous, now⟩

def service (e : Event) : String := e.snapshot.name

end Event
end ServiceDirectory
