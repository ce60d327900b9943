/-! How an operation on the directory can fail. -/
namespace ServiceDirectory

inductive FailureKind where
  | alreadyExists
  | notFound
  | invalid
  | noAvailableInstances
  | timeout
  | store
  | probe
  | configuration
  | serialization
  deriving DecidableEq, Repr

namespace FailureKind

def all : List FailureKind :=
  [.alreadyExists, .notFound, .invalid, .noAvailableInstances, .timeout, .store, .probe,
    .configuration, .serialization]

def name : FailureKind → String
  | .alreadyExists => "AlreadyExists"
  | .notFound => "NotFound"
  | .invalid => "Invalid"
  | .noAvailableInstances => "NoAvailableInstances"
  | .timeout => "Timeout"
  | .store => "Store"
  | .probe => "Probe"
  | .configuration => "Configuration"
  | .serialization => "Serialization"

def ofName? (s : String) : Option FailureKind := all.find? (·.name == s)

def opening : FailureKind → String
  | .alreadyExists => "Already exists: "
  | .notFound => "Not found: "
  | .invalid => "Invalid input: "
  | .noAvailableInstances => "No available instances for service "
  | .timeout => "Timeout: "
  | .store => "Store error: "
  | .probe => "Probe failure: "
  | .configuration => "Configuration error: "
  | .serialization => "Serialization error: "

end FailureKind

structure Failure where
  kind : FailureKind
  text : String
  deriving DecidableEq, Repr

namespace Failure

def message (f : Failure) : String := f.kind.opening ++ f.text

def retryable (f : Failure) : Bool := f.kind == .noAvailableInstances

def ofStore (context cause : String) : Failure := ⟨.store, context ++ ": " ++ cause⟩

end Failure
end ServiceDirectory
