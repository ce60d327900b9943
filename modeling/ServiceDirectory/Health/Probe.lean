import ServiceDirectory.Endpoint
import ServiceDirectory.Failure
import ServiceDirectory.Time.Timestamp

/-! Probes: what is asked of an endpoint and what comes of it. -/
namespace ServiceDirectory.Health

structure ProbeResult where
  failure : Option String
  observedAt : Timestamp
  deriving DecidableEq, Repr

namespace ProbeResult

def passed (r : ProbeResult) : Bool := r.failure.isNone

end ProbeResult

structure Outcome where
  delay : Option Nat
  failure : Option String
  deriving DecidableEq, Repr

namespace Outcome

def pass : Outcome := ⟨none, none⟩

end Outcome

abbrev Script := List Outcome

namespace Script

def draw : Script → Outcome × Script
  | [] => (.pass, [])
  | [o] => (o, [o])
  | o :: rest => (o, rest)

end Script

inductive Prober where
  | http (path : String)
  | tcp
  | none
  deriving DecidableEq, Repr

namespace Prober

def name : Prober → String
  | .http _ => "http"
  | .tcp => "tcp"
  | .none => "none"

def build (kind path : String) : Except Failure Prober :=
  if kind == "http" then .ok (.http path)
  else if kind == "tcp" then .ok .tcp
  else if kind == "none" then .ok .none
  else .error ⟨.configuration, "Unknown probe kind: " ++ kind⟩

def outcome? (p : Prober) (endpoint : String) : Option Outcome :=
  match p with
  | .none => some .pass
  | .tcp =>
    match Endpoint.socketAddress? endpoint with
    | some _ => Option.none
    | Option.none =>
      some ⟨Option.none, some ("endpoint " ++ endpoint ++ " has no host:port")⟩
  | .http _ => Option.none

end Prober
end ServiceDirectory.Health
