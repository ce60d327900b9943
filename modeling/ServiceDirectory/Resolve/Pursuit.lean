import ServiceDirectory.Resolve.Attempt

/-! Resolving over time: attempts with waits between them, until one succeeds, none is left, or the
deadline has passed. -/
namespace ServiceDirectory.Resolve

inductive Backoff where
  | fixed
  | exponential
  deriving DecidableEq, Repr

structure ResolverSettings where
  defaultStrategy : String
  timeout : Nat
  retries : Nat
  retryDelay : Nat
  retryMaxDelay : Nat
  backoff : Backoff
  deriving DecidableEq, Repr

structure ResolveOptions where
  strategy : Option String
  filters : List Filter
  timeout : Option Nat
  useCache : Bool
  retries : Option Nat

def ResolveOptions.standard : ResolveOptions := ⟨none, [], none, true, none⟩

def grow (largest current : Nat) : Nat :=
  min (if current < largest then 2 * current else current) largest

def growing (largest : Nat) (jitter : Draw) : Nat → Nat → List Nat
  | 0, _ => []
  | n + 1, current =>
    (current + jitter.below (current + 1)) :: growing largest jitter n (grow largest current)

def retryDelays (s : ResolverSettings) (jitter : Draw) (retries : Nat) : List Nat :=
  match s.backoff with
  | .fixed => List.replicate retries s.retryDelay
  | .exponential => growing s.retryMaxDelay jitter retries s.retryDelay

inductive Moment where
  | trying (stage : Stage)
  | resting (until_ : Nat)
  deriving DecidableEq, Repr

structure Pursuit where
  query : Query
  timeout : Nat
  deadline : Nat
  delays : List Nat
  moment : Moment

inductive Course where
  | ahead (p : Pursuit)
  | ended (result : Except Failure Instance)

namespace Pursuit

def begin (b : Balancer) (s : ResolverSettings) (o : ResolveOptions) (service : String)
    (jitter : Draw) (now : Nat) : Except Failure Pursuit := do
  let strategy ← b.strategy (o.strategy.getD s.defaultStrategy)
  let timeout := o.timeout.getD s.timeout
  return ⟨⟨service, strategy, o.filters, o.useCache⟩, timeout, now + timeout,
    retryDelays s jitter (o.retries.getD s.retries), .trying .lookup⟩

def timedOut (p : Pursuit) : Failure :=
  ⟨.timeout, "resolving " ++ p.query.service ++ " exceeded " ++ toString p.timeout ++ "ms"⟩

def afterFailure (p : Pursuit) (now : Nat) (e : Failure) : Course :=
  if !e.retryable then .ended (.error e)
  else match p.delays with
    | [] => .ended (.error e)
    | 0 :: rest => .ahead { p with delays := rest, moment := .trying .lookup }
    | delay :: rest => .ahead { p with delays := rest, moment := .resting (now + delay) }

def step (p : Pursuit) (r : Registry) (now : Nat) (draw : Draw) (s : Shared) :
    Option (Course × Shared) :=
  match p.moment with
  | .trying stage =>
    match p.query.advance r now draw s stage with
    | (.next stage, s) => some (.ahead { p with moment := .trying stage }, s)
    | (.ended (.ok i), s) => some (.ended (.ok i), s)
    | (.ended (.error e), s) => some (p.afterFailure now e, s)
  | .resting until_ =>
    if until_ ≤ now then some (.ahead { p with moment := .trying .lookup }, s)
    else if p.deadline ≤ now then some (.ended (.error p.timedOut), s)
    else none

def wakes (p : Pursuit) : Option Nat :=
  match p.moment with
  | .trying _ => none
  | .resting until_ => some (min until_ p.deadline)

end Pursuit
end ServiceDirectory.Resolve
