import ServiceDirectory.Health.Hysteresis
import ServiceDirectory.Health.Probe
import ServiceDirectory.Time.Span

/-! The check loop of one registration: it probes at every tick, counts outcomes in a row and
reports changes of status. It keeps its own status and never reads the directory. -/
namespace ServiceDirectory.Health

structure LoopSettings where
  interval : Nat
  timeout : Nat
  thresholds : Thresholds
  reportPasses : Bool
  deriving DecidableEq, Repr

inductive Report where
  | transition (id : String) (epoch : Nat) (before after : Status) (result : ProbeResult)
  | passed (id : String) (epoch : Nat) (observedAt : Timestamp)
  deriving DecidableEq, Repr

inductive LoopPhase where
  | waiting (due : Nat)
  | probing (due ends : Nat) (failure : Option String)
  deriving DecidableEq, Repr

structure CheckLoop where
  id : String
  endpoint : String
  epoch : Nat
  status : Status
  counters : Counters
  phase : LoopPhase
  deriving DecidableEq, Repr

/-- A tick that comes this late, or later still, starts the period anew. -/
def tickSlack : Nat := 5

def tickAfter (period due now : Nat) : Nat :=
  if due + tickSlack < now then now + period else due + period

namespace CheckLoop

def ofInstance (i : Instance) (epoch now : Nat) : CheckLoop :=
  ⟨i.id, i.endpoint, epoch, i.status, .zero, .waiting now⟩

def timeoutFailure (timeout : Nat) : String :=
  (Failure.mk .probe ("probe timed out after " ++ Time.spanText timeout)).message

def bounded (timeout : Nat) (o : Outcome) : Nat × Option String :=
  let delay := o.delay.getD 0
  if timeout < delay then (timeout, some (timeoutFailure timeout)) else (delay, o.failure)

def wakes (l : CheckLoop) : Nat :=
  match l.phase with
  | .waiting due => due
  | .probing _ ends _ => ends

def beginProbe (s : LoopSettings) (o : Outcome) (now : Nat) (l : CheckLoop) : Option CheckLoop :=
  match l.phase with
  | .waiting due =>
    if due ≤ now && s.interval != 0 then
      let (took, failure) := bounded s.timeout o
      some { l with phase := .probing (tickAfter s.interval due now) (now + took) failure }
    else none
  | .probing _ _ _ => none

def observe (s : LoopSettings) (r : ProbeResult) (l : CheckLoop) : CheckLoop × List Report :=
  let counters := l.counters.record r.passed
  let passes :=
    if r.passed && s.reportPasses then [Report.passed l.id l.epoch r.observedAt] else []
  match nextStatus l.status counters s.thresholds with
  | none => ({ l with counters }, passes)
  | some next =>
    ({ l with counters, status := next },
      passes ++ [.transition l.id l.epoch l.status next r])

def endProbe (s : LoopSettings) (now : Nat) (clock : Timestamp) (l : CheckLoop) :
    Option (CheckLoop × List Report) :=
  match l.phase with
  | .waiting _ => none
  | .probing due ends failure =>
    if ends ≤ now then
      some ({ l with phase := .waiting due }.observe s ⟨failure, clock⟩)
    else none

theorem observeKeepsOwner (s : LoopSettings) (r : ProbeResult) (l : CheckLoop) :
    (l.observe s r).1.id = l.id ∧ (l.observe s r).1.epoch = l.epoch := by
  simp only [observe]
  cases nextStatus l.status (l.counters.record r.passed) s.thresholds <;> exact ⟨rfl, rfl⟩

end CheckLoop
end ServiceDirectory.Health
