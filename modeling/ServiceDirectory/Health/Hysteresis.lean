import ServiceDirectory.Instance
import ServiceDirectory.Number.Bounds

/-! When consecutive probe outcomes change a status. -/
namespace ServiceDirectory.Health

structure Thresholds where
  success : Nat
  failure : Nat
  deriving DecidableEq, Repr

structure Counters where
  successes : Nat
  failures : Nat
  deriving DecidableEq, Repr

namespace Counters

def zero : Counters := ⟨0, 0⟩

def ceiling : Nat := Number.largest32

def record (c : Counters) (passed : Bool) : Counters :=
  if passed then ⟨min (c.successes + 1) ceiling, 0⟩ else ⟨0, min (c.failures + 1) ceiling⟩

end Counters

def nextStatus (current : Status) (c : Counters) (t : Thresholds) : Option Status :=
  let rises := decide (t.success ≤ c.successes)
  let falls := decide (t.failure ≤ c.failures)
  match current with
  | .starting => if rises then some .up else if falls then some .down else none
  | .up => if falls then some .down else none
  | .down => if rises then some .up else none

theorem nextStatusMoves {current next : Status} {c : Counters} {t : Thresholds}
    (h : nextStatus current c t = some next) : next ≠ current := by
  unfold nextStatus at h
  cases current <;> simp only at h <;> split at h <;> (try split at h) <;> simp_all <;> subst h <;>
    decide

structure Observation where
  counters : Counters
  next : Option Status
  deriving DecidableEq, Repr

def observeAll (t : Thresholds) : Status → Counters → List Bool → List Observation
  | _, _, [] => []
  | current, c, passed :: rest =>
    let c := c.record passed
    let next := nextStatus current c t
    ⟨c, next⟩ :: observeAll t (next.getD current) c rest

end ServiceDirectory.Health
