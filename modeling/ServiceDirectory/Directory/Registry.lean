import ServiceDirectory.Event
import ServiceDirectory.Failure
import ServiceDirectory.Health.CheckLoop
import ServiceDirectory.Text.Blank

/-! The records of live instances, and what is done to them while their lock is held. -/
namespace ServiceDirectory

structure Record where
  snapshot : Instance
  epoch : Nat
  deriving DecidableEq, Repr

/-- `supervised` holds the epoch of the check loop of a live instance. An id `inFlight` has a
registration, removal or expiry under way. The revision of a service moves with every change that
matters to resolving it. -/
structure Registry where
  records : Table Record
  supervised : Table Nat
  inFlight : List String
  revisions : Table Nat
  lastRevision : Nat
  running : Bool
  nextEpoch : Nat
  deriving DecidableEq, Repr

structure LoopOrder where
  snapshot : Instance
  epoch : Nat
  deriving DecidableEq, Repr

structure Expiry where
  snapshot : Instance
  loop : Option Nat
  deriving DecidableEq, Repr

namespace Registry
open Health (Report)

def empty : Registry := ⟨[], [], [], [], 0, false, 1⟩

def alreadyRegistered (id : String) : Failure :=
  ⟨.alreadyExists, "service instance already registered: " ++ id⟩

def notFound (id : String) : Failure := ⟨.notFound, "service instance not found: " ++ id⟩

def bump (r : Registry) (service : String) : Registry :=
  { r with revisions := r.revisions.put service (r.lastRevision + 1),
           lastRevision := r.lastRevision + 1 }

def busy (r : Registry) (id : String) : Bool := r.records.holds id || r.inFlight.contains id

def park (r : Registry) (id : String) : Registry := { r with inFlight := id :: r.inFlight }

def release (r : Registry) (id : String) : Registry :=
  { r with inFlight := r.inFlight.filter (· != id) }

/-! Reading -/

def get? (r : Registry) (id : String) : Option Instance := (r.records.get? id).map (·.snapshot)

def live (r : Registry) : List Instance := r.records.values.map (·.snapshot)

def list (r : Registry) (service : String) (includeDown : Bool) : List Instance :=
  (r.live.filter fun i => i.name == service && (includeDown || i.status != .down)).mergeSort
    fun i j => i.id ≤ j.id

def services (r : Registry) : List String := sortedDistinct (r.live.map (·.name))

def size (r : Registry) : Nat := r.records.length

def revision (r : Registry) (service : String) : Nat := (r.revisions.get? service).getD 0

/-! Registration -/

def objection? (i : Instance) : Option Failure :=
  if Text.blank i.id then some ⟨.invalid, "instance id must not be empty"⟩
  else if Text.blank i.endpoint then some ⟨.invalid, "instance " ++ i.id ++ " has no endpoint"⟩
  else if Text.blank i.name then some ⟨.invalid, "instance " ++ i.id ++ " has no service name"⟩
  else none

def reserve (r : Registry) (id : String) : Except Failure Registry :=
  if r.busy id then .error (alreadyRegistered id) else .ok (r.park id)

def stamped (i : Instance) (now : Timestamp) : Instance :=
  { i with status := .starting, registeredAt := now, lastHeartbeat := now }

def enter (r : Registry) (i : Instance) : Registry × List LoopOrder :=
  let epoch := r.nextEpoch
  let r := { r with nextEpoch := epoch + 1,
                    supervised := if r.running then r.supervised.put i.id epoch else r.supervised }
  let r := r.bump i.name
  ({ r with records := r.records.put i.id ⟨i, epoch⟩ }, if r.running then [⟨i, epoch⟩] else [])

def commit (r : Registry) (i : Instance) : Registry × List LoopOrder := (r.release i.id).enter i

/-! Removal -/

def beginRemoval (r : Registry) (id : String) : Except Failure (Registry × Option Nat) :=
  if !r.records.holds id || r.inFlight.contains id then .error (notFound id)
  else
    .ok ({ r.park id with supervised := r.supervised.remove id }, r.supervised.get? id)

def finishRemoval (r : Registry) (id : String) : Registry × Option Instance :=
  let r := r.release id
  match r.records.get? id with
  | none => (r, none)
  | some record =>
    ({ r with records := r.records.remove id }.bump record.snapshot.name, some record.snapshot)

/-! Heartbeats -/

def touch (r : Registry) (id : String) (now : Timestamp) : Registry :=
  { r with records := r.records.adjust id fun x => { x with snapshot := x.snapshot.touch now } }

def heartbeat (r : Registry) (id : String) (now : Timestamp) : Except Failure Registry :=
  if r.records.holds id then .ok (r.touch id now) else .error (notFound id)

/-! Expiry -/

def expired (r : Registry) (timeout : Nat) (now : Timestamp) (id : String) (x : Record) : Bool :=
  !r.inFlight.contains id && x.snapshot.stale timeout now

def victims (r : Registry) (timeout : Nat) (now : Timestamp) : List String :=
  (r.records.filter fun (id, x) => r.expired timeout now id x).map (·.1)

def expel (r : Registry) (id : String) : Registry × List Expiry :=
  match r.records.get? id with
  | none => (r, [])
  | some x =>
    let loop := r.supervised.get? id
    let r := { r with records := r.records.remove id, supervised := r.supervised.remove id }
    ((r.bump x.snapshot.name).park id, [⟨x.snapshot, loop⟩])

def expelAll (r : Registry) : List String → Registry × List Expiry
  | [] => (r, [])
  | id :: rest =>
    let (r, one) := r.expel id
    let (r, more) := r.expelAll rest
    (r, one ++ more)

def expire (r : Registry) (timeout : Nat) (now : Timestamp) : Registry × List Expiry :=
  r.expelAll (r.victims timeout now)

/-! Loading and running -/

def loadOne (r : Registry) (now : Timestamp) (i : Instance) :
    Registry × List Instance × List LoopOrder :=
  if i.id == "" || i.endpoint == "" || r.busy i.id then (r, [], [])
  else
    let i := { i with status := .starting, lastHeartbeat := now }
    let (r, orders) := r.enter i
    (r, [i], orders)

def load (r : Registry) (now : Timestamp) :
    List Instance → Registry × List Instance × List LoopOrder
  | [] => (r, [], [])
  | i :: rest =>
    let (r, loaded, orders) := r.loadOne now i
    let (r, more, moreOrders) := r.load now rest
    (r, loaded ++ more, orders ++ moreOrders)

def run (r : Registry) : Registry × List LoopOrder :=
  let unsupervised := r.records.filter fun (id, _) => !r.supervised.holds id
  ({ r with running := true,
            supervised := unsupervised.foldl (fun t (id, x) => t.put id x.epoch) r.supervised },
    unsupervised.map fun (_, x) => ⟨x.snapshot, x.epoch⟩)

def unsupervise (r : Registry) : Registry × List Nat :=
  ({ r with supervised := [] }, r.supervised.values)

/-! Reports of check loops -/

/-- A change of status reported for the live registration; nothing for any other. Coming up may
count as a heartbeat. -/
def transition (r : Registry) (refresh : Bool) (now : Timestamp) (id : String) (epoch : Nat)
    (after : Status) (observedAt : Timestamp) : Registry × Option Event :=
  if r.inFlight.contains id then (r, none)
  else match r.records.get? id with
    | none => (r, none)
    | some x =>
      if x.epoch != epoch || x.snapshot.status == after then (r, none)
      else
        let moved := { x.snapshot with status := after }
        let moved := if refresh && after == .up then moved.touch observedAt else moved
        let r := { r with records := r.records.put id ⟨moved, epoch⟩ }.bump moved.name
        (r, some (.statusChange moved x.snapshot.status now))

def passed (r : Registry) (id : String) (epoch : Nat) (observedAt : Timestamp) : Registry :=
  match r.records.get? id with
  | some x => if x.epoch == epoch then r.touch id observedAt else r
  | none => r

def apply (r : Registry) (refresh : Bool) (now : Timestamp) : Report → Registry × Option Event
  | .transition id epoch _ after result =>
    r.transition refresh now id epoch after result.observedAt
  | .passed id epoch observedAt => (r.passed id epoch observedAt, none)

end Registry
end ServiceDirectory
