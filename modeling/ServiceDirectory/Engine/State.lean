import ServiceDirectory.Resolve.Broker

/-! A broker in virtual time: a store that takes its time, probes that follow scripts, and callers
whose work runs in the background. -/
namespace ServiceDirectory
open Health (Outcome Prober Script)
open Resolve (Cache ResolveOptions ResolverSettings Strategy)

structure PlannedCall where
  delay : Nat
  failure : Option String
  deriving DecidableEq, Repr

structure StorePlan where
  save : List PlannedCall
  delete : List PlannedCall
  list : List PlannedCall
  deriving DecidableEq, Repr

structure PendingStore where
  call : CallId
  due : Nat
  failure : Option String
  deriving DecidableEq, Repr

inductive ProbeSource where
  | scripted (scripts : Table Script) (others : Script)
  | plain (prober : Prober)
  deriving DecidableEq, Repr

inductive Work where
  | call (request : Request)
  | resolve (service : String) (times : Nat) (options : ResolveOptions)

inductive Job where
  | call (id : CallId)
  | resolves (service : String) (options : ResolveOptions) (left : Nat) (current : Option Nat)
    (picks : List (Except Failure Instance))

structure Task where
  number : Nat
  name : Option String
  work : Work
  job : Job
  finishedAt : Option Nat

/-- Keeps instances of its own alive, and registers again those that are gone. `todo` are those it
has still to see to in this round, `waiting` the registration it waits for. The period of its ticks
is in nanoseconds. -/
structure Keeper where
  instances : List Instance
  startedAt : Nat
  period : Nat
  ticks : Nat
  todo : List Instance
  waiting : Option CallId
  deriving DecidableEq, Repr

/-- `patience` is how often a caller waits for the next thing to happen before it gives up. -/
structure Engine where
  broker : Broker
  plan : StorePlan
  pending : List PendingStore
  probes : ProbeSource
  probesBegun : Nat
  watchers : Table Nat
  loggers : List Nat
  keeper : Option Keeper
  front : Option Job
  tasks : List Task
  nextTask : Nat
  patience : Nat

namespace Engine

def new (broker : Broker) (probes : ProbeSource) : Engine where
  broker
  plan := ⟨[], [], []⟩
  pending := []
  probes
  probesBegun := 0
  watchers := []
  loggers := []
  keeper := none
  front := none
  tasks := []
  nextTask := 0
  patience := 10000000

def directory (e : Engine) : Directory := e.broker.directory

def withDirectory (e : Engine) (directory : Directory) : Engine :=
  { e with broker := { e.broker with directory } }

def now (e : Engine) : Nat := e.directory.now

def clock (e : Engine) : Timestamp := e.directory.clock

def try_ (e : Engine) (action : Action) : Option Engine :=
  (e.directory.step action).map e.withDirectory

def tryBroker (e : Engine) (action : BrokerAction) : Option Engine :=
  (e.broker.step action).map fun broker => { e with broker }

end Engine

namespace Keeper

/-- Timers go off at whole milliseconds, never early. -/
def due (k : Keeper) : Nat := k.startedAt + (k.ticks * k.period + 999999) / 1000000

end Keeper
end ServiceDirectory
