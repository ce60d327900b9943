import ServiceDirectory.Directory.Call
import ServiceDirectory.EventBus

/-! The directory with everything around its records: store, watchers, check loops and their
reports, background work, and the calls under way. -/
namespace ServiceDirectory
open Health (CheckLoop LoopSettings Report)

structure DirectorySettings where
  heartbeatTimeout : Nat
  sweepInterval : Nat
  eventCapacity : Nat
  refreshOnPass : Bool
  health : LoopSettings
  deriving DecidableEq, Repr

def DirectorySettings.loop (s : DirectorySettings) : LoopSettings :=
  { s.health with reportPasses := s.refreshOnPass }

structure RunningLoop where
  check : CheckLoop
  cancelled : Bool
  deriving DecidableEq, Repr

inductive Sweeper where
  | absent
  | resting (due : Nat)
  | sweeping (call : CallId) (due : Nat)
  | ended
  deriving DecidableEq, Repr

inductive Applier where
  | absent
  | running
  | ended
  deriving DecidableEq, Repr

structure Ending where
  call : CallId
  result : Except Failure Answer

/-- `now` moves with the timers; the clock is off it by `skew` nanoseconds, as far as somebody has set
it. `log` holds every event published, oldest first; `order` the call that publishes now. Background
work is `unattended` until a shutdown waits for its end. `endings` has the latest first. -/
structure Directory where
  settings : DirectorySettings
  now : Nat
  skew : Int
  registry : Registry
  store : Table Instance
  bus : EventBus
  log : List Event
  order : Option CallId
  loops : List RunningLoop
  reports : List Report
  started : Bool
  cancelled : Bool
  applier : Applier
  sweeper : Sweeper
  unattended : Bool
  calls : List (CallId × Call)
  nextCall : CallId
  endings : List Ending

namespace Directory

def empty (settings : DirectorySettings) : Directory where
  settings
  now := 0
  skew := 0
  registry := .empty
  store := []
  bus := .empty settings.eventCapacity
  log := []
  order := none
  loops := []
  reports := []
  started := false
  cancelled := false
  applier := .absent
  sweeper := .absent
  unattended := false
  calls := []
  nextCall := 0
  endings := []

def clock (d : Directory) : Timestamp := .ofNanos ((Timestamp.ofMillis d.now).nanos + d.skew)

def call? (d : Directory) (id : CallId) : Option Call :=
  (d.calls.find? (·.1 == id)).map (·.2)

def ending? (d : Directory) (id : CallId) : Option (Except Failure Answer) :=
  (d.endings.find? (·.call == id)).map (·.result)

def moveTo (d : Directory) (id : CallId) (call : Call) : Directory :=
  { d with calls := d.calls.map fun c => if c.1 == id then (id, call) else c }

def finish (d : Directory) (id : CallId) (result : Except Failure Answer) : Directory :=
  { d with calls := d.calls.filter (·.1 != id), endings := ⟨id, result⟩ :: d.endings }

def loopRuns (d : Directory) (epoch : Nat) : Bool := d.loops.any (·.check.epoch == epoch)

def cancelLoops (d : Directory) (epochs : List Nat) : Directory :=
  { d with loops := d.loops.map fun l =>
      if epochs.contains l.check.epoch then { l with cancelled := true } else l }

def startLoops (d : Directory) (orders : List LoopOrder) : Directory :=
  { d with loops := d.loops ++ orders.map fun o =>
      ⟨.ofInstance o.snapshot o.epoch d.now, false⟩ }

def publish (d : Directory) (e : Event) : Directory :=
  { d with bus := d.bus.publish e, log := d.log ++ [e] }

end Directory
end ServiceDirectory
