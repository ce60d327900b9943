import ServiceDirectory.Event

/-! Fan-out of events to watchers. Every watcher has a bounded queue; an event that finds it full is
dropped for that watcher and counted. -/
namespace ServiceDirectory

/-- A watcher as the bus knows it, with what is queued for it. A closed one stays until an event it
wants comes by. -/
structure Subscription where
  id : Nat
  service : Option String
  isOpen : Bool
  queue : List Event
  deriving DecidableEq, Repr

structure EventBus where
  capacity : Nat
  subscriptions : List Subscription
  nextId : Nat
  dropped : Nat
  deriving DecidableEq, Repr

namespace Subscription

def wants (s : Subscription) (e : Event) : Bool :=
  match s.service with
  | none => true
  | some service => service == e.service

inductive Delivery where
  | unwanted
  | accepted
  | full
  | gone
  deriving DecidableEq, Repr

def delivery (capacity : Nat) (e : Event) (s : Subscription) : Delivery :=
  if !s.wants e then .unwanted
  else if !s.isOpen then .gone
  else if s.queue.length < capacity then .accepted
  else .full

end Subscription

namespace EventBus
open Subscription (delivery)

def empty (capacity : Nat) : EventBus := ⟨max capacity 1, [], 1, 0⟩

def subscribe (b : EventBus) (service : Option String) : EventBus × Nat :=
  ({ b with subscriptions := b.subscriptions ++ [⟨b.nextId, service, true, []⟩],
            nextId := b.nextId + 1 }, b.nextId)

def publish (b : EventBus) (e : Event) : EventBus :=
  let subscriptions := b.subscriptions.filterMap fun s =>
    match delivery b.capacity e s with
    | .accepted => some { s with queue := s.queue ++ [e] }
    | .gone => none
    | .unwanted => some s
    | .full => some s
  { b with subscriptions,
           dropped := b.dropped + b.subscriptions.countP (delivery b.capacity e · == .full) }

def takers (b : EventBus) (e : Event) : Nat :=
  b.subscriptions.countP (delivery b.capacity e · == .accepted)

def find? (b : EventBus) (id : Nat) : Option Subscription :=
  b.subscriptions.find? fun s => s.id == id && s.isOpen

def take (b : EventBus) (id : Nat) : Option Event × EventBus :=
  (b.find? id |>.bind (·.queue.head?),
    { b with subscriptions := b.subscriptions.map fun s =>
        if s.id == id then { s with queue := s.queue.tail } else s })

def close (b : EventBus) (id : Nat) : EventBus :=
  { b with subscriptions := b.subscriptions.map fun s =>
      if s.id == id then { s with isOpen := false, queue := [] } else s }

def subscribers (b : EventBus) : Nat := b.subscriptions.length

end EventBus
end ServiceDirectory
