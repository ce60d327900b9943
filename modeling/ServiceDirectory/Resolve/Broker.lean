import ServiceDirectory.Directory.Step
import ServiceDirectory.Resolve.Pursuit

/-! A directory with resolves, their cache and their strategies. -/
namespace ServiceDirectory
open Resolve (Balancer Cache Course Draw Pursuit ResolveOptions ResolverSettings Shared Strategy)

structure ResolveEnding where
  call : Nat
  result : Except Failure Instance

structure Broker where
  directory : Directory
  settings : ResolverSettings
  balancer : Balancer
  cache : Option Cache
  followers : List Nat
  pursuits : List (Nat × Pursuit)
  nextPursuit : Nat
  endings : List ResolveEnding

inductive BrokerAction where
  | directory (action : Action)
  | beginResolve (service : String) (options : ResolveOptions) (jitter : Draw)
  | proceedResolve (call : Nat) (draw : Draw)
  | abandonResolve (call : Nat)
  | addStrategy (strategy : Strategy)
  | clearCache
  | evict (service strategy : String)
  | follow (service : Option String)
  | followNext (watcher : Nat)
  | unfollow

namespace Broker

def new (directory : Directory) (settings : ResolverSettings) (cache : Option Cache) : Broker where
  directory
  settings
  balancer := .new
  cache
  followers := []
  pursuits := []
  nextPursuit := 0
  endings := []

def shared (b : Broker) : Shared := ⟨b.cache, b.balancer.cursor⟩

def withShared (b : Broker) (s : Shared) : Broker :=
  { b with cache := s.cache, balancer := { b.balancer with cursor := s.cursor } }

def pursuit? (b : Broker) (id : Nat) : Option Pursuit :=
  (b.pursuits.find? (·.1 == id)).map (·.2)

def ending? (b : Broker) (id : Nat) : Option (Except Failure Instance) :=
  (b.endings.find? (·.call == id)).map (·.result)

def beginResolve (b : Broker) (service : String) (o : ResolveOptions) (jitter : Draw) : Broker :=
  let id := b.nextPursuit
  let b := { b with nextPursuit := id + 1 }
  match Pursuit.begin b.balancer b.settings o service jitter b.directory.now with
  | .error e => { b with endings := ⟨id, .error e⟩ :: b.endings }
  | .ok p => { b with pursuits := b.pursuits ++ [(id, p)] }

def proceedResolve (b : Broker) (id : Nat) (draw : Draw) : Option Broker := do
  let p ← b.pursuit? id
  let (course, s) ← p.step b.directory.registry b.directory.now draw b.shared
  let b := b.withShared s
  match course with
  | .ahead p =>
    some { b with pursuits := b.pursuits.map fun x => if x.1 == id then (id, p) else x }
  | .ended result =>
    some { b with pursuits := b.pursuits.filter (·.1 != id),
                  endings := ⟨id, result⟩ :: b.endings }

def follow (b : Broker) (service : Option String) : Broker :=
  let (bus, id) := b.directory.bus.subscribe service
  { b with directory := { b.directory with bus }, followers := b.followers ++ [id] }

def followNext (b : Broker) (watcher : Nat) : Option Broker := do
  if !b.followers.contains watcher then none
  let (event, bus) := b.directory.bus.take watcher
  let event ← event
  some { b with directory := { b.directory with bus },
                cache := b.cache.map (·.invalidate event.service) }

def unfollow (b : Broker) : Broker :=
  { b with directory := { b.directory with
             bus := b.followers.foldl EventBus.close b.directory.bus },
           followers := [] }

def step (b : Broker) : BrokerAction → Option Broker
  | .directory action => do
    let directory ← b.directory.step action
    some { b with directory }
  | .beginResolve service options jitter => some (b.beginResolve service options jitter)
  | .proceedResolve call draw => b.proceedResolve call draw
  | .abandonResolve call => some { b with pursuits := b.pursuits.filter (·.1 != call) }
  | .addStrategy strategy => some { b with balancer := b.balancer.register strategy }
  | .clearCache => some { b with cache := b.cache.map (·.clear b.directory.now) }
  | .evict service strategy => some { b with cache := b.cache.map (·.evict service strategy) }
  | .follow service => some (b.follow service)
  | .followNext watcher => b.followNext watcher
  | .unfollow => some b.unfollow

def steps (b : Broker) : List BrokerAction → Option Broker
  | [] => some b
  | a :: rest => (b.step a).bind (·.steps rest)

end Broker
end ServiceDirectory
