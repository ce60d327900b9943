import ServiceDirectory.Engine.Run

/-! What can be asked of an engine, and what it answers. -/
namespace ServiceDirectory
open Health (ProbeResult Report)
open Resolve (Cache Content ResolveOptions)

structure HandedReport where
  id : String
  epoch : Nat
  before : Status
  after : Option Status
  observedAt : Option Int
  deriving DecidableEq, Repr

inductive StoreWorkKind where
  | save
  | delete
  | list
  deriving DecidableEq, Repr

inductive Command where
  | work (work : Work)
  | advance (ms : Nat)
  | list (service : String) (down : Bool)
  | get (id : String)
  | revision (service : String)
  | summary
  | watch (as : String) (service : Option String)
  | unwatch (as : String)
  | events (as : String) (most : Option Nat)
  | report (report : HandedReport)
  | plan (on : StoreWorkKind) (calls : List PlannedCall)
  | stored
  | put (i : Instance)
  | clearCache
  | unfollow
  | spawn (as : String) (work : Work)
  | pending (as : String)
  | join (as : String)
  | abort (as : String)

structure CacheCounts where
  hits : Nat
  misses : Nat
  invalidations : Nat
  deriving DecidableEq, Repr

structure Summary where
  services : List String
  size : Nat
  dropped : Nat
  cache : Option CacheCounts
  probes : Nat
  deriving DecidableEq, Repr

inductive Reply where
  | nothing
  | result (request : Request) (result : Except Failure Answer)
  | picks (picks : List (Except Failure Instance))
  | listed (entries : List (String × Status))
  | found (i : Option Instance)
  | revision (n : Nat)
  | summary (s : Summary)
  | watching (watcher : Nat) (service : Option String)
  | removed (known : Bool)
  | events (events : List Event)
  | stored (entries : List Instance)
  | contains (known : Bool)
  | pending (unfinished : Option Bool)
  | joined (reply : Reply) (finishedAt : Nat)
  | unknown (as : String)

namespace Engine

def beginWork (e : Engine) : Work → Engine × Job
  | .call request =>
    ((e.try_ (.begin request)).getD e, .call e.directory.nextCall)
  | .resolve service times options => (e, .resolves service options times none [])

def replyOf (e : Engine) (work : Work) (job : Job) : Reply :=
  match work, job with
  | .call request, .call id =>
    match e.directory.ending? id with
    | some result => .result request result
    | none => .nothing
  | _, .resolves _ _ _ _ picks => .picks picks
  | _, _ => .nothing

def frontOver (e : Engine) : Bool :=
  match e.front with
  | some job => e.jobOver job
  | none => true

def perform (e : Engine) (work : Work) : Engine × Reply :=
  let (e, job) := e.beginWork work
  let e := waitUntil frontOver e.patience { e with front := some job }.settle
  let reply := match e.front with
    | some job => e.replyOf work job
    | none => .nothing
  ({ e with front := none }, reply)

def cacheCounts (e : Engine) : Option CacheCounts :=
  e.broker.cache.map fun c => ⟨c.hits, c.misses, c.invalidations⟩

def summarize (e : Engine) : Summary :=
  let r := e.directory.registry
  ⟨r.services, r.size, e.directory.bus.dropped, e.cacheCounts, e.probesBegun⟩

def watch (e : Engine) (as : String) (service : Option String) : Engine × Reply :=
  let id := e.directory.bus.nextId
  let e := (e.try_ (.watch service)).getD e
  let e := match e.watchers.get? as with
    | some older => (e.try_ (.closeWatcher older)).getD e
    | none => e
  ({ e with watchers := e.watchers.put as id }, .watching id service)

def unwatch (e : Engine) (as : String) : Engine × Reply :=
  match e.watchers.get? as with
  | some id =>
    ({ (e.try_ (.closeWatcher id)).getD e with watchers := e.watchers.remove as }, .removed true)
  | none => (e, .removed false)

def takeEvents (e : Engine) (watcher : Nat) : Nat → Engine × List Event
  | 0 => (e, [])
  | n + 1 =>
    match (e.directory.bus.take watcher).1 with
    | none => (e, [])
    | some event =>
      let (e, more) := ((e.try_ (.takeEvent watcher)).getD e).takeEvents watcher n
      (e, event :: more)

def queued (e : Engine) (watcher : Nat) : Nat :=
  match e.directory.bus.find? watcher with
  | some s => s.queue.length
  | none => 0

def events (e : Engine) (as : String) (most : Option Nat) : Engine × Reply :=
  match e.watchers.get? as with
  | none => (e, .events [])
  | some id =>
    let count := e.queued id
    let (e, taken) := e.takeEvents id (match most with
      | some n => min n count
      | none => count)
    (e, .events taken)

def handIn (e : Engine) (h : HandedReport) : Engine :=
  let observedAt := match h.observedAt with
    | some ms => Timestamp.ofMillis ms
    | none => e.clock
  let report : Report := match h.after with
    | none => .passed h.id h.epoch observedAt
    | some after =>
      let failure := if after == .down then some "handed in" else none
      .transition h.id h.epoch h.before after ⟨failure, observedAt⟩
  (e.try_ (.applyDirect report)).getD e

def setPlan (e : Engine) (on : StoreWorkKind) (calls : List PlannedCall) : Engine :=
  match on with
  | .save => { e with plan := { e.plan with save := calls } }
  | .delete => { e with plan := { e.plan with delete := calls } }
  | .list => { e with plan := { e.plan with list := calls } }

/-! Work in the background -/

def task? (e : Engine) (as : String) : Option Task := e.tasks.find? (·.name == some as)

def dropTask (e : Engine) (as : String) : Engine :=
  { e with tasks := e.tasks.filter (·.name != some as) }

def taskOver (as : String) (e : Engine) : Bool :=
  match e.task? as with
  | some t => t.finishedAt.isSome
  | none => true

def abandonJob (e : Engine) : Job → Engine
  | .call id =>
    let e := { e with pending := e.pending.filter (·.call != id) }
    (e.try_ (.abandon id)).getD e
  | .resolves _ _ _ (some id) _ => (e.tryBroker (.abandonResolve id)).getD e
  | .resolves _ _ _ none _ => e

def spawn (e : Engine) (as : String) (work : Work) : Engine :=
  let older := e.tasks.map fun t => if t.name == some as then { t with name := none } else t
  let (e, job) := e.beginWork work
  { e with tasks := older ++ [⟨e.nextTask, some as, work, job, none⟩], nextTask := e.nextTask + 1 }

def join (e : Engine) (as : String) : Engine × Reply :=
  let e := waitUntil (taskOver as) e.patience e
  match e.task? as with
  | none => (e, .unknown as)
  | some t => (e.dropTask as, .joined (e.replyOf t.work t.job) (t.finishedAt.getD e.now))

def abort (e : Engine) (as : String) : Engine :=
  match e.task? as with
  | none => e
  | some t => (e.abandonJob t.job).dropTask as

def execute (e : Engine) : Command → Engine × Reply
  | .work work => e.perform work
  | .advance ms => (e.advance ms, .nothing)
  | .list service down =>
    (e, .listed ((e.directory.registry.list service down).map fun i => (i.id, i.status)))
  | .get id => (e, .found (e.directory.registry.get? id))
  | .revision service => (e, .revision (e.directory.registry.revision service))
  | .summary => (e, .summary e.summarize)
  | .watch as service => e.watch as service
  | .unwatch as => e.unwatch as
  | .events as most => e.events as most
  | .report report => (e.handIn report, .nothing)
  | .plan on calls => (e.setPlan on calls, .nothing)
  | .stored => (e, .stored e.directory.storeList)
  | .put i => ((e.try_ (.storeDirect i)).getD e, .contains true)
  | .clearCache => ((e.tryBroker .clearCache).getD e, .nothing)
  | .unfollow => ((e.tryBroker .unfollow).getD e, .nothing)
  | .spawn as work => (e.spawn as work, .nothing)
  | .pending as => (e, .pending ((e.task? as).map fun t => t.finishedAt.isNone))
  | .join as => e.join as
  | .abort as => (e.abort as, .nothing)

def run (e : Engine) (c : Command) : Engine × Reply :=
  let (e, reply) := e.execute c
  (e.settle, reply)

end Engine
end ServiceDirectory
