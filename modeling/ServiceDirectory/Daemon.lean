import ServiceDirectory.Engine.Command
import ServiceDirectory.Identifier
import ServiceDirectory.Settings.Effective
import ServiceDirectory.Store.Redis

/-! The service as a whole: a directory, its resolver and cache as the settings say, and the
configured instances kept alive. -/
namespace ServiceDirectory
open Health (Prober)
open Resolve (ResolveOptions)
open Settings (ConfiguredInstance Settings)

inductive StoreChoice where
  | memory
  | redis (store : Redis.RedisStore)
  deriving DecidableEq, Repr

/-- `unending`: what was asked for never came to an end. -/
inductive DaemonError where
  | failure (context : Option String) (cause : Failure)
  | trouble (text : String)
  | unending
  deriving DecidableEq, Repr

namespace DaemonError

def chain : DaemonError → List String
  | .failure (some context) cause => [context, cause.message]
  | .failure none cause => [cause.message]
  | .trouble text => [text]
  | .unending => []

end DaemonError

structure Daemon where
  settings : Settings
  store : StoreChoice
  engine : Engine

namespace Daemon

def staticInstance (c : ConfiguredInstance) (host : String) (choices : List Nat)
    (now : Timestamp) : Instance :=
  let id := if c.id == "" then Identifier.forConfigured c.name host choices else c.id
  let plain := (Instance.fresh id c.name c.endpoint now).withVersion c.version
  let weighed := match c.weight with
    | some weight => plain.withWeight weight
    | none => plain
  let tagged := c.tags.foldl Instance.withTag weighed
  c.metadata.foldl (fun i (k, v) => i.withMetadata k v) tagged

def chooseStore (s : Settings) : Except DaemonError StoreChoice :=
  if s.store.backend == "redis" then
    match s.store.redisUrl with
    | none => .error (.trouble "store.redis_url is required for the redis backend")
    | some url => do
      let store ← (Redis.RedisStore.at_ url s.store.keyPrefix).mapError (.failure none)
      return .redis store
  else .ok .memory

def new (s : Settings) : Except DaemonError Daemon := do
  let store ← chooseStore s
  let prober ← (Prober.build s.health.probe s.health.httpPath).mapError (.failure none)
  let broker := Broker.new (.empty s.directory) s.resolverSettings (some s.emptyCache)
  return ⟨s, store, .new broker (.plain prober)⟩

def call (d : Daemon) (request : Request) : Daemon × Option (Except Failure Answer) :=
  match d.engine.run (.work (.call request)) with
  | (engine, .result _ result) => ({ d with engine }, some result)
  | (engine, _) => ({ d with engine }, none)

def load (d : Daemon) : Daemon × Except DaemonError Nat :=
  match d.call .bootstrap with
  | (d, none) => (d, .error .unending)
  | (d, some (.ok (.count n))) => (d, .ok n)
  | (d, some (.ok _)) => (d, .ok 0)
  | (d, some (.error e)) => (d, .error (.failure none e))

def noteEvents (e : Engine) : Engine :=
  let watcher := e.directory.bus.nextId
  { (e.try_ (.watch none)).getD e with loggers := e.loggers ++ [watcher] }

def listen (d : Daemon) : Daemon :=
  let e := (d.engine.tryBroker (.follow none)).getD d.engine
  { d with engine := noteEvents e }

def registerAll (d : Daemon) : List Instance → Daemon × Except DaemonError Unit
  | [] => (d, .ok ())
  | i :: rest =>
    match d.call (.register i) with
    | (d, none) => (d, .error .unending)
    | (d, some (.ok _)) => d.registerAll rest
    | (d, some (.error e)) =>
      if e.kind == .alreadyExists then d.registerAll rest
      else (d, .error (.failure (some ("Failed to register static instance " ++ i.id)) e))

/-- A third of the heartbeat timeout, but a second at least; in nanoseconds. -/
def heartbeatPeriod (s : Settings) : Nat :=
  max (s.discovery.heartbeatTimeoutSecs * 1000000000 / 3) 1000000000

def keep (d : Daemon) (instances : List Instance) : Daemon :=
  if instances.isEmpty then d
  else
    let keeper : Keeper := ⟨instances, d.engine.now, heartbeatPeriod d.settings, 0, [], none⟩
    { d with engine := { d.engine with keeper := some keeper }.settle }

def start (d : Daemon) (host : String) (choices : List Nat) : Daemon × Except DaemonError Unit :=
  match d.load with
  | (d, .error e) => (d, .error e)
  | (d, .ok _) =>
    match d.call .start with
    | (d, none) => (d, .error .unending)
    | (d, some (.error e)) => (d, .error (.failure none e))
    | (d, some (.ok _)) =>
      let d := d.listen
      let instances := d.settings.instances.map fun c =>
        staticInstance c host choices d.engine.clock
      match d.registerAll instances with
      | (d, .error e) => (d, .error e)
      | (d, .ok _) => (d.keep instances, .ok ())

def advance (d : Daemon) (ms : Nat) : Daemon :=
  { d with engine := (d.engine.run (.advance ms)).1 }

def resolve (d : Daemon) (service : String) (options : ResolveOptions) :
    Daemon × Except Failure Instance :=
  match d.engine.run (.work (.resolve service 1 options)) with
  | (engine, .picks (result :: _)) => ({ d with engine }, result)
  | (engine, _) => ({ d with engine }, .error (Resolve.noInstances service))

def strategies (d : Daemon) : List String := d.engine.broker.balancer.names

/-- What the service does of itself, keeping its instances alive included, ends before the directory
is shut down. -/
def fallSilent (d : Daemon) : Daemon :=
  let e := (d.engine.tryBroker .unfollow).getD d.engine
  let e := e.loggers.foldl (fun e watcher => (e.try_ (.closeWatcher watcher)).getD e) e
  { d with engine := { e with keeper := none, loggers := [] } }

def shutdown (d : Daemon) : Daemon := (d.fallSilent.call .shutdown).1

end Daemon
end ServiceDirectory
