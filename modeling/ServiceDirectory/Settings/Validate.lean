import ServiceDirectory.Number.Bounds
import ServiceDirectory.Settings.Sections
import ServiceDirectory.Text.Quoted

/-! What settings must fulfil before anything runs with them. Every violation is told. -/
namespace ServiceDirectory.Settings

def builtinStrategies : List String := ["round_robin", "weighted_random", "random", "first"]

def probeKinds : List String := ["http", "tcp", "none"]

def backoffKinds : List String := ["fixed", "exponential"]

def complain (bad : Bool) (text : String) : List String := if bad then [text] else []

def got (value : String) : String := " (got " ++ Text.quoted value ++ ")"

def heartbeatTimeoutMs (s : Settings) : Nat :=
  min (s.discovery.heartbeatTimeoutSecs * 1000) Number.largest64

def discoveryViolations (s : DiscoverySection) : List String :=
  complain (s.heartbeatTimeoutSecs == 0)
    "discovery.heartbeat_timeout_secs must be greater than 0" ++
  complain (s.sweepIntervalSecs == 0) "discovery.sweep_interval_secs must be greater than 0" ++
  complain (s.eventQueueCapacity == 0) "discovery.event_queue_capacity must be greater than 0"

def healthViolations (s : HealthSection) : List String :=
  complain (!probeKinds.contains s.probe)
    ("health.probe must be one of http, tcp, none" ++ got s.probe) ++
  complain (s.probeIntervalMs == 0) "health.probe_interval_ms must be greater than 0" ++
  complain (s.probeTimeoutMs == 0) "health.probe_timeout_ms must be greater than 0" ++
  complain (s.successThreshold == 0) "health.success_threshold must be at least 1" ++
  complain (s.failureThreshold == 0) "health.failure_threshold must be at least 1"

def cacheViolations (s : Settings) : List String :=
  if s.cache.ttlMs == 0 then ["cache.ttl_ms must be greater than 0"]
  else complain (decide (s.heartbeatTimeoutMs ≤ s.cache.ttlMs))
    "cache.ttl_ms must be shorter than discovery.heartbeat_timeout_secs"

def resolverViolations (s : ResolverSection) : List String :=
  complain (!builtinStrategies.contains s.defaultStrategy)
    ("resolver.default_strategy must be one of " ++ ", ".intercalate builtinStrategies ++
      got s.defaultStrategy) ++
  complain (s.timeoutMs == 0) "resolver.timeout_ms must be greater than 0" ++
  complain (!backoffKinds.contains s.backoff)
    ("resolver.backoff must be fixed or exponential" ++ got s.backoff)

def storeViolations (s : StoreSection) : List String :=
  if s.backend == "memory" then []
  else if s.backend == "redis" then
    complain (s.redisUrl.getD "" == "") "store.redis_url is required when store.backend is redis"
  else ["store.backend must be memory or redis" ++ got s.backend]

def nameless (i : ConfiguredInstance) : Bool := i.id == "" || i.name == "" || i.endpoint == ""

def instanceViolations (index : Nat) : List ConfiguredInstance → List String
  | [] => []
  | i :: rest =>
    complain (nameless i) ("instances[" ++ toString index ++ "] needs id, name and endpoint") ++
      instanceViolations (index + 1) rest

def violations (s : Settings) : List String :=
  discoveryViolations s.discovery ++ healthViolations s.health ++ s.cacheViolations ++
    resolverViolations s.resolver ++ storeViolations s.store ++ instanceViolations 0 s.instances

def valid (s : Settings) : Bool := s.violations.isEmpty

end ServiceDirectory.Settings
