import ServiceDirectory.Json.Decode
import ServiceDirectory.Settings.Read

/-! Settings in JSON. -/
namespace ServiceDirectory.Settings
open Json (Draft Fault Value)

def discoveryValue (s : DiscoverySection) : Value := .object [
  ("heartbeat_timeout_secs", .ofNat s.heartbeatTimeoutSecs),
  ("sweep_interval_secs", .ofNat s.sweepIntervalSecs),
  ("event_queue_capacity", .ofNat s.eventQueueCapacity),
  ("probe_refreshes_heartbeat", .bool s.probeRefreshesHeartbeat)]

def healthValue (s : HealthSection) : Value := .object [
  ("probe", .string s.probe),
  ("http_path", .string s.httpPath),
  ("probe_interval_ms", .ofNat s.probeIntervalMs),
  ("probe_timeout_ms", .ofNat s.probeTimeoutMs),
  ("success_threshold", .ofNat s.successThreshold),
  ("failure_threshold", .ofNat s.failureThreshold)]

def cacheValue (s : CacheSection) : Value := .object [
  ("ttl_ms", .ofNat s.ttlMs),
  ("max_capacity", .ofNat s.maxCapacity)]

def resolverValue (s : ResolverSection) : Value := .object [
  ("default_strategy", .string s.defaultStrategy),
  ("timeout_ms", .ofNat s.timeoutMs),
  ("retries", .ofNat s.retries),
  ("retry_delay_ms", .ofNat s.retryDelayMs),
  ("retry_max_delay_ms", .ofNat s.retryMaxDelayMs),
  ("backoff", .string s.backoff)]

def storeValue (s : StoreSection) : Value := .object [
  ("backend", .string s.backend),
  ("redis_url", .ofOption Value.string s.redisUrl),
  ("key_prefix", .string s.keyPrefix)]

def loggingValue (s : LoggingSection) : Value := .object [
  ("level", .string s.level),
  ("format", .string s.format),
  ("file_path", .ofOption Value.string s.filePath)]

def instanceValue (s : ConfiguredInstance) : Value := .object [
  ("id", .string s.id),
  ("name", .string s.name),
  ("version", .string s.version),
  ("endpoint", .string s.endpoint),
  ("weight", .ofOption Value.ofNat s.weight),
  ("tags", .texts s.tags),
  ("metadata", .object (s.metadata.map fun (k, v) => (k, .string v)))]

def settingsValue (s : Settings) : Value := .object [
  ("discovery", discoveryValue s.discovery),
  ("health", healthValue s.health),
  ("cache", cacheValue s.cache),
  ("resolver", resolverValue s.resolver),
  ("store", storeValue s.store),
  ("logging", loggingValue s.logging),
  ("instances", .array (s.instances.map instanceValue))]

def ofJson (v : Value) : Except Fault Settings :=
  readSettings Json.ofValue (.ofValue v.sorted)

def instanceOfJson (v : Value) : Except Fault ConfiguredInstance :=
  readInstance Json.ofValue (.ofValue v.sorted)

end ServiceDirectory.Settings
