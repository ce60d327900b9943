import ServiceDirectory.Decode.Dialect
import ServiceDirectory.Settings.Sections

/-! The layout of settings in a source of fields. Whatever is left out has its default, except that
a logging section must give its level and format. -/
namespace ServiceDirectory.Settings
open Decode (Dialect Field field)

variable {S E : Type}

def discoveryFields (d : Dialect S E) : List (Field S E DiscoverySection) := [
  field "heartbeat_timeout_secs" .defaulted d.word64
    fun heartbeatTimeoutSecs s => { s with heartbeatTimeoutSecs },
  field "sweep_interval_secs" .defaulted d.word64 fun sweepIntervalSecs s =>
    { s with sweepIntervalSecs },
  field "event_queue_capacity" .defaulted d.size fun eventQueueCapacity s =>
    { s with eventQueueCapacity },
  field "probe_refreshes_heartbeat" .defaulted d.flag
    fun probeRefreshesHeartbeat s => { s with probeRefreshesHeartbeat }]

def healthFields (d : Dialect S E) : List (Field S E HealthSection) := [
  field "probe" .defaulted d.text fun probe s => { s with probe },
  field "http_path" .defaulted d.text fun httpPath s => { s with httpPath },
  field "probe_interval_ms" .defaulted d.word64 fun probeIntervalMs s => { s with probeIntervalMs },
  field "probe_timeout_ms" .defaulted d.word64 fun probeTimeoutMs s => { s with probeTimeoutMs },
  field "success_threshold" .defaulted d.word32 fun successThreshold s =>
    { s with successThreshold },
  field "failure_threshold" .defaulted d.word32 fun failureThreshold s =>
    { s with failureThreshold }]

def cacheFields (d : Dialect S E) : List (Field S E CacheSection) := [
  field "ttl_ms" .defaulted d.word64 fun ttlMs s => { s with ttlMs },
  field "max_capacity" .defaulted d.word64 fun maxCapacity s => { s with maxCapacity }]

def resolverFields (d : Dialect S E) : List (Field S E ResolverSection) := [
  field "default_strategy" .defaulted d.text fun defaultStrategy s => { s with defaultStrategy },
  field "timeout_ms" .defaulted d.word64 fun timeoutMs s => { s with timeoutMs },
  field "retries" .defaulted d.word32 fun retries s => { s with retries },
  field "retry_delay_ms" .defaulted d.word64 fun retryDelayMs s => { s with retryDelayMs },
  field "retry_max_delay_ms" .defaulted d.word64 fun retryMaxDelayMs s =>
    { s with retryMaxDelayMs },
  field "backoff" .defaulted d.text fun backoff s => { s with backoff }]

def storeFields (d : Dialect S E) : List (Field S E StoreSection) := [
  field "backend" .defaulted d.text fun backend s => { s with backend },
  field "redis_url" .defaulted (d.optional d.text) fun redisUrl s => { s with redisUrl },
  field "key_prefix" .defaulted d.text fun keyPrefix s => { s with keyPrefix }]

def loggingFields (d : Dialect S E) : List (Field S E LoggingSection) := [
  field "level" .refused d.text fun level s => { s with level },
  field "format" .refused d.text fun format s => { s with format },
  field "file_path" .empty (d.optional d.text) fun filePath s => { s with filePath }]

def instanceFields (d : Dialect S E) : List (Field S E ConfiguredInstance) := [
  field "id" .defaulted d.text fun id s => { s with id },
  field "name" .defaulted d.text fun name s => { s with name },
  field "version" .defaulted d.text fun version s => { s with version },
  field "endpoint" .defaulted d.text fun endpoint s => { s with endpoint },
  field "weight" .defaulted (d.optional d.word32) fun weight s => { s with weight },
  field "tags" .defaulted (d.list d.text) fun tags s => { s with tags },
  field "metadata" .defaulted (d.table d.text) fun metadata s => { s with metadata }]

def readInstance (d : Dialect S E) : S → Except E ConfiguredInstance :=
  d.record "StaticInstanceConfig" (instanceFields d) .blank

def settingsFields (d : Dialect S E) : List (Field S E Settings) := [
  field "discovery" .defaulted (d.record "DiscoveryConfig" (discoveryFields d) .standard)
    fun discovery s => { s with discovery },
  field "health" .defaulted (d.record "HealthConfig" (healthFields d) .standard)
    fun health s => { s with health },
  field "cache" .defaulted (d.record "CacheConfig" (cacheFields d) .standard)
    fun cache s => { s with cache },
  field "resolver" .defaulted (d.record "ResolverConfig" (resolverFields d) .standard)
    fun resolver s => { s with resolver },
  field "store" .defaulted (d.record "StoreConfig" (storeFields d) .standard)
    fun store s => { s with store },
  field "logging" .defaulted (d.record "LoggingConfig" (loggingFields d) .standard)
    fun logging s => { s with logging },
  field "instances" .defaulted (d.list (readInstance d)) fun instances s => { s with instances }]

def readSettings (d : Dialect S E) : S → Except E Settings :=
  d.record "Config" (settingsFields d) .standard

end ServiceDirectory.Settings
