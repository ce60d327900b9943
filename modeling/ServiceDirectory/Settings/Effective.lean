import ServiceDirectory.Directory.State
import ServiceDirectory.Resolve.Pursuit
import ServiceDirectory.Settings.Sections

/-! Settings as the parts of the service take them. -/
namespace ServiceDirectory.Settings
open Health (LoopSettings)
open Resolve (Cache ResolverSettings)

def HealthSection.loop (s : HealthSection) : LoopSettings :=
  ⟨s.probeIntervalMs, s.probeTimeoutMs, ⟨max s.successThreshold 1, max s.failureThreshold 1⟩, false⟩

def directory (s : Settings) : DirectorySettings where
  heartbeatTimeout := s.discovery.heartbeatTimeoutSecs * 1000
  sweepInterval := s.discovery.sweepIntervalSecs * 1000
  eventCapacity := s.discovery.eventQueueCapacity
  refreshOnPass := s.discovery.probeRefreshesHeartbeat
  health := s.health.loop

def resolverSettings (s : Settings) : ResolverSettings where
  defaultStrategy := s.resolver.defaultStrategy
  timeout := s.resolver.timeoutMs
  retries := s.resolver.retries
  retryDelay := s.resolver.retryDelayMs
  retryMaxDelay := s.resolver.retryMaxDelayMs
  backoff := if s.resolver.backoff == "fixed" then .fixed else .exponential

def emptyCache (s : Settings) : Cache := .empty s.cache.ttlMs s.cache.maxCapacity

end ServiceDirectory.Settings
