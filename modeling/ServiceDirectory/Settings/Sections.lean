import ServiceDirectory.Table

/-! The settings of a directory service, section by section, with their defaults. -/
namespace ServiceDirectory.Settings

structure DiscoverySection where
  heartbeatTimeoutSecs : Nat
  sweepIntervalSecs : Nat
  eventQueueCapacity : Nat
  probeRefreshesHeartbeat : Bool
  deriving DecidableEq, Repr

structure HealthSection where
  probe : String
  httpPath : String
  probeIntervalMs : Nat
  probeTimeoutMs : Nat
  successThreshold : Nat
  failureThreshold : Nat
  deriving DecidableEq, Repr

structure CacheSection where
  ttlMs : Nat
  maxCapacity : Nat
  deriving DecidableEq, Repr

structure ResolverSection where
  defaultStrategy : String
  timeoutMs : Nat
  retries : Nat
  retryDelayMs : Nat
  retryMaxDelayMs : Nat
  backoff : String
  deriving DecidableEq, Repr

structure StoreSection where
  backend : String
  redisUrl : Option String
  keyPrefix : String
  deriving DecidableEq, Repr

structure LoggingSection where
  level : String
  format : String
  filePath : Option String
  deriving DecidableEq, Repr

structure ConfiguredInstance where
  id : String
  name : String
  version : String
  endpoint : String
  weight : Option Nat
  tags : List String
  metadata : Table String
  deriving DecidableEq, Repr

end ServiceDirectory.Settings

namespace ServiceDirectory
open Settings

structure Settings where
  discovery : DiscoverySection
  health : HealthSection
  cache : CacheSection
  resolver : ResolverSection
  store : StoreSection
  logging : LoggingSection
  instances : List ConfiguredInstance
  deriving DecidableEq, Repr

end ServiceDirectory

namespace ServiceDirectory.Settings

-- `Settings.Settings`, for who has opened `ServiceDirectory` alone.
export ServiceDirectory (Settings)

namespace DiscoverySection
def standard : DiscoverySection := ⟨90, 15, 1024, false⟩
end DiscoverySection

namespace HealthSection
def standard : HealthSection := ⟨"http", "/health", 10000, 3000, 1, 3⟩
end HealthSection

namespace CacheSection
def standard : CacheSection := ⟨5000, 10000⟩
end CacheSection

namespace ResolverSection
def standard : ResolverSection := ⟨"round_robin", 2000, 2, 100, 1000, "exponential"⟩
end ResolverSection

namespace StoreSection
def standard : StoreSection := ⟨"memory", none, "meridian:"⟩
end StoreSection

namespace LoggingSection
def standard : LoggingSection := ⟨"info", "pretty", none⟩
end LoggingSection

namespace ConfiguredInstance
def blank : ConfiguredInstance := ⟨"", "", "", "", none, [], []⟩
end ConfiguredInstance

def standard : Settings :=
  ⟨.standard, .standard, .standard, .standard, .standard, .standard, []⟩

end ServiceDirectory.Settings
