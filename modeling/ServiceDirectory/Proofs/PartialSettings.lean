import ServiceDirectory.Proofs.Slots
import ServiceDirectory.Proofs.Spelling
import ServiceDirectory.Settings.Json

/-! Settings from documents that give only some of them: whatever is given is taken over, whatever
is left out has its default, with the level and the format of the log given together or not at
all. -/
namespace ServiceDirectory.Settings
open Decode (Field)
open Json (Draft Fault Slot Lays textShown flagShown naturalShown optionShown listShown tableShown
  recordShown textReads flagReads naturalReads optionReads listReads tableReads recordShownReads
  storesField membersGive Tells tellsRead renderTells)

def word32Shown : Nat → Draft → Prop := naturalShown Number.largest32

def word64Shown : Nat → Draft → Prop := naturalShown Number.largest64

def discoverySlots : List (Slot DiscoverySection) := [
  .may "heartbeat_timeout_secs" (·.heartbeatTimeoutSecs) word64Shown,
  .may "sweep_interval_secs" (·.sweepIntervalSecs) word64Shown,
  .may "event_queue_capacity" (·.eventQueueCapacity) word64Shown,
  .may "probe_refreshes_heartbeat" (·.probeRefreshesHeartbeat) flagShown]

def healthSlots : List (Slot HealthSection) := [
  .may "probe" (·.probe) textShown,
  .may "http_path" (·.httpPath) textShown,
  .may "probe_interval_ms" (·.probeIntervalMs) word64Shown,
  .may "probe_timeout_ms" (·.probeTimeoutMs) word64Shown,
  .may "success_threshold" (·.successThreshold) word32Shown,
  .may "failure_threshold" (·.failureThreshold) word32Shown]

def cacheSlots : List (Slot CacheSection) := [
  .may "ttl_ms" (·.ttlMs) word64Shown,
  .may "max_capacity" (·.maxCapacity) word64Shown]

def resolverSlots : List (Slot ResolverSection) := [
  .may "default_strategy" (·.defaultStrategy) textShown,
  .may "timeout_ms" (·.timeoutMs) word64Shown,
  .may "retries" (·.retries) word32Shown,
  .may "retry_delay_ms" (·.retryDelayMs) word64Shown,
  .may "retry_max_delay_ms" (·.retryMaxDelayMs) word64Shown,
  .may "backoff" (·.backoff) textShown]

def storeSlots : List (Slot StoreSection) := [
  .may "backend" (·.backend) textShown,
  .may "redis_url" (·.redisUrl) (optionShown textShown),
  .may "key_prefix" (·.keyPrefix) textShown]

def loggingSlots : List (Slot LoggingSection) := [
  .must "level" (·.level) textShown,
  .must "format" (·.format) textShown,
  .may "file_path" (·.filePath) (optionShown textShown)]

def configuredSlots : List (Slot ConfiguredInstance) := [
  .may "id" (·.id) textShown,
  .may "name" (·.name) textShown,
  .may "version" (·.version) textShown,
  .may "endpoint" (·.endpoint) textShown,
  .may "weight" (·.weight) (optionShown word32Shown),
  .may "tags" (·.tags) (listShown textShown),
  .may "metadata" (·.metadata) tableShown]

def settingsSlots (logging : List (Slot LoggingSection)) : List (Slot Settings) := [
  .may "discovery" (·.discovery) (recordShown discoverySlots .standard),
  .may "health" (·.health) (recordShown healthSlots .standard),
  .may "cache" (·.cache) (recordShown cacheSlots .standard),
  .may "resolver" (·.resolver) (recordShown resolverSlots .standard),
  .may "store" (·.store) (recordShown storeSlots .standard),
  .may "logging" (·.logging) (recordShown logging .standard),
  .may "instances" (·.instances) (listShown (recordShown configuredSlots .blank))]

variable {surplus : Nat → Fault}

theorem textsRead (s : String) (d : Draft) (shown : textShown s d) :
    (Json.dialect surplus).text d = .ok s := textReads shown

theorem flagsRead (b : Bool) (d : Draft) (shown : flagShown b d) :
    (Json.dialect surplus).flag d = .ok b := flagReads shown

theorem words32Read (n : Nat) (d : Draft) (shown : word32Shown n d) :
    (Json.dialect surplus).word32 d = .ok n := naturalReads _ shown

theorem words64Read (n : Nat) (d : Draft) (shown : word64Shown n d) :
    (Json.dialect surplus).word64 d = .ok n := naturalReads _ shown

theorem sizesRead (n : Nat) (d : Draft) (shown : word64Shown n d) :
    (Json.dialect surplus).size d = .ok n := naturalReads _ shown

theorem discoveryLays : Lays (discoveryFields (Json.dialect surplus)) discoverySlots := by
  refine ⟨?_, by decide, fun r s same => ?_⟩
  · refine
      .cons (storesField (by decide) words64Read (fun _ _ => rfl) ?_) <|
      .cons (storesField (by decide) words64Read (fun _ _ => rfl) ?_) <|
      .cons (storesField (by decide) sizesRead (fun _ _ => rfl) ?_) <|
      .cons (storesField (by decide) flagsRead (fun _ _ => rfl) ?_) .nil
    all_goals simp [discoverySlots, Slot.may]
  · simp only [discoverySlots, Slot.may, List.forall_mem_cons] at same
    cases r
    cases s
    simp_all

theorem healthLays : Lays (healthFields (Json.dialect surplus)) healthSlots := by
  refine ⟨?_, by decide, fun r s same => ?_⟩
  · refine
      .cons (storesField (by decide) textsRead (fun _ _ => rfl) ?_) <|
      .cons (storesField (by decide) textsRead (fun _ _ => rfl) ?_) <|
      .cons (storesField (by decide) words64Read (fun _ _ => rfl) ?_) <|
      .cons (storesField (by decide) words64Read (fun _ _ => rfl) ?_) <|
      .cons (storesField (by decide) words32Read (fun _ _ => rfl) ?_) <|
      .cons (storesField (by decide) words32Read (fun _ _ => rfl) ?_) .nil
    all_goals simp [healthSlots, Slot.may]
  · simp only [healthSlots, Slot.may, List.forall_mem_cons] at same
    cases r
    cases s
    simp_all

theorem cacheLays : Lays (cacheFields (Json.dialect surplus)) cacheSlots := by
  refine ⟨?_, by decide, fun r s same => ?_⟩
  · refine
      .cons (storesField (by decide) words64Read (fun _ _ => rfl) ?_) <|
      .cons (storesField (by decide) words64Read (fun _ _ => rfl) ?_) .nil
    all_goals simp [cacheSlots, Slot.may]
  · simp only [cacheSlots, Slot.may, List.forall_mem_cons] at same
    cases r
    cases s
    simp_all

theorem resolverLays : Lays (resolverFields (Json.dialect surplus)) resolverSlots := by
  refine ⟨?_, by decide, fun r s same => ?_⟩
  · refine
      .cons (storesField (by decide) textsRead (fun _ _ => rfl) ?_) <|
      .cons (storesField (by decide) words64Read (fun _ _ => rfl) ?_) <|
      .cons (storesField (by decide) words32Read (fun _ _ => rfl) ?_) <|
      .cons (storesField (by decide) words64Read (fun _ _ => rfl) ?_) <|
      .cons (storesField (by decide) words64Read (fun _ _ => rfl) ?_) <|
      .cons (storesField (by decide) textsRead (fun _ _ => rfl) ?_) .nil
    all_goals simp [resolverSlots, Slot.may]
  · simp only [resolverSlots, Slot.may, List.forall_mem_cons] at same
    cases r
    cases s
    simp_all

theorem storeLays : Lays (storeFields (Json.dialect surplus)) storeSlots := by
  refine ⟨?_, by decide, fun r s same => ?_⟩
  · refine
      .cons (storesField (by decide) textsRead (fun _ _ => rfl) ?_) <|
      .cons (storesField (by decide) (fun _ _ => optionReads textsRead) (fun _ _ => rfl) ?_) <|
      .cons (storesField (by decide) textsRead (fun _ _ => rfl) ?_) .nil
    all_goals simp [storeSlots, Slot.may]
  · simp only [storeSlots, Slot.may, List.forall_mem_cons] at same
    cases r
    cases s
    simp_all

theorem loggingLays : Lays (loggingFields (Json.dialect surplus)) loggingSlots := by
  refine ⟨?_, by decide, fun r s same => ?_⟩
  · refine
      .cons (storesField (by decide) textsRead (fun _ _ => rfl) ?_) <|
      .cons (storesField (by decide) textsRead (fun _ _ => rfl) ?_) <|
      .cons (storesField (by decide) (fun _ _ => optionReads textsRead) (fun _ _ => rfl) ?_) .nil
    all_goals simp [loggingSlots, Slot.may, Slot.must]
  · simp only [loggingSlots, Slot.may, Slot.must, List.forall_mem_cons] at same
    cases r
    cases s
    simp_all

theorem configuredLays : Lays (instanceFields (Json.dialect surplus)) configuredSlots := by
  refine ⟨?_, by decide, fun r s same => ?_⟩
  · refine
      .cons (storesField (by decide) textsRead (fun _ _ => rfl) ?_) <|
      .cons (storesField (by decide) textsRead (fun _ _ => rfl) ?_) <|
      .cons (storesField (by decide) textsRead (fun _ _ => rfl) ?_) <|
      .cons (storesField (by decide) textsRead (fun _ _ => rfl) ?_) <|
      .cons (storesField (by decide) (fun _ _ => optionReads words32Read) (fun _ _ => rfl) ?_) <|
      .cons (storesField (by decide) (fun _ _ => listReads textsRead) (fun _ _ => rfl) ?_) <|
      .cons (storesField (by decide) (fun _ _ => tableReads) (fun _ _ => rfl) ?_) .nil
    all_goals simp [configuredSlots, Slot.may]
  · simp only [configuredSlots, Slot.may, List.forall_mem_cons] at same
    cases r
    cases s
    simp_all

theorem configuredReads (c : ConfiguredInstance) (d : Draft)
    (shown : recordShown configuredSlots .blank c d) :
    readInstance (Json.dialect surplus) d = .ok c :=
  recordShownReads configuredLays _ _ shown

theorem sectionReads {ρ : Type} {fields : List (Field Draft Fault ρ)} {slots : List (Slot ρ)}
    (lays : Lays fields slots) {start : ρ} {kind : String} (r : ρ) (d : Draft)
    (shown : recordShown slots start r d) :
    (Json.dialect surplus).record kind fields start d = .ok r :=
  recordShownReads lays surplus kind shown

theorem settingsLays :
    Lays (settingsFields (Json.dialect surplus)) (settingsSlots loggingSlots) := by
  refine ⟨?_, by decide, fun r s same => ?_⟩
  · refine
      .cons (storesField (by decide) (sectionReads discoveryLays) (fun _ _ => rfl) ?_) <|
      .cons (storesField (by decide) (sectionReads healthLays) (fun _ _ => rfl) ?_) <|
      .cons (storesField (by decide) (sectionReads cacheLays) (fun _ _ => rfl) ?_) <|
      .cons (storesField (by decide) (sectionReads resolverLays) (fun _ _ => rfl) ?_) <|
      .cons (storesField (by decide) (sectionReads storeLays) (fun _ _ => rfl) ?_) <|
      .cons (storesField (by decide) (sectionReads loggingLays) (fun _ _ => rfl) ?_) <|
      .cons (storesField (by decide) (fun _ _ => listReads configuredReads) (fun _ _ => rfl) ?_)
      .nil
    all_goals simp [settingsSlots, Slot.may]
  · simp only [settingsSlots, Slot.may, List.forall_mem_cons] at same
    cases r
    cases s
    simp_all

/-- In text with white space and escapes, as a value in any order, and as a value whose members are
in the order of their keys. -/
theorem partialSettingsRead (s : Settings) (d : Draft)
    (shown : recordShown (settingsSlots loggingSlots) .standard s d) :
    (∀ text, Tells text d → Json.readWith (readSettings Json.ofText) text = .ok s) ∧
      readSettings Json.ofValue d = .ok s ∧ ∀ v, d = .ofValue v.sorted → ofJson v = .ok s := by
  have read (surplus : Nat → Fault) : readSettings (Json.dialect surplus) d = .ok s :=
    recordShownReads settingsLays _ _ shown
  refine ⟨fun text tells => (tellsRead tells _).trans (read _), read _, fun v same => ?_⟩
  rw [ofJson, ← same]
  exact read _

def oneWeb : ConfiguredInstance := { ConfiguredInstance.blank with name := "web", weight := some 2 }

def fewSettings : Settings := { Settings.standard with
  cache := { CacheSection.standard with ttlMs := 1 }
  logging := { LoggingSection.standard with level := "debug", format := "json" }
  instances := [oneWeb] }

def fewGiven : Json.Value := .object [
  ("cache", .object [("ttl_ms", .integer 1)]),
  ("instances", .array [.object [("weight", .integer 2), ("name", .string "web")]]),
  ("logging", .object [("format", .string "json"), ("level", .string "debug")])]

theorem fewShown :
    recordShown (settingsSlots loggingSlots) .standard fewSettings (.ofValue fewGiven) := by
  have cache : recordShown cacheSlots .standard fewSettings.cache
      (.ofValue (.object [("ttl_ms", .integer 1)])) := by
    refine ⟨_, rfl, membersGive (by decide) ?_ ?_⟩
    · simpa [cacheSlots, Slot.may] using ⟨by decide, rfl⟩
    · simp [cacheSlots, Slot.may, fewSettings]
  have web : recordShown configuredSlots .blank oneWeb
      (.ofValue (.object [("weight", .integer 2), ("name", .string "web")])) := by
    refine ⟨_, rfl, membersGive (by decide) ?_ ?_⟩
    · have weight : optionShown word32Shown (some 2) (.ofValue (.integer 2)) :=
        ⟨by simp [Draft.ofValue], by decide, rfl⟩
      simpa [configuredSlots, Slot.may] using ⟨rfl, weight⟩
    · simp [configuredSlots, Slot.may, oneWeb]
  have logging : recordShown loggingSlots .standard fewSettings.logging
      (.ofValue (.object [("format", .string "json"), ("level", .string "debug")])) := by
    refine ⟨_, rfl, membersGive (by decide) ?_ ?_⟩
    · simpa [loggingSlots, Slot.may, Slot.must] using ⟨rfl, rfl⟩
    · simp [loggingSlots, Slot.may, Slot.must, fewSettings]
  have instances : listShown (recordShown configuredSlots .blank) fewSettings.instances
      (.ofValue (.array [.object [("weight", .integer 2), ("name", .string "web")]])) :=
    ⟨_, rfl, .cons web .nil⟩
  refine ⟨_, rfl, membersGive (by decide) ?_ ?_⟩
  · simpa [settingsSlots, Slot.may] using ⟨cache, logging, instances⟩
  · simp [settingsSlots, Slot.may, fewSettings, Settings.standard]

theorem fewRead :
    recordShown (settingsSlots loggingSlots) .standard fewSettings (.ofValue fewGiven) ∧
      Json.readWith (readSettings Json.ofText) (Json.render fewGiven) = .ok fewSettings ∧
        readSettings Json.ofValue (.ofValue fewGiven) = .ok fewSettings := by
  have exact : fewGiven.Exact := by
    simp [fewGiven, Json.Value.Exact, Json.ExactFields, Json.ExactItems, Json.Fits]
  obtain ⟨texts, value, _⟩ := partialSettingsRead fewSettings (.ofValue fewGiven) fewShown
  exact ⟨fewShown, texts _ (renderTells exact), value⟩

def levelAlone : Json.Value := .object [("logging", .object [("level", .string "debug")])]

theorem levelAloneRefused :
    recordShown (settingsSlots (loggingSlots.map .free)) .standard
        { Settings.standard with logging := { LoggingSection.standard with level := "debug" } }
        (.ofValue levelAlone) ∧
      Json.readWith (readSettings Json.ofText) (Json.render levelAlone) =
        .error (.misfit "missing field `format`") := by
  have logging : recordShown (loggingSlots.map .free) .standard
      { LoggingSection.standard with level := "debug" }
      (.ofValue (.object [("level", .string "debug")])) := by
    refine ⟨_, rfl, membersGive (by decide) ?_ ?_⟩
    · have level : textShown "debug" (.ofValue (.string "debug")) := rfl
      simpa [loggingSlots, Slot.may, Slot.must, Slot.free] using level
    · simp [loggingSlots, Slot.may, Slot.must, Slot.free]
  refine ⟨⟨_, rfl, membersGive (by decide) ?_ ?_⟩, ?_⟩
  · simpa [settingsSlots, Slot.may] using logging
  · simp [settingsSlots, Slot.may, Settings.standard]
  · have exact : levelAlone.Exact := ⟨⟨trivial, trivial⟩, trivial⟩
    exact (tellsRead (renderTells exact) _).trans rfl

end ServiceDirectory.Settings
