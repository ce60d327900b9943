import ServiceDirectory.Daemon
import ServiceDirectory.Proofs.Closing
import ServiceDirectory.Proofs.ResolveCalls
import ServiceDirectory.Proofs.Selection
import ServiceDirectory.Proofs.Stock
import ServiceDirectory.Settings.Validate

/-! Settings that pass their check, against all that is run with them: timers, thresholds,
strategies, probes and stores. -/
namespace ServiceDirectory
namespace Settings

theorem complainNone {bad : Bool} {text : String} : complain bad text = [] ↔ bad = false := by
  cases bad <;> simp [complain]

namespace ConfiguredInstance

structure Named (c : ConfiguredInstance) : Prop where
  id : c.id ≠ ""
  name : c.name ≠ ""
  endpoint : c.endpoint ≠ ""

end ConfiguredInstance

structure Sound (s : Settings) : Prop where
  heartbeatTimeout : s.discovery.heartbeatTimeoutSecs ≠ 0
  sweepInterval : s.discovery.sweepIntervalSecs ≠ 0
  eventCapacity : s.discovery.eventQueueCapacity ≠ 0
  probe : s.health.probe ∈ probeKinds
  probeInterval : s.health.probeIntervalMs ≠ 0
  probeTimeout : s.health.probeTimeoutMs ≠ 0
  successes : s.health.successThreshold ≠ 0
  failures : s.health.failureThreshold ≠ 0
  lifetime : s.cache.ttlMs ≠ 0
  shorter : s.cache.ttlMs < s.heartbeatTimeoutMs
  strategy : s.resolver.defaultStrategy ∈ builtinStrategies
  timeout : s.resolver.timeoutMs ≠ 0
  backoff : s.resolver.backoff ∈ backoffKinds
  store : s.store.backend = "memory" ∨
    s.store.backend = "redis" ∧ ∃ url, s.store.redisUrl = some url ∧ url ≠ ""
  instances : ∀ c ∈ s.instances, c.Named

theorem cacheFine (s : Settings) :
    s.cacheViolations = [] ↔ s.cache.ttlMs ≠ 0 ∧ s.cache.ttlMs < s.heartbeatTimeoutMs := by
  unfold cacheViolations
  split
  · rename_i none
    simp_all
  · rename_i some_
    simp only [complainNone, decide_eq_false_iff_not, Nat.not_le, ne_eq]
    exact ⟨fun shorter => ⟨by simpa using some_, shorter⟩, And.right⟩

theorem storeFine (s : StoreSection) :
    storeViolations s = [] ↔ s.backend = "memory" ∨
      s.backend = "redis" ∧ ∃ url, s.redisUrl = some url ∧ url ≠ "" := by
  unfold storeViolations
  split
  · rename_i memory
    simp_all
  split
  · rename_i redis
    cases s.redisUrl <;> simp_all [complainNone]
  · simp_all

theorem instancesFine (index : Nat) (instances : List ConfiguredInstance) :
    instanceViolations index instances = [] ↔ ∀ c ∈ instances, c.Named := by
  induction instances generalizing index with
  | nil => simp [instanceViolations]
  | cons c rest ih =>
    have own : nameless c = false ↔ c.Named := by
      simp only [nameless, Bool.or_eq_false_iff, beq_eq_false_iff_ne]
      exact ⟨fun ⟨⟨id, name⟩, endpoint⟩ => ⟨id, name, endpoint⟩,
        fun ⟨id, name, endpoint⟩ => ⟨⟨id, name⟩, endpoint⟩⟩
    simp [instanceViolations, complainNone, own, ih]

theorem validIff {s : Settings} : s.valid = true ↔ s.Sound := by
  simp only [valid, violations, discoveryViolations, healthViolations, resolverViolations,
    List.isEmpty_iff, List.append_eq_nil_iff, complainNone, cacheFine, storeFine, instancesFine,
    beq_eq_false_iff_ne, Bool.not_eq_false', List.contains_iff_mem]
  constructor
  · rintro ⟨⟨⟨⟨⟨⟨⟨a, b⟩, c⟩, ⟨⟨⟨d, e⟩, f⟩, g⟩, h⟩, i, j⟩, ⟨k, l⟩, m⟩, n⟩, o⟩
    exact ⟨a, b, c, d, e, f, g, h, i, j, k, l, m, n, o⟩
  · rintro ⟨a, b, c, d, e, f, g, h, i, j, k, l, m, n, o⟩
    exact ⟨⟨⟨⟨⟨⟨⟨a, b⟩, c⟩, ⟨⟨⟨d, e⟩, f⟩, g⟩, h⟩, i, j⟩, ⟨k, l⟩, m⟩, n⟩, o⟩

end Settings

namespace Resolve

def Strategy.Blameless (s : Strategy) : Prop :=
  ∀ draw cursor candidates e, (s.select draw cursor candidates).1 = .error e → e.kind ≠ .invalid

theorem Strategy.builtInBlameless {s : Strategy} (own : s.builtIn = true) : s.Blameless := by
  intro draw cursor candidates e failed
  rw [Strategy.builtInFails own failed]
  nofun

theorem Balancer.knowsStandard {name : String} (known : name ∈ Settings.builtinStrategies) :
    ∃ s, Balancer.new.strategies.get? name = some s ∧ s.Blameless := by
  simp only [Settings.builtinStrategies, List.mem_cons, List.not_mem_nil, or_false] at known
  have at_ (s : Strategy) (own : s.builtIn = true)
      (found : Balancer.new.strategies.get? s.name = some s) :
      ∃ t, Balancer.new.strategies.get? s.name = some t ∧ t.Blameless :=
    ⟨s, found, Strategy.builtInBlameless own⟩
  rcases known with rfl | rfl | rfl | rfl
  · exact at_ .roundRobin rfl rfl
  · exact at_ .weightedRandom rfl rfl
  · exact at_ .random rfl rfl
  · exact at_ .first rfl rfl

theorem Query.advanceBlameless {q : Query} {r : Registry} {now : Nat} {draw : Draw}
    {s s' : Shared} {stage : Stage} {e : Failure} (blameless : q.strategy.Blameless)
    (moved : q.advance r now draw s stage = (.ended (.error e), s')) : e.kind ≠ .invalid := by
  rcases Query.advanceFails moved with rfl | ⟨candidates, failed⟩
  · nofun
  · exact blameless _ _ _ _ failed

theorem Pursuit.endsBlameless {p : Pursuit} {r : Registry} {now : Nat} {draw : Draw}
    {s s' : Shared} {e : Failure} (blameless : p.query.strategy.Blameless)
    (taken : p.Taken r now draw s (.ended (.error e)) s') : e.kind ≠ .invalid := by
  cases taken with
  | refused _ moved => exact Query.advanceBlameless blameless moved
  | missed _ moved => exact Query.advanceBlameless blameless moved
  | expired => nofun

end Resolve

def BrokerAction.Spares (name : String) (a : BrokerAction) : Prop :=
  ∀ s, a = .addStrategy s → s.name = name → s.Blameless

namespace Broker
variable {b c : Broker} {k : Nat}
open Resolve (Balancer Cache Draw Pursuit ResolveOptions ResolverSettings Strategy)

structure Unblamed (b : Broker) (k : Nat) : Prop where
  strategy : ∀ p, b.pursuit? k = some p → p.query.strategy.Blameless
  ending : ∀ e, b.ending? k = some (.error e) → e.kind ≠ .invalid

theorem unblamedSteps (known : k < b.nextPursuit) (h : b.Unblamed k) {actions : List BrokerAction}
    (run : b.steps actions = some c) : c.Unblamed k := by
  induction actions generalizing b with
  | nil => cases run; exact h
  | cons a rest ih =>
    obtain ⟨m, one, others⟩ := Option.bind_eq_some_iff.mp run
    obtain ⟨later, moved⟩ := stepMoved known one
    refine ih later ?_ others
    cases moved with
    | untouched pursuit ending => exact ⟨pursuit ▸ h.strategy, ending ▸ h.ending⟩
    | dropped pursuit ending => exact ⟨by simp [pursuit], ending ▸ h.ending⟩
    | @ahead p p' _ _ was taken pursuit ending =>
      refine ⟨fun q found => ?_, ending ▸ h.ending⟩
      cases pursuit.symm.trans found
      rw [Pursuit.takenQuery taken]
      exact h.strategy p was
    | @ended p _ _ _ was taken pursuit ending =>
      refine ⟨by simp [pursuit], fun e failed => ?_⟩
      cases ending.symm.trans failed
      exact Pursuit.endsBlameless (h.strategy p was) taken

structure Ready (b : Broker) : Prop where
  named : b.Named
  default : ∃ s, b.balancer.strategies.get? b.settings.defaultStrategy = some s ∧ s.Blameless

theorem readyStep (h : b.Ready) {a : BrokerAction} (spares : a.Spares b.settings.defaultStrategy)
    (next : b.step a = some c) : c.Ready ∧ c.settings = b.settings := by
  have named := namedStep h.named next
  have aside (settings : c.settings = b.settings)
      (strategies : c.balancer.strategies = b.balancer.strategies) :
      c.Ready ∧ c.settings = b.settings :=
    ⟨⟨named, by rw [settings, strategies]; exact h.default⟩, settings⟩
  cases a with
  | directory action =>
    obtain ⟨d, _, same⟩ := Option.bind_eq_some_iff.mp next
    cases same
    exact aside rfl rfl
  | beginResolve service options jitter =>
    obtain ⟨pursuits, endings, rfl⟩ := beginAside next
    exact aside rfl rfl
  | proceedResolve id draw =>
    obtain ⟨p, s, found, ⟨p', _, rfl⟩ | ⟨result, _, rfl⟩⟩ := proceedCases next
    · exact aside rfl rfl
    · exact aside rfl rfl
  | addStrategy strategy =>
    cases next
    refine ⟨⟨named, ?_⟩, rfl⟩
    by_cases same : strategy.name = b.settings.defaultStrategy
    · exact ⟨strategy, same ▸ Table.getPutSame _ _ _, spares strategy rfl same⟩
    · obtain ⟨s, found, blameless⟩ := h.default
      exact ⟨s, (Table.getPutOther _ _ (Ne.symm same)).trans found, blameless⟩
  | followNext watcher =>
    obtain ⟨bus, service, rfl⟩ := followCases next
    exact aside rfl rfl
  | _ => cases next; exact aside rfl rfl

theorem readySteps (h : b.Ready) {actions : List BrokerAction}
    (spares : ∀ a ∈ actions, a.Spares b.settings.defaultStrategy)
    (run : b.steps actions = some c) : c.Ready := by
  induction actions generalizing b with
  | nil => cases run; exact h
  | cons a rest ih =>
    obtain ⟨m, one, others⟩ := Option.bind_eq_some_iff.mp run
    obtain ⟨ready, settings⟩ := readyStep h (spares a List.mem_cons_self) one
    exact ih ready (fun a mem => settings ▸ spares a (List.mem_cons_of_mem _ mem)) others

theorem readyBegins (h : b.Ready) (service : String) {options : ResolveOptions}
    (default : options.strategy = none) (jitter : Draw) :
    (b.beginResolve service options jitter).Unblamed b.nextPursuit := by
  obtain ⟨s, found, blameless⟩ := h.default
  have known : b.balancer.strategies.get? (options.strategy.getD b.settings.defaultStrategy) =
      some s := by rwa [default]
  obtain ⟨_, under, unended⟩ := begun h.named (Pursuit.beginKnown service jitter _ known)
  refine ⟨fun p there => ?_, fun e failed => ?_⟩
  · cases under.symm.trans there
    exact blameless
  · cases unended.symm.trans failed

theorem newReady {directory : Directory} {settings : ResolverSettings} {cache : Option Cache}
    (known : settings.defaultStrategy ∈ Settings.builtinStrategies) :
    (Broker.new directory settings cache).Ready :=
  ⟨⟨by simp [new], by simp [new]⟩, Balancer.knowsStandard known⟩

end Broker

def Call.Intact (c : Call) : Prop := ∀ notices, c ≠ .announcing notices .broken

namespace Directory
variable {d e : Directory} {a : Action}

structure Unbroken (d : Directory) : Prop where
  lined : d.Lined
  period : d.settings.sweepInterval ≠ 0
  calls : ∀ k c, d.call? k = some c → c.Intact
  endings : ∀ x ∈ d.endings, x.result ≠ .ok .broken

theorem unbrokenStep (h : d.Unbroken) (next : d.step a = some e) : e.Unbroken := by
  obtain ⟨k, before, after, result, told, runs⟩ := stepRuns h.lined next
  have quiet (intact : ∀ c, after = some c → c.Intact) (unbroken : result ≠ some (.ok .broken)) :
      e.Unbroken := by
    refine ⟨linedStep h.lined next, by rw [stepSettings next]; exact h.period,
      runs.each (fun j c _ found => h.calls j c found) intact, fun x mem => ?_⟩
    rw [runs.endings] at mem
    rcases List.mem_append.mp mem with mine | earlier
    · obtain ⟨r, answers, rfl⟩ := List.mem_map.mp mine
      exact fun same => unbroken (same ▸ Option.mem_toList.mp answers)
    · exact h.endings x earlier
  have unanswered : (none : Option (Except Failure Answer)) ≠ some (.ok .broken) := nofun
  have refused (e : Failure) : some (.error e) ≠ some (Except.ok Answer.broken) := nofun
  cases course : runs.course with
  | broke first =>
    have endings := runs.endings
    cases next
    simp [begin, beginStart, first, h.period, open_] at endings
  | opened opens => exact quiet (by rintro c ⟨⟩; cases opens <;> rintro notices ⟨⟩) unanswered
  | @told _ n rest answer =>
    refine quiet ?_ unanswered
    rintro c ⟨⟩ notices ⟨⟩
    exact h.calls k _ runs.was _ rfl
  | silent =>
    refine quiet (by rintro c ⟨⟩) ?_
    rintro ⟨⟩
    exact h.calls k _ runs.was _ rfl
  | refused | turnedAway | missed | unsaved | unlisted => exact quiet (by rintro c ⟨⟩) (refused _)
  | heard | foundNone | expiredLast | launched | joined =>
    exact quiet (by rintro c ⟨⟩) (by rintro ⟨⟩)
  | _ => exact quiet (by rintro c ⟨⟩ <;> rintro notices ⟨⟩) unanswered

theorem withStoreUnbroken {settings : DirectorySettings} (period : settings.sweepInterval ≠ 0)
    (store : Table Instance) : (withStore settings store).Unbroken where
  lined := (withStoreCustody settings store).lined
  period := period
  calls k c found := by cases found
  endings x mem := by cases mem

theorem endLoopIs {epoch : Nat} (next : d.step (.endLoop epoch) = some e) :
    ∃ l, d.loop? epoch = some l ∧ (d.stopped l = true ∨ d.settings.loop.interval = 0) := by
  obtain ⟨l, found, next⟩ := Option.bind_eq_some_iff.mp next
  refine ⟨l, found, ?_⟩
  split at next
  · rename_i ends
    simpa using ends
  · cases next

end Directory

namespace Settings
open Resolve (ResolveOptions)

/-- All that is built and run with the settings, for the sake of which they are checked. -/
structure Safe (s : Settings) : Prop where
  sweepInterval : s.directory.sweepInterval ≠ 0
  heartbeatTimeout : s.directory.heartbeatTimeout ≠ 0
  eventCapacity : 1 ≤ s.directory.eventCapacity
  probeInterval : s.directory.loop.interval ≠ 0
  probeTimeout : s.directory.loop.timeout ≠ 0
  thresholds : s.directory.loop.thresholds = ⟨s.health.successThreshold, s.health.failureThreshold⟩
  timeout : s.resolverSettings.timeout ≠ 0
  fixed : s.resolverSettings.backoff = .fixed ↔ s.resolver.backoff = "fixed"
  exponential : s.resolverSettings.backoff = .exponential ↔ s.resolver.backoff = "exponential"
  lifetime : s.emptyCache.lifetime ≠ 0
  shorter : s.emptyCache.lifetime < s.directory.heartbeatTimeout
  strategy : ∃ strategy,
    Resolve.Balancer.new.strategy s.resolverSettings.defaultStrategy = .ok strategy
  prober : ∃ prober, Health.Prober.build s.health.probe s.health.httpPath = .ok prober
  store : ∀ e, Daemon.chooseStore s = .error e → ∃ url cause,
    s.store.redisUrl = some url ∧ url ≠ "" ∧
      Redis.RedisStore.at_ url s.store.keyPrefix = .error cause ∧ e = .failure none cause
  daemon : ∀ store, Daemon.chooseStore s = .ok store → ∃ d, Daemon.new s = .ok d ∧
    d.engine.broker = .new (.empty s.directory) s.resolverSettings (some s.emptyCache)
  resolves : ∀ {directory before after b c service options jitter e},
    (Broker.new directory s.resolverSettings (some s.emptyCache)).steps before = some b →
    (∀ a ∈ before, a.Spares s.resolverSettings.defaultStrategy) →
    options.strategy = none →
    (b.beginResolve service options jitter).steps after = some c →
    c.ending? b.nextPursuit = some (.error e) → e.kind ≠ .invalid
  starts : ∀ {store actions d},
    (Directory.withStore s.directory store).steps actions = some d →
    ∀ x ∈ d.endings, x.result ≠ .ok .broken
  loops : ∀ {store actions d e epoch},
    (Directory.withStore s.directory store).steps actions = some d →
    d.step (.endLoop epoch) = some e → ∃ l, d.loop? epoch = some l ∧ d.stopped l = true

theorem backoffKnown {s : Settings} (known : s.resolver.backoff ∈ backoffKinds) :
    (s.resolverSettings.backoff = .fixed ↔ s.resolver.backoff = "fixed") ∧
      (s.resolverSettings.backoff = .exponential ↔ s.resolver.backoff = "exponential") := by
  simp only [backoffKinds, List.mem_cons, List.not_mem_nil, or_false] at known
  rcases known with known | known <;> simp [resolverSettings, known]

theorem proberKnown {s : Settings} (known : s.health.probe ∈ probeKinds) :
    ∃ prober, Health.Prober.build s.health.probe s.health.httpPath = .ok prober := by
  simp only [probeKinds, List.mem_cons, List.not_mem_nil, or_false] at known
  rcases known with known | known | known <;> simp [Health.Prober.build, known]

theorem storeKnown {s : Settings} (sound : s.Sound) {e : DaemonError}
    (failed : Daemon.chooseStore s = .error e) : ∃ url cause,
      s.store.redisUrl = some url ∧ url ≠ "" ∧
        Redis.RedisStore.at_ url s.store.keyPrefix = .error cause ∧ e = .failure none cause := by
  rcases sound.store with memory | ⟨redis, url, given, some_⟩
  · simp [Daemon.chooseStore, memory] at failed
  · simp only [Daemon.chooseStore, redis, given, beq_self_eq_true, if_true] at failed
    cases connected : Redis.RedisStore.at_ url s.store.keyPrefix with
    | ok store => rw [connected] at failed; cases failed
    | error cause =>
      rw [connected] at failed
      cases failed
      exact ⟨url, cause, given, some_, connected, rfl⟩

theorem lifetimeShorter {s : Settings} (sound : s.Sound) :
    s.emptyCache.lifetime < s.directory.heartbeatTimeout :=
  Nat.lt_of_lt_of_le sound.shorter (Nat.min_le_left _ _)

theorem soundSafe {s : Settings} (sound : s.Sound) : s.Safe where
  sweepInterval := Nat.mul_ne_zero sound.sweepInterval nofun
  heartbeatTimeout := Nat.mul_ne_zero sound.heartbeatTimeout nofun
  eventCapacity := Nat.pos_of_ne_zero sound.eventCapacity
  probeInterval := sound.probeInterval
  probeTimeout := sound.probeTimeout
  thresholds := congrArg₂ Health.Thresholds.mk
    (Nat.max_eq_left (Nat.pos_of_ne_zero sound.successes))
    (Nat.max_eq_left (Nat.pos_of_ne_zero sound.failures))
  timeout := sound.timeout
  fixed := (backoffKnown sound.backoff).1
  exponential := (backoffKnown sound.backoff).2
  lifetime := sound.lifetime
  shorter := lifetimeShorter sound
  strategy := by
    obtain ⟨strategy, found, _⟩ := Resolve.Balancer.knowsStandard sound.strategy
    exact ⟨strategy, by rw [Resolve.Balancer.strategy, resolverSettings, found]⟩
  prober := proberKnown sound.probe
  store e failed := storeKnown sound failed
  daemon store chosen := by
    obtain ⟨prober, built⟩ := proberKnown sound.probe
    exact ⟨_, by simp only [Daemon.new, chosen, built]; rfl, rfl⟩
  resolves {directory before after b c service options jitter e} run spares default later
      failed := by
    have ready := Broker.readySteps (Broker.newReady sound.strategy) spares run
    have begun := Broker.readyBegins ready service default jitter
    have known : b.nextPursuit < (b.beginResolve service options jitter).nextPursuit :=
      (Broker.beginCases ready.named service options jitter).1
    exact (Broker.unblamedSteps known begun later).ending e failed
  starts {store actions d} run :=
    have period : s.directory.sweepInterval ≠ 0 := Nat.mul_ne_zero sound.sweepInterval (by decide)
    (Directory.trailHolds (Directory.withStoreUnbroken period store) run
      fun _ _ next h => Directory.unbrokenStep h next).endings
  loops {store actions d e epoch} run ceased := by
    have settings : d.settings = s.directory :=
      Directory.trailHolds (P := fun d => d.settings = s.directory) rfl run
        fun _ _ next same => (Directory.stepSettings next).trans same
    obtain ⟨l, found, ends⟩ := Directory.endLoopIs ceased
    refine ⟨l, found, ends.resolve_right ?_⟩
    rw [settings]
    exact sound.probeInterval

theorem validSettingsSafe {s : Settings} (valid : s.valid = true) : s.Safe :=
  soundSafe (validIff.mp valid)

def longest : Settings :=
  { standard with
    discovery := { DiscoverySection.standard with heartbeatTimeoutSecs := Number.largest64 }
    cache := { CacheSection.standard with ttlMs := Number.largest64 - 1 }
    resolver := { ResolverSection.standard with backoff := "fixed" } }

theorem longestSafe :
    longest.valid = true ∧ longest.heartbeatTimeoutMs < longest.directory.heartbeatTimeout ∧
      longest.Safe :=
  have valid : longest.valid = true := by decide
  ⟨valid, by decide, validSettingsSafe valid⟩

end Settings
end ServiceDirectory
