import Mathlib.Data.List.Basic
import ServiceDirectory.Resolve.Broker

/-! The steps of a resolve, each way once: the next stage of an attempt, what comes of its end, and
the end of a wait; and what actions leave of the resolves under way and of the entries of the cache.
Facts about resolves go by these ways and leave the steps themselves alone. -/
namespace ServiceDirectory
namespace Resolve

namespace Cache
variable {c : Cache} {service strategy : String} {now : Nat}

theorem getEntries (c : Cache) (service strategy : String) (revision now : Nat) :
    ∀ e ∈ (c.get service strategy revision now).2.entries, e ∈ c.entries := by
  intro e mem
  unfold get at mem
  split at mem
  · split at mem
    · exact mem
    · exact List.mem_of_mem_filter mem
  · exact mem

theorem getHit {revision : Nat} {content : Content}
    (hit : (c.get service strategy revision now).1 = some content) :
    ∃ e ∈ c.entries, e.service = service ∧ e.strategy = strategy ∧ e.revision = revision ∧
      e.content = content := by
  unfold get at hit
  split at hit <;> try contradiction
  rename_i e found
  split at hit <;> try contradiction
  rename_i same
  have own := List.find?_some found
  simp only [Entry.isFor, Bool.and_eq_true, beq_iff_eq] at own same
  exact ⟨e, List.mem_of_find?_eq_some found, own.1.1, own.1.2, same, Option.some.inj hit⟩

theorem insertEntries {revision : Nat} {content : Content} {e : Entry}
    (mem : e ∈ (c.insert service strategy revision content now).entries) :
    e ∈ c.entries ∨ e = ⟨service, strategy, revision, content, now⟩ := by
  simp only [insert] at mem
  split at mem
  · rcases List.mem_append.mp mem with old | new
    · exact .inl (List.mem_of_mem_filter old)
    · exact .inr (List.mem_singleton.mp new)
  · exact .inl (List.mem_of_mem_filter mem)

theorem invalidateEntries (c : Cache) (service : String) :
    ∀ e ∈ (c.invalidate service).entries, e ∈ c.entries := by
  intro e mem
  unfold invalidate at mem
  split at mem
  · exact mem
  · exact List.mem_of_mem_filter mem

end Cache

section Attempt
variable {q : Query} {r : Registry} {now : Nat} {draw : Draw} {s : Shared} {stage : Stage}

theorem Query.cacheUsed {cache : Cache} (used : q.cache? s = some cache) : s.cache = some cache := by
  unfold cache? at used
  split at used
  · exact used
  · contradiction

theorem Query.advanceLeaves {cache' : Cache} {e : Entry}
    (left : (q.advance r now draw s stage).2.cache = some cache') (mem : e ∈ cache'.entries) :
    (∃ cache, s.cache = some cache ∧ e ∈ cache.entries) ∨
      ∃ revision live pick content, stage = .keep revision live pick ∧
        q.content? live pick = some content ∧
        e = ⟨q.service, q.strategy.name, revision, content, now⟩ := by
  cases stage with
  | fetch revision =>
    simp only [advance, fetch] at left
    split at left
    · rename_i cache used
      cases left
      exact .inl ⟨cache, cacheUsed used, Cache.getEntries cache _ _ _ _ e mem⟩
    · exact .inl ⟨cache', left, mem⟩
  | list revision =>
    simp only [advance] at left
    split at left <;> exact .inl ⟨cache', left, mem⟩
  | choose revision live =>
    simp only [advance] at left
    split at left <;> rename_i picked
    · exact .inl ⟨cache', (congrArg (fun x => x.2.cache) picked).trans left, mem⟩
    · exact .inl ⟨cache', (congrArg (fun x => x.2.cache) picked).trans left, mem⟩
  | keep revision live pick =>
    simp only [advance, keep] at left
    split at left
    · rename_i cache content used kept
      cases left
      rcases Cache.insertEntries mem with old | new
      · exact .inl ⟨cache, cacheUsed used, old⟩
      · exact .inr ⟨revision, live, pick, content, rfl, kept, new⟩
    · exact .inl ⟨cache', left, mem⟩
  | _ => exact .inl ⟨cache', left, mem⟩

end Attempt

namespace Pursuit
variable {p : Pursuit} {r : Registry} {now : Nat} {draw : Draw} {s s' : Shared} {course : Course}

inductive Taken (p : Pursuit) (r : Registry) (now : Nat) (draw : Draw) (s : Shared) :
    Course → Shared → Prop where
  | next {stage after : Stage} {s' : Shared} (trying : p.moment = .trying stage)
      (moved : p.query.advance r now draw s stage = (.next after, s')) :
      Taken p r now draw s (.ahead { p with moment := .trying after }) s'
  | found {stage : Stage} {i : Instance} {s' : Shared} (trying : p.moment = .trying stage)
      (moved : p.query.advance r now draw s stage = (.ended (.ok i), s')) :
      Taken p r now draw s (.ended (.ok i)) s'
  | refused {stage : Stage} {e : Failure} {s' : Shared} (trying : p.moment = .trying stage)
      (moved : p.query.advance r now draw s stage = (.ended (.error e), s'))
      (final : e.retryable = false) : Taken p r now draw s (.ended (.error e)) s'
  | missed {stage : Stage} {e : Failure} {s' : Shared} (trying : p.moment = .trying stage)
      (moved : p.query.advance r now draw s stage = (.ended (.error e), s'))
      (delays : p.delays = []) : Taken p r now draw s (.ended (.error e)) s'
  | again {stage : Stage} {e : Failure} {s' : Shared} {delay : Nat} {rest : List Nat}
      {moment : Moment} (trying : p.moment = .trying stage)
      (moved : p.query.advance r now draw s stage = (.ended (.error e), s'))
      (delays : p.delays = delay :: rest)
      (anew : ∀ stage, moment = .trying stage → stage = .lookup) :
      Taken p r now draw s (.ahead { p with delays := rest, moment }) s'
  | rested : Taken p r now draw s (.ahead { p with moment := .trying .lookup }) s
  | expired : Taken p r now draw s (.ended (.error p.timedOut)) s

theorem failureTaken {stage : Stage} {e : Failure} (trying : p.moment = .trying stage)
    (moved : p.query.advance r now draw s stage = (.ended (.error e), s')) :
    Taken p r now draw s (p.afterFailure now e) s' := by
  unfold afterFailure
  split
  · rename_i final
    have final : e.retryable = false := by simpa using final
    exact .refused trying moved final
  split
  · rename_i delays
    exact .missed trying moved delays
  · rename_i rest delays
    exact .again trying moved delays fun stage same => by cases same; rfl
  · rename_i delay rest _ delays
    exact .again trying moved delays fun stage same => by cases same

theorem stepTaken (next : p.step r now draw s = some (course, s')) :
    Taken p r now draw s course s' := by
  unfold step at next
  split at next
  · rename_i stage trying
    split at next <;> cases Option.some.inj next <;> rename_i moved
    · exact .next trying moved
    · exact .found trying moved
    · exact failureTaken trying moved
  · split at next
    · cases Option.some.inj next
      exact .rested
    · split at next <;> try contradiction
      cases Option.some.inj next
      exact .expired

theorem takenQuery {p' : Pursuit} (taken : Taken p r now draw s (.ahead p') s') :
    p'.query = p.query := by
  cases taken <;> rfl

inductive Keeps (p : Pursuit) (now : Nat) : Entry → Prop where
  | entry {revision : Nat} {live : List Instance} {pick : Instance} {content : Content}
      (moment : p.moment = .trying (.keep revision live pick))
      (kept : p.query.content? live pick = some content) :
      Keeps p now ⟨p.query.service, p.query.strategy.name, revision, content, now⟩

theorem takenLeaves (taken : Taken p r now draw s course s') {cache' : Cache} {e : Entry}
    (left : s'.cache = some cache') (mem : e ∈ cache'.entries) :
    (∃ cache, s.cache = some cache ∧ e ∈ cache.entries) ∨ p.Keeps now e := by
  have advanced {stage : Stage} {progress : Progress} (trying : p.moment = .trying stage)
      (moved : p.query.advance r now draw s stage = (progress, s')) :
      (∃ cache, s.cache = some cache ∧ e ∈ cache.entries) ∨ p.Keeps now e := by
    have there : (p.query.advance r now draw s stage).2.cache = some cache' := by
      rw [moved]
      exact left
    rcases Query.advanceLeaves there mem with old | ⟨revision, live, pick, content, rfl, kept, rfl⟩
    · exact .inl old
    · exact .inr (.entry trying kept)
  cases taken with
  | next trying moved => exact advanced trying moved
  | found trying moved => exact advanced trying moved
  | refused trying moved => exact advanced trying moved
  | missed trying moved => exact advanced trying moved
  | again trying moved => exact advanced trying moved
  | rested => exact .inl ⟨cache', left, mem⟩
  | expired => exact .inl ⟨cache', left, mem⟩

theorem beginCases {b : Balancer} {settings : ResolverSettings} {options : ResolveOptions}
    {service : String} {jitter : Draw} (begun : begin b settings options service jitter now = .ok p) :
    ∃ strategy, b.strategies.get? (options.strategy.getD settings.defaultStrategy) = some strategy ∧
      p.query = ⟨service, strategy, options.filters, options.useCache⟩ ∧
      p.delays = retryDelays settings jitter (options.retries.getD settings.retries) ∧
      p.moment = .trying .lookup := by
  simp only [begin, Balancer.strategy] at begun
  split at begun <;> try contradiction
  rename_i strategy known
  cases begun
  exact ⟨strategy, known, rfl, rfl, rfl⟩

theorem beginKnown {b : Balancer} {settings : ResolverSettings} {options : ResolveOptions}
    {strategy : Strategy} (service : String) (jitter : Draw) (now : Nat)
    (known : b.strategies.get? (options.strategy.getD settings.defaultStrategy) = some strategy) :
    begin b settings options service jitter now =
      .ok ⟨⟨service, strategy, options.filters, options.useCache⟩,
        options.timeout.getD settings.timeout, now + options.timeout.getD settings.timeout,
        retryDelays settings jitter (options.retries.getD settings.retries), .trying .lookup⟩ := by
  simp [begin, Balancer.strategy, known, bind, Except.bind, pure, Except.pure]

theorem beginFails {b : Balancer} {settings : ResolverSettings} {options : ResolveOptions}
    {service : String} {jitter : Draw} {e : Failure}
    (failed : begin b settings options service jitter now = .error e) : e.kind = .invalid := by
  simp only [begin, Balancer.strategy] at failed
  split at failed <;> cases failed
  rfl

theorem growingLength (largest : Nat) (jitter : Draw) (n current : Nat) :
    (growing largest jitter n current).length = n := by
  induction n generalizing current with
  | zero => rfl
  | succ n ih => simp [growing, ih]

theorem delaysLength (settings : ResolverSettings) (jitter : Draw) (retries : Nat) :
    (retryDelays settings jitter retries).length = retries := by
  unfold retryDelays
  split
  · exact List.length_replicate
  · exact growingLength _ _ _ _

end Pursuit
end Resolve

namespace Broker
variable {b c : Broker}
open Resolve (Cache Draw Entry Pursuit)

theorem pursuitMem {id : Nat} {p : Pursuit} (found : b.pursuit? id = some p) :
    (id, p) ∈ b.pursuits := by
  obtain ⟨x, hit, rfl⟩ := Option.map_eq_some_iff.mp found
  have own : x.1 = id := by simpa using List.find?_some hit
  exact own ▸ List.mem_of_find?_eq_some hit

theorem beginAside {service : String} {options : Resolve.ResolveOptions} {jitter : Draw}
    (next : some (b.beginResolve service options jitter) = some c) :
    ∃ pursuits endings, c = { b with nextPursuit := b.nextPursuit + 1, pursuits, endings } := by
  cases next
  simp only [beginResolve]
  split
  · exact ⟨_, _, rfl⟩
  · exact ⟨_, _, rfl⟩

theorem proceedCases {id : Nat} {draw : Draw} (next : b.proceedResolve id draw = some c) :
    ∃ p s, b.pursuit? id = some p ∧
      ((∃ p', Pursuit.Taken p b.directory.registry b.directory.now draw b.shared (.ahead p') s ∧
          c = { b.withShared s with
            pursuits := b.pursuits.map fun x => if x.1 == id then (id, p') else x }) ∨
        ∃ result,
          Pursuit.Taken p b.directory.registry b.directory.now draw b.shared (.ended result) s ∧
          c = { b.withShared s with
            pursuits := b.pursuits.filter (·.1 != id), endings := ⟨id, result⟩ :: b.endings }) := by
  obtain ⟨p, found, next⟩ := Option.bind_eq_some_iff.mp next
  obtain ⟨⟨course, s⟩, moved, next⟩ := Option.bind_eq_some_iff.mp next
  have taken := Pursuit.stepTaken moved
  refine ⟨p, s, found, ?_⟩
  cases course with
  | ahead p' => exact .inl ⟨p', taken, (Option.some.inj next).symm⟩
  | ended result => exact .inr ⟨result, taken, (Option.some.inj next).symm⟩

theorem followCases {watcher : Nat} (next : b.followNext watcher = some c) :
    ∃ bus service, c = { b with
      directory := { b.directory with bus }, cache := b.cache.map (·.invalidate service) } := by
  simp only [followNext] at next
  split at next <;> try contradiction
  obtain ⟨event, _, last⟩ := Option.bind_eq_some_iff.mp next
  exact ⟨_, event.service, (Option.some.inj last).symm⟩

theorem stepLeaves {a : BrokerAction} (next : b.step a = some c) {cache' : Cache} {e : Entry}
    (left : c.cache = some cache') (mem : e ∈ cache'.entries) :
    (∃ cache, b.cache = some cache ∧ e ∈ cache.entries) ∨
      ∃ x ∈ b.pursuits, x.2.Keeps b.directory.now e := by
  have aside (same : c.cache = b.cache) : ∃ cache, b.cache = some cache ∧ e ∈ cache.entries :=
    ⟨cache', same ▸ left, mem⟩
  have fewer (f : Cache → Cache) (sub : ∀ c : Cache, ∀ e ∈ (f c).entries, e ∈ c.entries)
      (mapped : c.cache = b.cache.map f) : ∃ cache, b.cache = some cache ∧ e ∈ cache.entries := by
    rw [mapped] at left
    obtain ⟨cache, used, rfl⟩ := Option.map_eq_some_iff.mp left
    exact ⟨cache, used, sub cache e mem⟩
  cases a with
  | directory action =>
    obtain ⟨d, _, same⟩ := Option.bind_eq_some_iff.mp next
    cases same
    exact .inl (aside rfl)
  | beginResolve service options jitter =>
    obtain ⟨pursuits, endings, rfl⟩ := beginAside next
    exact .inl (aside rfl)
  | proceedResolve id draw =>
    obtain ⟨p, s, found, moved⟩ := proceedCases next
    have leaves {course : Resolve.Course} (own : c.cache = s.cache)
        (taken : p.Taken b.directory.registry b.directory.now draw b.shared course s) :
        (∃ cache, b.cache = some cache ∧ e ∈ cache.entries) ∨
          ∃ x ∈ b.pursuits, x.2.Keeps b.directory.now e := by
      rcases Pursuit.takenLeaves taken (own ▸ left) mem with old | keeps
      · exact .inl old
      · exact .inr ⟨(id, p), pursuitMem found, keeps⟩
    rcases moved with ⟨p', taken, rfl⟩ | ⟨result, taken, rfl⟩
    · exact leaves rfl taken
    · exact leaves rfl taken
  | clearCache =>
    cases next
    exact .inl (fewer _ (fun c e mem => List.mem_of_mem_filter mem) rfl)
  | evict service strategy =>
    cases next
    exact .inl (fewer _ (fun c e mem => List.mem_of_mem_filter mem) rfl)
  | followNext watcher =>
    obtain ⟨bus, service, rfl⟩ := followCases next
    exact .inl (fewer _ (fun c => Cache.invalidateEntries c service) rfl)
  | _ => cases next; exact .inl (aside rfl)

theorem stepPursuits {a : BrokerAction} (next : b.step a = some c) {x : Nat × Pursuit}
    (mem : x ∈ c.pursuits) :
    x ∈ b.pursuits ∨
      (∃ options service jitter, a = .beginResolve service options jitter ∧ x.1 = b.nextPursuit ∧
        Pursuit.begin b.balancer b.settings options service jitter b.directory.now = .ok x.2) ∨
      ∃ p draw s, a = .proceedResolve x.1 draw ∧ b.pursuit? x.1 = some p ∧
        Pursuit.Taken p b.directory.registry b.directory.now draw b.shared (.ahead x.2) s := by
  cases a with
  | directory action =>
    obtain ⟨d, _, same⟩ := Option.bind_eq_some_iff.mp next
    cases same
    exact .inl mem
  | beginResolve service options jitter =>
    cases next
    simp only [beginResolve] at mem
    split at mem
    · exact .inl mem
    · rename_i p begun
      rcases List.mem_append.mp mem with old | new
      · exact .inl old
      · cases List.mem_singleton.mp new
        exact .inr (.inl ⟨options, service, jitter, rfl, rfl, begun⟩)
  | proceedResolve id draw =>
    obtain ⟨p, s, found, ⟨p', taken, rfl⟩ | ⟨result, taken, rfl⟩⟩ := proceedCases next
    · obtain ⟨y, old, same⟩ := List.mem_map.mp mem
      split at same <;> cases same
      · exact .inr (.inr ⟨p, draw, s, rfl, found, taken⟩)
      · exact .inl old
    · exact .inl (List.mem_of_mem_filter mem)
  | abandonResolve call =>
    cases next
    exact .inl (List.mem_of_mem_filter mem)
  | followNext watcher =>
    obtain ⟨bus, service, rfl⟩ := followCases next
    exact .inl mem
  | _ => cases next; exact .inl mem

theorem stepEndings {a : BrokerAction} (next : b.step a = some c) {e : ResolveEnding}
    (mem : e ∈ c.endings) :
    e ∈ b.endings ∨ (∃ failure, e.result = .error failure) ∨
      ∃ p draw s, a = .proceedResolve e.call draw ∧ b.pursuit? e.call = some p ∧
        Pursuit.Taken p b.directory.registry b.directory.now draw b.shared (.ended e.result) s := by
  cases a with
  | directory action =>
    obtain ⟨d, _, same⟩ := Option.bind_eq_some_iff.mp next
    cases same
    exact .inl mem
  | beginResolve service options jitter =>
    cases next
    simp only [beginResolve] at mem
    split at mem
    · rcases List.mem_cons.mp mem with rfl | old
      · exact .inr (.inl ⟨_, rfl⟩)
      · exact .inl old
    · exact .inl mem
  | proceedResolve id draw =>
    obtain ⟨p, s, found, ⟨p', taken, rfl⟩ | ⟨result, taken, rfl⟩⟩ := proceedCases next
    · exact .inl mem
    · rcases List.mem_cons.mp mem with rfl | old
      · exact .inr (.inr ⟨p, draw, s, rfl, found, taken⟩)
      · exact .inl old
  | followNext watcher =>
    obtain ⟨bus, service, rfl⟩ := followCases next
    exact .inl mem
  | _ => cases next; exact .inl mem

theorem stepTable {a : BrokerAction} (next : b.step a = some c) :
    (∃ s, a = .addStrategy s ∧ c.balancer.strategies = b.balancer.strategies.put s.name s) ∨
      ((∀ s, a ≠ .addStrategy s) ∧ c.balancer.strategies = b.balancer.strategies) := by
  cases a with
  | directory action =>
    obtain ⟨d, _, same⟩ := Option.bind_eq_some_iff.mp next
    cases same
    exact .inr ⟨nofun, rfl⟩
  | beginResolve service options jitter =>
    obtain ⟨pursuits, endings, rfl⟩ := beginAside next
    exact .inr ⟨nofun, rfl⟩
  | proceedResolve id draw =>
    obtain ⟨p, s, _, ⟨_, _, rfl⟩ | ⟨_, _, rfl⟩⟩ := proceedCases next
    · exact .inr ⟨nofun, rfl⟩
    · exact .inr ⟨nofun, rfl⟩
  | addStrategy s =>
    cases next
    exact .inl ⟨s, rfl, rfl⟩
  | followNext watcher =>
    obtain ⟨bus, service, rfl⟩ := followCases next
    exact .inr ⟨nofun, rfl⟩
  | _ => cases next; exact .inr ⟨nofun, rfl⟩

end Broker
end ServiceDirectory
