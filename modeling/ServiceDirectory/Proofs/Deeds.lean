import ServiceDirectory.Proofs.Custody

/-! What one action makes of the whole directory, each way once: not the records alone, but the calls
and what they answer, the check loops, the store and the watchers too. -/
namespace ServiceDirectory
open Health (CheckLoop Outcome Report)

namespace Directory

inductive Refuses (d : Directory) : Request → Failure → Prop where
  | objected {i : Instance} {failure : Failure} (why : Registry.objection? i = some failure) :
      Refuses d (.register i) failure
  | shut {i : Instance} (fine : Registry.objection? i = none) (cancelled : d.cancelled = true) :
      Refuses d (.register i) shutDown
  | unknown {id : String}
      (gone : d.registry.records.get? id = none ∨ id ∈ d.registry.inFlight) :
      Refuses d (.deregister id) (Registry.notFound id)
  | unheard {id : String} (gone : d.registry.records.get? id = none) :
      Refuses d (.heartbeat id) (Registry.notFound id)
  | started (already : d.started = true) : Refuses d .start alreadyStarted

inductive Opens (d : Directory) : Request → Call → Prop where
  | register {i : Instance} (fine : Registry.objection? i = none) (runs : d.cancelled = false) :
      Opens d (.register i) (.admitting i)
  | sweep : Opens d .sweep (.collecting d.clock)
  | bootstrap : Opens d .bootstrap .listing

inductive Deed (d : Directory) : Action → Directory → Prop where
  | refused {request : Request} {failure : Failure} (why : d.Refuses request failure) :
      Deed d (.begin request) (d.answer (.error failure))
  | heard {id : String} (live : d.registry.records.holds id = true) :
      Deed d (.begin (.heartbeat id))
        ({ d with registry := d.registry.touch id d.clock }.answer (.ok .done))
  | broke (first : d.started = false) (never : d.settings.sweepInterval = 0) :
      Deed d (.begin .start)
        ({ d with started := true, applier := .running }.answer (.ok .broken))
  | opened {request : Request} {c : Call} (opens : d.Opens request c) :
      Deed d (.begin request) (d.open_ c)
  | removing {id : String} {x : Record} (live : d.registry.records.get? id = some x)
      (unparked : id ∉ d.registry.inFlight) :
      Deed d (.begin (.deregister id))
        (({ d with registry := { d.registry.park id with
                    supervised := d.registry.supervised.remove id } }.cancelLoops
          (d.registry.supervised.get? id).toList).open_
          (.quieting id (d.registry.supervised.get? id)))
  | starting (first : d.started = false) :
      Deed d (.begin .start)
        ({ d with started := true, applier := .running, sweeper := .resting d.now,
                  unattended := true }.open_ .launching)
  | closing : Deed d (.begin .shutdown) ({ d with cancelled := true }.open_ .draining)
  | ticked {due next : Nat} (resting : d.sweeper = .resting due) (runs : d.cancelled = false) :
      Deed d .sweepTick
        ({ d with sweeper := .sweeping d.nextCall next }.open_ (.collecting d.clock))
  | turnedAway {k : CallId} {i : Instance} (found : d.call? k = some (.admitting i))
      (busy : d.registry.busy i.id = true) :
      Deed d (.proceed k) (d.finish k (.error (Registry.alreadyRegistered i.id)))
  | reserved {k : CallId} {i : Instance} (found : d.call? k = some (.admitting i))
      (free : d.registry.busy i.id = false) :
      Deed d (.proceed k) ({ d with registry := d.registry.park i.id }.moveTo k
        (.saving (Registry.stamped i d.clock)))
  | entered {k : CallId} {i : Instance} (found : d.call? k = some (.entering i))
      (free : d.order = none) : Deed d (.proceed k) (d.enter k i)
  | quieted {k : CallId} {id : String} {loop : Option Nat}
      (found : d.call? k = some (.quieting id loop))
      (still : ∀ epoch ∈ loop, d.loopRuns epoch = false) :
      Deed d (.proceed k) (d.moveTo k (.deleting id))
  | left {k : CallId} {id : String} {x : Record} (found : d.call? k = some (.leaving id))
      (live : d.registry.records.get? id = some x) (free : d.order = none) :
      Deed d (.proceed k) ({ d with registry := (d.registry.finishRemoval id).1 }.announce k
        [.plain .deregistered x.snapshot] (.instance x.snapshot))
  | missed {k : CallId} {id : String} (found : d.call? k = some (.leaving id))
      (gone : d.registry.records.get? id = none) (free : d.order = none) :
      Deed d (.proceed k) ({ d with registry := d.registry.release id }.finish k
        (.error (Registry.notFound id)))
  | foundNone {k : CallId} {at_ : Timestamp} {s : Registry}
      (found : d.call? k = some (.collecting at_))
      (expires : d.registry.expire d.settings.heartbeatTimeout at_ = (s, [])) :
      Deed d (.proceed k)
        (({ d with registry := s }.cancelLoops []).finish k (.ok (.count 0)))
  | collected {k : CallId} {at_ : Timestamp} {s : Registry} {took : List Expiry} {i : Instance}
      {rest : List Instance} (found : d.call? k = some (.collecting at_))
      (expires : d.registry.expire d.settings.heartbeatTimeout at_ = (s, took))
      (takes : took.map (·.snapshot) = i :: rest) :
      Deed d (.proceed k)
        (({ d with registry := s }.cancelLoops (took.filterMap Expiry.loop)).moveTo k
          (.hushing (took.filterMap Expiry.loop) ⟨i, rest, rest.length + 1⟩))
  | hushed {k : CallId} {loops : List Nat} {round : Round}
      (found : d.call? k = some (.hushing loops round))
      (still : ∀ epoch ∈ loops, d.loopRuns epoch = false) :
      Deed d (.proceed k) (d.moveTo k (.purging round))
  | releasing {k : CallId} {round : Round} (found : d.call? k = some (.releasing round))
      (free : d.order = none) : Deed d (.proceed k) (d.releaseExpired k round)
  | expiredLast {k : CallId} {round : Round} (found : d.call? k = some (.expiring round))
      (last : round.rest = []) :
      Deed d (.proceed k)
        ({ d.publish (.plain .expired round.current d.clock) with order := none }.finish k
          (.ok (.count round.total)))
  | expired {k : CallId} {round : Round} {i : Instance} {rest : List Instance}
      (found : d.call? k = some (.expiring round)) (more : round.rest = i :: rest) :
      Deed d (.proceed k)
        ({ d.publish (.plain .expired round.current d.clock) with order := none }.moveTo k
          (.purging { round with current := i, rest }))
  | loaded {k : CallId} {stored : List Instance} {at_ : Timestamp}
      (found : d.call? k = some (.loading stored at_)) (free : d.order = none) :
      Deed d (.proceed k) (d.load k stored at_)
  | told {k : CallId} {n : Notice} {rest : List Notice} {answer : Answer}
      (found : d.call? k = some (.announcing (n :: rest) answer)) :
      Deed d (.proceed k) ((d.publish (n.event d.clock)).moveTo k (.announcing rest answer))
  | silent {k : CallId} {answer : Answer} (found : d.call? k = some (.announcing [] answer)) :
      Deed d (.proceed k) ({ d with order := none }.finish k (.ok answer))
  | launched {k : CallId} (found : d.call? k = some .launching) (free : d.order = none) :
      Deed d (.proceed k) (d.launch k)
  | drained {k : CallId} (found : d.call? k = some .draining) : Deed d (.proceed k) (d.drain k)
  | stilled {k : CallId} {loops : List Nat} (found : d.call? k = some (.stilling loops))
      (still : ∀ epoch ∈ loops, d.loopRuns epoch = false) : Deed d (.proceed k) (d.attend k)
  | joined {k : CallId} {waits : Bool} (found : d.call? k = some (.joining waits)) :
      Deed d (.proceed k) (d.finish k (.ok .done))
  | saved {k : CallId} {i : Instance} (found : d.call? k = some (.saving i)) :
      Deed d (.settle k none) ({ d with store := d.store.put i.id i }.moveTo k (.entering i))
  | unsaved {k : CallId} {i : Instance} {failure : Failure}
      (found : d.call? k = some (.saving i)) :
      Deed d (.settle k (some failure))
        ({ d with registry := d.registry.release i.id }.finish k (.error failure))
  | deleted {k : CallId} {id : String} {failure : Option Failure} {store : Table Instance}
      (found : d.call? k = some (.deleting id))
      (stores : store = if failure.isNone then d.store.remove id else d.store) :
      Deed d (.settle k failure) ({ d with store }.moveTo k (.leaving id))
  | purged {k : CallId} {round : Round} {failure : Option Failure} {store : Table Instance}
      (found : d.call? k = some (.purging round))
      (stores : store = if failure.isNone then d.store.remove round.current.id else d.store) :
      Deed d (.settle k failure) ({ d with store }.moveTo k (.releasing round))
  | listed {k : CallId} (found : d.call? k = some .listing) :
      Deed d (.settle k none) (d.moveTo k (.loading d.storeList d.clock))
  | unlisted {k : CallId} {failure : Failure} (found : d.call? k = some .listing) :
      Deed d (.settle k (some failure)) (d.finish k (.error failure))
  | given {k : CallId} {stored : List Instance} (found : d.call? k = some .listing) :
      Deed d (.listed k stored) (d.moveTo k (.loading stored d.clock))
  | dropped {k : CallId} {c : Call} (found : d.call? k = some c)
      (abandonable : c.abandonable = true) :
      Deed d (.abandon k)
        { d with registry := c.guarded?.elim d.registry d.registry.release,
                 calls := d.calls.filter (·.1 != k) }
  | passed {a : Action} {reports : List Report} {id : String} {epoch : Nat} {at_ : Timestamp}
      (ofReport : a = .applyNext ∨ ∃ report, a = .applyDirect report) :
      Deed d a { d with reports, registry := d.registry.passed id epoch at_ }
  | ignored {a : Action} {reports : List Report}
      (ofReport : a = .applyNext ∨ ∃ report, a = .applyDirect report) :
      Deed d a { d with reports }
  | moved {a : Action} {reports : List Report} {id : String} {x : Record} {i : Instance}
      (ofReport : a = .applyNext ∨ ∃ report, a = .applyDirect report)
      (live : d.registry.records.get? id = some x) (unparked : id ∉ d.registry.inFlight)
      (differs : i.status ≠ x.snapshot.status) (later : x.snapshot.Continues i)
      (free : d.order = none) :
      Deed d a
        ({ d with reports, order := some d.nextCall,
                  registry := { d.registry with
                    records := d.registry.records.put id ⟨i, x.epoch⟩ }.bump i.name }.open_
          (.announcing [.stamped (.statusChange i x.snapshot.status d.clock)] .done))
  | applierEnded : Deed d .endApplier { d with applier := .ended }
  | sweeperTurned {sweeper : Sweeper} : Deed d .endSweeper { d with sweeper }
  | probing {epoch : Nat} {outcome : Outcome} {l : RunningLoop} {check : CheckLoop}
      (found : d.loop? epoch = some l) (runs : d.stopped l = false)
      (begun : l.check.beginProbe d.settings.loop outcome d.now = some check) :
      Deed d (.beginProbe epoch outcome) (d.putLoop { l with check })
  | probed {epoch : Nat} {l : RunningLoop} {check : CheckLoop} {reports : List Report}
      (found : d.loop? epoch = some l) (runs : d.stopped l = false)
      (ended : l.check.endProbe d.settings.loop d.now d.clock = some (check, reports)) :
      Deed d (.endProbe epoch)
        { d.putLoop { l with check } with reports := d.reports ++ reports }
  | ceased {epoch : Nat} {l : RunningLoop} (found : d.loop? epoch = some l)
      (ends : d.stopped l = true ∨ d.settings.loop.interval = 0) :
      Deed d (.endLoop epoch) (d.dropLoop epoch)
  | watched (service : Option String) :
      Deed d (.watch service) { d with bus := (d.bus.subscribe service).1 }
  | taken (watcher : Nat) : Deed d (.takeEvent watcher) { d with bus := (d.bus.take watcher).2 }
  | closed (watcher : Nat) :
      Deed d (.closeWatcher watcher) { d with bus := d.bus.close watcher }
  | stocked (i : Instance) : Deed d (.storeDirect i) { d with store := d.store.put i.id i }
  | reordered {records : Table Record} (perm : records.Perm d.registry.records) :
      Deed d (.reorder records) { d with registry := { d.registry with records } }
  | waited (ms : Nat) : Deed d (.pass ms) { d with now := d.now + ms }
  | set (nanos : Int) : Deed d (.setClock nanos) { d with skew := d.skew + nanos }

variable {d e : Directory} {k : CallId}

theorem beginDeed (d : Directory) (request : Request) : Deed d (.begin request) (d.begin request) := by
  cases request with
  | register i =>
    simp only [begin, beginRegister]
    split
    · rename_i failure why
      exact .refused (.objected why)
    · rename_i fine
      split
      · rename_i cancelled
        exact .refused (.shut fine cancelled)
      · rename_i runs
        exact .opened (.register fine (by simpa using runs))
  | deregister id =>
    simp only [begin, beginDeregister, Registry.beginRemoval]
    cases live : d.registry.records.get? id with
    | none =>
      have away : d.registry.records.holds id = false := (Table.absentIff _ _).mpr live
      simp only [away, Bool.not_false, Bool.true_or, if_true]
      exact .refused (.unknown (.inl live))
    | some x =>
      have here : d.registry.records.holds id = true := by simp [Table.holdsIff, live]
      by_cases parked : id ∈ d.registry.inFlight
      · simp only [here, List.contains_iff_mem.mpr parked, Bool.or_true, if_true]
        exact .refused (.unknown (.inr parked))
      · have away : d.registry.inFlight.contains id = false := by simpa using parked
        simp only [here, away, Bool.not_true, Bool.or_self, Bool.false_eq_true, if_false]
        exact .removing live parked
  | heartbeat id =>
    simp only [begin, beginHeartbeat, Registry.heartbeat]
    cases live : d.registry.records.holds id with
    | true => exact .heard live
    | false => exact .refused (.unheard ((Table.absentIff _ _).mp live))
  | sweep => exact .opened .sweep
  | bootstrap => exact .opened .bootstrap
  | start =>
    simp only [begin, beginStart]
    cases first : d.started with
    | true => exact .refused (.started first)
    | false =>
      simp only [Bool.false_eq_true, if_false]
      split
      · rename_i never
        exact .broke first (by simpa using never)
      · exact .starting first
  | shutdown => exact .closing

theorem collectDeed {at_ : Timestamp} (found : d.call? k = some (.collecting at_)) :
    Deed d (.proceed k) (d.collect k at_) := by
  simp only [collect]
  rcases expires : d.registry.expire d.settings.heartbeatTimeout at_ with ⟨s, took⟩
  cases took with
  | nil => exact .foundNone found expires
  | cons x rest => exact .collected found expires rfl

theorem proceedDeed {c : Call} (found : d.call? k = some c) (next : d.proceedWith k c = some e) :
    Deed d (.proceed k) e := by
  cases c with
  | admitting i =>
    cases next
    simp only [reserve, Registry.reserve]
    cases busy : d.registry.busy i.id with
    | true => exact .turnedAway found busy
    | false => exact .reserved found busy
  | entering i =>
    obtain ⟨free, rfl⟩ : d.order.isNone = true ∧ d.enter k i = e := by
      simpa [proceedWith] using next
    exact .entered found (by simpa using free)
  | quieting id loop =>
    obtain ⟨still, rfl⟩ : _ ∧ d.moveTo k (.deleting id) = e := by simpa [proceedWith] using next
    exact .quieted found (by simpa using still)
  | leaving id =>
    obtain ⟨free, rfl⟩ : d.order.isNone = true ∧ d.leave k id = e := by
      simpa [proceedWith] using next
    cases live : d.registry.records.get? id with
    | none =>
      have out : d.registry.finishRemoval id = (d.registry.release id, none) := by
        simp [Registry.finishRemoval, Registry.release, live]
      simp only [leave, out]
      exact .missed found live (by simpa using free)
    | some x =>
      have out : d.registry.finishRemoval id =
          ((d.registry.finishRemoval id).1, some x.snapshot) := by
        simp [Registry.finishRemoval, Registry.release, live]
      rw [leave, out]
      exact .left found live (by simpa using free)
  | collecting at_ => cases next; exact collectDeed found
  | hushing loops round =>
    obtain ⟨still, rfl⟩ : _ ∧ d.moveTo k (.purging round) = e := by simpa [proceedWith] using next
    exact .hushed found (by simpa using still)
  | releasing round =>
    obtain ⟨free, rfl⟩ : d.order.isNone = true ∧ d.releaseExpired k round = e := by
      simpa [proceedWith] using next
    exact .releasing found (by simpa using free)
  | expiring round =>
    cases next
    simp only [publishExpired]
    split
    · rename_i last
      exact .expiredLast found last
    · rename_i more
      exact .expired found more
  | loading stored at_ =>
    obtain ⟨free, rfl⟩ : d.order.isNone = true ∧ d.load k stored at_ = e := by
      simpa [proceedWith] using next
    exact .loaded found (by simpa using free)
  | announcing notices answer =>
    cases next
    cases notices with
    | nil => exact .silent found
    | cons n rest => exact .told found
  | launching =>
    obtain ⟨free, rfl⟩ : d.order.isNone = true ∧ d.launch k = e := by
      simpa [proceedWith] using next
    exact .launched found (by simpa using free)
  | draining => cases next; exact .drained found
  | stilling loops =>
    obtain ⟨still, rfl⟩ : _ ∧ d.attend k = e := by simpa [proceedWith] using next
    exact .stilled found (by simpa using still)
  | joining waits =>
    obtain ⟨_, rfl⟩ : _ ∧ d.finish k (.ok .done) = e := by simpa [proceedWith] using next
    exact .joined found
  | _ => cases next

theorem settleDeed {failure : Option Failure} (next : d.settle k failure = some e) :
    Deed d (.settle k failure) e := by
  obtain ⟨c, found, next⟩ := Option.bind_eq_some_iff.mp next
  obtain ⟨work, asked, next⟩ := Option.bind_eq_some_iff.mp next
  cases c with
  | saving i => cases asked; cases failure <;> cases next; exacts [.saved found, .unsaved found]
  | deleting id => cases asked; cases failure <;> cases next <;> exact .deleted found rfl
  | purging round => cases asked; cases failure <;> cases next <;> exact .purged found rfl
  | listing => cases asked; cases failure <;> cases next; exacts [.listed found, .unlisted found]
  | _ => cases asked

theorem abandonDeed (next : d.abandon k = some e) : Deed d (.abandon k) e := by
  obtain ⟨c, found, next⟩ := Option.bind_eq_some_iff.mp next
  split at next
  · rename_i abandonable
    cases next
    cases guarded : c.guarded? with
    | none => simpa [guarded] using Deed.dropped found abandonable
    | some id => simpa [guarded] using Deed.dropped found abandonable
  · cases next

theorem reportDeed {a : Action} {report : Report} (reports : List Report)
    (ofReport : a = .applyNext ∨ ∃ report, a = .applyDirect report)
    (next : { d with reports }.applyReport report = some e) : Deed d a e := by
  unfold applyReport at next
  split at next
  · cases next; exact .passed ofReport
  · split at next
    · cases next
    rename_i free
    split at next
    · rename_i registry silent
      cases next
      obtain rfl := Registry.transitionIgnored silent
      exact .ignored (d := d) ofReport
    · rename_i registry event told
      cases next
      obtain ⟨x, i, live, unparked, differs, later, rfl, rfl⟩ := Registry.transitionMoves told
      exact .moved (d := d) ofReport live unparked differs later (by simpa using free)

theorem backgroundDeed {a : Action} (next : d.step a = some e)
    (background : a = .endApplier ∨ a = .sweepTick ∨ a = .endSweeper) : Deed d a e := by
  rcases background with rfl | rfl | rfl
  · simp only [step, endApplier] at next
    split at next
    · cases next; exact .applierEnded
    · cases next
  · simp only [step, sweepTick] at next
    split at next
    · rename_i due resting
      split at next
      · rename_i runs
        cases next
        exact .ticked resting (by simp_all)
      · cases next
    · cases next
  · simp only [step, endSweeper] at next
    split at next
    · split at next
      · cases next; exact .sweeperTurned
      · cases next
    · split at next
      · cases next; exact .sweeperTurned
      · cases next
    · cases next

theorem loopDeed {a : Action} (next : d.step a = some e)
    (ofLoop : (∃ epoch o, a = .beginProbe epoch o) ∨ (∃ epoch, a = .endProbe epoch) ∨
      ∃ epoch, a = .endLoop epoch) : Deed d a e := by
  rcases ofLoop with ⟨epoch, o, rfl⟩ | ⟨epoch, rfl⟩ | ⟨epoch, rfl⟩ <;>
    obtain ⟨l, found, next⟩ := Option.bind_eq_some_iff.mp next <;>
    split at next
  · cases next
  · rename_i runs
    obtain ⟨check, begun, next⟩ := Option.bind_eq_some_iff.mp next
    cases next
    exact .probing found (by simpa using runs) begun
  · cases next
  · rename_i runs
    obtain ⟨⟨check, reports⟩, ended, next⟩ := Option.bind_eq_some_iff.mp next
    cases next
    exact .probed found (by simpa using runs) ended
  · rename_i ends
    cases next
    exact .ceased found (by simpa using ends)
  · cases next

theorem stepDeed {a : Action} (next : d.step a = some e) : Deed d a e := by
  cases a with
  | begin request => cases next; exact beginDeed d request
  | proceed k =>
    obtain ⟨c, found, next⟩ := Option.bind_eq_some_iff.mp next
    exact proceedDeed found next
  | settle k failure => exact settleDeed next
  | abandon k => exact abandonDeed next
  | applyNext =>
    simp only [step, applyNext] at next
    split at next
    · cases next
    · split at next
      · exact reportDeed _ (.inl rfl) next
      · cases next
  | applyDirect report => exact reportDeed d.reports (.inr ⟨report, rfl⟩) next
  | endApplier => exact backgroundDeed next (.inl rfl)
  | sweepTick => exact backgroundDeed next (.inr (.inl rfl))
  | endSweeper => exact backgroundDeed next (.inr (.inr rfl))
  | beginProbe epoch o => exact loopDeed next (.inl ⟨epoch, o, rfl⟩)
  | endProbe epoch => exact loopDeed next (.inr (.inl ⟨epoch, rfl⟩))
  | endLoop epoch => exact loopDeed next (.inr (.inr ⟨epoch, rfl⟩))
  | watch service => cases next; exact .watched service
  | takeEvent watcher => cases next; exact .taken watcher
  | closeWatcher watcher => cases next; exact .closed watcher
  | storeDirect i => cases next; exact .stocked i
  | listed k stored =>
    simp only [step, answerListing] at next
    split at next
    · rename_i found
      cases next
      exact .given found
    · cases next
  | reorder records =>
    simp only [step, reorder] at next
    split at next
    · rename_i perm
      cases next
      exact .reordered (List.isPerm_iff.mp perm)
    · cases next
  | pass ms => cases next; exact .waited ms
  | setClock nanos => cases next; exact .set nanos

end Directory
end ServiceDirectory
