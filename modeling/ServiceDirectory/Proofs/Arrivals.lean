import ServiceDirectory.Proofs.Engines
import ServiceDirectory.Proofs.Failures
import ServiceDirectory.Proofs.Particulars
import ServiceDirectory.Proofs.Waits

/-! A directory that is asked for one arrival after another, soon enough for no sweep to find
anybody stale: who is live stays, and who arrives takes the id unless it is taken. -/
namespace ServiceDirectory

namespace Call

def gentle : Call → Bool
  | .collecting _ => true
  | .announcing _ _ => true
  | .launching => true
  | _ => false

theorem gentleParks {c : Call} (gentle : c.gentle = true) : c.parks = [] := by
  cases c <;> first | rfl | cases gentle

def brings? : Call → Option Timestamp
  | .saving i => some i.lastHeartbeat
  | .entering i => some i.lastHeartbeat
  | .loading _ at_ => some at_
  | _ => none

end Call

namespace Directory
variable {d e : Directory} {a : Action} {j k : CallId} {c : Call} {since : Int}
  {front : Option CallId}

structure Standing (since : Int) (front : Option CallId) (d : Directory) : Prop where
  custody : d.Custody
  known : d.Known
  parked : d.Parked
  orderly : d.Orderly
  punctual : d.Punctual
  begun : since ≤ d.clock.nanos
  heard : ∀ id x, d.registry.records.get? id = some x → since ≤ x.snapshot.lastHeartbeat.nanos
  bringing : ∀ j c, d.call? j = some c → ∀ at_ ∈ c.brings?, since ≤ at_.nanos
  gentle : ∀ j c, d.call? j = some c → front ≠ some j → c.gentle = true
  spared : ∀ j c, d.call? j = some c → c.held = []
  tidings : d.Tidings
  unexpired : ∀ event ∈ d.log, event.kind ≠ .expired

def Soon (since : Int) (d : Directory) : Prop :=
  d.clock.nanos ≤ since + d.settings.heartbeatTimeout * Timestamp.perMilli

theorem withStoreStanding (settings : DirectorySettings) (store : Table Instance) :
    (withStore settings store).Standing (withStore settings store).clock.nanos none where
  custody := withStoreCustody settings store
  known := withStoreKnown settings store
  parked id mem := by cases mem
  orderly := withStoreOrderly settings store
  punctual k at_ found := by cases found
  begun := Int.le_refl _
  heard id x live := by cases live
  bringing j c found := by cases found
  gentle j c found := by cases found
  spared j c found := by cases found
  tidings j c found := by cases found
  unexpired event mem := by cases mem

namespace Standing

theorem unparked (h : d.Standing since front) (bare : ∀ k ∈ front, ∀ c, d.call? k = some c →
    c.parks = []) : d.registry.inFlight = [] := by
  refine List.eq_nil_iff_forall_not_mem.mpr fun id mem => ?_
  obtain ⟨x, there, parks⟩ := h.parked id mem
  have found := callOfMem h.custody.lined there
  by_cases own : front = some x.1
  · rw [bare x.1 own x.2 found] at parks
    cases parks
  · rw [Call.gentleParks (h.gentle x.1 x.2 found own)] at parks
    cases parks

theorem collectsNobody (h : d.Standing since front) (soon : d.Soon since) {at_ : Timestamp}
    (found : d.call? j = some (.collecting at_)) :
    d.registry.expire d.settings.heartbeatTimeout at_ = (d.registry, []) := by
  have none : d.registry.victims d.settings.heartbeatTimeout at_ = [] := by
    refine List.map_eq_nil_iff.mpr (List.filter_eq_nil_iff.mpr fun ⟨id, x⟩ mem => ?_)
    have heard := h.heard id x (Table.getOfMem h.custody.sound.distinct mem)
    have begun := h.punctual j at_ found
    have fresh : ¬(d.settings.heartbeatTimeout : Int) * Timestamp.perMilli <
        at_.nanos - x.snapshot.lastHeartbeat.nanos := by
      rw [Soon] at soon
      omega
    simp [Registry.expired, Instance.stale, Timestamp.since, fresh]
  rw [Registry.expire, none]
  rfl

theorem collects (h : d.Standing since front) (soon : d.Soon since) {at_ : Timestamp}
    {after : Option Call} {result : Option (Except Failure Answer)} {told : List Event}
    (runs : Runs d a e k (some (.collecting at_)) after result told) (next : d.step a = some e) :
    after = none := by
  cases runs.course with
  | foundNone | dropped => rfl
  | collected =>
    have next := proceedsWith runs.was next
    simp only [proceedWith, collect, h.collectsNobody soon runs.was] at next
    cases next
    exact ((runs.calls k).trans (if_pos rfl)).symm.trans ((callLeft rfl k).trans (if_pos rfl))

theorem next {front' : Option CallId} (h : d.Standing since front) (soon : d.Soon since)
    (kept : a.abandons = false) (sets : ∀ nanos, a ≠ .setClock nanos)
    (handed : ∀ k stored, a ≠ .listed k stored) (next : d.step a = some e)
    (gentle : ∀ j c, e.call? j = some c → front' ≠ some j → c.gentle = true) :
    e.Standing since front' where
  custody := custodyStep h.custody next
  known := knownStep h.custody.lined h.known next
  parked := parkedStep h.custody h.parked kept next
  orderly := orderlyStep h.custody.lined h.orderly next
  punctual := punctualStep h.custody.lined h.punctual sets next
  begun := Int.le_trans h.begun (clockGrows sets next)
  heard id x live := by
    cases stepStems h.custody next live with
    | kept was => exact h.heard id x was
    | heard _ was is => exact is ▸ Int.le_trans (h.heard id _ was) (Instance.touchForward _ _)
    | reported _ was _ later => exact Int.le_trans (h.heard id _ was) later.2
    | @entered k i acts found own is =>
      subst is
      exact h.bringing k _ found _ rfl
    | @loaded k stored at_ i acts found listed named placed own late is =>
      rw [is]
      exact h.bringing k _ found _ rfl
  bringing := by
    obtain ⟨k, before, after, result, told, runs⟩ := stepRuns h.custody.lined next
    refine runs.each (fun j c _ found => h.bringing j c found) fun c is at_ brings => ?_
    subst is
    cases runs.course with
    | opened opens => cases opens <;> cases brings
    | reserved | listed =>
      cases brings
      exact h.begun
    | saved => exact h.bringing k _ runs.was _ brings
    | given => exact absurd rfl (handed _ _)
    | _ => cases brings
  gentle := gentle
  spared := by
    obtain ⟨k, before, after, result, told, runs⟩ := stepRuns h.custody.lined next
    refine runs.each (fun j c _ found => h.spared j c found) fun c is => ?_
    subst is
    cases runs.course with
    | opened opens => cases opens <;> rfl
    | collected => cases h.collects soon runs next
    | hushed | releasing | expired | purged => cases h.spared k _ runs.was
    | _ => rfl
  tidings := tidingsStep h.custody.lined h.tidings next
  unexpired event mem expired := by
    obtain ⟨k, before, after, result, told, runs⟩ := stepRuns h.custody.lined next
    rw [runs.log] at mem
    rcases List.mem_append.mp mem with old | new
    · exact h.unexpired event old expired
    · obtain ⟨round, found, _⟩ := expiryTold h.tidings runs new expired
      cases h.spared _ _ found

theorem gentleStep (h : d.Standing since front) (soon : d.Soon since) (own : a.own = true)
    (next : d.step a = some e) :
    ∀ j c, e.call? j = some c → front ≠ some j → c.gentle = true := by
  obtain ⟨k, before, after, result, told, runs⟩ := stepRuns h.custody.lined next
  intro j c found apart
  rw [runs.calls] at found
  split at found
  · rename_i turn
    subst turn found
    have was {c : Call} (is : before = some c) : c.gentle = true :=
      h.gentle j c (is ▸ runs.was) apart
    cases course : runs.course with
    | opened | removing | starting | closing => cases own
    | collected => cases h.collects soon runs next
    | _ => first | rfl | cases was rfl
  · exact h.gentle j c found apart

theorem rollKept (h : d.Standing since front) (soon : d.Soon since)
    (gentle : ∀ k, a = .proceed k → front ≠ some k) (next : d.step a = some e) :
    e.registry.roll = d.registry.roll := by
  have rough {k : CallId} {c : Call} (acts : a = .proceed k) (found : d.call? k = some c) :
      c.gentle = true := h.gentle k c found (gentle k acts)
  funext id
  simp only [Registry.roll, Registry.get?]
  cases was : d.registry.records.get? id with
  | some x =>
    rcases stepTenure h.custody next was with ⟨y, live, later⟩ | ousts
    · simp [live, later.particulars]
    · cases ousts with
      | removal acts found => cases rough acts found
      | @sweep k at_ acts found free stale =>
        have none := h.collectsNobody soon found
        rw [acts] at next
        have next := proceedsWith found next
        simp only [proceedWith, collect, none] at next
        cases next
        have live : d.registry.records.get? id = some x := was
        change ((d.registry.records.get? id).map (·.snapshot)).map _ = _
        rw [live]
  | none =>
    cases live : e.registry.records.get? id with
    | none => rfl
    | some y =>
      cases stepStems h.custody next live with
      | kept live => cases live.symm.trans was
      | heard _ live => cases live.symm.trans was
      | reported _ live => cases live.symm.trans was
      | entered acts found => cases rough acts found
      | loaded acts found => cases rough acts found

end Standing

end Directory

inductive Call.Early (taken : Roll) (listed : List Instance) : Request → Call → Prop where
  | admitting {i : Instance} : Early taken listed (.register i) (.admitting i)
  | saving {i j : Instance} (same : j.particulars = i.particulars) (free : taken i.id = none) :
      Early taken listed (.register i) (.saving j)
  | entering {i j : Instance} (same : j.particulars = i.particulars) (free : taken i.id = none) :
      Early taken listed (.register i) (.entering j)
  | listing : Early taken listed .bootstrap .listing
  | loading {at_ : Timestamp} : Early taken listed .bootstrap (.loading listed at_)
  | launching : Early taken listed .start .launching

def Request.arrives : Request → Bool
  | .register _ => true
  | .bootstrap => true
  | .start => true
  | _ => false

def Request.brings (taken : Roll) (listed : List Instance) : Request → Roll
  | .register i => taken.add i.particulars
  | .bootstrap =>
    ((listed.filter Instance.admissible).map Instance.particulars).foldl Roll.add taken
  | _ => taken

namespace Directory
variable {d e : Directory} {a : Action} {j k : CallId} {c : Call} {since : Int}
  {front : Option CallId} {taken : Roll} {listed : List Instance} {request : Request}

inductive Comes (taken : Roll) (listed : List Instance) (request : Request) (k : CallId)
    (d : Directory) : Prop where
  | early {c : Call} (found : d.call? k = some c) (stands : c.Early taken listed request)
      (store : c = .listing → d.storeList = listed) (unended : d.ending? k = none)
      (roll : d.registry.roll = taken)
  | telling {notices : List Notice} {answer : Answer}
      (found : d.call? k = some (.announcing notices answer)) (unended : d.ending? k = none)
      (roll : d.registry.roll = request.brings taken listed)
  | done {result : Except Failure Answer} (gone : d.call? k = none)
      (ended : d.ending? k = some result)
      (roll : (∀ e, result = .error e → e.kind = .alreadyExists) →
        d.registry.roll = request.brings taken listed)

theorem finishCall (d : Directory) (k : CallId) (result : Except Failure Answer) :
    (d.finish k result).call? k = none ∧ (d.finish k result).ending? k = some result :=
  ⟨(callLeft rfl k).trans (if_pos rfl), by simp [finish, ending?]⟩

theorem Comes.begun (h : d.Standing since front) (comes : d.Comes taken listed request k) :
    k < d.nextCall := by
  cases comes with
  | early found => exact h.custody.lined.recent _ (memOfCall found)
  | telling found => exact h.custody.lined.recent _ (memOfCall found)
  | done gone ended =>
    obtain ⟨g, mem, _⟩ := Option.map_eq_some_iff.mp ended
    have own : g.call = k := by simpa using List.find?_some mem
    exact own ▸ h.known.endings g (List.mem_of_find?_eq_some mem)

theorem rollNone {r : Registry} {id : String} (away : r.roll id = none) :
    r.records.get? id = none := by
  simpa [Registry.roll, Registry.get?] using away

section Own
variable (h : d.Standing since (some k))
include h

theorem earlyProceeds (found : d.call? k = some c) (stands : c.Early taken listed request)
    (unended : d.ending? k = none) (roll : d.registry.roll = taken)
    (next : d.proceedWith k c = some e) : e.Comes taken listed request k := by
  have unparked (bare : c.parks = []) : d.registry.inFlight = [] :=
    h.unparked fun j own c' is => by
      cases own
      cases found.symm.trans is
      exact bare
  cases stands with
  | @admitting i =>
    cases next
    have busyIff : d.registry.busy i.id = true ↔ taken i.id ≠ none := by
      simp [← roll, Registry.busy, unparked rfl, Registry.roll, Registry.get?, Table.holdsIff,
        Option.isSome_iff_ne_none]
    simp only [reserve, Registry.reserve]
    cases busy : d.registry.busy i.id with
    | true =>
      obtain ⟨gone, ended⟩ := finishCall d k (.error (Registry.alreadyRegistered i.id))
      refine .done gone ended fun _ => roll.trans (Roll.addTaken (busyIff.mp busy)).symm
    | false =>
      have free : taken i.id = none := by simpa [busy] using busyIff
      exact .early ((callMoved found rfl k).trans (if_pos rfl)) (.saving rfl free)
        (fun is => by cases is) unended roll
  | saving => cases next
  | @entering i j same free =>
    obtain ⟨_, rfl⟩ : d.order.isNone = true ∧ d.enter k j = e := by
      simpa [proceedWith] using next
    have own : j.id = i.id := congrArg Particulars.id same
    have vacant : (d.registry.release j.id).records.get? j.id = none :=
      rollNone (r := d.registry) ((congrFun roll j.id).trans (own ▸ free))
    refine .telling ((callMoved found rfl k).trans (if_pos rfl)) unended ?_
    refine (Registry.rollEnter vacant).trans ?_
    rw [same, ← roll]
    rfl
  | listing => cases next
  | @loading at_ =>
    obtain ⟨_, rfl⟩ : d.order.isNone = true ∧ d.load k listed at_ = e := by
      simpa [proceedWith] using next
    refine .telling ((callMoved found rfl k).trans (if_pos rfl)) unended ?_
    refine (Registry.rollLoad (unparked rfl) at_ listed).trans ?_
    rw [roll]
    rfl
  | launching =>
    obtain ⟨_, rfl⟩ : d.order.isNone = true ∧ d.launch k = e := by
      simpa [proceedWith] using next
    obtain ⟨gone, ended⟩ := finishCall ({ d with registry := d.registry.run.1 }.startLoops
      d.registry.run.2) k (.ok .done)
    exact .done gone ended fun _ => roll

omit h in
theorem earlySettles {failure : Option Failure} (kind : failure.all (·.kind == .store) = true)
    (found : d.call? k = some c) (stands : c.Early taken listed request)
    (store : c = .listing → d.storeList = listed) (unended : d.ending? k = none)
    (roll : d.registry.roll = taken) (next : d.step (.settle k failure) = some e) :
    e.Comes taken listed request k := by
  have moved (c' : Call) (f : Directory) (calls : f.calls = (d.moveTo k c').calls) :
      f.call? k = some c' := (callMoved found calls k).trans (if_pos rfl)
  have failed {failure : Failure} (kind : (some failure).all (·.kind == .store) = true)
      (registry : Registry) : (finish { d with registry } k (.error failure)).Comes taken listed
        request k := by
    obtain ⟨gone, ended⟩ := finishCall { d with registry } k (.error failure)
    refine .done gone ended fun exists_ => ?_
    have store : failure.kind = .store := by simpa using kind
    cases store.symm.trans (exists_ failure rfl)
  cases stepDeed next with
  | @saved _ i found' =>
    cases found.symm.trans found'
    cases stands with
    | saving same free =>
      exact .early (moved (.entering i) _ rfl) (.entering same free) nofun unended roll
  | unsaved => exact failed kind _
  | deleted found' | purged found' =>
    cases found.symm.trans found'
    cases stands
  | listed found' =>
    cases found.symm.trans found'
    cases stands
    rw [store rfl]
    exact .early (moved _ _ rfl) .loading nofun unended roll
  | unlisted => exact failed kind d.registry
  | passed ofReport | ignored ofReport | moved ofReport =>
    rcases ofReport with same | ⟨_, same⟩ <;> cases same

theorem comesOwn (comes : d.Comes taken listed request k) (own : a.own = true)
    (turn : a.call? = some k) (next : d.step a = some e) : e.Comes taken listed request k := by
  cases comes with
  | early found stands store unended roll =>
    cases a with
    | proceed j =>
      cases turn
      exact earlyProceeds h found stands unended roll (proceedsWith found next)
    | settle j failure =>
      cases turn
      exact earlySettles own found stands store unended roll next
    | abandon | listed => cases own
    | _ => cases turn
  | @telling notices answer found unended roll =>
    cases a with
    | proceed j =>
      cases turn
      have next := proceedsWith found next
      cases notices with
      | nil =>
        cases next
        obtain ⟨gone, ended⟩ := finishCall { d with order := none } k (.ok answer)
        exact .done gone ended fun _ => roll
      | cons n rest =>
        cases next
        exact .telling ((callMoved found rfl k).trans (if_pos rfl)) unended roll
    | settle j failure =>
      cases turn
      obtain ⟨c, found', next⟩ := Option.bind_eq_some_iff.mp next
      cases found.symm.trans found'
      cases next
    | abandon | listed => cases own
    | _ => cases turn
  | done gone =>
    cases a with
    | proceed j =>
      cases turn
      obtain ⟨c, found, _⟩ := Option.bind_eq_some_iff.mp next
      cases gone.symm.trans found
    | settle j failure =>
      cases turn
      obtain ⟨c, found, _⟩ := Option.bind_eq_some_iff.mp next
      cases gone.symm.trans found
    | abandon | listed => cases own
    | _ => cases turn

end Own

theorem Standing.storeKept (h : d.Standing since front) (own : a.own = true)
    (turn : ∀ k ∈ front, a.call? ≠ some k) (next : d.step a = some e) : e.store = d.store := by
  have gentle {k : CallId} {c : Call} (acts : a.call? = some k) (found : d.call? k = some c) :
      c.gentle = true := h.gentle k c found fun own => turn k own acts
  cases stepDeed next with
  | saved found | deleted found | purged found => cases gentle rfl found
  | stocked => cases own
  | _ => rfl

theorem comesAside (h : d.Standing since (some k)) (soon : d.Soon since)
    (comes : d.Comes taken listed request k) (own : a.own = true) (turn : a.call? ≠ some k)
    (next : d.step a = some e) : e.Comes taken listed request k := by
  have begun := comes.begun h
  obtain ⟨j, before, after, result, told, runs⟩ := stepRuns h.custody.lined next
  have other : k ≠ j := by
    rintro rfl
    cases before with
    | none => exact Nat.lt_irrefl _ (runs.course.fresh rfl ▸ begun)
    | some c => exact turn (runs.course.about nofun)
  have call : e.call? k = d.call? k := (runs.calls k).trans (if_neg other)
  have ending : e.ending? k = d.ending? k := (runs.ending k).trans (if_neg other)
  have same : e.registry.roll = d.registry.roll :=
    h.rollKept soon (fun j acts own => turn (by rw [acts, own]; rfl)) next
  have store : e.storeList = d.storeList := by
    rw [storeList, h.storeKept own (fun j own => by cases own; exact turn) next, storeList]
  cases comes with
  | early found stands listing unended roll =>
    exact .early (call.trans found) stands (fun is => store.trans (listing is))
      (ending.trans unended) (same.trans roll)
  | telling found unended roll =>
    exact .telling (call.trans found) (ending.trans unended) (same.trans roll)
  | done gone ended roll =>
    exact .done (call.trans gone) (ending.trans ended) fun taken => same.trans (roll taken)

theorem objectionInvalid {i : Instance} {failure : Failure}
    (why : Registry.objection? i = some failure) : failure.kind = .invalid := by
  unfold Registry.objection? at why
  repeat' split at why
  all_goals cases why
  all_goals rfl

theorem soonAsked : (d.begin request).Soon since ↔ d.Soon since := by
  have settings : (d.begin request).settings = d.settings := stepSettings (a := .begin request) rfl
  rw [Soon, Soon, (beginTime d request).clock, settings]

theorem comesBegin (h : d.Standing since none) (soon : d.Soon since)
    (arrives : request.arrives = true) :
    (d.begin request).Standing since (some d.nextCall) ∧
      (d.begin request).Comes d.registry.roll d.storeList request d.nextCall := by
  have lined := h.custody.lined
  have next : d.step (.begin request) = some (d.begin request) := rfl
  constructor
  · refine h.next soon rfl (fun _ same => by cases same) (fun _ _ same => by cases same) next
      fun j c found apart => ?_
    obtain ⟨k, before, after, result, told, runs⟩ := stepRuns lined next
    rw [runs.calls] at found
    split at found
    · rename_i turn
      subst turn found
      cases before with
      | none => exact absurd (congrArg some (runs.course.fresh rfl).symm) apart
      | some c => cases runs.course.about (fun is => by cases is)
    · exact h.gentle j c found (fun is => by cases is)
  have answered (m : Directory) (calls : m.calls = d.calls) (result : Except Failure Answer)
      (endings : m.endings = ⟨d.nextCall, result⟩ :: d.endings) :
      m.call? d.nextCall = none ∧ m.ending? d.nextCall = some result :=
    ⟨by rw [call?, calls]; exact callNone lined, by simp [ending?, endings]⟩
  have opened (m : Directory) (c : Call) (calls : m.calls = d.calls ++ [(d.nextCall, c)])
      (endings : m.endings = d.endings) :
      m.call? d.nextCall = some c ∧ m.ending? d.nextCall = none := by
    refine ⟨(callOpened lined calls _).trans (if_pos rfl), ?_⟩
    rw [ending?, endings, ← ending?]
    exact h.known.unended
  have failed {failure : Failure} (kind : failure.kind ≠ .alreadyExists) :
      (d.answer (.error failure)).Comes d.registry.roll d.storeList request d.nextCall := by
    obtain ⟨gone, ended⟩ := answered (d.answer (.error failure)) rfl _ rfl
    exact .done gone ended fun exists_ => absurd (exists_ failure rfl) kind
  cases request with
  | register i =>
    simp only [begin, beginRegister]
    split
    · rename_i failure why
      exact failed (by rw [objectionInvalid why]; decide)
    · split
      · exact failed (by decide)
      · obtain ⟨found, unended⟩ := opened (d.open_ (.admitting i)) (.admitting i) rfl rfl
        exact .early found .admitting (fun is => by cases is) unended rfl
  | bootstrap =>
    obtain ⟨found, unended⟩ := opened (d.open_ .listing) .listing rfl rfl
    exact .early found .listing (fun _ => rfl) unended rfl
  | start =>
    simp only [begin, beginStart]
    split
    · exact failed (by decide)
    · split
      · obtain ⟨gone, ended⟩ := answered
          ({ d with started := true, applier := .running }.answer (.ok .broken)) rfl _ rfl
        exact .done gone ended fun _ => rfl
      · obtain ⟨found, unended⟩ := opened
          (open_ { d with started := true, applier := .running, sweeper := .resting d.now,
                          unattended := true } .launching) .launching rfl rfl
        exact .early found .launching (fun is => by cases is) unended rfl
  | _ => cases arrives

theorem ownKeeps (own : a.own = true) : a.abandons = false ∧ (∀ nanos, a ≠ .setClock nanos) ∧
    ∀ k stored, a ≠ .listed k stored := by
  cases a <;> simp_all [Action.own, Action.abandons]

theorem Reaches.time {requests : Request → Prop} (h : Reaches requests d e) :
    e.settings = d.settings ∧ e.skew = d.skew ∧ d.now ≤ e.now := by
  refine h.keeps (P := fun m => m.settings = d.settings ∧ m.skew = d.skew ∧ d.now ≤ m.now)
    ⟨rfl, rfl, Nat.le_refl _⟩ fun {m n a} asked next ⟨settings, skew, le⟩ => ?_
  have sets : ∀ nanos, a ≠ .setClock nanos := by
    rcases asked with own | ⟨_, _, rfl⟩
    · exact (ownKeeps own).2.1
    · intro nanos same
      cases same
  refine ⟨(stepSettings next).trans settings, ?_⟩
  by_cases passes : ∃ ms, a = .pass ms
  · obtain ⟨ms, rfl⟩ := passes
    cases next
    exact ⟨skew, Nat.le_add_right_of_le le⟩
  · have same := stepTime (fun ms same => passes ⟨ms, same⟩) sets next
    exact ⟨same.skew.trans skew, same.now.symm ▸ le⟩

theorem Reaches.soon {requests : Request → Prop} (h : Reaches requests d e) (soon : e.Soon since) :
    d.Soon since := by
  obtain ⟨settings, skew, le⟩ := h.time
  simp only [Soon, clock, settings, skew, Timestamp.ofNanos, Timestamp.ofMillis,
    Timestamp.perMilli] at soon ⊢
  omega

theorem Reaches.soonIff {requests : Request → Prop} (h : Reaches requests d e) :
    e.Soon d.clock.nanos ↔ e.now ≤ d.now + d.settings.heartbeatTimeout := by
  obtain ⟨settings, skew, _⟩ := h.time
  simp only [Soon, clock, settings, skew, Timestamp.ofNanos, Timestamp.ofMillis,
    Timestamp.perMilli]
  omega

section Runs
variable {m : Directory} {actions : List Action} (all : ∀ a ∈ actions, a.own = true)
include all

theorem soonBefore (run : d.steps actions = some e) (soon : e.Soon since) : d.Soon since :=
  (Reaches.own all run : d.Reaches (fun _ => False) e).soon soon

theorem standingRun (h : d.Standing since none) (run : d.steps actions = some e)
    (soon : e.Soon since) : e.Standing since none ∧ e.registry.roll = d.registry.roll := by
  induction actions generalizing d with
  | nil => cases run; exact ⟨h, rfl⟩
  | cons a rest ih =>
    obtain ⟨m, one, others⟩ := Option.bind_eq_some_iff.mp run
    have own := all a List.mem_cons_self
    have before := soonBefore all run soon
    obtain ⟨kept, sets, handed⟩ := ownKeeps own
    obtain ⟨standing, roll⟩ := ih (fun a mem => all a (List.mem_cons_of_mem _ mem))
      (h.next before kept sets handed one (h.gentleStep before own one)) others
    exact ⟨standing, roll.trans (h.rollKept before nofun one)⟩

theorem comesRun (h : d.Standing since (some k)) (comes : d.Comes taken listed request k)
    (run : d.steps actions = some e) (soon : e.Soon since) :
    e.Standing since (some k) ∧ e.Comes taken listed request k := by
  induction actions generalizing d with
  | nil => cases run; exact ⟨h, comes⟩
  | cons a rest ih =>
    obtain ⟨m, one, others⟩ := Option.bind_eq_some_iff.mp run
    have own := all a List.mem_cons_self
    have before := soonBefore all run soon
    obtain ⟨kept, sets, handed⟩ := ownKeeps own
    refine ih (fun a mem => all a (List.mem_cons_of_mem _ mem))
      (h.next before kept sets handed one (h.gentleStep before own one)) ?_ others
    by_cases turn : a.call? = some k
    · exact comesOwn h comes own turn one
    · exact comesAside h before comes own turn one

end Runs

theorem Standing.ended (h : d.Standing since (some k)) (gone : d.call? k = none) :
    d.Standing since none :=
  { h with gentle := fun j c found _ => h.gentle j c found (by
      rintro ⟨⟩
      cases gone.symm.trans found) }

theorem arrived {m : Directory} {first rest : List Action} {result : Except Failure Answer}
    (h : d.Standing since none) (arrives : request.arrives = true)
    (own : ∀ a ∈ first ++ rest, a.own = true) (run : (d.begin request).steps first = some m)
    (ended : m.ending? d.nextCall = some result) (later : m.steps rest = some e)
    (soon : e.Soon since) : e.Standing since none ∧
      ((∀ failure, result = .error failure → failure.kind = .alreadyExists) →
        e.registry.roll = request.brings d.registry.roll d.storeList) := by
  have after := fun a mem => own a (List.mem_append_right _ mem)
  have before := fun a mem => own a (List.mem_append_left _ mem)
  have ending := soonBefore after later soon
  obtain ⟨begun, comes⟩ := comesBegin h (soonAsked.mp (soonBefore before run ending)) arrives
  obtain ⟨standing, comes⟩ := comesRun before begun comes run ending
  cases comes with
  | early _ _ _ unended => cases unended.symm.trans ended
  | telling _ unended => cases unended.symm.trans ended
  | done gone ended' roll =>
    cases ended'.symm.trans ended
    obtain ⟨still, kept⟩ := standingRun after (standing.ended gone) later soon
    exact ⟨still, fun well => kept.trans (roll well)⟩

end Directory
end ServiceDirectory
