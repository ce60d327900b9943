import ServiceDirectory.Proofs.InFlight

/-! The course of a call: how a step opens it, moves it on or ends it, what it answers and what is
told meanwhile. One call has its turn in a step, and the others stay where they are. -/
namespace ServiceDirectory

namespace Action

def asks : Action → Bool
  | .begin _ => true
  | .sweepTick => true
  | _ => false

def call? : Action → Option CallId
  | .proceed k => some k
  | .settle k _ => some k
  | .abandon k => some k
  | .listed k _ => some k
  | _ => none

end Action

def Stride.told (s : Stride) : List Event := s.after.log.drop s.before.log.length

namespace Directory
variable {d e : Directory} {a : Action} {k : CallId} {c c' : Call}

theorem callMoved (found : d.call? k = some c) (calls : e.calls = (d.moveTo k c').calls)
    (j : CallId) : e.call? j = if j = k then some c' else d.call? j := by
  rw [call?, calls, moveTo, findMapped, ← call?]
  by_cases own : j = k
  · subst own
    simp [found]
  · simp [own, Ne.symm own]

theorem callLeft (calls : e.calls = d.calls.filter (·.1 != k)) (j : CallId) :
    e.call? j = if j = k then none else d.call? j := by
  rw [call?, calls, findFiltered]
  by_cases own : k = j
  · simp [own]
  · simp [own, Ne.symm own, call?]

theorem callNone (lined : d.Lined) : d.call? d.nextCall = none := by
  rw [call?, List.find?_eq_none.mpr fun x mem => by simpa using Nat.ne_of_lt (lined.recent x mem)]
  rfl

theorem callOpened (lined : d.Lined) (calls : e.calls = d.calls ++ [(d.nextCall, c)]) (j : CallId) :
    e.call? j = if j = d.nextCall then some c else d.call? j := by
  rw [call?, calls, List.find?_append]
  split
  · rename_i own
    have none := callNone lined
    rw [call?, Option.map_eq_none_iff] at none
    simp [own, none]
  · rename_i other
    simp [call?, Ne.symm other]

inductive Course (d : Directory) :
    Action → CallId → Option Call → Option Call → Option (Except Failure Answer) → List Event →
      Prop where
  | aside {a : Action} (unasked : a.asks = false) (uncalled : a.call? = none) :
      Course d a d.nextCall none none none []
  | refused {request : Request} {failure : Failure} (why : d.Refuses request failure) :
      Course d (.begin request) d.nextCall none none (some (.error failure)) []
  | heard {id : String} :
      Course d (.begin (.heartbeat id)) d.nextCall none none (some (.ok .done)) []
  | broke (first : d.started = false) :
      Course d (.begin .start) d.nextCall none none (some (.ok .broken)) []
  | opened {request : Request} {c : Call} (opens : d.Opens request c) :
      Course d (.begin request) d.nextCall none (some c) none []
  | removing {id : String} {loop : Option Nat} :
      Course d (.begin (.deregister id)) d.nextCall none (some (.quieting id loop)) none []
  | starting (first : d.started = false) :
      Course d (.begin .start) d.nextCall none (some .launching) none []
  | closing : Course d (.begin .shutdown) d.nextCall none (some .draining) none []
  | ticked {due : Nat} (resting : d.sweeper = .resting due) (runs : d.cancelled = false) :
      Course d .sweepTick d.nextCall none (some (.collecting d.clock)) none []
  | moved {a : Action} {event : Event}
      (ofReport : a = .applyNext ∧ d.applier = .running ∧ d.cancelled = false ∨
        ∃ report, a = .applyDirect report)
      (changes : event.kind = .statusChanged) :
      Course d a d.nextCall none (some (.announcing [.stamped event] .done)) none []
  | turnedAway {k : CallId} {i : Instance} :
      Course d (.proceed k) k (some (.admitting i)) none
        (some (.error (Registry.alreadyRegistered i.id))) []
  | reserved {k : CallId} {i : Instance} (free : d.registry.busy i.id = false) :
      Course d (.proceed k) k (some (.admitting i))
        (some (.saving (Registry.stamped i d.clock))) none []
  | entered {k : CallId} {i : Instance} :
      Course d (.proceed k) k (some (.entering i))
        (some (.announcing [.plain .registered i] (.instance i))) none []
  | quieted {k : CallId} {id : String} {loop : Option Nat} :
      Course d (.proceed k) k (some (.quieting id loop)) (some (.deleting id)) none []
  | left {k : CallId} {id : String} {i : Instance} :
      Course d (.proceed k) k (some (.leaving id))
        (some (.announcing [.plain .deregistered i] (.instance i))) none []
  | missed {k : CallId} {id : String} (gone : d.registry.records.get? id = none) :
      Course d (.proceed k) k (some (.leaving id)) none (some (.error (Registry.notFound id))) []
  | foundNone {k : CallId} {at_ : Timestamp} :
      Course d (.proceed k) k (some (.collecting at_)) none (some (.ok (.count 0))) []
  | collected {k : CallId} {at_ : Timestamp} {loops : List Nat} {round : Round} :
      Course d (.proceed k) k (some (.collecting at_)) (some (.hushing loops round)) none []
  | hushed {k : CallId} {loops : List Nat} {round : Round} :
      Course d (.proceed k) k (some (.hushing loops round)) (some (.purging round)) none []
  | releasing {k : CallId} {round : Round} :
      Course d (.proceed k) k (some (.releasing round)) (some (.expiring round)) none []
  | expiredLast {k : CallId} {round : Round} :
      Course d (.proceed k) k (some (.expiring round)) none (some (.ok (.count round.total)))
        [.plain .expired round.current d.clock]
  | expired {k : CallId} {round : Round} {i : Instance} {rest : List Instance} :
      Course d (.proceed k) k (some (.expiring round))
        (some (.purging { round with current := i, rest })) none
        [.plain .expired round.current d.clock]
  | loaded {k : CallId} {stored came : List Instance} {at_ : Timestamp} {n : Nat} :
      Course d (.proceed k) k (some (.loading stored at_))
        (some (.announcing (came.map (.plain .registered)) (.count n))) none []
  | told {k : CallId} {n : Notice} {rest : List Notice} {answer : Answer} :
      Course d (.proceed k) k (some (.announcing (n :: rest) answer))
        (some (.announcing rest answer)) none [n.event d.clock]
  | silent {k : CallId} {answer : Answer} :
      Course d (.proceed k) k (some (.announcing [] answer)) none (some (.ok answer)) []
  | launched {k : CallId} :
      Course d (.proceed k) k (some .launching) none (some (.ok .done)) []
  | drained {k : CallId} {loops : List Nat} :
      Course d (.proceed k) k (some .draining) (some (.stilling loops)) none []
  | stilled {k : CallId} {loops : List Nat} :
      Course d (.proceed k) k (some (.stilling loops)) (some (.joining d.unattended)) none []
  | joined {k : CallId} {waits : Bool} (ceased : waits = true → d.backgroundOver = true) :
      Course d (.proceed k) k (some (.joining waits)) none (some (.ok .done)) []
  | saved {k : CallId} {i : Instance} :
      Course d (.settle k none) k (some (.saving i)) (some (.entering i)) none []
  | unsaved {k : CallId} {i : Instance} {failure : Failure} :
      Course d (.settle k (some failure)) k (some (.saving i)) none (some (.error failure)) []
  | deleted {k : CallId} {id : String} {failure : Option Failure} :
      Course d (.settle k failure) k (some (.deleting id)) (some (.leaving id)) none []
  | purged {k : CallId} {round : Round} {failure : Option Failure} :
      Course d (.settle k failure) k (some (.purging round)) (some (.releasing round)) none []
  | listed {k : CallId} :
      Course d (.settle k none) k (some .listing) (some (.loading d.storeList d.clock)) none []
  | unlisted {k : CallId} {failure : Failure} :
      Course d (.settle k (some failure)) k (some .listing) none (some (.error failure)) []
  | given {k : CallId} {stored : List Instance} :
      Course d (.listed k stored) k (some .listing) (some (.loading stored d.clock)) none []
  | dropped {k : CallId} {c : Call} (abandonable : c.abandonable = true) :
      Course d (.abandon k) k (some c) none none []

structure Runs (d : Directory) (a : Action) (e : Directory) (k : CallId)
    (before after : Option Call) (result : Option (Except Failure Answer)) (told : List Event) :
    Prop where
  course : Course d a k before after result told
  was : d.call? k = before
  calls : ∀ j, e.call? j = if j = k then after else d.call? j
  endings : e.endings = result.toList.map (⟨k, ·⟩) ++ d.endings
  log : e.log = d.log ++ told
  grows : d.nextCall ≤ e.nextCall
  known : before ≠ none ∨ after ≠ none ∨ result ≠ none → k < e.nextCall

variable {before after : Option Call} {result : Option (Except Failure Answer)} {told : List Event}

theorem Course.fresh (h : Course d a k before after result told) (none : before = none) :
    k = d.nextCall := by
  cases h <;> first | rfl | cases none

theorem Course.about (h : Course d a k before after result told) (was : before ≠ none) :
    a.call? = some k := by
  cases h <;> first | rfl | exact absurd rfl was

theorem Course.turn (h : Course d a k before after result told) {j : CallId}
    (about : a.call? = some j) : k = j := by
  cases h with
  | aside _ uncalled => rw [uncalled] at about; cases about
  | moved ofReport => rcases ofReport with ⟨rfl, _⟩ | ⟨report, rfl⟩ <;> cases about
  | _ => cases about <;> rfl

namespace Runs

theorem aside (lined : d.Lined) (course : Course d a d.nextCall none none result [])
    (calls : e.calls = d.calls) (endings : e.endings = result.toList.map (⟨d.nextCall, ·⟩) ++ d.endings)
    (log : e.log = d.log) (nextCall : e.nextCall = d.nextCall + if result.isSome then 1 else 0) :
    Runs d a e d.nextCall none none result [] where
  course := course
  was := callNone lined
  calls j := by
    split
    · rename_i own
      rw [call?, calls, own]
      exact callNone lined
    · rw [call?, calls, call?]
  endings := endings
  log := by rw [log, List.append_nil]
  grows := nextCall ▸ Nat.le_add_right _ _
  known acts := by
    have answers : result.isSome = true := Option.isSome_iff_ne_none.mpr (by simpa using acts)
    simp [nextCall, answers]

theorem opened (lined : d.Lined) (course : Course d a d.nextCall none (some c) none [])
    (calls : e.calls = d.calls ++ [(d.nextCall, c)]) (endings : e.endings = d.endings)
    (log : e.log = d.log) (nextCall : e.nextCall = d.nextCall + 1) :
    Runs d a e d.nextCall none (some c) none [] where
  course := course
  was := callNone lined
  calls := callOpened lined calls
  endings := endings
  log := by rw [log, List.append_nil]
  grows := nextCall ▸ Nat.le_succ _
  known _ := nextCall ▸ Nat.lt_succ_self _

theorem moved (lined : d.Lined) (found : d.call? k = some c)
    (course : Course d a k (some c) (some c') none told) (calls : e.calls = (d.moveTo k c').calls)
    (endings : e.endings = d.endings) (log : e.log = d.log ++ told)
    (nextCall : e.nextCall = d.nextCall) : Runs d a e k (some c) (some c') none told where
  course := course
  was := found
  calls := callMoved found calls
  endings := endings
  log := log
  grows := Nat.le_of_eq nextCall.symm
  known _ := nextCall ▸ lined.recent _ (memOfCall found)

theorem left (lined : d.Lined) (found : d.call? k = some c)
    (course : Course d a k (some c) none result told) (calls : e.calls = d.calls.filter (·.1 != k))
    (endings : e.endings = result.toList.map (⟨k, ·⟩) ++ d.endings) (log : e.log = d.log ++ told)
    (nextCall : e.nextCall = d.nextCall) : Runs d a e k (some c) none result told where
  course := course
  was := found
  calls := callLeft calls
  endings := endings
  log := log
  grows := Nat.le_of_eq nextCall.symm
  known _ := nextCall ▸ lined.recent _ (memOfCall found)

theorem each {P : CallId → Call → Prop} (h : Runs d a e k before after result told)
    (others : ∀ j c, j ≠ k → d.call? j = some c → P j c) (mine : ∀ c, after = some c → P k c) :
    ∀ j c, e.call? j = some c → P j c := by
  intro j c found
  rw [h.calls] at found
  split at found
  · rename_i own
    exact own ▸ mine c found
  · rename_i other
    exact others j c other found

theorem tells (h : Runs d a e k before after result told) : (⟨d, a, e⟩ : Stride).told = told := by
  simp [Stride.told, h.log]

theorem ending (h : Runs d a e k before after result told) (j : CallId) :
    e.ending? j = if j = k then result.or (d.ending? k) else d.ending? j := by
  rw [ending?, h.endings]
  cases result with
  | none =>
    split
    · rename_i own
      simp [own, ending?]
    · rfl
  | some result =>
    by_cases own : j = k
    · simp [own]
    · simp [own, Ne.symm own, ending?]

theorem answered (h : Runs d a e k before after result told)
    (known : ∀ j, d.ending? j ≠ none → j < d.nextCall) (j : CallId) (ends : e.ending? j ≠ none) :
    j < e.nextCall := by
  rw [h.ending] at ends
  split at ends
  · rename_i own
    subst own
    cases result with
    | none => exact Nat.lt_of_lt_of_le (known j (by simpa using ends)) h.grows
    | some result => exact h.known (.inr (.inr nofun))
  · exact Nat.lt_of_lt_of_le (known j ends) h.grows

end Runs

theorem proceedsWith (found : d.call? k = some c) (next : d.step (.proceed k) = some e) :
    d.proceedWith k c = some e := by
  have next : (d.call? k).bind (d.proceedWith k) = some e := next
  rwa [found, Option.bind_some] at next

theorem joinedOver {waits : Bool} (found : d.call? k = some (.joining waits))
    (next : d.step (.proceed k) = some e) : waits = true → d.backgroundOver = true := by
  rintro rfl
  have next := proceedsWith found next
  simp only [proceedWith, Bool.true_and] at next
  split at next
  · cases next
  · rename_i ceased
    simpa using ceased

theorem applyNextRuns (next : d.step .applyNext = some e) :
    d.applier = .running ∧ d.cancelled = false := by
  simp only [step, applyNext] at next
  split at next
  · cases next
  · split at next
    · rename_i runs
      simpa using runs
    · cases next

theorem endApplierIs (next : d.step .endApplier = some e) :
    (∀ x ∈ d.calls, x.2.reports = false) ∧ e = { d with applier := .ended } := by
  simp only [step, endApplier] at next
  split at next
  · rename_i ceased
    cases next
    exact ⟨by simpa using (Bool.and_eq_true_iff.mp ceased).2, rfl⟩
  · cases next

theorem endSweeperIs (next : d.step .endSweeper = some e) :
    (∃ k due, d.sweeper = .sweeping k due ∧ d.call? k = none ∧
        e = { d with sweeper := .resting due }) ∨
      ∃ due, d.sweeper = .resting due ∧ e = { d with sweeper := .ended } := by
  simp only [step, endSweeper] at next
  split at next
  · rename_i k due sweeping
    split at next
    · rename_i ceased
      cases next
      exact .inl ⟨k, due, sweeping, by simpa using ceased, rfl⟩
    · cases next
  · rename_i due resting
    split at next
    · cases next
      exact .inr ⟨due, resting, rfl⟩
    · cases next
  · cases next

theorem stepRuns (lined : d.Lined) (next : d.step a = some e) :
    ∃ k before after result told, Runs d a e k before after result told := by
  have silent : d.log = d.log ++ [] := (List.append_nil _).symm
  have aside (unasked : a.asks = false) (uncalled : a.call? = none) (calls : e.calls = d.calls)
      (endings : e.endings = d.endings) (log : e.log = d.log) (nextCall : e.nextCall = d.nextCall) :
      ∃ k before after result told, Runs d a e k before after result told :=
    ⟨_, _, _, _, _, .aside lined (.aside unasked uncalled) calls endings log nextCall⟩
  have ofReportAside (ofReport : a = .applyNext ∨ ∃ report, a = .applyDirect report) :
      a.asks = false ∧ a.call? = none := by
    rcases ofReport with rfl | ⟨report, rfl⟩ <;> exact ⟨rfl, rfl⟩
  cases stepDeed next with
  | refused why => exact ⟨_, _, _, _, _, .aside lined (.refused why) rfl rfl rfl rfl⟩
  | heard => exact ⟨_, _, _, _, _, .aside lined .heard rfl rfl rfl rfl⟩
  | broke first => exact ⟨_, _, _, _, _, .aside lined (.broke first) rfl rfl rfl rfl⟩
  | opened opens => exact ⟨_, _, _, _, _, .opened lined (.opened opens) rfl rfl rfl rfl⟩
  | removing => exact ⟨_, _, _, _, _, .opened lined .removing rfl rfl rfl rfl⟩
  | starting first => exact ⟨_, _, _, _, _, .opened lined (.starting first) rfl rfl rfl rfl⟩
  | closing => exact ⟨_, _, _, _, _, .opened lined .closing rfl rfl rfl rfl⟩
  | ticked resting runs =>
    exact ⟨_, _, _, _, _, .opened lined (.ticked resting runs) rfl rfl rfl rfl⟩
  | moved ofReport =>
    refine ⟨_, _, _, _, _, .opened lined (.moved (ofReport.imp_left ?_) rfl) rfl rfl rfl rfl⟩
    rintro rfl
    exact ⟨rfl, applyNextRuns next⟩
  | turnedAway found => exact ⟨_, _, _, _, _, .left lined found .turnedAway rfl rfl silent rfl⟩
  | reserved found free =>
    exact ⟨_, _, _, _, _, .moved lined found (.reserved free) rfl rfl silent rfl⟩
  | entered found => exact ⟨_, _, _, _, _, .moved lined found .entered rfl rfl silent rfl⟩
  | quieted found => exact ⟨_, _, _, _, _, .moved lined found .quieted rfl rfl silent rfl⟩
  | left found => exact ⟨_, _, _, _, _, .moved lined found .left rfl rfl silent rfl⟩
  | missed found gone => exact ⟨_, _, _, _, _, .left lined found (.missed gone) rfl rfl silent rfl⟩
  | foundNone found => exact ⟨_, _, _, _, _, .left lined found .foundNone rfl rfl silent rfl⟩
  | collected found => exact ⟨_, _, _, _, _, .moved lined found .collected rfl rfl silent rfl⟩
  | hushed found => exact ⟨_, _, _, _, _, .moved lined found .hushed rfl rfl silent rfl⟩
  | releasing found => exact ⟨_, _, _, _, _, .moved lined found .releasing rfl rfl silent rfl⟩
  | expiredLast found => exact ⟨_, _, _, _, _, .left lined found .expiredLast rfl rfl rfl rfl⟩
  | expired found => exact ⟨_, _, _, _, _, .moved lined found .expired rfl rfl rfl rfl⟩
  | loaded found => exact ⟨_, _, _, _, _, .moved lined found .loaded rfl rfl silent rfl⟩
  | told found => exact ⟨_, _, _, _, _, .moved lined found .told rfl rfl rfl rfl⟩
  | silent found => exact ⟨_, _, _, _, _, .left lined found .silent rfl rfl silent rfl⟩
  | launched found => exact ⟨_, _, _, _, _, .left lined found .launched rfl rfl silent rfl⟩
  | drained found => exact ⟨_, _, _, _, _, .moved lined found .drained rfl rfl silent rfl⟩
  | stilled found => exact ⟨_, _, _, _, _, .moved lined found .stilled rfl rfl silent rfl⟩
  | joined found =>
    exact ⟨_, _, _, _, _, .left lined found (.joined (joinedOver found next)) rfl rfl silent rfl⟩
  | saved found => exact ⟨_, _, _, _, _, .moved lined found .saved rfl rfl silent rfl⟩
  | unsaved found => exact ⟨_, _, _, _, _, .left lined found .unsaved rfl rfl silent rfl⟩
  | deleted found => exact ⟨_, _, _, _, _, .moved lined found .deleted rfl rfl silent rfl⟩
  | purged found => exact ⟨_, _, _, _, _, .moved lined found .purged rfl rfl silent rfl⟩
  | listed found => exact ⟨_, _, _, _, _, .moved lined found .listed rfl rfl silent rfl⟩
  | unlisted found => exact ⟨_, _, _, _, _, .left lined found .unlisted rfl rfl silent rfl⟩
  | given found => exact ⟨_, _, _, _, _, .moved lined found .given rfl rfl silent rfl⟩
  | dropped found abandonable =>
    exact ⟨_, _, _, _, _, .left lined found (.dropped abandonable) rfl rfl silent rfl⟩
  | passed ofReport =>
    exact aside (ofReportAside ofReport).1 (ofReportAside ofReport).2 rfl rfl rfl rfl
  | ignored ofReport =>
    exact aside (ofReportAside ofReport).1 (ofReportAside ofReport).2 rfl rfl rfl rfl
  | _ => exact aside rfl rfl rfl rfl rfl rfl

end Directory
end ServiceDirectory
