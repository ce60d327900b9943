import ServiceDirectory.Directory.Step
import ServiceDirectory.Proofs.Records

/-! What one action can do to the records, to the calls and to what is published, each way once.
Every fact about a whole run rests on this list. -/
namespace ServiceDirectory
open Registry (Gains Loses)

namespace Call

def parks : Call → List String
  | .saving i => [i.id]
  | .entering i => [i.id]
  | .quieting id _ => [id]
  | .deleting id => [id]
  | .leaving id => [id]
  | .hushing _ round => (round.current :: round.rest).map (·.id)
  | .purging round => (round.current :: round.rest).map (·.id)
  | .releasing round => (round.current :: round.rest).map (·.id)
  | .expiring round => round.rest.map (·.id)
  | _ => []

def held : Call → List Instance
  | .hushing _ round => round.current :: round.rest
  | .purging round => round.current :: round.rest
  | .releasing round => round.current :: round.rest
  | .expiring round => round.current :: round.rest
  | _ => []

def admits : Call → List Instance
  | .saving i => [i]
  | .entering i => [i]
  | _ => []

def news : Call → List Notice
  | .announcing notices _ => notices
  | _ => []

structure SameHands (c c' : Option Call) : Prop where
  parks : c'.elim [] parks = c.elim [] Call.parks
  held : c'.elim [] held = c.elim [] Call.held
  admits : c'.elim [] admits = c.elim [] Call.admits
  before : c.any announces = false
  after : c'.any announces = false

end Call

structure Registry.Calm (r s : Registry) : Prop where
  records : s.records = r.records
  inFlight : s.inFlight = r.inFlight
  revisions : s.revisions = r.revisions
  lastRevision : s.lastRevision = r.lastRevision
  nextEpoch : s.nextEpoch = r.nextEpoch

theorem Registry.Calm.same (r : Registry) : r.Calm r := ⟨rfl, rfl, rfl, rfl, rfl⟩

inductive Turn (r : Registry) (now : Timestamp) :
    Option Call → Registry → Option Call → List Event → Prop where
  | along {c c' : Option Call} {s : Registry} (hands : Call.SameHands c c') (calm : r.Calm s) :
      Turn r now c s c' []
  | heard (id : String) (at_ : Timestamp) : Turn r now none (r.touch id at_) none []
  | reordered {records : Table Record} (perm : records.Perm r.records) :
      Turn r now none { r with records } none []
  | reserved (i : Instance) (free : r.busy i.id = false) :
      Turn r now (some (.admitting i)) (r.park i.id) (some (.saving (Registry.stamped i now))) []
  | dropped {c : Call} (id : String) (parks : c.parks = [id]) (held : c.held = [])
      (quiet : c.announces = false) : Turn r now (some c) (r.release id) none []
  | lost {c : Call} (admits : c.admits = []) (quiet : c.announces = false) :
      Turn r now (some c) r none []
  | entered (i : Instance) :
      Turn r now (some (.entering i)) (r.commit i).1
        (some (.announcing [.plain .registered i] (.instance i))) []
  | removing {s : Registry} {loop : Option Nat} (id : String) (live : r.records.holds id = true)
      (free : id ∉ r.inFlight) (records : s.records = r.records)
      (parked : s.inFlight = id :: r.inFlight) (revisions : s.revisions = r.revisions)
      (lastRevision : s.lastRevision = r.lastRevision) (nextEpoch : s.nextEpoch = r.nextEpoch) :
      Turn r now none s (some (.quieting id loop)) []
  | left (id : String) {x : Record} (live : r.records.get? id = some x) :
      Turn r now (some (.leaving id)) (r.finishRemoval id).1
        (some (.announcing [.plain .deregistered x.snapshot] (.instance x.snapshot))) []
  | collected {c' : Option Call} (at_ : Timestamp) (timeout : Nat)
      (held : c'.elim [] Call.held = (r.expire timeout at_).2.map (·.snapshot))
      (parks : c'.elim [] Call.parks =
        ((r.expire timeout at_).2.map (·.snapshot)).map (·.id))
      (admits : c'.elim [] Call.admits = []) (quiet : c'.any Call.announces = false) :
      Turn r now (some (.collecting at_)) (r.expire timeout at_).1 c' []
  | releasing (round : Round) :
      Turn r now (some (.releasing round)) (r.release round.current.id) (some (.expiring round)) []
  | expired {c' : Option Call} (round : Round)
      (held : c'.elim [] Call.held = round.rest)
      (parks : c'.elim [] Call.parks = round.rest.map (·.id))
      (admits : c'.elim [] Call.admits = []) (quiet : c'.any Call.announces = false) :
      Turn r now (some (.expiring round)) r c' [.plain .expired round.current now]
  | loaded (stored : List Instance) (at_ : Timestamp) {answer : Answer} :
      Turn r now (some (.loading stored at_)) (r.load at_ stored).1
        (some (.announcing ((r.load at_ stored).2.1.map (.plain .registered)) answer)) []
  | told (n : Notice) (rest : List Notice) {answer : Answer} :
      Turn r now (some (.announcing (n :: rest) answer)) r (some (.announcing rest answer))
        [n.event now]
  | silent {answer : Answer} : Turn r now (some (.announcing [] answer)) r none []
  | moved {id : String} {x : Record} {i : Instance} (live : r.records.get? id = some x)
      (free : id ∉ r.inFlight) (differs : i.status ≠ x.snapshot.status)
      (later : x.snapshot.Continues i) :
      Turn r now none ({ r with records := r.records.put id ⟨i, x.epoch⟩ }.bump i.name)
        (some (.announcing [.stamped (.statusChange i x.snapshot.status now)] .done)) []

namespace Directory

structure Lined (d : Directory) : Prop where
  distinct : (d.calls.map (·.1)).Nodup
  recent : ∀ c ∈ d.calls, c.1 < d.nextCall
  ordered : ∀ c ∈ d.calls, c.2.announces = true → d.order = some c.1

def orderAfter (k : CallId) (before after : Option Call) (order : Option CallId) :
    Option CallId :=
  if after.any Call.announces then some k
  else if before.any Call.announces then none
  else order

structure Happens (d e : Directory) (k : CallId) (before after : Option Call)
    (told : List Event) : Prop where
  calls : ∃ first last, d.calls = first ++ before.toList.map (k, ·) ++ last ∧
    e.calls = first ++ after.toList.map (k, ·) ++ last
  grows : d.nextCall ≤ e.nextCall
  opens : before = none → after ≠ none → k = d.nextCall ∧ k < e.nextCall
  order : e.order = orderAfter k before after d.order
  free : after.any Call.announces = true → before.any Call.announces = false → d.order = none
  log : e.log = d.log ++ told
  turn : Turn d.registry d.clock before e.registry after told

variable {d e : Directory} {k : CallId} {c c' : Call} {told : List Event}

theorem memOfCall (found : d.call? k = some c) : (k, c) ∈ d.calls := by
  obtain ⟨entry, hit, rfl⟩ := Option.map_eq_some_iff.mp found
  have same : entry.1 = k := by simpa using List.find?_some hit
  exact same ▸ List.mem_of_find?_eq_some hit

theorem callSplit (lined : d.Lined) (found : d.call? k = some c) :
    ∃ first last, d.calls = first ++ (k, c) :: last ∧
      (∀ x ∈ first, x.1 ≠ k) ∧ ∀ x ∈ last, x.1 ≠ k := by
  obtain ⟨first, last, split⟩ := List.append_of_mem (memOfCall found)
  have distinct := lined.distinct
  rw [split, List.map_append, List.map_cons, List.nodup_append, List.nodup_cons] at distinct
  obtain ⟨_, ⟨fresh, _⟩, apart⟩ := distinct
  refine ⟨first, last, split, fun x mem same => ?_, fun x mem same => ?_⟩
  · exact apart x.1 (List.mem_map_of_mem mem) k (by simp) same
  · exact fresh (List.mem_map.mpr ⟨x, mem, same⟩)

theorem moveToSplit {first last : List (CallId × Call)}
    (split : d.calls = first ++ (k, c) :: last) (before : ∀ x ∈ first, x.1 ≠ k)
    (after : ∀ x ∈ last, x.1 ≠ k) : (d.moveTo k c').calls = first ++ (k, c') :: last := by
  have keeps : ∀ l : List (CallId × Call), (∀ x ∈ l, x.1 ≠ k) →
      l.map (fun x => if x.1 == k then (k, c') else x) = l := fun l apart => by
    conv => rhs; rw [← List.map_id l]
    exact List.map_congr_left fun x mem => by simp [apart x mem]
  simp only [moveTo, split, List.map_append, List.map_cons, keeps first before, keeps last after,
    beq_self_eq_true, if_true]

theorem finishSplit {first last : List (CallId × Call)}
    (split : d.calls = first ++ (k, c) :: last) (before : ∀ x ∈ first, x.1 ≠ k)
    (after : ∀ x ∈ last, x.1 ≠ k) : d.calls.filter (·.1 != k) = first ++ last := by
  have keeps : ∀ l : List (CallId × Call), (∀ x ∈ l, x.1 ≠ k) → l.filter (·.1 != k) = l :=
    fun l apart => List.filter_eq_self.mpr fun x mem => by simp [apart x mem]
  rw [split, List.filter_append, List.filter_cons_of_neg (by simp), keeps first before,
    keeps last after]

namespace Happens

theorem aside (calls : e.calls = d.calls) (grows : d.nextCall ≤ e.nextCall)
    (order : e.order = d.order) (log : e.log = d.log)
    (turn : Turn d.registry d.clock none e.registry none []) :
    Happens d e d.nextCall none none [] where
  calls := ⟨d.calls, [], by simp, by simp [calls]⟩
  grows := grows
  opens _ begun := absurd rfl begun
  order := order
  free none := by cases none
  log := by rw [log, List.append_nil]
  turn := turn

theorem opening (c : Call) (calls : e.calls = d.calls ++ [(d.nextCall, c)])
    (next : e.nextCall = d.nextCall + 1)
    (order : e.order = orderAfter d.nextCall none (some c) d.order)
    (free : c.announces = true → d.order = none) (log : e.log = d.log)
    (turn : Turn d.registry d.clock none e.registry (some c) []) :
    Happens d e d.nextCall none (some c) [] where
  calls := ⟨d.calls, [], by simp, by simp [calls]⟩
  grows := next ▸ Nat.le_succ _
  opens _ _ := ⟨rfl, next ▸ Nat.lt_succ_self _⟩
  order := order
  free announces _ := free announces
  log := by rw [log, List.append_nil]
  turn := turn

theorem moving (c' : Call) (told : List Event) (lined : d.Lined) (found : d.call? k = some c)
    (calls : e.calls = (d.moveTo k c').calls) (next : e.nextCall = d.nextCall)
    (order : e.order = orderAfter k (some c) (some c') d.order)
    (free : c'.announces = true → c.announces = false → d.order = none)
    (log : e.log = d.log ++ told)
    (turn : Turn d.registry d.clock (some c) e.registry (some c') told) :
    Happens d e k (some c) (some c') told := by
  obtain ⟨first, last, split, before, after⟩ := callSplit lined found
  exact {
    calls := ⟨first, last, by simp [split], by simp [calls, moveToSplit split before after]⟩
    grows := Nat.le_of_eq next.symm
    opens := fun none => by cases none
    order := order
    free := free
    log := log
    turn := turn }

theorem ending (told : List Event) (lined : d.Lined) (found : d.call? k = some c)
    (calls : e.calls = d.calls.filter (·.1 != k)) (next : e.nextCall = d.nextCall)
    (order : e.order = orderAfter k (some c) none d.order) (log : e.log = d.log ++ told)
    (turn : Turn d.registry d.clock (some c) e.registry none told) :
    Happens d e k (some c) none told := by
  obtain ⟨first, last, split, before, after⟩ := callSplit lined found
  exact {
    calls := ⟨first, last, by simp [split], by simp [calls, finishSplit split before after]⟩
    grows := Nat.le_of_eq next.symm
    opens := fun none => by cases none
    order := order
    free := fun none => by cases none
    log := log
    turn := turn }

end Happens

def Turns (d e : Directory) : Prop :=
  ∃ k before after told, Happens d e k before after told

theorem Happens.turns {before after : Option Call} (h : Happens d e k before after told) :
    Turns d e := ⟨k, before, after, told, h⟩

theorem asideCalm (calls : e.calls = d.calls) (grows : d.nextCall ≤ e.nextCall)
    (order : e.order = d.order) (log : e.log = d.log) (calm : d.registry.Calm e.registry) :
    Turns d e :=
  (Happens.aside calls grows order log (.along ⟨rfl, rfl, rfl, rfl, rfl⟩ calm)).turns

theorem openingBare (c : Call) (parks : c.parks = []) (held : c.held = []) (admits : c.admits = [])
    (quiet : c.announces = false) (calls : e.calls = d.calls ++ [(d.nextCall, c)])
    (next : e.nextCall = d.nextCall + 1) (order : e.order = d.order) (log : e.log = d.log)
    (registry : e.registry = d.registry) : Turns d e := by
  refine (Happens.opening c calls next ?_ (by simp [quiet]) log ?_).turns
  · simp [orderAfter, quiet, order]
  · rw [registry]
    exact .along ⟨by simp [parks], by simp [held], by simp [admits], rfl, by simp [quiet]⟩ (.same _)

theorem beginTurns (d : Directory) (request : Request) : Turns d (d.begin request) := by
  have refused (failure : Except Failure Answer) : Turns d (d.answer failure) :=
    asideCalm rfl (Nat.le_succ _) rfl rfl (.same _)
  cases request with
  | register i =>
    simp only [begin, beginRegister]
    split
    · exact refused _
    · split
      · exact refused _
      · exact openingBare (.admitting i) rfl rfl rfl rfl rfl rfl rfl rfl rfl
  | deregister id =>
    simp only [begin, beginDeregister, Registry.beginRemoval]
    split
    · exact refused _
    · rename_i registry loop removed
      split at removed
      · cases removed
      rename_i admitted
      simp only [Bool.or_eq_true, Bool.not_eq_true', not_or, Bool.not_eq_false] at admitted
      cases removed
      refine Happens.turns (Happens.opening (.quieting id _) rfl rfl rfl ?_ rfl ?_)
      · simp [Call.announces]
      · exact .removing id admitted.1 (by simpa using admitted.2) rfl rfl rfl rfl rfl
  | heartbeat id =>
    simp only [begin, beginHeartbeat, Registry.heartbeat]
    split
    · exact refused _
    · rename_i registry heard
      split at heard
      · cases heard
        exact Happens.turns (Happens.aside rfl (Nat.le_succ _) rfl rfl (.heard id d.clock))
      · cases heard
  | sweep => exact openingBare (.collecting d.clock) rfl rfl rfl rfl rfl rfl rfl rfl rfl
  | bootstrap => exact openingBare .listing rfl rfl rfl rfl rfl rfl rfl rfl rfl
  | start =>
    simp only [begin, beginStart]
    split
    · exact refused _
    · split
      · exact asideCalm rfl (Nat.le_succ _) rfl rfl (.same _)
      · exact openingBare .launching rfl rfl rfl rfl rfl rfl rfl rfl rfl
  | shutdown => exact openingBare .draining rfl rfl rfl rfl rfl rfl rfl rfl rfl

theorem movingAlong (c' : Call) (lined : d.Lined) (found : d.call? k = some c)
    (hands : Call.SameHands (some c) (some c')) (calls : e.calls = (d.moveTo k c').calls)
    (next : e.nextCall = d.nextCall) (order : e.order = d.order) (log : e.log = d.log)
    (calm : d.registry.Calm e.registry) : Turns d e := by
  have quiet : c'.announces = false := by simpa using hands.after
  have calm' : c.announces = false := by simpa using hands.before
  refine (Happens.moving c' [] lined found calls next ?_ ?_ ?_ (.along hands calm)).turns
  · simp [orderAfter, quiet, calm', order]
  · simp [quiet]
  · simp [log]

theorem endingBare (lined : d.Lined) (found : d.call? k = some c)
    (hands : Call.SameHands (some c) none) (calls : e.calls = d.calls.filter (·.1 != k))
    (next : e.nextCall = d.nextCall) (order : e.order = d.order) (log : e.log = d.log)
    (calm : d.registry.Calm e.registry) : Turns d e := by
  have quiet : c.announces = false := by simpa using hands.before
  refine (Happens.ending [] lined found calls next ?_ ?_ (.along hands calm)).turns
  · simp [orderAfter, quiet, order]
  · simp [log]

theorem collectTurns (lined : d.Lined) {at_ : Timestamp}
    (found : d.call? k = some (.collecting at_)) : Turns d (d.collect k at_) := by
  cases out : (d.registry.expire d.settings.heartbeatTimeout at_).2.map (·.snapshot) with
  | nil =>
    refine Happens.turns (Happens.ending [] lined found ?_ ?_ ?_ ?_ ?_)
    case refine_5 =>
      simp only [collect, out]
      exact .collected at_ d.settings.heartbeatTimeout (by simp [out]) (by simp [out]) rfl rfl
    all_goals simp [collect, out, finish, cancelLoops, orderAfter, Call.announces]
  | cons i rest =>
    refine Happens.turns (Happens.moving
      (.hushing ((d.registry.expire d.settings.heartbeatTimeout at_).2.filterMap (·.loop))
        ⟨i, rest, rest.length + 1⟩) [] lined found ?_ ?_ ?_ ?_ ?_ ?_)
    case refine_6 =>
      simp only [collect, out]
      exact .collected at_ d.settings.heartbeatTimeout (by simp [out, Call.held])
        (by simp [out, Call.parks]) rfl rfl
    all_goals simp [collect, out, moveTo, cancelLoops, orderAfter, Call.announces]

theorem leaveTurns (lined : d.Lined) {id : String} (found : d.call? k = some (.leaving id))
    (free : d.order = none) : Turns d (d.leave k id) := by
  cases live : d.registry.records.get? id with
  | none =>
    have missed : d.registry.finishRemoval id = (d.registry.release id, none) := by
      simp [Registry.finishRemoval, Registry.release, live]
    refine Happens.turns (Happens.ending [] lined found ?_ ?_ ?_ ?_ ?_)
    case refine_5 =>
      simp only [leave, missed]
      exact .dropped id rfl rfl rfl
    all_goals simp [leave, missed, finish, orderAfter, Call.announces]
  | some x =>
    have removed : d.registry.finishRemoval id =
        ((d.registry.finishRemoval id).1, some x.snapshot) := by
      simp [Registry.finishRemoval, Registry.release, live]
    refine Happens.turns (Happens.moving
      (.announcing [.plain .deregistered x.snapshot] (.instance x.snapshot)) [] lined found
      ?_ ?_ ?_ (fun _ _ => free) ?_ ?_)
    case refine_5 =>
      rw [leave, removed]
      exact .left id live
    all_goals rw [leave, removed]; simp [announce, moveTo, orderAfter, Call.announces]

theorem publishExpiredTurns (lined : d.Lined) {round : Round}
    (found : d.call? k = some (.expiring round)) : Turns d (d.publishExpired k round) := by
  cases more : round.rest with
  | nil =>
    refine Happens.turns (Happens.ending
      [.plain .expired round.current d.clock] lined found ?_ ?_ ?_ ?_ ?_)
    case refine_5 =>
      simp only [publishExpired, more]
      exact .expired round (by simp [more]) (by simp [more]) rfl rfl
    all_goals simp [publishExpired, more, publish, finish, orderAfter, Call.announces]
  | cons i rest =>
    refine Happens.turns (Happens.moving
      (.purging { round with current := i, rest }) [.plain .expired round.current d.clock] lined
      found ?_ ?_ ?_ ?_ ?_ ?_)
    case refine_6 =>
      simp only [publishExpired, more]
      exact .expired round (by simp [more, Call.held]) (by simp [more, Call.parks]) rfl rfl
    all_goals simp [publishExpired, more, publish, moveTo, orderAfter, Call.announces]

theorem publishNextTurns (lined : d.Lined) {notices : List Notice} {answer : Answer}
    (found : d.call? k = some (.announcing notices answer)) :
    Turns d (d.publishNext k notices answer) := by
  cases notices with
  | nil =>
    exact Happens.turns (Happens.ending [] lined found rfl rfl rfl
      (List.append_nil _).symm .silent)
  | cons n rest =>
    refine Happens.turns (Happens.moving (.announcing rest answer)
      [n.event d.clock] lined found rfl rfl ?_ ?_ rfl (.told n rest))
    · exact lined.ordered _ (memOfCall found) rfl
    · simp [Call.announces]

theorem proceedTurns (lined : d.Lined) (found : d.call? k = some c)
    (next : d.proceedWith k c = some e) : Turns d e := by
  cases c with
  | admitting i =>
    cases next
    simp only [reserve, Registry.reserve]
    split
    · rename_i failed
      exact endingBare lined found ⟨rfl, rfl, rfl, rfl, rfl⟩ rfl rfl rfl rfl (.same _)
    · rename_i registry admitted
      split at admitted
      · cases admitted
      rename_i free
      cases admitted
      exact Happens.turns (Happens.moving _ [] lined found rfl rfl rfl
        (by simp [Call.announces]) (List.append_nil _).symm (.reserved i (by simpa using free)))
  | entering i =>
    obtain ⟨free, rfl⟩ : d.order.isNone = true ∧ d.enter k i = e := by simpa [proceedWith] using next
    exact Happens.turns (Happens.moving _ [] lined found rfl rfl rfl
      (fun _ _ => by simpa using free) (List.append_nil _).symm (.entered i))
  | quieting id loop =>
    obtain ⟨_, rfl⟩ : _ ∧ d.moveTo k (.deleting id) = e := by simpa [proceedWith] using next
    exact movingAlong (.deleting id) lined found ⟨rfl, rfl, rfl, rfl, rfl⟩ rfl rfl rfl rfl (.same _)
  | leaving id =>
    obtain ⟨free, rfl⟩ : d.order.isNone = true ∧ d.leave k id = e := by
      simpa [proceedWith] using next
    exact leaveTurns lined found (by simpa using free)
  | collecting at_ =>
    cases next
    exact collectTurns lined found
  | hushing loops round =>
    obtain ⟨_, rfl⟩ : _ ∧ d.moveTo k (.purging round) = e := by simpa [proceedWith] using next
    exact movingAlong (.purging round) lined found ⟨rfl, rfl, rfl, rfl, rfl⟩ rfl rfl rfl rfl (.same _)
  | releasing round =>
    obtain ⟨free, rfl⟩ : d.order.isNone = true ∧ d.releaseExpired k round = e := by
      simpa [proceedWith] using next
    exact Happens.turns (Happens.moving _ [] lined found rfl rfl rfl
      (fun _ _ => by simpa using free) (List.append_nil _).symm (.releasing round))
  | expiring round =>
    cases next
    exact publishExpiredTurns lined found
  | loading stored at_ =>
    obtain ⟨free, rfl⟩ : d.order.isNone = true ∧ d.load k stored at_ = e := by
      simpa [proceedWith] using next
    exact Happens.turns (Happens.moving _ [] lined found rfl rfl rfl
      (fun _ _ => by simpa using free) (List.append_nil _).symm (.loaded stored at_))
  | announcing notices answer =>
    cases next
    exact publishNextTurns lined found
  | launching =>
    obtain ⟨_, rfl⟩ : _ ∧ d.launch k = e := by simpa [proceedWith] using next
    exact endingBare lined found ⟨rfl, rfl, rfl, rfl, rfl⟩ rfl rfl rfl rfl ⟨rfl, rfl, rfl, rfl, rfl⟩
  | draining =>
    cases next
    exact movingAlong (.stilling _) lined found ⟨rfl, rfl, rfl, rfl, rfl⟩ rfl rfl rfl rfl
      ⟨rfl, rfl, rfl, rfl, rfl⟩
  | stilling loops =>
    obtain ⟨_, rfl⟩ : _ ∧ d.attend k = e := by simpa [proceedWith] using next
    exact movingAlong (.joining _) lined found ⟨rfl, rfl, rfl, rfl, rfl⟩ rfl rfl rfl rfl
      (.same _)
  | joining waits =>
    obtain ⟨_, rfl⟩ : _ ∧ d.finish k (.ok .done) = e := by simpa [proceedWith] using next
    exact endingBare lined found ⟨rfl, rfl, rfl, rfl, rfl⟩ rfl rfl rfl rfl (.same _)
  | saving i => cases next
  | deleting id => cases next
  | purging round => cases next
  | listing => cases next

theorem settleTurns (lined : d.Lined) {failure : Option Failure}
    (next : d.settle k failure = some e) : Turns d e := by
  obtain ⟨c, found, next⟩ := Option.bind_eq_some_iff.mp next
  obtain ⟨work, asked, next⟩ := Option.bind_eq_some_iff.mp next
  cases c with
  | saving i =>
    cases failure with
    | none =>
      cases next
      exact movingAlong (.entering i) lined found ⟨rfl, rfl, rfl, rfl, rfl⟩ rfl rfl rfl rfl
        (.same _)
    | some failure =>
      cases next
      exact Happens.turns (Happens.ending [] lined found rfl rfl rfl
        (List.append_nil _).symm (.dropped i.id rfl rfl rfl))
  | deleting id =>
    cases failure <;> cases next <;>
      exact movingAlong (.leaving id) lined found ⟨rfl, rfl, rfl, rfl, rfl⟩ rfl rfl rfl rfl
        (.same _)
  | purging round =>
    cases failure <;> cases next <;>
      exact movingAlong (.releasing round) lined found ⟨rfl, rfl, rfl, rfl, rfl⟩ rfl rfl rfl
        rfl (.same _)
  | listing =>
    cases failure with
    | none =>
      cases next
      exact movingAlong (.loading _ _) lined found ⟨rfl, rfl, rfl, rfl, rfl⟩ rfl rfl rfl rfl
        (.same _)
    | some failure =>
      cases next
      exact endingBare lined found ⟨rfl, rfl, rfl, rfl, rfl⟩ rfl rfl rfl rfl (.same _)
  | _ => cases asked

theorem answerListingTurns (lined : d.Lined) {stored : List Instance}
    (next : d.answerListing k stored = some e) : Turns d e := by
  unfold answerListing at next
  split at next
  · rename_i found
    cases next
    exact movingAlong (.loading stored d.clock) lined found ⟨rfl, rfl, rfl, rfl, rfl⟩ rfl rfl
      rfl rfl (.same _)
  · cases next

theorem abandonTurns (lined : d.Lined) (next : d.abandon k = some e) : Turns d e := by
  obtain ⟨c, found, next⟩ := Option.bind_eq_some_iff.mp next
  have dropped (id : String) (parks : c.parks = [id]) (held : c.held = [])
      (quiet : c.announces = false) (calls : e.calls = d.calls.filter (·.1 != k))
      (registry : e.registry = d.registry.release id) (next : e.nextCall = d.nextCall)
      (order : e.order = d.order) (log : e.log = d.log) : Turns d e := by
    refine Happens.turns (Happens.ending [] lined found calls next ?_ ?_ ?_)
    · simp [orderAfter, quiet, order]
    · simp [log]
    · rw [registry]; exact .dropped id parks held quiet
  have lost (admits : c.admits = []) (quiet : c.announces = false)
      (calls : e.calls = d.calls.filter (·.1 != k)) (registry : e.registry = d.registry)
      (next : e.nextCall = d.nextCall) (order : e.order = d.order) (log : e.log = d.log) :
      Turns d e := by
    refine Happens.turns (Happens.ending [] lined found calls next ?_ ?_ ?_)
    · simp [orderAfter, quiet, order]
    · simp [log]
    · rw [registry]; exact .lost admits quiet
  cases c with
  | saving i => cases next; exact dropped i.id rfl rfl rfl rfl rfl rfl rfl rfl
  | quieting id loop => cases next; exact dropped id rfl rfl rfl rfl rfl rfl rfl rfl
  | deleting id => cases next; exact dropped id rfl rfl rfl rfl rfl rfl rfl rfl
  | hushing loops round => cases next; exact lost rfl rfl rfl rfl rfl rfl rfl
  | purging round => cases next; exact lost rfl rfl rfl rfl rfl rfl rfl
  | listing => cases next; exact lost rfl rfl rfl rfl rfl rfl rfl
  | stilling loops => cases next; exact lost rfl rfl rfl rfl rfl rfl rfl
  | joining waits => cases next; exact lost rfl rfl rfl rfl rfl rfl rfl
  | _ => cases next

theorem passedTurns (d : Directory) (id : String) (epoch : Nat) (observedAt : Timestamp)
    (records : e.registry = d.registry.passed id epoch observedAt) (calls : e.calls = d.calls)
    (next : e.nextCall = d.nextCall) (order : e.order = d.order) (log : e.log = d.log) :
    Turns d e := by
  have same (s : Registry) (h : e.registry = s) (calm : d.registry.Calm s) : Turns d e :=
    asideCalm calls (Nat.le_of_eq next.symm) order log (h ▸ calm)
  unfold Registry.passed at records
  split at records
  · split at records
    · refine Happens.turns (Happens.aside calls (Nat.le_of_eq next.symm) order log ?_)
      rw [records]
      exact .heard id observedAt
    · exact same _ records (.same _)
  · exact same _ records (.same _)

theorem applyReportTurns {report : Health.Report} (next : d.applyReport report = some e) :
    Turns d e := by
  unfold applyReport at next
  split at next
  · rename_i id epoch observedAt
    cases next
    exact passedTurns d id epoch observedAt rfl rfl rfl rfl rfl
  · rename_i id epoch before after result
    split at next
    · cases next
    rename_i free
    split at next
    · rename_i registry silent
      cases next
      have same := Registry.transitionIgnored silent
      exact asideCalm rfl (Nat.le_refl _) rfl rfl (same ▸ .same _)
    · rename_i registry event told
      cases next
      obtain ⟨x, i, live, unparked, differs, later, rfl, rfl⟩ := Registry.transitionMoves told
      refine Happens.turns (Happens.opening _ rfl rfl rfl (fun _ => ?_) rfl
        (.moved live unparked differs later))
      simpa using free

theorem reorderTurns {records : Table Record} (next : d.reorder records = some e) : Turns d e := by
  unfold reorder at next
  split at next
  · rename_i perm
    cases next
    exact Happens.turns (Happens.aside rfl (Nat.le_refl _) rfl rfl
      (.reordered (List.isPerm_iff.mp perm)))
  · cases next

theorem sweepTickTurns (next : d.sweepTick = some e) : Turns d e := by
  unfold sweepTick at next
  split at next
  · split at next
    · cases next
      exact openingBare (.collecting d.clock) rfl rfl rfl rfl rfl rfl rfl rfl rfl
    · cases next
  · cases next

theorem endSweeperTurns (next : d.endSweeper = some e) : Turns d e := by
  unfold endSweeper at next
  split at next
  · split at next
    · cases next; exact asideCalm rfl (Nat.le_refl _) rfl rfl (.same _)
    · cases next
  · split at next
    · cases next; exact asideCalm rfl (Nat.le_refl _) rfl rfl (.same _)
    · cases next
  · cases next

theorem loopTurns {a : Action}
    (ofLoop : (∃ epoch o, a = .beginProbe epoch o) ∨ (∃ epoch, a = .endProbe epoch) ∨
      ∃ epoch, a = .endLoop epoch) (next : d.step a = some e) : Turns d e := by
  rcases ofLoop with ⟨epoch, o, rfl⟩ | ⟨epoch, rfl⟩ | ⟨epoch, rfl⟩
  · obtain ⟨l, _, next⟩ := Option.bind_eq_some_iff.mp next
    split at next
    · cases next
    obtain ⟨check, _, next⟩ := Option.bind_eq_some_iff.mp next
    cases next
    exact asideCalm rfl (Nat.le_refl _) rfl rfl (.same _)
  · obtain ⟨l, _, next⟩ := Option.bind_eq_some_iff.mp next
    split at next
    · cases next
    obtain ⟨check, _, next⟩ := Option.bind_eq_some_iff.mp next
    cases next
    exact asideCalm rfl (Nat.le_refl _) rfl rfl (.same _)
  · obtain ⟨l, _, next⟩ := Option.bind_eq_some_iff.mp next
    split at next
    · cases next; exact asideCalm rfl (Nat.le_refl _) rfl rfl (.same _)
    · cases next

theorem stepTurns (lined : d.Lined) {a : Action} (next : d.step a = some e) : Turns d e := by
  cases a with
  | begin request => cases next; exact beginTurns d request
  | proceed k =>
    obtain ⟨c, found, next⟩ := Option.bind_eq_some_iff.mp next
    exact proceedTurns lined found next
  | settle k failure => exact settleTurns lined next
  | abandon k => exact abandonTurns lined next
  | applyNext =>
    simp only [step, applyNext] at next
    split at next
    · cases next
    · split at next
      · obtain ⟨k, before, after, told, h⟩ := applyReportTurns next
        exact ⟨k, before, after, told, h.calls, h.grows, h.opens, h.order, h.free, h.log, h.turn⟩
      · cases next
  | applyDirect report => exact applyReportTurns next
  | endApplier =>
    simp only [step, endApplier] at next
    split at next
    · cases next; exact asideCalm rfl (Nat.le_refl _) rfl rfl (.same _)
    · cases next
  | sweepTick => exact sweepTickTurns next
  | endSweeper => exact endSweeperTurns next
  | beginProbe epoch o => exact loopTurns (.inl ⟨epoch, o, rfl⟩) next
  | endProbe epoch => exact loopTurns (.inr (.inl ⟨epoch, rfl⟩)) next
  | endLoop epoch => exact loopTurns (.inr (.inr ⟨epoch, rfl⟩)) next
  | watch service => cases next; exact asideCalm rfl (Nat.le_refl _) rfl rfl (.same _)
  | takeEvent watcher => cases next; exact asideCalm rfl (Nat.le_refl _) rfl rfl (.same _)
  | closeWatcher watcher => cases next; exact asideCalm rfl (Nat.le_refl _) rfl rfl (.same _)
  | storeDirect i => cases next; exact asideCalm rfl (Nat.le_refl _) rfl rfl (.same _)
  | listed k stored => exact answerListingTurns lined next
  | reorder records => exact reorderTurns next
  | pass ms => cases next; exact asideCalm rfl (Nat.le_refl _) rfl rfl (.same _)
  | setClock nanos => cases next; exact asideCalm rfl (Nat.le_refl _) rfl rfl (.same _)

end Directory
end ServiceDirectory
