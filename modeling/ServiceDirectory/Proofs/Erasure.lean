import ServiceDirectory.Proofs.Courses

/-! A run from which one call is taken out. Calls that began after it move up by one, and an id that it
had in flight is free. Every step that others take is then a step of the run without it. -/
namespace ServiceDirectory
open Health (Report)

def shift (k j : Nat) : Nat := if k < j then j - 1 else j

theorem shiftApart {k i j : Nat} (hi : i ≠ k) (hj : j ≠ k) : shift k i = shift k j ↔ i = j := by
  unfold shift
  split <;> split <;> omega

theorem shiftLate {k j : Nat} (late : k < j) : shift k j = j - 1 := if_pos late

theorem shiftEarly {k j : Nat} (early : j ≤ k) : shift k j = j := if_neg (Nat.not_lt.mpr early)

namespace Action

def rename (f : CallId → CallId) : Action → Action
  | .proceed k => .proceed (f k)
  | .settle k failure => .settle (f k) failure
  | .abandon k => .abandon (f k)
  | .listed k stored => .listed (f k) stored
  | a => a

def without (k : CallId) (a : Action) : Option Action :=
  if a.call? = some k then none else some (a.rename (shift k))

end Action

namespace Registry
variable {r s : Registry} {parked : Option String} {id : String}

def freeing (r : Registry) (parked : Option String) : Registry :=
  { r with inFlight := r.inFlight.filter fun id => parked != some id }

theorem freeingNone (r : Registry) : r.freeing none = r := by
  have all : r.inFlight.filter (fun id => (none : Option String) != some id) = r.inFlight :=
    List.filter_eq_self.mpr fun _ _ => rfl
  simp only [freeing, all]

theorem freeingSome (r : Registry) (id : String) : r.freeing (some id) = r.release id := by
  have same : ∀ x ∈ r.inFlight, (some id != some x) = (x != id) := fun x _ => by
    simp [bne, eq_comm]
  simp only [freeing, release, List.filter_congr same]

theorem freeingParked (free : id ∉ r.inFlight) : (r.park id).freeing (some id) = r := by
  have keeps : ∀ x ∈ r.inFlight, (some id != some x) = true := fun x mem => by
    simpa using fun same : id = x => free (same ▸ mem)
  simp only [freeing, park, List.filter_cons, bne_self_eq_false, Bool.false_eq_true, if_false,
    List.filter_eq_self.mpr keeps]

theorem freeingContains (other : parked ≠ some id) :
    (r.freeing parked).inFlight.contains id = r.inFlight.contains id := by
  rw [Bool.eq_iff_iff]
  simp [freeing, other]

theorem freeingPark (other : parked ≠ some id) :
    (r.park id).freeing parked = (r.freeing parked).park id := by
  simp [freeing, park, other]

theorem freeingRelease (r : Registry) (id : String) :
    (r.release id).freeing parked = (r.freeing parked).release id := by
  simp only [freeing, release, List.filter_filter, Bool.and_comm]

theorem freeingBusy (other : parked ≠ some id) : (r.freeing parked).busy id = r.busy id := by
  rw [busy, freeingContains other, busy]
  rfl

theorem freeingReserve (other : parked ≠ some id) :
    (r.freeing parked).reserve id = (r.reserve id).map (·.freeing parked) := by
  rw [reserve, freeingBusy other, reserve]
  split
  · rfl
  · rw [← freeingPark other]
    rfl

def Spares (r : Registry) (parked : Option String) : Prop :=
  ∀ id, parked = some id → r.records.get? id = none

theorem Spares.live (h : r.Spares parked) (live : r.records.holds id = true) : parked ≠ some id := by
  intro same
  rw [Table.holdsIff, h id same] at live
  cases live

theorem freeingBeginRemoval (h : r.Spares parked) (id : String) :
    (r.freeing parked).beginRemoval id =
      (r.beginRemoval id).map fun (s, loop) => (s.freeing parked, loop) := by
  unfold beginRemoval
  cases live : r.records.holds id with
  | false =>
    have gone : (r.freeing parked).records.holds id = false := live
    simp [gone, Except.map]
  | true =>
    have other := h.live live
    have here : (r.freeing parked).records.holds id = true := live
    rw [freeingContains other, here]
    split
    · rfl
    · rw [← freeingPark other]
      rfl

theorem freeingHeartbeat (r : Registry) (id : String) (now : Timestamp) :
    (r.freeing parked).heartbeat id now = (r.heartbeat id now).map (·.freeing parked) := by
  unfold heartbeat
  have same : (r.freeing parked).records = r.records := rfl
  rw [same]
  split <;> rfl

theorem freeingCommit (r : Registry) (i : Instance) :
    (r.freeing parked).commit i =
      ((r.commit i).1.freeing parked, (r.commit i).2) := by
  rw [commit, ← freeingRelease]
  rfl

theorem freeingFinishRemoval (r : Registry) (id : String) :
    (r.freeing parked).finishRemoval id =
      ((r.finishRemoval id).1.freeing parked, (r.finishRemoval id).2) := by
  rw [finishRemoval, ← freeingRelease, finishRemoval]
  have same : ((r.release id).freeing parked).records = (r.release id).records := rfl
  rw [same]
  cases (r.release id).records.get? id <;> rfl

theorem freeingExpel (h : r.Spares parked) (id : String) :
    (r.freeing parked).expel id = ((r.expel id).1.freeing parked, (r.expel id).2) := by
  unfold expel
  have same : (r.freeing parked).records = r.records := rfl
  rw [same]
  cases live : r.records.get? id with
  | none => rfl
  | some x =>
    have other := h.live ((Table.holdsIff _ _).mpr (by rw [live]; rfl))
    simp only [freeingPark other]
    rfl

theorem Spares.expel (h : r.Spares parked) (id : String) : (r.expel id).1.Spares parked := by
  intro other same
  have gone := h other same
  unfold Registry.expel
  split
  · exact gone
  · refine (Table.getRemove r.records id other).trans ?_
    rw [gone, ite_self]

theorem freeingExpelAll (h : r.Spares parked) (ids : List String) :
    (r.freeing parked).expelAll ids = ((r.expelAll ids).1.freeing parked, (r.expelAll ids).2) := by
  induction ids generalizing r with
  | nil => rfl
  | cons id rest ih => simp only [expelAll, freeingExpel h, ih (h.expel id)]

theorem freeingExpire (h : r.Spares parked) (timeout : Nat) (now : Timestamp) :
    (r.freeing parked).expire timeout now =
      ((r.expire timeout now).1.freeing parked, (r.expire timeout now).2) := by
  have same : (r.freeing parked).victims timeout now = r.victims timeout now := by
    refine congrArg (List.map Prod.fst) (List.filter_congr fun x mem => ?_)
    have live : r.records.holds x.1 = true := List.any_eq_true.mpr ⟨x, mem, beq_self_eq_true _⟩
    simp only [expired, freeingContains (h.live live)]
  rw [expire, same, freeingExpelAll h, expire]

theorem freeingPassed (r : Registry) (id : String) (epoch : Nat) (at_ : Timestamp) :
    (r.freeing parked).passed id epoch at_ = (r.passed id epoch at_).freeing parked := by
  unfold passed
  have same : (r.freeing parked).records = r.records := rfl
  rw [same]
  split
  · split <;> rfl
  · rfl

theorem freeingApply (h : r.Spares parked) (refresh : Bool) (now : Timestamp) (report : Report) :
    (r.freeing parked).apply refresh now report =
      ((r.apply refresh now report).1.freeing parked, (r.apply refresh now report).2) := by
  cases report with
  | passed id epoch at_ => simp only [apply, freeingPassed]
  | transition id epoch before after result =>
    simp only [apply, transition]
    have same : (r.freeing parked).records = r.records := rfl
    rw [same]
    by_cases other : parked = some id
    · simp only [h id other, ite_self]
    · rw [freeingContains other]
      split
      · rfl
      · split
        · rfl
        · split <;> rfl

end Registry

def Sweeper.rename (f : CallId → CallId) : Sweeper → Sweeper
  | .sweeping k due => .sweeping (f k) due
  | s => s

namespace Directory
variable {d e : Directory} {a : Action} {k j : Nat} {c c' : Call} {parked : Option String}

/-- The call `k` was never begun; an id is free that it has parked. -/
def without (d : Directory) (k : CallId) (parked : Option String) : Directory :=
  { d with
    registry := d.registry.freeing parked
    order := d.order.map (shift k)
    sweeper := d.sweeper.rename (shift k)
    calls := (d.calls.filter (·.1 != k)).map fun x => (shift k x.1, x.2)
    nextCall := d.nextCall - 1
    endings := (d.endings.filter (·.call != k)).map fun g => ⟨shift k g.call, g.result⟩ }

theorem withoutCall (other : j ≠ k) : (d.without k parked).call? (shift k j) = d.call? j := by
  simp only [call?, without]
  induction d.calls with
  | nil => rfl
  | cons x rest ih =>
    by_cases own : x.1 = k
    · have apart : (x.1 == j) = false := by simpa [own] using Ne.symm other
      rw [List.filter_cons_of_neg (by simp [own]), ih, List.find?_cons, apart]
    · rw [List.filter_cons_of_pos (by simpa using own), List.map_cons, List.find?_cons,
        List.find?_cons]
      by_cases here : x.1 = j
      · simp [here]
      · have there : (shift k x.1 == shift k j) = false := by simpa [shiftApart own other] using here
        have apart : (x.1 == j) = false := by simpa using here
        simpa only [there, apart] using ih

theorem erasedMapped (other : j ≠ k) (l : List (CallId × Call)) :
    ((l.filter (·.1 != k)).map fun x => (shift k x.1, x.2)).map
        (fun x => if x.1 == shift k j then (shift k j, c) else x) =
      (((l.map fun x => if x.1 == j then (j, c) else x).filter (·.1 != k)).map
        fun x => (shift k x.1, x.2)) := by
  have keeps : (fun x : CallId × Call => x.1 != k) ∘ (fun x => if x.1 == j then (j, c) else x) =
      fun x => x.1 != k := funext fun x => by
    rw [Function.comp_apply]
    split
    · rename_i here
      rw [beq_iff_eq.mp here]
    · rfl
  rw [List.filter_map, keeps, List.map_map, List.map_map]
  refine List.map_congr_left fun x mem => ?_
  have own : x.1 ≠ k := by simpa using (List.mem_filter.mp mem).2
  simp only [Function.comp_apply, beq_iff_eq, shiftApart own other]
  split <;> rfl

theorem erasedFiltered (other : j ≠ k) (l : List (CallId × Call)) :
    ((l.filter (·.1 != k)).map fun x => (shift k x.1, x.2)).filter (·.1 != shift k j) =
      ((l.filter (·.1 != j)).filter (·.1 != k)).map fun x => (shift k x.1, x.2) := by
  rw [List.filter_map, List.filter_filter, List.filter_filter]
  refine congrArg _ (List.filter_congr fun x _ => ?_)
  rw [Bool.eq_iff_iff]
  simp only [Function.comp_apply, Bool.and_eq_true, bne_iff_ne]
  constructor
  · rintro ⟨there, own⟩
    exact ⟨own, fun here => there (by rw [here])⟩
  · rintro ⟨own, here⟩
    exact ⟨fun there => here ((shiftApart own other).mp there), own⟩

theorem withoutMoveTo (other : j ≠ k) :
    (d.without k parked).moveTo (shift k j) c = (d.moveTo j c).without k parked := by
  simp only [moveTo, without, erasedMapped other]

theorem withoutFinish (other : j ≠ k) (result : Except Failure Answer) :
    (d.without k parked).finish (shift k j) result = (d.finish j result).without k parked := by
  simp [finish, without, erasedFiltered other, other]

theorem withoutOpen (known : k < d.nextCall) :
    (d.without k parked).open_ c = (d.open_ c).without k parked := by
  have apart : d.nextCall ≠ k := Nat.ne_of_gt known
  have next : d.nextCall - 1 + 1 = d.nextCall := Nat.sub_add_cancel (Nat.zero_lt_of_lt known)
  simp [open_, without, apart, shiftLate known, next]

theorem withoutAnswer (known : k < d.nextCall) (result : Except Failure Answer) :
    (d.without k parked).answer result = (d.answer result).without k parked := by
  have apart : d.nextCall ≠ k := Nat.ne_of_gt known
  have next : d.nextCall - 1 + 1 = d.nextCall := Nat.sub_add_cancel (Nat.zero_lt_of_lt known)
  simp [answer, without, apart, shiftLate known, next]

theorem withoutBegin (known : k < d.nextCall) (spares : d.registry.Spares parked) (request : Request) :
    (d.without k parked).begin request = (d.begin request).without k parked := by
  cases request with
  | register i =>
    simp only [begin, beginRegister]
    split
    · exact withoutAnswer known _
    · have same : (d.without k parked).cancelled = d.cancelled := rfl
      rw [same]
      split
      · exact withoutAnswer known _
      · exact withoutOpen known
  | deregister id =>
    have removal : (d.without k parked).registry.beginRemoval id = _ :=
      Registry.freeingBeginRemoval spares id
    simp only [begin, beginDeregister, removal]
    cases d.registry.beginRemoval id with
    | error failure => exact withoutAnswer known _
    | ok out => exact withoutOpen (d := { d with registry := out.1 }.cancelLoops out.2.toList) known
  | heartbeat id =>
    have heard : (d.without k parked).registry.heartbeat id d.clock = _ :=
      Registry.freeingHeartbeat d.registry id d.clock
    have same : (d.without k parked).clock = d.clock := rfl
    simp only [begin, beginHeartbeat, same, heard]
    cases d.registry.heartbeat id d.clock with
    | error failure => exact withoutAnswer known _
    | ok registry => exact withoutAnswer (d := { d with registry }) known _
  | sweep => exact withoutOpen known
  | bootstrap => exact withoutOpen known
  | start =>
    have same : (d.without k parked).started = d.started := rfl
    have every : (d.without k parked).settings = d.settings := rfl
    simp only [begin, beginStart, same, every]
    split
    · exact withoutAnswer known _
    · split
      · exact withoutAnswer (d := { d with started := true, applier := .running }) known _
      · exact withoutOpen (d := { d with
          started := true, applier := .running, sweeper := .resting d.now, unattended := true }) known
  | shutdown => exact withoutOpen (d := { d with cancelled := true }) known

structure Apart (parked : Option String) (c : Call) : Prop where
  admits : ∀ i, c = .admitting i → parked ≠ some i.id
  loads : ∀ stored at_, c = .loading stored at_ → parked = none

theorem withoutAnnounce (other : j ≠ k) (notices : List Notice) (answer : Answer) :
    (d.without k parked).announce (shift k j) notices answer =
      (d.announce j notices answer).without k parked :=
  withoutMoveTo (d := { d with order := some j }) other

theorem withoutReserving (other : j ≠ k) {i : Instance} (apart : parked ≠ some i.id) :
    (d.without k parked).reserve (shift k j) i = (d.reserve j i).without k parked := by
  have clock : (d.without k parked).clock = d.clock := rfl
  have reserves : (d.without k parked).registry.reserve i.id = _ := Registry.freeingReserve apart
  simp only [reserve, reserves, clock]
  cases d.registry.reserve i.id with
  | error failure => exact withoutFinish other _
  | ok registry => exact withoutMoveTo (d := { d with registry }) other

theorem withoutEnter (other : j ≠ k) (i : Instance) :
    (d.without k parked).enter (shift k j) i = (d.enter j i).without k parked := by
  have enters : (d.without k parked).registry.commit i = _ := Registry.freeingCommit d.registry i
  simp only [enter, enters]
  exact @withoutAnnounce ({ d with registry := (d.registry.commit i).1 }.startLoops
    (d.registry.commit i).2) k j parked other [.plain .registered i] (.instance i)

theorem withoutLeave (other : j ≠ k) (id : String) :
    (d.without k parked).leave (shift k j) id = (d.leave j id).without k parked := by
  have leaves : (d.without k parked).registry.finishRemoval id = _ :=
    Registry.freeingFinishRemoval d.registry id
  simp only [leave, leaves]
  rcases d.registry.finishRemoval id with ⟨registry, _ | i⟩
  · exact withoutFinish (d := { d with registry }) other _
  · exact withoutAnnounce (d := { d with registry }) other _ _

theorem withoutCollect (other : j ≠ k) (spares : d.registry.Spares parked) (at_ : Timestamp) :
    (d.without k parked).collect (shift k j) at_ = (d.collect j at_).without k parked := by
  have settings : (d.without k parked).settings = d.settings := rfl
  have expires : (d.without k parked).registry.expire d.settings.heartbeatTimeout at_ = _ :=
    Registry.freeingExpire spares d.settings.heartbeatTimeout at_
  simp only [collect, settings, expires]
  generalize d.registry.expire d.settings.heartbeatTimeout at_ = out
  split
  · exact withoutFinish (d := { d with registry := out.1 }.cancelLoops _) other _
  · exact withoutMoveTo (d := { d with registry := out.1 }.cancelLoops _) other

theorem withoutReleaseExpired (other : j ≠ k) (round : Round) :
    (d.without k parked).releaseExpired (shift k j) round =
      (d.releaseExpired j round).without k parked := by
  have frees : (d.without k parked).registry.release round.current.id = _ :=
    (Registry.freeingRelease d.registry round.current.id).symm
  simp only [releaseExpired, frees]
  exact withoutMoveTo (d := { d with
    registry := d.registry.release round.current.id, order := some j }) other

theorem withoutPublishExpired (other : j ≠ k) (round : Round) :
    (d.without k parked).publishExpired (shift k j) round =
      (d.publishExpired j round).without k parked := by
  simp only [publishExpired]
  split
  · exact withoutFinish (d := { d.publish _ with order := none }) other _
  · exact withoutMoveTo (d := { d.publish _ with order := none }) other

theorem withoutLoad (other : j ≠ k) (stored : List Instance) (at_ : Timestamp) :
    (d.without k none).load (shift k j) stored at_ = (d.load j stored at_).without k none := by
  have loads : (d.without k none).registry = d.registry := Registry.freeingNone d.registry
  have announces := @withoutAnnounce ({ d with registry := (d.registry.load at_ stored).1 }.startLoops
    (d.registry.load at_ stored).2.2) k j none other
    ((d.registry.load at_ stored).2.1.map (.plain .registered))
    (.count (d.registry.load at_ stored).2.1.length)
  have same : ({ d with registry := (d.registry.load at_ stored).1 }.startLoops
      (d.registry.load at_ stored).2.2).without k none =
      { d.without k none with registry := (d.registry.load at_ stored).1 }.startLoops
        (d.registry.load at_ stored).2.2 := by
    simp only [without, startLoops, Registry.freeingNone]
  simp only [load, loads]
  exact same ▸ announces

theorem withoutPublishNext (other : j ≠ k) (notices : List Notice) (answer : Answer) :
    (d.without k parked).publishNext (shift k j) notices answer =
      (d.publishNext j notices answer).without k parked := by
  simp only [publishNext]
  split
  · exact withoutFinish (d := { d with order := none }) other _
  · exact withoutMoveTo (d := d.publish _) other

theorem withoutLaunch (other : j ≠ k) :
    (d.without k parked).launch (shift k j) = (d.launch j).without k parked := by
  have finishes := @withoutFinish ({ d with registry := d.registry.run.1 }.startLoops
    d.registry.run.2) k j parked other (.ok .done)
  exact finishes

theorem withoutDrain (other : j ≠ k) :
    (d.without k parked).drain (shift k j) = (d.drain j).without k parked := by
  have moves := @withoutMoveTo ({ d with registry := d.registry.unsupervise.1 }.cancelLoops
    d.registry.unsupervise.2) k j (.stilling d.registry.unsupervise.2) parked other
  exact moves

theorem withoutAttend (other : j ≠ k) :
    (d.without k parked).attend (shift k j) = (d.attend j).without k parked := by
  have moves := @withoutMoveTo { d with unattended := false } k j (.joining d.unattended) parked
    other
  exact moves

theorem withoutBackground : (d.without k parked).backgroundOver = d.backgroundOver := by
  simp only [backgroundOver, without]
  cases d.sweeper <;> rfl

theorem withoutProceed (other : j ≠ k) (spares : d.registry.Spares parked) {c : Call}
    (apart : Apart parked c) :
    (d.without k parked).proceedWith (shift k j) c =
      (d.proceedWith j c).map (·.without k parked) := by
  have loops : (d.without k parked).loopRuns = d.loopRuns := rfl
  have order : (d.without k parked).order.isNone = d.order.isNone := by simp [without]
  cases c with
  | admitting i => exact congrArg some (withoutReserving other (apart.admits i rfl))
  | entering i =>
    simp only [proceedWith, order, withoutEnter other]
    split <;> rfl
  | quieting id loop =>
    simp only [proceedWith, loops, withoutMoveTo other]
    split <;> rfl
  | leaving id =>
    simp only [proceedWith, order, withoutLeave other]
    split <;> rfl
  | collecting at_ => exact congrArg some (withoutCollect other spares at_)
  | hushing epochs round =>
    simp only [proceedWith, loops, withoutMoveTo other]
    split <;> rfl
  | releasing round =>
    simp only [proceedWith, order, withoutReleaseExpired other]
    split <;> rfl
  | expiring round => exact congrArg some (withoutPublishExpired other round)
  | loading stored at_ =>
    obtain rfl := apart.loads stored at_ rfl
    simp only [proceedWith, order, withoutLoad other]
    split <;> rfl
  | announcing notices answer => exact congrArg some (withoutPublishNext other notices answer)
  | launching =>
    simp only [proceedWith, order, withoutLaunch other]
    split <;> rfl
  | draining => exact congrArg some (withoutDrain other)
  | stilling epochs =>
    simp only [proceedWith, loops, withoutAttend other]
    split <;> rfl
  | joining waits =>
    simp only [proceedWith, withoutBackground, withoutFinish other]
    split <;> rfl
  | saving | deleting | purging | listing => rfl

theorem withoutReleased (d : Directory) (k : Nat) (parked : Option String) (id : String) :
    { d.without k parked with registry := (d.without k parked).registry.release id } =
      { d with registry := d.registry.release id }.without k parked := by
  simp only [without, Registry.freeingRelease]

theorem withoutSettle (other : j ≠ k) (failure : Option Failure) :
    (d.without k parked).settle (shift k j) failure =
      (d.settle j failure).map (·.without k parked) := by
  simp only [settle, withoutCall other]
  cases d.call? j with
  | none => rfl
  | some c =>
    cases c with
    | saving i =>
      cases failure with
      | none =>
        have moves := @withoutMoveTo { d with store := stored d.store (.save i) } k j
        exact congrArg some (moves other)
      | some failure =>
        have finishes := @withoutFinish { d with registry := d.registry.release i.id } k j parked other
          (.error failure)
        rw [← withoutReleased] at finishes
        exact congrArg some finishes
    | deleting id =>
      cases failure with
      | none =>
        have moves := @withoutMoveTo { d with store := stored d.store (.delete id) } k j
        exact congrArg some (moves other)
      | some failure => exact congrArg some (withoutMoveTo other)
    | purging round =>
      cases failure with
      | none =>
        have moves := @withoutMoveTo { d with store := stored d.store (.delete round.current.id) } k j
        exact congrArg some (moves other)
      | some failure => exact congrArg some (withoutMoveTo other)
    | listing =>
      cases failure with
      | none =>
        have moves := @withoutMoveTo d k j (.loading d.storeList d.clock) parked other
        exact congrArg some moves
      | some failure => exact congrArg some (withoutFinish other _)
    | _ => rfl

theorem withoutListing (other : j ≠ k) (stored : List Instance) :
    (d.without k parked).answerListing (shift k j) stored =
      (d.answerListing j stored).map (·.without k parked) := by
  simp only [answerListing, withoutCall other]
  split
  · exact congrArg some (withoutMoveTo other)
  · rfl

theorem withoutDropped (other : j ≠ k) :
    { d.without k parked with calls := (d.without k parked).calls.filter (·.1 != shift k j) } =
      { d with calls := d.calls.filter (·.1 != j) }.without k parked := by
  simp only [without, erasedFiltered other]

theorem withoutAbandon (other : j ≠ k) :
    (d.without k parked).abandon (shift k j) = (d.abandon j).map (·.without k parked) := by
  simp only [abandon, withoutCall other]
  cases d.call? j with
  | none => rfl
  | some c =>
    simp only [bind, Option.bind_some]
    split
    · refine congrArg some ?_
      cases c.guarded? with
      | none => exact withoutDropped other
      | some id =>
        have drops := @withoutDropped { d with registry := d.registry.release id } k j parked other
        rw [← withoutReleased] at drops
        exact drops
    · rfl

theorem withoutReport (known : k < d.nextCall) (spares : d.registry.Spares parked) (report : Report) :
    (d.without k parked).applyReport report = (d.applyReport report).map (·.without k parked) := by
  cases report with
  | passed id epoch at_ =>
    have passes : (d.without k parked).registry.passed id epoch at_ = _ :=
      Registry.freeingPassed d.registry id epoch at_
    simp only [applyReport, passes]
    rfl
  | transition id epoch before after result =>
    have applies : (d.without k parked).registry.apply d.settings.refreshOnPass d.clock
        (.transition id epoch before after result) = _ := Registry.freeingApply spares _ _ _
    have order : (d.without k parked).order.isSome = d.order.isSome := by simp [without]
    have clock : (d.without k parked).clock = d.clock := rfl
    have settings : (d.without k parked).settings = d.settings := rfl
    simp only [applyReport, order, clock, settings, applies]
    generalize d.registry.apply _ _ _ = out
    split
    · rfl
    · rcases out with ⟨registry, _ | event⟩
      · rfl
      · have opens := @withoutOpen { d with registry, order := some d.nextCall } k
          (.announcing [.stamped event] .done) parked known
        have same : ({ d with registry, order := some d.nextCall } : Directory).without k parked =
            { d.without k parked with
              registry := registry.freeing parked, order := some (d.without k parked).nextCall } := by
          simp only [without, Option.map_some, shiftLate known]
        exact congrArg some (same ▸ opens)

theorem withoutReports (lined : d.Lined) (silent : ∀ c, d.call? k = some c → c.reports = false) :
    (d.without k parked).calls.any (·.2.reports) = d.calls.any (·.2.reports) := by
  rw [Bool.eq_iff_iff, List.any_eq_true, List.any_eq_true]
  constructor
  · rintro ⟨x, mem, reports⟩
    obtain ⟨y, kept, rfl⟩ := List.mem_map.mp mem
    exact ⟨y, (List.mem_filter.mp kept).1, reports⟩
  · rintro ⟨x, mem, reports⟩
    refine ⟨(shift k x.1, x.2), List.mem_map.mpr ⟨x, List.mem_filter.mpr ⟨mem, ?_⟩, rfl⟩, reports⟩
    refine bne_iff_ne.mpr fun own => ?_
    rw [silent x.2 (own ▸ callOfMem lined mem)] at reports
    cases reports

theorem withoutApplyNext (known : k < d.nextCall) (spares : d.registry.Spares parked) :
    (d.without k parked).applyNext = d.applyNext.map (·.without k parked) := by
  have queue : (d.without k parked).reports = d.reports := rfl
  have applier : (d.without k parked).applier = d.applier := rfl
  have cancelled : (d.without k parked).cancelled = d.cancelled := rfl
  simp only [applyNext, queue, applier, cancelled]
  cases d.reports with
  | nil => rfl
  | cons report rest =>
    simp only
    split
    · exact withoutReport (d := { d with reports := rest }) known spares report
    · rfl

theorem withoutEndApplier (lined : d.Lined)
    (silent : ∀ c, d.call? k = some c → c.reports = false) :
    (d.without k parked).endApplier = d.endApplier.map (·.without k parked) := by
  have cancelled : (d.without k parked).cancelled = d.cancelled := rfl
  have applier : (d.without k parked).applier = d.applier := rfl
  simp only [endApplier, applier, cancelled, withoutReports lined silent]
  split <;> rfl

theorem withoutSweepTick (known : k < d.nextCall) :
    (d.without k parked).sweepTick = d.sweepTick.map (·.without k parked) := by
  have sweeper : (d.without k parked).sweeper = d.sweeper.rename (shift k) := rfl
  have cancelled : (d.without k parked).cancelled = d.cancelled := rfl
  have now : (d.without k parked).now = d.now := rfl
  have settings : (d.without k parked).settings = d.settings := rfl
  simp only [sweepTick, sweeper, cancelled, now, settings]
  cases d.sweeper with
  | resting due =>
    simp only [Sweeper.rename]
    split
    · have opens := @withoutOpen { d with
        sweeper := .sweeping d.nextCall (Health.tickAfter d.settings.sweepInterval due d.now) } k
        (.collecting d.clock) parked known
      have sweeping (next : Nat) : ({ d with sweeper := .sweeping d.nextCall next } :
          Directory).without k parked = { d.without k parked with
            sweeper := .sweeping (d.without k parked).nextCall next } := by
        simp only [without, Sweeper.rename, shiftLate known]
      exact congrArg some (sweeping _ ▸ opens)
    · rfl
  | _ => rfl

theorem withoutEndSweeper (unswept : ∀ due, d.sweeper ≠ .sweeping k due) :
    (d.without k parked).endSweeper = d.endSweeper.map (·.without k parked) := by
  have sweeper : (d.without k parked).sweeper = d.sweeper.rename (shift k) := rfl
  have cancelled : (d.without k parked).cancelled = d.cancelled := rfl
  simp only [endSweeper, sweeper, cancelled]
  cases sweeps : d.sweeper with
  | sweeping j due =>
    have apart : j ≠ k := fun same => unswept due (same ▸ sweeps)
    simp only [Sweeper.rename, withoutCall apart]
    split <;> rfl
  | resting due =>
    simp only [Sweeper.rename]
    split <;> rfl
  | _ => rfl

theorem withoutReorder (records : Table Record) :
    (d.without k parked).reorder records = (d.reorder records).map (·.without k parked) := by
  have same : (d.without k parked).registry.records = d.registry.records := rfl
  simp only [reorder, same]
  split <;> rfl

theorem withoutBeginProbe (epoch : Nat) (outcome : Health.Outcome) :
    (d.without k parked).beginProbe epoch outcome =
      (d.beginProbe epoch outcome).map (·.without k parked) := by
  have settings : (d.without k parked).settings = d.settings := rfl
  have now : (d.without k parked).now = d.now := rfl
  have loop : (d.without k parked).loop? epoch = d.loop? epoch := rfl
  have stopped (l : RunningLoop) : (d.without k parked).stopped l = d.stopped l := rfl
  simp only [beginProbe, loop]
  cases d.loop? epoch with
  | none => rfl
  | some l =>
    simp only [bind, Option.bind_some, stopped, settings, now]
    split
    · rfl
    · cases l.check.beginProbe d.settings.loop outcome d.now <;> rfl

theorem withoutEndProbe (epoch : Nat) :
    (d.without k parked).endProbe epoch = (d.endProbe epoch).map (·.without k parked) := by
  have settings : (d.without k parked).settings = d.settings := rfl
  have now : (d.without k parked).now = d.now := rfl
  have clock : (d.without k parked).clock = d.clock := rfl
  have loop : (d.without k parked).loop? epoch = d.loop? epoch := rfl
  have stopped (l : RunningLoop) : (d.without k parked).stopped l = d.stopped l := rfl
  simp only [endProbe, loop]
  cases d.loop? epoch with
  | none => rfl
  | some l =>
    simp only [bind, Option.bind_some, stopped, settings, now, clock]
    split
    · rfl
    · cases l.check.endProbe d.settings.loop d.now d.clock <;> rfl

theorem withoutEndLoop (epoch : Nat) :
    (d.without k parked).endLoop epoch = (d.endLoop epoch).map (·.without k parked) := by
  have settings : (d.without k parked).settings = d.settings := rfl
  have loop : (d.without k parked).loop? epoch = d.loop? epoch := rfl
  have stopped (l : RunningLoop) : (d.without k parked).stopped l = d.stopped l := rfl
  simp only [endLoop, loop]
  cases d.loop? epoch with
  | none => rfl
  | some l =>
    simp only [bind, Option.bind_some, stopped, settings]
    split <;> rfl

theorem withoutStep (lined : d.Lined) (known : k < d.nextCall) (spares : d.registry.Spares parked)
    (unswept : ∀ due, d.sweeper ≠ .sweeping k due)
    (silent : ∀ c, d.call? k = some c → c.reports = false)
    (other : a.call? ≠ some k)
    (apart : ∀ j c, a = .proceed j → d.call? j = some c → Apart parked c)
    (next : d.step a = some e) :
    (d.without k parked).step (a.rename (shift k)) = some (e.without k parked) := by
  suffices same : (d.without k parked).step (a.rename (shift k)) =
      (d.step a).map (·.without k parked) by
    rw [same, next]
    rfl
  cases a with
  | begin request => exact congrArg some (withoutBegin known spares request)
  | proceed j =>
    have other : j ≠ k := fun same => other (congrArg some same)
    simp only [Action.rename, step, proceed, withoutCall other]
    cases found : d.call? j with
    | none => rfl
    | some c => exact withoutProceed other spares (apart j c rfl found)
  | settle j failure => exact withoutSettle (fun same => other (congrArg some same)) failure
  | abandon j => exact withoutAbandon fun same => other (congrArg some same)
  | listed j stored => exact withoutListing (fun same => other (congrArg some same)) stored
  | applyNext => exact withoutApplyNext known spares
  | applyDirect report => exact withoutReport known spares report
  | endApplier => exact withoutEndApplier lined silent
  | sweepTick => exact withoutSweepTick known
  | endSweeper => exact withoutEndSweeper unswept
  | beginProbe epoch outcome => exact withoutBeginProbe epoch outcome
  | endProbe epoch => exact withoutEndProbe epoch
  | endLoop epoch => exact withoutEndLoop epoch
  | reorder records => exact withoutReorder records
  | watch | takeEvent | closeWatcher | storeDirect | pass | setClock => rfl

end Directory
end ServiceDirectory
