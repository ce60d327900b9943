import ServiceDirectory.Proofs.Erasure
import ServiceDirectory.Proofs.Stock

/-! Calls that fail. Until it fails a call has only waited: it has at most an id in flight, and lets it
go. So the run without the call is a run too, and ends with the same records and the same events. -/
namespace ServiceDirectory

inductive Call.Waits : Request → Call → Prop where
  | admitting {i : Instance} : Waits (.register i) (.admitting i)
  | saving {i j : Instance} (same : j.id = i.id) : Waits (.register i) (.saving j)
  | listing : Waits .bootstrap .listing

def Call.saved? : Call → Option String
  | .saving i => some i.id
  | _ => none

/-- While the call `k` waits for its save, another is let in with its id, or instances are loaded. -/
def Stride.clashes (k : CallId) (s : Stride) : Bool :=
  match s.before.call? k, s.action with
  | some (.saving i), .proceed j =>
    match s.before.call? j with
    | some (.admitting own) => own.id == i.id
    | some (.loading _ _) => true
    | _ => false
  | _, _ => false

namespace Directory
variable {d e : Directory} {a : Action} {k : CallId} {c : Call} {request : Request}

def parked? (d : Directory) (k : CallId) : Option String := (d.call? k).bind Call.saved?

theorem parkedSpares (custody : d.Custody) (k : CallId) : d.registry.Spares (d.parked? k) := by
  intro id same
  obtain ⟨c, found, saved⟩ := Option.bind_eq_some_iff.mp same
  cases c with
  | saving i =>
    cases saved
    exact custody.kept.vacant i
      (List.mem_flatMap.mpr ⟨_, memOfCall found, List.mem_singleton_self i⟩)
  | _ => cases saved

structure Known (d : Directory) : Prop where
  endings : ∀ g ∈ d.endings, g.call < d.nextCall
  order : ∀ j, d.order = some j → j < d.nextCall
  sweeper : ∀ j due, d.sweeper = .sweeping j due → j < d.nextCall

theorem withStoreKnown (settings : DirectorySettings) (store : Table Instance) :
    (withStore settings store).Known where
  endings g mem := by cases mem
  order j holds := by cases holds
  sweeper j due sweeps := by cases sweeps

theorem Known.unended (h : d.Known) : d.ending? d.nextCall = none := by
  rw [ending?, List.find?_eq_none.mpr fun g mem => by simpa using Nat.ne_of_lt (h.endings g mem)]
  rfl

theorem knownStep (lined : d.Lined) (h : d.Known) (next : d.step a = some e) : e.Known := by
  obtain ⟨k, before, after, result, told, runs⟩ := stepRuns lined next
  refine ⟨fun g mem => ?_, fun j holds => ?_, fun j due sweeps => ?_⟩
  · rw [runs.endings] at mem
    rcases List.mem_append.mp mem with new | old
    · obtain ⟨x, some, rfl⟩ := List.mem_map.mp new
      refine runs.known (.inr (.inr ?_))
      rintro rfl
      cases some
    · exact Nat.lt_of_lt_of_le (h.endings g old) runs.grows
  · obtain ⟨k, before, after, told, happens⟩ := stepTurns lined next
    rw [happens.order, orderAfter] at holds
    split at holds
    · rename_i announces
      cases holds
      obtain ⟨first, last, _, is⟩ := happens.calls
      cases after with
      | none => cases announces
      | some c => exact (linedHappens lined happens).recent (j, c) (by simp [is])
    · split at holds
      · cases holds
      · exact Nat.lt_of_lt_of_le (h.order j holds) runs.grows
  · cases stepDeed next with
    | ticked => cases sweeps; exact Nat.lt_succ_self _
    | starting => cases sweeps
    | sweeperTurned =>
      rcases endSweeperIs next with ⟨_, _, _, _, same⟩ | ⟨_, _, same⟩ <;>
        rw [same] at sweeps <;> cases sweeps
    | _ => exact Nat.lt_of_lt_of_le (h.sweeper j due sweeps) runs.grows

theorem withoutEarlier (lined : d.Lined) (known : d.Known) : d.without d.nextCall none =
    { d with nextCall := d.nextCall - 1 } := by
  have calls : (d.calls.filter (·.1 != d.nextCall)).map (fun x => (shift d.nextCall x.1, x.2)) =
      d.calls := by
    rw [List.filter_eq_self.mpr fun x mem => by simpa using Nat.ne_of_lt (lined.recent x mem)]
    conv => rhs; rw [← List.map_id d.calls]
    exact List.map_congr_left fun x mem => by rw [shiftEarly (Nat.le_of_lt (lined.recent x mem))]; rfl
  have endings : (d.endings.filter (·.call != d.nextCall)).map
      (fun g => ⟨shift d.nextCall g.call, g.result⟩) = d.endings := by
    rw [List.filter_eq_self.mpr fun g mem => by simpa using Nat.ne_of_lt (known.endings g mem)]
    conv => rhs; rw [← List.map_id d.endings]
    exact List.map_congr_left fun g mem => by rw [shiftEarly (Nat.le_of_lt (known.endings g mem))]; rfl
  have order : d.order.map (shift d.nextCall) = d.order := by
    cases holder : d.order with
    | none => rfl
    | some j => rw [Option.map_some, shiftEarly (Nat.le_of_lt (known.order j holder))]
  have sweeper : d.sweeper.rename (shift d.nextCall) = d.sweeper := by
    cases sweeps : d.sweeper with
    | sweeping j due =>
      rw [Sweeper.rename, shiftEarly (Nat.le_of_lt (known.sweeper j due sweeps))]
    | _ => rfl
  simp only [without, calls, endings, order, sweeper, Registry.freeingNone]

theorem withoutOpened (lined : d.Lined) (known : d.Known) (c : Call) :
    (d.open_ c).without d.nextCall none = d := by
  have earlier := withoutEarlier lined known
  have same : (d.open_ c).without d.nextCall none =
      { d.without d.nextCall none with nextCall := d.nextCall } := by
    simp [open_, without]
  rw [same, earlier]

theorem withoutAnswered (lined : d.Lined) (known : d.Known) (result : Except Failure Answer) :
    (d.answer result).without d.nextCall none = d := by
  have earlier := withoutEarlier lined known
  have same : (d.answer result).without d.nextCall none =
      { d.without d.nextCall none with nextCall := d.nextCall } := by
    simp [answer, without]
  rw [same, earlier]

structure NeverFails (k : CallId) (d : Directory) : Prop where
  known : k < d.nextCall
  result : ∀ failure, d.ending? k ≠ some (.error failure)
  call : ∀ request c, d.call? k = some c → ¬c.Waits request

theorem neverFailsStep (custody : d.Custody) (removing : d.Removing) (h : NeverFails k d)
    (next : d.step a = some e) : NeverFails k e := by
  obtain ⟨j, before, after, result, told, runs⟩ := stepRuns custody.lined next
  have begun (own : k = d.nextCall) : False := Nat.ne_of_lt h.known own
  refine ⟨Nat.lt_of_lt_of_le h.known runs.grows, fun failure => ?_, fun request c => ?_⟩
  · rw [runs.ending]
    split
    · rename_i own
      subst own
      have was := runs.was
      cases runs.course with
      | refused => exact (begun rfl).elim
      | turnedAway => exact (h.call _ _ was .admitting).elim
      | unsaved => exact (h.call _ _ was (.saving rfl)).elim
      | unlisted => exact (h.call _ _ was .listing).elim
      | @missed _ id gone =>
        have live := removing id (List.mem_flatMap.mpr ⟨_, memOfCall was, List.mem_singleton_self id⟩)
        rw [Table.holdsIff, gone] at live
        cases live
      | _ => first | exact h.result failure | exact nofun
    · exact h.result failure
  · intro found waits
    rw [runs.calls] at found
    split at found
    · rename_i own
      subst own found
      have was := runs.was
      cases waits with
      | admitting => cases runs.course with | opened => exact begun rfl
      | saving =>
        cases runs.course with
        | opened => exact begun rfl
        | reserved => exact h.call _ _ was .admitting
      | listing => cases runs.course with | opened => exact begun rfl
    · exact h.call request c found waits

structure Erasing (k : CallId) (request : Request) (d : Directory) : Prop where
  custody : d.Custody
  removing : d.Removing
  known : k < d.nextCall
  unswept : ∀ due, d.sweeper ≠ .sweeping k due
  waits : ∀ c, d.call? k = some c → c.Waits request
  ended : ∀ result, d.ending? k = some result → d.call? k = none

theorem Erasing.silent (h : Erasing k request d) {c : Call} (found : d.call? k = some c) :
    c.reports = false := by
  cases h.waits c found <;> rfl

theorem parkedBy {id : String} (parks : d.parked? k = some id) :
    ∃ i, d.call? k = some (.saving i) ∧ i.id = id := by
  obtain ⟨c, found, saved⟩ := Option.bind_eq_some_iff.mp parks
  cases c with
  | saving i => cases saved; exact ⟨i, found, rfl⟩
  | _ => cases saved

theorem otherStep (h : Erasing k request d) (other : a.call? ≠ some k)
    (apart : (⟨d, a, e⟩ : Stride).clashes k = false) (next : d.step a = some e) :
    Erasing k request e ∧
      (d.without k (d.parked? k)).step (a.rename (shift k)) = some (e.without k (e.parked? k)) := by
  obtain ⟨j, before, after, result, told, runs⟩ := stepRuns h.custody.lined next
  have begun (own : k = d.nextCall) : False := Nat.ne_of_lt h.known own
  have turn : k ≠ j := by
    rintro rfl
    cases before with
    | none => exact begun (runs.course.fresh rfl)
    | some c => exact other (runs.course.about nofun)
  have call : e.call? k = d.call? k := (runs.calls k).trans (if_neg turn)
  have ending : e.ending? k = d.ending? k := (runs.ending k).trans (if_neg turn)
  have parks : e.parked? k = d.parked? k := by rw [parked?, call, parked?]
  refine ⟨⟨custodyStep h.custody next, removingStep h.custody h.removing next,
    Nat.lt_of_lt_of_le h.known runs.grows, fun due sweeps => ?_, call ▸ h.waits,
    call ▸ ending ▸ h.ended⟩, ?_⟩
  · cases stepDeed next with
    | ticked => cases sweeps; exact begun rfl
    | starting => cases sweeps
    | sweeperTurned =>
      rcases endSweeperIs next with ⟨_, _, _, _, same⟩ | ⟨_, _, same⟩ <;>
        rw [same] at sweeps <;> cases sweeps
    | _ => exact h.unswept due sweeps
  · rw [parks]
    refine withoutStep h.custody.lined h.known (parkedSpares h.custody k) h.unswept
      (fun c => h.silent) other (fun j c acts found => ⟨fun i is same => ?_, fun stored at_ is => ?_⟩) next
    · obtain ⟨i', saving, own⟩ := parkedBy same
      subst acts is
      simp [Stride.clashes, saving, found, own] at apart
    · refine Option.eq_none_iff_forall_ne_some.mpr fun id same => ?_
      obtain ⟨i, saving, own⟩ := parkedBy same
      subst acts is
      simp [Stride.clashes, saving, found] at apart

theorem withoutMoved (c : Call) (parked : Option String) :
    (d.moveTo k c).without k parked = d.without k parked := by
  have keeps : (fun x : CallId × Call => x.1 != k) ∘ (fun x => if x.1 == k then (k, c) else x) =
      fun x => x.1 != k := funext fun x => by
    rw [Function.comp_apply]
    split
    · rename_i here
      rw [beq_iff_eq.mp here]
    · rfl
  have calls : ((d.moveTo k c).calls.filter (·.1 != k)) = d.calls.filter (·.1 != k) := by
    rw [moveTo, List.filter_map, keeps]
    conv => rhs; rw [← List.map_id (d.calls.filter _)]
    refine List.map_congr_left fun x mem => ?_
    have other : x.1 ≠ k := by simpa using (List.mem_filter.mp mem).2
    simp [other]
  simp only [without, calls]
  rfl

theorem withoutFinished (result : Except Failure Answer) (parked : Option String) :
    (d.finish k result).without k parked = d.without k parked := by
  simp [finish, without, List.filter_filter]

theorem parkedNone (gone : d.call? k = none) : d.parked? k = none := by rw [parked?, gone]; rfl

theorem withoutReserve {i : Instance} (found : d.call? k = some (.admitting i)) :
    (d.reserve k i).without k ((d.reserve k i).parked? k) = d.without k (d.parked? k) := by
  have waits : d.parked? k = none := by rw [parked?, found]; rfl
  rw [waits]
  cases busy : d.registry.busy i.id with
  | true =>
    have is : d.reserve k i = d.finish k (.error (Registry.alreadyRegistered i.id)) := by
      simp only [reserve, Registry.reserve, busy, if_true]
    have left : (d.finish k (.error (Registry.alreadyRegistered i.id))).call? k = none := by
      rw [callLeft rfl, if_pos rfl]
    rw [is, parkedNone left, withoutFinished]
  | false =>
    have is : d.reserve k i = { d with registry := d.registry.park i.id }.moveTo k
        (.saving (Registry.stamped i d.clock)) := by
      simp only [reserve, Registry.reserve, busy, Bool.false_eq_true, if_false]
    have parks : (d.reserve k i).parked? k = some i.id := by
      rw [is, parked?, callMoved (d := { d with registry := d.registry.park i.id }) found rfl,
        if_pos rfl]
      rfl
    have back := Registry.freeingParked ((Registry.freeIff _ _).mp busy).2
    rw [parks, is, withoutMoved]
    simp only [without, back, Registry.freeingNone]

theorem reserveSweeper {i : Instance} (is : d.reserve k i = e) : e.sweeper = d.sweeper := by
  subst is
  unfold reserve
  split <;> rfl

theorem withoutUnsaved {i : Instance} {failure : Failure} (found : d.call? k = some (.saving i)) :
    ({ d with registry := d.registry.release i.id }.finish k (.error failure)).without k none =
      d.without k (d.parked? k) := by
  have parks : d.parked? k = some i.id := by rw [parked?, found]; rfl
  rw [parks, withoutFinished]
  simp only [without, Registry.freeingNone, Registry.freeingSome]

theorem ownStep (h : Erasing k request d) (own : a.call? = some k) (next : d.step a = some e) :
    (Erasing k request e ∧ e.without k (e.parked? k) = d.without k (d.parked? k)) ∨
      NeverFails k e := by
  obtain ⟨j, before, after, result, told, runs⟩ := stepRuns h.custody.lined next
  obtain rfl := runs.course.turn own
  have known := Nat.lt_of_lt_of_le h.known runs.grows
  obtain ⟨c, rfl⟩ : ∃ c, before = some c := Option.ne_none_iff_exists'.mp fun none =>
    Nat.ne_of_lt h.known (runs.course.fresh none)
  have waits := h.waits c runs.was
  have unended : d.ending? j = none := Option.eq_none_iff_forall_ne_some.mpr fun result ends => by
    have gone := h.ended result ends
    rw [runs.was] at gone
    cases gone
  have stays (fits : ∀ c, e.call? j = some c → c.Waits request) (sweeper : e.sweeper = d.sweeper)
      (ended : ∀ result, e.ending? j = some result → e.call? j = none) : Erasing j request e :=
    ⟨custodyStep h.custody next, removingStep h.custody h.removing next, known,
      fun due sweeps => h.unswept due (sweeper ▸ sweeps), fits, ended⟩
  have never (fine : ∀ failure, result ≠ some (.error failure))
      (past : ∀ request c, after = some c → ¬c.Waits request) : NeverFails j e := by
    refine ⟨known, fun failure => ?_, fun request c => ?_⟩
    · rw [runs.ending, if_pos rfl, unended, Option.or_none]
      exact fine failure
    · rw [runs.calls, if_pos rfl]
      exact past request c
  have left (gone : after = none) : e.call? j = none := by rw [runs.calls, if_pos rfl, gone]
  cases runs.course with
  | @turnedAway _ i =>
    have is : d.reserve j i = e := Option.some.inj (proceedsWith runs.was next)
    refine .inl ⟨stays (fun c found => ?_) (reserveSweeper is) fun _ _ => left rfl,
      is ▸ withoutReserve runs.was⟩
    rw [left rfl] at found
    cases found
  | @reserved _ i =>
    have is : d.reserve j i = e := Option.some.inj (proceedsWith runs.was next)
    refine .inl ⟨stays (fun c found => ?_) (reserveSweeper is) fun result ends => ?_,
      is ▸ withoutReserve runs.was⟩
    · rw [runs.calls, if_pos rfl] at found
      cases found
      cases waits
      exact .saving rfl
    · rw [runs.ending, if_pos rfl, unended] at ends
      cases ends
  | @unsaved _ i failure =>
    have next : d.settle j (some failure) = some e := next
    have is : e = { d with registry := d.registry.release i.id }.finish j (.error failure) := by
      simpa [settle, runs.was, Call.storeWork?] using next.symm
    refine .inl ⟨stays (fun c found => ?_) (is ▸ rfl) fun _ _ => left rfl, ?_⟩
    · rw [left rfl] at found
      cases found
    · rw [parkedNone (left rfl), is]
      exact withoutUnsaved runs.was
  | @unlisted _ failure =>
    have next : d.settle j (some failure) = some e := next
    have is : e = d.finish j (.error failure) := by
      simpa [settle, runs.was, Call.storeWork?] using next.symm
    refine .inl ⟨stays (fun c found => ?_) (is ▸ rfl) fun _ _ => left rfl, ?_⟩
    · rw [left rfl] at found
      cases found
    · have parks : d.parked? j = none := by rw [parked?, runs.was]; rfl
      rw [parkedNone (left rfl), parks, is, withoutFinished]
  | missed => cases waits
  | _ => exact .inr (never (by rintro _ ⟨⟩) (by rintro _ _ ⟨⟩ ⟨⟩))

theorem neverFailsSteps {actions : List Action} (custody : d.Custody) (removing : d.Removing)
    (h : NeverFails k d) (run : d.steps actions = some e) : NeverFails k e := by
  have all : e.Custody ∧ e.Removing ∧ NeverFails k e :=
    trailHolds (P := fun d => d.Custody ∧ d.Removing ∧ NeverFails k d) ⟨custody, removing, h⟩ run
      fun _ _ next ⟨custody, removing, h⟩ =>
        ⟨custodyStep custody next, removingStep custody removing next,
          neverFailsStep custody removing h next⟩
  exact all.2.2

theorem erasedSteps {actions : List Action} {failure : Failure} (h : Erasing k request d)
    (run : d.steps actions = some e) (failed : e.ending? k = some (.error failure))
    (apart : ∀ s ∈ d.trail actions, s.clashes k = false) :
    (d.without k (d.parked? k)).steps (actions.filterMap (·.without k)) = some (e.without k none) := by
  induction actions generalizing d with
  | nil =>
    cases run
    rw [parkedNone (h.ended _ failed)]
    rfl
  | cons a rest ih =>
    obtain ⟨m, next, run⟩ := Option.bind_eq_some_iff.mp run
    rw [trailNext next] at apart
    obtain ⟨mine, others⟩ := List.forall_mem_cons.mp apart
    by_cases own : a.call? = some k
    · have dropped : a.without k = none := if_pos own
      rw [List.filterMap_cons_none dropped]
      rcases ownStep h own next with ⟨h, same⟩ | never
      · rw [← same]
        exact ih h run others
      · have never := neverFailsSteps (custodyStep h.custody next)
          (removingStep h.custody h.removing next) never run
        exact absurd failed (never.result failure)
    · have kept : a.without k = some (a.rename (shift k)) := if_neg own
      obtain ⟨h, next⟩ := otherStep h own mine next
      rw [List.filterMap_cons_some kept]
      exact Option.bind_eq_some_iff.mpr ⟨_, next, ih h run others⟩

theorem begunErasing (custody : d.Custody) (removing : d.Removing) (known : d.Known)
    (next : d.step (.begin request) = some e) :
    (Erasing d.nextCall request e ∧ e.without d.nextCall (e.parked? d.nextCall) = d) ∨
      NeverFails d.nextCall e := by
  have lined := custody.lined
  have unended := known.unended
  have unswept (sweeper : e.sweeper = d.sweeper) (due : Nat) : e.sweeper ≠ .sweeping d.nextCall due :=
    fun sweeps => Nat.lt_irrefl _ (known.sweeper _ due (sweeper ▸ sweeps))
  have never {c : Call} (calls : e.calls = d.calls ++ [(d.nextCall, c)])
      (endings : e.endings = d.endings) (nextCall : e.nextCall = d.nextCall + 1)
      (past : ∀ request, ¬c.Waits request) : NeverFails d.nextCall e := by
    refine ⟨nextCall ▸ Nat.lt_succ_self _, fun failure ends => ?_, fun request c' found => ?_⟩
    · rw [ending?, endings, ← ending?, unended] at ends
      cases ends
    · rw [callOpened lined calls, if_pos rfl] at found
      cases found
      exact past request
  have settled {answer : Answer} (calls : e.calls = d.calls)
      (endings : e.endings = ⟨d.nextCall, .ok answer⟩ :: d.endings)
      (nextCall : e.nextCall = d.nextCall + 1) : NeverFails d.nextCall e := by
    refine ⟨nextCall ▸ Nat.lt_succ_self _, fun failure ends => ?_, fun request c found => ?_⟩
    · simp [ending?, endings] at ends
    · rw [call?, calls, ← call?, callNone lined] at found
      cases found
  have waiting {c : Call} (is : e = d.open_ c) (waits : c.Waits request) (saves : c.saved? = none) :
      Erasing d.nextCall request e ∧ e.without d.nextCall (e.parked? d.nextCall) = d := by
    subst is
    have call : (d.open_ c).call? d.nextCall = some c := by rw [callOpened lined rfl, if_pos rfl]
    refine ⟨⟨custodyStep custody next, removingStep custody removing next, Nat.lt_succ_self _,
      unswept rfl, fun c' found => ?_, fun result ends => ?_⟩, ?_⟩
    · cases found.symm.trans call
      exact waits
    · cases ends.symm.trans unended
    · rw [parked?, call, Option.bind_some, saves]
      exact withoutOpened lined known c
  cases stepDeed next with
  | @refused _ failure =>
    have gone : (d.answer (.error failure)).call? d.nextCall = none := callNone lined
    refine .inl ⟨⟨custodyStep custody next, removingStep custody removing next, Nat.lt_succ_self _,
      unswept rfl, fun c found => ?_, fun _ _ => gone⟩, ?_⟩
    · cases found.symm.trans gone
    · rw [parkedNone gone]
      exact withoutAnswered lined known _
  | heard => exact .inr (settled rfl rfl rfl)
  | broke => exact .inr (settled rfl rfl rfl)
  | opened opens =>
    cases opens with
    | register => exact .inl (waiting rfl .admitting rfl)
    | sweep => exact .inr (never rfl rfl rfl fun _ waits => by cases waits)
    | bootstrap => exact .inl (waiting rfl .listing rfl)
  | removing | starting | closing => exact .inr (never rfl rfl rfl fun _ waits => by cases waits)
  | passed ofReport | ignored ofReport | moved ofReport => simp at ofReport

structure Recounted (d : Directory) : Prop where
  custody : d.Custody
  removing : d.Removing
  known : d.Known

theorem recountedSteps {settings : DirectorySettings} {store : Table Instance} {actions : List Action}
    (run : (withStore settings store).steps actions = some d) : d.Recounted :=
  trailHolds (P := Recounted) ⟨withStoreCustody settings store, emptyRemoving settings,
      withStoreKnown settings store⟩ run fun _ _ next h =>
    ⟨custodyStep h.custody next, removingStep h.custody h.removing next,
      knownStep h.custody.lined h.known next⟩

theorem unsavedFree (custody : d.Custody) {i : Instance} {failure : Failure}
    (found : d.call? k = some (.saving i)) (next : d.step (.settle k (some failure)) = some e) :
    e.registry.busy i.id = false := by
  have next : d.settle k (some failure) = some e := next
  have is : e = { d with registry := d.registry.release i.id }.finish k (.error failure) := by
    simpa [settle, found, Call.storeWork?] using next.symm
  rw [is]
  refine (Registry.freeIff _ _).mpr ⟨?_, fun parked => ?_⟩
  · exact custody.kept.vacant i
      (List.mem_flatMap.mpr ⟨_, memOfCall found, List.mem_singleton_self i⟩)
  · exact ((Registry.memRelease _ _ _).mp parked).2 rfl

/-- A call that fails leaves no trace. Whatever else goes on, as long as nobody else registers under
its id and nothing is loaded while it waits for the store, the run without it is a run too; it ends
with the same records, supervision, ids in flight, revisions and epochs, and the same was published.
And the id of a registration whose save fails is free at once. -/
theorem failedCallsLeaveNoTrace {settings : DirectorySettings} {store : Table Instance}
    {before after : List Action} {request : Request} {m : Directory} {failure : Failure}
    (start : (withStore settings store).steps before = some m)
    (run : m.steps (.begin request :: after) = some d)
    (failed : d.ending? m.nextCall = some (.error failure))
    (apart : ∀ s ∈ m.trail (.begin request :: after), s.clashes m.nextCall = false) :
    (∃ e, (withStore settings store).steps
        (before ++ after.filterMap (·.without m.nextCall)) = some e ∧
      e = d.without m.nextCall none ∧ e.registry = d.registry ∧ e.log = d.log) ∧
      ∀ s ∈ m.trail (.begin request :: after), ∀ i f, s.before.call? m.nextCall = some (.saving i) →
        s.action = .settle m.nextCall (some f) → s.after.registry.busy i.id = false := by
  have known := recountedSteps start
  refine ⟨⟨d.without m.nextCall none, ?_, rfl, Registry.freeingNone _, rfl⟩, ?_⟩
  · obtain ⟨begun, next, run⟩ := Option.bind_eq_some_iff.mp run
    rw [trailNext next] at apart
    rcases begunErasing known.custody known.removing known.known next with ⟨h, same⟩ | never
    · have erased := erasedSteps h run failed (List.forall_mem_cons.mp apart).2
      rw [same] at erased
      rw [stepsAppend, start]
      exact erased
    · have never := neverFailsSteps (custodyStep known.custody next)
        (removingStep known.custody known.removing next) never run
      exact absurd failed (never.result failure)
  · refine trailEach known.custody fun s _ next custody =>
      ⟨custodyStep custody next, fun i f found acts => ?_⟩
    rw [acts] at next
    exact unsavedFree custody found next

def failing : List Action :=
  [.begin (.register (.fresh "b" "web" "h:2" .origin)), .proceed 1, .begin (.heartbeat "a"),
    .begin (.register (.fresh "c" "web" "h:3" .origin)), .proceed 3, .settle 3 none,
    .settle 1 (some ⟨.store, "down"⟩), .proceed 3, .proceed 3, .proceed 3]

theorem failingLeavesNoTrace :
    ∃ m d e, (withStore Settings.standard.directory []).steps
        [.begin (.register (.fresh "a" "web" "h:1" .origin)), .proceed 0, .settle 0 none, .proceed 0,
          .proceed 0, .proceed 0] = some m ∧
      m.steps failing = some d ∧ d.registry.records.map (·.1) = ["a", "c"] ∧
      (withStore Settings.standard.directory []).steps
        [.begin (.register (.fresh "a" "web" "h:1" .origin)), .proceed 0, .settle 0 none, .proceed 0,
          .proceed 0, .proceed 0, .begin (.heartbeat "a"),
          .begin (.register (.fresh "c" "web" "h:3" .origin)), .proceed 2, .settle 2 none,
          .proceed 2, .proceed 2, .proceed 2] = some e ∧
      e.registry = d.registry := by
  obtain ⟨m, d, start, run, live, number, failed, apart⟩ : ∃ m d,
      (withStore Settings.standard.directory []).steps
        [.begin (.register (.fresh "a" "web" "h:1" .origin)), .proceed 0, .settle 0 none, .proceed 0,
          .proceed 0, .proceed 0] = some m ∧
      m.steps failing = some d ∧ d.registry.records.map (·.1) = ["a", "c"] ∧ m.nextCall = 1 ∧
      d.ending? m.nextCall = some (.error ⟨.store, "down"⟩) ∧
      ∀ s ∈ m.trail failing, s.clashes m.nextCall = false :=
    ⟨_, _, rfl, rfl, by decide +kernel, rfl, rfl, by decide +kernel⟩
  obtain ⟨⟨e, run', _, same, _⟩, _⟩ := failedCallsLeaveNoTrace start run failed apart
  rw [number] at run'
  exact ⟨m, d, e, start, run, live, run', same⟩

end Directory
end ServiceDirectory
