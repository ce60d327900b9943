import ServiceDirectory.Proofs.Announcements
import ServiceDirectory.Proofs.Courses
import ServiceDirectory.Proofs.Manning
import ServiceDirectory.Proofs.Origins
import ServiceDirectory.Proofs.Stranding

/-! What a shutdown puts an end to. Once it has begun, no registration is let in, no report is applied
and no sweep begins by itself; once it has returned, nothing that began before is still at work in the
background. The first shutdown that gets there waits for that, and no later one does. -/
namespace ServiceDirectory

def Call.Plain (c : Call) : Prop :=
  c.reports = false →
    ∀ n ∈ c.news, ∃ i, n = .plain .registered i ∨ n = .plain .deregistered i

theorem Call.plainSilent {c : Call} (silent : c.news = []) : c.Plain := fun _ n mem => by
  rw [silent] at mem
  cases mem

theorem Call.reportsTold (n : Notice) (rest : List Notice) (answer : Answer) :
    (announcing (n :: rest) answer).reports = (announcing rest answer).reports := by
  cases answer <;> rfl

namespace Stride

def tick? (s : Stride) : Option CallId :=
  match s.action with
  | .sweepTick => some s.before.nextCall
  | _ => none

def breaks (s : Stride) : Bool :=
  s.action == .begin .start && !s.before.cancelled &&
    match s.after.ending? s.before.nextCall with
    | some (.ok .broken) => true
    | _ => false

def Attends (s : Stride) : Prop :=
  ∃ k loops, s.action = .proceed k ∧ s.before.call? k = some (.stilling loops)

end Stride

def ticks (past : List Stride) : List CallId := past.filterMap Stride.tick?

theorem ticksNext (past : List Stride) (s : Stride) :
    ticks (past ++ [s]) = ticks past ++ s.tick?.toList := by
  cases tick : s.tick? <;> simp [ticks, tick]

namespace Directory
variable {d e : Directory} {a : Action} {k : CallId} {c : Call} {past : List Stride}

theorem cancelledStays (cancelled : d.cancelled = true) (next : d.step a = some e) :
    e.cancelled = true := by
  cases stepDeed next with
  | closing => rfl
  | _ => exact cancelled

theorem applierStays (runs : d.applier = .running) (next : d.step a = some e) :
    e.applier = .running ∨ a = .endApplier := by
  cases stepDeed next with
  | broke => exact .inl rfl
  | starting => exact .inl rfl
  | applierEnded => exact .inr rfl
  | _ => exact .inl runs

structure Unmanned (d : Directory) : Prop where
  applier : d.applier = .absent
  sweeper : d.sweeper = .absent

theorem unmannedStep (h : d.started = false → d.Unmanned) (next : d.step a = some e)
    (first : e.started = false) : e.Unmanned := by
  cases stepDeed next with
  | broke => cases first
  | starting => cases first
  | ticked resting =>
    have absent := (h first).sweeper
    rw [resting] at absent
    cases absent
  | applierEnded =>
    simp only [step, endApplier, (h first).applier] at next
    cases next
  | sweeperTurned =>
    simp only [step, endSweeper, (h first).sweeper] at next
    cases next
  | _ => exact ⟨(h first).applier, (h first).sweeper⟩

structure Posted (d : Directory) : Prop where
  lined : d.Lined
  reporting : ∀ k c, d.call? k = some c → c.reports = true → d.applier = .running
  plain : ∀ k c, d.call? k = some c → c.Plain
  closes : ∀ k c, d.call? k = some c → c.closes = true → d.cancelled = true
  unmanned : d.started = false → d.Unmanned

theorem withStorePosted (settings : DirectorySettings) (store : Table Instance) :
    (withStore settings store).Posted where
  lined := (withStoreCustody settings store).lined
  reporting k c found := by cases found
  plain k c found := by cases found
  closes k c found := by cases found
  unmanned _ := ⟨rfl, rfl⟩

theorem linedStep (lined : d.Lined) (next : d.step a = some e) : e.Lined := by
  obtain ⟨k, before, after, told, happens⟩ := stepTurns lined next
  exact linedHappens lined happens

theorem postedStep (h : d.Posted) (direct : ∀ report, a ≠ .applyDirect report)
    (next : d.step a = some e) : e.Posted := by
  obtain ⟨k, before, after, result, told, runs⟩ := stepRuns h.lined next
  have still (applier : d.applier = .running)
      (reports : ∃ k c, d.call? k = some c ∧ c.reports = true) : e.applier = .running := by
    rcases applierStays applier next with still | rfl
    · exact still
    · obtain ⟨k, c, found, reports⟩ := reports
      rw [(endApplierIs next).1 _ (memOfCall found)] at reports
      cases reports
  refine ⟨linedStep h.lined next, ?_, ?_, ?_, unmannedStep h.unmanned next⟩
  · refine runs.each (fun j c _ found reports => ?_) fun c is reports => ?_
    · exact still (h.reporting j c found reports) ⟨j, c, found, reports⟩
    · subst is
      cases runs.course with
      | opened opens => cases opens <;> cases reports
      | moved ofReport =>
        rcases ofReport with ⟨rfl, applier, _⟩ | ⟨report, rfl⟩
        · exact (applierStays applier next).resolve_right nofun
        · exact absurd rfl (direct report)
      | told =>
        rw [← Call.reportsTold] at reports
        exact still (h.reporting k _ runs.was reports) ⟨k, _, runs.was, reports⟩
      | _ => cases reports
  · refine runs.each (fun j c _ found => h.plain j c found) fun c is => ?_
    subst is
    cases runs.course with
    | opened opens => cases opens <;> exact Call.plainSilent rfl
    | moved => exact nofun
    | entered => exact fun _ => List.forall_mem_singleton.mpr ⟨_, .inl rfl⟩
    | left => exact fun _ => List.forall_mem_singleton.mpr ⟨_, .inr rfl⟩
    | loaded =>
      intro _ n mem
      obtain ⟨i, _, rfl⟩ := List.mem_map.mp mem
      exact ⟨i, .inl rfl⟩
    | told =>
      intro quiet n mem
      rw [← Call.reportsTold] at quiet
      exact h.plain k _ runs.was quiet n (List.mem_cons_of_mem _ mem)
    | _ => exact Call.plainSilent rfl
  · refine runs.each (fun j c _ found closes => ?_) fun c is closes => ?_
    · exact cancelledStays (h.closes j c found closes) next
    · subst is
      cases runs.course with
      | opened opens => cases opens <;> cases closes
      | closing => cases next; rfl
      | drained => exact cancelledStays (h.closes k _ runs.was rfl) next
      | stilled => exact cancelledStays (h.closes k _ runs.was rfl) next
      | _ => cases closes

def Ticking (past : List Stride) (d : Directory) : Prop :=
  ∀ k ∈ ticks past, k < d.nextCall ∧ (d.call? k ≠ none → ∃ due, d.sweeper = .sweeping k due)

theorem sweeperStays (posted : d.Posted) {due : Nat} (sweeps : d.sweeper = .sweeping k due)
    (next : d.step a = some e) : e.sweeper = .sweeping k due ∨ d.call? k = none := by
  cases stepDeed next with
  | starting first =>
    have absent := (posted.unmanned first).sweeper
    rw [sweeps] at absent
    cases absent
  | ticked resting =>
    rw [sweeps] at resting
    cases resting
  | sweeperTurned =>
    rcases endSweeperIs next with ⟨j, due', was, ceased, -⟩ | ⟨due', was, -⟩ <;> rw [sweeps] at was <;>
      cases was
    exact .inr ceased
  | _ => exact .inl sweeps

theorem tickingStep (posted : d.Posted) (h : Ticking past d) (next : d.step a = some e) :
    Ticking (past ++ [⟨d, a, e⟩]) e := by
  obtain ⟨j, before, after, result, told, runs⟩ := stepRuns posted.lined next
  intro k mem
  rw [ticksNext] at mem
  rcases List.mem_append.mp mem with old | new
  · obtain ⟨known, sweeps⟩ := h k old
    refine ⟨Nat.lt_of_lt_of_le known runs.grows, fun goes => ?_⟩
    have went : d.call? k ≠ none := by
      rw [runs.calls] at goes
      split at goes
      · rename_i own
        intro none
        exact Nat.ne_of_lt known (own.trans (runs.course.fresh (runs.was ▸ own ▸ none)))
      · exact goes
    obtain ⟨due, sweeps⟩ := sweeps went
    exact ⟨due, (sweeperStays posted sweeps next).resolve_right went⟩
  · cases a with
    | sweepTick =>
      cases List.mem_singleton.mp new
      cases stepDeed next with
      | ticked => exact ⟨Nat.lt_succ_self _, fun _ => ⟨_, rfl⟩⟩
      | passed ofReport | ignored ofReport | moved ofReport => simp at ofReport
    | _ => cases new

structure Idle (d : Directory) : Prop where
  silent : ∀ k c, d.call? k = some c → c.reports = false
  rests : ∀ k due, d.sweeper ≠ .sweeping k due

theorem unmannedIdle (posted : d.Posted) (first : d.started = false) : d.Idle where
  silent k c found := Bool.eq_false_iff.mpr fun reports => by
    have runs := posted.reporting k c found reports
    rw [(posted.unmanned first).applier] at runs
    cases runs
  rests k due sweeps := by
    rw [(posted.unmanned first).sweeper] at sweeps
    cases sweeps

theorem idleStep (posted : d.Posted) (h : d.Idle) (still : d.cancelled = true ∨ d.started = false)
    (direct : ∀ report, a ≠ .applyDirect report) (next : d.step a = some e) : e.Idle := by
  obtain ⟨j, before, after, result, told, runs⟩ := stepRuns posted.lined next
  refine ⟨runs.each (fun j c _ found => h.silent j c found) fun c is => ?_, fun k due sweeps => ?_⟩
  · subst is
    cases runs.course with
    | opened opens => cases opens <;> rfl
    | moved ofReport =>
      rcases ofReport with ⟨rfl, applier, unshut⟩ | ⟨report, rfl⟩
      · rcases still with cancelled | first
        · rw [unshut] at cancelled
          cases cancelled
        · rw [(posted.unmanned first).applier] at applier
          cases applier
      · exact absurd rfl (direct report)
    | told => exact Call.reportsTold .. ▸ h.silent _ _ runs.was
    | _ => rfl
  · cases stepDeed next with
    | starting => cases sweeps
    | ticked resting unshut =>
      rcases still with cancelled | first
      · rw [unshut] at cancelled
        cases cancelled
      · rw [(posted.unmanned first).sweeper] at resting
        cases resting
    | sweeperTurned =>
      rcases endSweeperIs next with ⟨_, _, _, _, same⟩ | ⟨_, _, same⟩ <;>
        rw [same] at sweeps <;> cases sweeps
    | _ => exact h.rests k due sweeps

/-- Why something may still be at work in the background: a start failed, or the shutdown that waits
for it has not come to its end, or was dropped. -/
def Outstanding (past : List Stride) (d : Directory) : Prop :=
  (∃ s ∈ past, s.breaks = true) ∨ (∃ s ∈ past, s.dropped? = some (.joining true)) ∨
    ∃ x ∈ d.calls, x.2 = .joining true

instance (past : List Stride) (d : Directory) : Decidable (Outstanding past d) :=
  inferInstanceAs (Decidable (_ ∨ _ ∨ _))

theorem outstandingStep (posted : d.Posted) (h : Outstanding past d)
    (direct : ∀ report, a ≠ .applyDirect report) (next : d.step a = some e) :
    e.Idle ∨ Outstanding (past ++ [⟨d, a, e⟩]) e := by
  rcases h with ⟨s, mem, breaks⟩ | ⟨s, mem, dropped⟩ | ⟨⟨k, _⟩, mem, rfl⟩
  · exact .inr (.inl ⟨s, List.mem_append_left _ mem, breaks⟩)
  · exact .inr (.inr (.inl ⟨s, List.mem_append_left _ mem, dropped⟩))
  · have found := callOfMem posted.lined mem
    obtain ⟨j, before, after, result, told, runs⟩ := stepRuns posted.lined next
    by_cases own : k = j
    · subst own
      have was := runs.was
      rw [found] at was
      subst was
      cases runs.course with
      | joined ceased =>
        have cancelled := posted.closes k _ found rfl
        obtain ⟨applier, sweeper⟩ := Bool.and_eq_true_iff.mp (ceased rfl)
        refine .inl (idleStep posted ⟨fun j c there => ?_, fun j due sweeps => ?_⟩ (.inl cancelled)
          direct next)
        · refine Bool.eq_false_iff.mpr fun reports => ?_
          rw [posted.reporting j c there reports] at applier
          cases applier
        · rw [sweeps] at sweeper
          cases sweeper
      | dropped =>
        refine .inr (.inr (.inl ⟨_, List.mem_append_right _ List.mem_cons_self, ?_⟩))
        exact found
    · have stays : e.call? k = some (.joining true) := by rw [runs.calls, if_neg own, found]
      exact .inr (.inr (.inr ⟨_, memOfCall stays, rfl⟩))

theorem unattendedStep (h : d.unattended = true) (next : d.step a = some e) :
    e.unattended = true ∨ ∃ x ∈ e.calls, x.2 = .joining true := by
  cases stepDeed next with
  | starting => exact .inl rfl
  | stilled found => exact .inr ⟨_, memMoved found, congrArg Call.joining h⟩
  | _ => exact .inl h

structure Closing (past : List Stride) (d : Directory) : Prop where
  posted : d.Posted
  serving : Serving past d
  ticking : Ticking past d
  minded : d.started = true → d.cancelled = false → d.unattended = true ∨ ∃ s ∈ past, s.breaks = true
  idle : d.Idle ∨ d.unattended = true ∨ Outstanding past d
  attended : (∃ s ∈ past, s.Attends) → d.cancelled = true ∧ (d.Idle ∨ Outstanding past d)
  joining : ∀ k c, d.call? k = some c → (∃ waits, c = .joining waits) → ∃ s ∈ past, s.Attends
  answered : ∀ k, d.ending? k ≠ none → k < d.nextCall
  shuts : ∀ k, asked? past k = some .shutdown →
    (∀ c, d.call? k = some c → c.closes = true) ∧ (d.ending? k ≠ none → ∃ s ∈ past, s.Attends)

theorem withStoreClosing (settings : DirectorySettings) (store : Table Instance) :
    Closing [] (withStore settings store) where
  posted := withStorePosted settings store
  serving := ⟨fun _ _ => rfl, fun x mem => by cases mem⟩
  ticking k mem := by cases mem
  minded first := by cases first
  idle := .inl (unmannedIdle (withStorePosted settings store) rfl)
  attended | ⟨s, mem, _⟩ => by cases mem
  joining k c found := by cases found
  answered k ends := absurd rfl ends
  shuts k asked := by cases asked

theorem mindedStep (h : d.started = true → d.cancelled = false → d.unattended = true ∨
      ∃ s ∈ past, s.breaks = true) (posted : d.Posted) (next : d.step a = some e) (started : e.started = true)
    (runs : e.cancelled = false) :
    e.unattended = true ∨ ∃ s ∈ past ++ [⟨d, a, e⟩], s.breaks = true := by
  have unshut : d.cancelled = false := Bool.eq_false_iff.mpr fun cancelled => by
    rw [cancelledStays cancelled next] at runs
    cases runs
  have still (was : d.started = true) (same : e.unattended = d.unattended) :
      e.unattended = true ∨ ∃ s ∈ past ++ [⟨d, a, e⟩], s.breaks = true := by
    rw [same]
    exact (h was unshut).imp_right fun ⟨s, mem, breaks⟩ => ⟨s, List.mem_append_left _ mem, breaks⟩
  cases stepDeed next with
  | starting => exact .inl rfl
  | broke =>
    refine .inr ⟨_, List.mem_append_right _ List.mem_cons_self, ?_⟩
    simp [Stride.breaks, unshut, ending?, answer]
  | stilled found =>
    have cancelled := posted.closes _ _ found rfl
    rw [unshut] at cancelled
    cases cancelled
  | _ => exact still started rfl

theorem attendingIs {loops : List Nat} (found : d.call? k = some (.stilling loops))
    (next : d.step (.proceed k) = some e) : e = d.attend k := by
  have next := proceedsWith found next
  simp only [proceedWith] at next
  split at next
  · cases next
  · exact (Option.some.inj next).symm

theorem askedHere {s : Stride} {request : Request} (asked : asked? (past ++ [s]) k = some request)
    (new : asked? past k = none) : s.asked = some (k, request) := by
  rw [askedNext, new, Option.none_or] at asked
  obtain ⟨x, found, is⟩ := Option.map_eq_some_iff.mp asked
  have own : x.1 = k := by simpa using List.find?_some found
  obtain ⟨t, mem, asks⟩ := List.mem_filterMap.mp (List.mem_of_find?_eq_some found)
  cases List.mem_singleton.mp mem
  rw [asks, ← own, ← is]

theorem shutsStep (h : Closing past d) (next : d.step a = some e) (k : CallId)
    (asked : asked? (past ++ [⟨d, a, e⟩]) k = some .shutdown) :
    (∀ c, e.call? k = some c → c.closes = true) ∧
      (e.ending? k ≠ none → ∃ s ∈ past ++ [⟨d, a, e⟩], s.Attends) := by
  cases old : asked? past k with
  | none =>
    have asks := askedHere asked old
    cases a with
    | begin request =>
      cases asks
      cases next
      refine ⟨fun c found => ?_, fun ends => absurd (h.answered _ ends) (Nat.lt_irrefl _)⟩
      rw [callOpened (c := .draining) h.posted.lined rfl, if_pos rfl] at found
      cases found
      rfl
    | _ => cases asks
  | some request =>
    rw [askedNext, old, Option.some_or] at asked
    cases asked
    obtain ⟨closes, attends⟩ := h.shuts k old
    have later (attends : ∃ s ∈ past, s.Attends) : ∃ s ∈ past ++ [⟨d, a, e⟩], s.Attends := by
      obtain ⟨s, mem, attends⟩ := attends
      exact ⟨s, List.mem_append_left _ mem, attends⟩
    obtain ⟨j, before, after, result, told, runs⟩ := stepRuns h.posted.lined next
    by_cases own : k = j
    · subst own
      rw [runs.calls, runs.ending, if_pos rfl, if_pos rfl]
      have was := runs.was
      cases before with
      | none =>
        have known : k < d.nextCall := Nat.lt_of_not_le fun late => by
          rw [h.serving.fresh k late] at old
          cases old
        exact absurd (runs.course.fresh rfl) (Nat.ne_of_lt known)
      | some c =>
        have closes := closes c was
        cases runs.course with
        | drained => exact ⟨fun c is => by cases is; rfl, fun ends => later (attends ends)⟩
        | stilled => exact ⟨fun c is => by cases is; rfl, fun ends => later (attends ends)⟩
        | joined => exact ⟨nofun, fun _ => later (h.joining k _ was ⟨_, rfl⟩)⟩
        | dropped => exact ⟨nofun, fun ends => later (attends ends)⟩
        | _ => cases closes
    · rw [runs.calls, runs.ending, if_neg own, if_neg own]
      exact ⟨closes, fun ends => later (attends ends)⟩

theorem closingStep (h : Closing past d) (direct : ∀ report, a ≠ .applyDirect report)
    (next : d.step a = some e) : Closing (past ++ [⟨d, a, e⟩]) e := by
  obtain ⟨j, before, after, result, told, runs⟩ := stepRuns h.posted.lined next
  have later (attends : ∃ s ∈ past, s.Attends) : ∃ s ∈ past ++ [⟨d, a, e⟩], s.Attends := by
    obtain ⟨s, mem, attends⟩ := attends
    exact ⟨s, List.mem_append_left _ mem, attends⟩
  have idles (cancelled : d.cancelled = true) (idle : d.Idle ∨ Outstanding past d) :
      e.Idle ∨ Outstanding (past ++ [⟨d, a, e⟩]) e :=
    idle.elim (fun idle => .inl (idleStep h.posted idle (.inl cancelled) direct next))
      fun outstanding => outstandingStep h.posted outstanding direct next
  have unattended (was : d.unattended = true) :
      e.Idle ∨ e.unattended = true ∨ Outstanding (past ++ [⟨d, a, e⟩]) e :=
    .inr ((unattendedStep was next).imp_right fun waits => .inr (.inr waits))
  have outstanding (was : Outstanding past d) :
      e.Idle ∨ e.unattended = true ∨ Outstanding (past ++ [⟨d, a, e⟩]) e :=
    (outstandingStep h.posted was direct next).imp_right .inr
  refine ⟨postedStep h.posted direct next, servingStep h.posted.lined h.serving next,
    tickingStep h.posted h.ticking next, mindedStep h.minded h.posted next, ?_, ?_, ?_,
    runs.answered h.answered, shutsStep h next⟩
  · rcases h.idle with idle | was | was
    · cases cancelled : d.cancelled with
      | true => exact .inl (idleStep h.posted idle (.inl cancelled) direct next)
      | false =>
        cases started : d.started with
        | false => exact .inl (idleStep h.posted idle (.inr started) direct next)
        | true => exact (h.minded started cancelled).elim unattended fun breaks =>
            outstanding (.inl breaks)
    · exact unattended was
    · exact outstanding was
  · rintro ⟨s, mem, attends⟩
    rcases List.mem_append.mp mem with old | new
    · obtain ⟨cancelled, idle⟩ := h.attended ⟨s, old, attends⟩
      exact ⟨cancelledStays cancelled next, idles cancelled idle⟩
    · cases List.mem_singleton.mp new
      obtain ⟨k, loops, rfl, found⟩ := attends
      have cancelled := h.posted.closes k _ found rfl
      refine ⟨cancelledStays cancelled next, ?_⟩
      rcases h.idle with idle | was | was
      · exact idles cancelled (.inl idle)
      · refine .inr (.inr (.inr ?_))
        rw [attendingIs found next]
        exact ⟨_, memMoved found, congrArg Call.joining was⟩
      · exact idles cancelled (.inr was)
  · refine runs.each (fun j c _ found joins => later (h.joining j c found joins)) ?_
    rintro c is ⟨waits, rfl⟩
    subst is
    cases runs.course with
    | opened opens => cases opens
    | @stilled _ loops =>
      exact ⟨_, List.mem_append_right _ List.mem_cons_self, j, loops, rfl, runs.was⟩

/-- What a step leaves as it is when a shutdown has returned; `swept` are the sweeps that the background
has begun before. -/
structure Final (swept : List CallId) (s : Stride) : Prop where
  probes : ∀ epoch outcome, s.action ≠ .beginProbe epoch outcome
  sweeps : s.action ≠ .sweepTick
  changes : ∀ event ∈ s.told, event.kind ≠ .statusChanged
  expiries : ∀ event ∈ s.told, event.kind = .expired → ∃ k, s.action = .proceed k ∧ k ∉ swept
  records : ∀ id x y, s.before.registry.records.get? id = some x →
    s.after.registry.records.get? id = some y →
      y = x ∨ s.action = .begin (.heartbeat id) ∧
        y = { x with snapshot := x.snapshot.touch s.before.clock }

structure Shut (swept : List CallId) (d : Directory) : Prop where
  custody : d.Custody
  posted : d.Posted
  cancelled : d.cancelled = true
  idle : d.Idle
  swept : ∀ k ∈ swept, k < d.nextCall ∧ d.call? k = none

theorem stepStays (custody : d.Custody) (next : d.step a = some e) {id : String} {x y : Record}
    (was : d.registry.records.get? id = some x) (live : e.registry.records.get? id = some y) :
    y = x ∨ (a = .begin (.heartbeat id) ∧ y = { x with snapshot := x.snapshot.touch d.clock }) ∨
      a = .applyNext ∨ ∃ report, a = .applyDirect report := by
  cases stepStems custody next live with
  | kept same => exact .inl (Option.some.inj (same.symm.trans was))
  | heard acts same is =>
    cases same.symm.trans was
    exact .inr (.inl ⟨acts, is⟩)
  | reported ofReport => exact .inr (.inr ofReport)
  | entered acts found own =>
    have vacant := custody.kept.vacant _
      (List.mem_flatMap.mpr ⟨_, memOfCall found, List.mem_singleton_self _⟩)
    rw [own, was] at vacant
    cases vacant
  | @loaded k stored at_ i acts found =>
    subst acts
    have next := proceedsWith found next
    simp only [proceedWith] at next
    split at next
    · cases next
      have live : (d.registry.load at_ stored).1.records.get? id = some y := live
      have gains := Registry.loadGains d.registry at_ stored
      by_cases came : id ∈ (d.registry.load at_ stored).2.1.map (·.id)
      · obtain ⟨j, mem, own⟩ := List.mem_map.mp came
        have free := (gains.fresh j mem).1
        rw [own, was] at free
        cases free
      · exact .inl (Option.some.inj (live.symm.trans ((gains.others id came).trans was)))
    · cases next

theorem probesUnshut {epoch : Nat} {outcome : Health.Outcome}
    (next : d.step (.beginProbe epoch outcome) = some e) : d.cancelled = false := by
  obtain ⟨l, found, next⟩ := Option.bind_eq_some_iff.mp next
  split at next
  · cases next
  · rename_i runs
    simp only [stopped, Bool.or_eq_true, not_or] at runs
    exact Bool.eq_false_iff.mpr runs.2

theorem ticksUnshut (next : d.step .sweepTick = some e) : d.cancelled = false := by
  simp only [step, sweepTick] at next
  split at next
  · split at next
    · rename_i runs
      simpa using (Bool.and_eq_true_iff.mp runs).2
    · cases next
  · cases next

theorem idleTells (posted : d.Posted) (idle : d.Idle) {before after : Option Call}
    {result : Option (Except Failure Answer)} {told : List Event}
    (runs : Runs d a e k before after result told) {event : Event} (mem : event ∈ told) :
    event.kind = .registered ∨ event.kind = .deregistered ∨
      event.kind = .expired ∧ a = .proceed k ∧ before ≠ none := by
  cases runs.course with
  | told =>
    cases List.mem_singleton.mp mem
    obtain ⟨i, rfl | rfl⟩ :=
      posted.plain k _ runs.was (idle.silent k _ runs.was) _ List.mem_cons_self
    · exact .inl rfl
    · exact .inr (.inl rfl)
  | expired => cases List.mem_singleton.mp mem; exact .inr (.inr ⟨rfl, rfl, nofun⟩)
  | expiredLast => cases List.mem_singleton.mp mem; exact .inr (.inr ⟨rfl, rfl, nofun⟩)
  | _ => cases mem

theorem shutStep {swept : List CallId} (h : Shut swept d)
    (direct : ∀ report, a ≠ .applyDirect report) (next : d.step a = some e) :
    Shut swept e ∧ Final swept ⟨d, a, e⟩ := by
  obtain ⟨j, before, after, result, told, runs⟩ := stepRuns h.posted.lined next
  have shut (unshut : d.cancelled = false) : False := by
    rw [h.cancelled] at unshut
    cases unshut
  refine ⟨⟨custodyStep h.custody next, postedStep h.posted direct next,
    cancelledStays h.cancelled next, idleStep h.posted h.idle (.inl h.cancelled) direct next,
    fun k mem => ?_⟩, ?_, ?_, ?_, ?_, ?_⟩
  · obtain ⟨known, gone⟩ := h.swept k mem
    refine ⟨Nat.lt_of_lt_of_le known runs.grows, ?_⟩
    rw [runs.calls]
    split
    · rename_i own
      have none : before = none := runs.was.symm.trans (own ▸ gone)
      exact absurd (own.trans (runs.course.fresh none)) (Nat.ne_of_lt known)
    · exact gone
  · rintro epoch outcome rfl
    exact shut (probesUnshut next)
  · rintro rfl
    exact shut (ticksUnshut next)
  · intro event mem
    rcases idleTells h.posted h.idle runs (runs.tells ▸ mem) with kind | kind | ⟨kind, _⟩ <;>
      rw [kind] <;> decide
  · intro event mem expired
    rcases idleTells h.posted h.idle runs (runs.tells ▸ mem) with kind | kind | ⟨-, acts, some⟩
    · rw [expired] at kind
      cases kind
    · rw [expired] at kind
      cases kind
    · exact ⟨j, acts, fun swept => some (runs.was.symm.trans (h.swept j swept).2)⟩
  · intro id x y was live
    rcases stepStays h.custody next was live with same | heard | rfl | ⟨report, rfl⟩
    · exact .inl same
    · exact .inr heard
    · exact (shut (applyNextRuns next).2).elim
    · exact absurd rfl (direct report)

theorem closedShut {past : List Stride} (custody : d.Custody) (h : Closing past d)
    (asked : asked? past k = some .shutdown) (returned : d.ending? k ≠ none)
    (settled : ¬Outstanding past d) : Shut (ticks past) d where
  custody := custody
  posted := h.posted
  cancelled := (h.attended ((h.shuts k asked).2 returned)).1
  idle := (h.attended ((h.shuts k asked).2 returned)).2.resolve_right settled
  swept j mem := by
    have idle := (h.attended ((h.shuts k asked).2 returned)).2.resolve_right settled
    obtain ⟨known, sweeps⟩ := h.ticking j mem
    refine ⟨known, Classical.byContradiction fun goes => ?_⟩
    obtain ⟨due, sweeping⟩ := sweeps goes
    exact idle.rests j due sweeping

theorem shutRefuses {i : Instance} (cancelled : d.cancelled = true) (fine : i.WellFormed) :
    d.step (.begin (.register i)) = some (d.answer (.error shutDown)) := by
  simp [step, begin, beginRegister, Registry.objectionNone.mpr fine, cancelled]

theorem cancelledSteps {actions : List Action} (cancelled : d.cancelled = true)
    (run : d.steps actions = some e) : e.cancelled = true :=
  trailHolds (P := fun d => d.cancelled = true) cancelled run
    fun _ _ next cancelled => cancelledStays cancelled next

/-- When a shutdown has returned, and so has the start if it began before any, nothing is probed, no
change of status is told of, no sweep of the background tells that an instance expired, and records
stay as they are but for heartbeats. That takes that the shutdown which waits for the background work
has not been dropped and is not waiting still: others do not wait. From when a shutdown has begun,
registrations are refused. -/
theorem shutdownIsFinal {settings : DirectorySettings} {store : Table Instance}
    {actions more : List Action} (run : (withStore settings store).steps actions = some d)
    (direct : ∀ a ∈ actions ++ more, ∀ report, a ≠ .applyDirect report)
    (asked : asked? ((withStore settings store).trail actions) k = some .shutdown)
    (returned : d.ending? k ≠ none)
    (settled : ¬Outstanding ((withStore settings store).trail actions) d) :
    (∀ s ∈ d.trail more, Final (ticks ((withStore settings store).trail actions)) s) ∧
      ∀ first second m i, (withStore settings store).steps (first ++ .begin .shutdown :: second) = some m →
        i.WellFormed → m.step (.begin (.register i)) = some (m.answer (.error shutDown)) := by
  have custody : d.Custody := custodySteps (withStoreCustody settings store) run
  have closing : Closing ((withStore settings store).trail actions) d :=
    trailKeeps (withStoreClosing settings store) run fun s mem next _ h =>
      closingStep h (direct _ (List.mem_append_left _ (trailActions mem))) next
  refine ⟨trailEach (closedShut custody closing asked returned settled) fun s mem next h =>
    shutStep h (direct _ (List.mem_append_right _ (trailActions mem))) next, ?_⟩
  intro first second m i run fine
  rw [stepsAppend] at run
  obtain ⟨begun, _, run⟩ := Option.bind_eq_some_iff.mp run
  obtain ⟨shut, next, run⟩ := Option.bind_eq_some_iff.mp run
  cases next
  exact shutRefuses (cancelledSteps (d := begun.begin .shutdown) rfl run) fine

def sweptThenShut : List Action :=
  [.begin .start, .proceed 0, .begin (.register (.fresh "a" "web" "h:1" .origin)), .proceed 1,
    .settle 1 none, .proceed 1, .proceed 1, .proceed 1, .pass 100000, .sweepTick, .proceed 2,
    .endLoop 1, .proceed 2, .begin .shutdown, .proceed 3, .proceed 3]

def shutForGood : List Action :=
  sweptThenShut ++ [.settle 2 none, .proceed 2, .proceed 2, .endSweeper, .endSweeper, .endApplier,
    .proceed 3]

theorem shutForGoodIsFinal :
    ∃ d, (withStore Settings.standard.directory []).steps shutForGood = some d ∧
      (d.ending? 3).isSome ∧ d.log.map (·.kind) = [.registered, .expired] ∧
      ∀ s ∈ d.trail [.begin (.register (.fresh "b" "web" "h:2" .origin)), .pass 100000,
        .begin .start], Final [2] s := by
  obtain ⟨d, run, returned, told, settled⟩ : ∃ d,
      (withStore Settings.standard.directory []).steps shutForGood = some d ∧
      (d.ending? 3).isSome ∧ d.log.map (·.kind) = [.registered, .expired] ∧
      ¬Outstanding ((withStore Settings.standard.directory []).trail shutForGood) d :=
    ⟨_, rfl, rfl, by decide +kernel, by decide +kernel⟩
  exact ⟨d, run, returned, told, (shutdownIsFinal run (by simp [shutForGood, sweptThenShut]) rfl
    (Option.isSome_iff_ne_none.mp returned) settled).1⟩

def shutTwice : List Action :=
  sweptThenShut ++ [.begin .shutdown, .proceed 4, .proceed 4, .proceed 4]

theorem overlappingShutdownReturnsEarly :
    ∃ d e, (withStore Settings.standard.directory []).steps shutTwice = some d ∧
      d.ending? 0 = some (.ok .done) ∧
      asked? ((withStore Settings.standard.directory []).trail shutTwice) 4 =
        some .shutdown ∧
      d.ending? 4 = some (.ok .done) ∧
      d.steps [.settle 2 none, .proceed 2, .proceed 2] = some e ∧
      e.log.drop d.log.length = [⟨.expired, ⟨"a", "web", "", "h:1", 1, [], [], .starting, .origin,
        .origin⟩, none, .ofMillis 100000⟩] ∧
      ticks ((withStore Settings.standard.directory []).trail shutTwice) = [2] :=
  ⟨_, _, rfl, rfl, rfl, rfl, rfl, by decide +kernel, rfl⟩

end Directory
end ServiceDirectory
