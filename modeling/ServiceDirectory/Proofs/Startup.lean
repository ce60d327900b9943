import ServiceDirectory.Proofs.Arrivals
import ServiceDirectory.Proofs.Provenance
import ServiceDirectory.Proofs.SoundSettings

/-! Starting: the stored instances are loaded, the background work begins and the configured
instances are registered one after the other, before the first of them is kept alive. -/
namespace ServiceDirectory

namespace Daemon
variable {d d' m : Daemon} {host : String} {choices : List Nat} {since : Int}
  {request : Request} {result : Except Failure Answer} {instances : List Instance}

def configured (d : Daemon) (host : String) (choices : List Nat) : List Instance :=
  d.settings.instances.map fun c => staticInstance c host choices d.engine.clock

inductive Registers : Daemon → List Instance → Daemon → Prop where
  | nil {d : Daemon} : Registers d [] d
  | cons {d m d' : Daemon} {i : Instance} {rest : List Instance} {result : Except Failure Answer}
      (came : d.call (.register i) = (m, some result))
      (well : ∀ failure, result = .error failure → failure.kind = .alreadyExists)
      (later : Registers m rest d') : Registers d (i :: rest) d'

inductive Thwarts (d : Daemon) (i : Instance) (d' : Daemon) : DaemonError → Prop where
  | unending (lost : d.call (.register i) = (d', none)) : Thwarts d i d' .unending
  | failure {failure : Failure} (failed : d.call (.register i) = (d', some (.error failure)))
      (other : failure.kind ≠ .alreadyExists) :
      Thwarts d i d'
        (.failure (some ("Failed to register static instance " ++ i.id)) failure)

theorem registerAllIs (came : d.registerAll instances = (d', .ok ())) :
    Registers d instances d' := by
  induction instances generalizing d with
  | nil => cases came; exact .nil
  | cons i rest ih =>
    unfold registerAll at came
    split at came
    · cases came
    · rename_i m answer called
      exact .cons called nofun (ih came)
    · rename_i m failure called
      split at came
      · rename_i exists_
        refine .cons called ?_ (ih came)
        rintro _ ⟨⟩
        simpa using exists_
      · cases came

theorem registerAllFails {e : DaemonError} (came : d.registerAll instances = (d', .error e)) :
    ∃ front i rest m, instances = front ++ i :: rest ∧ Registers d front m ∧ Thwarts m i d' e := by
  induction instances generalizing d with
  | nil => cases came
  | cons i rest ih =>
    unfold registerAll at came
    split at came
    · rename_i m called
      cases came
      exact ⟨[], i, rest, d, rfl, .nil, .unending called⟩
    · rename_i m answer called
      obtain ⟨front, j, after, m', rfl, registers, thwarts⟩ := ih came
      exact ⟨i :: front, j, after, m', rfl, .cons called nofun registers, thwarts⟩
    · rename_i m failure called
      split at came
      · rename_i exists_
        obtain ⟨front, j, after, m', rfl, registers, thwarts⟩ := ih came
        refine ⟨i :: front, j, after, m', rfl, .cons called ?_ registers, thwarts⟩
        rintro _ ⟨⟩
        simpa using exists_
      · rename_i other
        cases came
        exact ⟨[], i, rest, d, rfl, .nil, .failure called (by simpa using other)⟩

theorem loadIs {count : Nat} (loaded : d.load = (d', .ok count)) :
    ∃ answer, d.call .bootstrap = (d', some (.ok answer)) := by
  unfold Daemon.load at loaded
  split at loaded <;> cases loaded
  · rename_i called
    exact ⟨_, called⟩
  · rename_i called
    exact ⟨_, called⟩

structure Runs (d m : Daemon) : Prop where
  course : ∃ loaded running answer, ∃ n : Daemon, d.call .bootstrap = (n, some (.ok loaded)) ∧
    n.call .start = (running, some (.ok answer)) ∧ m = running.listen

theorem startIs (started : d.start host choices = (d', .ok ())) :
    ∃ m n, Runs d m ∧ Registers m (m.configured host choices) n ∧
      d' = n.keep (m.configured host choices) := by
  unfold start at started
  split at started
  · cases started
  rename_i loaded count load
  split at started
  · cases started
  · cases started
  rename_i running answer run
  dsimp only at started
  split at started
  · cases started
  rename_i n _ registered
  cases started
  obtain ⟨_, boots⟩ := loadIs load
  exact ⟨running.listen, n, ⟨_, _, _, _, boots, run, rfl⟩, registerAllIs registered, rfl⟩

inductive Asks (instances : List Instance) : Request → Prop where
  | bootstrap : Asks instances .bootstrap
  | start : Asks instances .start
  | register {i : Instance} (mem : i ∈ instances) : Asks instances (.register i)

theorem listenAlone (d : Daemon) : d.listen.settings = d.settings ∧
    d.listen.engine.keeper = d.engine.keeper ∧ d.listen.engine.pending = d.engine.pending ∧
      d.listen.engine.plan = d.engine.plan ∧
      d.engine.directory.steps [.watch none, .watch none] = some d.listen.engine.directory :=
  ⟨rfl, rfl, rfl, rfl, rfl⟩

theorem listenLeads (requests : Request → Prop) (d : Daemon) :
    Directory.Reaches requests d.engine.directory d.listen.engine.directory :=
  .own (by simp [Action.own]) (listenAlone d).2.2.2.2

theorem Registers.leads (h : Registers d instances d') (unkept : d.engine.keeper = none) :
    d'.settings = d.settings ∧ d'.engine.keeper = none ∧
      Directory.Reaches (Asks instances) d.engine.directory d'.engine.directory := by
  induction h with
  | nil => exact ⟨rfl, unkept, .here⟩
  | @cons d m d' i rest result came _ _ ih =>
    obtain ⟨settings, free, calls⟩ := callAlone unkept came
    obtain ⟨same, still, leads⟩ := ih free
    obtain ⟨actions, all, run⟩ := leads
    refine ⟨same.trans settings, still,
      (calls.leads _ (.register List.mem_cons_self)).trans ⟨actions, fun a mem => ?_, run⟩⟩
    refine (all a mem).imp_right fun ⟨request, asked, is⟩ => ⟨request, ?_, is⟩
    cases asked with
    | bootstrap => exact .bootstrap
    | start => exact .start
    | register mem => exact .register (List.mem_cons_of_mem _ mem)

theorem Runs.leads (h : Runs d m) (unkept : d.engine.keeper = none)
    (instances : List Instance) : m.settings = d.settings ∧
      m.engine.keeper = none ∧
        Directory.Reaches (Asks instances) d.engine.directory m.engine.directory := by
  obtain ⟨_, running, _, n, boots, starts, rfl⟩ := h.course
  obtain ⟨settings, free, calls⟩ := callAlone unkept boots
  obtain ⟨same, still, later⟩ := callAlone free starts
  exact ⟨same.trans settings, still,
    (calls.leads _ .bootstrap).trans ((later.leads _ .start).trans (listenLeads _ running))⟩

structure Starting (since : Int) (d : Daemon) : Prop where
  unkept : d.engine.keeper = none
  standing : d.engine.directory.Standing since none

theorem callArrives (h : Starting since d) (arrives : request.arrives = true)
    (came : d.call request = (d', some result)) (soon : d'.engine.directory.Soon since) :
    Starting since d' ∧ ((∀ failure, result = .error failure → failure.kind = .alreadyExists) →
      d'.engine.directory.registry.roll =
        request.brings d.engine.directory.registry.roll d.engine.directory.storeList) := by
  obtain ⟨_, unkept, first, rest, m, all, run, ended, later⟩ := callAlone h.unkept came
  obtain ⟨standing, roll⟩ := Directory.arrived h.standing arrives all run ended later soon
  exact ⟨⟨unkept, standing⟩, roll⟩

theorem registersRoll (h : Starting since d) (registers : Registers d instances d')
    (soon : d'.engine.directory.Soon since) : Starting since d' ∧
      d'.engine.directory.registry.roll =
        (instances.map Instance.particulars).foldl Roll.add d.engine.directory.registry.roll := by
  induction registers with
  | nil => exact ⟨h, rfl⟩
  | @cons d m d' i rest result came well later ih =>
    have unkept := (callAlone h.unkept came).2.1
    obtain ⟨starting, brings⟩ := callArrives h rfl came ((later.leads unkept).2.2.soon soon)
    obtain ⟨still, roll⟩ := ih starting soon
    exact ⟨still, roll.trans (by rw [brings well]; rfl)⟩

/-- Under every id whoever comes first, the loaded ones before the registered ones. -/
def sources (store : List Instance) (configured : List Settings.ConfiguredInstance) :
    List Particulars :=
  (store.filter Instance.admissible).map Instance.particulars ++
    configured.map Settings.ConfiguredInstance.particulars

structure Unstarted (store : Table Instance) (d : Daemon) : Prop where
  directory : d.engine.directory = .withStore d.settings.directory store
  unkept : d.engine.keeper = none

theorem newUnstarted {s : Settings} (built : Daemon.new s = .ok d) :
    d.settings = s ∧ d.Unstarted [] ∧ d.engine.Prompt := by
  unfold Daemon.new at built
  cases chosen : chooseStore s with
  | error e => rw [chosen] at built; cases built
  | ok store =>
    rw [chosen] at built
    cases probes : Health.Prober.build s.health.probe s.health.httpPath with
    | error e => rw [probes] at built; cases built
    | ok prober =>
      rw [probes] at built
      cases built
      exact ⟨rfl, ⟨rfl, rfl⟩, rfl, fun p mem => by cases mem⟩

theorem startRoll {store : Table Instance} (named : ∀ c ∈ d.settings.instances, c.id ≠ "")
    (unstarted : d.Unstarted store) (running : Runs d m)
    (registers : Registers m (m.configured host choices) d')
    (soon : d'.engine.directory.Soon d.engine.clock.nanos) :
    Starting d.engine.clock.nanos d' ∧ ∀ id, d'.engine.directory.registry.roll id =
      (sources d.engine.directory.storeList d.settings.instances).find? (·.id == id) := by
  have fresh := Directory.withStoreStanding d.settings.directory store
  rw [← unstarted.directory] at fresh
  have starting : Starting d.engine.clock.nanos d := ⟨unstarted.unkept, fresh⟩
  obtain ⟨settings, unkept, _⟩ := running.leads unstarted.unkept []
  obtain ⟨loaded, begun, answer, n, boots, starts, rfl⟩ := running.course
  have empty : d.engine.directory.registry.roll = fun _ => none := by rw [unstarted.directory]; rfl
  -- One call after the other, each of them soon enough because the last one is.
  have listening := (registers.leads unkept).2.2.soon soon
  have ran := (listenLeads (fun _ => False) begun).soon listening
  obtain ⟨_, free, calls⟩ := callAlone unstarted.unkept boots
  have booted := ((callAlone free starts).2.2.leads (fun _ => True) trivial).soon ran
  obtain ⟨afterBoot, loads⟩ := callArrives starting rfl boots booted
  obtain ⟨afterStart, keeps⟩ := callArrives afterBoot rfl starts ran
  obtain ⟨standing, same⟩ := Directory.standingRun (by simp [Action.own]) afterStart.standing
    (listenAlone begun).2.2.2.2 listening
  obtain ⟨still, roll⟩ := registersRoll ⟨unkept, standing⟩ registers soon
  refine ⟨still, fun id => ?_⟩
  have particulars : (begun.listen.configured host choices).map Instance.particulars =
      d.settings.instances.map Settings.ConfiguredInstance.particulars := by
    rw [configured, List.map_map, settings]
    exact List.map_congr_left fun c mem => staticParticulars (named c mem) _ _ _
  have kept : begun.engine.directory.registry.roll = n.engine.directory.registry.roll :=
    keeps (fun _ is => by cases is)
  have came : n.engine.directory.registry.roll = ((d.engine.directory.storeList.filter
      Instance.admissible).map Instance.particulars).foldl Roll.add fun _ => none :=
    empty ▸ loads (fun _ is => by cases is)
  rw [roll, particulars, same, kept, came, ← List.foldl_append, Roll.addAll]
  rfl

end Daemon

theorem Engine.actTime {e f : Engine} (next : e.act = some f) :
    Directory.SameTime e.directory f.directory := by
  rcases actCases next with acted | kept
  · exact acted.time
  · obtain ⟨k, _, tends⟩ := keepAliveTends kept
    cases tends with
    | awaited => exact ⟨rfl, rfl⟩
    | @heard i => exact Directory.beginTime e.directory (.heartbeat i.id)
    | @missed i =>
      have first := Directory.beginTime e.directory (.heartbeat i.id)
      have second := Directory.beginTime (e.directory.begin (.heartbeat i.id)) (.register i)
      exact ⟨second.now.trans first.now, second.skew.trans first.skew⟩
    | ticked => exact ⟨rfl, rfl⟩

namespace Daemon
variable {d d' m : Daemon} {host : String} {choices : List Nat} {since : Int}
  {instances : List Instance}

theorem keepTime (d : Daemon) (instances : List Instance) :
    Directory.SameTime d.engine.directory (d.keep instances).engine.directory := by
  unfold keep
  split
  · exact ⟨rfl, rfl⟩
  · exact Engine.settleKeeps (P := fun e => Directory.SameTime d.engine.directory e.directory)
      (fun same next => ⟨(Engine.actTime next).now.trans same.now,
        (Engine.actTime next).skew.trans same.skew⟩) ⟨rfl, rfl⟩

structure Attends (since : Int) (roll : Roll) (e : Engine) : Prop where
  standing : e.directory.Standing since none
  same : e.directory.registry.roll = roll
  soon : e.directory.Soon since
  keeper : ∃ k, e.keeper = some k ∧ k.waiting = none ∧ (∀ i ∈ k.todo, roll i.id ≠ none) ∧
    ∀ i ∈ k.instances, roll i.id ≠ none

theorem heartbeatStands {d : Directory} {id : String} (h : d.Standing since none)
    (soon : d.Soon since) (live : d.registry.records.holds id = true) :
    (d.begin (.heartbeat id)).Standing since none ∧
      (d.begin (.heartbeat id)).registry.roll = d.registry.roll := by
  have next : d.step (.begin (.heartbeat id)) = some (d.begin (.heartbeat id)) := rfl
  have calls : (d.begin (.heartbeat id)).calls = d.calls := by
    simp [Directory.begin, Directory.beginHeartbeat, Registry.heartbeat, live, Directory.answer]
  refine ⟨h.next soon rfl (fun _ same => by cases same) (fun _ _ same => by cases same) next
    fun j c found apart => h.gentle j c ?_ apart, h.rollKept soon (fun _ _ is => by cases is) next⟩
  rwa [Directory.call?, calls] at found

theorem attendsAct {roll : Roll} {e f : Engine} (h : Attends since roll e)
    (next : e.act = some f) : Attends since roll f := by
  obtain ⟨k, keeper, free, todo, known⟩ := h.keeper
  have soon {g : Directory} (time : Directory.SameTime e.directory g)
      (settings : g.settings = e.directory.settings) : g.Soon since := by
    rw [Directory.Soon, time.clock, settings]
    exact h.soon
  rcases Engine.actCases next with acted | kept
  · have kept : f.keeper = some k := acted.keeper.trans keeper
    rcases acted.directory with same | ⟨a, own, _, step⟩
    · exact ⟨same ▸ h.standing, same ▸ h.same, same ▸ h.soon, k, kept, free, todo, known⟩
    · obtain ⟨drops, sets, handed⟩ := Directory.ownKeeps own
      exact ⟨h.standing.next h.soon drops sets handed step (h.standing.gentleStep h.soon own step),
        (h.standing.rollKept h.soon (fun _ _ is => by cases is) step).trans h.same,
        soon acted.time (Directory.stepSettings step), k, kept, free, todo, known⟩
  · obtain ⟨k', same, tends⟩ := Engine.keepAliveTends kept
    cases keeper.symm.trans same
    cases tends with
    | awaited waits => cases free.symm.trans waits
    | @heard i rest _ is live =>
      obtain ⟨standing, roll⟩ := heartbeatStands h.standing h.soon live
      have step : e.directory.step (.begin (.heartbeat i.id)) =
        some (e.directory.begin (.heartbeat i.id)) := rfl
      have later := soon (Directory.beginTime e.directory (.heartbeat i.id))
        (Directory.stepSettings step)
      exact ⟨standing, roll.trans h.same, later, _, rfl, free,
        fun j mem => todo j (is ▸ List.mem_cons_of_mem _ mem), known⟩
    | @missed i rest again _ is gone =>
      have live := todo i (is ▸ List.mem_cons_self)
      rw [← h.same] at live
      rw [Table.absentIff] at gone
      simp [Registry.roll, Registry.get?, gone] at live
    | ticked => exact ⟨h.standing, h.same, h.soon, _, rfl, free, known, known⟩

theorem keepRoll (h : Starting since d) (soon : d.engine.directory.Soon since)
    (known : ∀ i ∈ instances, d.engine.directory.registry.roll i.id ≠ none) :
    (d.keep instances).engine.directory.registry.roll = d.engine.directory.registry.roll := by
  unfold keep
  split
  · rfl
  · let keeper : Keeper := ⟨instances, d.engine.now, heartbeatPeriod d.settings, 0, [], none⟩
    have nobody : ∀ i ∈ keeper.todo, d.engine.directory.registry.roll i.id ≠ none := by
      simp [keeper]
    have begins : Attends since d.engine.directory.registry.roll
        { d.engine with keeper := some keeper } :=
      ⟨h.standing, rfl, soon, keeper, rfl, rfl, nobody, known⟩
    exact (Engine.settleKeeps attendsAct begins).same

structure Holds (source : Particulars → Prop) (e : Engine) : Prop where
  custody : e.directory.Custody
  within : e.directory.Within source
  kept : ∀ k ∈ e.keeper, ∀ i ∈ k.todo ++ k.instances, source i.particulars

theorem holdsAct {source : Particulars → Prop} {e f : Engine} (h : Holds source e)
    (next : e.act = some f) : Holds source f := by
  have led (requests : Request → Prop) {g : Directory} (leads : e.directory.Reaches requests g)
      (asked : ∀ i, requests (.register i) → source i.particulars) :=
    leads.within h.custody h.within asked
  rcases Engine.actCases next with acted | kept
  · have still : ∀ k ∈ f.keeper, ∀ i ∈ k.todo ++ k.instances, source i.particulars :=
      acted.keeper ▸ h.kept
    rcases acted.directory with same | ⟨a, own, _, step⟩
    · exact ⟨same ▸ h.custody, same ▸ h.within, still⟩
    · have one : e.directory.steps [a] = some f.directory := by
        simp [Directory.steps, step]
      obtain ⟨custody, within⟩ := led (fun _ => False)
        (.own (by simpa using own) one) (fun _ asked => asked.elim)
      exact ⟨custody, within, still⟩
  · obtain ⟨k, keeper, tends⟩ := Engine.keepAliveTends kept
    have known := h.kept k keeper
    cases tends with
    | awaited => exact ⟨h.custody, h.within, by rintro _ ⟨⟩; exact known⟩
    | @heard i rest _ is =>
      obtain ⟨custody, within⟩ := led (· = .heartbeat i.id) (.asks rfl) (fun _ is => by cases is)
      refine ⟨custody, within, ?_⟩
      rintro _ ⟨⟩ j mem
      exact known j (by rw [is]; exact List.mem_cons_of_mem _ mem)
    | @missed i rest again _ is =>
      have mine : source i.particulars := known i (by rw [is]; exact List.mem_cons_self)
      obtain ⟨custody, within⟩ := led
        (fun r => r = .heartbeat i.id ∨ r = .register i)
        ((Directory.Reaches.asks (.inl rfl)).trans (.asks (.inr rfl)))
        (by rintro j (same | same) <;> cases same; exact mine)
      refine ⟨custody, within, ?_⟩
      rintro _ ⟨⟩ j mem
      exact known j (by rw [is]; exact List.mem_cons_of_mem _ mem)
    | ticked =>
      refine ⟨h.custody, h.within, ?_⟩
      rintro _ ⟨⟩ j mem
      exact known j (List.mem_append_right _ ((List.mem_append.mp mem).elim id id))

theorem keepHolds {source : Particulars → Prop} (custody : d.engine.directory.Custody)
    (within : d.engine.directory.Within source) (unkept : d.engine.keeper = none)
    (known : ∀ i ∈ instances, source i.particulars) :
    Holds source (d.keep instances).engine := by
  unfold keep
  split
  · exact ⟨custody, within, by simp [unkept]⟩
  · refine Engine.settleKeeps holdsAct ⟨custody, within, ?_⟩
    rintro _ ⟨⟩ i mem
    exact known i (by simpa using mem)

theorem startHolds {store : Table Instance} (named : ∀ c ∈ d.settings.instances, c.id ≠ "")
    (unstarted : d.Unstarted store) (started : d.start host choices = (d', .ok ())) :
    Holds (· ∈ sources d.engine.directory.storeList d.settings.instances) d'.engine := by
  obtain ⟨m, n, running, registers, rfl⟩ := startIs started
  obtain ⟨settings, unkept, begins⟩ := running.leads unstarted.unkept _
  obtain ⟨_, free, goes⟩ := registers.leads unkept
  have configured : ∀ i ∈ m.configured host choices,
      i.particulars ∈ sources d.engine.directory.storeList d.settings.instances := by
    intro i mem
    obtain ⟨c, known, rfl⟩ := List.mem_map.mp mem
    rw [settings] at known
    rw [staticParticulars (named c known)]
    exact List.mem_append_right _ (List.mem_map_of_mem known)
  have within : d.engine.directory.Within
      (· ∈ sources d.engine.directory.storeList d.settings.instances) := by
    rw [unstarted.directory]
    refine Directory.withStoreWithin fun i mem fit => List.mem_append_left _ ?_
    exact List.mem_map_of_mem (List.mem_filter.mpr ⟨List.mem_mergeSort.mpr mem, fit⟩)
  have custody : d.engine.directory.Custody := by
    rw [unstarted.directory]
    exact Directory.withStoreCustody _ _
  obtain ⟨custody, within⟩ := (begins.trans goes).within custody within fun i asks => by
    cases asks with
    | register mem => exact configured i mem
  exact keepHolds custody within free configured

theorem sourcesKnow {store : List Instance} {configured : List Settings.ConfiguredInstance}
    {c : Settings.ConfiguredInstance} (mem : c ∈ configured) :
    (sources store configured).find? (·.id == c.id) ≠ none := by
  rw [ne_eq, List.find?_eq_none]
  intro nobody
  exact nobody c.particulars (List.mem_append_right _ (List.mem_map_of_mem mem))
    (beq_self_eq_true c.id)

theorem soleSource {store : List Instance} {configured : List Settings.ConfiguredInstance}
    {c : Settings.ConfiguredInstance} {p : Particulars}
    (unstored : ∀ stored ∈ store, stored.admissible = true → stored.id ≠ c.id)
    (sole : ∀ other ∈ configured, other.id = c.id → other = c)
    (first : (sources store configured).find? (·.id == c.id) = some p) : p = c.particulars := by
  have own : p.id = c.id := by simpa using List.find?_some first
  rcases List.mem_append.mp (List.mem_of_find?_eq_some first) with loaded | ours
  · obtain ⟨stored, inside, rfl⟩ := List.mem_map.mp loaded
    obtain ⟨inside, fit⟩ := List.mem_filter.mp inside
    exact absurd own (unstored stored inside fit)
  · obtain ⟨other, inside, rfl⟩ := List.mem_map.mp ours
    rw [sole other inside own]

theorem configuredIds (named : ∀ c ∈ d.settings.instances, c.id ≠ "") {i : Instance}
    (mem : i ∈ d.configured host choices) : ∃ c ∈ d.settings.instances, i.id = c.id := by
  obtain ⟨c, known, rfl⟩ := List.mem_map.mp mem
  exact ⟨c, known, congrArg Particulars.id (staticParticulars (named c known) _ _ _)⟩

/-- After a start that has gone well, nobody is live under the id of a configured instance but one
that was stored or is configured. If no more time has gone by than the heartbeat timeout, it is the
stored one that was loaded, or else the first one configured with that id: just as it is configured
if it is the only one, and none is stored under its id. -/
theorem configuredInstancesLive {store : Table Instance} {c : Settings.ConfiguredInstance}
    (valid : d.settings.valid = true) (unstarted : d.Unstarted store)
    (started : d.start host choices = (d', .ok ())) (mem : c ∈ d.settings.instances) :
    (∀ i, d'.engine.directory.registry.get? c.id = some i →
      i.id = c.id ∧ i.particulars ∈ sources d.engine.directory.storeList d.settings.instances) ∧
    (d'.engine.now ≤ d.engine.now + d.settings.directory.heartbeatTimeout →
      ∃ i, d'.engine.directory.registry.get? c.id = some i ∧
        (sources d.engine.directory.storeList d.settings.instances).find? (·.id == c.id) =
          some i.particulars ∧
        ((∀ stored ∈ d.engine.directory.storeList, stored.admissible = true → stored.id ≠ c.id) →
          (∀ other ∈ d.settings.instances, other.id = c.id → other = c) →
            i.particulars = c.particulars)) := by
  have named : ∀ c ∈ d.settings.instances, c.id ≠ "" :=
    fun c mem => ((Settings.validIff.mp valid).instances c mem).id
  constructor
  · intro i found
    obtain ⟨x, live, rfl⟩ := Option.map_eq_some_iff.mp found
    have holds := startHolds named unstarted started
    exact ⟨holds.custody.sound.own c.id x live, holds.within.live c.id x live⟩
  · intro quick
    obtain ⟨m, n, running, registers, rfl⟩ := startIs started
    obtain ⟨settings, unkept, begins⟩ := running.leads unstarted.unkept _
    have time := keepTime n (m.configured host choices)
    have configured : d.engine.directory.settings = d.settings.directory := by
      rw [unstarted.directory]; rfl
    have soon : n.engine.directory.Soon d.engine.clock.nanos := by
      refine ((begins.trans (registers.leads unkept).2.2).soonIff).mpr ?_
      rw [configured, ← time.now]
      exact quick
    obtain ⟨starting, roll⟩ := startRoll named unstarted running registers soon
    have first : ∀ c ∈ d.settings.instances, n.engine.directory.registry.roll c.id ≠ none :=
      fun c mem => roll c.id ▸ sourcesKnow mem
    have known : ∀ i ∈ m.configured host choices, n.engine.directory.registry.roll i.id ≠ none := by
      intro i among
      obtain ⟨c, mem, own⟩ := configuredIds (settings ▸ named) among
      exact own ▸ first c (settings ▸ mem)
    obtain ⟨p, is⟩ := Option.ne_none_iff_exists'.mp (first c mem)
    have kept := congrFun (keepRoll starting soon known) c.id
    obtain ⟨i, live, rfl⟩ := Option.map_eq_some_iff.mp (kept.trans is)
    have own := (roll c.id).symm.trans is
    exact ⟨i, live, own, fun unstored sole => soleSource unstored sole own⟩

def configuring (instances : List Settings.ConfiguredInstance) : Settings :=
  { Settings.standard with instances }

def madeOver (s : Settings) (store : Table Instance) (saves : List Nat) : Daemon where
  settings := s
  store := .memory
  engine :=
    { Engine.new (.new (.withStore s.directory store) s.resolverSettings (some s.emptyCache))
        (.plain (.http s.health.httpPath)) with plan := ⟨saves.map (⟨·, none⟩), [], []⟩ }

def named (id endpoint : String) : Settings.ConfiguredInstance :=
  ⟨id, "web", "", endpoint, none, [], []⟩

def left : Table Instance := [("a", (Instance.fresh "a" "web" "h:0" .origin).withVersion "1")]

def contested : Daemon :=
  madeOver (configuring [named "a" "h:1", named "b" "h:2", named "b" "h:3", named "c" "h:4"]) left []

theorem contestedResolved : contested.settings.valid = true ∧ contested.Unstarted left ∧
    (contested.start "host" []).2 = .ok () ∧
      (∃ i, (contested.start "host" []).1.engine.directory.registry.get? "a" = some i ∧
        i.particulars = ⟨"a", "web", "1", "h:0", 1, [], []⟩) ∧
      (∃ i, (contested.start "host" []).1.engine.directory.registry.get? "b" = some i ∧
        i.particulars = ⟨"b", "web", "", "h:2", 1, [], []⟩) ∧
      ∃ i, (contested.start "host" []).1.engine.directory.registry.get? "c" = some i ∧
        i.particulars = (named "c" "h:4").particulars := by
  have valid : contested.settings.valid = true := by decide
  have unstarted : contested.Unstarted left := ⟨rfl, rfl⟩
  have well : (contested.start "host" []).2 = .ok () := by decide +kernel
  have started : contested.start "host" [] = ((contested.start "host" []).1, .ok ()) :=
    Prod.ext rfl well
  have quick : (contested.start "host" []).1.engine.now ≤
      contested.engine.now + contested.settings.directory.heartbeatTimeout := by decide +kernel
  obtain ⟨i, stored, first, _⟩ := (configuredInstancesLive valid unstarted started
    (c := named "a" "h:1") List.mem_cons_self).2 quick
  obtain ⟨j, configured, second, _⟩ := (configuredInstancesLive valid unstarted started
    (c := named "b" "h:3") (by simp [contested, madeOver, configuring])).2 quick
  have loaded : (sources contested.engine.directory.storeList contested.settings.instances).find?
      (·.id == "a") = some ⟨"a", "web", "1", "h:0", 1, [], []⟩ := by decide +kernel
  have came : (sources contested.engine.directory.storeList contested.settings.instances).find?
      (·.id == "b") = some ⟨"b", "web", "", "h:2", 1, [], []⟩ := by decide +kernel
  obtain ⟨l, alone, _, own⟩ := (configuredInstancesLive valid unstarted started
    (c := named "c" "h:4") (by simp [contested, madeOver, configuring])).2 quick
  exact ⟨valid, unstarted, well, ⟨i, stored, Option.some.inj (first.symm.trans loaded)⟩,
    ⟨j, configured, Option.some.inj (second.symm.trans came)⟩,
    l, alone, own (by decide +kernel) (by decide)⟩

structure Contradicts (store : Table Instance) (d : Daemon) : Prop where
  valid : d.settings.valid = true
  unstarted : d.Unstarted store
  started : (d.start "host" []).2 = .ok ()
  differs : ∃ c ∈ d.settings.instances,
    ((d.start "host" []).1.engine.directory.registry.get? c.id).map Instance.particulars ≠
      some c.particulars

theorem configuredContradicted :
    (madeOver (configuring [⟨"a", "web", "", "127.0.0.1:9", none, [], []⟩,
      ⟨"a", "db", "", "127.0.0.1:10", none, [], []⟩]) [] []).Contradicts [] ∧
    (madeOver (configuring [named "a" "h:1"]) left []).Contradicts left ∧
    (madeOver (configuring [named "a" "h:1", named "b" "h:2"]) []
      [0, 200000, 200000]).Contradicts [] :=
  ⟨⟨by decide, ⟨rfl, rfl⟩, by decide +kernel, by decide +kernel⟩,
    ⟨by decide, ⟨rfl, rfl⟩, by decide +kernel, by decide +kernel⟩,
    ⟨by decide, ⟨rfl, rfl⟩, by decide +kernel, by decide +kernel⟩⟩

end Daemon
end ServiceDirectory
