import ServiceDirectory.Proofs.Manning

/-! What is left of registrations and removals that are dropped: nothing that anybody could read or
was told, and no id in flight. But the loop that a removal has taken stays away. -/
namespace ServiceDirectory

namespace Stride

def caller? (s : Stride) : Option CallId :=
  match s.action with
  | .begin _ => some s.before.nextCall
  | .proceed k => some k
  | .settle k _ => some k
  | .abandon k => some k
  | .listed k _ => some k
  | _ => none

structure Unseen (s : Stride) : Prop where
  records : s.after.registry.records = s.before.registry.records
  revisions : s.after.registry.revisions = s.before.registry.revisions
  lastRevision : s.after.registry.lastRevision = s.before.registry.lastRevision
  log : s.after.log = s.before.log
  bus : s.after.bus = s.before.bus

theorem Unseen.same {s : Stride} (registry : s.after.registry = s.before.registry)
    (log : s.after.log = s.before.log) (bus : s.after.bus = s.before.bus) : s.Unseen := by
  refine ⟨?_, ?_, ?_, log, bus⟩ <;> rw [registry]

end Stride

def Request.names? : Request → Option String
  | .register i => some i.id
  | .deregister id => some id
  | _ => none

def Call.early : Call → Bool
  | .admitting _ => true
  | .saving _ => true
  | .quieting _ _ => true
  | .deleting _ => true
  | _ => false

namespace Directory
variable {d e : Directory} {a : Action} {k : CallId} {c c' : Call} {past : List Stride} {s : Stride}

theorem callerNone (ofReport : a = .applyNext ∨ ∃ report, a = .applyDirect report)
    (e : Directory) : (⟨d, a, e⟩ : Stride).caller? = none := by
  rcases ofReport with rfl | ⟨report, rfl⟩ <;> rfl

theorem callerKnown (lined : d.Lined) (next : d.step a = some e)
    (calls : (⟨d, a, e⟩ : Stride).caller? = some k) : k < e.nextCall := by
  obtain ⟨_, _, _, _, happens⟩ := stepTurns lined next
  have known {c : Call} (found : d.call? k = some c) : k < e.nextCall :=
    Nat.lt_of_lt_of_le (lined.recent _ (memOfCall found)) happens.grows
  cases a with
  | begin request =>
    cases calls
    cases stepDeed next with
    | passed ofReport => cases callerNone (d := d) ofReport d
    | ignored ofReport => cases callerNone (d := d) ofReport d
    | moved ofReport => cases callerNone (d := d) ofReport d
    | _ => exact Nat.lt_succ_self _
  | proceed j =>
    cases calls
    obtain ⟨c, found, _⟩ := Option.bind_eq_some_iff.mp next
    exact known found
  | settle j failure =>
    cases calls
    obtain ⟨c, found, _⟩ := Option.bind_eq_some_iff.mp next
    exact known found
  | abandon j =>
    cases calls
    obtain ⟨c, found, _⟩ := dropIs next
    exact known found
  | listed j stored =>
    cases calls
    cases stepDeed next with
    | given found => exact known found
    | passed ofReport => cases callerNone (d := d) ofReport d
    | ignored ofReport => cases callerNone (d := d) ofReport d
    | moved ofReport => cases callerNone (d := d) ofReport d
  | _ => cases calls

def Withholds (s : Stride) : Prop :=
  ∀ x ∈ s.after.calls, x.2.early = true →
    (x ∈ s.before.calls ∧ s.caller? ≠ some x.1) ∨
      (s.Unseen ∧ (x.1 = s.before.nextCall ∨ ∃ c, (x.1, c) ∈ s.before.calls ∧ c.early = true))

namespace Withholds

theorem aside (calls : e.calls = d.calls)
    (apart : ∀ x ∈ d.calls, (⟨d, a, e⟩ : Stride).caller? ≠ some x.1) :
    Withholds ⟨d, a, e⟩ := fun x mem _ => by
  have mem : x ∈ d.calls := calls ▸ mem
  exact .inl ⟨mem, apart x mem⟩

theorem opened (calls : e.calls = d.calls ++ [(d.nextCall, c)])
    (apart : ∀ x ∈ d.calls, (⟨d, a, e⟩ : Stride).caller? ≠ some x.1)
    (new : c.early = true → (⟨d, a, e⟩ : Stride).Unseen) : Withholds ⟨d, a, e⟩ := by
  rw [Withholds, calls]
  exact eachOpened (fun x mem _ => .inl ⟨mem, apart x mem⟩) fun early => .inr ⟨new early, .inl rfl⟩

theorem moved (calls : e.calls = (d.moveTo k c').calls)
    (own : (⟨d, a, e⟩ : Stride).caller? = some k) (found : d.call? k = some c)
    (new : c'.early = true → (⟨d, a, e⟩ : Stride).Unseen ∧ c.early = true) :
    Withholds ⟨d, a, e⟩ := by
  rw [Withholds, calls, own]
  exact eachMoved (fun x mem apart _ => .inl ⟨mem, fun same => apart (Option.some.inj same).symm⟩)
    fun early => .inr ⟨(new early).1, .inr ⟨c, memOfCall found, (new early).2⟩⟩

theorem left (calls : e.calls = d.calls.filter (·.1 != k))
    (own : (⟨d, a, e⟩ : Stride).caller? = some k) : Withholds ⟨d, a, e⟩ := by
  rw [Withholds, calls, own]
  exact eachLeft fun x mem apart _ => .inl ⟨mem, fun same => apart (Option.some.inj same).symm⟩

end Withholds

theorem withholdsStep (lined : d.Lined) (next : d.step a = some e) : Withholds ⟨d, a, e⟩ := by
  have older (x : CallId × Call) (mem : x ∈ d.calls) : some d.nextCall ≠ some x.1 := fun same =>
    Nat.ne_of_gt (lined.recent x mem) (Option.some.inj same)
  cases stepDeed next with
  | refused => exact .aside rfl older
  | heard => exact .aside rfl older
  | broke => exact .aside rfl older
  | opened opens => exact .opened rfl older fun _ => .same rfl rfl rfl
  | removing => exact .opened rfl older fun _ => ⟨rfl, rfl, rfl, rfl, rfl⟩
  | starting => exact .opened rfl older nofun
  | closing => exact .opened rfl older nofun
  | ticked => exact .opened rfl (fun _ _ => nofun) nofun
  | turnedAway => exact .left rfl rfl
  | reserved found => exact .moved rfl rfl found fun _ => ⟨⟨rfl, rfl, rfl, rfl, rfl⟩, rfl⟩
  | entered found => exact .moved rfl rfl found nofun
  | quieted found => exact .moved rfl rfl found fun _ => ⟨.same rfl rfl rfl, rfl⟩
  | left found => exact .moved rfl rfl found nofun
  | missed => exact .left rfl rfl
  | foundNone => exact .left rfl rfl
  | collected found => exact .moved rfl rfl found nofun
  | hushed found => exact .moved rfl rfl found nofun
  | releasing found => exact .moved rfl rfl found nofun
  | expiredLast => exact .left rfl rfl
  | expired found => exact .moved rfl rfl found nofun
  | loaded found => exact .moved rfl rfl found nofun
  | told found => exact .moved rfl rfl found nofun
  | silent => exact .left rfl rfl
  | launched => exact .left rfl rfl
  | drained found => exact .moved rfl rfl found nofun
  | stilled found => exact .moved rfl rfl found nofun
  | joined => exact .left rfl rfl
  | saved found => exact .moved rfl rfl found nofun
  | unsaved => exact .left rfl rfl
  | deleted found => exact .moved rfl rfl found nofun
  | purged found => exact .moved rfl rfl found nofun
  | listed found => exact .moved rfl rfl found nofun
  | unlisted => exact .left rfl rfl
  | given found => exact .moved rfl rfl found nofun
  | dropped => exact .left rfl rfl
  | passed ofReport => exact .aside rfl (fun _ _ => by simp [callerNone ofReport])
  | ignored ofReport => exact .aside rfl (fun _ _ => by simp [callerNone ofReport])
  | moved ofReport => exact .opened rfl (fun _ _ => by simp [callerNone ofReport]) nofun
  | _ => exact .aside rfl fun _ _ => nofun

structure Pristine (past : List Stride) (d : Directory) : Prop where
  fresh : ∀ t ∈ past, ∀ k, t.caller? = some k → k < d.nextCall
  unseen : ∀ x ∈ d.calls, x.2.early = true → ∀ t ∈ past, t.caller? = some x.1 → t.Unseen

theorem emptyPristine (settings : DirectorySettings) : Pristine [] (empty settings) where
  fresh t mem := by cases mem
  unseen x mem := by cases mem

theorem pristineStep (lined : d.Lined) (h : Pristine past d) (next : d.step a = some e) :
    Pristine (past ++ [⟨d, a, e⟩]) e := by
  obtain ⟨_, _, _, _, happens⟩ := stepTurns lined next
  refine ⟨fun t mem k calls => ?_, fun x mem early t inside calls => ?_⟩
  · rcases List.mem_append.mp mem with old | new
    · exact Nat.lt_of_lt_of_le (h.fresh t old k calls) happens.grows
    · cases List.mem_singleton.mp new
      exact callerKnown lined next calls
  · rcases withholdsStep lined next x mem early with ⟨old, other⟩ | ⟨unseen, own⟩
    · rcases List.mem_append.mp inside with was | new
      · exact h.unseen x old early t was calls
      · cases List.mem_singleton.mp new
        exact absurd calls other
    · rcases List.mem_append.mp inside with was | new
      · rcases own with recent | ⟨c, there, early⟩
        · exact absurd (h.fresh t was _ calls) (Nat.not_lt.mpr (Nat.le_of_eq recent.symm))
        · exact h.unseen _ there early t was calls
      · cases List.mem_singleton.mp new
        exact unseen

structure Abandoning (settings : DirectorySettings) (past : List Stride) (d : Directory) : Prop where
  watched : Watched settings past d
  serving : Serving past d
  pristine : Pristine past d

theorem emptyAbandoning (settings : DirectorySettings) :
    Abandoning settings [] (empty settings) where
  watched := emptyWatched settings
  serving := emptyServing settings
  pristine := emptyPristine settings

theorem abandoningStep {settings : DirectorySettings} (probes : settings.health.interval ≠ 0)
    (h : Abandoning settings past d) (stays : a ≠ .begin .shutdown) (next : d.step a = some e) :
    Abandoning settings (past ++ [⟨d, a, e⟩]) e where
  watched := watchedStep probes h.watched stays next
  serving := servingStep h.watched.balanced.custody.lined h.serving next
  pristine := pristineStep h.watched.balanced.custody.lined h.pristine next

theorem droppedEarly {request : Request} {id : String} (names : request.names? = some id)
    (serves : c.Serves (some request)) (abandonable : c.abandonable = true) :
    c.early = true ∧ c.guarded? = some id ∧ c.parks = [id] ∧
      ∀ other ∈ c.removes, request = .deregister other := by
  cases c with
  | saving i =>
    obtain ⟨j, own, same⟩ := serves
    cases own
    cases names
    exact ⟨rfl, congrArg some same.symm, congrArg (fun x => [x]) same.symm, nofun⟩
  | quieting target loop =>
    cases serves
    cases names
    exact ⟨rfl, rfl, rfl, fun other mem => by rw [List.mem_singleton.mp mem]⟩
  | deleting target =>
    cases serves
    cases names
    exact ⟨rfl, rfl, rfl, fun other mem => by rw [List.mem_singleton.mp mem]⟩
  | hushing loops round => cases serves; cases names
  | purging round => cases serves; cases names
  | listing => cases serves; cases names
  | stilling loops => cases serves; cases names
  | joining waits => cases serves; cases names
  | _ => cases abandonable

structure Forgotten (past : List Stride) (k : CallId) (request : Request) (id : String)
    (d e : Directory) : Prop where
  unseen : ∀ t ∈ past ++ [⟨d, .abandon k, e⟩], t.caller? = some k → t.Unseen
  ended : e.call? k = none
  inFlight : ∀ other, other ∈ e.registry.inFlight ↔ other ∈ d.registry.inFlight ∧ other ≠ id
  unparked : ∀ x ∈ e.calls, id ∉ x.2.parks
  manned : e.registry.running = true → ∀ other x, e.registry.records.get? other = some x →
    e.Manned other x.epoch ∨ (∃ y ∈ e.calls, other ∈ y.2.removes) ∨
      (other, x.epoch) ∈ forsaken past ∨ request = .deregister other

/-- Registrations and removals that are dropped while they wait for the loop or the store leave
nothing in flight and nothing that anybody could see; every live record keeps its loop but the one
that was to be removed. -/
theorem droppedCallsForgotten {settings : DirectorySettings} {actions : List Action}
    {request : Request} {id : String} (probes : settings.health.interval ≠ 0)
    (run : (empty settings).steps actions = some d) (stays : .begin .shutdown ∉ actions)
    (asks : asked? ((empty settings).trail actions) k = some request)
    (names : request.names? = some id) (next : d.step (.abandon k) = some e) :
    Forgotten ((empty settings).trail actions) k request id d e := by
  have h : Abandoning settings ((empty settings).trail actions) d :=
    trailKeeps (emptyAbandoning settings) run fun s mem next past h =>
      abandoningStep probes h (fun same => stays (same ▸ trailActions mem)) next
  have after := abandoningStep (a := .abandon k) probes h (by simp) next
  have custody := h.watched.balanced.custody
  obtain ⟨c, found, abandonable, is⟩ := dropIs next
  have known := memOfCall found
  have serves := h.serving.serves _ known
  rw [asks] at serves
  obtain ⟨early, guarded, parks, removes⟩ := droppedEarly names serves abandonable
  rw [guarded, Option.elim_some] at is
  refine ⟨fun t mem calls => ?_, ?_, fun other => ?_, ?_, fun runs other x live => ?_⟩
  · rcases List.mem_append.mp mem with was | new
    · exact h.pristine.unseen _ known early t was calls
    · cases List.mem_singleton.mp new
      exact is ▸ ⟨rfl, rfl, rfl, rfl, rfl⟩
  · rw [is, call?, List.find?_eq_none.mpr]
    · rfl
    · exact eachLeft fun x _ other => by simpa using other
  · rw [is]
    exact Registry.memRelease _ _ _
  · rw [is]
    exact eachLeft fun x mem other =>
      parksApart custody known mem (Ne.symm other) (parks ▸ List.mem_singleton_self id)
  · rcases after.watched.manning.manned runs other x live with mans | hands | gone
    · exact .inl mans
    · exact .inr (.inl hands)
    · rw [forsakenNext] at gone
      rcases List.mem_append.mp gone with before | mine
      · exact .inr (.inr (.inl before))
      · obtain ⟨target, removed, own⟩ := List.mem_filterMap.mp mine
        obtain ⟨y, _, same⟩ := Option.map_eq_some_iff.mp own
        cases (Prod.mk.inj same).1
        refine .inr (.inr (.inr (removes _ ?_)))
        simpa [Stride.dropped?, found] using removed

def waiting : List Action :=
  [.begin .start, .proceed 0, .begin (.register (.fresh "a" "web" "h:1" .origin)), .proceed 1,
    .settle 1 none, .proceed 1, .proceed 1, .proceed 1,
    .begin (.register (.fresh "b" "web" "h:2" .origin)), .proceed 2]

theorem waitingForgotten :
    ∃ d e, (empty Settings.standard.directory).steps waiting = some d ∧
      d.step (.abandon 2) = some e ∧ d.registry.inFlight = ["b"] ∧ e.registry.inFlight = [] ∧
      e.registry.records.map (·.1) = ["a"] ∧
      Forgotten ((empty Settings.standard.directory).trail waiting) 2
        (.register (.fresh "b" "web" "h:2" .origin)) "b" d e := by
  obtain ⟨d, e, run, next, busy, free, live⟩ : ∃ d e,
      (empty Settings.standard.directory).steps waiting = some d ∧
      d.step (.abandon 2) = some e ∧ d.registry.inFlight = ["b"] ∧ e.registry.inFlight = [] ∧
      e.registry.records.map (·.1) = ["a"] :=
    ⟨_, _, rfl, rfl, by decide +kernel, by decide +kernel, by decide +kernel⟩
  exact ⟨d, e, run, next, busy, free, live,
    droppedCallsForgotten (by decide) run (by decide) (by decide +kernel) rfl next⟩

def halfRemoved : List Action :=
  [.begin .start, .proceed 0, .begin (.register (.fresh "a" "web" "h:1" .origin)), .proceed 1,
    .settle 1 none, .proceed 1, .proceed 1, .proceed 1,
    .begin (.deregister "a"), .endLoop 1, .proceed 2, .abandon 2]

theorem droppedRemovalUnmans :
    ∃ d x, (empty Settings.standard.directory).steps halfRemoved = some d ∧
      d.registry.running = true ∧ d.cancelled = false ∧ d.calls = [] ∧ d.registry.inFlight = [] ∧
      d.registry.records.get? "a" = some x ∧ ¬d.Manned "a" x.epoch := by
  obtain ⟨d, x, run, runs, unshut, calls, free, live, none⟩ : ∃ d x,
      (empty Settings.standard.directory).steps halfRemoved = some d ∧
      d.registry.running = true ∧ d.cancelled = false ∧ d.calls = [] ∧ d.registry.inFlight = [] ∧
      d.registry.records.get? "a" = some x ∧ d.loops = [] :=
    ⟨_, _, rfl, rfl, rfl, by decide +kernel, by decide +kernel, rfl, by decide +kernel⟩
  refine ⟨d, x, run, runs, unshut, calls, free, live, fun mans => ?_⟩
  obtain ⟨l, mem, _⟩ := mans.loop
  rw [none] at mem
  cases mem

end Directory
end ServiceDirectory
