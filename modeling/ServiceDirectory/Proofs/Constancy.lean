import ServiceDirectory.Proofs.Errands

/-! The configured instances are live from the start on, and none of them ever expires: when the
first of them is kept alive, no time has gone by since the daemon was made. -/
namespace ServiceDirectory

theorem Call.gentleRemoves {c : Call} (gentle : c.gentle = true) : c.removes = [] := by
  cases c <;> first | rfl | cases gentle

namespace Daemon
variable {d d' m n : Daemon} {host : String} {choices : List Nat} {store : Table Instance}
  {instances : List Instance} {own : String → Prop} {since : Int}

theorem periodQuick {s : Settings} (sound : s.Sound) :
    heartbeatPeriod s ≤ s.directory.heartbeatTimeout * 1000000 := by
  have some_ := Nat.pos_of_ne_zero sound.heartbeatTimeout
  simp only [heartbeatPeriod, Settings.directory]
  omega

theorem keepMinds (h : Timely since n) (now : n.engine.clock.nanos = since)
    (quick : heartbeatPeriod n.settings ≤ n.engine.directory.settings.heartbeatTimeout * 1000000)
    (known : ∀ i ∈ instances, n.engine.directory.registry.roll i.id ≠ none)
    (mine : ∀ i ∈ instances, own i.id) (all : ∀ id, own id → ∃ i ∈ instances, i.id = id)
    (some_ : instances ≠ []) : (n.keep instances).engine.Minds own := by
  have standing := h.standing
  have guards : n.engine.directory.Guards own :=
    ⟨standing.custody, standing.punctual, standing.tidings,
      fun id _ k c found => by
        rw [Call.gentleRemoves (standing.gentle k c found nofun)]
        exact List.not_mem_nil,
      fun id _ event mem expired => absurd expired (standing.unexpired event mem)⟩
  let keeper : Keeper := ⟨instances, n.engine.now, heartbeatPeriod n.settings, 0, [], none⟩
  have due : keeper.due = n.engine.directory.now := by simp [Keeper.due, keeper, Engine.now]
  have rounds : keeper.Rounds n.engine.directory.now n.engine.directory := by
    refine ⟨rfl, Nat.le_refl _, due ▸ Nat.le_refl _, due ▸ Nat.le_add_right _ _, quick,
      by simp [keeper], fun i mem => .inl ?_⟩
    obtain ⟨p, is⟩ := Option.ne_none_iff_exists'.mp (known i mem)
    obtain ⟨_, live, _⟩ := Option.map_eq_some_iff.mp is
    obtain ⟨x, live, _⟩ := Option.map_eq_some_iff.mp live
    exact ⟨x, live, now.trans_le (standing.heard i.id x live)⟩
  have minds : Engine.Minds own { n.engine with keeper := some keeper } :=
    ⟨guards, keeper, _, rfl, rounds, mine, all⟩
  unfold keep
  rw [if_neg (by simpa using some_)]
  exact Engine.mindsRun minds (Engine.settleLives _)

theorem startMinds {c : Settings.ConfiguredInstance} (sound : d.settings.Sound)
    (unstarted : d.Unstarted store) (prompt : d.engine.Prompt)
    (started : d.start host choices = (d', .ok ())) (mem : c ∈ d.settings.instances) :
    d'.engine.Minds fun id => ∃ c ∈ d.settings.instances, c.id = id := by
  have named : ∀ c ∈ d.settings.instances, c.id ≠ "" := fun c mem => (sound.instances c mem).id
  obtain ⟨m, n, running, registers, rfl⟩ := startIs started
  have fresh := Directory.withStoreStanding d.settings.directory store
  rw [← unstarted.directory] at fresh
  have soon : d.engine.directory.Soon d.engine.clock.nanos :=
    Int.le_add_of_nonneg_right (Int.mul_nonneg (Int.natCast_nonneg _) (by decide))
  have begun : Timely d.engine.clock.nanos d := ⟨⟨unstarted.unkept, fresh⟩, prompt, soon⟩
  obtain ⟨first, timely⟩ := runsTimeless begun running
  obtain ⟨second, ready⟩ := registersTimeless timely registers
  obtain ⟨settings, unkept, begins⟩ := running.leads unstarted.unkept []
  obtain ⟨same, _, goes⟩ := registers.leads unkept
  obtain ⟨_, roll⟩ := startRoll named unstarted running registers ready.soon
  have configured : ∀ c ∈ d.settings.instances, ∃ i ∈ m.configured host choices, i.id = c.id :=
    fun c mem => ⟨_, List.mem_map_of_mem (settings ▸ mem), congrArg Particulars.id
      (staticParticulars (named c mem) _ _ _)⟩
  have mine : ∀ i ∈ m.configured host choices, ∃ c ∈ d.settings.instances, c.id = i.id := by
    intro i among
    obtain ⟨c, mem, own⟩ := configuredIds (settings ▸ named) among
    exact ⟨c, settings ▸ mem, own.symm⟩
  have clock : n.engine.clock.nanos = d.engine.clock.nanos :=
    congrArg Timestamp.nanos (second.clock.trans first.clock)
  have quick : heartbeatPeriod n.settings ≤
      n.engine.directory.settings.heartbeatTimeout * 1000000 := by
    rw [same, settings, goes.time.1, begins.time.1, unstarted.directory]
    exact periodQuick sound
  have known : ∀ i ∈ m.configured host choices, n.engine.directory.registry.roll i.id ≠ none := by
    intro i among
    obtain ⟨c, mem, own⟩ := mine i among
    exact own ▸ roll c.id ▸ sourcesKnow mem
  have some_ : m.configured host choices ≠ [] := by
    obtain ⟨i, among, _⟩ := configured c mem
    exact List.ne_nil_of_mem among
  exact keepMinds ready clock quick known mine (by rintro _ ⟨c, mem, rfl⟩; exact configured c mem)
    some_

/-- From a start over a store that answers at once, as one in memory does, the configured instances
are live, and none of them is ever told to have expired: as long as the timers go off when they are
due and nobody deregisters them, whatever else is done and however the probes end. -/
theorem configuredInstancesKept {e : Engine} {c : Settings.ConfiguredInstance}
    (valid : d.settings.valid = true) (unstarted : d.Unstarted store) (prompt : d.engine.Prompt)
    (started : d.start host choices = (d', .ok ()))
    (run : Engine.Lives (fun id => ∃ c ∈ d.settings.instances, c.id = id) d'.engine e)
    (mem : c ∈ d.settings.instances) :
    (∃ i, e.directory.registry.get? c.id = some i) ∧
      ∀ event ∈ e.directory.log, event.kind = .expired → event.snapshot.id ≠ c.id := by
  have sound := Settings.validIff.mp valid
  have minds := Engine.mindsRun (startMinds sound unstarted prompt started mem) run
  obtain ⟨x, live⟩ := minds.live ⟨c, mem, rfl⟩
  exact ⟨⟨x.snapshot, Option.map_eq_some_iff.mpr ⟨x, live, rfl⟩⟩,
    minds.guards.unexpired c.id ⟨c, mem, rfl⟩⟩

def hurried : Settings :=
  { configuring [named "a" "h:1", named "b" "h:2"] with
    discovery := { Settings.DiscoverySection.standard with
      heartbeatTimeoutSecs := 1, sweepIntervalSecs := 1 }
    cache := { Settings.CacheSection.standard with ttlMs := 500 } }

def pastime : List Command := [.work (.call (.deregister "c")), .advance 4500, .work (.call .sweep)]

theorem hurriedKept : Daemon.new hurried = .ok (madeOver hurried [] []) ∧ hurried.valid = true ∧
    ((madeOver hurried [] []).start "host" []).2 = .ok () ∧
      ∃ e, Engine.Lives (fun id => ∃ c ∈ hurried.instances, c.id = id)
          ((madeOver hurried [] []).start "host" []).1.engine e ∧ e.now = 4500 ∧
        (∃ i, e.directory.registry.get? "a" = some i) ∧
          ∀ event ∈ e.directory.log, event.kind = .expired → event.snapshot.id ≠ "a" := by
  have valid : hurried.valid = true := by decide
  have built : Daemon.new hurried = .ok (madeOver hurried [] []) := rfl
  obtain ⟨_, unstarted, prompt⟩ := newUnstarted built
  have well : ((madeOver hurried [] []).start "host" []).2 = .ok () := by decide +kernel
  have spares : ∀ c ∈ pastime, c.Spares fun id => ∃ c ∈ hurried.instances, c.id = id := by
    simp [pastime, Command.Spares, Work.Spares, hurried, configuring, named]
  have run := Engine.commandsLive spares ((madeOver hurried [] []).start "host" []).1.engine
  have now : (pastime.foldl (fun e c => (e.run c).1)
      ((madeOver hurried [] []).start "host" []).1.engine).now = 4500 := by decide +kernel
  have kept := configuredInstancesKept (d := madeOver hurried [] []) (c := named "a" "h:1") valid
    unstarted prompt (Prod.ext rfl well) run List.mem_cons_self
  exact ⟨built, valid, well, _, run, now, kept⟩

end Daemon
end ServiceDirectory
