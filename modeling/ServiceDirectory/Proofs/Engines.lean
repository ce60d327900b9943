import ServiceDirectory.Daemon
import ServiceDirectory.Proofs.Publication
import ServiceDirectory.Proofs.ResolveSteps
import ServiceDirectory.Proofs.Trail

/-! What an engine has its directory do. Each of its acts is at most one action of the directory,
and one that nobody has to ask for, unless the engine keeps instances alive. -/
namespace ServiceDirectory

def Action.own : Action → Bool
  | .proceed _ => true
  | .settle _ failure => failure.all (·.kind == .store)
  | .applyNext => true
  | .endApplier => true
  | .sweepTick => true
  | .endSweeper => true
  | .beginProbe _ _ => true
  | .endProbe _ => true
  | .endLoop _ => true
  | .watch _ => true
  | .takeEvent _ => true
  | .pass _ => true
  | _ => false

def Action.passes : Action → Bool
  | .pass _ => true
  | _ => false

namespace Engine
variable {e f g : Engine}

structure Prompt (e : Engine) : Prop where
  plan : e.plan = ⟨[], [], []⟩
  pending : ∀ p ∈ e.pending, p.due ≤ e.now

structure Acted (e f : Engine) : Prop where
  directory : f.directory = e.directory ∨
    ∃ a : Action, a.own = true ∧ a.passes = false ∧ e.directory.step a = some f.directory
  keeper : f.keeper = e.keeper
  front : ∀ id, e.front = some (.call id) → f.front = some (.call id)
  plan : e.plan = ⟨[], [], []⟩ → f.plan = ⟨[], [], []⟩
  pending : e.plan = ⟨[], [], []⟩ → ∀ p ∈ f.pending, p ∈ e.pending ∨ p.due = e.now

namespace Acted

theorem aside (directory : f.directory = e.directory) (keeper : f.keeper = e.keeper)
    (front : ∀ id, e.front = some (.call id) → f.front = some (.call id)) (plan : f.plan = e.plan)
    (pending : f.pending = e.pending) : Acted e f :=
  ⟨.inl directory, keeper, front, fun empty => plan.trans empty,
    fun _ _ mem => .inl (pending ▸ mem)⟩

theorem tried {a : Action} (own : a.own = true) (stays : a.passes = false)
    (next : e.try_ a = some f) : Acted e f := by
  obtain ⟨d, step, rfl⟩ := Option.map_eq_some_iff.mp next
  exact ⟨.inr ⟨a, own, stays, step⟩, rfl, fun _ => id, id, fun _ _ => .inl⟩

theorem ofBroker {a : BrokerAction} (next : e.tryBroker a = some f)
    (directory : f.directory = e.directory ∨ ∃ action : Action, action.own = true ∧
      action.passes = false ∧ e.directory.step action = some f.directory) : Acted e f := by
  obtain ⟨b, step, rfl⟩ := Option.map_eq_some_iff.mp next
  exact ⟨directory, rfl, fun _ => id, id, fun _ _ => .inl⟩

end Acted

theorem Acted.through {m : Engine} {a : Action} (own : a.own = true) (stays : a.passes = false)
    (next : m.try_ a = some f) (directory : m.directory = e.directory)
    (keeper : m.keeper = e.keeper) (front : m.front = e.front) (plan : m.plan = e.plan)
    (pending : m.pending ⊆ e.pending) : Acted e f := by
  obtain ⟨d, step, rfl⟩ := Option.map_eq_some_iff.mp next
  exact ⟨.inr ⟨a, own, stays, directory ▸ step⟩, keeper, fun _ => front.trans, plan.trans,
    fun _ _ mem => .inl (pending mem)⟩

section Acts
variable {α : Type} {l : List α} {act : α → Option Engine}

theorem oneActed (each : ∀ x ∈ l, act x = some f → Acted e f) (next : l.findSome? act = some f) :
    Acted e f := by
  obtain ⟨x, mem, acts⟩ := List.exists_of_findSome?_eq_some next
  exact each x mem acts

end Acts

theorem beginStoreActed (next : e.beginStore = some f) : Acted e f := by
  refine oneActed (fun ⟨id, call⟩ _ acts => ?_) next
  dsimp only at acts
  split at acts
  · cases acts
  rename_i work asked
  split at acts <;> cases acts
  refine ⟨.inl rfl, rfl, fun _ same => same, fun empty => ?_, fun empty p mem => ?_⟩
  · cases work <;> simp [StorePlan.draw, empty]
  · refine (List.mem_append.mp mem).imp_right fun new => ?_
    cases List.mem_singleton.mp new
    cases work <;> simp [StorePlan.draw, empty]

theorem endStoreActed (next : e.endStore = some f) : Acted e f := by
  refine oneActed (fun p _ acts => ?_) next
  split at acts
  · refine Acted.through ?_ rfl acts rfl rfl rfl rfl fun _ => List.mem_of_mem_filter
    cases p.failure <;> rfl
  · cases acts

theorem stepJobBare {job job' : Job} (next : e.stepJob job = some (f, job')) :
    f.directory = e.directory ∧ f.keeper = e.keeper ∧ f.front = e.front ∧ f.plan = e.plan ∧
      f.pending = e.pending ∧ ∀ id, job ≠ .call id := by
  cases job with
  | call id => cases next
  | resolves service options left current picks =>
    cases current with
    | none =>
      cases left with
      | zero => cases next
      | succ left =>
        simp only [stepJob, Option.map_eq_some_iff] at next
        obtain ⟨g, tried, same⟩ := next
        cases same
        obtain ⟨b, step, rfl⟩ := Option.map_eq_some_iff.mp tried
        obtain ⟨pursuits, endings, rfl⟩ := Broker.beginAside step
        exact ⟨rfl, rfl, rfl, rfl, rfl, fun _ is => by cases is⟩
    | some id =>
      obtain ⟨result, _, same⟩ := Option.map_eq_some_iff.mp next
      cases same
      exact ⟨rfl, rfl, rfl, rfl, rfl, fun _ is => by cases is⟩

theorem stepFrontActed (next : e.stepFront = some f) : Acted e f := by
  obtain ⟨job, front, next⟩ := Option.bind_eq_some_iff.mp next
  obtain ⟨⟨g, job'⟩, stepped, next⟩ := Option.bind_eq_some_iff.mp next
  cases next
  obtain ⟨directory, keeper, _, plan, pending, uncalled⟩ := stepJobBare stepped
  exact .aside directory keeper (fun id call => absurd (Option.some.inj (front.symm.trans call))
    (uncalled id)) plan pending

theorem stepTasksActed (next : e.stepTasks = some f) : Acted e f := by
  refine oneActed (fun t _ acts => ?_) next
  obtain ⟨⟨g, job'⟩, stepped, acts⟩ := Option.bind_eq_some_iff.mp acts
  cases acts
  obtain ⟨directory, keeper, front, plan, pending, _⟩ := stepJobBare stepped
  exact .aside directory keeper (fun _ => front.trans) plan pending

theorem noteFinishedActed (next : e.noteFinished = some f) : Acted e f := by
  refine oneActed (fun t _ acts => ?_) next
  split at acts <;> cases acts
  exact .aside rfl rfl (fun _ => id) rfl rfl

theorem drawProbeBare (e : Engine) (endpoint : String) :
    (e.drawProbe endpoint).2.directory = e.directory ∧
      (e.drawProbe endpoint).2.keeper = e.keeper ∧ (e.drawProbe endpoint).2.front = e.front ∧
      (e.drawProbe endpoint).2.plan = e.plan ∧ (e.drawProbe endpoint).2.pending = e.pending := by
  unfold drawProbe
  repeat' split
  all_goals exact ⟨rfl, rfl, rfl, rfl, rfl⟩

theorem beginProbesActed (next : e.beginProbes = some f) : Acted e f := by
  refine oneActed (fun l _ acts => ?_) next
  obtain ⟨directory, keeper, front, plan, pending⟩ := drawProbeBare e l.check.endpoint
  exact Acted.through rfl rfl acts directory keeper front plan fun _ mem => pending ▸ mem

theorem proceedResolvesActed (next : e.proceedResolves = some f) : Acted e f := by
  refine oneActed (fun p _ acts => .ofBroker acts (.inl ?_)) next
  obtain ⟨b, step, rfl⟩ := Option.map_eq_some_iff.mp acts
  obtain ⟨p, s, _, ⟨_, _, rfl⟩ | ⟨_, _, rfl⟩⟩ := Broker.proceedCases step <;> rfl

theorem followNextTakes {b c : Broker} {w : Nat} (next : b.step (.followNext w) = some c) :
    b.directory.step (.takeEvent w) = some c.directory := by
  simp only [Broker.step, Broker.followNext] at next
  split at next
  · cases next
  · obtain ⟨event, _, next⟩ := Option.bind_eq_some_iff.mp next
    cases next
    rfl

theorem followEventsActed (next : e.followEvents = some f) : Acted e f := by
  refine oneActed (fun w _ acts => .ofBroker acts (.inr ⟨.takeEvent w, rfl, rfl, ?_⟩)) next
  obtain ⟨b, step, rfl⟩ := Option.map_eq_some_iff.mp acts
  exact followNextTakes step

theorem logEventsActed (next : e.logEvents = some f) : Acted e f := by
  refine oneActed (fun w _ acts => ?_) next
  split at acts
  · exact .tried rfl rfl acts
  · cases acts

theorem actCases (next : e.act = some f) : Acted e f ∨ e.keepAlive = some f := by
  obtain ⟨act, mem, acts⟩ := List.exists_of_findSome?_eq_some next
  have oneTried {α : Type} {l : List α} {action : α → Action} (own : ∀ x, (action x).own = true)
      (stays : ∀ x, (action x).passes = false)
      (next : l.findSome? (fun x => e.try_ (action x)) = some f) : Acted e f :=
    oneActed (fun x _ tried => .tried (own x) (stays x) tried) next
  simp only [List.mem_cons, List.not_mem_nil, or_false] at mem
  rcases mem with rfl | rfl | rfl | rfl | rfl | rfl | rfl | rfl | rfl | rfl | rfl | rfl | rfl |
    rfl | rfl | rfl | rfl | rfl
  · obtain ⟨id, _, tried⟩ := Option.bind_eq_some_iff.mp acts
    exact .inl (.tried rfl rfl tried)
  · exact .inl (oneTried (fun _ => rfl) (fun _ => rfl) acts)
  · exact .inl (endStoreActed acts)
  · exact .inl (beginStoreActed acts)
  · exact .inl (proceedResolvesActed acts)
  · exact .inl (stepFrontActed acts)
  · exact .inl (stepTasksActed acts)
  · exact .inl (noteFinishedActed acts)
  · exact .inl (oneTried (fun _ => rfl) (fun _ => rfl) acts)
  · exact .inl (oneTried (fun _ => rfl) (fun _ => rfl) acts)
  · exact .inl (beginProbesActed acts)
  · exact .inl (.tried rfl rfl acts)
  · exact .inl (.tried rfl rfl acts)
  · exact .inl (.tried rfl rfl acts)
  · exact .inl (.tried rfl rfl acts)
  · exact .inl (followEventsActed acts)
  · exact .inl (logEventsActed acts)
  · exact .inr acts

theorem actUnkept (unkept : e.keeper = none) (next : e.act = some f) : Acted e f := by
  rcases actCases next with acted | kept
  · exact acted
  · simp [keepAlive, unkept] at kept

theorem Acted.time (h : Acted e f) : Directory.SameTime e.directory f.directory := by
  rcases h.directory with same | ⟨a, own, stays, step⟩
  · rw [same]; exact ⟨rfl, rfl⟩
  · refine Directory.stepTime ?_ ?_ step <;> rintro n rfl <;> contradiction

theorem Acted.prompt (h : Acted e f) (prompt : e.Prompt) : f.Prompt := by
  refine ⟨h.plan prompt.plan, fun p mem => ?_⟩
  have now : f.now = e.now := h.time.now
  rw [now]
  exact (h.pending prompt.plan p mem).elim (prompt.pending p) Nat.le_of_eq

theorem heartbeatEnds (d : Directory) (id : String) :
    (d.begin (.heartbeat id)).ending? d.nextCall =
      some (if d.registry.records.holds id then .ok .done
        else .error (Registry.notFound id)) := by
  cases live : d.registry.records.holds id <;>
    simp [Directory.begin, Directory.beginHeartbeat, Registry.heartbeat, live, Directory.ending?,
      Directory.answer]

inductive Tended (e : Engine) (k : Keeper) : Engine → Prop where
  | awaited {call : CallId} (waits : k.waiting = some call)
      (ended : e.directory.ending? call ≠ none) :
      Tended e k { e with keeper := some { k with waiting := none } }
  | heard {i : Instance} {rest : List Instance} (free : k.waiting = none)
      (todo : k.todo = i :: rest) (live : e.directory.registry.records.holds i.id = true) :
      Tended e k { e.withDirectory (e.directory.begin (.heartbeat i.id)) with
        keeper := some { k with todo := rest } }
  | missed {i : Instance} {rest : List Instance} {again : CallId} (free : k.waiting = none)
      (todo : k.todo = i :: rest) (gone : e.directory.registry.records.holds i.id = false) :
      Tended e k { e.withDirectory ((e.directory.begin (.heartbeat i.id)).begin (.register i)) with
        keeper := some { k with todo := rest, waiting := some again } }
  | ticked (free : k.waiting = none) (todo : k.todo = []) (due : k.due ≤ e.now) :
      Tended e k { e with keeper := some { k with ticks := k.ticks + 1, todo := k.instances } }

theorem keepAliveTends (next : e.keepAlive = some f) : ∃ k, e.keeper = some k ∧ Tended e k f := by
  obtain ⟨k, keeper, next⟩ := Option.bind_eq_some_iff.mp next
  refine ⟨k, keeper, ?_⟩
  split at next
  · rename_i call waits
    obtain ⟨result, ended, next⟩ := Option.bind_eq_some_iff.mp next
    cases next
    exact .awaited waits (ended ▸ nofun)
  · rename_i i rest free todo
    obtain ⟨g, begun, next⟩ := Option.bind_eq_some_iff.mp next
    obtain ⟨d, step, rfl⟩ := Option.map_eq_some_iff.mp begun
    cases step
    have ended : (e.withDirectory (e.directory.begin (.heartbeat i.id))).directory.ending?
        e.directory.nextCall = _ := heartbeatEnds e.directory i.id
    rw [ended] at next
    cases live : e.directory.registry.records.holds i.id with
    | true =>
      rw [live] at next
      cases next
      exact .heard free todo live
    | false =>
      rw [live] at next
      obtain ⟨g, begun, next⟩ := Option.bind_eq_some_iff.mp next
      cases begun
      cases next
      exact .missed free todo live
  · rename_i free todo
    split at next <;> cases next
    rename_i due
    exact .ticked free todo due

section Runs
variable {P : Engine → Prop} (acts : ∀ {e f : Engine}, P e → e.act = some f → P f)
include acts

theorem settleKeeps (h : P e) : P e.settle := by
  have within (fuel : Nat) (e : Engine) (h : P e) : P (settleWithin fuel e) := by
    induction fuel generalizing e with
    | zero => exact h
    | succ fuel ih =>
      unfold settleWithin
      split
      · rename_i f next
        exact ih f (acts h next)
      · exact h
  exact within _ e h

theorem waitKeeps {finished : Engine → Bool} (passes : ∀ {e f : Engine} {ms : Nat}, P e →
      e.act = none → finished e = false → e.try_ (.pass ms) = some f → P f) (fuel : Nat) (h : P e) :
    P (waitUntil finished fuel e) := by
  induction fuel generalizing e with
  | zero => exact h
  | succ fuel ih =>
    unfold waitUntil
    split
    · exact h
    rename_i waits
    split
    · rename_i f _ next
      exact ih (settleKeeps acts (acts h next))
    · rename_i wake idle _
      refine ih (settleKeeps acts ?_)
      rw [passTo, idle]
      exact passes h idle (by simpa using waits) rfl
    · exact h

end Runs

def asked (e : Engine) (request : Request) : Engine :=
  { e.withDirectory (e.directory.begin request) with front := some (.call e.directory.nextCall) }

theorem callIs {P : Engine → Prop} {d : Daemon} (request : Request)
    (acts : ∀ {e f : Engine}, P e → e.act = some f → P f)
    (passes : ∀ {e f : Engine} {ms : Nat}, P e → e.act = none → e.frontOver = false →
      e.try_ (.pass ms) = some f → P f)
    (front : ∀ {e : Engine}, P e → e.front = some (.call d.engine.directory.nextCall))
    (begun : P (d.engine.asked request)) :
    ∃ m : Engine, P m ∧ d.call request =
      ({ d with engine := ({ m with front := none } : Engine).settle },
        m.directory.ending? d.engine.directory.nextCall) := by
  have kept := waitKeeps acts passes d.engine.patience (settleKeeps acts begun)
  refine ⟨_, kept, ?_⟩
  generalize is : waitUntil frontOver d.engine.patience (d.engine.asked request).settle = m at kept
  have performed : d.engine.perform (.call request) = ({ m with front := none },
      m.replyOf (.call request) (.call d.engine.directory.nextCall)) := by
    have waits := front kept
    subst is
    refine Prod.ext rfl ?_
    simp only [perform]
    split
    · rename_i job own
      cases waits.symm.trans own
      rfl
    · rename_i none_
      cases waits.symm.trans none_
  simp only [Daemon.call, run, execute, performed, replyOf]
  cases m.directory.ending? d.engine.directory.nextCall <;> rfl

structure Alone (before : Directory) (e : Engine) : Prop where
  keeper : e.keeper = none
  run : ∃ actions : List Action, (∀ a ∈ actions, a.own = true) ∧
    before.steps actions = some e.directory

namespace Alone
variable {before : Directory}

theorem next (h : Alone before e) {a : Action} (own : a.own = true)
    (step : e.directory.step a = some f.directory) (keeper : f.keeper = e.keeper) :
    Alone before f := by
  obtain ⟨actions, all, run⟩ := h.run
  refine ⟨keeper.trans h.keeper, actions ++ [a], ?_, ?_⟩
  · exact fun b mem => (List.mem_append.mp mem).elim (all b)
      fun new => List.mem_singleton.mp new ▸ own
  · rw [Directory.stepsAppend, run, Option.bind_some, Directory.steps, step]
    rfl

theorem act (h : Alone before e) (next : e.act = some f) : Alone before f := by
  have acted := actUnkept h.keeper next
  rcases acted.directory with same | ⟨a, own, _, step⟩
  · exact ⟨acted.keeper.trans h.keeper, same ▸ h.run⟩
  · exact h.next own step acted.keeper

theorem pass (h : Alone before e) {ms : Nat} (next : e.try_ (.pass ms) = some f) :
    Alone before f := by
  obtain ⟨d, step, rfl⟩ := Option.map_eq_some_iff.mp next
  exact h.next rfl step rfl

end Alone

end Engine

def Directory.Reaches (requests : Request → Prop) (d e : Directory) : Prop :=
  ∃ actions : List Action,
    (∀ a ∈ actions, a.own = true ∨ ∃ request, requests request ∧ a = .begin request) ∧
      d.steps actions = some e

namespace Directory.Reaches
variable {requests : Request → Prop} {d e f : Directory}

theorem here : Reaches requests d d := ⟨[], nofun, rfl⟩

theorem trans (first : Reaches requests d e) (second : Reaches requests e f) :
    Reaches requests d f := by
  obtain ⟨before, all, run⟩ := first
  obtain ⟨after, more, later⟩ := second
  refine ⟨before ++ after, fun a mem => (List.mem_append.mp mem).elim (all a) (more a), ?_⟩
  rw [stepsAppend, run, Option.bind_some, later]

theorem own {actions : List Action} (all : ∀ a ∈ actions, a.own = true)
    (run : d.steps actions = some e) : Reaches requests d e :=
  ⟨actions, fun a mem => .inl (all a mem), run⟩

theorem asks {request : Request} (asked : requests request) :
    Reaches requests d (d.begin request) :=
  ⟨[.begin request], fun _ mem => .inr ⟨request, asked, List.mem_singleton.mp mem⟩, rfl⟩

theorem keeps {P : Directory → Prop} (h : Reaches requests d e) (start : P d)
    (step : ∀ {d e : Directory} {a : Action},
      (a.own = true ∨ ∃ request, requests request ∧ a = .begin request) → d.step a = some e →
        P d → P e) : P e := by
  obtain ⟨actions, all, run⟩ := h
  exact trailHolds start run fun s mem next => step (all _ (trailActions mem)) next

end Directory.Reaches

namespace Daemon
variable {d d' : Daemon} {request : Request} {result : Except Failure Answer}

structure Calls (request : Request) (result : Except Failure Answer) (d e : Directory) : Prop where
  course : ∃ (first rest : List Action) (m : Directory), (∀ a ∈ first ++ rest, a.own = true) ∧
    (d.begin request).steps first = some m ∧ m.ending? d.nextCall = some result ∧
      m.steps rest = some e

theorem Calls.leads {d e : Directory} (h : Calls request result d e) (requests : Request → Prop)
    (asked : requests request) : Directory.Reaches requests d e := by
  obtain ⟨first, rest, m, all, run, _, later⟩ := h.course
  exact (Directory.Reaches.asks asked).trans ((Directory.Reaches.own
    (fun a mem => all a (List.mem_append_left _ mem)) run).trans
      (.own (fun a mem => all a (List.mem_append_right _ mem)) later))

theorem callAlone (unkept : d.engine.keeper = none) (came : d.call request = (d', some result)) :
    d'.settings = d.settings ∧ d'.engine.keeper = none ∧
      Calls request result d.engine.directory d'.engine.directory := by
  obtain ⟨m, ⟨alone, _⟩, is⟩ := Engine.callIs (d := d) request
    (P := fun e => Engine.Alone (d.engine.directory.begin request) e ∧
      e.front = some (.call d.engine.directory.nextCall))
    (fun {e f} h next => ⟨h.1.act next, (Engine.actUnkept h.1.keeper next).front _ h.2⟩)
    (fun {e f ms} h _ _ next => ⟨h.1.pass next, by
      obtain ⟨_, _, rfl⟩ := Option.map_eq_some_iff.mp next
      exact h.2⟩)
    (fun h => h.2) ⟨⟨unkept, [], nofun, rfl⟩, rfl⟩
  obtain ⟨rfl, ended⟩ := Prod.mk.inj (came.symm.trans is)
  have later : Engine.Alone m.directory ({ m with front := none } : Engine).settle :=
    Engine.settleKeeps (fun h next => h.act next) ⟨alone.keeper, [], nofun, rfl⟩
  obtain ⟨first, all, run⟩ := alone.run
  obtain ⟨rest, more, after⟩ := later.run
  exact ⟨rfl, later.keeper, first, rest, m.directory,
    fun a mem => (List.mem_append.mp mem).elim (all a) (more a), run, ended.symm, after⟩

end Daemon
end ServiceDirectory
