import ServiceDirectory.Engine.Command
import ServiceDirectory.Proofs.Keeping

/-! Whatever an engine is told to do, it does while its timers go off when they are due: it lets
time pass only when there is nothing left to do, and only up to the next thing that is due. -/
namespace ServiceDirectory

def Work.Spares (own : String → Prop) : Work → Prop
  | .call (.deregister id) => ¬own id
  | _ => True

def Command.Spares (own : String → Prop) : Command → Prop
  | .work w => w.Spares own
  | .spawn _ w => w.Spares own
  | _ => True

def Action.ordinary : Action → Bool
  | .begin _ => false
  | .pass _ => false
  | .setClock _ => false
  | _ => true

namespace Engine
variable {e f g : Engine} {own : String → Prop} {k : Keeper} {wake : Nat}

abbrev Lives (own : String → Prop) : Engine → Engine → Prop := Relation.ReflTransGen (Next own)

theorem actNext (next : e.act = some f) : Next own e f := by
  rcases actCases next with acted | kept
  · rcases acted.directory with same | ⟨a, mine, stays, step⟩
    · exact .aside same acted.keeper
    · refine .acted ?_ (Directory.ownKeeps mine).2.1 ?_ step acted.keeper
      · rintro id _ rfl
        cases mine
      · rintro ms rfl
        cases stays
  · exact .tended kept

theorem settleLives (e : Engine) : Lives own e e.settle :=
  settleKeeps (P := Lives own e) (fun lives next => lives.tail (actNext next)) .refl

theorem wakeEarly (wakes : e.nextWake = some wake) (keeper : e.keeper = some k)
    (ahead : e.now < k.due) : wake ≤ k.due := by
  refine (List.min?_eq_some_iff.mp wakes).2 k.due (List.mem_filter.mpr ⟨?_, by simpa using ahead⟩)
  simp [Engine.wakes, keeper]

theorem wakesAgain (keeper : e.keeper = some k) (ahead : e.now < k.due) : e.nextWake ≠ none := by
  intro none
  have empty := List.min?_eq_none_iff.mp none
  have mem : k.due ∈ e.wakes.filter (e.now < ·) :=
    List.mem_filter.mpr ⟨by simp [wakes, keeper], by simpa using ahead⟩
  rw [empty] at mem
  cases mem

theorem passLives {target : Nat}
    (early : ∀ k, e.keeper = some k → e.now < k.due → target ≤ k.due) :
    Lives own e (e.passTo target) := by
  unfold passTo
  split
  · rename_i f next
    exact .single (actNext next)
  · rename_i idle
    have rests := (idleActs idle).2.2.2
    have step : e.directory.step (.pass (target - e.now)) = some _ := rfl
    refine .single (.passed rests (fun k keeper free => ?_) step rfl)
    obtain ⟨_, ahead⟩ := keepAliveRests keeper free rests
    have soon := early k keeper ahead
    omega

theorem wakeLives (wakes : e.nextWake = some wake) : Lives own e (e.passTo wake).settle :=
  (passLives fun _ keeper ahead => wakeEarly wakes keeper ahead).trans (settleLives _)

theorem advanceLives (e : Engine) (ms : Nat) : Lives own e (e.advance ms) := by
  have reaches (target fuel : Nat) (e : Engine) : Lives own e (advanceTo target fuel e) := by
    induction fuel generalizing e with
    | zero => exact .refl
    | succ fuel ih =>
      unfold advanceTo
      split
      · rename_i wake wakes
        split
        · exact (wakeLives wakes).trans (ih _)
        · rename_i beyond
          refine (passLives fun k keeper ahead => ?_).trans (settleLives _)
          have soon := wakeEarly wakes keeper ahead
          omega
      · rename_i wakes
        refine (passLives fun k keeper ahead => ?_).trans (settleLives _)
        exact absurd wakes (wakesAgain keeper ahead)
  exact reaches _ _ e

theorem waitLives (finished : Engine → Bool) (fuel : Nat) (e : Engine) :
    Lives own e (waitUntil finished fuel e) := by
  induction fuel generalizing e with
  | zero => exact .refl
  | succ fuel ih =>
    unfold waitUntil
    split
    · exact .refl
    · split
      · rename_i f next
        exact (Relation.ReflTransGen.single (actNext next)).trans ((settleLives f).trans (ih _))
      · rename_i wakes
        exact (wakeLives wakes).trans (ih _)
      · exact .refl

theorem asideLives (directory : f.directory = e.directory) (keeper : f.keeper = e.keeper) :
    Lives own e f := .single (.aside directory keeper)

structure Allowed (own : String → Prop) (a : Action) : Prop where
  spares : ∀ id, own id → a ≠ .begin (.deregister id)
  sets : ∀ nanos, a ≠ .setClock nanos
  stays : ∀ ms, a ≠ .pass ms

theorem Allowed.ordinary {a : Action} (ordinary : a.ordinary = true) : Allowed own a where
  spares id _ same := by subst same; cases ordinary
  sets nanos same := by subst same; cases ordinary
  stays ms same := by subst same; cases ordinary

theorem triedLives {a : Action} (allowed : Allowed own a) : Lives own e ((e.try_ a).getD e) := by
  cases tried : e.try_ a with
  | none => exact .refl
  | some f =>
    obtain ⟨d, step, rfl⟩ := Option.map_eq_some_iff.mp tried
    exact .single (.acted allowed.spares allowed.sets allowed.stays step rfl)

theorem stepsLive {actions : List Action} (allowed : ∀ a ∈ actions, Allowed own a)
    (run : e.directory.steps actions = some f.directory) (keeper : f.keeper = e.keeper) :
    Lives own e f := by
  induction actions generalizing e with
  | nil => exact asideLives (Option.some.inj run).symm keeper
  | cons a rest ih =>
    obtain ⟨d, step, later⟩ := Option.bind_eq_some_iff.mp run
    obtain ⟨spares, sets, stays⟩ := allowed a List.mem_cons_self
    have first : Next own e (e.withDirectory d) := .acted spares sets stays step rfl
    exact .head first (ih (fun b mem => allowed b (List.mem_cons_of_mem _ mem)) later keeper)

theorem closedLives (watchers : List Nat) (directory : f.directory =
    { e.directory with bus := watchers.foldl EventBus.close e.directory.bus })
    (keeper : f.keeper = e.keeper) : Lives own e f := by
  have run (watchers : List Nat) (d : Directory) : d.steps (watchers.map .closeWatcher) =
      some { d with bus := watchers.foldl EventBus.close d.bus } := by
    induction watchers generalizing d with
    | nil => rfl
    | cons w rest ih => exact ih { d with bus := d.bus.close w }
  refine stepsLive (fun a mem => ?_)
    ((run watchers e.directory).trans (congrArg some directory.symm)) keeper
  obtain ⟨w, _, rfl⟩ := List.mem_map.mp mem
  exact .ordinary rfl

theorem brokerLives {a : BrokerAction} (bare : ∀ b c : Broker, b.step a = some c →
    c.directory = b.directory) : Lives own e ((e.tryBroker a).getD e) := by
  cases tried : e.tryBroker a with
  | none => exact .refl
  | some f =>
    obtain ⟨b, step, rfl⟩ := Option.map_eq_some_iff.mp tried
    exact asideLives (bare _ _ step) rfl

theorem beginLives {work : Work} (spares : work.Spares own) : Lives own e (e.beginWork work).1 := by
  cases work with
  | resolve => exact .refl
  | call request =>
    refine triedLives (a := .begin request) ⟨fun id mine same => ?_, by simp, by simp⟩
    cases same
    exact spares mine

theorem performLives {work : Work} (spares : work.Spares own) : Lives own e (e.perform work).1 := by
  have begun := beginLives (e := e) spares
  unfold perform
  generalize e.beginWork work = began at begun
  obtain ⟨m, job⟩ := began
  have asked : Lives own m { m with front := some job } := asideLives rfl rfl
  refine (begun.trans asked).trans ((settleLives _).trans ?_)
  exact (waitLives frontOver m.patience _).trans (asideLives rfl rfl)

theorem watchLives (e : Engine) (as : String) (service : Option String) :
    Lives own e (e.watch as service).1 := by
  have watched : Lives own e ((e.try_ (.watch service)).getD e) :=
    triedLives (.ordinary rfl)
  have closed (m : Engine) (older : Nat) : Lives own m ((m.try_ (.closeWatcher older)).getD m) :=
    triedLives (.ordinary rfl)
  unfold watch
  refine watched.trans ?_
  dsimp only
  split
  · exact (closed _ _).trans (asideLives rfl rfl)
  · exact asideLives rfl rfl

theorem takeLives (watcher n : Nat) (e : Engine) : Lives own e (e.takeEvents watcher n).1 := by
  induction n generalizing e with
  | zero => exact .refl
  | succ n ih =>
    unfold takeEvents
    split
    · exact .refl
    · exact (triedLives (.ordinary rfl)).trans (ih _)

theorem abandonLives (e : Engine) (job : Job) : Lives own e (e.abandonJob job) := by
  cases job with
  | call id =>
    have dropped : Lives own e { e with pending := e.pending.filter (·.call != id) } :=
      asideLives rfl rfl
    exact dropped.trans (triedLives (.ordinary rfl))
  | resolves service options left current picks =>
    cases current with
    | none => exact .refl
    | some id => exact brokerLives (a := .abandonResolve id) fun b c step => by cases step; rfl

theorem runLives {c : Command} (spares : c.Spares own) : Lives own e (e.run c).1 := by
  refine Relation.ReflTransGen.trans ?_ (settleLives (e.execute c).1)
  cases c with
  | work w => exact performLives spares
  | advance ms => exact advanceLives e ms
  | list | get | revision | summary | stored | pending => exact .refl
  | watch as service => exact watchLives e as service
  | unwatch as =>
    simp only [execute, unwatch]
    split
    · exact (triedLives (.ordinary rfl)).trans (asideLives rfl rfl)
    · exact .refl
  | events as most =>
    simp only [execute, events]
    split
    · exact .refl
    · exact takeLives _ _ e
  | report report => exact triedLives (a := .applyDirect _) (.ordinary rfl)
  | plan on calls => exact asideLives (by cases on <;> rfl) (by cases on <;> rfl)
  | put i => exact triedLives (a := .storeDirect i) (.ordinary rfl)
  | clearCache => exact brokerLives (a := .clearCache) fun b c step => by cases step; rfl
  | unfollow => exact closedLives e.broker.followers rfl rfl
  | spawn as w =>
    have begun := beginLives (e := e) spares
    simp only [execute, spawn]
    generalize e.beginWork w = began at begun
    obtain ⟨m, job⟩ := began
    exact begun.trans (asideLives rfl rfl)
  | join as =>
    simp only [execute, join]
    split
    · exact waitLives _ _ e
    · exact (waitLives _ _ e).trans (asideLives rfl rfl)
  | abort as =>
    simp only [execute, abort]
    split
    · exact .refl
    · exact (abandonLives e _).trans (asideLives rfl rfl)

theorem commandsLive {commands : List Command} (spares : ∀ c ∈ commands, c.Spares own)
    (e : Engine) : Lives own e (commands.foldl (fun e c => (e.run c).1) e) := by
  induction commands generalizing e with
  | nil => exact .refl
  | cons c rest ih =>
    exact (runLives (spares c List.mem_cons_self)).trans
      (ih (fun c mem => spares c (List.mem_cons_of_mem _ mem)) _)

end Engine
end ServiceDirectory
