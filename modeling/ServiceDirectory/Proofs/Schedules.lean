import ServiceDirectory.Proofs.Attempts
import ServiceDirectory.Proofs.Publication

/-! Resolves on schedule, whatever else happens in the meantime. When and how a resolve is answered
follows from the attempts it made, and if its caller waits for it, it is answered in the end. -/
namespace ServiceDirectory
namespace Broker
open Resolve (Course Draw Missed Plan Pursuit ResolveOptions Shared Strategy Try)
variable {b c : Broker} {a : BrokerAction} {k : Nat} {plan : Plan}

def planFor (b : Broker) (service : String) (options : ResolveOptions) : Plan where
  service
  start := b.directory.now
  delay := b.settings.retryDelay
  retries := options.retries.getD b.settings.retries
  limit := options.timeout.getD b.settings.timeout

def awaits (b : Broker) (k : Nat) : BrokerAction → Bool
  | .directory (.pass ms) => (b.pursuit? k).all fun p =>
    match p.wakes with
    | none => ms == 0
    | some due => decide (b.directory.now + ms ≤ due)
  | .abandonResolve call => call != k
  | _ => true

def awaited (b : Broker) (k : Nat) : List BrokerAction → Bool
  | [] => true
  | a :: rest => b.awaits k a && (b.step a).all (·.awaited k rest)

def tried? (b : Broker) (k : Nat) : BrokerAction → Option Try
  | .proceedResolve call draw =>
    if call = k then
      ((b.pursuit? k).bind (·.tried? b.directory.registry b.directory.now draw b.shared)).map
        (⟨b.directory.now, ·⟩)
    else none
  | _ => none

def tries (b : Broker) (k : Nat) : List BrokerAction → List Try
  | [] => []
  | a :: rest => (b.tried? k a).toList ++ (b.step a).elim [] (·.tries k rest)

def answered (b : Broker) (k : Nat) : List BrokerAction → Option Try
  | [] => none
  | a :: rest => (b.step a).bind fun m =>
    ((m.ending? k).map (⟨b.directory.now, ·⟩)).or (m.answered k rest)

structure Account (plan : Plan) (b : Broker) (k : Nat) (tries : List Try) (answer : Option Try) :
    Prop where
  known : k < b.nextPursuit
  kept : plan.Kept tries
  stands : plan.Stands b.directory.now tries (b.pursuit? k) answer
  ending : b.ending? k = answer.map (·.result)

theorem stepNow (stays : ∀ ms, a ≠ .directory (.pass ms)) (next : b.step a = some c) :
    c.directory.now = b.directory.now := by
  cases a with
  | directory action =>
    obtain ⟨d, one, same⟩ := Option.bind_eq_some_iff.mp next
    cases same
    by_cases sets : ∃ nanos, action = .setClock nanos
    · obtain ⟨nanos, rfl⟩ := sets
      cases one
      rfl
    · exact (Directory.stepTime (fun ms same => stays ms (congrArg _ same))
        (fun nanos same => sets ⟨nanos, same⟩) one).now
  | beginResolve service options jitter =>
    obtain ⟨pursuits, endings, rfl⟩ := beginAside next
    rfl
  | proceedResolve id draw =>
    obtain ⟨p, s, found, ⟨p', _, rfl⟩ | ⟨result, _, rfl⟩⟩ := proceedCases next <;> rfl
  | followNext watcher =>
    obtain ⟨bus, service, rfl⟩ := followCases next
    rfl
  | _ => cases next; rfl

theorem poisedStep {p : Pursuit} {n : Nat} (found : b.pursuit? k = some p)
    (deadline : p.deadline = plan.start + plan.limit)
    (poised : plan.Poised b.directory.now n p.moment) (awaits : b.awaits k a = true)
    (next : b.step a = some c) : plan.Poised c.directory.now n p.moment := by
  by_cases passes : ∃ ms, a = .directory (.pass ms)
  · obtain ⟨ms, rfl⟩ := passes
    cases next
    simp only [Broker.awaits, found, Option.all_some] at awaits
    cases moment : p.moment with
    | trying stage =>
      rw [moment] at poised
      simp only [Pursuit.wakes, moment, beq_iff_eq] at awaits
      subst awaits
      exact poised
    | resting until_ =>
      rw [moment] at poised
      simp only [Pursuit.wakes, moment, deadline, decide_eq_true_eq] at awaits
      cases poised with
      | resting early before =>
        exact .resting (Nat.le_trans awaits (Nat.min_le_left _ _))
          (Nat.le_trans awaits (Nat.min_le_right _ _))
  · rw [stepNow (fun ms same => passes ⟨ms, same⟩) next]
    exact poised

theorem awaitedCons {rest : List BrokerAction} (next : b.step a = some c) :
    b.awaited k (a :: rest) = true ↔ b.awaits k a = true ∧ c.awaited k rest = true := by
  simp [awaited, next]

theorem elsewhereUntried (b : Broker) (other : a.isOf k = false) : b.tried? k a = none := by
  cases a with
  | proceedResolve call draw =>
    have apart : ¬call = k := by simpa [BrokerAction.isOf] using other
    exact if_neg apart
  | _ => rfl

variable {tries : List Try} {answer : Option Try}

theorem Account.untried (h : Account plan b k tries answer) (awaits : b.awaits k a = true)
    (other : a.isOf k = false) (next : b.step a = some c) :
    Account plan c k tries (answer.or ((c.ending? k).map (⟨b.directory.now, ·⟩))) := by
  obtain ⟨later, pursuit, ending⟩ := stepElsewhere h.known other next
  have stands := h.stands
  have ended := h.ending
  rw [ending, ended]
  cases found : b.pursuit? k with
  | none =>
    rw [found] at stands
    cases stands with
    | ended ends =>
      refine ⟨later, h.kept, ?_, ending.trans ended⟩
      rw [pursuit, found]
      exact .ended ends
  | some p =>
    rw [found] at stands
    cases stands with
    | pending missed under =>
      have poised := poisedStep found under.deadline under.poised awaits next
      refine ⟨later, h.kept, ?_, ending.trans ended⟩
      rw [pursuit, found]
      exact .pending missed { under with poised }

theorem Account.ahead {p p' : Pursuit} {all : List Try} (h : Account plan b k tries none)
    (found : b.pursuit? k = some p) (s : Shared) (kept : plan.Kept all)
    (missed : ∀ t ∈ all, Missed t.result)
    (under : plan.Underway b.directory.now all.length p') :
    Account plan ((b.withShared s).turned k (.ahead p')) k all none := by
  have pursuit : ((b.withShared s).turned k (.ahead p')).pursuit? k = some p' :=
    (turnedAhead (b := b.withShared s) found).1
  refine ⟨h.known, kept, ?_, h.ending⟩
  rw [pursuit]
  exact .pending missed under

theorem Account.answered {result : Except Failure Instance} {all : List Try}
    (h : Account plan b k tries none) (s : Shared) (kept : plan.Kept all)
    (ends : plan.Ends all ⟨b.directory.now, result⟩) :
    Account plan ((b.withShared s).turned k (.ended result)) k all
      (some ⟨b.directory.now, result⟩) := by
  have moved := turnedEnded (b.withShared s) k result
  refine ⟨h.known, kept, ?_, moved.2⟩
  rw [moved.1]
  exact .ended ends

theorem Account.tried (h : Account plan b k tries answer) {draw : Draw}
    (next : b.step (.proceedResolve k draw) = some c) :
    Account plan c k (tries ++ (b.tried? k (.proceedResolve k draw)).toList)
      (answer.or ((c.ending? k).map (⟨b.directory.now, ·⟩))) := by
  obtain ⟨p, found, _⟩ := Option.bind_eq_some_iff.mp next
  rw [proceedIs found] at next
  obtain ⟨⟨course, s⟩, step, rfl⟩ := Option.map_eq_some_iff.mp next
  have stands := h.stands
  rw [found] at stands
  simp only [tried?, if_pos, found, Option.bind_some]
  cases stands with
  | pending missed under =>
    have turns := Resolve.pursuitTurns under step
    have silent (p' : Pursuit) : ((b.withShared s).turned k (.ahead p')).ending? k = none :=
      h.ending
    have told (result : Except Failure Instance) := (turnedEnded (b.withShared s) k result).2
    have more := h.kept.next missed
    generalize p.tried? b.directory.registry b.directory.now draw b.shared = result at turns ⊢
    cases turns with
    | @on p' under =>
      rw [silent p', Option.map_none, Option.toList_none, List.append_nil]
      exact h.ahead found s h.kept missed under
    | @again e p' fails within time left under =>
      rw [silent p', time]
      refine h.ahead found s (more within (Nat.le_of_lt left) _) (fun t mem => ?_)
        (by simpa using under)
      rcases List.mem_append.mp mem with old | new
      · exact missed t old
      · cases List.mem_singleton.mp new
        exact ⟨e, rfl, fails⟩
    | @found i within time left =>
      rw [told (.ok i), Option.map_some, Option.toList_some, Option.none_or]
      exact h.answered s (time ▸ more within left _) (.found List.getLast?_concat)
    | @exhausted e fails within time last =>
      rw [told (.error e), Option.map_some, Option.toList_some, Option.none_or]
      refine h.answered s (time ▸ more within (Nat.le_of_eq last) _) ?_
      rw [time, last]
      exact .exhausted (last ▸ within) (by simp [last]) List.getLast?_concat fails
    | late time beyond left =>
      rw [told (.error plan.timedOut), Option.map_none, Option.toList_none, List.append_nil]
      have cut := Nat.lt_of_lt_of_le beyond (Nat.mul_le_mul_right plan.delay left)
      refine h.answered s h.kept ?_
      rw [time]
      exact .late cut missed beyond

theorem accountStep (h : Account plan b k tries answer) (awaits : b.awaits k a = true)
    (next : b.step a = some c) :
    Account plan c k (tries ++ (b.tried? k a).toList)
      (answer.or ((c.ending? k).map (⟨b.directory.now, ·⟩))) := by
  by_cases other : a.isOf k = false
  · rw [elsewhereUntried b other, Option.toList_none, List.append_nil]
    exact h.untried awaits other next
  cases a with
  | proceedResolve call draw =>
    have mine : call = k := by simpa [BrokerAction.isOf] using other
    subst mine
    exact h.tried next
  | abandonResolve call =>
    have mine : call = k := by simpa [BrokerAction.isOf] using other
    simp [Broker.awaits, mine] at awaits
  | _ => exact absurd rfl other

theorem accountSteps (h : Account plan b k tries answer) {actions : List BrokerAction}
    (awaited : b.awaited k actions = true) (run : b.steps actions = some c) :
    Account plan c k (tries ++ b.tries k actions) (answer.or (b.answered k actions)) := by
  induction actions generalizing b tries answer with
  | nil =>
    cases run
    simpa [Broker.tries, answered] using h
  | cons a rest ih =>
    obtain ⟨m, one, others⟩ := Option.bind_eq_some_iff.mp run
    obtain ⟨here, later⟩ := (awaitedCons one).mp awaited
    have all := ih (accountStep h here one) later others
    rw [List.append_assoc, Option.or_assoc] at all
    rw [Broker.tries, answered, one]
    exact all

theorem awaitedGone (known : k < b.nextPursuit) (gone : b.pursuit? k = none)
    {actions : List BrokerAction} (awaited : b.awaited k actions = true)
    (run : b.steps actions = some c) :
    actions.countP (·.isOf k) = 0 := by
  induction actions generalizing b with
  | nil => rfl
  | cons a rest ih =>
    obtain ⟨m, one, others⟩ := Option.bind_eq_some_iff.mp run
    obtain ⟨here, later⟩ := (awaitedCons one).mp awaited
    have other : a.isOf k = false := by
      cases a with
      | proceedResolve call draw =>
        refine beq_eq_false_iff_ne.mpr fun mine => ?_
        subst mine
        obtain ⟨p, found, _⟩ := Option.bind_eq_some_iff.mp one
        cases gone.symm.trans found
      | abandonResolve call => simpa [awaits, BrokerAction.isOf] using here
      | _ => rfl
    obtain ⟨known, pursuit, _⟩ := stepElsewhere known other one
    rw [List.countP_cons_of_neg (by simp [other])]
    exact ih known (pursuit.trans gone) later others

theorem awaitedFew {p : Pursuit} (known : k < b.nextPursuit) (found : b.pursuit? k = some p)
    {actions : List BrokerAction} (awaited : b.awaited k actions = true)
    (run : b.steps actions = some c) :
    actions.countP (·.isOf k) ≤ p.toGo := by
  induction actions generalizing b p with
  | nil => exact Nat.zero_le _
  | cons a rest ih =>
    obtain ⟨m, one, others⟩ := Option.bind_eq_some_iff.mp run
    obtain ⟨here, later⟩ := (awaitedCons one).mp awaited
    by_cases other : a.isOf k = false
    · obtain ⟨known, pursuit, _⟩ := stepElsewhere known other one
      rw [List.countP_cons_of_neg (by simp [other])]
      exact ih known (pursuit.trans found) later others
    rw [List.countP_cons_of_pos (by simpa using other)]
    cases a with
    | proceedResolve call draw =>
      have mine : call = k := by simpa [BrokerAction.isOf] using other
      subst mine
      rw [proceedIs found] at one
      obtain ⟨⟨course, s⟩, step, rfl⟩ := Option.map_eq_some_iff.mp one
      cases course with
      | ahead after =>
        have moved : ((b.withShared s).turned call (.ahead after)).pursuit? call = some after :=
          (turnedAhead (b := b.withShared s) found).1
        exact Nat.le_trans (Nat.succ_le_succ (ih (by exact known) moved later others))
          (Resolve.stepNearer step)
      | ended result =>
        have gone := (turnedEnded (b.withShared s) call result).1
        rw [awaitedGone (by exact known) gone later others]
        exact p.toGoSome
    | abandonResolve call =>
      have mine : call = k := by simpa [BrokerAction.isOf] using other
      simp [awaits, mine] at here
    | _ => exact absurd rfl other

theorem awaitedEnds (draw : Draw) {p : Pursuit} (found : b.pursuit? k = some p) :
    ∃ actions c result,
      (∀ a ∈ actions, a = .proceedResolve k draw ∨ ∃ ms, a = .directory (.pass ms)) ∧
        b.awaited k actions = true ∧ b.steps actions = some c ∧ c.ending? k = some result := by
  -- by what is left to do; a wait goes by at once, and then a step of its own is possible
  induction size : p.toGo using Nat.strongRecOn generalizing b p with
  | ind size ih =>
    subst size
    have moves {b : Broker} (found : b.pursuit? k = some p)
        (step : (p.step b.directory.registry b.directory.now draw b.shared).isSome = true) :
        ∃ actions c result,
          (∀ a ∈ actions, a = .proceedResolve k draw ∨ ∃ ms, a = .directory (.pass ms)) ∧
            b.awaited k actions = true ∧ b.steps actions = some c ∧ c.ending? k = some result := by
      obtain ⟨⟨course, s⟩, step⟩ := Option.isSome_iff_exists.mp step
      have one : b.step (.proceedResolve k draw) = some ((b.withShared s).turned k course) := by
        rw [proceedIs found, step]
        rfl
      cases course with
      | ahead after =>
        have moved : ((b.withShared s).turned k (.ahead after)).pursuit? k = some after :=
          (turnedAhead (b := b.withShared s) found).1
        obtain ⟨actions, c, result, own, awaited, run, ends⟩ :=
          ih _ (Resolve.stepNearer step) moved rfl
        refine ⟨.proceedResolve k draw :: actions, c, result,
          List.forall_mem_cons.mpr ⟨.inl rfl, own⟩, (awaitedCons one).mpr ⟨rfl, awaited⟩, ?_, ends⟩
        rw [steps, one]
        exact run
      | ended result =>
        refine ⟨[.proceedResolve k draw], _, result, by simp, (awaitedCons one).mpr ⟨rfl, rfl⟩, ?_,
          (turnedEnded (b.withShared s) k result).2⟩
        rw [steps, one]
        rfl
    cases step : p.step b.directory.registry b.directory.now draw b.shared with
    | some x => exact moves found (by rw [step]; rfl)
    | none =>
      obtain ⟨until_, resting, early, wakes⟩ := Resolve.stepWaits step
      have there : b.directory.now + (min until_ p.deadline - b.directory.now) =
          min until_ p.deadline := by omega
      obtain ⟨actions, c, result, own, awaited, run, ends⟩ := moves (b := { b with directory :=
        { b.directory with now := b.directory.now + (min until_ p.deadline - b.directory.now) } })
        found (by rw [there]; exact wakes)
      refine ⟨.directory (.pass (min until_ p.deadline - b.directory.now)) :: actions, c, result,
        List.forall_mem_cons.mpr ⟨.inr ⟨_, rfl⟩, own⟩, (awaitedCons rfl).mpr ⟨?_, awaited⟩, run,
        ends⟩
      simp only [awaits, found, Option.all_some, Pursuit.wakes, resting, there, Nat.le_refl,
        decide_true]

section Begun
variable {service : String} {options : ResolveOptions} {jitter : Draw}

theorem beginRefuses
    (unknown : b.balancer.strategies.get?
      (options.strategy.getD b.settings.defaultStrategy) = none) :
    b.beginResolve service options jitter = { b with
      nextPursuit := b.nextPursuit + 1
      endings := ⟨b.nextPursuit, .error ⟨.invalid, "unknown load balancing strategy: " ++
        options.strategy.getD b.settings.defaultStrategy⟩⟩ :: b.endings } := by
  simp [beginResolve, Pursuit.begin, Resolve.Balancer.strategy, unknown, bind, Except.bind]

theorem beginAccount (named : b.Named) (fixed : b.settings.backoff = .fixed) {strategy : Strategy}
    (known : b.balancer.strategies.get?
      (options.strategy.getD b.settings.defaultStrategy) = some strategy)
    (own : strategy.builtIn = true) :
    Account (b.planFor service options) (b.beginResolve service options jitter) b.nextPursuit []
      none := by
  obtain ⟨later, under, unended⟩ := begun named (Pursuit.beginKnown service jitter _ known)
  have now : (b.beginResolve service options jitter).directory.now = b.directory.now := by
    obtain ⟨pursuits, endings, same⟩ := beginAside (b := b) rfl
    rw [same]
  refine ⟨later, .none _, ?_, unended⟩
  rw [under, now]
  refine .pending (List.forall_mem_nil _) ⟨own, rfl, rfl, rfl, ?_, Nat.zero_le _, ?_⟩
  · simp [Resolve.retryDelays, fixed, planFor]
  · exact .trying (by simp [Plan.due, planFor]) (by simp)

/-- A resolve by a strategy of our own and with a fixed delay makes its attempts at their times,
until one finds an instance, and is answered with what that found, or with the last miss, or at the
limit; without its strategy it is refused at once, and nothing else has happened. -/
theorem attemptsOnSchedule {directory : Directory} {resolver : Resolve.ResolverSettings}
    {cache : Option Resolve.Cache} {past : List BrokerAction}
    (reached : (new directory resolver cache).steps past = some b)
    (fixed : b.settings.backoff = .fixed) (service : String) (options : ResolveOptions)
    (jitter : Draw) :
    (∀ strategy, b.balancer.strategies.get?
        (options.strategy.getD b.settings.defaultStrategy) = some strategy →
      strategy.builtIn = true → ∀ m actions c, b.beginResolve service options jitter = m →
        m.awaited b.nextPursuit actions = true → m.steps actions = some c →
          (b.planFor service options).Fulfilled c.directory.now (m.tries b.nextPursuit actions)
            (m.answered b.nextPursuit actions) ∧
          c.ending? b.nextPursuit = (m.answered b.nextPursuit actions).map (·.result) ∧
          actions.countP (·.isOf b.nextPursuit) ≤ 7 * ((b.planFor service options).retries + 1) ∧
          (m.answered b.nextPursuit actions = none → ∀ draw, ∃ more d result,
            (∀ a ∈ more, a = .proceedResolve b.nextPursuit draw ∨ ∃ ms, a = .directory (.pass ms)) ∧
              c.awaited b.nextPursuit more = true ∧ c.steps more = some d ∧
                d.ending? b.nextPursuit = some result)) ∧
      (b.balancer.strategies.get?
          (options.strategy.getD b.settings.defaultStrategy) = none →
        b.beginResolve service options jitter = { b with
          nextPursuit := b.nextPursuit + 1
          endings := ⟨b.nextPursuit, .error ⟨.invalid, "unknown load balancing strategy: " ++
            options.strategy.getD b.settings.defaultStrategy⟩⟩ :: b.endings }) := by
  have named : b.Named := namedSteps ⟨by simp [new], by simp [new]⟩ reached
  refine ⟨fun strategy known own m actions c begun awaited run => ?_, beginRefuses⟩
  subst begun
  have start : Account (b.planFor service options) (b.beginResolve service options jitter)
      b.nextPursuit [] none := beginAccount named fixed known own
  have account := accountSteps start awaited run
  rw [List.nil_append, Option.none_or] at account
  have stands := account.stands
  refine ⟨stands.fulfilled account.kept, account.ending, ?_, fun unanswered draw => ?_⟩
  · obtain ⟨p, found, under⟩ := start.stands.underway
    have few := awaitedFew start.known found awaited run
    have most := p.moment.toGoMost
    simp only [Pursuit.toGo, under.delays, List.length_replicate] at few
    omega
  · rw [unanswered] at stands
    obtain ⟨p, found, _⟩ := stands.underway
    exact awaitedEnds draw found

end Begun

def patiently : Resolve.ResolverSettings :=
  { Settings.standard.resolverSettings with
    timeout := 120, retries := 3, retryDelay := 50, backoff := .fixed }

def waitedFor : List BrokerAction :=
  List.replicate 3 (.proceedResolve 0 id) ++ [.directory (.pass 20)] ++ registered ++
    [.directory (.pass 30)] ++ List.replicate 6 (.proceedResolve 0 id)

theorem waitedForArrives :
    ∃ b m c, (new (.empty Settings.standard.directory) patiently none).steps [] = some b ∧
      b.settings.backoff = .fixed ∧
      b.balancer.strategies.get?
        (ResolveOptions.standard.strategy.getD b.settings.defaultStrategy) = some .roundRobin ∧
      Strategy.roundRobin.builtIn = true ∧
      b.beginResolve "web" .standard id = m ∧ m.awaited b.nextPursuit waitedFor = true ∧
      m.steps waitedFor = some c ∧
      (m.tries b.nextPursuit waitedFor).map (fun t => (t.at_, t.result.toOption.map (·.id))) =
        [(0, none), (50, some "a")] ∧
      (b.planFor "web" .standard).Fulfilled c.directory.now (m.tries b.nextPursuit waitedFor)
        (m.answered b.nextPursuit waitedFor) ∧
      c.ending? b.nextPursuit = (m.answered b.nextPursuit waitedFor).map (·.result) := by
  let b := new (.empty Settings.standard.directory) patiently none
  let m := b.beginResolve "web" .standard id
  have awaited : m.awaited 0 waitedFor = true := by decide +kernel
  have tries : (m.tries 0 waitedFor).map (fun t => (t.at_, t.result.toOption.map (·.id))) =
      [(0, none), (50, some "a")] := by decide +kernel
  have ran : (m.steps waitedFor).isSome = true := by decide +kernel
  obtain ⟨c, run⟩ := Option.isSome_iff_exists.mp ran
  have known : b.balancer.strategies.get?
      (ResolveOptions.standard.strategy.getD b.settings.defaultStrategy) = some .roundRobin := rfl
  have reached : (new (.empty Settings.standard.directory) patiently none).steps [] =
      some b := rfl
  obtain ⟨fulfilled, ends, _⟩ := (attemptsOnSchedule reached rfl "web" .standard id).1
    .roundRobin known rfl m waitedFor c rfl awaited run
  exact ⟨b, m, c, reached, rfl, known, rfl, rfl, awaited, run, tries, fulfilled, ends⟩

end Broker
end ServiceDirectory
