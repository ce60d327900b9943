import ServiceDirectory.Proofs.ResolveCalls

/-! One resolve with fixed delays. There is an attempt at its start and one after each delay, until
one finds an instance, none is left, or the limit comes before the end of a wait; every step brings
it nearer to its end, and only a wait holds it up. -/
namespace ServiceDirectory
namespace Resolve

structure Try where
  at_ : Nat
  result : Except Failure Instance

def Missed (result : Except Failure Instance) : Prop :=
  ∃ e, result = .error e ∧ e.kind = .noAvailableInstances

structure Plan where
  service : String
  start : Nat
  delay : Nat
  retries : Nat
  limit : Nat

namespace Plan

def due (plan : Plan) (n : Nat) : Nat := plan.start + n * plan.delay

def timedOut (plan : Plan) : Failure :=
  ⟨.timeout, "resolving " ++ plan.service ++ " exceeded " ++ toString plan.limit ++ "ms"⟩

structure Kept (plan : Plan) (tries : List Try) : Prop where
  times : tries.map (·.at_) = (List.range tries.length).map plan.due
  few : tries.length ≤ plan.retries + 1
  within : ∀ n < tries.length, n * plan.delay ≤ plan.limit
  again : ∀ t ∈ tries.dropLast, Missed t.result

inductive Ends (plan : Plan) (tries : List Try) : Try → Prop where
  | found {at_ : Nat} {i : Instance} (last : tries.getLast? = some ⟨at_, .ok i⟩) :
      Ends plan tries ⟨at_, .ok i⟩
  | exhausted {e : Failure} (fits : plan.retries * plan.delay ≤ plan.limit)
      (all : tries.length = plan.retries + 1)
      (last : tries.getLast? = some ⟨plan.due plan.retries, .error e⟩)
      (missed : e.kind = .noAvailableInstances) : Ends plan tries ⟨plan.due plan.retries, .error e⟩
  | late (cut : plan.limit < plan.retries * plan.delay)
      (missed : ∀ t ∈ tries, Missed t.result) (next : plan.limit < tries.length * plan.delay) :
      Ends plan tries ⟨plan.start + plan.limit, .error plan.timedOut⟩

inductive Poised (plan : Plan) (now n : Nat) : Moment → Prop where
  | trying {stage : Stage} (time : now = plan.due n) (within : n * plan.delay ≤ plan.limit) :
      Poised plan now n (.trying stage)
  | resting (early : now ≤ plan.due n) (before : now ≤ plan.start + plan.limit) :
      Poised plan now n (.resting (plan.due n))

theorem Poised.soon {plan : Plan} {now n : Nat} {moment : Moment}
    (h : plan.Poised now n moment) : now ≤ plan.due n ∧ now ≤ plan.start + plan.limit := by
  cases h with
  | trying time within => exact ⟨Nat.le_of_eq time, time ▸ Nat.add_le_add_left within _⟩
  | resting early before => exact ⟨early, before⟩

structure Underway (plan : Plan) (now n : Nat) (p : Pursuit) : Prop where
  own : p.query.strategy.builtIn = true
  service : p.query.service = plan.service
  timeout : p.timeout = plan.limit
  deadline : p.deadline = plan.start + plan.limit
  delays : p.delays = List.replicate (plan.retries - n) plan.delay
  left : n ≤ plan.retries
  poised : plan.Poised now n p.moment

end Plan

def Pursuit.tried? (p : Pursuit) (r : Registry) (now : Nat) (draw : Draw) (s : Shared) :
    Option (Except Failure Instance) :=
  match p.moment with
  | .trying stage =>
    match (p.query.advance r now draw s stage).1 with
    | .ended result => some result
    | .next _ => none
  | .resting _ => none

def Stage.toGo : Stage → Nat
  | .lookup => 6
  | .fetch _ => 5
  | .snapshot => 4
  | .list _ => 3
  | .choose _ _ => 2
  | .keep _ _ _ => 1
  | .pickCached _ => 1

def Moment.toGo : Moment → Nat
  | .trying stage => stage.toGo
  | .resting _ => 7

def Pursuit.toGo (p : Pursuit) : Nat := p.moment.toGo + 7 * p.delays.length

theorem Stage.toGoSome (stage : Stage) : 0 < stage.toGo := by cases stage <;> simp [toGo]

theorem Pursuit.toGoSome (p : Pursuit) : 0 < p.toGo := by
  cases moment : p.moment with
  | trying stage =>
    have some_ := stage.toGoSome
    simp only [toGo, moment, Moment.toGo]
    omega
  | resting until_ =>
    simp only [toGo, moment, Moment.toGo]
    omega

theorem Moment.toGoMost (moment : Moment) : moment.toGo ≤ 7 := by
  cases moment with
  | trying stage => cases stage <;> simp [toGo, Stage.toGo]
  | resting until_ => exact Nat.le_refl _

theorem advanceNearer {q : Query} {r : Registry} {now : Nat} {draw : Draw} {s s' : Shared}
    {stage after : Stage} (moved : q.advance r now draw s stage = (.next after, s')) :
    after.toGo < stage.toGo := by
  cases stage with
  | lookup =>
    simp only [Query.advance, Query.lookup] at moved
    split at moved <;> cases moved <;> simp [Stage.toGo]
  | fetch revision =>
    simp only [Query.advance, Query.fetch, Query.useful] at moved
    split at moved
    · have moved := (Prod.mk.inj moved).1
      repeat' split at moved
      all_goals cases moved
      all_goals simp [Stage.toGo]
    · cases moved
      simp [Stage.toGo]
  | pickCached candidates => cases moved
  | snapshot =>
    cases moved
    simp [Stage.toGo]
  | list revision =>
    simp only [Query.advance] at moved
    split at moved <;> cases moved
    simp [Stage.toGo]
  | choose revision live =>
    simp only [Query.advance] at moved
    split at moved <;> cases moved
    simp [Stage.toGo]
  | keep revision live pick => cases moved

theorem failureNearer {p after : Pursuit} {now : Nat} {e : Failure}
    (again : p.afterFailure now e = .ahead after) : after.toGo ≤ 7 * p.delays.length := by
  unfold Pursuit.afterFailure at again
  split at again
  · cases again
  split at again
  · cases again
  · rename_i rest delays
    cases again
    simp only [Pursuit.toGo, Moment.toGo, Stage.toGo, delays, List.length_cons]
    omega
  · rename_i delay rest _ delays
    cases again
    simp only [Pursuit.toGo, Moment.toGo, delays, List.length_cons]
    omega

theorem stepNearer {p after : Pursuit} {r : Registry} {now : Nat} {draw : Draw} {s s' : Shared}
    (next : p.step r now draw s = some (.ahead after, s')) : after.toGo < p.toGo := by
  cases moment : p.moment with
  | resting until_ =>
    rw [Pursuit.stepResting moment] at next
    split at next
    · cases next
      simp only [Pursuit.toGo, moment, Moment.toGo, Stage.toGo]
      omega
    · split at next <;> cases next
  | trying stage =>
    rw [Pursuit.stepTrying moment] at next
    have here := stage.toGoSome
    rcases moved : p.query.advance r now draw s stage with ⟨progress, left⟩
    rw [moved] at next
    simp only [Option.some.injEq, Prod.mk.injEq] at next
    obtain ⟨next, rfl⟩ := next
    rcases progress with stage' | e | i
    · cases next
      have nearer := advanceNearer moved
      simp only [Pursuit.toGo, moment, Moment.toGo]
      omega
    · have nearer := failureNearer next
      simp only [Pursuit.toGo, moment, Moment.toGo] at nearer ⊢
      omega
    · cases next

theorem stepWaits {p : Pursuit} {r : Registry} {now : Nat} {draw : Draw} {s : Shared}
    (waits : p.step r now draw s = none) : ∃ until_, p.moment = .resting until_ ∧
      now ≤ min until_ p.deadline ∧
      (p.step r (min until_ p.deadline) draw s).isSome = true := by
  cases moment : p.moment with
  | trying stage =>
    rw [Pursuit.stepTrying moment] at waits
    cases waits
  | resting until_ =>
    rw [Pursuit.stepResting moment] at waits
    split at waits
    · cases waits
    · rename_i undue
      split at waits
      · cases waits
      · rename_i early
        refine ⟨until_, rfl, by omega, ?_⟩
        rw [Pursuit.stepResting moment]
        split
        · rfl
        · rename_i late
          rw [if_pos (by omega)]
          rfl

section Turns
variable {plan : Plan} {p : Pursuit} {now n : Nat} {stage : Stage} {e : Failure}

inductive Plan.Turns (plan : Plan) (now n : Nat) :
    Option (Except Failure Instance) → Course → Prop where
  | on {p : Pursuit} (under : plan.Underway now n p) : Turns plan now n none (.ahead p)
  | again {e : Failure} {p : Pursuit} (missed : e.kind = .noAvailableInstances)
      (within : n * plan.delay ≤ plan.limit) (time : now = plan.due n) (left : n < plan.retries)
      (under : plan.Underway now (n + 1) p) : Turns plan now n (some (.error e)) (.ahead p)
  | found {i : Instance} (within : n * plan.delay ≤ plan.limit) (time : now = plan.due n)
      (left : n ≤ plan.retries) : Turns plan now n (some (.ok i)) (.ended (.ok i))
  | exhausted {e : Failure} (missed : e.kind = .noAvailableInstances)
      (within : n * plan.delay ≤ plan.limit) (time : now = plan.due n) (last : n = plan.retries) :
      Turns plan now n (some (.error e)) (.ended (.error e))
  | late (time : now = plan.start + plan.limit) (beyond : plan.limit < n * plan.delay)
      (left : n ≤ plan.retries) : Turns plan now n none (.ended (.error plan.timedOut))

theorem Plan.dueNext (plan : Plan) (n : Nat) : plan.due (n + 1) = plan.due n + plan.delay := by
  simp only [due, Nat.succ_mul]
  omega

theorem failureTurns (under : plan.Underway now n p) (time : now = plan.due n)
    (within : n * plan.delay ≤ plan.limit) (missed : e.kind = .noAvailableInstances) :
    plan.Turns now n (some (.error e)) (p.afterFailure now e) := by
  have again : e.retryable = true := by simp [Failure.retryable, missed]
  simp only [Pursuit.afterFailure, again, Bool.not_true, Bool.false_eq_true, if_false]
  by_cases last : n = plan.retries
  · have none : p.delays = [] := by simp [under.delays, last]
    rw [none]
    exact .exhausted missed within time last
  have left : n < plan.retries := Nat.lt_of_le_of_ne under.left last
  have more : plan.retries - n = plan.retries - (n + 1) + 1 := by omega
  have delays : p.delays = plan.delay :: List.replicate (plan.retries - (n + 1)) plan.delay := by
    rw [under.delays, more, List.replicate_succ]
  have goesOn {moment : Moment} (poised : plan.Poised now (n + 1) moment) :
      plan.Turns now n (some (.error e)) (.ahead
        { p with delays := List.replicate (plan.retries - (n + 1)) plan.delay, moment }) :=
    .again missed within time left { under with delays := rfl, left, poised }
  have next : plan.due (n + 1) = now + plan.delay := time ▸ plan.dueNext n
  rw [delays]
  split
  · rename_i none
    cases none
  · rename_i rest first
    obtain ⟨zero, rfl⟩ := List.cons.inj first
    have atOnce : (n + 1) * plan.delay ≤ plan.limit := by
      rw [zero]
      exact Nat.zero_le _
    exact goesOn (.trying (by omega) atOnce)
  · rename_i delay rest _ first
    obtain ⟨rfl, rfl⟩ := List.cons.inj first
    have before : now ≤ plan.start + plan.limit := time ▸ Nat.add_le_add_left within _
    rw [← next]
    exact goesOn (.resting (by omega) before)

theorem pursuitTurns {r : Registry} {draw : Draw} {s s' : Shared} {course : Course}
    (under : plan.Underway now n p) (next : p.step r now draw s = some (course, s')) :
    plan.Turns now n (p.tried? r now draw s) course := by
  have poised := under.poised
  cases moment : p.moment with
  | resting until_ =>
    rw [moment] at poised
    cases poised with
    | resting early before =>
      rw [Pursuit.stepResting moment] at next
      simp only [Pursuit.tried?, moment]
      split at next
      · rename_i due
        cases next
        have time : now = plan.due n := Nat.le_antisymm early due
        refine .on { under with poised := .trying time ?_ }
        simp only [Plan.due] at time
        omega
      · rename_i undue
        split at next <;> cases next
        rename_i expires
        have expired : p.timedOut = plan.timedOut := by
          simp only [Pursuit.timedOut, Plan.timedOut, under.service, under.timeout]
        rw [under.deadline] at expires
        rw [expired]
        simp only [Plan.due] at undue
        exact .late (by omega) (by omega) under.left
  | trying stage =>
    rw [moment] at poised
    cases poised with
    | trying time within =>
      rw [Pursuit.stepTrying moment] at next
      simp only [Pursuit.tried?, moment]
      rcases moved : p.query.advance r now draw s stage with ⟨progress, after⟩
      rw [moved] at next
      cases next
      cases progress with
      | next stage => exact .on { under with poised := .trying time within }
      | ended result =>
        cases result with
        | ok i => exact .found within time under.left
        | error e =>
          refine failureTurns under time within ?_
          rcases Query.advanceFails moved with rfl | ⟨candidates, failed⟩
          · rfl
          · rw [Strategy.builtInFails under.own failed]
            rfl

end Turns

namespace Plan
variable {plan : Plan} {tries : List Try}

theorem Kept.none (plan : Plan) : plan.Kept [] :=
  ⟨rfl, Nat.zero_le _, fun _ fewer => absurd fewer (Nat.not_lt_zero _), fun _ mem => nomatch mem⟩

theorem Kept.next (h : plan.Kept tries) (missed : ∀ t ∈ tries, Missed t.result)
    (within : tries.length * plan.delay ≤ plan.limit) (left : tries.length ≤ plan.retries)
    (result : Except Failure Instance) :
    plan.Kept (tries ++ [⟨plan.due tries.length, result⟩]) where
  times := by simp [h.times, List.range_succ]
  few := by simpa using left
  within n fewer := by
    rw [List.length_append, List.length_singleton] at fewer
    by_cases last : n = tries.length
    · exact last ▸ within
    · exact h.within n (by omega)
  again := by simpa using missed

inductive Stands (plan : Plan) (now : Nat) (tries : List Try) :
    Option Pursuit → Option Try → Prop where
  | pending {p : Pursuit} (missed : ∀ t ∈ tries, Missed t.result)
      (under : plan.Underway now tries.length p) : Stands plan now tries (some p) none
  | ended {answer : Try} (ends : plan.Ends tries answer) : Stands plan now tries none (some answer)

/-- What a run has made of a resolve at a time: its attempts, and its answer with the time of it. -/
structure Fulfilled (plan : Plan) (now : Nat) (tries : List Try) (answer : Option Try) :
    Prop where
  kept : plan.Kept tries
  made : ∀ n ≤ plan.retries, n * plan.delay ≤ plan.limit →
    (∀ t ∈ tries.take n, Missed t.result) → plan.due n < now ∨ answer ≠ none → n < tries.length
  ends : ∀ t, answer = some t → plan.Ends tries t
  pending : answer = none → (∀ t ∈ tries, Missed t.result) ∧
    now ≤ plan.start + min (plan.retries * plan.delay) plan.limit

theorem missedNever {i : Instance} : ¬Missed (.ok i) := fun ⟨_, same, _⟩ => nomatch same

theorem Ends.made {answer : Try} (ends : plan.Ends tries answer) {n : Nat} (few : n ≤ plan.retries)
    (within : n * plan.delay ≤ plan.limit) (missed : ∀ t ∈ tries.take n, Missed t.result) :
    n < tries.length := by
  refine Nat.not_le.mp fun fewer => ?_
  rw [List.take_of_length_le fewer] at missed
  cases ends with
  | found last => exact missedNever (missed _ (List.mem_of_getLast? last))
  | exhausted _ all => omega
  | late _ _ next =>
    have most := Nat.mul_le_mul_right plan.delay fewer
    omega

theorem Stands.fulfilled {now : Nat} {p : Option Pursuit} {answer : Option Try}
    (kept : plan.Kept tries) (h : plan.Stands now tries p answer) :
    plan.Fulfilled now tries answer := by
  cases h with
  | @pending p missed under =>
    obtain ⟨soon, before⟩ := under.poised.soon
    refine ⟨kept, fun n _ _ _ passed => ?_, (fun t same => nomatch same), fun _ => ⟨missed, ?_⟩⟩
    · have later : plan.due n < now := passed.resolve_right (absurd rfl)
      refine Nat.not_le.mp fun fewer => ?_
      have most := Nat.mul_le_mul_right plan.delay fewer
      simp only [due] at soon later
      omega
    · have most := Nat.mul_le_mul_right plan.delay under.left
      simp only [due] at soon
      omega
  | ended ends =>
    refine ⟨kept, fun n few within missed _ => ends.made few within missed, fun t same => ?_,
      fun none => nomatch none⟩
    cases same
    exact ends

theorem Stands.underway {now : Nat} {p : Option Pursuit} (h : plan.Stands now tries p none) :
    ∃ q, p = some q ∧ plan.Underway now tries.length q := by
  cases h with
  | pending _ under => exact ⟨_, rfl, under⟩

end Plan
end Resolve
end ServiceDirectory
