import ServiceDirectory.Proofs.Freshness
import ServiceDirectory.Proofs.Table

/-! What one action does to one resolve: nothing, or one step of it, or it drops it. -/
namespace ServiceDirectory
open Resolve (Cursor Draw Pursuit)

namespace Resolve

theorem Strategy.builtInFails {strategy : Strategy} (own : strategy.builtIn = true) {draw : Draw}
    {cursor : Cursor} {candidates : List Instance} {e : Failure}
    (failed : (strategy.select draw cursor candidates).1 = .error e) : e = noCandidates := by
  have nobody {o : Option Instance} (failed : found o = .error e) : e = noCandidates := by
    cases o <;> cases failed
    rfl
  cases strategy with
  | caller => cases own
  | roundRobin =>
    simp only [select] at failed
    split at failed
    · cases failed
      rfl
    · exact nobody failed
  | _ => exact nobody failed

theorem Query.advanceFails {q : Query} {r : Registry} {now : Nat} {draw : Draw} {s s' : Shared}
    {stage : Stage} {e : Failure} (moved : q.advance r now draw s stage = (.ended (.error e), s')) :
    e = noInstances q.service ∨
      ∃ candidates, (q.strategy.select draw s.cursor candidates).1 = .error e := by
  cases stage with
  | lookup =>
    simp only [advance, lookup] at moved
    split at moved <;> cases moved
  | fetch revision =>
    simp only [advance, fetch, useful] at moved
    split at moved
    · have moved := (Prod.mk.inj moved).1
      split at moved
      · split at moved <;> cases moved
      · split at moved <;> cases moved
      · cases moved
    · cases moved
  | pickCached candidates =>
    exact .inr ⟨candidates, Progress.ended.inj (Prod.mk.inj moved).1⟩
  | snapshot => cases moved
  | list revision =>
    simp only [advance] at moved
    split at moved <;> cases moved
    exact .inl rfl
  | choose revision live =>
    simp only [advance] at moved
    split at moved <;> cases moved
    rename_i picked
    exact .inr ⟨q.candidates live, congrArg Prod.fst picked⟩
  | keep revision live pick => cases moved

namespace Pursuit
variable {p : Pursuit} {r : Registry} {now : Nat} {draw : Draw} {s : Shared}

def after (p : Pursuit) (now : Nat) : Progress → Course
  | .next stage => .ahead { p with moment := .trying stage }
  | .ended (.ok i) => .ended (.ok i)
  | .ended (.error e) => p.afterFailure now e

theorem stepTrying {stage : Stage} (trying : p.moment = .trying stage) :
    p.step r now draw s = some (p.after now (p.query.advance r now draw s stage).1,
      (p.query.advance r now draw s stage).2) := by
  rcases moved : p.query.advance r now draw s stage with ⟨progress, s'⟩
  rcases progress with stage | e | i <;> simp [step, trying, moved, Pursuit.after]

theorem stepResting {until_ : Nat} (resting : p.moment = .resting until_) :
    p.step r now draw s =
      if until_ ≤ now then some (.ahead { p with moment := .trying .lookup }, s)
      else if p.deadline ≤ now then some (.ended (.error p.timedOut), s) else none := by
  simp only [step, resting]

end Pursuit
end Resolve

def BrokerAction.isOf (k : Nat) : BrokerAction → Bool
  | .proceedResolve call _ => call == k
  | .abandonResolve call => call == k
  | _ => false

namespace Broker
variable {b c : Broker} {k : Nat}

def turned (b : Broker) (k : Nat) : Resolve.Course → Broker
  | .ahead p => { b with pursuits := b.pursuits.map fun x => if x.1 == k then (k, p) else x }
  | .ended result =>
    { b with pursuits := b.pursuits.filter (·.1 != k), endings := ⟨k, result⟩ :: b.endings }

theorem proceedIs {p : Pursuit} (found : b.pursuit? k = some p) (draw : Draw) :
    b.step (.proceedResolve k draw) =
      (p.step b.directory.registry b.directory.now draw b.shared).map fun x =>
        (b.withShared x.2).turned k x.1 := by
  simp only [step, proceedResolve, found, bind, Option.bind_some]
  cases p.step b.directory.registry b.directory.now draw b.shared with
  | none => rfl
  | some x => obtain ⟨course, s⟩ := x; cases course <;> rfl

theorem turnedAhead {p p' : Pursuit} (found : b.pursuit? k = some p) :
    (b.turned k (.ahead p')).pursuit? k = some p' ∧
      (b.turned k (.ahead p')).ending? k = b.ending? k := by
  refine ⟨?_, rfl⟩
  rw [turned, pursuit?, findMapped, if_pos rfl]
  exact congrArg (Option.map fun _ => p') found

theorem turnedEnded (b : Broker) (k : Nat) (result : Except Failure Instance) :
    (b.turned k (.ended result)).pursuit? k = none ∧
      (b.turned k (.ended result)).ending? k = some result := by
  refine ⟨?_, by simp [turned, ending?]⟩
  rw [turned, pursuit?, findFiltered, if_pos rfl]
  rfl

structure Named (b : Broker) : Prop where
  pursuits : ∀ x ∈ b.pursuits, x.1 < b.nextPursuit
  endings : ∀ e ∈ b.endings, e.call < b.nextPursuit

theorem Named.fresh (h : b.Named) :
    b.pursuit? b.nextPursuit = none ∧ b.ending? b.nextPursuit = none := by
  constructor
  · have none : b.pursuits.find? (·.1 == b.nextPursuit) = none := by
      refine List.find?_eq_none.mpr fun x mem same => ?_
      exact Nat.ne_of_lt (h.pursuits x mem) (by simpa using same)
    rw [pursuit?, none]; rfl
  · have none : b.endings.find? (·.call == b.nextPursuit) = none := by
      refine List.find?_eq_none.mpr fun x mem same => ?_
      exact Nat.ne_of_lt (h.endings x mem) (by simpa using same)
    rw [ending?, none]; rfl

inductive Moved (b c : Broker) (k : Nat) : Prop where
  | untouched (pursuit : c.pursuit? k = b.pursuit? k) (ending : c.ending? k = b.ending? k)
  | dropped (pursuit : c.pursuit? k = none) (ending : c.ending? k = b.ending? k)
  | ahead {p p' : Pursuit} {draw : Draw} {s : Resolve.Shared} (was : b.pursuit? k = some p)
      (taken : p.Taken b.directory.registry b.directory.now draw b.shared (.ahead p') s)
      (pursuit : c.pursuit? k = some p') (ending : c.ending? k = b.ending? k)
  | ended {p : Pursuit} {draw : Draw} {s : Resolve.Shared} {result : Except Failure Instance}
      (was : b.pursuit? k = some p)
      (taken : p.Taken b.directory.registry b.directory.now draw b.shared (.ended result) s)
      (pursuit : c.pursuit? k = none) (ending : c.ending? k = some result)

theorem abandoned (next : b.step (.abandonResolve k) = some c) :
    c.pursuit? k = none ∧ c.ending? k = b.ending? k := by
  cases next
  refine ⟨?_, rfl⟩
  rw [pursuit?, findFiltered, if_pos rfl]
  rfl

theorem stepElsewhere {a : BrokerAction} (known : k < b.nextPursuit) (other : a.isOf k = false)
    (next : b.step a = some c) :
    k < c.nextPursuit ∧ c.pursuit? k = b.pursuit? k ∧ c.ending? k = b.ending? k := by
  have aside (pursuits : c.pursuits = b.pursuits) (endings : c.endings = b.endings)
      (nextPursuit : c.nextPursuit = b.nextPursuit) :
      k < c.nextPursuit ∧ c.pursuit? k = b.pursuit? k ∧ c.ending? k = b.ending? k :=
    ⟨nextPursuit ▸ known, by rw [pursuit?, pursuits, pursuit?], by rw [ending?, endings, ending?]⟩
  cases a with
  | directory action =>
    obtain ⟨d, _, same⟩ := Option.bind_eq_some_iff.mp next
    cases same
    exact aside rfl rfl rfl
  | beginResolve service options jitter =>
    cases next
    have apart : ¬b.nextPursuit = k := Nat.ne_of_gt known
    simp only [beginResolve]
    split
    · exact ⟨Nat.lt_succ_of_lt known, rfl, by simp [ending?, apart]⟩
    · exact ⟨Nat.lt_succ_of_lt known, by simp [pursuit?, List.find?_append, apart], rfl⟩
  | proceedResolve id draw =>
    have apart : ¬id = k := by simpa [BrokerAction.isOf] using other
    obtain ⟨p, s, found, ⟨p', _, rfl⟩ | ⟨result, _, rfl⟩⟩ := proceedCases next
    · exact ⟨known, by rw [pursuit?, findMapped, if_neg apart]; rfl, rfl⟩
    · exact ⟨known, by rw [pursuit?, findFiltered, if_neg apart]; rfl, by simp [ending?, apart]⟩
  | abandonResolve call =>
    cases next
    have apart : ¬call = k := by simpa [BrokerAction.isOf] using other
    exact ⟨known, by rw [pursuit?, findFiltered, if_neg apart]; rfl, rfl⟩
  | followNext watcher =>
    obtain ⟨bus, service, rfl⟩ := followCases next
    exact aside rfl rfl rfl
  | _ => cases next; exact aside rfl rfl rfl

theorem stepMoved {a : BrokerAction} (known : k < b.nextPursuit) (next : b.step a = some c) :
    k < c.nextPursuit ∧ Moved b c k := by
  by_cases other : a.isOf k = false
  · obtain ⟨later, pursuit, ending⟩ := stepElsewhere known other next
    exact ⟨later, .untouched pursuit ending⟩
  cases a with
  | proceedResolve id draw =>
    have mine : id = k := by simpa [BrokerAction.isOf] using other
    subst mine
    obtain ⟨p, s, found, ⟨p', taken, rfl⟩ | ⟨result, taken, rfl⟩⟩ := proceedCases next
    · obtain ⟨pursuit, ending⟩ := turnedAhead (b := b.withShared s) found
      exact ⟨known, .ahead found taken pursuit ending⟩
    · obtain ⟨pursuit, ending⟩ := turnedEnded (b.withShared s) id result
      exact ⟨known, .ended found taken pursuit ending⟩
  | abandonResolve call =>
    have mine : call = k := by simpa [BrokerAction.isOf] using other
    subst mine
    obtain ⟨pursuit, ending⟩ := abandoned next
    cases next
    exact ⟨known, .dropped pursuit ending⟩
  | _ => exact absurd rfl other

theorem begun {service : String} {options : Resolve.ResolveOptions} {jitter : Draw} {p : Pursuit}
    (named : b.Named)
    (begins : Pursuit.begin b.balancer b.settings options service jitter b.directory.now = .ok p) :
    b.nextPursuit < (b.beginResolve service options jitter).nextPursuit ∧
      (b.beginResolve service options jitter).pursuit? b.nextPursuit = some p ∧
      (b.beginResolve service options jitter).ending? b.nextPursuit = none := by
  obtain ⟨nobody, unended⟩ := named.fresh
  have none : b.pursuits.find? (·.1 == b.nextPursuit) = none := Option.map_eq_none_iff.mp nobody
  simp only [beginResolve, begins]
  exact ⟨Nat.lt_succ_self _, by simp [pursuit?, List.find?_append, none], unended⟩

theorem beginCases (named : b.Named) (service : String) (options : Resolve.ResolveOptions)
    (jitter : Draw) :
    b.nextPursuit < (b.beginResolve service options jitter).nextPursuit ∧
      ((∃ e : Failure, e.kind ≠ .noAvailableInstances ∧
          (b.beginResolve service options jitter).pursuit? b.nextPursuit = none ∧
          (b.beginResolve service options jitter).ending? b.nextPursuit = some (.error e)) ∨
        ∃ p, Pursuit.begin b.balancer b.settings options service jitter b.directory.now = .ok p ∧
          (b.beginResolve service options jitter).pursuit? b.nextPursuit = some p ∧
          (b.beginResolve service options jitter).ending? b.nextPursuit = none) := by
  cases begins : Pursuit.begin b.balancer b.settings options service jitter b.directory.now with
  | ok p => exact (begun named begins).imp_right fun under => .inr ⟨p, rfl, under⟩
  | error e =>
    simp only [beginResolve, begins]
    refine ⟨Nat.lt_succ_self _, .inl ⟨e, fun kind => ?_, named.fresh.1, by simp [ending?]⟩⟩
    rw [Pursuit.beginFails begins] at kind
    cases kind

theorem goneSteps (known : k < b.nextPursuit) (gone : b.pursuit? k = none)
    {actions : List BrokerAction} (run : b.steps actions = some c) :
    c.ending? k = b.ending? k := by
  induction actions generalizing b with
  | nil => cases run; rfl
  | cons a rest ih =>
    obtain ⟨m, one, others⟩ := Option.bind_eq_some_iff.mp run
    obtain ⟨later, moved⟩ := stepMoved known one
    cases moved with
    | untouched pursuit ending => exact (ih later (pursuit.trans gone) others).trans ending
    | dropped pursuit ending => exact (ih later pursuit others).trans ending
    | ahead was => rw [gone] at was; cases was
    | ended was => rw [gone] at was; cases was

theorem newNamed (settings : DirectorySettings) (resolver : Resolve.ResolverSettings)
    (cache : Option Resolve.Cache) : (new (.empty settings) resolver cache).Named :=
  ⟨fun x mem => (by cases mem), fun e mem => (by cases mem)⟩

theorem namedStep (h : b.Named) {a : BrokerAction} (next : b.step a = some c) : c.Named := by
  have aside (pursuits : ∀ x ∈ c.pursuits, ∃ y ∈ b.pursuits, y.1 = x.1)
      (endings : c.endings = b.endings) (nextPursuit : c.nextPursuit = b.nextPursuit) : c.Named :=
    ⟨fun x mem => by
      obtain ⟨y, old, same⟩ := pursuits x mem
      exact nextPursuit ▸ same ▸ h.pursuits y old, nextPursuit ▸ endings ▸ h.endings⟩
  cases a with
  | directory action =>
    obtain ⟨d, _, same⟩ := Option.bind_eq_some_iff.mp next
    cases same
    exact aside (fun x mem => ⟨x, mem, rfl⟩) rfl rfl
  | beginResolve service options jitter =>
    cases next
    simp only [beginResolve]
    split
    · refine ⟨fun x mem => Nat.lt_succ_of_lt (h.pursuits x mem), fun e mem => ?_⟩
      rcases List.mem_cons.mp mem with rfl | old
      · exact Nat.lt_succ_self _
      · exact Nat.lt_succ_of_lt (h.endings e old)
    · refine ⟨fun x mem => ?_, fun e mem => Nat.lt_succ_of_lt (h.endings e mem)⟩
      rcases List.mem_append.mp mem with old | new
      · exact Nat.lt_succ_of_lt (h.pursuits x old)
      · cases List.mem_singleton.mp new
        exact Nat.lt_succ_self _
  | proceedResolve id draw =>
    obtain ⟨p, s, found, ⟨p', _, rfl⟩ | ⟨result, _, rfl⟩⟩ := proceedCases next
    · refine aside (fun x mem => ?_) rfl rfl
      obtain ⟨y, old, same⟩ := List.mem_map.mp mem
      refine ⟨y, old, ?_⟩
      split at same <;> rw [← same]
      rename_i hit
      simpa using hit
    · refine ⟨fun x mem => h.pursuits x (List.mem_of_mem_filter mem), fun e mem => ?_⟩
      rcases List.mem_cons.mp mem with rfl | old
      · exact h.pursuits _ (pursuitMem found)
      · exact h.endings e old
  | abandonResolve call =>
    cases next
    exact aside (fun x mem => ⟨x, List.mem_of_mem_filter mem, rfl⟩) rfl rfl
  | followNext watcher =>
    obtain ⟨bus, service, rfl⟩ := followCases next
    exact aside (fun x mem => ⟨x, mem, rfl⟩) rfl rfl
  | _ => cases next; exact aside (fun x mem => ⟨x, mem, rfl⟩) rfl rfl

theorem namedSteps (h : b.Named) {actions : List BrokerAction} (run : b.steps actions = some c) :
    c.Named := by
  induction actions generalizing b with
  | nil => cases run; exact h
  | cons a rest ih =>
    obtain ⟨m, one, others⟩ := Option.bind_eq_some_iff.mp run
    exact ih (namedStep h one) others

end Broker
end ServiceDirectory
