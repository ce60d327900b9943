import Mathlib.Data.List.Basic
import ServiceDirectory.Proofs.CachedAttempt
import ServiceDirectory.Proofs.ResolveCalls

/-! Round robin with many callers. Each call that has candidates draws the next value of the
counter, so that among the same candidates everybody has its turn; what resolves ask of it while
they run side by side is such a list of calls. -/
namespace ServiceDirectory
namespace Resolve

structure Pick where
  caller : Nat
  candidates : List Instance
  drawn : Option Nat
  result : Except Failure Instance

namespace Pick

def place? (p : Pick) : Option Nat := p.drawn.map (· % p.candidates.length)

def ofCall (cursor : Cursor) (call : Nat × List Instance) : Pick :=
  let (result, after) := Strategy.roundRobin.select (fun _ => 0) cursor call.2
  ⟨call.1, call.2, if after = cursor then none else some cursor.turn, result⟩

end Pick

def Cursor.after (cursor : Cursor) (candidates : List Instance) : Cursor :=
  (Strategy.roundRobin.select (fun _ => 0) cursor candidates).2

def picks (cursor : Cursor) : List (Nat × List Instance) → List Pick
  | [] => []
  | call :: rest => .ofCall cursor call :: picks (cursor.after call.2) rest

def Cursor.afterAll (cursor : Cursor) (calls : List (Nat × List Instance)) : Cursor :=
  calls.foldl (fun cursor call => cursor.after call.2) cursor

section Residues
variable {m place : Nat}

theorem residuesSplit (start n : Nat) (p : Nat → Bool) :
    (List.range' start (m + n)).countP p =
      (List.range' start m).countP p + (List.range' (start + m) n).countP p := by
  rw [← List.range'_append_1, List.countP_append]

theorem residueOnce (start : Nat) (within : place < m) :
    (List.range' start m).countP (· % m == place) = 1 := by
  induction start with
  | zero =>
    rw [← List.range_eq_range']
    have own : ∀ n ∈ List.range m, (n % m == place) = true ↔ (n == place) = true := fun n mem => by
      rw [Nat.mod_eq_of_lt (List.mem_range.mp mem)]
    rw [List.countP_congr own]
    exact List.count_eq_one_of_mem List.nodup_range (List.mem_range.mpr within)
  | succ start ih =>
    obtain ⟨rest, rfl⟩ : ∃ rest, m = rest + 1 := ⟨m - 1, by omega⟩
    rw [List.range'_succ, List.countP_cons] at ih
    have last : List.range' (start + 1) (rest + 1) =
        List.range' (start + 1) rest ++ [start + (rest + 1)] := by
      rw [List.range'_1_concat]
      congr 2
      omega
    rw [last, List.countP_append, List.countP_singleton, Nat.add_mod_right]
    exact ih

theorem residueSeldom (start : Nat) {n : Nat} (fewer : n ≤ m) (within : place < m) :
    (List.range' start n).countP (· % m == place) ≤ 1 := by
  obtain ⟨more, rfl⟩ := Nat.exists_eq_add_of_le fewer
  have whole := residueOnce start within
  rw [residuesSplit] at whole
  omega

theorem residueEven (start n : Nat) (within : place < m) :
    n / m ≤ (List.range' start n).countP (· % m == place) ∧
      (List.range' start n).countP (· % m == place) ≤ (n + m - 1) / m := by
  induction n using Nat.strongRecOn generalizing start with
  | _ n ih =>
    by_cases fewer : n < m
    · rw [Nat.div_eq_of_lt fewer]
      refine ⟨Nat.zero_le _, ?_⟩
      cases n with
      | zero => exact Nat.zero_le _
      | succ n =>
        have once : 1 ≤ (n + 1 + m - 1) / m := (Nat.one_le_div_iff (by omega)).mpr (by omega)
        exact Nat.le_trans (residueSeldom start (Nat.le_of_lt fewer) within) once
    · obtain ⟨rest, rfl⟩ := Nat.exists_eq_add_of_le (Nat.not_lt.mp fewer)
      have positive : 0 < m := by omega
      have later := ih rest (by omega) (start + m)
      have up : m + rest + m - 1 = rest + m - 1 + m := by omega
      rw [residuesSplit, residueOnce start within, up, Nat.add_div_right _ positive,
        Nat.add_comm m rest, Nat.add_div_right _ positive]
      omega

end Residues

section Calls
variable {cursor : Cursor} {call : Nat × List Instance} {calls : List (Nat × List Instance)}

theorem callRefused (cursor : Cursor) (nobody : call.2 = []) :
    Pick.ofCall cursor call = ⟨call.1, [], none, .error noCandidates⟩ ∧
      cursor.after call.2 = cursor := by
  simp [Pick.ofCall, Cursor.after, Strategy.select, nobody]

theorem callServed (cursor : Cursor) (room : cursor.turn < Number.largest64)
    (some_ : call.2 ≠ []) :
    ∃ i, call.2[cursor.turn % call.2.length]? = some i ∧
      Pick.ofCall cursor call = ⟨call.1, call.2, some cursor.turn, .ok i⟩ ∧
      cursor.after call.2 = ⟨cursor.turn + 1⟩ := by
  have within : cursor.turn % call.2.length < call.2.length :=
    Nat.mod_lt _ (List.length_pos_iff.mpr some_)
  have there := List.getElem?_eq_getElem within
  have next : cursor.next = ⟨cursor.turn + 1⟩ :=
    congrArg Cursor.mk (Nat.mod_eq_of_lt (Nat.succ_lt_succ room))
  have moved : cursor.next ≠ cursor := fun same => by
    have turn := congrArg Cursor.turn (next.symm.trans same)
    exact Nat.succ_ne_self _ turn
  refine ⟨call.2[cursor.turn % call.2.length], there, ?_, ?_⟩
  · simp [Pick.ofCall, Strategy.select, some_, moved, there, found]
  · simp [Cursor.after, Strategy.select, some_, next]

inductive Pick.Right : Pick → Prop where
  | served {caller value : Nat} {candidates : List Instance} {i : Instance}
      (there : candidates[value % candidates.length]? = some i) :
      Right ⟨caller, candidates, some value, .ok i⟩
  | refused {caller : Nat} : Right ⟨caller, [], none, .error noCandidates⟩

theorem picksRight (room : cursor.turn + calls.length ≤ Number.largest64) :
    ∀ p ∈ picks cursor calls, p.Right := by
  induction calls generalizing cursor with
  | nil => exact fun p mem => nomatch mem
  | cons call rest ih =>
    rw [List.length_cons] at room
    by_cases nobody : call.2 = []
    · obtain ⟨pick, after⟩ := callRefused cursor nobody
      rw [picks, pick, after]
      exact List.forall_mem_cons.mpr ⟨.refused, ih (by omega)⟩
    · obtain ⟨i, there, pick, after⟩ := callServed cursor (by omega) nobody
      rw [picks, pick, after]
      exact List.forall_mem_cons.mpr ⟨.served there, ih (by simp only; omega)⟩

theorem picksDraw (room : cursor.turn + calls.length ≤ Number.largest64) :
    (picks cursor calls).filterMap (·.drawn) =
      List.range' cursor.turn ((picks cursor calls).countP (·.candidates ≠ [])) := by
  induction calls generalizing cursor with
  | nil => rfl
  | cons call rest ih =>
    rw [List.length_cons] at room
    by_cases nobody : call.2 = []
    · obtain ⟨pick, after⟩ := callRefused cursor nobody
      rw [picks, pick, after, List.filterMap_cons_none rfl, ih (by omega), List.countP_cons_of_neg]
      simp
    · obtain ⟨i, there, pick, after⟩ := callServed cursor (by omega) nobody
      have drew : (Pick.mk call.1 call.2 (some cursor.turn) (.ok i)).drawn = some cursor.turn := rfl
      rw [picks, pick, after, List.filterMap_cons_some drew, ih (by simp only; omega),
        List.countP_cons_of_pos (by simpa using nobody), List.range'_succ]

theorem picksCalls (cursor : Cursor) (calls : List (Nat × List Instance)) :
    (picks cursor calls).map (fun p => (p.caller, p.candidates)) = calls := by
  induction calls generalizing cursor with
  | nil => rfl
  | cons call rest ih => rw [picks, List.map_cons, ih]; rfl

theorem picksLength (cursor : Cursor) (calls : List (Nat × List Instance)) :
    (picks cursor calls).length = calls.length := by
  simpa using congrArg List.length (picksCalls cursor calls)

theorem picksMore (cursor : Cursor) (calls later : List (Nat × List Instance)) :
    picks cursor (calls ++ later) = picks cursor calls ++ picks (cursor.afterAll calls) later := by
  induction calls generalizing cursor with
  | nil => rfl
  | cons call rest ih =>
    rw [List.cons_append, picks, picks, ih, List.cons_append]
    rfl

theorem pickNext (cursor : Cursor) (before later : List (Nat × List Instance))
    (call : Nat × List Instance) :
    (picks cursor (before ++ call :: later))[before.length]? =
      some (Pick.ofCall (cursor.afterAll before) call) := by
  rw [picksMore, ← picksLength cursor before, List.getElem?_append_right (Nat.le_refl _),
    Nat.sub_self]
  rfl

end Calls

/-- What round robin owes its callers, from a value of the counter on. -/
structure Fair (cursor : Cursor) (made : List Pick) : Prop where
  served : ∀ p ∈ made, p.candidates ≠ [] → ∃ value i, p.drawn = some value ∧
    p.candidates[value % p.candidates.length]? = some i ∧ p.result = .ok i
  refused : ∀ p ∈ made, p.candidates = [] → p.drawn = none ∧
    p.result = .error ⟨.noAvailableInstances, "empty candidate list"⟩
  drawn : made.filterMap (·.drawn) = List.range' cursor.turn (made.countP (·.candidates ≠ []))
  apart : (made.filterMap (·.drawn)).Nodup
  even : ∀ l ≠ [], (∀ p ∈ made, p.candidates = l) → ∀ place < l.length,
    made.length / l.length ≤ made.countP (·.place? == some place) ∧
      made.countP (·.place? == some place) ≤ (made.length + l.length - 1) / l.length
  round : ∀ l ≠ [], (∀ p ∈ made, p.candidates = l) → ∀ first, cursor.turn ≤ first →
    first + l.length ≤ cursor.turn + made.length → ∀ place < l.length,
      made.countP (fun p => p.drawn.any (fun value => first ≤ value && value < first + l.length) &&
        p.place? == some place) = 1

section Fair
variable {cursor : Cursor} {made : List Pick} {l : List Instance}

theorem placesCount (same : ∀ p ∈ made, p.candidates = l) (values : Nat → Bool) (place : Nat) :
    made.countP (fun p => p.drawn.any values && p.place? == some place) =
      (made.filterMap (·.drawn)).countP fun value => values value && value % l.length == place := by
  rw [List.countP_filterMap]
  refine List.countP_congr fun p mem => ?_
  rw [Pick.place?, same p mem]
  cases p.drawn <;> simp

theorem placesAll (same : ∀ p ∈ made, p.candidates = l) (place : Nat) :
    made.countP (·.place? == some place) =
      (made.filterMap (·.drawn)).countP (· % l.length == place) := by
  have all := placesCount same (fun _ => true) place
  simp only [Bool.true_and] at all
  rw [← all]
  refine List.countP_congr fun p _ => ?_
  rw [Pick.place?]
  cases p.drawn <;> simp

theorem roundOnce {start first m n place : Nat} (since : start ≤ first)
    (until_ : first + m ≤ start + n) (within : place < m) :
    (List.range' start n).countP (fun value =>
      (first ≤ value && value < first + m) && value % m == place) = 1 := by
  obtain ⟨before, rfl⟩ := Nat.exists_eq_add_of_le since
  obtain ⟨later, rfl⟩ : ∃ later, n = before + (m + later) := ⟨n - before - m, by omega⟩
  have outside (start' n' : Nat) (apart : ∀ value ∈ List.range' start' n',
      value < start + before ∨ start + before + m ≤ value) :
      (List.range' start' n').countP (fun value =>
        (start + before ≤ value && value < start + before + m) && value % m == place) = 0 :=
    List.countP_eq_zero.mpr fun value mem => by
      have away := apart value mem
      simp only [Bool.and_eq_true, decide_eq_true_eq]
      omega
  have inside : (List.range' (start + before) m).countP (fun value =>
      (start + before ≤ value && value < start + before + m) && value % m == place) = 1 := by
    refine (List.countP_congr fun value mem => ?_).trans (residueOnce (start + before) within)
    have there := List.mem_range'_1.mp mem
    simp [there.1, there.2]
  rw [residuesSplit, residuesSplit, inside, outside, outside]
  · intro value mem
    exact .inr (List.mem_range'_1.mp mem).1
  · intro value mem
    exact .inl (List.mem_range'_1.mp mem).2

theorem rightFair (right : ∀ p ∈ made, p.Right)
    (drawn : made.filterMap (·.drawn) =
      List.range' cursor.turn (made.countP (·.candidates ≠ []))) : Fair cursor made := by
  have all {l : List Instance} (some_ : l ≠ []) (same : ∀ p ∈ made, p.candidates = l) :
      made.filterMap (·.drawn) = List.range' cursor.turn made.length := by
    rw [drawn, List.countP_eq_length.mpr fun p mem => by simpa [same p mem] using some_]
  refine ⟨fun p mem some_ => ?_, fun p mem nobody => ?_, drawn, ?_,
    fun l some_ same place within => ?_, fun l some_ same first since until_ place within => ?_⟩
  · cases right p mem with
    | served there => exact ⟨_, _, rfl, there, rfl⟩
    | refused => exact absurd rfl some_
  · cases right p mem with
    | served there => subst nobody; cases there
    | refused => exact ⟨rfl, rfl⟩
  · rw [drawn]
    exact List.nodup_range'
  · rw [placesAll same, all some_ same]
    exact residueEven _ _ within
  · rw [placesCount same, all some_ same]
    exact roundOnce since until_ within

end Fair

section Attempt
variable {q : Query} {r : Registry} {now : Nat} {draw : Draw} {s : Shared} {stage : Stage}
  {l : List Instance} {i : Instance}

def Query.asks? (q : Query) (stage : Stage) : Option (List Instance) :=
  match q.strategy with
  | .roundRobin => q.choice? stage
  | _ => none

theorem asksIs (asked : q.asks? stage = some l) :
    q.strategy = .roundRobin ∧ q.choice? stage = some l := by
  unfold Query.asks? at asked
  split at asked
  · rename_i own
    exact ⟨own, asked⟩
  · cases asked

theorem selectTurn (q : Query) (draw : Draw) (cursor : Cursor) (stage : Stage) (l : List Instance)
    (chosen : q.choice? stage = some l) :
    (q.strategy.select draw cursor l).2 = (q.asks? stage).elim cursor cursor.after := by
  unfold Query.asks?
  cases q.strategy with
  | roundRobin => rw [chosen]; rfl
  | _ => rfl

theorem advanceCursor (q : Query) (r : Registry) (now : Nat) (draw : Draw) (s : Shared)
    (stage : Stage) :
    (q.advance r now draw s stage).2.cursor = (q.asks? stage).elim s.cursor s.cursor.after := by
  have none (quiet : q.choice? stage = none) : q.asks? stage = none := by
    unfold Query.asks?
    split
    · exact quiet
    · rfl
  cases stage with
  | fetch revision =>
    rw [none rfl]
    simp only [Query.advance, Query.fetch]
    split <;> rfl
  | list revision =>
    rw [none rfl]
    simp only [Query.advance]
    split <;> rfl
  | pickCached candidates => exact selectTurn q draw s.cursor (.pickCached candidates) _ rfl
  | choose revision live =>
    rw [← selectTurn q draw s.cursor (.choose revision live) (q.candidates live) rfl]
    have own : (q.pick draw s (q.candidates live)).2.cursor =
        (q.strategy.select draw s.cursor (q.candidates live)).2 := rfl
    rw [← own]
    simp only [Query.advance]
    split <;> rename_i picked <;> rw [picked]
  | keep revision live pick =>
    rw [none rfl]
    exact Query.keepCursor q revision now live pick s
  | _ => rw [none rfl]; rfl

theorem advanceGets (asked : q.asks? stage = some l) (caller : Nat)
    (picked : (Pick.ofCall s.cursor (caller, l)).result = .ok i) :
    (q.advance r now draw s stage).1 = .ended (.ok i) ∨
      ∃ revision live, (q.advance r now draw s stage).1 = .next (.keep revision live i) := by
  obtain ⟨own, chosen⟩ := asksIs asked
  have same : (q.pick draw s l).1 = .ok i := by
    rw [Query.pick, own]
    exact picked
  cases stage with
  | pickCached candidates =>
    cases chosen
    exact .inl (congrArg Progress.ended same)
  | choose revision live =>
    cases chosen
    have whole : q.pick draw s (q.candidates live) =
        (.ok i, (q.pick draw s (q.candidates live)).2) := Prod.ext same rfl
    refine .inr ⟨revision, live, ?_⟩
    rw [Query.advance, whole]
  | _ => cases chosen

end Attempt
end Resolve

namespace Broker
open Resolve (Cursor Draw Fair Pick Query Shared Stage Strategy)
variable {b c : Broker} {a : BrokerAction} {k : Nat}

def asks? (b : Broker) : BrokerAction → Option (Nat × List Instance)
  | .proceedResolve k _ =>
    (b.pursuit? k).bind fun p =>
      match p.moment with
      | .trying stage => (p.query.asks? stage).map (k, ·)
      | .resting _ => none
  | _ => none

def asked (b : Broker) : List BrokerAction → List (Nat × List Instance)
  | [] => []
  | a :: rest => (b.asks? a).toList ++ (b.step a).elim [] (·.asked rest)

inductive Gets (b : Broker) (k : Nat) (i : Instance) : Prop where
  | ended (result : b.ending? k = some (.ok i))
  | keeps {p : Resolve.Pursuit} {revision : Nat} {live : List Instance}
      (under : b.pursuit? k = some p) (moment : p.moment = .trying (.keep revision live i))

structure Served (b c : Broker) (call : Option (Nat × List Instance)) : Prop where
  cursor : c.balancer.cursor =
    call.elim b.balancer.cursor fun call => b.balancer.cursor.after call.2
  gets : ∀ asked, call = some asked → ∀ i,
    (Pick.ofCall b.balancer.cursor asked).result = .ok i → c.Gets asked.1 i

theorem Served.none (same : c.balancer.cursor = b.balancer.cursor) : Served b c none :=
  ⟨same, fun _ asked => nomatch asked⟩

theorem turnedBalancer (b : Broker) (k : Nat) (course : Resolve.Course) :
    (b.turned k course).balancer = b.balancer := by
  cases course <;> rfl

theorem proceedServed {draw : Draw} (next : b.step (.proceedResolve k draw) = some c) :
    Served b c (b.asks? (.proceedResolve k draw)) := by
  obtain ⟨p, found, _⟩ := Option.bind_eq_some_iff.mp next
  rw [proceedIs found] at next
  have moved {course : Resolve.Course} {s : Shared}
      (step : p.step b.directory.registry b.directory.now draw b.shared = some (course, s)) :
      c = (b.withShared s).turned k course := by
    rw [step] at next
    exact (Option.some.inj next).symm
  simp only [asks?, found, Option.bind_some]
  cases moment : p.moment with
  | resting until_ =>
    rw [Resolve.Pursuit.stepResting moment] at moved next
    refine .none ?_
    split at moved
    · rw [moved rfl]; rfl
    · split at moved
      · rw [moved rfl]; rfl
      · rename_i late early
        simp [late, early] at next
  | trying stage =>
    have is := moved (Resolve.Pursuit.stepTrying moment)
    have cursor : c.balancer.cursor =
        (p.query.asks? stage).elim b.balancer.cursor b.balancer.cursor.after := by
      rw [is, turnedBalancer]
      exact Resolve.advanceCursor p.query _ _ draw b.shared stage
    change Served b c ((p.query.asks? stage).map (k, ·))
    cases asked : p.query.asks? stage with
    | none =>
      rw [asked] at cursor
      exact .none cursor
    | some l =>
      rw [asked] at cursor
      refine ⟨cursor, fun call own i picked => ?_⟩
      cases Option.some.inj own
      have got : (p.query.advance b.directory.registry b.directory.now draw b.shared stage).1 =
            .ended (.ok i) ∨
          ∃ revision live, (p.query.advance b.directory.registry b.directory.now draw b.shared
            stage).1 = .next (.keep revision live i) := Resolve.advanceGets asked k picked
      rcases got with ended | ⟨revision, live, keeps⟩
      · refine .ended ?_
        rw [is, ended]
        exact (turnedEnded _ k _).2
      · refine .keeps (p := { p with moment := .trying (.keep revision live i) }) ?_ rfl
        rw [is, keeps]
        exact (turnedAhead found).1

theorem stepServed (next : b.step a = some c) : Served b c (b.asks? a) := by
  cases a with
  | directory action =>
    obtain ⟨d, _, same⟩ := Option.bind_eq_some_iff.mp next
    cases same
    exact .none rfl
  | beginResolve service options jitter =>
    obtain ⟨pursuits, endings, rfl⟩ := beginAside next
    exact .none rfl
  | followNext watcher =>
    obtain ⟨bus, service, rfl⟩ := followCases next
    exact .none rfl
  | proceedResolve k draw => exact proceedServed next
  | _ => cases next; exact .none rfl

theorem askedMore {first last : List BrokerAction} (run : b.steps first = some c) :
    b.asked (first ++ last) = b.asked first ++ c.asked last := by
  induction first generalizing b with
  | nil => cases run; rfl
  | cons a rest ih =>
    obtain ⟨m, one, others⟩ := Option.bind_eq_some_iff.mp run
    rw [List.cons_append, asked, asked, one]
    simp only [Option.elim_some, ih others, List.append_assoc]

theorem stepsServed {actions : List BrokerAction} (run : b.steps actions = some c) :
    c.balancer.cursor = b.balancer.cursor.afterAll (b.asked actions) := by
  induction actions generalizing b with
  | nil => cases run; rfl
  | cons a rest ih =>
    obtain ⟨m, one, others⟩ := Option.bind_eq_some_iff.mp run
    have first := (stepServed one).cursor
    rw [ih others, asked, one, first]
    cases b.asks? a <;> rfl

end Broker

namespace Resolve
open ServiceDirectory (Broker BrokerAction)

/-- Whoever calls round robin and in whichever order, the values drawn follow one another, each call
gets the candidate its own value falls on, and only calls without candidates fail, and draw nothing.
Among the same candidates all have their turn equally often, but for the last round, and each once
in a round. What resolves ask that run side by side are such calls, as long as nobody puts another
round robin in its place, and they get what is picked. -/
theorem roundRobinRotates (cursor : Cursor) (calls : List (Nat × List Instance))
    (room : cursor.turn + calls.length ≤ Number.largest64) :
    Fair cursor (picks cursor calls) ∧ (picks cursor calls).length = calls.length ∧
      (picks cursor calls).map (fun p => (p.caller, p.candidates)) = calls ∧
      ∀ (b c : Broker) (actions : List BrokerAction), b.balancer.cursor = cursor →
        b.asked actions = calls → .addStrategy .roundRobin ∉ actions → b.steps actions = some c →
        c.balancer.cursor = cursor.afterAll calls ∧
          ∀ first k draw last m n l, actions = first ++ .proceedResolve k draw :: last →
            b.steps first = some m → m.step (.proceedResolve k draw) = some n →
            m.asks? (.proceedResolve k draw) = some (k, l) →
              ∃ pick, (picks cursor calls)[(b.asked first).length]? = some pick ∧
                pick.caller = k ∧ pick.candidates = l ∧
                ∀ i, pick.result = .ok i → n.Gets k i := by
  refine ⟨rightFair (picksRight room) (picksDraw room), picksLength cursor calls,
    picksCalls cursor calls, fun b c actions start asks _ run => ⟨?_, ?_⟩⟩
  · rw [← start, ← asks]
    exact Broker.stepsServed run
  · rintro first k draw last m n l rfl before own asked
    have whole : calls = b.asked first ++ (k, l) :: n.asked last := by
      rw [← asks, Broker.askedMore before, Broker.asked, asked, own]
      rfl
    refine ⟨Pick.ofCall (cursor.afterAll (b.asked first)) (k, l), ?_, rfl, rfl, fun i picked => ?_⟩
    · rw [whole]
      exact pickNext cursor (b.asked first) (n.asked last) (k, l)
    · refine (Broker.stepServed own).gets (k, l) asked i ?_
      rw [Broker.stepsServed before, start]
      exact picked

def sideBySide : List BrokerAction :=
  [.beginResolve "web" .standard id, .beginResolve "web" .standard id] ++
    List.replicate 5 (.proceedResolve 0 id) ++ List.replicate 6 (.proceedResolve 1 id) ++
    [.proceedResolve 0 id]

theorem sideBySideRotates :
    ∃ b c calls, Broker.standardStart.steps Broker.registered = some b ∧
      b.steps sideBySide = some c ∧ b.balancer.cursor = ⟨0⟩ ∧ b.asked sideBySide = calls ∧
      calls.map (·.1) = [0, 1] ∧ calls.map (·.2.map (·.id)) = [["a"], ["a"]] ∧
      0 + calls.length ≤ Number.largest64 ∧ .addStrategy .roundRobin ∉ sideBySide ∧
      Fair ⟨0⟩ (picks ⟨0⟩ calls) ∧ c.balancer.cursor = (Cursor.mk 0).afterAll calls := by
  have ran : (Broker.standardStart.steps Broker.registered).bind (fun b =>
      (b.steps sideBySide).map fun _ => (b.balancer.cursor, (b.asked sideBySide).map (·.1),
        (b.asked sideBySide).map (·.2.map (·.id)))) =
      some (⟨0⟩, [0, 1], [["a"], ["a"]]) := by decide +kernel
  obtain ⟨b, before, ran⟩ := Option.bind_eq_some_iff.mp ran
  obtain ⟨c, run, same⟩ := Option.map_eq_some_iff.mp ran
  simp only [Prod.mk.injEq] at same
  obtain ⟨cursor, callers, ids⟩ := same
  have two : (b.asked sideBySide).length = 2 := by simpa using congrArg List.length callers
  have room : (Cursor.mk 0).turn + (b.asked sideBySide).length ≤ Number.largest64 := by
    rw [two]
    decide
  have plain : .addStrategy .roundRobin ∉ sideBySide := by simp [sideBySide]
  obtain ⟨fair, _, _, side⟩ := roundRobinRotates ⟨0⟩ (b.asked sideBySide) room
  exact ⟨b, c, _, before, run, cursor, rfl, callers, ids, room, plain, fair,
    (side b c sideBySide cursor rfl plain run).1⟩

end Resolve
end ServiceDirectory
