import Mathlib.Data.List.Induction
import ServiceDirectory.Health.Hysteresis

/-! What outcomes in a row make of a status: the last streak that was as long as its threshold asks
has decided it. Counters that stop at their ceiling count long enough for every threshold. -/
namespace ServiceDirectory.Health
variable {t : Thresholds} {outcomes : List Bool} {passed : Bool} {n : Nat}

def streak (passed : Bool) (outcomes : List Bool) : Nat :=
  (outcomes.reverse.takeWhile (· == passed)).length

/-- The outcomes end with `n` in a row that are `passed`. -/
def Completes (n : Nat) (passed : Bool) (outcomes : List Bool) : Prop :=
  List.replicate n passed <:+ outcomes

theorem streakNext (passed last : Bool) (outcomes : List Bool) :
    streak passed (outcomes ++ [last]) =
      if last = passed then streak passed outcomes + 1 else 0 := by
  by_cases same : last = passed <;> simp [streak, same]

theorem prefixIff (n : Nat) (passed : Bool) (l : List Bool) :
    List.replicate n passed <+: l ↔ n ≤ (l.takeWhile (· == passed)).length := by
  induction l generalizing n with
  | nil => simp
  | cons o rest ih =>
    cases n with
    | zero => simp
    | succ n =>
      rw [List.replicate_succ, List.cons_prefix_cons, ih]
      by_cases same : o = passed
      · simp [same]
      · simp [same, Ne.symm same]

theorem completesIff : Completes n passed outcomes ↔ n ≤ streak passed outcomes := by
  rw [Completes, ← List.reverse_prefix, List.reverse_replicate]
  exact prefixIff n passed outcomes.reverse

theorem completesLast (asks : 1 ≤ n) {before : List Bool} {last : Bool}
    (completes : Completes n passed (before ++ [last])) : last = passed := by
  by_contra other
  rw [completesIff, streakNext, if_neg other] at completes
  omega

namespace Thresholds

def of (t : Thresholds) (passed : Bool) : Nat := if passed then t.success else t.failure

structure Reachable (t : Thresholds) : Prop where
  asks : ∀ passed, 1 ≤ t.of passed
  within : ∀ passed, t.of passed ≤ Counters.ceiling

end Thresholds

def verdict (passed : Bool) : Status := if passed then .up else .down

theorem verdictIff {other : Bool} : verdict passed = verdict other ↔ passed = other := by
  cases passed <;> cases other <;> decide

theorem nextVerdict {status next : Status} {c : Counters}
    (moves : nextStatus status c t = some next) :
    ∃ passed, next = verdict passed := by
  cases next with
  | starting =>
    unfold nextStatus at moves
    cases status <;> grind
  | up => exact ⟨true, rfl⟩
  | down => exact ⟨false, rfl⟩

/-- Somewhere a streak of such outcomes was completed, and no streak of the others later. -/
def Prevails (t : Thresholds) (passed : Bool) (outcomes : List Bool) : Prop :=
  ∃ k ≤ outcomes.length, Completes (t.of passed) passed (outcomes.take k) ∧
    ∀ j ≤ outcomes.length, k < j → ¬Completes (t.of !passed) (!passed) (outcomes.take j)

def resulting (current : Status) (seen : List Observation) : Status :=
  seen.foldl (fun status o => o.next.getD status) current

structure Gauge where
  status : Status
  counters : Counters
  deriving DecidableEq, Repr

namespace Gauge

def start : Gauge := ⟨.starting, .zero⟩

def next (t : Thresholds) (g : Gauge) (passed : Bool) : Gauge :=
  ⟨(nextStatus g.status (g.counters.record passed) t).getD g.status, g.counters.record passed⟩

def after (t : Thresholds) (g : Gauge) (outcomes : List Bool) : Gauge := outcomes.foldl (next t) g

def observe (t : Thresholds) (g : Gauge) (passed : Bool) : Observation :=
  ⟨g.counters.record passed, nextStatus g.status (g.counters.record passed) t⟩

theorem observed (t : Thresholds) (g : Gauge) (before : List Bool) (passed : Bool)
    (later : List Bool) :
    observeAll t g.status g.counters (before ++ passed :: later) =
      observeAll t g.status g.counters before ++ (g.after t before).observe t passed ::
        observeAll t ((g.after t before).next t passed).status
          ((g.after t before).next t passed).counters later := by
  induction before generalizing g with
  | nil => rfl
  | cons first rest ih => exact congrArg (_ :: ·) (ih (g.next t first))

theorem observedLength (t : Thresholds) (g : Gauge) (outcomes : List Bool) :
    (observeAll t g.status g.counters outcomes).length = outcomes.length := by
  induction outcomes generalizing g with
  | nil => rfl
  | cons first rest ih => exact congrArg (· + 1) (ih (g.next t first))

theorem resultingIs (t : Thresholds) (g : Gauge) (outcomes : List Bool) :
    resulting g.status (observeAll t g.status g.counters outcomes) =
      (g.after t outcomes).status := by
  induction outcomes generalizing g with
  | nil => rfl
  | cons first rest ih => exact ih (g.next t first)

theorem changesChained (t : Thresholds) (g : Gauge) (outcomes : List Bool) :
    (g.status :: (observeAll t g.status g.counters outcomes).filterMap (·.next)).IsChain
      (· ≠ ·) := by
  induction outcomes generalizing g with
  | nil => simp [observeAll]
  | cons first rest ih =>
    have later := ih (g.next t first)
    cases moves : nextStatus g.status (g.counters.record first) t with
    | none => simpa [observeAll, next, moves] using later
    | some status =>
      have apart := nextStatusMoves moves
      simpa [observeAll, next, moves, apart.symm] using later

theorem changesDecided (t : Thresholds) (g : Gauge) (outcomes : List Bool) :
    ∀ status ∈ (observeAll t g.status g.counters outcomes).filterMap (·.next),
      ∃ passed, status = verdict passed := by
  induction outcomes generalizing g with
  | nil => simp [observeAll]
  | cons first rest ih =>
    intro status mem
    obtain ⟨o, seen, moves⟩ := List.mem_filterMap.mp mem
    rcases List.mem_cons.mp seen with rfl | later
    · exact nextVerdict moves
    · exact ih (g.next t first) status (List.mem_filterMap.mpr ⟨o, later, moves⟩)

theorem afterNext (t : Thresholds) (g : Gauge) (before : List Bool) (passed : Bool) :
    g.after t (before ++ [passed]) = (g.after t before).next t passed := by simp [after]

theorem startCounts (t : Thresholds) (outcomes : List Bool) : (start.after t outcomes).counters =
    ⟨min (streak true outcomes) Counters.ceiling,
      min (streak false outcomes) Counters.ceiling⟩ := by
  induction outcomes using List.reverseRecOn with
  | nil => simp [after, start, Counters.zero, streak]
  | append_singleton before last ih =>
    simp only [afterNext, next, ih, streakNext]
    cases last <;> simp [Counters.record] <;> omega

theorem unlimited (reach : t.Reachable) (status : Status) (successes failures : Nat) :
    nextStatus status ⟨min successes Counters.ceiling, min failures Counters.ceiling⟩ t =
      nextStatus status ⟨successes, failures⟩ t := by
  have success : t.success ≤ Counters.ceiling := reach.within true
  have failure : t.failure ≤ Counters.ceiling := reach.within false
  have rises : t.success ≤ min successes Counters.ceiling ↔ t.success ≤ successes := by omega
  have falls : t.failure ≤ min failures Counters.ceiling ↔ t.failure ≤ failures := by omega
  simp only [nextStatus, rises, falls]

theorem startObserves (reach : t.Reachable) (before : List Bool) (last : Bool) :
    (start.after t before).observe t last =
      ⟨⟨min (streak true (before ++ [last])) Counters.ceiling,
          min (streak false (before ++ [last])) Counters.ceiling⟩,
        nextStatus (start.after t before).status
          ⟨streak true (before ++ [last]), streak false (before ++ [last])⟩ t⟩ := by
  have counters : (start.after t before).counters.record last = _ :=
    (congrArg Gauge.counters (afterNext t start before last)).symm.trans (startCounts t _)
  rw [observe, counters, unlimited reach]

theorem movesIff (reach : t.Reachable) (status : Status) (before : List Bool) (last passed : Bool) :
    nextStatus status ⟨streak true (before ++ [last]), streak false (before ++ [last])⟩ t =
        some (verdict passed) ↔
      Completes (t.of passed) passed (before ++ [last]) ∧ status ≠ verdict passed := by
  have success : t.success ≠ 0 := Nat.one_le_iff_ne_zero.mp (reach.asks true)
  have failure : t.failure ≠ 0 := Nat.one_le_iff_ne_zero.mp (reach.asks false)
  rw [completesIff]
  -- only outcomes like the last one are in a row, so at most one streak is complete
  cases last <;> cases passed <;> cases status <;>
    simp [streakNext, nextStatus, verdict, Thresholds.of, success, failure]

theorem afterObserved (reach : t.Reachable) (before : List Bool) (last : Bool) :
    (start.after t (before ++ [last])).status =
      (nextStatus (start.after t before).status
        ⟨streak true (before ++ [last]), streak false (before ++ [last])⟩ t).getD
          (start.after t before).status := by
  rw [afterNext]
  exact congrArg (fun o : Observation => o.next.getD _) (startObserves reach before last)

theorem decided (reach : t.Reachable) {before : List Bool} {last : Bool}
    (completes : Completes (t.of passed) passed (before ++ [last])) :
    (start.after t (before ++ [last])).status = verdict passed := by
  have moves := movesIff reach (start.after t before).status before last
  rw [afterObserved reach]
  cases change : nextStatus (start.after t before).status
      ⟨streak true (before ++ [last]), streak false (before ++ [last])⟩ t with
  | none =>
    by_contra differs
    cases change.symm.trans ((moves passed).mpr ⟨completes, differs⟩)
  | some status =>
    obtain ⟨other, rfl⟩ := nextVerdict change
    obtain ⟨also, _⟩ := (moves other).mp change
    exact verdictIff.mpr
      ((completesLast (reach.asks other) also).symm.trans
          (completesLast (reach.asks passed) completes))

theorem undecided (reach : t.Reachable) {before : List Bool} {last : Bool}
    (none : ∀ passed, ¬Completes (t.of passed) passed (before ++ [last])) :
    (start.after t (before ++ [last])).status = (start.after t before).status := by
  rw [afterObserved reach]
  cases change : nextStatus (start.after t before).status
      ⟨streak true (before ++ [last]), streak false (before ++ [last])⟩ t with
  | none => rfl
  | some status =>
    obtain ⟨passed, rfl⟩ := nextVerdict change
    exact absurd ((movesIff reach _ before last passed).mp change).1 (none passed)

end Gauge

theorem takeWhole (before : List Bool) (last : Bool) :
    (before ++ [last]).take (before.length + 1) = before ++ [last] :=
  List.take_of_length_le (by simp)

theorem prevailsNext (t : Thresholds) (before : List Bool) (last passed : Bool) :
    Prevails t passed (before ++ [last]) ↔ Completes (t.of passed) passed (before ++ [last]) ∨
      Prevails t passed before ∧ ¬Completes (t.of !passed) (!passed) (before ++ [last]) := by
  have whole := takeWhole before last
  have part : ∀ k ≤ before.length, (before ++ [last]).take k = before.take k :=
    fun k le => List.take_append_of_le_length le
  have size : (before ++ [last]).length = before.length + 1 := by simp
  constructor
  · rintro ⟨k, le, completes, none⟩
    rcases Nat.lt_or_ge before.length k with late | early
    · obtain rfl : k = before.length + 1 := by omega
      exact .inl (whole ▸ completes)
    · refine .inr ⟨⟨k, early, part k early ▸ completes, fun j le later => ?_⟩, ?_⟩
      · exact part j le ▸ none j (by omega) later
      · exact whole ▸ none (before.length + 1) (by omega) (by omega)
  · rintro (completes | ⟨⟨k, le, completes, none⟩, never⟩)
    · exact ⟨before.length + 1, by omega, whole.symm ▸ completes, fun j le later => by omega⟩
    · refine ⟨k, by omega, (part k le).symm ▸ completes, fun j most later => ?_⟩
      rcases Nat.lt_or_ge before.length j with late | early
      · obtain rfl : j = before.length + 1 := by omega
        exact whole.symm ▸ never
      · exact (part j early).symm ▸ none j early later

theorem statusIff (reach : t.Reachable) (outcomes : List Bool) (passed : Bool) :
    (Gauge.start.after t outcomes).status = verdict passed ↔ Prevails t passed outcomes := by
  induction outcomes using List.reverseRecOn generalizing passed with
  | nil =>
    have asks := reach.asks passed
    constructor
    · intro same
      cases passed <;> cases same
    · rintro ⟨k, _, completes, _⟩
      rw [completesIff] at completes
      simp [streak] at completes
      omega
  | append_singleton before last ih =>
    rw [prevailsNext, ← ih]
    by_cases some : ∃ b, Completes (t.of b) b (before ++ [last])
    · obtain ⟨b, completes⟩ := some
      rw [Gauge.decided reach completes, verdictIff]
      constructor
      · exact fun same => .inl (same ▸ completes)
      · rintro (own | ⟨_, never⟩)
        · exact (completesLast (reach.asks b) completes).symm.trans
            (completesLast (reach.asks passed) own)
        · by_contra other
          exact never ((Bool.eq_not_of_ne other).symm ▸ completes)
    · have none : ∀ b, ¬Completes (t.of b) b (before ++ [last]) := not_exists.mp some
      rw [Gauge.undecided reach none]
      simp [none]

theorem startingIff (reach : t.Reachable) (outcomes : List Bool) :
    (Gauge.start.after t outcomes).status = .starting ↔
      ∀ k ≤ outcomes.length, ∀ passed, ¬Completes (t.of passed) passed (outcomes.take k) := by
  induction outcomes using List.reverseRecOn with
  | nil =>
    refine iff_of_true rfl fun k _ passed completes => ?_
    have asks := reach.asks passed
    rw [completesIff] at completes
    simp [streak] at completes
    omega
  | append_singleton before last ih =>
    have size : (before ++ [last]).length = before.length + 1 := by simp
    by_cases some : ∃ b, Completes (t.of b) b (before ++ [last])
    · obtain ⟨b, completes⟩ := some
      rw [Gauge.decided reach completes]
      refine iff_of_false (by cases b <;> decide) fun never => ?_
      exact never (before.length + 1) (by omega) b ((takeWhole before last).symm ▸ completes)
    · have none : ∀ b, ¬Completes (t.of b) b (before ++ [last]) := not_exists.mp some
      rw [Gauge.undecided reach none, ih]
      constructor
      · intro never k le passed
        rcases Nat.lt_or_ge before.length k with late | early
        · obtain rfl : k = before.length + 1 := by omega
          exact (takeWhole before last).symm ▸ none passed
        · exact (List.take_append_of_le_length early).symm ▸ never k early passed
      · exact fun never k early passed =>
          List.take_append_of_le_length early ▸ never k (by omega) passed

theorem observedAt (reach : t.Reachable) {k : Nat} (inside : k < outcomes.length) :
    (observeAll t .starting .zero outcomes)[k]? = some
      ⟨⟨min (streak true (outcomes.take (k + 1))) Counters.ceiling,
          min (streak false (outcomes.take (k + 1))) Counters.ceiling⟩,
        nextStatus (Gauge.start.after t (outcomes.take k)).status
          ⟨streak true (outcomes.take (k + 1)), streak false (outcomes.take (k + 1))⟩ t⟩ ∧
    resulting .starting ((observeAll t .starting .zero outcomes).take k) =
      (Gauge.start.after t (outcomes.take k)).status := by
  have split : outcomes = outcomes.take k ++ outcomes[k] :: outcomes.drop (k + 1) := by simp
  have more : outcomes.take (k + 1) = outcomes.take k ++ [outcomes[k]] := by simp
  have size : (observeAll t Gauge.start.status Gauge.start.counters (outcomes.take k)).length = k :=
    (Gauge.observedLength t .start _).trans (List.length_take_of_le (Nat.le_of_lt inside))
  have seen : observeAll t .starting .zero outcomes = _ :=
    (congrArg (observeAll t .starting .zero) split).trans (Gauge.observed t .start _ _ _)
  rw [seen, more]
  constructor
  · rw [List.getElem?_append_right (Nat.le_of_eq size), Gauge.startObserves reach]
    simp [size]
  · rw [List.take_append_of_le_length (Nat.le_of_eq size.symm),
      List.take_of_length_le (Nat.le_of_eq size)]
    exact Gauge.resultingIs t .start _

/-- From starting with nothing counted, a status is what the last streak of a threshold's length has
decided, however long the outcomes; it changes with the outcome that completes such a streak if it
differs from what that streak decides, and with no other. -/
theorem statusesTellStreaks (t : Thresholds)
    (success : 1 ≤ t.success ∧ t.success ≤ Number.largest32)
    (failure : 1 ≤ t.failure ∧ t.failure ≤ Number.largest32) (outcomes : List Bool) :
    let seen := observeAll t .starting .zero outcomes
    (resulting .starting seen = .up ↔ Prevails t true outcomes) ∧
    (resulting .starting seen = .down ↔ Prevails t false outcomes) ∧
    (resulting .starting seen = .starting ↔ ∀ k ≤ outcomes.length,
      ¬Completes t.success true (outcomes.take k) ∧
        ¬Completes t.failure false (outcomes.take k)) ∧
    (.starting :: seen.filterMap (·.next)).IsChain (· ≠ ·) ∧
    (∀ status ∈ seen.filterMap (·.next), status = .up ∨ status = .down) ∧
    ∀ k < outcomes.length, ∃ o, seen[k]? = some o ∧
      (∀ passed, o.next = some (verdict passed) ↔
        Completes (t.of passed) passed (outcomes.take (k + 1)) ∧
          resulting .starting (seen.take k) ≠ verdict passed) ∧
      o.counters = ⟨min (streak true (outcomes.take (k + 1))) Number.largest32,
        min (streak false (outcomes.take (k + 1))) Number.largest32⟩ ∧
      o.next = nextStatus (resulting .starting (seen.take k))
        ⟨streak true (outcomes.take (k + 1)), streak false (outcomes.take (k + 1))⟩ t := by
  intro seen
  have reach : t.Reachable :=
    ⟨fun b => by cases b; exact failure.1; exact success.1,
      fun b => by cases b; exact failure.2; exact success.2⟩
  have result : resulting .starting seen = (Gauge.start.after t outcomes).status :=
    Gauge.resultingIs t .start outcomes
  refine ⟨result ▸ statusIff reach outcomes true, result ▸ statusIff reach outcomes false, ?_,
    Gauge.changesChained t .start outcomes, ?_, fun k inside => ?_⟩
  · rw [result, startingIff reach]
    simp [Thresholds.of, and_comm]
  · intro status mem
    obtain ⟨passed, rfl⟩ := Gauge.changesDecided t .start outcomes status mem
    cases passed
    · exact .inr rfl
    · exact .inl rfl
  · obtain ⟨found, before⟩ := observedAt reach inside
    have more : outcomes.take (k + 1) = outcomes.take k ++ [outcomes[k]] := by simp
    refine ⟨_, found, fun passed => ?_, rfl, by rw [before]⟩
    rw [before, more]
    exact Gauge.movesIff reach _ _ _ passed

theorem risesAgain : (1 ≤ 2 ∧ 2 ≤ Number.largest32) ∧ (1 ≤ 3 ∧ 3 ≤ Number.largest32) ∧
    resulting .starting (observeAll ⟨2, 3⟩ .starting .zero
      [true, true, false, false, false, true, true]) = .up ∧
    Prevails ⟨2, 3⟩ true [true, true, false, false, false, true, true] :=
  ⟨by decide, by decide, by decide,
    (statusesTellStreaks ⟨2, 3⟩ (by decide) (by decide) _).1.mp (by decide)⟩

end ServiceDirectory.Health
