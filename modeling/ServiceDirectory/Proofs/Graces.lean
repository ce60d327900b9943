import ServiceDirectory.Proofs.Evictions

/-! How long a sweep leaves a registration in peace: the timeout, counted from each heartbeat of its
own and from the moment at which the call that brought it in looked at the clock. It becomes live
only later than that, by as long as the store has taken. -/
namespace ServiceDirectory

def Call.moment? : Call → Option Timestamp
  | .saving i => some i.lastHeartbeat
  | .entering i => some i.lastHeartbeat
  | .collecting at_ => some at_
  | .loading _ at_ => some at_
  | _ => none

structure Stride.Reads (s : Stride) (k : CallId) (at_ : Timestamp) : Prop where
  clock : s.before.clock = at_
  first : (s.before.call? k).bind Call.moment? = none
  holds : (s.after.call? k).bind Call.moment? = some at_

def Stride.GoesBy (s : Stride) (past : List Stride) (k : CallId) (at_ : Timestamp) : Prop :=
  ∃ r : Stride, [r, s].Sublist past ∧ r.Reads k at_

structure Stride.Hears (s : Stride) (id : String) (epoch : Nat) : Prop where
  asks : s.action = .begin (.heartbeat id)
  live : (s.before.registry.records.get? id).map (·.epoch) = some epoch
  answer : s.after.ending? s.before.nextCall = some (.ok .done)

theorem Stride.GoesBy.later {s : Stride} {past : List Stride} {k : CallId} {at_ : Timestamp}
    (h : s.GoesBy past k at_) (next : Stride) : s.GoesBy (past ++ [next]) k at_ := by
  obtain ⟨r, order, reads⟩ := h
  exact ⟨r, order.trans (List.sublist_append_left _ _), reads⟩

namespace Directory
variable {d e : Directory} {a : Action} {k : CallId} {c : Call} {past : List Stride}
  {id : String} {x : Record} {at_ : Timestamp}

def Read (past : List Stride) (d : Directory) : Prop :=
  ∀ k c at_, d.call? k = some c → c.moment? = some at_ → ∃ r ∈ past, r.Reads k at_

def Heeded (past : List Stride) (d : Directory) : Prop :=
  ∀ h ∈ past, ∀ id epoch, h.Hears id epoch → epoch < d.registry.nextEpoch ∧
    ∀ x, d.registry.records.get? id = some x → x.epoch = epoch →
      h.before.clock.nanos ≤ x.snapshot.lastHeartbeat.nanos

structure Timed (past : List Stride) (d : Directory) : Prop where
  admitted : Admitted past d
  read : Read past d
  acted : ∀ s ∈ past, ∀ k c at_, s.action = .proceed k → s.before.call? k = some c →
    c.moment? = some at_ → s.GoesBy past k at_
  heeded : Heeded past d

theorem withStoreTimed (settings : DirectorySettings) (store : Table Instance) :
    Timed [] (withStore settings store) where
  admitted := withStoreAdmitted settings store
  read k c at_ found := by cases found
  acted s mem := by cases mem
  heeded h mem := by cases mem

theorem readStep (lined : d.Lined) (h : Read past d) (next : d.step a = some e) :
    Read (past ++ [⟨d, a, e⟩]) e := by
  obtain ⟨k, before, after, result, told, runs⟩ := stepRuns lined next
  intro j c at_ found moment
  have was := runs.was
  have earlier (c : Call) (found : d.call? j = some c) (moment : c.moment? = some at_) :
      ∃ r ∈ past ++ [⟨d, a, e⟩], r.Reads j at_ := by
    obtain ⟨r, mem, reads⟩ := h j c at_ found moment
    exact ⟨r, List.mem_append_left _ mem, reads⟩
  have now (clock : d.clock = at_) (first : before.bind Call.moment? = none) (own : j = k) :
      ∃ r ∈ past ++ [⟨d, a, e⟩], r.Reads j at_ := by
    subst own
    refine ⟨_, List.mem_append_right _ List.mem_cons_self, clock, ?_, ?_⟩
    · exact (congrArg (Option.bind · Call.moment?) was).trans first
    · exact (congrArg (Option.bind · Call.moment?) found).trans moment
  rw [runs.calls] at found
  split at found
  · rename_i own
    subst found
    cases runs.course with
    | opened opens =>
      cases opens with
      | sweep => exact now (Option.some.inj moment) rfl own
      | _ => cases moment
    | ticked | reserved | listed | given => exact now (Option.some.inj moment) rfl own
    | @saved _ i => exact earlier (.saving i) (own ▸ was) moment
    | _ => cases moment
  · exact earlier c found moment

theorem heededStep (custody : d.Custody) (h : Heeded past d) (next : d.step a = some e) :
    Heeded (past ++ [⟨d, a, e⟩]) e := by
  intro s mem id epoch hears
  rcases List.mem_append.mp mem with old | new
  · obtain ⟨early, since⟩ := h s old id epoch hears
    exact registrationKeeps (P := fun i => s.before.clock.nanos ≤ i.lastHeartbeat.nanos)
      (fun _ _ later since => Int.le_trans since later.2) custody early since next
  · cases List.mem_singleton.mp new
    obtain ⟨rfl, live, _⟩ := hears
    obtain ⟨y, was, rfl⟩ := Option.map_eq_some_iff.mp live
    have grows := (passesStep custody next).grows
    cases next
    have holds : d.registry.records.holds id = true :=
      (Table.holdsIff _ _).mpr (Option.isSome_iff_exists.mpr ⟨y, was⟩)
    obtain ⟨z, here, since⟩ := heartbeatHeard holds
    refine ⟨Nat.lt_of_lt_of_le (custody.sound.past id y was) grows, fun x there _ => ?_⟩
    cases here.symm.trans there
    exact since

theorem timedStep (h : Timed past d) (next : d.step a = some e) :
    Timed (past ++ [⟨d, a, e⟩]) e where
  admitted := admittedStep h.admitted next
  read := readStep h.admitted.custody.lined h.read next
  acted s mem k c at_ acts found moment := by
    rcases List.mem_append.mp mem with old | new
    · exact (h.acted s old k c at_ acts found moment).later _
    · cases List.mem_singleton.mp new
      obtain ⟨r, before, reads⟩ := h.read k c at_ found moment
      exact ⟨r, (List.singleton_sublist.mpr before).append (List.Sublist.refl _), reads⟩
  heeded := heededStep h.admitted.custody h.heeded next

/-- How a registration comes to be let go by a sweep that goes by this moment. Whatever is said of
the timeout is said of what lies between two looks at the clock. -/
structure Overdue (past : List Stride) (timeout : Nat) (at_ : Timestamp) (id : String)
    (x : Record) : Prop where
  unheard : ∀ h ∈ past, h.Hears id x.epoch →
    timeout * Timestamp.perMilli < at_.since h.before.clock
  begun : ∃ b ∈ past, ∃ k i, b.action = .proceed k ∧ b.Begins id x i ∧
    b.GoesBy past k i.lastHeartbeat ∧
    timeout * Timestamp.perMilli <
      at_.since b.before.clock + b.before.clock.since i.lastHeartbeat

theorem begunAt (h : Timed past d) (live : d.registry.records.get? id = some x) :
    ∃ b ∈ past, ∃ k i, b.action = .proceed k ∧ b.Begins id x i ∧
      b.GoesBy past k i.lastHeartbeat ∧ i.Continues x.snapshot := by
  obtain ⟨b, mem, i, begins, later⟩ := (h.admitted.sourced id x live).source
  refine ⟨b, mem, ?_⟩
  cases begins.admits with
  | registered acts found =>
    exact ⟨_, i, acts, begins, h.acted b mem _ _ _ acts found rfl, later⟩
  | loaded acts found _ _ _ is =>
    subst is
    exact ⟨_, _, acts, begins, h.acted b mem _ _ _ acts found rfl, later⟩

/-- A sweep lets go of a registration only when more than the timeout has gone by, at the moment the
sweep goes by, since every heartbeat of it that was answered and since the call that brought it in
looked at the clock. If no time went by between that look and its becoming live, it has had the
timeout, whole, to be heard of. -/
theorem sweepsLeaveTime {settings : DirectorySettings} {store : Table Instance}
    {actions : List Action} (run : (withStore settings store).steps actions = some d)
    (found : d.call? k = some (.collecting at_)) (next : d.step (.proceed k) = some e)
    (live : d.registry.records.get? id = some x) (gone : e.registry.records.get? id = none) :
    (∃ r ∈ (withStore settings store).trail actions, r.Reads k at_) ∧
      Overdue ((withStore settings store).trail actions) settings.heartbeatTimeout at_ id x := by
  have h : Timed ((withStore settings store).trail actions) d :=
    trailKeeps (withStoreTimed settings store) run fun s _ next _ h => timedStep h next
  have settled : d.settings = settings :=
    trailHolds (P := fun m => m.settings = settings) rfl run fun _ _ next settled =>
      (stepSettings next).trans settled
  have late : settings.heartbeatTimeout * Timestamp.perMilli <
      at_.since x.snapshot.lastHeartbeat := by
    rcases stepTenure h.admitted.custody next live with ⟨y, stays, _⟩ | ousts
    · cases gone.symm.trans stays
    · cases ousts with
      | removal acts leaving =>
        cases acts
        cases found.symm.trans leaving
      | sweep acts collecting free stale =>
        cases acts
        cases found.symm.trans collecting
        exact settled ▸ of_decide_eq_true stale
  refine ⟨h.read k _ at_ found rfl, fun s mem hears => ?_, ?_⟩
  · have since := (h.heeded s mem id x.epoch hears).2 x live rfl
    simp only [Timestamp.since] at late ⊢
    omega
  · obtain ⟨b, mem, j, i, acts, begins, goesBy, later⟩ := begunAt h live
    refine ⟨b, mem, j, i, acts, begins, goesBy, ?_⟩
    have since := later.2
    simp only [Timestamp.since] at late ⊢
    omega

def hasty : DirectorySettings :=
  { Settings.standard.directory with heartbeatTimeout := 110 }

def comer : Instance := Registry.stamped (.fresh "a" "web" "h:1" .origin) (.ofMillis 0)

def savedSlowly : List Action :=
  [.begin (.register comer), .proceed 0, .pass 100, .settle 0 none]

def heardOnce : List Action :=
  savedSlowly ++ [.proceed 0, .proceed 0, .proceed 0, .pass 50, .begin (.heartbeat "a"), .pass 111,
    .begin .sweep]

theorem heardOnceOverdue :
    ∃ d e x, (withStore hasty []).steps heardOnce = some d ∧
      d.call? 2 = some (.collecting (.ofMillis 261)) ∧ d.step (.proceed 2) = some e ∧
      d.registry.records.get? "a" = some x ∧ e.registry.records.get? "a" = none ∧
      Overdue ((withStore hasty []).trail heardOnce) 110 (.ofMillis 261) "a" x := by
  obtain ⟨d, e, run, found, next, live, gone⟩ : ∃ d e,
      (withStore hasty []).steps heardOnce = some d ∧
      d.call? 2 = some (.collecting (.ofMillis 261)) ∧ d.step (.proceed 2) = some e ∧
      (d.registry.records.get? "a").isSome ∧ e.registry.records.get? "a" = none :=
    ⟨_, _, rfl, by decide +kernel, rfl, by decide +kernel, by decide +kernel⟩
  obtain ⟨x, live⟩ := Option.isSome_iff_exists.mp live
  exact ⟨d, e, x, run, found, next, live, gone, (sweepsLeaveTime run found next live gone).2⟩

def sweptSoon : List Action := [.proceed 0, .proceed 0, .proceed 0, .pass 20, .begin .sweep]

theorem slowlySavedSwept :
    ∃ d e x b i, (withStore hasty []).steps (savedSlowly ++ sweptSoon) = some d ∧
      (∀ a ∈ savedSlowly ++ sweptSoon, ∀ nanos, a ≠ .setClock nanos) ∧
      d.call? 1 = some (.collecting (.ofMillis 120)) ∧ d.step (.proceed 1) = some e ∧
      d.registry.records.get? "a" = some x ∧ e.registry.records.get? "a" = none ∧
      b ∈ (withStore hasty []).trail (savedSlowly ++ sweptSoon) ∧ b.Begins "a" x i ∧
      ¬hasty.heartbeatTimeout * Timestamp.perMilli <
        (Timestamp.ofMillis 120).since b.before.clock := by
  obtain ⟨m, n, d, e, saved, enters, rest, found, next, live, gone, clock, new, waits, here⟩ :
      ∃ m n d e, (withStore hasty []).steps savedSlowly = some m ∧
        m.step (.proceed 0) = some n ∧ n.steps sweptSoon.tail = some d ∧
        d.call? 1 = some (.collecting (.ofMillis 120)) ∧ d.step (.proceed 1) = some e ∧
        d.registry.records.get? "a" = some ⟨comer, 1⟩ ∧ e.registry.records.get? "a" = none ∧
        m.clock = .ofMillis 100 ∧ m.registry.records.get? "a" = none ∧
        m.call? 0 = some (.entering comer) ∧ n.registry.records.get? "a" = some ⟨comer, 1⟩ :=
    ⟨_, _, _, _, rfl, rfl, rfl, by decide +kernel, rfl, by decide +kernel, by decide +kernel,
      by decide +kernel, by decide +kernel, by decide +kernel, by decide +kernel⟩
  have run : (withStore hasty []).steps (savedSlowly ++ sweptSoon) = some d := by
    rw [stepsAppend, saved]
    exact Option.bind_eq_some_iff.mpr ⟨m, rfl, Option.bind_eq_some_iff.mpr ⟨n, enters, rest⟩⟩
  have mem : ⟨m, .proceed 0, n⟩ ∈ (withStore hasty []).trail (savedSlowly ++ sweptSoon) := by
    rw [trailMore saved]
    exact List.mem_append_right _ ((trailNext enters).symm ▸ List.mem_cons_self)
  have fine : comer.WellFormed := Registry.objectionNone.mp (by decide +kernel)
  refine ⟨d, e, ⟨comer, 1⟩, ⟨m, .proceed 0, n⟩, comer, run, by simp [savedSlowly, sweptSoon],
    found, next, live, gone, mem, ⟨by simp [new], here, .registered rfl waits fine⟩, ?_⟩
  change ¬_ < Timestamp.since _ m.clock
  rw [clock]
  decide +kernel

end Directory
end ServiceDirectory
