import ServiceDirectory.Proofs.Closing

/-! How long a record stays: until a removal under way takes it out, or a sweep that finds it stale.
Who is heard of in time is not found stale by any sweep that begins in time. -/
namespace ServiceDirectory

theorem Registry.takenStale {r s : Registry} {timeout : Nat} {at_ : Timestamp} {took : List Expiry}
    (sound : SoundRecords r.records r.nextEpoch) (expires : r.expire timeout at_ = (s, took))
    {id : String} {x : Record} (live : r.records.get? id = some x)
    (taken : id ∈ (took.map (·.snapshot)).map (·.id)) :
    x.snapshot.stale timeout at_ = true ∧ id ∉ r.inFlight := by
  rw [expireTakes sound expires, memVictims sound] at taken
  obtain ⟨free, x, found, stale⟩ := taken
  cases live.symm.trans found
  exact ⟨stale, free⟩

namespace Directory
variable {d e : Directory} {a : Action} {k : CallId} {c : Call} {id : String} {x : Record}

inductive Ousts (d : Directory) (a : Action) (id : String) (x : Record) : Prop where
  | removal {k : CallId} (acts : a = .proceed k) (found : d.call? k = some (.leaving id))
  | sweep {k : CallId} {at_ : Timestamp} (acts : a = .proceed k)
      (found : d.call? k = some (.collecting at_)) (free : id ∉ d.registry.inFlight)
      (stale : x.snapshot.stale d.settings.heartbeatTimeout at_ = true)

theorem staysLive (custody : d.Custody) (next : d.step a = some e)
    (was : d.registry.records.get? id = some x) :
    (∃ y, e.registry.records.get? id = some y) ∨ d.Ousts a id x := by
  have here {t : Table Record} (same : t.get? id = d.registry.records.get? id) :
      ∃ y, t.get? id = some y := ⟨x, same.trans was⟩
  have touched (own : String) (at_ : Timestamp) :
      ∃ y, (d.registry.touch own at_).records.get? id = some y := by
    rw [Registry.touch, Table.getAdjust, was]
    split
    · exact ⟨_, rfl⟩
    · exact ⟨x, rfl⟩
  have replaced (own : String) (y : Record) :
      ∃ z, (d.registry.records.put own y).get? id = some z := by
    rw [Table.getPut]
    split
    · exact ⟨y, rfl⟩
    · exact ⟨x, was⟩
  cases stepDeed next with
  | heard => exact .inl (touched _ _)
  | @entered k i found => exact .inl (replaced _ _)
  | @left k target y found live =>
    by_cases own : id = target
    · exact .inr (.removal rfl (own ▸ found))
    · have records := (Registry.leaveRecords live).1
      exact .inl (here ((congrArg (Table.get? · id) records).trans
        ((Table.getRemove _ _ _).trans (if_neg own))))
  | foundNone found expires =>
    exact .inl (here ((Registry.expireLoses custody.sound expires).1.others id List.not_mem_nil))
  | @collected k at_ s took i rest found expires =>
    by_cases taken : id ∈ (took.map (·.snapshot)).map (·.id)
    · obtain ⟨stale, free⟩ := Registry.takenStale custody.sound expires was taken
      exact .inr (.sweep rfl found free stale)
    · exact .inl (here ((Registry.expireLoses custody.sound expires).1.others id taken))
  | @loaded k stored at_ found =>
    have gains := Registry.loadGains d.registry at_ stored
    refine .inl (here (gains.others id fun came => ?_))
    obtain ⟨i, mem, rfl⟩ := List.mem_map.mp came
    cases was.symm.trans (gains.fresh i mem).1
  | @passed _ _ target epoch at_ ofReport =>
    left
    change ∃ y, (d.registry.passed target epoch at_).records.get? id = some y
    unfold Registry.passed
    split
    · split
      · exact touched _ _
      · exact ⟨x, was⟩
    · exact ⟨x, was⟩
  | moved => exact .inl (replaced _ _)
  | @dropped k c found => exact .inl (here (by cases c.guarded? <;> rfl))
  | reordered perm => exact .inl (here (Table.getPerm custody.sound.distinct perm id))
  | _ => exact .inl (here rfl)

theorem stepTenure (custody : d.Custody) (next : d.step a = some e)
    (was : d.registry.records.get? id = some x) :
    (∃ y, e.registry.records.get? id = some y ∧ x.snapshot.Continues y.snapshot) ∨
      d.Ousts a id x := by
  refine (staysLive custody next was).imp_left fun ⟨y, live⟩ => ⟨y, live, ?_⟩
  have vacant {k : CallId} {i : Instance} (found : d.call? k = some (.entering i)) :
      d.registry.records.get? i.id = none :=
    custody.kept.vacant i (List.mem_flatMap.mpr ⟨_, memOfCall found, List.mem_singleton_self _⟩)
  cases stepStems custody next live with
  | kept same => cases same.symm.trans was; exact Instance.continuesRefl _
  | heard heartbeat same is =>
    cases same.symm.trans was
    exact is ▸ Instance.touchContinues _ _
  | reported ofReport same epoch later => cases same.symm.trans was; exact later
  | entered acts found own => exact nomatch (own ▸ was).symm.trans (vacant found)
  | loaded acts found listed named placed own late =>
    rcases stepStays custody next was live with rfl | ⟨rfl, _⟩ | rfl | ⟨report, rfl⟩
    · exact Instance.continuesRefl _
    all_goals cases acts

def Punctual (d : Directory) : Prop :=
  ∀ k at_, d.call? k = some (.collecting at_) → at_.nanos ≤ d.clock.nanos

theorem clockGrows (sets : ∀ nanos, a ≠ .setClock nanos) (next : d.step a = some e) :
    d.clock.nanos ≤ e.clock.nanos := by
  by_cases passes : ∃ ms, a = .pass ms
  · obtain ⟨ms, rfl⟩ := passes
    cases next
    simp only [clock, Timestamp.ofNanos, Timestamp.ofMillis, Timestamp.perMilli]
    omega
  · have same := (stepTime (fun ms same => passes ⟨ms, same⟩) sets next).clock
    exact Int.le_of_eq (congrArg Timestamp.nanos same.symm)

theorem punctualStep (lined : d.Lined) (h : d.Punctual) (sets : ∀ nanos, a ≠ .setClock nanos)
    (next : d.step a = some e) : e.Punctual := by
  have grows := clockGrows sets next
  obtain ⟨k, before, after, result, told, runs⟩ := stepRuns lined next
  intro j at_ found
  rw [runs.calls] at found
  split at found
  · subst found
    cases runs.course with
    | opened opens => cases opens; exact grows
    | ticked => exact grows
  · exact Int.le_trans (h j at_ found) grows

def HeardSince (d : Directory) (since : Int) (id : String) : Prop :=
  ∃ x, d.registry.records.get? id = some x ∧ since ≤ x.snapshot.lastHeartbeat.nanos

theorem HeardSince.earlier {since before : Int} (h : d.HeardSince since id) (le : before ≤ since) :
    d.HeardSince before id := by
  obtain ⟨x, live, heard⟩ := h
  exact ⟨x, live, Int.le_trans le heard⟩

theorem heartbeatHeard (live : d.registry.records.holds id = true) :
    (d.begin (.heartbeat id)).HeardSince d.clock.nanos id := by
  obtain ⟨x, was⟩ := Option.isSome_iff_exists.mp ((Table.holdsIff _ _).mp live)
  refine ⟨{ x with snapshot := x.snapshot.touch d.clock }, ?_, ?_⟩
  · simp [begin, beginHeartbeat, Registry.heartbeat, live, answer, Registry.touch, Table.getAdjust,
      was]
  · simp only [Instance.touch, Timestamp.later]
    split <;> omega

def Unmolested (d : Directory) (id : String) : Prop :=
  ∀ k c, d.call? k = some c → id ∉ c.removes

theorem unmolestedStep (lined : d.Lined) (h : d.Unmolested id)
    (spared : a ≠ .begin (.deregister id)) (next : d.step a = some e) : e.Unmolested id := by
  obtain ⟨k, before, after, result, told, runs⟩ := stepRuns lined next
  refine runs.each (fun j c _ found => h j c found) fun c is mem => ?_
  subst is
  cases runs.course with
  | opened opens => cases opens <;> cases mem
  | removing =>
    cases List.mem_singleton.mp mem
    exact spared rfl
  | quieted | deleted => exact h k _ runs.was mem
  | _ => cases mem

theorem heardStep (custody : d.Custody) {since : Int} (h : d.HeardSince since id)
    (unmolested : d.Unmolested id) (punctual : d.Punctual)
    (timely : d.clock.nanos ≤ since + d.settings.heartbeatTimeout * Timestamp.perMilli)
    (next : d.step a = some e) : e.HeardSince since id := by
  obtain ⟨x, live, heard⟩ := h
  rcases stepTenure custody next live with ⟨y, stays, later⟩ | ousts
  · exact ⟨y, stays, Int.le_trans heard later.2⟩
  · cases ousts with
    | removal acts found => exact absurd (List.mem_singleton_self id) (unmolested _ _ found)
    | @sweep _ at_ acts found free stale =>
      have begun := punctual _ _ found
      have late : _ < at_.nanos - x.snapshot.lastHeartbeat.nanos := of_decide_eq_true stale
      omega

def Tidings (d : Directory) : Prop :=
  ∀ k c, d.call? k = some c → ∀ n ∈ c.news, (n.event .origin).kind ≠ .expired

theorem tidingsStep (lined : d.Lined) (h : d.Tidings) (next : d.step a = some e) : e.Tidings := by
  obtain ⟨k, before, after, result, told, runs⟩ := stepRuns lined next
  refine runs.each (fun j c _ found => h j c found) fun c is n mem => ?_
  subst is
  cases runs.course with
  | opened opens => cases opens <;> cases mem
  | moved _ changes =>
    cases List.mem_singleton.mp mem
    rw [Notice.event, changes]
    rintro ⟨⟩
  | entered | left =>
    cases List.mem_singleton.mp mem
    rintro ⟨⟩
  | loaded =>
    obtain ⟨i, _, rfl⟩ := List.mem_map.mp mem
    rintro ⟨⟩
  | told => exact h k _ runs.was n (List.mem_cons_of_mem _ mem)
  | quieted | deleted | saved => exact h k _ runs.was n mem
  | _ => cases mem

theorem expiryTold {told : List Event} {before after : Option Call}
    {result : Option (Except Failure Answer)} (h : d.Tidings)
    (runs : Runs d a e k before after result told) {event : Event} (mem : event ∈ told)
    (expired : event.kind = .expired) :
    ∃ round, d.call? k = some (.expiring round) ∧ event.snapshot = round.current := by
  have was := runs.was
  cases runs.course with
  | expiredLast | expired =>
    cases List.mem_singleton.mp mem
    exact ⟨_, was, rfl⟩
  | @told k n =>
    cases List.mem_singleton.mp mem
    have kind : (n.event d.clock).kind = (n.event .origin).kind := by cases n <;> rfl
    exact absurd (kind.symm.trans expired) (h k _ was n List.mem_cons_self)
  | _ => cases mem

def Unexpired (d : Directory) (id : String) : Prop :=
  ∀ event ∈ d.log, event.kind = .expired → event.snapshot.id ≠ id

theorem unexpiredStep (custody : d.Custody) (tidings : d.Tidings) (h : d.Unexpired id)
    (live : d.registry.records.get? id = some x) (next : d.step a = some e) : e.Unexpired id := by
  obtain ⟨k, before, after, result, told, runs⟩ := stepRuns custody.lined next
  intro event mem expired same
  rw [runs.log] at mem
  rcases List.mem_append.mp mem with old | new
  · exact h event old expired same
  · obtain ⟨round, found, is⟩ := expiryTold tidings runs new expired
    have away := custody.kept.away round.current
      (List.mem_flatMap.mpr ⟨_, memOfCall found, List.mem_cons_self⟩)
    cases live.symm.trans (same ▸ is ▸ away)

end Directory
end ServiceDirectory
