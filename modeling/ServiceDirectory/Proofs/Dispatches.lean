import ServiceDirectory.Proofs.Announcements
import ServiceDirectory.Proofs.Manning

/-! The reports on their way from the check loops to the records. A loop and its record each keep a
status of their own; the transitions that are still to be applied lead from the one to the other. -/
namespace ServiceDirectory
open Health (CheckLoop LoopSettings ProbeResult Report)

structure Move where
  before : Status
  after : Status
  deriving DecidableEq, Repr

namespace Health.Report

def epoch : Report → Nat
  | .transition _ epoch _ _ _ => epoch
  | .passed _ epoch _ => epoch

def move? (mark : Mark) : Report → Option Move
  | .transition id epoch before after _ => if (id, epoch) = mark then some ⟨before, after⟩ else none
  | .passed _ _ _ => none

def changing : Report → Bool
  | .transition _ _ _ _ _ => true
  | .passed _ _ _ => false

theorem moveOther {mark : Mark} {report : Report} (other : report.epoch ≠ mark.2) :
    report.move? mark = none := by
  cases report with
  | transition id epoch before after result =>
    exact if_neg fun same : (id, epoch) = mark => other (congrArg Prod.snd same)
  | passed => rfl

end Health.Report

def moves (mark : Mark) (reports : List Report) : List Move := reports.filterMap (·.move? mark)

theorem movesOther {mark : Mark} {reports : List Report}
    (others : ∀ report ∈ reports, report.epoch ≠ mark.2) : moves mark reports = [] :=
  List.filterMap_eq_nil_iff.mpr fun report mem => Health.Report.moveOther (others report mem)

section Head
variable {id : String} {epoch : Nat} {before after : Status} {result : ProbeResult}
  {reports : List Report} {mark : Mark}

theorem movesOwn (own : (id, epoch) = mark) :
    moves mark (.transition id epoch before after result :: reports) =
      ⟨before, after⟩ :: moves mark reports :=
  List.filterMap_cons_some (if_pos own)

theorem movesElse (other : (id, epoch) ≠ mark) :
    moves mark (.transition id epoch before after result :: reports) = moves mark reports :=
  List.filterMap_cons_none (if_neg other)

end Head

inductive Leads : Status → List Move → Status → Prop where
  | here (s : Status) : Leads s [] s
  | next {before after last : Status} {rest : List Move} (changes : before ≠ after)
      (later : Leads after rest last) : Leads before (⟨before, after⟩ :: rest) last

namespace Leads
variable {s t : Status} {way : List Move}

theorem one (h : Leads s way t) {u : Status} (changes : t ≠ u) : Leads s (way ++ [⟨t, u⟩]) u := by
  induction h with
  | here s => exact .next changes (.here u)
  | next first _ ih => exact .next first (ih changes)

theorem fold (h : Leads s way t) : way.foldl (fun _ move => move.after) s = t := by
  induction h with
  | here => rfl
  | next _ _ ih => exact ih

end Leads

def Health.CheckLoop.mark (l : CheckLoop) : Mark := (l.id, l.epoch)

theorem observeIs (settings : LoopSettings) (r : ProbeResult) (l : CheckLoop) :
    ∃ counters passes, (∀ report ∈ passes, report.epoch = l.epoch ∧ report.move? l.mark = none) ∧
      (l.observe settings r = ({ l with counters }, passes) ∨
        ∃ next, next ≠ l.status ∧ l.observe settings r = ({ l with counters, status := next },
          passes ++ [.transition l.id l.epoch l.status next r])) := by
  refine ⟨l.counters.record r.passed, if r.passed && settings.reportPasses then
    [.passed l.id l.epoch r.observedAt] else [], fun report mem => ?_, ?_⟩
  · split at mem
    · cases List.mem_singleton.mp mem
      exact ⟨rfl, rfl⟩
    · cases mem
  · cases moved : Health.nextStatus l.status (l.counters.record r.passed) settings.thresholds with
    | none => exact .inl (by simp only [CheckLoop.observe, moved])
    | some next =>
      exact .inr ⟨next, Health.nextStatusMoves moved, by simp only [CheckLoop.observe, moved]⟩

theorem observeLeads {settings : LoopSettings} {r : ProbeResult} {l m : CheckLoop}
    {reports : List Report} (observed : (m, reports) = l.observe settings r) :
    (∀ report ∈ reports, report.epoch = l.epoch) ∧ ∀ {s : Status} {way : List Move},
      Leads s way l.status → Leads s (way ++ moves l.mark reports) m.status := by
  obtain ⟨counters, passes, own, cases_⟩ := observeIs settings r l
  have quiet : moves l.mark passes = [] :=
    List.filterMap_eq_nil_iff.mpr fun report mem => (own report mem).2
  rcases cases_ with same | ⟨next, changes, same⟩ <;>
    obtain ⟨rfl, rfl⟩ := Prod.mk.inj (observed.trans same)
  · refine ⟨fun report mem => (own report mem).1, fun leads => ?_⟩
    rw [quiet, List.append_nil]
    exact leads
  · refine ⟨fun report mem => ?_, fun leads => ?_⟩
    · rcases List.mem_append.mp mem with mine | last
      · exact (own report mine).1
      · cases List.mem_singleton.mp last
        rfl
    · have way : moves l.mark (passes ++ [.transition l.id l.epoch l.status next r]) =
          [⟨l.status, next⟩] := by
        rw [moves, List.filterMap_append, ← moves, quiet]
        simp [Health.Report.move?, Health.CheckLoop.mark]
      rw [way]
      exact leads.one changes.symm

theorem Registry.applyGone {r : Registry} {report : Report}
    (gone : ∀ id, (r.records.get? id).map (·.epoch) ≠ some report.epoch) (refresh : Bool)
    (now : Timestamp) : r.apply refresh now report = (r, none) := by
  cases report with
  | passed id epoch at_ =>
    simp only [apply, passed]
    split
    · rename_i x live
      split
      · rename_i own
        exact absurd (by rw [live]; exact congrArg some (beq_iff_eq.mp own)) (gone id)
      · rfl
    · rfl
  | transition id epoch before after result =>
    rcases transitionIs r refresh now id epoch after result.observedAt with
      ⟨same, _⟩ | ⟨x, _, live, own, _⟩
    · exact same
    · exact absurd (by rw [live]; exact congrArg some own) (gone id)

structure Registry.Stays (r s : Registry) : Prop where
  running : s.running = r.running
  grows : r.nextEpoch ≤ s.nextEpoch
  kept : ∀ id x, s.records.get? id = some x → id ∉ s.inFlight → id ∉ r.inFlight ∧
    ∃ y, r.records.get? id = some y ∧ y.epoch = x.epoch ∧ y.snapshot.status = x.snapshot.status

namespace Registry.Stays
variable {r s : Registry}

theorem within (running : s.running = r.running) (nextEpoch : s.nextEpoch = r.nextEpoch)
    (records : ∀ id x, s.records.get? id = some x → r.records.get? id = some x)
    (free : ∀ id x, s.records.get? id = some x → id ∉ s.inFlight → id ∉ r.inFlight) : Stays r s :=
  ⟨running, Nat.le_of_eq nextEpoch.symm,
    fun id x live out => ⟨free id x live out, x, records id x live, rfl, rfl⟩⟩

theorem same (r : Registry) : Stays r r := .within rfl rfl (fun _ _ => id) fun _ _ _ => id

theorem parked (id : String) : Stays r (r.park id) :=
  .within rfl rfl (fun _ _ live => live) fun _ _ _ out mem => out (List.mem_cons_of_mem _ mem)

theorem released {id : String} (gone : r.records.get? id = none) : Stays r (r.release id) := by
  refine .within rfl rfl (fun _ _ live => live) fun other x live out busy => ?_
  refine out ((memRelease r id other).mpr ⟨busy, fun same => ?_⟩)
  have live : r.records.get? other = some x := live
  rw [same, gone] at live
  cases live

theorem touched (r : Registry) (id : String) (now : Timestamp) : Stays r (r.touch id now) := by
  refine ⟨rfl, Nat.le_refl _, fun other x live out => ⟨out, ?_⟩⟩
  simp only [touch, Table.getAdjust] at live
  split at live
  · obtain ⟨y, was, rfl⟩ := Option.map_eq_some_iff.mp live
    exact ⟨y, was, rfl, rfl⟩
  · exact ⟨x, live, rfl, rfl⟩

theorem passed (r : Registry) (id : String) (epoch : Nat) (at_ : Timestamp) :
    Stays r (r.passed id epoch at_) := by
  unfold Registry.passed
  split
  · split
    · exact touched r id at_
    · exact same r
  · exact same r

theorem left {id : String} {x : Record} (live : r.records.get? id = some x) :
    Stays r (r.finishRemoval id).1 := by
  obtain ⟨records, inFlight, nextEpoch⟩ := leaveRecords live
  have gone (other : String) (y : Record)
      (there : (r.finishRemoval id).1.records.get? other = some y) :
      other ≠ id ∧ r.records.get? other = some y := by
    rw [records, Table.getRemove] at there
    split at there
    · cases there
    · exact ⟨‹_›, there⟩
  refine .within (Directory.leaveRunning live) nextEpoch (fun other y there => (gone other y there).2)
    fun other y there out busy => out ?_
  rw [inFlight]
  exact (memRelease r id other).mpr ⟨busy, (gone other y there).1⟩

theorem reordered {records : Table Record} (sound : SoundRecords r.records r.nextEpoch)
    (perm : records.Perm r.records) : Stays r { r with records } :=
  .within rfl rfl (fun id _ live => (Table.getPerm sound.distinct perm id).symm.trans live)
    fun _ _ _ => id

end Registry.Stays

namespace Directory
variable {d e : Directory} {a : Action} {k : CallId} {past : List Stride}

theorem expiredStays (custody : d.Custody) {timeout : Nat} {at_ : Timestamp} {r : Registry}
    {took : List Expiry} (expires : d.registry.expire timeout at_ = (r, took)) :
    d.registry.Stays r := by
  obtain ⟨loses, epochs⟩ := Registry.expireLoses custody.sound expires
  have parks := Registry.expelAllParks custody.sound (d.registry.victims timeout at_)
  rw [← Registry.expire, expires] at parks
  refine .within (expireDismisses custody expires).running epochs (fun id x live => ?_)
    fun id _ _ out busy => out ((parks id).mpr (.inl busy))
  rw [← loses.others id, live]
  intro mem
  obtain ⟨i, hi, rfl⟩ := List.mem_map.mp mem
  rw [loses.left i hi] at live
  cases live

structure Dispatched (d : Directory) : Prop where
  early : ∀ report ∈ d.reports, report.epoch < d.registry.nextEpoch
  resting : d.registry.running = false → d.reports = []
  leads : ∀ l ∈ d.loops, ∀ x, d.registry.records.get? l.check.id = some x →
    x.epoch = l.check.epoch → l.check.id ∉ d.registry.inFlight →
    Leads x.snapshot.status (moves l.check.mark d.reports) l.check.status

theorem emptyDispatched (settings : DirectorySettings) : (empty settings).Dispatched where
  early report mem := by cases mem
  resting _ := rfl
  leads l mem := by cases mem

def Same (before after : List RunningLoop) : Prop :=
  ∀ m ∈ after, ∃ l ∈ before, m.check.mark = l.check.mark ∧ m.check.status = l.check.status

theorem sameCancelled (d : Directory) (epochs : List Nat) :
    Same d.loops (d.cancelLoops epochs).loops := by
  intro m mem
  obtain ⟨l, there, rfl⟩ := List.mem_map.mp mem
  refine ⟨l, there, ?_⟩
  split <;> exact ⟨rfl, rfl⟩

theorem samePut {epoch : Nat} {l : RunningLoop} {phase : Health.LoopPhase}
    (found : d.loop? epoch = some l) :
    Same d.loops (d.putLoop { l with check := { l.check with phase } }).loops := by
  intro m mem
  obtain ⟨old, there, rfl⟩ := List.mem_map.mp mem
  split
  · exact ⟨l, List.mem_of_find?_eq_some found, rfl, rfl⟩
  · exact ⟨old, there, rfl, rfl⟩

namespace Dispatched

theorem quiet (h : d.Dispatched) (stays : d.registry.Stays e.registry)
    (loops : Same d.loops e.loops) (reports : e.reports = d.reports) : e.Dispatched where
  early report mem := Nat.lt_of_lt_of_le (h.early report (reports ▸ mem)) stays.grows
  resting rests := reports.trans (h.resting (stays.running.symm.trans rests))
  leads m mem x live own out := by
    obtain ⟨l, there, mark, status⟩ := loops m mem
    obtain ⟨id, epoch⟩ := Prod.mk.inj mark
    obtain ⟨free, y, was, old, kept⟩ := stays.kept _ x live out
    rw [mark, status, reports, ← kept]
    rw [id] at was free
    exact h.leads l there y was (old.trans (own.trans epoch)) free

theorem aside (h : d.Dispatched) (stays : d.registry.Stays e.registry) (loops : e.loops = d.loops)
    (reports : e.reports = d.reports) : e.Dispatched :=
  h.quiet stays (fun m mem => ⟨m, loops ▸ mem, rfl, rfl⟩) reports

theorem arrived (h : d.Dispatched) (manning : Manning past d) {r : Registry}
    {orders : List LoopOrder} (enlists : r.Enlists e.registry orders)
    (records : r.records = d.registry.records) (running : r.running = d.registry.running)
    (nextEpoch : r.nextEpoch = d.registry.nextEpoch) (loops : e.loops = (d.startLoops orders).loops)
    (reports : e.reports = d.reports)
    (free : ∀ id x, d.registry.records.get? id = some x → id ∉ e.registry.inFlight →
      id ∉ d.registry.inFlight) : e.Dispatched := by
  have grows := nextEpoch ▸ enlists.grows
  refine ⟨fun report mem => Nat.lt_of_lt_of_le (h.early report (reports ▸ mem)) grows,
    fun rests => reports.trans (h.resting (running.symm.trans (enlists.running.symm.trans rests))),
    fun l mem x live own out => ?_⟩
  rw [loops] at mem
  rw [reports]
  rcases List.mem_append.mp mem with old | new
  · have early := manning.early l old
    rcases enlists.records _ x live with ⟨was, _⟩ | ⟨late, _⟩
    · rw [records] at was
      exact h.leads l old x was own (free _ x was out)
    · omega
  · obtain ⟨o, order, rfl⟩ := List.mem_map.mp new
    obtain ⟨late, _, here⟩ := enlists.ordered o order
    cases here.symm.trans live
    rw [movesOther fun report waits same => ?_]
    · exact .here _
    · have early := h.early report waits
      rw [same, ← nextEpoch] at early
      exact absurd early (Nat.not_lt.mpr late)

theorem launched (h : d.Dispatched) (manning : Manning past d) (custody : d.Custody)
    (rests : d.registry.running = false) : (d.launch k).Dispatched := by
  refine ⟨h.early, nofun, fun l mem x live own out => ?_⟩
  have loops : (d.launch k).loops = d.loops ++ d.registry.run.2.map fun o =>
      ⟨.ofInstance o.snapshot o.epoch d.now, false⟩ := rfl
  have none : (d.launch k).reports = [] := h.resting rests
  rw [loops, (manning.resting rests).2, List.nil_append, Registry.runIs, List.map_map] at mem
  obtain ⟨⟨id, y⟩, entry, rfl⟩ := List.mem_map.mp mem
  obtain ⟨was, _⟩ := Registry.memUntended custody.sound.distinct entry
  have named : y.snapshot.id = id := custody.sound.own id y was
  have live : d.registry.records.get? y.snapshot.id = some x := live
  rw [named, was] at live
  cases live
  rw [none]
  exact .here _

theorem probed (h : d.Dispatched) (manning : Manning past d) {epoch : Nat} {l : RunningLoop}
    {check : CheckLoop} {reports : List Report} (found : d.loop? epoch = some l)
    (ended : l.check.endProbe d.settings.loop d.now d.clock = some (check, reports)) :
    ({ d.putLoop { l with check } with reports := d.reports ++ reports } : Directory).Dispatched := by
  obtain ⟨due, failure, observed⟩ := CheckLoop.endIs ended
  obtain ⟨epochs, leads⟩ := observeLeads observed
  have there := List.mem_of_find?_eq_some found
  obtain ⟨id, own⟩ := CheckLoop.endKeepsOwner ended
  have mark : check.mark = l.check.mark := Prod.ext id own
  refine ⟨fun report mem => ?_, fun rests => ?_, fun m mem x live same out => ?_⟩
  · rcases List.mem_append.mp mem with old | new
    · exact h.early report old
    · rw [epochs report new]
      exact manning.early l there
  · rw [(manning.resting rests).2] at there
    cases there
  · have appended (mark : Mark) :
        moves mark (d.reports ++ reports) = moves mark d.reports ++ moves mark reports :=
      List.filterMap_append
    obtain ⟨old, inside, rfl⟩ := List.mem_map.mp mem
    by_cases mine : old.check.epoch = check.epoch
    · simp only [mine, beq_self_eq_true, if_true] at live same out ⊢
      rw [id] at live out
      rw [appended, mark]
      exact leads (h.leads l there x live (same.trans own) out)
    · simp only [beq_eq_false_iff_ne.mpr mine, Bool.false_eq_true, if_false] at live same out ⊢
      have others : moves old.check.mark reports = [] := movesOther fun report mem its =>
        mine (its.symm.trans ((epochs report mem).trans own.symm))
      rw [appended, others, List.append_nil]
      exact h.leads old inside x live same out

theorem popped (h : d.Dispatched) {report : Report} {rest : List Report}
    (queue : d.reports = report :: rest)
    (next : { d with reports := rest }.applyReport report = some e) : e.Dispatched := by
  have early : ∀ waits ∈ rest, waits.epoch < d.registry.nextEpoch := fun waits mem =>
    h.early waits (queue ▸ List.mem_cons_of_mem _ mem)
  have runs : d.registry.running ≠ false := fun rests => by
    have none := h.resting rests
    rw [queue] at none
    cases none
  cases report with
  | passed id epoch at_ =>
    cases next
    have stays := Registry.Stays.passed d.registry id epoch at_
    refine ⟨fun waits mem => Nat.lt_of_lt_of_le (early waits mem) stays.grows,
      fun rests => absurd (stays.running.symm.trans rests) runs, fun l mem x live own out => ?_⟩
    obtain ⟨free, y, was, old, kept⟩ := stays.kept _ x live out
    have leads := h.leads l mem y was (old.trans own) free
    rw [queue] at leads
    exact kept ▸ leads
  | transition id epoch before after result =>
    obtain ⟨registry, loops, reports⟩ : e.registry = (d.registry.transition
        d.settings.refreshOnPass d.clock id epoch after result.observedAt).1 ∧
          e.loops = d.loops ∧ e.reports = rest := by
      rcases applyReportIs next with ⟨_, rfl⟩ | ⟨_, _, _, rfl⟩ <;> exact ⟨rfl, rfl, rfl⟩
    rcases d.registry.transitionIs d.settings.refreshOnPass d.clock id epoch after
      result.observedAt with ⟨same, stood⟩ | ⟨y, free, was, its, _, same⟩ <;> rw [same] at registry
    · refine ⟨by rw [reports, registry]; exact early,
        by rw [registry]; exact fun rests => absurd rests runs, fun l mem x live own out => ?_⟩
      rw [loops] at mem
      rw [registry] at live out
      have leads := h.leads l mem x live own out
      rw [queue] at leads
      rw [reports]
      by_cases mine : (id, epoch) = l.check.mark
      · -- The head of the queue cannot be a move to the status that the record has.
        rw [movesOwn mine] at leads
        obtain ⟨named, numbered⟩ := Prod.mk.inj mine
        cases leads with
        | next changes => exact absurd (stood (named ▸ out) x (named ▸ live) (numbered ▸ own)) changes
      · rw [movesElse mine] at leads
        exact leads
    · refine ⟨by rw [reports, registry]; exact early,
        by rw [registry]; exact fun rests => absurd rests runs, fun l mem x live own out => ?_⟩
      rw [loops] at mem
      rw [registry] at live out
      rw [reports]
      have live : (d.registry.records.put id ⟨_, epoch⟩).get? l.check.id = some x := live
      rw [Table.getPut] at live
      split at live
      · rename_i named
        cases live
        have leads := h.leads l mem y (named ▸ was) (its.trans own) (named ▸ free)
        rw [queue, movesOwn (Prod.ext named.symm own)] at leads
        cases leads with
        | next changes later =>
          rw [Registry.changedStatus]
          exact later
      · rename_i other
        have leads := h.leads l mem x live own out
        rwa [queue, movesElse fun mine => other (congrArg Prod.fst mine).symm] at leads

end Dispatched

theorem dispatchedStep {settings : DirectorySettings} (watched : Watched settings past d)
    (h : d.Dispatched) (kept : a.abandons = false) (queued : ∀ report, a ≠ .applyDirect report)
    (stays : a ≠ .begin .shutdown) (next : d.step a = some e) : e.Dispatched := by
  obtain ⟨_, balanced, unshut, manning⟩ := watched
  have custody := balanced.custody
  have closing {k : CallId} {c : Call} (found : d.call? k = some c) (closes : c.closes = true) :
      e.Dispatched := by
    have open_ := unshut.open_ _ (memOfCall found)
    rw [closes] at open_
    cases open_
  by_cases pops : a = .applyNext
  · subst pops
    obtain ⟨report, rest, queue, _, applied⟩ := applyNextIs next
    exact h.popped queue applied
  have fails (ofReport : a = .applyNext ∨ ∃ report, a = .applyDirect report) : e.Dispatched :=
    (ofReport.elim pops fun ⟨report, same⟩ => queued report same).elim
  cases stepDeed next with
  | heard => exact h.aside (.touched _ _ _) rfl rfl
  | removing => exact h.quiet (.within rfl rfl (fun _ _ live => live) fun _ _ _ out mem =>
      out (List.mem_cons_of_mem _ mem)) (sameCancelled _ _) rfl
  | closing => exact absurd rfl stays
  | reserved => exact h.aside (.parked _) rfl rfl
  | @entered k i found =>
    refine h.arrived manning (Registry.enterEnlists (commitFree custody found)) rfl rfl rfl rfl rfl ?_
    refine fun id x live out busy => out ((Registry.memRelease _ _ _).mpr ⟨busy, fun same => ?_⟩)
    rw [same, custody.kept.vacant i (List.mem_flatMap.mpr ⟨_, memOfCall found, by simp [Call.admits]⟩)]
      at live
    cases live
  | left found live => exact h.aside (.left live) rfl rfl
  | missed found gone => exact h.aside (.released gone) rfl rfl
  | foundNone found expires =>
    exact h.quiet (expiredStays custody expires) (sameCancelled _ _) rfl
  | collected found expires =>
    exact h.quiet (expiredStays custody expires) (sameCancelled _ _) rfl
  | @releasing k round found =>
    exact h.aside (.released (custody.kept.away round.current
      (List.mem_flatMap.mpr ⟨_, memOfCall found, List.mem_cons_self⟩))) rfl rfl
  | @loaded k stored at_ found =>
    have same := (Registry.loadGains d.registry at_ stored).inFlight
    exact h.arrived manning (Registry.loadEnlists d.registry at_ stored) rfl rfl rfl rfl rfl
      fun id _ _ out busy => out (by rwa [← same] at busy)
  | launched found => exact h.launched manning custody (unshut.launches _ (memOfCall found) rfl).2
  | drained found => exact closing found rfl
  | stilled found => exact closing found rfl
  | joined found => exact closing found rfl
  | @unsaved k i failure found =>
    exact h.aside (.released (custody.kept.vacant i
      (List.mem_flatMap.mpr ⟨_, memOfCall found, List.mem_singleton_self i⟩))) rfl rfl
  | dropped => cases kept
  | passed ofReport => exact fails ofReport
  | ignored ofReport => exact fails ofReport
  | moved ofReport => exact fails ofReport
  | probing found runs begun =>
    obtain ⟨phase, rfl⟩ := CheckLoop.beginIs begun
    exact h.quiet (.same _) (samePut found) rfl
  | probed found runs ended => exact h.probed manning found ended
  | ceased => exact h.quiet (.same _) (fun l mem => ⟨l, (List.mem_filter.mp mem).1, rfl, rfl⟩) rfl
  | reordered perm => exact h.aside (.reordered custody.sound perm) rfl rfl
  | _ => exact h.aside (.same _) rfl rfl

theorem applierRuns (unshut : d.Unshut) (h : d.started = true → d.applier = .running)
    (next : d.step a = some e) : e.started = true → e.applier = .running := by
  by_cases ends : a = .endApplier
  · subst ends
    simp [step, endApplier, unshut.cancelled] at next
  · cases stepDeed next with
    | starting => exact fun _ => rfl
    | broke => exact fun _ => rfl
    | applierEnded => exact absurd rfl ends
    | _ => exact h

theorem forsakesNone {s : Stride} (kept : s.action.abandons = false) : s.forsakes = [] := by
  unfold Stride.forsakes Stride.dropped?
  split
  · rename_i k drops
    rw [drops] at kept
    cases kept
  · rfl

structure Dispatching (settings : DirectorySettings) (past : List Stride) (d : Directory) : Prop where
  watched : Watched settings past d
  unforsaken : forsaken past = []
  applies : d.started = true → d.applier = .running
  dispatched : d.Dispatched
  announced : Announced past d

theorem emptyDispatching (settings : DirectorySettings) :
    Dispatching settings [] (empty settings) where
  watched := emptyWatched settings
  unforsaken := rfl
  applies started := by cases started
  dispatched := emptyDispatched settings
  announced := emptyAnnounced settings

theorem dispatchingStep {settings : DirectorySettings} (probes : settings.health.interval ≠ 0)
    (h : Dispatching settings past d) (kept : a.abandons = false)
    (queued : ∀ report, a ≠ .applyDirect report) (stays : a ≠ .begin .shutdown)
    (next : d.step a = some e) : Dispatching settings (past ++ [⟨d, a, e⟩]) e where
  watched := watchedStep probes h.watched stays next
  unforsaken := by
    rw [forsakenNext, h.unforsaken]
    exact forsakesNone kept
  applies := applierRuns h.watched.unshut h.applies next
  dispatched := dispatchedStep h.watched h.dispatched kept queued stays next
  announced := announcedStep h.announced next

/-- No change of a status is lost, told twice, or given to another registration: each live record
that no call has its hands on has a loop, whose status it will have when the reports that wait have
been applied; each of those finds the status it starts from. -/
structure Delivers (past : List Stride) (d : Directory) : Prop where
  tracked : d.registry.running = true → ∀ id x, d.registry.records.get? id = some x →
    id ∉ d.registry.inFlight → ∃ l, d.loop? x.epoch = some l ∧ l.check.id = id ∧
      l.cancelled = false ∧
      (moves (id, x.epoch) d.reports).foldl (fun _ move => move.after) x.snapshot.status =
        l.check.status
  applied : ∀ id epoch before after result rest,
    d.reports = .transition id epoch before after result :: rest →
    ∀ x, d.registry.records.get? id = some x → x.epoch = epoch → id ∉ d.registry.inFlight →
      x.snapshot.status = before ∧ before ≠ after ∧ (d.order = none →
        d.step .applyNext = some
          ({ d with
              reports := rest, order := some d.nextCall,
              registry := { d.registry with
                records := d.registry.records.put id ⟨Registry.changed d.settings.refreshOnPass after
                  result.observedAt x.snapshot, epoch⟩ }.bump x.snapshot.name }.open_
            (.announcing [.stamped (.statusChange (Registry.changed d.settings.refreshOnPass after
              result.observedAt x.snapshot) before d.clock)] .done)))
  told : d.log.filter Event.changes ++ changesOf d.news = past.filterMap Stride.change?
  ended : ∀ p ∈ ledger past, p.cause.arrives = false → ∀ report rest,
    d.reports = report :: rest → report.epoch = p.record.epoch →
      (report.changing = true → d.order = none) →
      d.step .applyNext = some { d with reports := rest }
  once : ((arrivals (ledger past)).map (·.2)).Nodup

theorem Manning.finds (h : Manning past d) {l : RunningLoop} (mem : l ∈ d.loops) :
    d.loop? l.check.epoch = some l := by
  cases found : d.loop? l.check.epoch with
  | none => simpa using List.find?_eq_none.mp found l mem
  | some m =>
    have same : m.check.epoch = l.check.epoch := by simpa using List.find?_some found
    rw [h.sole (List.mem_of_find?_eq_some found) mem same]

namespace Dispatching
variable {settings : DirectorySettings}

theorem tracks (h : Dispatching settings past d) (runs : d.registry.running = true) {id : String}
    {x : Record} (live : d.registry.records.get? id = some x) (free : id ∉ d.registry.inFlight) :
    ∃ l ∈ d.loops, l.check.mark = (id, x.epoch) ∧ l.cancelled = false ∧
      Leads x.snapshot.status (moves (id, x.epoch) d.reports) l.check.status := by
  rcases h.watched.manning.manned runs id x live with mans | ⟨y, mem, removes⟩ | gone
  · obtain ⟨l, there, own, its, still⟩ := mans.loop
    have mark : l.check.mark = (id, x.epoch) := Prod.ext own its
    have leads := h.dispatched.leads l there x (own ▸ live) its.symm (own ▸ free)
    exact ⟨l, there, mark, still, mark ▸ leads⟩
  · have busy := h.watched.balanced.custody.kept.inFlight id
      (List.mem_flatMap.mpr ⟨y, mem, Call.removesParked _ removes⟩)
    exact absurd busy free
  · rw [h.unforsaken] at gone
    cases gone

theorem takes (h : Dispatching settings past d) {report : Report} {rest : List Report}
    (queue : d.reports = report :: rest) :
    d.registry.running = true ∧
      d.step .applyNext = { d with reports := rest }.applyReport report := by
  have runs : d.registry.running = true := Bool.not_eq_false _ ▸ fun rests => by
    have none := h.dispatched.resting rests
    rw [queue] at none
    cases none
  have applies := h.applies (h.watched.unshut.runs runs)
  exact ⟨runs, by simp [step, applyNext, queue, applies, h.watched.unshut.cancelled]⟩

end Dispatching

theorem applyReportGone {report : Report} {rest : List Report}
    (gone : ∀ id, (d.registry.records.get? id).map (·.epoch) ≠ some report.epoch)
    (free : report.changing = true → d.order = none) :
    { d with reports := rest }.applyReport report = some { d with reports := rest } := by
  have stood := Registry.applyGone gone d.settings.refreshOnPass d.clock
  cases report with
  | passed id epoch at_ =>
    have same : d.registry.passed id epoch at_ = d.registry := congrArg Prod.fst stood
    simp only [applyReport, same]
  | transition => rw [applyReportFree (free rfl), stood]

theorem statusUpdatesArriveOnce {settings : DirectorySettings} {actions : List Action}
    (run : (empty settings).steps actions = some d) (probes : settings.health.interval ≠ 0)
    (kept : ∀ a ∈ actions, a.abandons = false) (queued : ∀ report, .applyDirect report ∉ actions)
    (stays : .begin .shutdown ∉ actions) : Delivers ((empty settings).trail actions) d := by
  have h : Dispatching settings ((empty settings).trail actions) d :=
    trailKeeps (emptyDispatching settings) run fun s mem next past h => by
      have acts := trailActions mem
      exact dispatchingStep probes h (kept _ acts) (fun report same => queued report (same ▸ acts))
        (fun same => stays (same ▸ acts)) next
  refine ⟨fun runs id x live free => ?_,
    fun id epoch before after result rest queue x live own free => ?_, h.announced.told,
    fun p mem departs report rest queue own free => ?_, h.watched.balanced.once⟩
  · obtain ⟨l, there, mark, still, leads⟩ := h.tracks runs live free
    obtain ⟨named, its⟩ := Prod.mk.inj mark
    exact ⟨l, its ▸ h.watched.manning.finds there, named, still, leads.fold⟩
  · obtain ⟨runs, takes⟩ := h.takes queue
    obtain ⟨l, _, _, _, leads⟩ := h.tracks runs live free
    rw [queue, movesOwn (by rw [own])] at leads
    cases leads with
    | next changes =>
      refine ⟨rfl, changes, fun order => ?_⟩
      rw [takes, applyReportFree order, Registry.apply]
      rcases d.registry.transitionIs d.settings.refreshOnPass d.clock id epoch after
        result.observedAt with ⟨_, stood⟩ | ⟨y, _, was, _, _, same⟩
      · exact absurd (stood free x live own) changes
      · cases live.symm.trans was
        rw [same, Registry.changedName]
  · obtain ⟨_, takes⟩ := h.takes queue
    have gone (id : String) : (d.registry.records.get? id).map (·.epoch) ≠ some report.epoch :=
      own ▸ h.watched.balanced.gone mem departs id
    exact takes.trans (applyReportGone gone free)

def comesBack : List Action :=
  [.begin .start, .proceed 0, .begin (.register (.fresh "a" "web" "h:1" .origin)), .proceed 1,
    .settle 1 none, .proceed 1, .proceed 1, .proceed 1, .beginProbe 1 .pass, .endProbe 1,
    .begin (.deregister "a"), .endLoop 1, .proceed 2, .settle 2 none, .proceed 2, .proceed 2,
    .proceed 2, .begin (.register (.fresh "a" "web" "h:1" .origin)), .proceed 3, .settle 3 none,
    .proceed 3, .proceed 3, .proceed 3, .beginProbe 2 .pass, .endProbe 2]

theorem comesBackDelivers :
    ∃ d, (empty Settings.standard.directory).steps comesBack = some d ∧
      d.reports.map Report.epoch = [1, 2] ∧
      (d.registry.records.get? "a").map (fun x => (x.epoch, x.snapshot.status)) =
        some (2, .starting) ∧
      Delivers ((empty Settings.standard.directory).trail comesBack) d := by
  obtain ⟨d, run, waits, live⟩ : ∃ d,
      (empty Settings.standard.directory).steps comesBack = some d ∧
      d.reports.map Report.epoch = [1, 2] ∧
      (d.registry.records.get? "a").map (fun x => (x.epoch, x.snapshot.status)) =
        some (2, .starting) := ⟨_, rfl, by decide +kernel, by decide +kernel⟩
  exact ⟨d, run, waits, live, statusUpdatesArriveOnce run (by decide) (by decide)
    (fun report => by simp [comesBack]) (by decide)⟩

end Directory
end ServiceDirectory
