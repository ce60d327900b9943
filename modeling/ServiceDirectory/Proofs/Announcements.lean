import ServiceDirectory.Proofs.Deeds
import ServiceDirectory.Proofs.Publication
import ServiceDirectory.Proofs.Trail

/-! What applying a report does, and who hears of it: every transition that is applied is announced
by a call of its own, which tells of it once, before any later one. -/
namespace ServiceDirectory
open Health (Report)

namespace Registry

def changed (refresh : Bool) (after : Status) (observedAt : Timestamp) (i : Instance) : Instance :=
  let moved := { i with status := after }
  if refresh && after == .up then moved.touch observedAt else moved

theorem changedStatus (refresh : Bool) (after : Status) (observedAt : Timestamp) (i : Instance) :
    (changed refresh after observedAt i).status = after := by
  unfold changed
  split <;> rfl

theorem changedName (refresh : Bool) (after : Status) (observedAt : Timestamp) (i : Instance) :
    (changed refresh after observedAt i).name = i.name := by
  unfold changed
  split <;> rfl

theorem transitionIs (r : Registry) (refresh : Bool) (now : Timestamp) (id : String) (epoch : Nat)
    (after : Status) (observedAt : Timestamp) :
    (r.transition refresh now id epoch after observedAt = (r, none) ∧
      (id ∉ r.inFlight → ∀ x, r.records.get? id = some x → x.epoch = epoch →
        x.snapshot.status = after)) ∨
    ∃ x, id ∉ r.inFlight ∧ r.records.get? id = some x ∧ x.epoch = epoch ∧
      x.snapshot.status ≠ after ∧
      r.transition refresh now id epoch after observedAt =
        ({ r with records := r.records.put id
                    ⟨changed refresh after observedAt x.snapshot, epoch⟩ }.bump
            (changed refresh after observedAt x.snapshot).name,
          some (.statusChange (changed refresh after observedAt x.snapshot) x.snapshot.status
            now)) := by
  unfold transition
  by_cases busy : id ∈ r.inFlight
  · rw [if_pos (List.contains_iff_mem.mpr busy)]
    exact .inl ⟨rfl, fun free => absurd busy free⟩
  · rw [if_neg (fun parked => busy (List.contains_iff_mem.mp parked))]
    cases live : r.records.get? id with
    | none => exact .inl ⟨rfl, fun _ x found => by cases found⟩
    | some x =>
      dsimp only
      by_cases ignored : x.epoch != epoch || x.snapshot.status == after
      · rw [if_pos ignored]
        refine .inl ⟨rfl, fun _ y found own => ?_⟩
        cases found
        simpa [own] using ignored
      · rw [if_neg ignored]
        simp only [Bool.or_eq_true, bne_iff_ne, beq_iff_eq, not_or, ne_eq, Decidable.not_not]
          at ignored
        exact .inr ⟨x, busy, rfl, ignored.1, ignored.2, rfl⟩

theorem applyChanges {r : Registry} {refresh : Bool} {now : Timestamp} {report : Report}
    {event : Event} (tells : (r.apply refresh now report).2 = some event) :
    event.kind = .statusChanged := by
  cases report with
  | passed => cases tells
  | transition id epoch before after result =>
    rcases transitionIs r refresh now id epoch after result.observedAt with
      ⟨same, _⟩ | ⟨x, _, _, _, _, same⟩
    · rw [apply, same] at tells
      cases tells
    · rw [apply, same] at tells
      cases tells
      rfl

end Registry

namespace Directory
variable {d e : Directory} {k : CallId} {a : Action} {past : List Stride}

theorem applyReportIs {report : Report} (next : d.applyReport report = some e) :
    ((d.registry.apply d.settings.refreshOnPass d.clock report).2 = none ∧
      e = { d with
        registry := (d.registry.apply d.settings.refreshOnPass d.clock report).1 }) ∨
    ∃ event, (d.registry.apply d.settings.refreshOnPass d.clock report).2 = some event ∧
      d.order = none ∧
      e = { d with
        registry := (d.registry.apply d.settings.refreshOnPass d.clock report).1,
        order := some d.nextCall }.open_ (.announcing [.stamped event] .done) := by
  cases report with
  | passed => cases next; exact .inl ⟨rfl, rfl⟩
  | transition id epoch before after result =>
    simp only [applyReport] at next
    split at next
    · cases next
    rename_i free
    split at next
    · rename_i registry applied
      cases next
      rw [applied]
      exact .inl ⟨rfl, rfl⟩
    · rename_i registry event applied
      cases next
      rw [applied]
      exact .inr ⟨event, rfl, by simpa using free, rfl⟩

theorem applyReportFree {reports : List Report} {report : Report} (free : d.order = none) :
    { d with reports }.applyReport report =
      match d.registry.apply d.settings.refreshOnPass d.clock report with
      | (registry, none) => some { d with reports, registry }
      | (registry, some event) =>
        some ({ d with reports, registry, order := some d.nextCall }.open_
          (.announcing [.stamped event] .done)) := by
  cases report with
  | passed => rfl
  | transition => simp only [applyReport, free, Option.isSome_none, Bool.false_eq_true, if_false]; rfl

theorem applyNextIs (next : d.step .applyNext = some e) :
    ∃ report rest, d.reports = report :: rest ∧ d.applier = .running ∧
      { d with reports := rest }.applyReport report = some e := by
  simp only [step, applyNext] at next
  split at next
  · cases next
  · rename_i report rest queue
    split at next
    · rename_i runs
      simp only [Bool.and_eq_true, beq_iff_eq] at runs
      exact ⟨report, rest, queue, runs.1, next⟩
    · cases next

end Directory

def Stride.report? (s : Stride) : Option Report :=
  match s.action with
  | .applyNext => s.before.reports.head?
  | .applyDirect report => some report
  | _ => none

def Stride.change? (s : Stride) : Option Event :=
  s.report?.bind fun report =>
    (s.before.registry.apply s.before.settings.refreshOnPass s.before.clock report).2

def Event.changes (e : Event) : Bool := e.kind == .statusChanged

def Notice.change? : Notice → Option Event
  | .plain _ _ => none
  | .stamped event => some event

def Notice.Fits : Notice → Prop
  | .plain kind _ => kind ≠ .statusChanged
  | .stamped event => event.kind = .statusChanged

def changesOf (notices : List Notice) : List Event := notices.filterMap Notice.change?

theorem Notice.fitsTold {n : Notice} (fits : n.Fits) (now : Timestamp) :
    [n.event now].filter Event.changes = changesOf [n] := by
  cases n with
  | plain kind snapshot =>
    have other : (Event.plain kind snapshot now).changes = false := beq_eq_false_iff_ne.mpr fits
    simp [Notice.event, changesOf, Notice.change?, other]
  | stamped event =>
    have own : event.changes = true := beq_iff_eq.mpr fits
    simp [Notice.event, changesOf, Notice.change?, own]

section Turn
variable {r s : Registry} {now : Timestamp} {before after : Option Call} {told : List Event}

theorem plainFits (kind : EventKind) (other : kind ≠ .statusChanged) (came : List Instance) :
    (∀ n ∈ came.map (Notice.plain kind), n.Fits) ∧ changesOf (came.map (Notice.plain kind)) = [] := by
  refine ⟨fun n mem => ?_, List.filterMap_eq_nil_iff.mpr fun n mem => ?_⟩ <;>
    obtain ⟨i, _, rfl⟩ := List.mem_map.mp mem
  · exact other
  · rfl

theorem turnChanges (fits : ∀ n ∈ before.elim [] Call.news, n.Fits)
    (turn : Turn r now before s after told) :
    (∀ n ∈ after.elim [] Call.news, n.Fits) ∧
      (told.filter Event.changes ++ changesOf (after.elim [] Call.news) =
          changesOf (before.elim [] Call.news) ∨
        (before = none ∧ after.any Call.announces = true)) := by
  have silent (quiet : after.any Call.announces = false) : ∀ n ∈ after.elim [] Call.news, n.Fits := by
    rw [quietNews quiet]
    simp
  cases turn with
  | along hands calm =>
    refine ⟨silent hands.after, .inl ?_⟩
    rw [quietNews hands.before, quietNews hands.after]
    rfl
  | @dropped c id parks holds quiet =>
    refine ⟨by simp, .inl ?_⟩
    rw [quietNews (c := some c) quiet]
    rfl
  | @lost c admits quiet =>
    refine ⟨by simp, .inl ?_⟩
    rw [quietNews (c := some c) quiet]
    rfl
  | entered i => exact ⟨(plainFits .registered (by decide) [i]).1, .inl rfl⟩
  | left id live => exact ⟨(plainFits .deregistered (by decide) [_]).1, .inl rfl⟩
  | loaded stored at_ =>
    obtain ⟨fits, none⟩ := plainFits .registered (by decide) (r.load at_ stored).2.1
    exact ⟨fits, .inl none⟩
  | collected at_ timeout holds parks admits quiet =>
    refine ⟨silent quiet, .inl ?_⟩
    rw [quietNews quiet]
    rfl
  | expired round holds parks admits quiet =>
    refine ⟨silent quiet, .inl ?_⟩
    rw [quietNews quiet]
    rfl
  | told n rest =>
    obtain ⟨mine, others⟩ := List.forall_mem_cons.mp fits
    refine ⟨others, .inl ?_⟩
    rw [Notice.fitsTold mine, changesOf, changesOf, ← List.filterMap_append]
    rfl
  | moved => exact ⟨by simp [Call.news, Notice.Fits, Event.statusChange], .inr ⟨rfl, rfl⟩⟩
  | _ => exact ⟨by simp [Call.news], .inl rfl⟩

end Turn

namespace Directory
variable {d e : Directory} {k : CallId} {a : Action} {past : List Stride}

structure Announced (past : List Stride) (d : Directory) : Prop where
  lined : d.Lined
  fits : ∀ n ∈ d.news, n.Fits
  told : d.log.filter Event.changes ++ changesOf d.news = past.filterMap Stride.change?

theorem emptyAnnounced (settings : DirectorySettings) : Announced [] (empty settings) where
  lined := (emptyCustody settings).lined
  fits n mem := by cases mem
  told := rfl

theorem othersOpenQuiet (next : d.step a = some e)
    (other : a ≠ .applyNext ∧ ∀ report, a ≠ .applyDirect report) :
    e.nextCall = d.nextCall ∨ e.order = d.order := by
  have none (ofReport : a = .applyNext ∨ ∃ report, a = .applyDirect report) : False :=
    ofReport.elim other.1 fun ⟨report, same⟩ => other.2 report same
  cases stepDeed next with
  | passed ofReport => exact (none ofReport).elim
  | ignored ofReport => exact (none ofReport).elim
  | moved ofReport => exact (none ofReport).elim
  | _ => first | exact .inl rfl | exact .inr rfl

namespace Announced

theorem same (h : Announced past d) {s : Stride} (log : e.log = d.log) (calls : e.calls = d.calls)
    (lined : e.Lined) (none : s.change? = none) : Announced (past ++ [s]) e := by
  have news : e.news = d.news := by rw [Directory.news, calls, Directory.news]
  refine ⟨lined, news ▸ h.fits, ?_⟩
  rw [log, news, h.told, List.filterMap_append]
  simp [none]

theorem opened (h : Announced past d) {s : Stride} {event : Event} (log : e.log = d.log)
    (calls : e.calls = d.calls ++ [(k, .announcing [.stamped event] .done)]) (lined : e.Lined)
    (kind : event.kind = .statusChanged) (makes : s.change? = some event) :
    Announced (past ++ [s]) e := by
  have news : e.news = d.news ++ [.stamped event] := by
    rw [Directory.news, calls, List.flatMap_append]
    rfl
  refine ⟨lined, fun n mem => ?_, ?_⟩
  · rw [news] at mem
    rcases List.mem_append.mp mem with old | new
    · exact h.fits n old
    · cases List.mem_singleton.mp new
      exact kind
  · rw [log, news, changesOf, List.filterMap_append, ← List.append_assoc, List.filterMap_append,
      ← h.told]
    simp [makes, Notice.change?, changesOf]

theorem report (h : Announced past d) {s : Stride} {reports : List Report} {report : Report}
    (lined : e.Lined) (next : { d with reports }.applyReport report = some e)
    (is : s.change? = (d.registry.apply d.settings.refreshOnPass d.clock report).2) :
    Announced (past ++ [s]) e := by
  rcases applyReportIs next with ⟨none, rfl⟩ | ⟨event, tells, _, rfl⟩
  · exact h.same rfl rfl lined (is.trans none)
  · exact h.opened rfl rfl lined (Registry.applyChanges tells) (is.trans tells)

theorem turn (h : Announced past d) {s : Stride} (next : d.step a = some e)
    (other : a ≠ .applyNext ∧ ∀ report, a ≠ .applyDirect report) (none : s.change? = none) :
    Announced (past ++ [s]) e := by
  obtain ⟨k, before, after, told, happens⟩ := stepTurns h.lined next
  have lined := linedHappens h.lined happens
  rcases happens.news h.lined with ⟨old, new⟩ | ⟨silent, _, _, same⟩
  · obtain ⟨fits, keeps | ⟨rfl, announces⟩⟩ := turnChanges (old ▸ h.fits) happens.turn
    · refine ⟨lined, new ▸ fits, ?_⟩
      rw [happens.log, new, List.filter_append, List.append_assoc, keeps, ← old, h.told,
        List.filterMap_append]
      simp [none]
    · -- Only a report takes the order with the call it opens.
      have free := happens.free announces rfl
      have own : e.order = some k := by rw [happens.order, orderAfter, if_pos announces]
      have opens := happens.opens rfl (by rintro rfl; cases announces)
      rcases othersOpenQuiet next other with still | kept
      · rw [still, opens.1] at opens
        exact absurd opens.2 (Nat.lt_irrefl _)
      · rw [kept, free] at own
        cases own
  · refine ⟨lined, same ▸ h.fits, ?_⟩
    rw [happens.log, same, silent, List.append_nil, h.told, List.filterMap_append]
    simp [none]

end Announced

theorem announcedStep (h : Announced past d) (next : d.step a = some e) :
    Announced (past ++ [⟨d, a, e⟩]) e := by
  obtain ⟨k, before, after, told, happens⟩ := stepTurns h.lined next
  have lined := linedHappens h.lined happens
  cases a with
  | applyNext =>
    obtain ⟨report, rest, queue, _, applied⟩ := applyNextIs next
    refine h.report lined applied ?_
    simp [Stride.change?, Stride.report?, queue]
  | applyDirect report =>
    have applied : { d with reports := d.reports }.applyReport report = some e := next
    exact h.report lined applied rfl
  | _ => exact h.turn next ⟨by simp, by simp⟩ rfl

end Directory
end ServiceDirectory
