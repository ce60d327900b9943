import ServiceDirectory.Proofs.Registrations

/-! What a run enters of registrations that began and that ended: by which call, and whether that
was a registration, a bootstrap, a removal or a sweep. The ids and epochs that came, less those that
went, are the ones that are live. -/
namespace ServiceDirectory
open Registry (Gains Loses)

inductive Cause where
  | registered
  | loaded
  | deregistered
  | evicted
  deriving DecidableEq, Repr

def Cause.arrives : Cause → Bool
  | .registered => true
  | .loaded => true
  | .deregistered => false
  | .evicted => false

def Call.cause? : Call → Option Cause
  | .entering _ => some .registered
  | .loading _ _ => some .loaded
  | .leaving _ => some .deregistered
  | .collecting _ => some .evicted
  | _ => none

structure Passage where
  call : CallId
  cause : Cause
  record : Record

namespace Stride

def passing (s : Stride) (cause : Cause) : List Record :=
  if cause.arrives then s.after.registry.without s.before.registry
  else s.before.registry.without s.after.registry

def passages (s : Stride) : List Passage :=
  match s.action with
  | .proceed k =>
    match (s.before.call? k).bind Call.cause? with
    | some cause => (s.passing cause).map (⟨k, cause, ·⟩)
    | none => []
  | _ => []

end Stride

def ledger (past : List Stride) : List Passage := past.flatMap Stride.passages

def arrivals (passages : List Passage) : List Mark :=
  (passages.filter (·.cause.arrives)).map (·.record.mark)

def departures (passages : List Passage) : List Mark :=
  (passages.filter (!·.cause.arrives)).map (·.record.mark)

theorem ledgerNext (past : List Stride) (s : Stride) :
    ledger (past ++ [s]) = ledger past ++ s.passages := by
  simp [ledger]

section Append
variable (ps qs : List Passage)

theorem arrivalsAppend : arrivals (ps ++ qs) = arrivals ps ++ arrivals qs := by simp [arrivals]

theorem departuresAppend : departures (ps ++ qs) = departures ps ++ departures qs := by
  simp [departures]

end Append

section OneCause
variable {k : CallId} {cause : Cause} (records : List Record)

theorem arrivalsOf (arrives : cause.arrives = true) :
    arrivals (records.map (⟨k, cause, ·⟩)) = records.map Record.mark := by
  simp [arrivals, List.filter_map, Function.comp_def, arrives]

theorem departuresOf (departs : cause.arrives = false) :
    departures (records.map (⟨k, cause, ·⟩)) = records.map Record.mark := by
  simp [departures, List.filter_map, Function.comp_def, departs]

theorem arrivalsNone (departs : cause.arrives = false) :
    arrivals (records.map (⟨k, cause, ·⟩)) = [] := by
  simp [arrivals, List.filter_map, Function.comp_def, departs]

theorem departuresNone (arrives : cause.arrives = true) :
    departures (records.map (⟨k, cause, ·⟩)) = [] := by
  simp [departures, List.filter_map, Function.comp_def, arrives]

end OneCause

namespace Directory
variable {d e : Directory} {a : Action} {k : CallId} {c : Call}

theorem passagesOf (found : d.call? k = some c) {cause : Cause} (acts : c.cause? = some cause)
    (e : Directory) :
    (⟨d, .proceed k, e⟩ : Stride).passages =
      ((⟨d, .proceed k, e⟩ : Stride).passing cause).map (⟨k, cause, ·⟩) := by
  simp [Stride.passages, found, acts]

theorem passagesNone (found : d.call? k = some c) (idle : c.cause? = none) (e : Directory) :
    (⟨d, .proceed k, e⟩ : Stride).passages = [] := by
  simp [Stride.passages, found, idle]

theorem passageOf {p : Passage} (mem : p ∈ (⟨d, a, e⟩ : Stride).passages) :
    ∃ c, d.call? p.call = some c ∧ c.cause? = some p.cause ∧ a = .proceed p.call ∧
      p.record ∈ (⟨d, a, e⟩ : Stride).passing p.cause := by
  simp only [Stride.passages] at mem
  split at mem
  · split at mem
    · rename_i cause acts
      obtain ⟨c, found, acts⟩ := Option.bind_eq_some_iff.mp acts
      obtain ⟨x, own, rfl⟩ := List.mem_map.mp mem
      exact ⟨c, found, acts, rfl, own⟩
    · cases mem
  · cases mem

theorem passagesReport (ofReport : a = .applyNext ∨ ∃ report, a = .applyDirect report)
    (e : Directory) : (⟨d, a, e⟩ : Stride).passages = [] := by
  rcases ofReport with rfl | ⟨report, rfl⟩ <;> rfl

structure Passes (s : Stride) : Prop where
  came : arrivals s.passages = (s.after.registry.without s.before.registry).map Record.mark
  went : departures s.passages = (s.before.registry.without s.after.registry).map Record.mark
  late : ∀ x ∈ s.after.registry.without s.before.registry, s.before.registry.nextEpoch ≤ x.epoch
  grows : s.before.registry.nextEpoch ≤ s.after.registry.nextEpoch
  apart : s.before.registry.Apart → s.after.registry.Apart

namespace Passes

theorem still (left : SoundRecords d.registry.records d.registry.nextEpoch)
    (right : SoundRecords e.registry.records e.registry.nextEpoch)
    (none : (⟨d, a, e⟩ : Stride).passages = [])
    (epochs : ∀ id, (e.registry.records.get? id).map (·.epoch) =
      (d.registry.records.get? id).map (·.epoch))
    (nextEpoch : e.registry.nextEpoch = d.registry.nextEpoch) : Passes ⟨d, a, e⟩ := by
  have gained := Registry.sameWithout right left fun id => (epochs id).symm
  have lost := Registry.sameWithout left right epochs
  refine ⟨?_, ?_, ?_, Nat.le_of_eq nextEpoch.symm, fun apart => apart.same epochs⟩
  · rw [none, gained]; rfl
  · rw [none, lost]; rfl
  · rw [gained]; simp

theorem idle (left : SoundRecords d.registry.records d.registry.nextEpoch)
    (right : SoundRecords e.registry.records e.registry.nextEpoch)
    (found : d.call? k = some c) (idle : c.cause? = none)
    (records : e.registry.records = d.registry.records)
    (nextEpoch : e.registry.nextEpoch = d.registry.nextEpoch) : Passes ⟨d, .proceed k, e⟩ :=
  .still left right (passagesNone found idle e) (fun id => by rw [records]) nextEpoch

theorem gaining (left : SoundRecords d.registry.records d.registry.nextEpoch)
    (right : SoundRecords e.registry.records e.registry.nextEpoch)
    (found : d.call? k = some c) {cause : Cause} (acts : c.cause? = some cause)
    (arrives : cause.arrives = true) {r : Registry} (records : r.records = d.registry.records)
    (nextEpoch : r.nextEpoch = d.registry.nextEpoch) {came : List Instance}
    (gains : Gains r e.registry came)
    (apart : d.registry.Apart → e.registry.Apart) : Passes ⟨d, .proceed k, e⟩ := by
  have sound : SoundRecords r.records r.nextEpoch := by rw [records, nextEpoch]; exact left
  have lost : d.registry.without e.registry = [] := by
    rw [← gains.losesNone sound right, Registry.without, ← records, Registry.without]
  have late : ∀ x ∈ e.registry.without d.registry, d.registry.nextEpoch ≤ x.epoch := by
    rw [← nextEpoch, Registry.without, Registry.marks, ← records]
    exact gains.late sound right
  have mine := passagesOf found acts e
  simp only [Stride.passing, arrives, if_true] at mine
  refine ⟨?_, ?_, late, nextEpoch ▸ gains.epochs, apart⟩
  · rw [mine, arrivalsOf _ arrives]
  · rw [mine, departuresNone _ arrives, lost]; rfl

theorem losing (left : SoundRecords d.registry.records d.registry.nextEpoch)
    (right : SoundRecords e.registry.records e.registry.nextEpoch)
    (found : d.call? k = some c) {cause : Cause} (acts : c.cause? = some cause)
    (departs : cause.arrives = false) {gone : List Instance}
    (loses : Loses d.registry e.registry gone)
    (nextEpoch : e.registry.nextEpoch = d.registry.nextEpoch) : Passes ⟨d, .proceed k, e⟩ := by
  have gained := loses.addsNone left right
  have mine := passagesOf found acts e
  simp only [Stride.passing, departs, Bool.false_eq_true, if_false] at mine
  refine ⟨?_, ?_, ?_, Nat.le_of_eq nextEpoch.symm, loses.apart⟩
  · rw [mine, arrivalsNone _ departs, gained]; rfl
  · rw [mine, departuresOf _ departs]
  · rw [gained]; simp

end Passes

theorem commitFree (custody : d.Custody) {i : Instance} (found : d.call? k = some (.entering i)) :
    (d.registry.release i.id).busy i.id = false := by
  have vacant := custody.kept.vacant i
    (List.mem_flatMap.mpr ⟨_, memOfCall found, List.mem_singleton_self i⟩)
  exact (Registry.freeIff _ _).mpr
    ⟨vacant, fun mem => ((Registry.memRelease _ _ _).mp mem).2 rfl⟩

theorem commitGains (custody : d.Custody) {i : Instance} (found : d.call? k = some (.entering i)) :
    Gains (d.registry.release i.id) (d.registry.commit i).1 [i] :=
  Registry.enterGains _ i (commitFree custody found)

theorem passesStep (custody : d.Custody) (next : d.step a = some e) : Passes ⟨d, a, e⟩ := by
  have left := custody.sound
  have right := (custodyStep custody next).sound
  cases stepDeed next with
  | heard => exact .still left right rfl (Registry.touchEpochs _ _ _) rfl
  | turnedAway found => exact .idle left right found rfl rfl rfl
  | reserved found => exact .idle left right found rfl rfl rfl
  | @entered k i found =>
    exact .gaining (r := d.registry.release i.id) left right found rfl rfl rfl rfl
      (commitGains custody found)
      fun apart => Registry.enterApart (r := d.registry.release i.id) left apart i
  | quieted found => exact .idle left right found rfl rfl rfl
  | left found live =>
    obtain ⟨records, _, nextEpoch⟩ := Registry.leaveRecords live
    exact .losing left right found rfl rfl (Registry.removeLoses left live records) nextEpoch
  | @missed k id found =>
    have loses : Loses d.registry (d.registry.release id) [] :=
      ⟨.nil, by simp, by simp, fun _ _ => rfl⟩
    exact .losing left right found rfl rfl loses rfl
  | foundNone found expires =>
    obtain ⟨loses, epochs⟩ := Registry.expireLoses left expires
    exact .losing left right found rfl rfl loses epochs
  | collected found expires =>
    obtain ⟨loses, epochs⟩ := Registry.expireLoses left expires
    exact .losing left right found rfl rfl loses epochs
  | loaded found =>
    exact .gaining left right found rfl rfl rfl rfl (Registry.loadGains _ _ _)
      fun apart => Registry.loadApart left apart _ _
  | hushed found => exact .idle left right found rfl rfl rfl
  | releasing found => exact .idle left right found rfl rfl rfl
  | expiredLast found => exact .idle left right found rfl rfl rfl
  | expired found => exact .idle left right found rfl rfl rfl
  | told found => exact .idle left right found rfl rfl rfl
  | silent found => exact .idle left right found rfl rfl rfl
  | launched found => exact .idle left right found rfl rfl rfl
  | drained found => exact .idle left right found rfl rfl rfl
  | stilled found => exact .idle left right found rfl rfl rfl
  | joined found => exact .idle left right found rfl rfl rfl
  | passed ofReport =>
    obtain ⟨epochs, nextEpoch⟩ := Registry.passedEpochs d.registry _ _ _
    exact .still left right (passagesReport ofReport _) epochs nextEpoch
  | ignored ofReport => exact .still left right (passagesReport ofReport _) (fun _ => rfl) rfl
  | moved ofReport live =>
    exact .still left right (passagesReport ofReport _) (Registry.putEpochs live _) rfl
  | @dropped k c =>
    refine .still left right rfl (fun id => ?_) ?_ <;> cases c.guarded? <;> rfl
  | reordered perm =>
    exact .still left right rfl (fun id => congrArg _ (Table.getPerm left.distinct perm id)) rfl
  | _ => exact .still left right rfl (fun _ => rfl) rfl

structure Balanced (past : List Stride) (d : Directory) : Prop where
  custody : d.Custody
  apart : d.registry.Apart
  evens : (d.registry.marks ++ departures (ledger past)).Perm (arrivals (ledger past))
  once : ((arrivals (ledger past)).map (·.2)).Nodup
  known : ∀ mark ∈ arrivals (ledger past), mark.2 < d.registry.nextEpoch

theorem emptyBalanced (settings : DirectorySettings) : Balanced [] (empty settings) where
  custody := emptyCustody settings
  apart id other x y live := by cases live
  evens := .nil
  once := .nil
  known mark mem := by cases mem

theorem balancedStep {s : Stride} {past : List Stride} (h : Balanced past s.before)
    (next : s.before.step s.action = some s.after) : Balanced (past ++ [s]) s.after := by
  have passes : Passes s := passesStep h.custody next
  have custody := custodyStep h.custody next
  have apart := passes.apart h.apart
  have exchanged := Registry.marksExchange h.custody.sound custody.sound
  rw [← passes.came, ← passes.went] at exchanged
  have arrived : arrivals (ledger (past ++ [s])) = arrivals (ledger past) ++ arrivals s.passages := by
    rw [ledgerNext, arrivalsAppend]
  have departed :
      departures (ledger (past ++ [s])) = departures (ledger past) ++ departures s.passages := by
    rw [ledgerNext, departuresAppend]
  refine ⟨custody, apart, ?_, ?_, fun mark mem => ?_⟩
  · rw [arrived, departed]
    have others : (departures (ledger past) ++ departures s.passages).Perm
        (departures s.passages ++ departures (ledger past)) := List.perm_append_comm
    have swapped := others.append_left s.after.registry.marks
    rw [← List.append_assoc _ (departures s.passages)] at swapped
    calc
      List.Perm _ _ := swapped
      List.Perm _ (s.before.registry.marks ++ arrivals s.passages ++ departures (ledger past)) :=
        exchanged.append_right _
      List.Perm _ (s.before.registry.marks ++ departures (ledger past) ++ arrivals s.passages) := by
        rw [List.append_assoc, List.append_assoc]
        exact List.perm_append_comm.append_left _
      List.Perm _ _ := h.evens.append_right _
  · rw [arrived, List.map_append, passes.came, List.map_map]
    refine List.nodup_append.mpr ⟨h.once, Registry.epochsDistinct custody.sound apart _, ?_⟩
    rintro _ old _ new rfl
    obtain ⟨mark, mem, same⟩ := List.mem_map.mp old
    obtain ⟨x, came, rfl⟩ := List.mem_map.mp new
    have early := h.known mark mem
    have late := passes.late x came
    simp only [Function.comp_apply, Record.mark] at same
    omega
  · rw [arrived] at mem
    rcases List.mem_append.mp mem with old | new
    · exact Nat.lt_of_lt_of_le (h.known mark old) passes.grows
    · rw [passes.came] at new
      obtain ⟨x, came, rfl⟩ := List.mem_map.mp new
      have live := ((Registry.memWithout custody.sound h.custody.sound x).mp came).1
      exact custody.sound.past _ x live

namespace Balanced
variable {past : List Stride} {p q : Passage}

theorem epochsOnce (h : Balanced past d) :
    (d.registry.marks.map (·.2) ++ (departures (ledger past)).map (·.2)).Nodup := by
  rw [← List.map_append]
  exact ((h.evens.map (·.2)).nodup_iff).mpr h.once

theorem gone (h : Balanced past d) (mem : p ∈ ledger past) (departs : p.cause.arrives = false)
    (id : String) : (d.registry.records.get? id).map (·.epoch) ≠ some p.record.epoch := by
  intro live
  have here := (Registry.memMarks h.custody.sound id p.record.epoch).mpr live
  have left : p.record.mark ∈ departures (ledger past) :=
    List.mem_map_of_mem (List.mem_filter.mpr ⟨mem, by simp [departs]⟩)
  exact (List.nodup_append.mp h.epochsOnce).2.2 _ (List.mem_map_of_mem here) _
    (List.mem_map_of_mem left) rfl

theorem departedOnce (h : Balanced past d) (hp : p ∈ ledger past) (hq : q ∈ ledger past)
    (goes : p.cause.arrives = false) (leaves : q.cause.arrives = false)
    (same : p.record.epoch = q.record.epoch) : p = q := by
  have once := (List.nodup_append.mp h.epochsOnce).2.1
  rw [departures, List.map_map] at once
  exact List.inj_on_of_nodup_map once (List.mem_filter.mpr ⟨hp, by simp [goes]⟩)
    (List.mem_filter.mpr ⟨hq, by simp [leaves]⟩) same

theorem departedBefore (h : Balanced past d) (mem : p ∈ ledger past)
    (departs : p.cause.arrives = false) : p.record.epoch < d.registry.nextEpoch := by
  have left : p.record.mark ∈ departures (ledger past) :=
    List.mem_map_of_mem (List.mem_filter.mpr ⟨mem, by simp [departs]⟩)
  exact h.known _ (h.evens.mem_iff.mp (List.mem_append_right _ left))

end Balanced

def tally (cause : Cause) (passages : List Passage) : Nat := passages.countP (·.cause == cause)

theorem arrivalsTally (passages : List Passage) :
    (arrivals passages).length = tally .registered passages + tally .loaded passages := by
  induction passages with
  | nil => rfl
  | cons p rest ih =>
    obtain ⟨k, cause, record⟩ := p
    simp only [arrivals, tally, List.length_map] at ih ⊢
    cases cause <;> simp +decide [ih] <;> omega

theorem departuresTally (passages : List Passage) :
    (departures passages).length = tally .deregistered passages + tally .evicted passages := by
  induction passages with
  | nil => rfl
  | cons p rest ih =>
    obtain ⟨k, cause, record⟩ := p
    simp only [departures, tally, List.length_map] at ih ⊢
    cases cause <;> simp +decide [ih] <;> omega

theorem Balanced.size {past : List Stride} (h : Balanced past d) :
    d.registry.size + tally .deregistered (ledger past) + tally .evicted (ledger past) =
      tally .registered (ledger past) + tally .loaded (ledger past) := by
  have lengths := h.evens.length_eq
  rw [List.length_append, arrivalsTally, departuresTally] at lengths
  have size : d.registry.marks.length = d.registry.size := by
    simp [Registry.marks, Registry.size, Table.values]
  omega

end Directory
end ServiceDirectory
