import ServiceDirectory.Proofs.Registrations
import ServiceDirectory.Proofs.Stock

/-! Where every live record comes from: out of a step that leaves it alone or carries it on, a
registration that passed its checks, or a listing of the store. What it is called and where it is
does not change while it is live. -/
namespace ServiceDirectory

structure Instance.WellFormed (i : Instance) : Prop where
  id : Text.blank i.id = false
  endpoint : Text.blank i.endpoint = false
  name : Text.blank i.name = false

theorem Registry.objectionNone {i : Instance} : objection? i = none ↔ i.WellFormed := by
  unfold objection?
  refine ⟨fun fine => ?_, fun ⟨id, endpoint, name⟩ => by simp [id, endpoint, name]⟩
  split at fine
  · cases fine
  split at fine
  · cases fine
  split at fine
  · cases fine
  exact ⟨by simp_all, by simp_all, by simp_all⟩

theorem Instance.Continues.wellFormed {i j : Instance} (later : i.Continues j)
    (fine : i.WellFormed) : j.WellFormed := by
  rw [later.1]
  exact ⟨fine.id, fine.endpoint, fine.name⟩

theorem Registry.loadedFrom (r : Registry) (now : Timestamp) (stored : List Instance) {id : String}
    {x : Record} (live : (r.load now stored).1.records.get? id = some x) :
    r.records.get? id = some x ∨ ∃ i ∈ stored, i.id ≠ "" ∧ i.endpoint ≠ "" ∧ i.id = id ∧
      r.nextEpoch ≤ x.epoch ∧ x.snapshot = { i with status := .starting, lastHeartbeat := now } := by
  induction stored generalizing r with
  | nil => exact .inl live
  | cons i rest ih =>
    rcases ih (r.loadOne now i).1 live with was | ⟨j, mem, named, placed, own, late, is⟩
    · unfold loadOne at was
      split at was
      · exact .inl was
      · rename_i admitted
        simp only [Bool.or_eq_true, beq_iff_eq, not_or] at admitted
        have was : (r.records.put i.id _).get? id = some x := was
        rw [Table.getPut] at was
        split at was
        · rename_i own
          cases was
          exact .inr ⟨i, List.mem_cons_self, admitted.1.1, admitted.1.2, own.symm, Nat.le_refl _, rfl⟩
        · exact .inl was
    · refine .inr ⟨j, List.mem_cons_of_mem _ mem, named, placed, own, Nat.le_trans ?_ late, is⟩
      unfold loadOne
      split
      · exact Nat.le_refl _
      · exact Nat.le_succ _

namespace Directory
variable {d e : Directory} {a : Action} {k : CallId} {c c' : Call} {past : List Stride}
  {id : String} {x : Record}

inductive Stems (d : Directory) (a : Action) (id : String) (x : Record) : Prop where
  | kept (live : d.registry.records.get? id = some x)
  | heard {y : Record} (heartbeat : a = .begin (.heartbeat id))
      (live : d.registry.records.get? id = some y)
      (is : x = { y with snapshot := y.snapshot.touch d.clock })
  | reported {y : Record} (ofReport : a = .applyNext ∨ ∃ report, a = .applyDirect report)
      (live : d.registry.records.get? id = some y) (epoch : x.epoch = y.epoch)
      (later : y.snapshot.Continues x.snapshot)
  | entered {k : CallId} {i : Instance} (acts : a = .proceed k)
      (found : d.call? k = some (.entering i)) (own : i.id = id)
      (is : x = ⟨i, d.registry.nextEpoch⟩)
  | loaded {k : CallId} {stored : List Instance} {at_ : Timestamp} {i : Instance}
      (acts : a = .proceed k) (found : d.call? k = some (.loading stored at_)) (listed : i ∈ stored)
      (named : i.id ≠ "") (placed : i.endpoint ≠ "") (own : i.id = id)
      (late : d.registry.nextEpoch ≤ x.epoch)
      (is : x.snapshot = { i with status := .starting, lastHeartbeat := at_ })

theorem stepStems (custody : d.Custody) (next : d.step a = some e)
    (live : e.registry.records.get? id = some x) : Stems d a id x := by
  have spared {timeout : Nat} {at_ : Timestamp} {s : Registry} {took : List Expiry}
      (expires : d.registry.expire timeout at_ = (s, took)) (here : s.records.get? id = some x) :
      Stems d a id x := by
    have loses := (Registry.expireLoses custody.sound expires).1
    by_cases gone : id ∈ (took.map (·.snapshot)).map (·.id)
    · obtain ⟨i, mem, rfl⟩ := List.mem_map.mp gone
      rw [loses.left i mem] at here
      cases here
    · exact .kept ((loses.others id gone).symm.trans here)
  cases stepDeed next with
  | @heard target =>
    have live : (d.registry.touch target d.clock).records.get? id = some x := live
    rw [Registry.touch, Table.getAdjust] at live
    split at live
    · rename_i own
      obtain ⟨y, was, is⟩ := Option.map_eq_some_iff.mp live
      exact .heard (own ▸ rfl) was is.symm
    · exact .kept live
  | @entered k i found =>
    have live : (d.registry.records.put i.id ⟨i, d.registry.nextEpoch⟩).get? id = some x := live
    rw [Table.getPut] at live
    split at live
    · rename_i own
      exact .entered rfl found own.symm (Option.some.inj live).symm
    · exact .kept live
  | @left k target y found was =>
    have records := (Registry.leaveRecords was).1
    have live : (d.registry.finishRemoval target).1.records.get? id = some x := live
    rw [records, Table.getRemove] at live
    split at live
    · cases live
    · exact .kept live
  | foundNone found expires => exact spared expires live
  | collected found expires => exact spared expires live
  | loaded found =>
    rcases Registry.loadedFrom _ _ _ live with was | ⟨i, listed, named, placed, own, late, is⟩
    · exact .kept was
    · exact .loaded rfl found listed named placed own late is
  | @passed _ _ target epoch at_ ofReport =>
    have live : (d.registry.passed target epoch at_).records.get? id = some x := live
    unfold Registry.passed at live
    split at live
    · split at live
      · rw [Registry.touch, Table.getAdjust] at live
        split at live
        · obtain ⟨y, was, rfl⟩ := Option.map_eq_some_iff.mp live
          exact .reported ofReport was rfl (Instance.touchContinues _ _)
        · exact .kept live
      · exact .kept live
    · exact .kept live
  | @moved _ _ target y i ofReport was unparked differs later =>
    have live : (d.registry.records.put target ⟨i, y.epoch⟩).get? id = some x := live
    rw [Table.getPut] at live
    split at live
    · rename_i own
      cases live
      exact .reported (y := y) ofReport (own ▸ was) rfl later
    · exact .kept live
  | @dropped k c found =>
    refine .kept (Eq.trans ?_ live)
    cases c.guarded? <;> rfl
  | reordered perm =>
    exact .kept ((Table.getPerm custody.sound.distinct perm id).symm.trans live)
  | _ => exact .kept live

end Directory

def Call.subject? : Call → Option Instance
  | .admitting i => some i
  | .saving i => some i
  | .entering i => some i
  | _ => none

inductive Stride.Admits (s : Stride) (i : Instance) : Prop where
  | registered {k : CallId} (acts : s.action = .proceed k)
      (found : s.before.call? k = some (.entering i)) (fine : i.WellFormed)
  | loaded {k : CallId} {stored : List Instance} {at_ : Timestamp} {j : Instance}
      (acts : s.action = .proceed k) (found : s.before.call? k = some (.loading stored at_))
      (listed : j ∈ stored) (named : j.id ≠ "") (placed : j.endpoint ≠ "")
      (is : i = { j with status := .starting, lastHeartbeat := at_ })

structure Stride.Begins (s : Stride) (id : String) (x : Record) (i : Instance) : Prop where
  new : (s.before.registry.records.get? id).map (·.epoch) ≠ some x.epoch
  here : s.after.registry.records.get? id = some ⟨i, x.epoch⟩
  admits : s.Admits i

/-- The record is under its own id, and is what was admitted but for its status and when it was last
heard of. -/
structure Sourced (past : List Stride) (id : String) (x : Record) : Prop where
  own : x.snapshot.id = id
  source : ∃ s ∈ past, ∃ i, s.Begins id x i ∧ i.Continues x.snapshot

namespace Directory
variable {d e : Directory} {a : Action} {k : CallId} {c c' : Call} {past : List Stride}
  {id : String} {x : Record}

structure Admitted (past : List Stride) (d : Directory) : Prop where
  custody : d.Custody
  checked : ∀ x ∈ d.calls, ∀ i ∈ x.2.subject?, i.WellFormed
  sourced : ∀ id x, d.registry.records.get? id = some x → Sourced past id x

theorem withStoreAdmitted (settings : DirectorySettings) (store : Table Instance) :
    Admitted [] (withStore settings store) where
  custody := withStoreCustody settings store
  checked x mem := by cases mem
  sourced id x live := by cases live

theorem checkedStep (h : Admitted past d) (next : d.step a = some e) :
    ∀ x ∈ e.calls, ∀ i ∈ x.2.subject?, i.WellFormed := by
  have calls : d.Newly (fun c => ∀ i ∈ c.subject?, i.WellFormed) e := by
    have mine {k : CallId} {c : Call} (found : d.call? k = some c) := h.checked _ (memOfCall found)
    cases stepDeed next with
    | opened opens =>
      refine .opened rfl ?_
      cases opens with
      | register fine => exact fun i own => Option.some.inj own ▸ Registry.objectionNone.mp fine
      | _ => exact nofun
    | removing | starting | closing | ticked | moved => exact .opened rfl nofun
    | @reserved k i found =>
      refine .moved rfl fun j own => ?_
      have fine := mine found i rfl
      exact Option.some.inj own ▸ ⟨fine.id, fine.endpoint, fine.name⟩
    | @saved k i found => exact .moved rfl (mine (c := .saving i) found)
    | entered | quieted | left | collected | hushed | releasing | expired | loaded | told
    | drained | stilled | deleted | purged | listed | given => exact .moved rfl nofun
    | turnedAway | missed | foundNone | expiredLast | silent | launched | joined | unsaved
    | unlisted | dropped => exact .left rfl
    | _ => exact .same rfl
  exact fun x mem => (calls x mem).elim (h.checked x) id

theorem admittedStep (h : Admitted past d) (next : d.step a = some e) :
    Admitted (past ++ [⟨d, a, e⟩]) e := by
  have custody := custodyStep h.custody next
  refine ⟨custody, checkedStep h next, fun id x live => ⟨custody.sound.own id x live, ?_⟩⟩
  have carried {y : Record} (was : d.registry.records.get? id = some y) (epoch : x.epoch = y.epoch)
      (later : y.snapshot.Continues x.snapshot) :
      ∃ s ∈ past ++ [⟨d, a, e⟩], ∃ i, s.Begins id x i ∧ i.Continues x.snapshot := by
    obtain ⟨s, mem, i, ⟨new, here, admits⟩, since⟩ := (h.sourced id y was).source
    exact ⟨s, List.mem_append_left _ mem, i, ⟨epoch ▸ new, epoch ▸ here, admits⟩,
      Instance.continuesTrans since later⟩
  have begun (admits : (⟨d, a, e⟩ : Stride).Admits x.snapshot)
      (late : d.registry.nextEpoch ≤ x.epoch) :
      ∃ s ∈ past ++ [⟨d, a, e⟩], ∃ i, s.Begins id x i ∧ i.Continues x.snapshot := by
    refine ⟨_, List.mem_append_right _ List.mem_cons_self, _, ⟨fun same => ?_, live, admits⟩,
      Instance.continuesRefl _⟩
    obtain ⟨y, was, epoch⟩ := Option.map_eq_some_iff.mp same
    have early := h.custody.sound.past id y was
    omega
  cases stepStems h.custody next live with
  | kept was => exact carried was rfl (Instance.continuesRefl _)
  | heard heartbeat was is => exact carried was (is ▸ rfl) (is ▸ Instance.touchContinues _ _)
  | reported ofReport was epoch later => exact carried was epoch later
  | entered acts found own is =>
    subst is
    exact begun (.registered acts found (h.checked _ (memOfCall found) _ rfl)) (Nat.le_refl _)
  | loaded acts found listed named placed own late is =>
    exact begun (.loaded acts found listed named placed is) late

/-- Every live record is under its own id and keeps the id, the endpoint and the name with which it
became live. None of them is blank, unless it was blank, but not empty, in the store that the record
was loaded from. -/
theorem liveRecordsSourced {settings : DirectorySettings} {store : Table Instance}
    {actions : List Action} (run : (withStore settings store).steps actions = some d)
    (live : d.registry.records.get? id = some x) :
    Sourced ((withStore settings store).trail actions) id x ∧
      (x.snapshot.WellFormed ∨ ∃ s ∈ (withStore settings store).trail actions,
        ∃ k stored at_, s.action = .proceed k ∧ s.before.call? k = some (.loading stored at_) ∧
          ∃ j ∈ stored, ¬j.WellFormed ∧ j.id ≠ "" ∧ j.endpoint ≠ "" ∧ j.id = x.snapshot.id ∧
            j.endpoint = x.snapshot.endpoint ∧ j.name = x.snapshot.name) := by
  have h : Admitted ((withStore settings store).trail actions) d :=
    trailKeeps (withStoreAdmitted settings store) run fun s _ next _ h => admittedStep h next
  have sourced := h.sourced id x live
  refine ⟨sourced, ?_⟩
  obtain ⟨s, mem, i, begins, later⟩ := sourced.source
  cases begins.admits with
  | registered acts found fine => exact .inl (later.wellFormed fine)
  | @loaded k stored at_ j acts found listed named placed is =>
    subst is
    by_cases fine : j.WellFormed
    · exact .inl (later.wellFormed ⟨fine.id, fine.endpoint, fine.name⟩)
    · refine .inr ⟨s, mem, k, stored, at_, acts, found, j, listed, fine, named, placed, ?_⟩
      rw [later.1]
      exact ⟨rfl, rfl, rfl⟩

def comeBothWays : List Action :=
  [.begin .bootstrap, .listed 0 [.fresh "b" "web" "h:2" .origin], .proceed 0, .proceed 0, .proceed 0,
    .begin .start, .proceed 1,
    .begin (.register (.fresh "a" "web" "h:1" .origin)), .proceed 2, .settle 2 none, .proceed 2,
    .proceed 2, .proceed 2, .beginProbe 1 .pass, .endProbe 1, .applyNext, .pass 5,
    .begin (.heartbeat "b")]

theorem bothWaysSourced :
    ∃ d x, (withStore Settings.standard.directory []).steps comeBothWays = some d ∧
      d.registry.records.get? "b" = some x ∧ x.snapshot.status = .up ∧
      Sourced ((withStore Settings.standard.directory []).trail comeBothWays) "b" x ∧
      x.snapshot.WellFormed := by
  obtain ⟨d, run, up, fine⟩ : ∃ d,
      (withStore Settings.standard.directory []).steps comeBothWays = some d ∧
      (d.registry.records.get? "b").map (·.snapshot.status) = some .up ∧
      (d.registry.records.get? "b").all (Registry.objection? ·.snapshot == none) = true :=
    ⟨_, rfl, by decide +kernel, by decide +kernel⟩
  obtain ⟨x, live, up⟩ := Option.map_eq_some_iff.mp up
  rw [live] at fine
  exact ⟨d, x, run, live, up, (liveRecordsSourced run live).1,
    Registry.objectionNone.mp (by simpa using fine)⟩

def blankStored : Instance := .fresh " " "" " " .origin

theorem blankIsLoaded :
    ∃ d, (withStore Settings.standard.directory [(" ", blankStored)]).steps
        [.begin .bootstrap, .settle 0 none, .proceed 0] = some d ∧
      (d.registry.records.get? " ").map (fun x =>
        (x.snapshot.id, x.snapshot.endpoint, x.snapshot.name)) = some (" ", " ", "") ∧
      Text.blank " " = true ∧ Text.blank "" = true :=
  ⟨_, rfl, by decide +kernel, by decide +kernel, by decide +kernel⟩

end Directory
end ServiceDirectory
