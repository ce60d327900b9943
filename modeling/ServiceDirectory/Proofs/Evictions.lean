import ServiceDirectory.Proofs.Courses
import ServiceDirectory.Proofs.Likeness
import ServiceDirectory.Proofs.Manning
import ServiceDirectory.Proofs.Origins
import ServiceDirectory.Proofs.Revisions
import ServiceDirectory.Proofs.Tenure

/-! What a sweep takes out: whoever is live, not in flight and out of time at the moment that the
sweep goes by, with the entry of its check loop. Nothing else of the directory changes. Who is heard
of stays in time for every sweep that goes by the time then and the timeout at most. -/
namespace ServiceDirectory

namespace Registry
variable {r s : Registry} {timeout : Nat} {at_ : Timestamp} {took : List Expiry}

structure Lapsed (r : Registry) (timeout : Nat) (at_ : Timestamp) (i : Instance) : Prop where
  live : r.get? i.id = some i
  free : i.id ∉ r.inFlight
  late : (timeout : Int) * Timestamp.perMilli < at_.since i.lastHeartbeat

theorem expelAllLoop (sound : SoundRecords r.records r.nextEpoch) (ids : List String) :
    ∀ x ∈ (r.expelAll ids).2, x.loop = r.supervised.get? x.snapshot.id ∧
      (r.expelAll ids).1.supervised.get? x.snapshot.id = none := by
  induction ids generalizing r with
  | nil => exact nofun
  | cons id rest ih =>
    intro x mem
    have later := expelAllDismisses (expelSound sound id) rest
    have mine (y : Expiry) (own : y ∈ (r.expel id).2) : y.snapshot.id = id ∧
        y.loop = r.supervised.get? id ∧ (r.expel id).1.supervised.get? id = none := by
      unfold expel at own ⊢
      split at own
      · cases own
      · rename_i z live
        cases List.mem_singleton.mp own
        exact ⟨sound.own id z live, rfl, Table.getRemoveSame _ _⟩
    simp only [expelAll, List.mem_append] at mem
    rcases mem with first | second
    · obtain ⟨own, loop, gone⟩ := mine x first
      refine ⟨own ▸ loop, ?_⟩
      rw [own]
      by_contra found
      obtain ⟨epoch, found⟩ := Option.ne_none_iff_exists'.mp found
      rw [later.entries id epoch found] at gone
      cases gone
    · obtain ⟨loop, gone⟩ := ih (expelSound sound id) x second
      refine ⟨loop.trans ((expelDismisses sound id).others _ fun out => ?_), gone⟩
      obtain ⟨y, own, same⟩ := List.mem_map.mp out
      obtain ⟨epoch, live⟩ := (expelAllLoses (expelSound sound id) rest).was x.snapshot
        (List.mem_map_of_mem second)
      rw [← same, (expelLoses sound id).left _ (List.mem_map_of_mem own)] at live
      cases live

structure Evicts (r s : Registry) (timeout : Nat) (at_ : Timestamp) (out : List Instance) :
    Prop where
  exactly : ∀ i, i ∈ out ↔ r.Lapsed timeout at_ i
  once : (out.map (·.id)).Nodup
  records : ∀ id, s.records.get? id =
    if id ∈ out.map (·.id) then none else r.records.get? id
  supervised : ∀ id, s.supervised.get? id =
    if id ∈ out.map (·.id) then none else r.supervised.get? id
  inFlight : ∀ id, id ∈ s.inFlight ↔ id ∈ r.inFlight ∨ id ∈ out.map (·.id)
  revisions : ∀ service, service ∉ out.map (·.name) → s.revision service = r.revision service
  running : s.running = r.running
  nextEpoch : s.nextEpoch = r.nextEpoch

theorem expireExactly (sound : SoundRecords r.records r.nextEpoch)
    (expires : r.expire timeout at_ = (s, took)) (i : Instance) :
    i ∈ took.map (·.snapshot) ↔ r.Lapsed timeout at_ i := by
  obtain ⟨loses, _⟩ := expireLoses sound expires
  have takes := expireTakes sound expires
  constructor
  · intro mem
    obtain ⟨epoch, found⟩ := loses.was i mem
    have victim : i.id ∈ r.victims timeout at_ := takes ▸ List.mem_map_of_mem mem
    obtain ⟨free, x, was, stale⟩ := (memVictims sound timeout at_).mp victim
    cases found.symm.trans was
    exact ⟨by rw [get?, found]; rfl, free, of_decide_eq_true stale⟩
  · rintro ⟨found, free, late⟩
    obtain ⟨x, was, rfl⟩ := Option.map_eq_some_iff.mp found
    have victim : x.snapshot.id ∈ r.victims timeout at_ :=
      (memVictims sound timeout at_).mpr ⟨free, x, was, decide_eq_true late⟩
    obtain ⟨i, mem, same⟩ := List.mem_map.mp (takes ▸ victim)
    obtain ⟨epoch, found⟩ := loses.was i mem
    rw [same, was] at found
    cases found
    exact mem

theorem expireEvicts (sound : SoundRecords r.records r.nextEpoch)
    (expires : r.expire timeout at_ = (s, took)) :
    Evicts r s timeout at_ (took.map (·.snapshot)) := by
  obtain ⟨loses, nextEpoch⟩ := expireLoses sound expires
  have bumps := expelAllBumps r (r.victims timeout at_)
  have dismisses := expelAllDismisses sound (r.victims timeout at_)
  have loops := expelAllLoop sound (r.victims timeout at_)
  rw [← expire, expires] at bumps dismisses loops
  refine ⟨expireExactly sound expires, loses.distinct, fun id => ?_, fun id => ?_,
    expireParks sound expires, bumps.still, dismisses.running, nextEpoch⟩
  · split
    · rename_i gone
      obtain ⟨i, mem, rfl⟩ := List.mem_map.mp gone
      exact loses.left i mem
    · rename_i spared
      exact loses.others id spared
  · split
    · rename_i gone
      obtain ⟨i, mem, rfl⟩ := List.mem_map.mp gone
      obtain ⟨x, own, rfl⟩ := List.mem_map.mp mem
      exact (loops x own).2
    · rename_i spared
      exact dismisses.others id (by simpa using spared)

end Registry

namespace Directory
variable {d e : Directory} {a : Action} {k : CallId} {id : String} {epoch : Nat} {at_ : Timestamp}

theorem registrationKeeps {P : Instance → Prop} (later : ∀ i j, i.Continues j → P i → P j)
    (custody : d.Custody) (early : epoch < d.registry.nextEpoch)
    (h : ∀ x, d.registry.records.get? id = some x → x.epoch = epoch → P x.snapshot)
    (next : d.step a = some e) :
    epoch < e.registry.nextEpoch ∧
      ∀ x, e.registry.records.get? id = some x → x.epoch = epoch → P x.snapshot := by
  refine ⟨Nat.lt_of_lt_of_le early (passesStep custody next).grows, fun x live own => ?_⟩
  cases stepStems custody next live with
  | kept was => exact h x was own
  | heard _ was is =>
    subst is
    exact later _ _ (Instance.touchContinues _ _) (h _ was own)
  | reported _ was same carried => exact later _ _ carried (h _ was (same ▸ own))
  | entered _ _ _ is =>
    subst is
    exact absurd own (Nat.ne_of_gt early)
  | loaded _ _ _ _ _ _ late => omega

theorem stepEntries (custody : d.Custody) (next : d.step a = some e)
    (found : e.registry.supervised.get? id = some epoch) :
    d.registry.supervised.get? id = some epoch ∨
      ∃ x, e.registry.records.get? id = some x ∧ x.epoch = epoch := by
  cases stepDeed next with
  | @removing target =>
    have found := (Table.getRemove d.registry.supervised target id).symm.trans found
    split at found
    · cases found
    · exact .inl found
  | entered at_ =>
    have enlists := Registry.enterEnlists (commitFree custody at_)
    exact (enlists.entries id epoch found).imp_right fun new => new.2.2
  | loaded =>
    exact ((Registry.loadEnlists _ _ _).entries id epoch found).imp_right fun new => new.2.2
  | @launched k =>
    have table : (d.launch k).registry.supervised =
        Registry.putAll d.registry.supervised d.registry.untended := rfl
    refine (Registry.putAllFound (table ▸ found)).imp_right fun ⟨x, mem, same⟩ => ?_
    exact ⟨x, (Registry.memUntended custody.sound.distinct mem).1, same⟩
  | left _ live => exact .inl (Registry.leaveSupervised live ▸ found)
  | foundNone _ expires => exact .inl ((expireDismisses custody expires).entries id epoch found)
  | collected _ expires => exact .inl ((expireDismisses custody expires).entries id epoch found)
  | drained => cases found
  | @dropped k c =>
    refine .inl (Eq.trans ?_ found)
    cases c.guarded? <;> rfl
  | @passed _ _ target of at_ =>
    exact .inl (Registry.passedSupervised d.registry target of at_ ▸ found)
  | _ => exact .inl found

theorem ownedStep (custody : d.Custody) (apart : d.registry.Apart) (h : d.registry.Owned)
    (next : d.step a = some e) : e.registry.Owned := by
  intro id epoch found
  rcases stepEntries custody next found with was | ⟨x, live, rfl⟩
  · -- A registration that is new is younger than every entry that is old.
    obtain ⟨early, own⟩ := h id epoch was
    have stays (other : String) := registrationKeeps (P := fun _ => other = id) (fun _ _ _ h => h)
      custody early (own other) next
    exact ⟨(stays id).1, fun other => (stays other).2⟩
  · refine ⟨(custodyStep custody next).sound.past id x live, fun other y there same => ?_⟩
    exact (passesStep custody next).apart apart other id y x there live same

structure Collects (d e : Directory) (at_ : Timestamp) (out : List Instance) : Prop where
  evicts : d.registry.Evicts e.registry d.settings.heartbeatTimeout at_ out
  loops : e.loops = d.loops.map fun l =>
    if out.any fun i => d.registry.supervised.get? i.id == some l.check.epoch then
      { l with cancelled := true } else l
  others : ∀ id x, e.registry.records.get? id = some x →
    ∀ l ∈ d.loops, l.check.epoch = x.epoch → l ∈ e.loops
  rest : e = { d with
    registry := e.registry, loops := e.loops, calls := e.calls, endings := e.endings }

theorem collectsOf {s : Registry} {took : List Expiry} (custody : d.Custody)
    (owned : d.registry.Owned)
    (expires : d.registry.expire d.settings.heartbeatTimeout at_ = (s, took))
    (registry : e.registry = s)
    (loops : e.loops = (d.cancelLoops (took.filterMap Expiry.loop)).loops)
    (rest : e = { d with
      registry := e.registry, loops := e.loops, calls := e.calls, endings := e.endings }) :
    Collects d e at_ (took.map (·.snapshot)) := by
  subst registry
  have evicts := Registry.expireEvicts custody.sound expires
  have taken (x : Expiry) (mem : x ∈ took) : x.loop = d.registry.supervised.get? x.snapshot.id := by
    have loops := Registry.expelAllLoop custody.sound
      (d.registry.victims d.settings.heartbeatTimeout at_)
    rw [← Registry.expire, expires] at loops
    exact (loops x mem).1
  have cancels (epoch : Nat) : (took.filterMap Expiry.loop).contains epoch =
      (took.map (·.snapshot)).any fun i => d.registry.supervised.get? i.id == some epoch := by
    rw [Bool.eq_iff_iff, List.contains_iff_mem, List.any_eq_true, List.mem_filterMap]
    constructor
    · rintro ⟨x, gone, own⟩
      exact ⟨_, List.mem_map_of_mem gone, by rw [← taken x gone, own]; exact beq_self_eq_true _⟩
    · rintro ⟨_, mem, own⟩
      obtain ⟨x, gone, rfl⟩ := List.mem_map.mp mem
      exact ⟨x, gone, (taken x gone).trans (beq_iff_eq.mp own)⟩
  have loops : e.loops = d.loops.map fun l =>
      if (took.map (·.snapshot)).any fun i =>
        d.registry.supervised.get? i.id == some l.check.epoch then
        { l with cancelled := true } else l := by
    rw [loops]
    exact List.map_congr_left fun l _ => by rw [cancels]
  refine ⟨evicts, loops, fun id x live l mem own => ?_, rest⟩
  rw [loops]
  refine List.mem_map.mpr ⟨l, mem, if_neg fun stops => ?_⟩
  obtain ⟨i, gone, entry⟩ := List.any_eq_true.mp stops
  -- The entry was of a registration that is gone, and this one is still there.
  rw [evicts.records] at live
  split at live
  · cases live
  · rename_i spared
    have its := (owned _ _ (beq_iff_eq.mp entry)).2 id x live own.symm
    exact spared (its ▸ List.mem_map_of_mem gone)

theorem collectsStep (custody : d.Custody) (owned : d.registry.Owned)
    (found : d.call? k = some (.collecting at_)) (next : d.step (.proceed k) = some e) :
    ∃ out, Collects d e at_ out ∧
      (out = [] ∧ e.call? k = none ∧ e.ending? k = some (.ok (.count 0)) ∨
        ∃ i rest loops, out = i :: rest ∧
          e.call? k = some (.hushing loops ⟨i, rest, out.length⟩)) := by
  have next := proceedsWith found next
  simp only [proceedWith, Option.some.injEq] at next
  subst next
  rcases expires : d.registry.expire d.settings.heartbeatTimeout at_ with ⟨s, took⟩
  cases took with
  | nil =>
    simp only [collect, expires]
    refine ⟨[], collectsOf custody owned expires rfl rfl rfl, .inl ⟨rfl, ?_, ?_⟩⟩
    · exact (callLeft rfl k).trans (if_pos rfl)
    · simp [finish, ending?]
  | cons x rest =>
    simp only [collect, expires]
    refine ⟨_, collectsOf custody owned expires rfl rfl rfl, .inr
      ⟨x.snapshot, rest.map (·.snapshot), (x :: rest).filterMap Expiry.loop, rfl, ?_⟩⟩
    exact (callMoved found rfl k).trans (if_pos rfl)

theorem sparedOrLapsed (custody : d.Custody) (owned : d.registry.Owned)
    (found : d.call? k = some (.collecting at_)) (next : d.step (.proceed k) = some e) {x : Record}
    (live : d.registry.records.get? id = some x) :
    e.registry.records.get? id = some x ∨ e.registry.records.get? id = none ∧
      (d.settings.heartbeatTimeout : Int) * Timestamp.perMilli <
        at_.since x.snapshot.lastHeartbeat := by
  obtain ⟨out, collects, _⟩ := collectsStep custody owned found next
  rw [collects.evicts.records]
  split
  · rename_i gone
    obtain ⟨i, mem, rfl⟩ := List.mem_map.mp gone
    have lapsed := (collects.evicts.exactly i).mp mem
    have same := lapsed.live
    rw [Registry.get?, live] at same
    cases same
    exact .inr ⟨rfl, lapsed.late⟩
  · exact .inl live

end Directory

def Stride.Spares (id : String) (epoch : Nat) (until_ : Int) (s : Stride) : Prop :=
  ∀ k at_ x, s.action = .proceed k → s.before.call? k = some (.collecting at_) →
    at_.nanos ≤ until_ → s.before.registry.records.get? id = some x → x.epoch = epoch →
      s.after.registry.records.get? id = some x

end ServiceDirectory
