import ServiceDirectory.Proofs.Turns

/-! Who answers for an id: the calls under way share the ids in flight among them, each id once, and
what a sweep has taken out stays out until the sweep has told of it. Holds whatever happens, dropped
calls included. -/
namespace ServiceDirectory
open Registry (Gains Loses)

namespace Call

theorem heldIsParked {c : Call} (quiet : c.announces = false) {i : Instance} (mem : i ∈ c.held) :
    i.id ∈ c.parks := by
  cases c with
  | hushing loops round => exact List.mem_map_of_mem mem
  | purging round => exact List.mem_map_of_mem mem
  | releasing round => exact List.mem_map_of_mem mem
  | expiring round => cases quiet
  | _ => cases mem

theorem admitsIsParked {c : Call} {i : Instance} (mem : i ∈ c.admits) : i.id ∈ c.parks := by
  cases c with
  | saving j => exact List.mem_map_of_mem mem
  | entering j => exact List.mem_map_of_mem mem
  | _ => cases mem

end Call

structure Kept (r : Registry) (parked : List String) (held admitted : List Instance) : Prop where
  once : parked.Nodup
  inFlight : ∀ id ∈ parked, id ∈ r.inFlight
  heldOnce : (held.map (·.id)).Nodup
  away : ∀ i ∈ held, r.records.get? i.id = none
  vacant : ∀ i ∈ admitted, r.records.get? i.id = none

namespace Kept
variable {r s : Registry} {parked : List String} {held admitted : List Instance}

theorem rest {ids : List String} {out fills : List Instance}
    (kept : Kept r (ids ++ parked) (out ++ held) (fills ++ admitted)) :
    Kept r parked held admitted where
  once := (List.nodup_append.mp kept.once).2.1
  inFlight id mem := kept.inFlight id (List.mem_append_right _ mem)
  heldOnce := (List.nodup_append.mp (List.map_append ▸ kept.heldOnce)).2.1
  away i mem := kept.away i (List.mem_append_right _ mem)
  vacant i mem := kept.vacant i (List.mem_append_right _ mem)

theorem filled {fills : List Instance} (kept : Kept r parked held (fills ++ admitted)) :
    Kept r parked held admitted :=
  { kept with vacant := fun i mem => kept.vacant i (List.mem_append_right _ mem) }

theorem records (kept : Kept r parked held admitted) (inFlight : s.inFlight = r.inFlight)
    (absent : ∀ id, id ∈ held.map (·.id) ∨ id ∈ admitted.map (·.id) →
      r.records.get? id = none → s.records.get? id = none) : Kept s parked held admitted where
  once := kept.once
  inFlight := inFlight ▸ kept.inFlight
  heldOnce := kept.heldOnce
  away i mem := absent i.id (.inl (List.mem_map_of_mem mem)) (kept.away i mem)
  vacant i mem := absent i.id (.inr (List.mem_map_of_mem mem)) (kept.vacant i mem)

theorem release {id : String} (kept : Kept r (id :: parked) held admitted) :
    Kept (r.release id) parked held admitted where
  once := (List.nodup_cons.mp kept.once).2
  inFlight other mem := by
    refine (Registry.memRelease r id other).mpr
      ⟨kept.inFlight other (List.mem_cons_of_mem _ mem), ?_⟩
    rintro rfl
    exact (List.nodup_cons.mp kept.once).1 mem
  heldOnce := kept.heldOnce
  away := kept.away
  vacant := kept.vacant

theorem park {id : String} (kept : Kept r parked held admitted) (free : id ∉ r.inFlight)
    (records : s.records = r.records) (inFlight : s.inFlight = id :: r.inFlight) :
    Kept s (id :: parked) held admitted where
  once := List.nodup_cons.mpr ⟨fun mem => free (kept.inFlight id mem), kept.once⟩
  inFlight other mem := by
    rw [inFlight]
    rcases List.mem_cons.mp mem with rfl | mem
    · exact List.mem_cons_self
    · exact List.mem_cons_of_mem _ (kept.inFlight other mem)
  heldOnce := kept.heldOnce
  away := records ▸ kept.away
  vacant := records ▸ kept.vacant

theorem collect (kept : Kept r parked held admitted)
    (sound : SoundRecords r.records r.nextEpoch) (timeout : Nat) (at_ : Timestamp) :
    Kept (r.expire timeout at_).1
      (((r.expire timeout at_).2.map (·.snapshot)).map (·.id) ++ parked)
      ((r.expire timeout at_).2.map (·.snapshot) ++ held) admitted := by
  have loses : Loses r (r.expire timeout at_).1 _ := Registry.expelAllLoses sound _
  have absent (id : String) (h : r.records.get? id = none) :
      (r.expire timeout at_).1.records.get? id = none := by
    rw [loses.others, h]
    intro mem
    obtain ⟨i, hi, rfl⟩ := List.mem_map.mp mem
    obtain ⟨epoch, live⟩ := loses.was i hi
    rw [h] at live
    cases live
  refine ⟨List.nodup_append.mpr ⟨loses.distinct, kept.once, ?_⟩, fun id mem => ?_, ?_,
    fun i mem => ?_, fun i mem => absent i.id (kept.vacant i mem)⟩
  · rintro _ gone id mem rfl
    obtain ⟨i, hi, rfl⟩ := List.mem_map.mp gone
    exact Registry.expiredUnparked sound timeout at_ i hi (kept.inFlight _ mem)
  · refine (Registry.expelAllParks sound _ id).mpr ?_
    rcases List.mem_append.mp mem with gone | mem
    · exact .inr gone
    · exact .inl (kept.inFlight id mem)
  · rw [List.map_append]
    refine List.nodup_append.mpr ⟨loses.distinct, kept.heldOnce, ?_⟩
    rintro _ gone _ mem rfl
    obtain ⟨i, hi, rfl⟩ := List.mem_map.mp gone
    obtain ⟨j, hj, same⟩ := List.mem_map.mp mem
    obtain ⟨epoch, live⟩ := loses.was i hi
    rw [← same, kept.away j hj] at live
    cases live
  · rcases List.mem_append.mp mem with gone | mem
    · exact loses.left i gone
    · exact absent _ (kept.away i mem)

theorem perm {parked' : List String} {held' admitted' : List Instance}
    (kept : Kept r parked held admitted) (parks : parked'.Perm parked) (holds : held'.Perm held)
    (admits : admitted'.Perm admitted) : Kept r parked' held' admitted' where
  once := parks.nodup_iff.mpr kept.once
  inFlight id mem := kept.inFlight id (parks.mem_iff.mp mem)
  heldOnce := ((holds.map (·.id)).nodup_iff).mpr kept.heldOnce
  away i mem := kept.away i (holds.mem_iff.mp mem)
  vacant i mem := kept.vacant i (admits.mem_iff.mp mem)

end Kept

section Turn
variable {r s : Registry} {now : Timestamp} {before after : Option Call} {told : List Event}

theorem Registry.leaveRecords {id : String} {x : Record} (live : r.records.get? id = some x) :
    (r.finishRemoval id).1.records = r.records.remove id ∧
      (r.finishRemoval id).1.inFlight = (r.release id).inFlight ∧
      (r.finishRemoval id).1.nextEpoch = r.nextEpoch := by
  have same : (r.release id).records.get? id = some x := live
  simp only [Registry.finishRemoval, same]
  exact ⟨rfl, rfl, rfl⟩

theorem turnSound (sound : SoundRecords r.records r.nextEpoch)
    (turn : Turn r now before s after told) : SoundRecords s.records s.nextEpoch := by
  cases turn with
  | along _ calm => rw [calm.records, calm.nextEpoch]; exact sound
  | heard id at_ => exact sound.touch id at_
  | reordered perm => exact sound.reorder perm
  | reserved => exact sound
  | dropped => exact sound
  | lost => exact sound
  | entered i => exact Registry.enterSound sound i
  | removing id live free records parked revisions lastRevision nextEpoch =>
    rw [records, nextEpoch]; exact sound
  | left id live =>
    obtain ⟨records, _, nextEpoch⟩ := Registry.leaveRecords live
    rw [records, nextEpoch]
    exact sound.remove id
  | collected at_ timeout => exact Registry.expelAllSound sound _
  | releasing => exact sound
  | expired => exact sound
  | loaded stored at_ => exact Registry.loadSound sound at_ stored
  | told => exact sound
  | silent => exact sound
  | @moved id x i live free differs later =>
    have same : i.id = id := (Instance.continuesId later).trans (sound.own id x live)
    subst same
    exact sound.put ⟨i, x.epoch⟩ (Nat.le_refl _) (sound.past _ x live)

theorem turnKeeps {parked : List String} {held admitted : List Instance}
    (sound : SoundRecords r.records r.nextEpoch)
    (kept : Kept r (before.elim [] Call.parks ++ parked) (before.elim [] Call.held ++ held)
      (before.elim [] Call.admits ++ admitted))
    (covered : after.any Call.announces = true → before.any Call.announces = false →
      ∀ id ∈ held.map (·.id), id ∈ parked)
    (within : ∀ id ∈ admitted.map (·.id), id ∈ parked)
    (turn : Turn r now before s after told) :
    Kept s (after.elim [] Call.parks ++ parked) (after.elim [] Call.held ++ held)
      (after.elim [] Call.admits ++ admitted) := by
  cases turn with
  | along hands calm =>
    rw [hands.parks, hands.held, hands.admits]
    exact kept.records calm.inFlight fun _ _ absent => by rw [calm.records, absent]
  | heard id at_ =>
    exact kept.records rfl fun _ _ absent => by simp [Registry.touch, Table.getAdjust, absent]
  | reordered perm =>
    exact kept.records rfl fun id _ absent => (Table.getPerm sound.distinct perm id).trans absent
  | reserved i free =>
    obtain ⟨absent, unparked⟩ := (Registry.freeIff r i.id).mp free
    have more : Kept (r.park i.id) (i.id :: parked) held admitted := kept.park unparked rfl rfl
    refine { more with vacant := fun j mem => ?_ }
    rcases List.mem_cons.mp mem with rfl | mem
    · exact absent
    · exact kept.vacant j mem
  | @dropped c id parks holds quiet =>
    simp only [Option.elim_some, parks, holds, List.singleton_append, List.nil_append] at kept
    exact (Kept.filled kept).release
  | lost admits quiet => exact kept.rest
  | entered i =>
    have fresh := (List.nodup_cons.mp kept.once).1
    refine (Kept.release (Kept.filled kept)).records rfl fun id mem absent => ?_
    have mine : id ∈ parked := mem.elim (covered rfl rfl id) (within id)
    have apart : id ≠ i.id := fun same => fresh (same ▸ mine)
    exact (Table.getPutOther r.records _ apart).trans absent
  | removing id live free records parks revisions lastRevision nextEpoch =>
    exact kept.park free records parks
  | left id live =>
    obtain ⟨records, inFlight, _⟩ := Registry.leaveRecords live
    refine (Kept.release kept).records inFlight fun other _ absent => ?_
    rw [records, Table.getRemove]
    split
    · rfl
    · exact absent
  | collected at_ timeout holds parks admits quiet =>
    rw [holds, parks, admits]
    exact (Kept.rest kept).collect sound timeout at_
  | releasing round => exact Kept.release kept
  | expired round holds parks admits quiet =>
    rw [holds, parks, admits]
    exact { kept with
      heldOnce := (List.nodup_cons.mp kept.heldOnce).2
      away := fun i mem => kept.away i (List.mem_cons_of_mem _ mem) }
  | loaded stored at_ =>
    have gains := Registry.loadGains r at_ stored
    refine Kept.records kept gains.inFlight fun id mem absent => ?_
    rw [gains.others, absent]
    -- Nobody else publishes now, so what sweeps hold is still parked and was not free to load.
    intro came
    obtain ⟨i, hi, rfl⟩ := List.mem_map.mp came
    exact (gains.fresh i hi).2 (kept.inFlight _ (mem.elim (covered rfl rfl _) (within _)))
  | told => exact kept
  | silent => exact kept
  | @moved id x i live free differs later =>
    refine Kept.records kept rfl fun other _ absent => ?_
    refine (Table.getPutOther r.records _ fun same => ?_).trans absent
    rw [same, live] at absent
    cases absent

end Turn

namespace Directory

structure Custody (d : Directory) : Prop where
  lined : d.Lined
  sound : SoundRecords d.registry.records d.registry.nextEpoch
  kept : Kept d.registry (d.calls.flatMap (·.2.parks)) (d.calls.flatMap (·.2.held))
    (d.calls.flatMap (·.2.admits))

theorem emptyCustody (settings : DirectorySettings) : (empty settings).Custody where
  lined := ⟨.nil, by simp [empty], by simp [empty]⟩
  sound := ⟨.nil, by simp [empty, Registry.empty, Table.get?],
    by simp [empty, Registry.empty, Table.get?]⟩
  kept := ⟨.nil, by simp [empty], .nil, by simp [empty], by simp [empty]⟩

variable {d e : Directory} {k : CallId} {before after : Option Call} {told : List Event}

theorem Happens.apart (lined : d.Lined) (h : Happens d e k before after told)
    (acts : before ≠ none ∨ after ≠ none) {first last : List (CallId × Call)}
    (was : d.calls = first ++ before.toList.map (k, ·) ++ last) :
    ∀ x ∈ first ++ last, x.1 ≠ k := by
  intro x mem same
  cases before with
  | none =>
    have known : x ∈ d.calls := by simpa [was] using mem
    have fresh := (h.opens rfl (acts.resolve_left (fun no => no rfl))).1
    exact absurd (lined.recent x known) (by rw [same, fresh]; exact Nat.lt_irrefl _)
  | some c =>
    have front : d.calls.Perm ((k, c) :: (first ++ last)) := by
      rw [was, List.append_assoc]
      exact List.perm_middle
    have distinct := lined.distinct
    rw [(front.map Prod.fst).nodup_iff] at distinct
    exact (List.nodup_cons.mp distinct).1 (List.mem_map.mpr ⟨x, mem, same⟩)

theorem Happens.quiet (lined : d.Lined) (h : Happens d e k before after told)
    (acts : before.any Call.announces = true ∨ after.any Call.announces = true)
    {first last : List (CallId × Call)}
    (was : d.calls = first ++ before.toList.map (k, ·) ++ last) :
    ∀ x ∈ first ++ last, x.2.announces = false := by
  intro x mem
  cases publishes : x.2.announces with
  | false => rfl
  | true =>
    have known : x ∈ d.calls := by
      rw [was, List.append_assoc]
      exact (List.mem_append.mp mem).elim (List.mem_append_left _)
        fun late => List.mem_append_right _ (List.mem_append_right _ late)
    have holder := lined.ordered x known publishes
    cases before with
    | none =>
      rw [h.free (acts.resolve_left (by simp)) rfl] at holder
      cases holder
    | some c =>
      cases mine : c.announces with
      | false =>
        rw [h.free (acts.resolve_left (by simp [mine])) mine] at holder
        cases holder
      | true =>
        have order := lined.ordered (k, c) (by rw [was]; simp) mine
        exact absurd (Option.some.inj (holder.symm.trans order))
          (h.apart lined (.inl (by simp)) was x mem)

theorem Happens.others (lined : d.Lined) (h : Happens d e k before after told) :
    ∃ rest, d.calls.Perm (before.toList.map (k, ·) ++ rest) ∧
      e.calls.Perm (after.toList.map (k, ·) ++ rest) ∧ (∀ x ∈ rest, x ∈ d.calls) ∧
      (before ≠ none ∨ after ≠ none → ∀ x ∈ rest, x.1 ≠ k) ∧
      (before.any Call.announces = true ∨ after.any Call.announces = true →
        ∀ x ∈ rest, x.2.announces = false) := by
  obtain ⟨first, last, was, is⟩ := h.calls
  have front (mid : List (CallId × Call)) :
      (first ++ mid ++ last).Perm (mid ++ (first ++ last)) := by
    rw [List.append_assoc, ← List.append_assoc mid]
    exact (List.perm_append_comm_assoc first mid last).trans (by rw [List.append_assoc])
  refine ⟨first ++ last, was ▸ front _, is ▸ front _, fun x mem => ?_,
    fun acts => h.apart lined acts was, fun acts => h.quiet lined acts was⟩
  exact (was ▸ front _ : d.calls.Perm _).mem_iff.mpr (List.mem_append_right _ mem)

theorem linedHappens (lined : d.Lined) (h : Happens d e k before after told) : e.Lined := by
  obtain ⟨rest, was, is, known, apart, quiet⟩ := h.others lined
  have distinct := lined.distinct
  rw [(was.map Prod.fst).nodup_iff, List.map_append] at distinct
  refine ⟨?_, fun x mem => ?_, fun x mem announces => ?_⟩
  · rw [(is.map Prod.fst).nodup_iff, List.map_append]
    refine List.nodup_append.mpr ⟨by cases after <;> simp, (List.nodup_append.mp distinct).2.1, ?_⟩
    rintro _ mine _ theirs rfl
    obtain ⟨x, hx, same⟩ := List.mem_map.mp theirs
    cases after with
    | none => cases mine
    | some c => exact apart (.inr (by simp)) x hx (same.trans (by simpa using mine))
  · rcases List.mem_append.mp (is.mem_iff.mp mem) with mine | theirs
    · cases after with
      | none => cases mine
      | some c =>
        obtain rfl : x = (k, c) := by simpa using mine
        cases before with
        | none => exact (h.opens rfl (by simp)).2
        | some b =>
          have old : (k, b) ∈ d.calls := was.mem_iff.mpr List.mem_cons_self
          exact Nat.lt_of_lt_of_le (lined.recent (k, b) old) h.grows
    · exact Nat.lt_of_lt_of_le (lined.recent x (known x theirs)) h.grows
  · rcases List.mem_append.mp (is.mem_iff.mp mem) with mine | theirs
    · cases after with
      | none => cases mine
      | some c =>
        obtain rfl : x = (k, c) := by simpa using mine
        have own : (some c).any Call.announces = true := announces
        rw [h.order, orderAfter, if_pos own]
    · -- The order is with `x`, so the turn is not about publishing.
      have waits : ¬(before.any Call.announces = true ∨ after.any Call.announces = true) := by
        intro acts
        rw [quiet acts x theirs] at announces
        cases announces
      rw [not_or] at waits
      simp [h.order, orderAfter, waits.1, waits.2, lined.ordered x (known x theirs) announces]

theorem handsSplit {α : Type} (f : Call → List α) (k : CallId) (c : Option Call)
    (rest : List (CallId × Call)) :
    (c.toList.map (k, ·) ++ rest).flatMap (fun x => f x.2) =
      c.elim [] f ++ rest.flatMap (fun x => f x.2) := by
  cases c <;> simp

theorem heldWithin {calls : List (CallId × Call)} (quiet : ∀ x ∈ calls, x.2.announces = false) :
    ∀ id ∈ (calls.flatMap (·.2.held)).map (·.id), id ∈ calls.flatMap (·.2.parks) := by
  intro id mem
  obtain ⟨i, hi, rfl⟩ := List.mem_map.mp mem
  obtain ⟨x, hx, holds⟩ := List.mem_flatMap.mp hi
  exact List.mem_flatMap.mpr ⟨x, hx, Call.heldIsParked (quiet x hx) holds⟩

theorem custodyHappens (c : d.Custody) (h : Happens d e k before after told) : e.Custody := by
  obtain ⟨rest, was, is, known, _, quiet⟩ := h.others c.lined
  refine ⟨linedHappens c.lined h, turnSound c.sound h.turn, ?_⟩
  have kept := c.kept.perm (was.symm.flatMap_right _) (was.symm.flatMap_right _)
    (was.symm.flatMap_right _)
  simp only [handsSplit] at kept
  have next := turnKeeps c.sound kept (fun takes _ => heldWithin (quiet (.inr takes))) ?_ h.turn
  · rw [← handsSplit _ k after, ← handsSplit _ k after, ← handsSplit _ k after] at next
    exact next.perm (is.flatMap_right _) (is.flatMap_right _) (is.flatMap_right _)
  · intro id mem
    obtain ⟨i, hi, rfl⟩ := List.mem_map.mp mem
    obtain ⟨x, hx, fills⟩ := List.mem_flatMap.mp hi
    exact List.mem_flatMap.mpr ⟨x, hx, Call.admitsIsParked fills⟩

theorem custodyStep (c : d.Custody) {a : Action} (next : d.step a = some e) : e.Custody := by
  obtain ⟨k, before, after, told, h⟩ := stepTurns c.lined next
  exact custodyHappens c h

theorem custodySteps (c : d.Custody) {actions : List Action} (run : d.steps actions = some e) :
    e.Custody := by
  induction actions generalizing d with
  | nil => cases run; exact c
  | cons a rest ih =>
    obtain ⟨m, one, others⟩ := Option.bind_eq_some_iff.mp run
    exact ih (custodyStep c one) others

end Directory
end ServiceDirectory
