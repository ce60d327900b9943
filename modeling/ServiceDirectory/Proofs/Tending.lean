import ServiceDirectory.Proofs.Registrations

/-! The table of check loops against the records: who has a loop there is live and not in flight, and
the loop is that of its registration. Every order for a new loop has its entry in the table. -/
namespace ServiceDirectory
namespace Registry
variable {r s t : Registry}

def Tended (r : Registry) : Prop :=
  ∀ id epoch, r.supervised.get? id = some epoch →
    id ∉ r.inFlight ∧ (r.records.get? id).map (·.epoch) = some epoch

def Tends (r : Registry) (epoch : Nat) : Prop := ∃ id, r.supervised.get? id = some epoch

theorem leaveSupervised {id : String} {x : Record} (live : r.records.get? id = some x) :
    (r.finishRemoval id).1.supervised = r.supervised := by
  have live : (r.release id).records.get? id = some x := live
  simp only [finishRemoval, live]
  rfl

theorem passedSupervised (r : Registry) (id : String) (epoch : Nat) (at_ : Timestamp) :
    (r.passed id epoch at_).supervised = r.supervised := by
  unfold passed
  split
  · split <;> rfl
  · rfl

theorem emptyTended : empty.Tended := fun id epoch found => by cases found

namespace Tended

theorem same (h : r.Tended) (supervised : s.supervised = r.supervised)
    (inFlight : ∀ id ∈ s.inFlight, id ∈ r.inFlight)
    (epochs : ∀ id, (s.records.get? id).map (·.epoch) = (r.records.get? id).map (·.epoch)) :
    s.Tended := by
  intro id epoch found
  obtain ⟨free, own⟩ := h id epoch (supervised ▸ found)
  exact ⟨fun mem => free (inFlight id mem), (epochs id).trans own⟩

theorem parked (h : r.Tended) {id : String} (gone : r.records.get? id = none) :
    (r.park id).Tended := by
  intro other epoch found
  obtain ⟨free, own⟩ := h other epoch found
  refine ⟨fun mem => ?_, own⟩
  rcases List.mem_cons.mp mem with rfl | mem
  · rw [gone] at own
    cases own
  · exact free mem

theorem released (h : r.Tended) (id : String) : (r.release id).Tended :=
  h.same rfl (fun other mem => ((memRelease r id other).mp mem).1) fun _ => rfl

theorem removing (h : r.Tended) (id : String) :
    ({ r.park id with supervised := r.supervised.remove id } : Registry).Tended := by
  intro other epoch found
  have found : (r.supervised.remove id).get? other = some epoch := found
  rw [Table.getRemove] at found
  split at found
  · cases found
  · rename_i apart
    obtain ⟨free, own⟩ := h other epoch found
    exact ⟨fun mem => (List.mem_cons.mp mem).elim apart free, own⟩

theorem left (h : r.Tended) {id : String} {x : Record} (live : r.records.get? id = some x)
    (busy : id ∈ r.inFlight) : (r.finishRemoval id).1.Tended := by
  obtain ⟨records, inFlight, _⟩ := leaveRecords live
  intro other epoch found
  rw [leaveSupervised live] at found
  obtain ⟨free, own⟩ := h other epoch found
  have apart : other ≠ id := fun same => free (same ▸ busy)
  rw [records, inFlight, Table.getRemove, if_neg apart]
  exact ⟨fun mem => free ((memRelease r id other).mp mem).1, own⟩

theorem entered (h : r.Tended) {i : Instance} (free : r.busy i.id = false) :
    (r.enter i).1.Tended := by
  obtain ⟨gone, out⟩ := (freeIff r i.id).mp free
  intro other epoch found
  have records : (r.enter i).1.records = r.records.put i.id ⟨i, r.nextEpoch⟩ := rfl
  have table : (r.enter i).1.supervised =
      if r.running then r.supervised.put i.id r.nextEpoch else r.supervised := rfl
  have old (found : r.supervised.get? other = some epoch) :
      other ∉ r.inFlight ∧ ((r.enter i).1.records.get? other).map (·.epoch) = some epoch := by
    obtain ⟨free, own⟩ := h other epoch found
    have apart : other ≠ i.id := fun same => by
      rw [same, gone] at own
      cases own
    rw [records, Table.getPutOther _ _ apart]
    exact ⟨free, own⟩
  rw [table] at found
  split at found
  · rw [Table.getPut] at found
    split at found
    · rename_i same
      cases found
      rw [records, same, Table.getPutSame]
      exact ⟨out, rfl⟩
    · exact old found
  · exact old found

theorem expelled (h : r.Tended) (id : String) : (r.expel id).1.Tended := by
  unfold expel
  split
  · exact h
  · rename_i x live
    intro other epoch found
    have found : (r.supervised.remove id).get? other = some epoch := found
    rw [Table.getRemove] at found
    split at found
    · cases found
    · rename_i apart
      obtain ⟨free, own⟩ := h other epoch found
      refine ⟨fun mem => (List.mem_cons.mp mem).elim apart free, ?_⟩
      exact (congrArg _ ((Table.getRemove r.records id other).trans (if_neg apart))).trans own

theorem expelledAll (h : r.Tended) (ids : List String) : (r.expelAll ids).1.Tended := by
  induction ids generalizing r with
  | nil => exact h
  | cons id rest ih => exact ih (h.expelled id)

theorem owner (h : r.Tended) (apart : r.Apart) {id other : String} {epoch : Nat}
    (held : r.supervised.get? other = some epoch)
    (live : (r.records.get? id).map (·.epoch) = some epoch) : other = id := by
  obtain ⟨x, hx, same⟩ := Option.map_eq_some_iff.mp (h other epoch held).2
  obtain ⟨y, hy, rfl⟩ := Option.map_eq_some_iff.mp live
  exact apart other id x y hx hy same

theorem unsupervised (r : Registry) : (r.unsupervise).1.Tended := fun id epoch found => by
  cases found

end Tended

theorem expelKeeps (r : Registry) (id : String) {epoch : Nat} (h : r.Tends epoch) :
    (r.expel id).1.Tends epoch ∨ epoch ∈ (r.expel id).2.filterMap Expiry.loop := by
  obtain ⟨other, found⟩ := h
  unfold expel
  split
  · exact .inl ⟨other, found⟩
  · by_cases same : other = id
    · subst same
      exact .inr (by simp [found])
    · refine .inl ⟨other, ?_⟩
      exact ((Table.getRemove r.supervised id other).trans (if_neg same)).trans found

theorem expelAllKeeps (r : Registry) (ids : List String) {epoch : Nat} (h : r.Tends epoch) :
    (r.expelAll ids).1.Tends epoch ∨ epoch ∈ (r.expelAll ids).2.filterMap Expiry.loop := by
  induction ids generalizing r with
  | nil => exact .inl h
  | cons id rest ih =>
    simp only [expelAll, List.filterMap_append, List.mem_append]
    rcases expelKeeps r id h with there | out
    · exact (ih _ there).imp_right .inr
    · exact .inr (.inl out)

theorem expelAllLoops (sound : SoundRecords r.records r.nextEpoch) (h : r.Tended)
    (ids : List String) : ∀ x ∈ (r.expelAll ids).2, ∀ epoch ∈ x.loop,
      r.records.get? x.snapshot.id = some ⟨x.snapshot, epoch⟩ := by
  induction ids generalizing r with
  | nil => simp [expelAll]
  | cons id rest ih =>
    intro x mem epoch loop
    simp only [expelAll, List.mem_append] at mem
    rcases mem with mine | later
    · unfold expel at mine
      split at mine
      · cases mine
      · rename_i y live
        cases List.mem_singleton.mp mine
        have own := (h id epoch loop).2
        rw [live] at own
        cases own
        rw [sound.own id y live]
        exact live
    · have found := ih (expelSound sound id) (h.expelled id) x later epoch loop
      unfold expel at found
      split at found
      · exact found
      · have found : (r.records.remove id).get? x.snapshot.id = some ⟨x.snapshot, epoch⟩ := found
        rw [Table.getRemove] at found
        split at found
        · cases found
        · exact found

theorem expireTends (sound : SoundRecords r.records r.nextEpoch) (h : r.Tended) {timeout : Nat}
    {now : Timestamp} {took : List Expiry} (expires : r.expire timeout now = (s, took)) :
    s.Tended ∧
    (∀ epoch, r.Tends epoch → s.Tends epoch ∨ epoch ∈ took.filterMap Expiry.loop) ∧
    ∀ x ∈ took, ∀ epoch ∈ x.loop, r.records.get? x.snapshot.id = some ⟨x.snapshot, epoch⟩ := by
  have tended := h.expelledAll (r.victims timeout now)
  have keeps (epoch : Nat) (there : r.Tends epoch) := expelAllKeeps r (r.victims timeout now) there
  have loops := expelAllLoops sound h (r.victims timeout now)
  rw [← expire, expires] at tended loops
  refine ⟨tended, fun epoch there => ?_, loops⟩
  have kept := keeps epoch there
  rwa [← expire, expires] at kept

structure Starts (r s : Registry) (orders : List LoopOrder) : Prop where
  tended : s.Tended
  keeps : ∀ epoch, r.Tends epoch → s.Tends epoch
  started : ∀ o ∈ orders, s.Tends o.epoch ∧ r.nextEpoch ≤ o.epoch ∧ o.epoch < s.nextEpoch
  distinct : (orders.map (·.epoch)).Nodup
  grows : r.nextEpoch ≤ s.nextEpoch

theorem Starts.none (h : r.Tended) : Starts r r [] :=
  ⟨h, fun _ there => there, by simp, .nil, Nat.le_refl _⟩

theorem Starts.both {a b : List LoopOrder} (first : Starts r s a) (second : Starts s t b) :
    Starts r t (a ++ b) := by
  refine ⟨second.tended, fun epoch there => second.keeps epoch (first.keeps epoch there),
    fun o mem => ?_, ?_, Nat.le_trans first.grows second.grows⟩
  · rcases List.mem_append.mp mem with mem | mem
    · obtain ⟨there, late, early⟩ := first.started o mem
      exact ⟨second.keeps _ there, late, Nat.lt_of_lt_of_le early second.grows⟩
    · obtain ⟨there, late, early⟩ := second.started o mem
      exact ⟨there, Nat.le_trans first.grows late, early⟩
  · rw [List.map_append]
    refine List.nodup_append.mpr ⟨first.distinct, second.distinct, ?_⟩
    rintro _ mine _ theirs rfl
    obtain ⟨o, ho, rfl⟩ := List.mem_map.mp mine
    obtain ⟨u, hu, same⟩ := List.mem_map.mp theirs
    have early := (first.started o ho).2.2
    have late := (second.started u hu).2.1
    omega

theorem enterStarts (h : r.Tended) {i : Instance} (free : r.busy i.id = false) :
    Starts r (r.enter i).1 (r.enter i).2 := by
  obtain ⟨gone, _⟩ := (freeIff r i.id).mp free
  have table : (r.enter i).1.supervised =
      if r.running then r.supervised.put i.id r.nextEpoch else r.supervised := rfl
  have orders : (r.enter i).2 = if r.running then [⟨i, r.nextEpoch⟩] else [] := rfl
  refine ⟨h.entered free, fun epoch there => ?_, fun o mem => ?_, ?_, Nat.le_succ _⟩
  · obtain ⟨id, found⟩ := there
    refine ⟨id, ?_⟩
    have apart : id ≠ i.id := fun same => by
      have own := (h id epoch found).2
      rw [same, gone] at own
      cases own
    rw [table]
    split
    · rw [Table.getPutOther _ _ apart, found]
    · exact found
  · rw [orders] at mem
    split at mem
    · rename_i runs
      cases List.mem_singleton.mp mem
      refine ⟨⟨i.id, ?_⟩, Nat.le_refl _, Nat.lt_succ_self _⟩
      rw [table, if_pos runs, Table.getPutSame]
    · cases mem
  · rw [orders]
    split <;> simp

theorem loadStarts (h : r.Tended) (now : Timestamp) (stored : List Instance) :
    Starts r (r.load now stored).1 (r.load now stored).2.2 := by
  induction stored generalizing r with
  | nil => exact .none h
  | cons i rest ih =>
    rcases loadOneCases r now i with same | ⟨j, _, free, entered⟩
    · simpa only [load, same, List.nil_append] using ih h
    · have first := enterStarts h free
      simpa only [load, entered] using first.both (ih first.tended)

section PutAll
variable {t : Table Nat} {entries : List (String × Record)} {id : String} {epoch : Nat}

def putAll (t : Table Nat) (entries : List (String × Record)) : Table Nat :=
  entries.foldl (fun t (id, x) => t.put id x.epoch) t

theorem putAllFound (found : (putAll t entries).get? id = some epoch) :
    t.get? id = some epoch ∨ ∃ x, (id, x) ∈ entries ∧ x.epoch = epoch := by
  induction entries generalizing t with
  | nil => exact .inl found
  | cons entry rest ih =>
    rcases ih found with old | ⟨x, mem, same⟩
    · rw [Table.getPut] at old
      split at old
      · rename_i mine
        cases old
        exact .inr ⟨entry.2, by rw [mine]; exact List.mem_cons_self, rfl⟩
      · exact .inl old
    · exact .inr ⟨x, List.mem_cons_of_mem _ mem, same⟩

theorem putAllKeeps (apart : id ∉ Table.keys entries) :
    (putAll t entries).get? id = t.get? id := by
  induction entries generalizing t with
  | nil => rfl
  | cons entry rest ih =>
    obtain ⟨other, later⟩ := not_or.mp (mt List.mem_cons.mpr apart)
    exact (ih later).trans (Table.getPutOther _ _ other)

theorem putAllHas (distinct : Table.Distinct entries) {x : Record} (mem : (id, x) ∈ entries) :
    (putAll t entries).get? id = some x.epoch := by
  induction entries generalizing t with
  | nil => cases mem
  | cons entry rest ih =>
    obtain ⟨fresh, distinct⟩ := List.nodup_cons.mp distinct
    rcases List.mem_cons.mp mem with rfl | later
    · exact (putAllKeeps fresh).trans (Table.getPutSame _ _ _)
    · exact ih distinct later

end PutAll

def untended (r : Registry) : Table Record :=
  r.records.filter fun (id, _) => !r.supervised.holds id

theorem runIs (r : Registry) :
    r.run = ({ r with running := true, supervised := putAll r.supervised r.untended },
      List.map (fun (_, x) => ⟨x.snapshot, x.epoch⟩) r.untended) := rfl

theorem memUntended {id : String} {x : Record} (distinct : r.records.Distinct)
    (mem : (id, x) ∈ r.untended) :
    r.records.get? id = some x ∧ r.supervised.get? id = none := by
  obtain ⟨entry, free⟩ := List.mem_filter.mp mem
  exact ⟨Table.getOfMem distinct entry, (Table.absentIff _ _).mp (by simpa using free)⟩

theorem untendedDistinct (distinct : r.records.Distinct) : Table.Distinct r.untended :=
  distinct.sublist (List.filter_sublist.map _)

theorem runTended (h : r.Tended) (distinct : r.records.Distinct)
    (still : ∀ id x, r.records.get? id = some x → id ∉ r.inFlight) : r.run.1.Tended := by
  intro id epoch found
  rw [runIs] at found
  rcases putAllFound found with old | ⟨x, mem, rfl⟩
  · exact h id epoch old
  · obtain ⟨live, _⟩ := memUntended distinct mem
    exact ⟨still id x live, congrArg (Option.map (·.epoch)) live⟩

theorem runKeeps (distinct : r.records.Distinct) {epoch : Nat} (there : r.Tends epoch) :
    r.run.1.Tends epoch := by
  obtain ⟨id, found⟩ := there
  refine ⟨id, ?_⟩
  rw [runIs]
  refine (putAllKeeps fun mem => ?_).trans found
  obtain ⟨⟨other, x⟩, entry, rfl⟩ := List.mem_map.mp mem
  rw [(memUntended distinct entry).2] at found
  cases found

theorem runStarted (h : r.Tended) (distinct : r.records.Distinct) (apart : r.Apart) :
    ∀ o ∈ r.run.2, r.run.1.Tends o.epoch ∧ ¬r.Tends o.epoch ∧
      ∃ id, (r.records.get? id).map (·.epoch) = some o.epoch := by
  intro o mem
  rw [runIs] at mem ⊢
  obtain ⟨⟨id, x⟩, entry, rfl⟩ := List.mem_map.mp mem
  obtain ⟨live, free⟩ := memUntended distinct entry
  have live : (r.records.get? id).map (·.epoch) = some x.epoch := by rw [live]; rfl
  refine ⟨⟨id, putAllHas (untendedDistinct distinct) entry⟩, fun ⟨other, held⟩ => ?_, id, live⟩
  rw [h.owner apart held live, free] at held
  cases held

theorem runDistinct (distinct : r.records.Distinct) (apart : r.Apart) :
    (r.run.2.map (·.epoch)).Nodup := by
  rw [runIs, List.map_map]
  refine List.Nodup.map_on (fun a ha b hb same => ?_) ((untendedDistinct distinct).of_map _)
  have la := (memUntended distinct ha).1
  have lb := (memUntended distinct hb).1
  have ids := apart a.1 b.1 a.2 b.2 la lb same
  rw [ids, lb] at la
  exact Prod.ext ids (Option.some.inj la).symm

end Registry
end ServiceDirectory
