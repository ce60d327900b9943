import ServiceDirectory.Directory.Registry
import ServiceDirectory.Proofs.Snapshots
import ServiceDirectory.Proofs.Table

/-! The live records through every change that is made to them: which ids come in, which go, and
what is parked meanwhile. -/
namespace ServiceDirectory

structure SoundRecords (t : Table Record) (epochs : Nat) : Prop where
  distinct : t.Distinct
  own : ∀ id x, t.get? id = some x → x.snapshot.id = id
  past : ∀ id x, t.get? id = some x → x.epoch < epochs

namespace SoundRecords
variable {t : Table Record} {epochs : Nat}

theorem put (h : SoundRecords t epochs) (x : Record) {later : Nat} (grows : epochs ≤ later)
    (given : x.epoch < later) : SoundRecords (t.put x.snapshot.id x) later where
  distinct := Table.putDistinct h.distinct _ _
  own id y found := by
    rw [Table.getPut] at found
    split at found
    · rename_i same
      cases Option.some.inj found
      exact same.symm
    · exact h.own id y found
  past id y found := by
    rw [Table.getPut] at found
    split at found
    · cases Option.some.inj found
      exact given
    · exact Nat.lt_of_lt_of_le (h.past id y found) grows

theorem remove (h : SoundRecords t epochs) (id : String) : SoundRecords (t.remove id) epochs where
  distinct := Table.removeDistinct h.distinct id
  own other x found := by
    rw [Table.getRemove] at found
    split at found
    · contradiction
    · exact h.own other x found
  past other x found := by
    rw [Table.getRemove] at found
    split at found
    · contradiction
    · exact h.past other x found

theorem touch (h : SoundRecords t epochs) (id : String) (now : Timestamp) :
    SoundRecords (t.adjust id fun x => { x with snapshot := x.snapshot.touch now }) epochs where
  distinct := Table.adjustDistinct h.distinct _ _
  own other x found := by
    rw [Table.getAdjust] at found
    split at found
    · obtain ⟨y, hy, rfl⟩ := Option.map_eq_some_iff.mp found
      exact h.own other y hy
    · exact h.own other x found
  past other x found := by
    rw [Table.getAdjust] at found
    split at found
    · obtain ⟨y, hy, rfl⟩ := Option.map_eq_some_iff.mp found
      exact h.past other y hy
    · exact h.past other x found

theorem reorder (h : SoundRecords t epochs) {u : Table Record} (perm : u.Perm t) :
    SoundRecords u epochs where
  distinct := ((perm.map Prod.fst).nodup_iff).mpr h.distinct
  own id x found := h.own id x (Table.getPerm h.distinct perm id ▸ found)
  past id x found := h.past id x (Table.getPerm h.distinct perm id ▸ found)

end SoundRecords

namespace Registry
variable {r s t : Registry}

theorem freeIff (r : Registry) (id : String) :
    r.busy id = false ↔ r.records.get? id = none ∧ id ∉ r.inFlight := by
  simp [busy, Table.absentIff]

theorem memRelease (r : Registry) (id other : String) :
    other ∈ (r.release id).inFlight ↔ other ∈ r.inFlight ∧ other ≠ id := by
  simp [release]

structure Gains (r s : Registry) (came : List Instance) : Prop where
  distinct : (came.map (·.id)).Nodup
  fresh : ∀ i ∈ came, r.records.get? i.id = none ∧ i.id ∉ r.inFlight
  here : ∀ i ∈ came, ∃ epoch, r.nextEpoch ≤ epoch ∧ s.records.get? i.id = some ⟨i, epoch⟩
  others : ∀ id, id ∉ came.map (·.id) → s.records.get? id = r.records.get? id
  inFlight : s.inFlight = r.inFlight
  epochs : r.nextEpoch ≤ s.nextEpoch

theorem Gains.none (r : Registry) : Gains r r [] :=
  ⟨.nil, by simp, by simp, fun _ _ => rfl, rfl, Nat.le_refl _⟩

theorem Gains.holds {came : List Instance} (gains : Gains r s came) {id : String}
    (live : r.records.holds id = true) : s.records.holds id = true := by
  rw [Table.holdsIff] at live ⊢
  rwa [gains.others]
  intro mem
  obtain ⟨i, here, rfl⟩ := List.mem_map.mp mem
  rw [(gains.fresh i here).1] at live
  cases live

theorem Gains.both {a b : List Instance} (first : Gains r s a) (second : Gains s t b) :
    Gains r t (a ++ b) := by
  have apart : ∀ i ∈ a, ∀ j ∈ b, i.id ≠ j.id := by
    intro i hi j hj same
    obtain ⟨epoch, _, live⟩ := first.here i hi
    rw [same, (second.fresh j hj).1] at live
    contradiction
  refine ⟨?_, ?_, ?_, ?_, second.inFlight.trans first.inFlight,
    Nat.le_trans first.epochs second.epochs⟩
  · rw [List.map_append, List.nodup_append]
    refine ⟨first.distinct, second.distinct, ?_⟩
    rintro _ ha _ hb
    obtain ⟨i, hi, rfl⟩ := List.mem_map.mp ha
    obtain ⟨j, hj, rfl⟩ := List.mem_map.mp hb
    exact apart i hi j hj
  · intro i hi
    rcases List.mem_append.mp hi with hi | hi
    · exact first.fresh i hi
    · have unseen : i.id ∉ a.map (·.id) := fun mem => by
        obtain ⟨j, hj, same⟩ := List.mem_map.mp mem
        exact apart j hj i hi same
      exact ⟨first.others _ unseen ▸ (second.fresh i hi).1,
        first.inFlight ▸ (second.fresh i hi).2⟩
  · intro i hi
    rcases List.mem_append.mp hi with hi | hi
    · obtain ⟨epoch, late, live⟩ := first.here i hi
      refine ⟨epoch, late, ?_⟩
      rw [second.others, live]
      intro mem
      obtain ⟨j, hj, same⟩ := List.mem_map.mp mem
      exact apart i hi j hj same.symm
    · obtain ⟨epoch, late, live⟩ := second.here i hi
      exact ⟨epoch, Nat.le_trans first.epochs late, live⟩
  · intro id unseen
    simp only [List.map_append, List.mem_append, not_or] at unseen
    rw [second.others id unseen.2, first.others id unseen.1]

theorem enterGains (r : Registry) (i : Instance) (free : r.busy i.id = false) :
    Gains r (r.enter i).1 [i] where
  distinct := by simp
  fresh j mem := by
    cases List.mem_singleton.mp mem
    exact (freeIff r i.id).mp free
  here j mem := by
    cases List.mem_singleton.mp mem
    exact ⟨r.nextEpoch, Nat.le_refl _, Table.getPutSame _ _ _⟩
  others id unseen := Table.getPutOther _ _ (by simpa using unseen)
  inFlight := rfl
  epochs := Nat.le_succ _

theorem enterSound (h : SoundRecords r.records r.nextEpoch) (i : Instance) :
    SoundRecords (r.enter i).1.records (r.enter i).1.nextEpoch :=
  h.put ⟨i, r.nextEpoch⟩ (Nat.le_succ _) (Nat.lt_succ_self _)

theorem loadOneCases (r : Registry) (now : Timestamp) (i : Instance) :
    r.loadOne now i = (r, [], []) ∨
      ∃ j : Instance, j.status = .starting ∧ r.busy j.id = false ∧
        r.loadOne now i = ((r.enter j).1, [j], (r.enter j).2) := by
  unfold loadOne
  split
  · exact .inl rfl
  · rename_i admitted
    simp only [Bool.or_eq_true, not_or, Bool.not_eq_true] at admitted
    exact .inr ⟨{ i with status := .starting, lastHeartbeat := now }, rfl, admitted.2, rfl⟩

theorem loadGains (r : Registry) (now : Timestamp) (stored : List Instance) :
    Gains r (r.load now stored).1 (r.load now stored).2.1 := by
  induction stored generalizing r with
  | nil => exact .none r
  | cons i rest ih =>
    rcases loadOneCases r now i with same | ⟨j, _, free, entered⟩
    · simpa only [load, same, List.nil_append] using ih r
    · simpa only [load, entered] using (enterGains r j free).both (ih _)

theorem loadSound (h : SoundRecords r.records r.nextEpoch) (now : Timestamp)
    (stored : List Instance) :
    SoundRecords (r.load now stored).1.records (r.load now stored).1.nextEpoch := by
  induction stored generalizing r with
  | nil => exact h
  | cons i rest ih =>
    rcases loadOneCases r now i with same | ⟨j, _, _, entered⟩
    · simpa only [load, same] using ih h
    · simpa only [load, entered] using ih (enterSound h j)

theorem loadedStarting (r : Registry) (now : Timestamp) (stored : List Instance) :
    ∀ i ∈ (r.load now stored).2.1, i.status = .starting := by
  induction stored generalizing r with
  | nil => simp [load]
  | cons i rest ih =>
    rcases loadOneCases r now i with same | ⟨j, starting, _, entered⟩
    · simpa only [load, same, List.nil_append] using ih r
    · simp only [load, entered, List.singleton_append, List.mem_cons, forall_eq_or_imp]
      exact ⟨starting, ih _⟩

structure Loses (r s : Registry) (gone : List Instance) : Prop where
  distinct : (gone.map (·.id)).Nodup
  was : ∀ i ∈ gone, ∃ epoch, r.records.get? i.id = some ⟨i, epoch⟩
  left : ∀ i ∈ gone, s.records.get? i.id = none
  others : ∀ id, id ∉ gone.map (·.id) → s.records.get? id = r.records.get? id

theorem Loses.none (r : Registry) : Loses r r [] :=
  ⟨.nil, by simp, by simp, fun _ _ => rfl⟩

theorem Loses.holds {gone : List Instance} (loses : Loses r s gone) {id : String}
    (stays : id ∉ gone.map (·.id)) (live : r.records.holds id = true) :
    s.records.holds id = true := by
  rw [Table.holdsIff] at live ⊢
  rwa [loses.others id stays]

theorem Loses.both {a b : List Instance} (first : Loses r s a) (second : Loses s t b) :
    Loses r t (a ++ b) := by
  have apart : ∀ i ∈ a, ∀ j ∈ b, i.id ≠ j.id := by
    intro i hi j hj same
    obtain ⟨epoch, live⟩ := second.was j hj
    rw [← same, first.left i hi] at live
    contradiction
  refine ⟨?_, ?_, ?_, ?_⟩
  · rw [List.map_append, List.nodup_append]
    refine ⟨first.distinct, second.distinct, ?_⟩
    rintro _ ha _ hb
    obtain ⟨i, hi, rfl⟩ := List.mem_map.mp ha
    obtain ⟨j, hj, rfl⟩ := List.mem_map.mp hb
    exact apart i hi j hj
  · intro i hi
    rcases List.mem_append.mp hi with hi | hi
    · exact first.was i hi
    · obtain ⟨epoch, live⟩ := second.was i hi
      refine ⟨epoch, ?_⟩
      rw [← live, first.others]
      intro mem
      obtain ⟨j, hj, same⟩ := List.mem_map.mp mem
      exact apart j hj i hi same
  · intro i hi
    rcases List.mem_append.mp hi with hi | hi
    · rw [second.others, first.left i hi]
      intro mem
      obtain ⟨j, hj, same⟩ := List.mem_map.mp mem
      exact apart i hi j hj same.symm
    · exact second.left i hi
  · intro id unseen
    simp only [List.map_append, List.mem_append, not_or] at unseen
    rw [second.others id unseen.2, first.others id unseen.1]

theorem expelCases (h : SoundRecords r.records r.nextEpoch) (id : String) :
    (r.records.get? id = none ∧ r.expel id = (r, [])) ∨
      ∃ x : Record, r.records.get? id = some x ∧ x.snapshot.id = id ∧
        (r.expel id).1.records = r.records.remove id ∧
        (r.expel id).1.nextEpoch = r.nextEpoch ∧
        (r.expel id).1.inFlight = id :: r.inFlight ∧
        (r.expel id).2.map (·.snapshot) = [x.snapshot] := by
  unfold expel
  cases found : r.records.get? id with
  | none => exact .inl ⟨rfl, rfl⟩
  | some x => exact .inr ⟨x, rfl, h.own id x found, rfl, rfl, rfl, rfl⟩

theorem expelSound (h : SoundRecords r.records r.nextEpoch) (id : String) :
    SoundRecords (r.expel id).1.records (r.expel id).1.nextEpoch := by
  rcases expelCases h id with ⟨_, same⟩ | ⟨_, _, _, records, epochs, _, _⟩
  · rw [same]; exact h
  · rw [records, epochs]; exact h.remove id

theorem removeLoses (own : SoundRecords r.records r.nextEpoch) {id : String} {x : Record}
    (live : r.records.get? id = some x) (records : s.records = r.records.remove id) :
    Loses r s [x.snapshot] where
  distinct := by simp
  was i mem := by
    cases List.mem_singleton.mp mem
    exact ⟨x.epoch, by rw [own.own id x live]; exact live⟩
  left i mem := by
    cases List.mem_singleton.mp mem
    rw [records, own.own id x live, Table.getRemoveSame]
  others other unseen := by
    have apart : other ≠ id := by simpa [own.own id x live] using unseen
    rw [records, Table.getRemove, if_neg apart]

theorem expelLoses (h : SoundRecords r.records r.nextEpoch) (id : String) :
    Loses r (r.expel id).1 ((r.expel id).2.map (·.snapshot)) := by
  rcases expelCases h id with ⟨_, same⟩ | ⟨x, live, _, records, _, _, out⟩
  · rw [same]; exact .none r
  · rw [out]; exact removeLoses h live records

theorem expelAllSound (h : SoundRecords r.records r.nextEpoch) (ids : List String) :
    SoundRecords (r.expelAll ids).1.records (r.expelAll ids).1.nextEpoch := by
  induction ids generalizing r with
  | nil => exact h
  | cons id rest ih => exact ih (expelSound h id)

theorem expelAllLoses (h : SoundRecords r.records r.nextEpoch) (ids : List String) :
    Loses r (r.expelAll ids).1 ((r.expelAll ids).2.map (·.snapshot)) := by
  induction ids generalizing r with
  | nil => exact .none r
  | cons id rest ih =>
    simp only [expelAll, List.map_append]
    exact (expelLoses h id).both (ih (expelSound h id))

theorem expelAllParks (h : SoundRecords r.records r.nextEpoch) (ids : List String)
    (other : String) :
    other ∈ (r.expelAll ids).1.inFlight ↔
      other ∈ r.inFlight ∨ other ∈ ((r.expelAll ids).2.map (·.snapshot)).map (·.id) := by
  induction ids generalizing r with
  | nil => simp [expelAll]
  | cons id rest ih =>
    simp only [expelAll, List.map_append, List.mem_append]
    rw [ih (expelSound h id)]
    rcases expelCases h id with ⟨_, same⟩ | ⟨x, _, own, _, _, parked, out⟩
    · simp [same]
    · rw [parked, out, List.map_singleton, own, List.mem_cons, List.mem_singleton,
        or_comm (a := other = id), or_assoc]

theorem expelAllTakes (h : SoundRecords r.records r.nextEpoch) {ids : List String}
    (distinct : ids.Nodup) (live : ∀ id ∈ ids, r.records.holds id = true) :
    ((r.expelAll ids).2.map (·.snapshot)).map (·.id) = ids := by
  induction ids generalizing r with
  | nil => rfl
  | cons id rest ih =>
    obtain ⟨fresh, distinct⟩ := List.nodup_cons.mp distinct
    obtain ⟨mine, others⟩ := List.forall_mem_cons.mp live
    rcases expelCases h id with ⟨gone, _⟩ | ⟨x, _, own, records, _, _, out⟩
    · rw [Table.holdsIff, gone] at mine
      cases mine
    · have still : ∀ other ∈ rest, (r.expel id).1.records.holds other = true := fun other mem => by
        have apart : other ≠ id := fun same => fresh (same ▸ mem)
        rw [Table.holdsIff, records, Table.getRemove, if_neg apart, ← Table.holdsIff]
        exact others other mem
      have more := ih (expelSound h id) distinct still
      rw [expelAll, List.map_append, List.map_append, out, more, List.map_singleton, own,
        List.singleton_append]

theorem memVictims (h : SoundRecords r.records r.nextEpoch) (timeout : Nat) (now : Timestamp)
    {id : String} : id ∈ r.victims timeout now ↔ id ∉ r.inFlight ∧
      ∃ x, r.records.get? id = some x ∧ x.snapshot.stale timeout now = true := by
  simp only [victims, List.mem_map, List.mem_filter, expired, Bool.and_eq_true, Prod.exists,
    Table.memIffGet h.distinct]
  constructor
  · rintro ⟨other, x, ⟨live, free, stale⟩, rfl⟩
    exact ⟨by simpa using free, x, live, stale⟩
  · rintro ⟨free, x, live, stale⟩
    exact ⟨id, x, ⟨live, by simpa using free, stale⟩, rfl⟩

theorem expireTakes (h : SoundRecords r.records r.nextEpoch) {timeout : Nat} {now : Timestamp}
    {took : List Expiry} (expires : r.expire timeout now = (s, took)) :
    (took.map (·.snapshot)).map (·.id) = r.victims timeout now := by
  have distinct : (r.victims timeout now).Nodup :=
    List.Pairwise.sublist (List.Sublist.map Prod.fst List.filter_sublist) h.distinct
  have takes := expelAllTakes h distinct fun id mem => by
    obtain ⟨_, x, live, _⟩ := (memVictims h timeout now).mp mem
    rw [Table.holdsIff, live]
    rfl
  rwa [← expire, expires] at takes

theorem expiredUnparked (h : SoundRecords r.records r.nextEpoch) (timeout : Nat) (now : Timestamp) :
    ∀ i ∈ (r.expire timeout now).2.map (·.snapshot), i.id ∉ r.inFlight := by
  intro i mem
  have victim : i.id ∈ r.victims timeout now := by
    rw [← expireTakes h (Prod.eta _).symm]
    exact List.mem_map_of_mem mem
  exact ((memVictims h timeout now).mp victim).1

theorem transitionMoves {refresh : Bool} {now observedAt : Timestamp} {id : String} {epoch : Nat}
    {after : Status} {event : Event}
    (told : r.transition refresh now id epoch after observedAt = (s, some event)) :
    ∃ (x : Record) (i : Instance), r.records.get? id = some x ∧ id ∉ r.inFlight ∧
      i.status ≠ x.snapshot.status ∧ x.snapshot.Continues i ∧
      event = .statusChange i x.snapshot.status now ∧
      s = { r with records := r.records.put id ⟨i, x.epoch⟩ }.bump i.name := by
  unfold transition at told
  split at told
  · cases told
  rename_i free
  split at told
  · cases told
  rename_i x found
  split at told
  · cases told
  rename_i live
  simp only [Bool.or_eq_true, bne_iff_ne, beq_iff_eq, not_or, ne_eq, Decidable.not_not] at live
  obtain ⟨rfl, differs⟩ := live
  cases told
  refine ⟨x, _, found, by simpa using free, ?_, ?_, rfl, rfl⟩
  · split <;> exact Ne.symm differs
  · split
    · exact ⟨rfl, Instance.touchForward _ _⟩
    · exact ⟨rfl, Int.le_refl _⟩

theorem transitionIgnored {refresh : Bool} {now observedAt : Timestamp} {id : String} {epoch : Nat}
    {after : Status} (silent : r.transition refresh now id epoch after observedAt = (s, none)) :
    s = r := by
  unfold transition at silent
  split at silent
  · exact (congrArg Prod.fst silent).symm
  split at silent
  · exact (congrArg Prod.fst silent).symm
  split at silent
  · exact (congrArg Prod.fst silent).symm
  · cases silent

end Registry
end ServiceDirectory
