import ServiceDirectory.Proofs.Outline
import ServiceDirectory.Proofs.Registrations

/-! Records against an outline: each thing that is done to the records has its counterpart in the
outline, and a change of status has none. -/
namespace ServiceDirectory

variable {r s : Registry} {o : Outline} {past : List Shown} {id : String} {n : Nat}

theorem freedNext {what : Outward} (at_ : Timestamp) (other : what ≠ .frees n id) :
    freed (⟨at_, what⟩ :: past) n id = freed past n id := by
  simp [freed, other]

theorem freedNow (at_ : Timestamp) (past : List Shown) (n : Nat) (id : String) :
    freed (⟨at_, .frees n id⟩ :: past) n id = true := by
  simp [freed]

theorem Hold.parksNext {what : Outward} {h : Hold} (at_ : Timestamp)
    (other : ∀ n, h = .sweep n → what ≠ .frees n id) :
    h.parks (⟨at_, what⟩ :: past) id = h.parks past id := by
  cases h with
  | sweep n => simp only [parks, freedNext at_ (other n rfl)]
  | _ => rfl

structure Registry.Drawn (r : Registry) (past : List Shown) (o : Outline) : Prop where
  live : ∀ id, (r.records.get? id).map Record.unrated = o.live id
  parked : ∀ id, id ∈ r.inFlight ↔ (o.hold id).parks past id = true
  away : ∀ id n, o.hold id = .sweep n → id ∈ r.inFlight → r.records.get? id = none
  nextEpoch : r.nextEpoch = o.nextEpoch

namespace Registry.Drawn

theorem same (h : r.Drawn past o)
    (records : ∀ id, (s.records.get? id).map Record.unrated =
      (r.records.get? id).map Record.unrated)
    (inFlight : s.inFlight = r.inFlight) (nextEpoch : s.nextEpoch = r.nextEpoch) :
    s.Drawn past o where
  live id := (records id).trans (h.live id)
  parked := inFlight ▸ h.parked
  away id n hold mem := by
    have gone := records id
    rwa [h.away id n hold (inFlight ▸ mem), Option.map_none, Option.map_eq_none_iff] at gone
  nextEpoch := nextEpoch.trans h.nextEpoch

theorem later {what : Outward} (at_ : Timestamp) (h : r.Drawn past o)
    (other : ∀ n id, what ≠ .frees n id) : r.Drawn (⟨at_, what⟩ :: past) o :=
  { h with parked := fun id => by rw [Hold.parksNext at_ fun n _ => other n id]; exact h.parked id }

theorem put (h : r.Drawn past o) (n : Nat) (stage : Milestone) : r.Drawn past (o.put n stage) :=
  ⟨h.live, h.parked, h.away, h.nextEpoch⟩

theorem add (h : r.Drawn past o) (stage : Milestone) : r.Drawn past (o.add stage) :=
  ⟨h.live, h.parked, h.away, h.nextEpoch⟩

theorem isSome (h : r.Drawn past o) (id : String) :
    (o.live id).isSome = (r.records.get? id).isSome := by
  rw [← h.live, Option.isSome_map]

theorem unheld (h : r.Drawn past o) {x : Record} (live : r.records.get? id = some x) :
    (o.hold id != .caller) = true ↔ id ∉ r.inFlight := by
  rw [bne_iff_ne]
  constructor
  · intro other mem
    cases hold : o.hold id with
    | caller => exact other hold
    | free => simpa [hold, Hold.parks] using (h.parked id).mp mem
    | sweep n =>
      rw [h.away id n hold mem] at live
      cases live
  · intro free hold
    exact free ((h.parked id).mpr (by simp [hold, Hold.parks]))

theorem lapsedFree (h : r.Drawn past o) {timeout : Nat} {at_ : Timestamp}
    (lapsed : o.lapsed timeout at_ id = true) : id ∉ r.inFlight := by
  obtain ⟨other, stale⟩ := Bool.and_eq_true_iff.mp lapsed
  rw [← h.live, Option.any_map] at stale
  cases live : r.records.get? id with
  | none => simp [live] at stale
  | some x => exact (h.unheld live).mp other

theorem busy (h : r.Drawn past o) (id : String) :
    r.busy id = ((o.live id).isSome || (o.hold id).parks past id) := by
  rw [Bool.eq_iff_iff, Bool.or_eq_true, ← h.parked, h.isSome]
  simp [Registry.busy, Table.holdsIff]

theorem park (h : r.Drawn past o) (id : String) : (r.park id).Drawn past (o.park id) where
  live := h.live
  parked other := by
    have mem : other ∈ (r.park id).inFlight ↔ other = id ∨ other ∈ r.inFlight := List.mem_cons
    rw [mem, Outline.parkHold]
    split
    · rename_i own
      simp [own, Hold.parks]
    · rename_i apart
      simp [apart, h.parked other]
  away other n hold mem := by
    have mem : other ∈ id :: r.inFlight := mem
    rw [Outline.parkHold] at hold
    split at hold
    · cases hold
    · rename_i apart
      exact h.away other n hold ((List.mem_cons.mp mem).resolve_left apart)
  nextEpoch := h.nextEpoch

theorem release (h : r.Drawn past o) (id : String) :
    (r.release id).Drawn past (o.release id) where
  live := h.live
  parked other := by
    rw [Registry.memRelease, Outline.releaseHold]
    split
    · rename_i own
      simp [own, Hold.parks]
    · rename_i apart
      simp [apart, h.parked other]
  away other n hold mem := by
    rw [Outline.releaseHold] at hold
    split at hold
    · cases hold
    · exact h.away other n hold ((Registry.memRelease r id other).mp mem).1
  nextEpoch := h.nextEpoch

theorem free (h : r.Drawn past o) (at_ : Timestamp) (hold : o.hold id = .sweep n) :
    (r.release id).Drawn (⟨at_, .frees n id⟩ :: past) o where
  live := h.live
  parked other := by
    rw [Registry.memRelease]
    by_cases own : other = id
    · subst own
      simp [hold, Hold.parks, freedNow]
    · rw [Hold.parksNext at_ fun m _ same => own (Outward.frees.inj same).2.symm, ← h.parked]
      simp [own]
  away other m held mem := h.away other m held ((Registry.memRelease r id other).mp mem).1
  nextEpoch := h.nextEpoch

theorem enter (h : r.Drawn past o) {i : Instance} (unparked : i.id ∉ r.inFlight) :
    (r.enter i).1.Drawn past (o.enter i) where
  live other := by
    have put : (r.enter i).1.records.get? other =
        if other = i.id then some ⟨i, r.nextEpoch⟩ else r.records.get? other := Table.getPut ..
    rw [put, Outline.enterLive]
    split
    · rw [← h.nextEpoch]
      rfl
    · exact h.live other
  parked := h.parked
  away other n hold mem := by
    have apart : other ≠ i.id := fun own => unparked (own ▸ mem)
    exact (Table.getPutOther r.records _ apart).trans (h.away other n hold mem)
  nextEpoch := congrArg (· + 1) h.nextEpoch

theorem remove (h : r.Drawn past o) (id : String) (records : s.records = r.records.remove id)
    (inFlight : s.inFlight = r.inFlight) (nextEpoch : s.nextEpoch = r.nextEpoch) :
    s.Drawn past (o.remove id) where
  live other := by
    rw [records, Table.getRemove, Outline.removeLive]
    split
    · rfl
    · exact h.live other
  parked := inFlight ▸ h.parked
  away other n hold mem := by
    rw [records, Table.getRemove]
    split
    · rfl
    · exact h.away other n hold (inFlight ▸ mem)
  nextEpoch := nextEpoch.trans h.nextEpoch

theorem touch (h : r.Drawn past o) (id : String) (now : Timestamp) :
    (r.touch id now).Drawn past (o.touch id now) where
  live other := by
    simp only [Registry.touch, Table.getAdjust, Outline.touchLive]
    split
    · rename_i own
      rw [own, ← h.live]
      cases r.records.get? id <;> rfl
    · exact h.live other
  parked := h.parked
  away other n hold mem := by
    simp only [Registry.touch, Table.getAdjust]
    rw [h.away other n hold mem]
    split <;> rfl
  nextEpoch := h.nextEpoch

theorem loadOne (h : r.Drawn past o) (now : Timestamp) (i : Instance) {parks : String → Bool}
    (asked : parks i.id = (o.hold i.id).parks past i.id) :
    (r.loadOne now i).1.Drawn past (o.loadOne parks now i).1 ∧
      (o.loadOne parks now i).2 = (r.loadOne now i).2.1 := by
  unfold Registry.loadOne Outline.loadOne
  rw [asked, ← h.busy]
  split
  · exact ⟨h, rfl⟩
  · rename_i admitted
    simp only [Bool.or_eq_true, not_or, Bool.not_eq_true] at admitted
    have unparked := ((Registry.freeIff r i.id).mp admitted.2).2
    exact ⟨h.enter (i := { i with status := .starting, lastHeartbeat := now }) unparked, rfl⟩

end Registry.Drawn

theorem Outline.loadOneHold (o : Outline) (parks : String → Bool) (at_ : Timestamp)
    (i : Instance) : (o.loadOne parks at_ i).1.hold = o.hold := by
  unfold loadOne
  split <;> rfl

theorem Outline.loadHold (o : Outline) (parks : String → Bool) (at_ : Timestamp)
    (stored : List Instance) : (o.load parks at_ stored).1.hold = o.hold := by
  induction stored generalizing o with
  | nil => rfl
  | cons i rest ih => exact (ih _).trans (o.loadOneHold parks at_ i)

theorem Registry.Drawn.load (h : r.Drawn past o) (now : Timestamp) (stored : List Instance)
    {parks : String → Bool}
    (asked : ∀ i ∈ stored, parks i.id = (o.hold i.id).parks past i.id) :
    (r.load now stored).1.Drawn past (o.load parks now stored).1 ∧
      (o.load parks now stored).2 = (r.load now stored).2.1 := by
  induction stored generalizing r o with
  | nil => exact ⟨h, rfl⟩
  | cons i rest ih =>
    obtain ⟨mine, others⟩ := List.forall_mem_cons.mp asked
    obtain ⟨drawn, came⟩ := h.loadOne now i mine
    obtain ⟨whole, more⟩ := ih drawn fun j mem => by
      rw [Outline.loadOneHold]
      exact others j mem
    exact ⟨whole, by simp only [Outline.load, Registry.load, came, more]⟩

def Lot (f : String → Option Instance) (l : List Instance) : Prop :=
  l.Nodup ∧ ∀ i, i ∈ l ↔ f i.id = some i

theorem Lot.perm {f : String → Option Instance} {l m : List Instance} (h : Lot f l) (g : Lot f m) :
    l.Perm m :=
  (List.perm_ext_iff_of_nodup h.1 g.1).mpr fun i => (h.2 i).trans (g.2 i).symm

theorem Lot.empty {l : List Instance} (h : Lot (fun _ => none) l) : l = [] :=
  List.eq_nil_iff_forall_not_mem.mpr fun i mem => by cases (h.2 i).mp mem

section Evicting
variable {timeout : Nat} {at_ : Timestamp} {took : List Expiry}

theorem memEvicted (sound : SoundRecords r.records r.nextEpoch) (h : r.Drawn past o)
    (expires : r.expire timeout at_ = (s, took)) (id : String) :
    id ∈ (took.map (·.snapshot)).map (·.id) ↔ o.lapsed timeout at_ id = true := by
  rw [Registry.expireTakes sound expires, Registry.memVictims sound]
  unfold Outline.lapsed
  rw [← h.live]
  cases found : r.records.get? id with
  | none => simp
  | some x =>
    rw [Bool.and_eq_true, h.unheld found]
    simp [Record.unrated, Instance.unrated, Instance.stale]

theorem Registry.Drawn.evict (sound : SoundRecords r.records r.nextEpoch) (h : r.Drawn past o)
    (expires : r.expire timeout at_ = (s, took)) (early : ∀ id, freed past n id = false) :
    s.Drawn past (o.evict timeout at_ n) := by
  obtain ⟨loses, nextEpoch⟩ := Registry.expireLoses sound expires
  have mem := memEvicted sound h expires
  have parks := Registry.expireParks sound expires
  refine ⟨fun id => ?_, fun id => ?_, fun id m hold parked => ?_, nextEpoch.trans h.nextEpoch⟩
  · simp only [Outline.evict]
    split
    · rename_i lapsed
      obtain ⟨i, inside, rfl⟩ := List.mem_map.mp ((mem id).mpr lapsed)
      rw [loses.left i inside]
      rfl
    · rename_i spared
      rw [loses.others id fun gone => spared ((mem id).mp gone)]
      exact h.live id
  · rw [parks, mem]
    simp only [Outline.evict]
    split
    · rename_i lapsed
      simp [lapsed, Hold.parks, early id]
    · rename_i spared
      simp [spared, h.parked id]
  · by_cases gone : id ∈ (took.map (·.snapshot)).map (·.id)
    · obtain ⟨i, inside, rfl⟩ := List.mem_map.mp gone
      exact loses.left i inside
    · simp only [Outline.evict, if_neg fun lapsed => gone ((mem id).mpr lapsed)] at hold
      rw [loses.others id gone]
      exact h.away id m hold (((parks id).mp parked).resolve_right gone)

theorem evictedLot (sound : SoundRecords r.records r.nextEpoch) (h : r.Drawn past o)
    (expires : r.expire timeout at_ = (s, took)) (n : Nat) :
    Lot ((o.evict timeout at_ n).took n) ((took.map (·.snapshot)).map Instance.unrated) ∧
      took.length = o.evicted timeout at_ := by
  have loses := (Registry.expireLoses sound expires).1
  have mem := memEvicted sound h expires
  have ids : ((took.map (·.snapshot)).map Instance.unrated).map (·.id) =
      (took.map (·.snapshot)).map (·.id) := by
    rw [List.map_map]
    rfl
  refine ⟨⟨List.Nodup.of_map (·.id) (ids ▸ loses.distinct), fun i => ?_⟩, ?_⟩
  · simp only [Outline.evict, Function.update_self]
    constructor
    · intro inside
      obtain ⟨j, there, rfl⟩ := List.mem_map.mp inside
      have lapsed := (mem j.id).mp (List.mem_map_of_mem there)
      obtain ⟨epoch, live⟩ := loses.was j there
      rw [show j.unrated.id = j.id from rfl, if_pos lapsed, ← h.live, live]
      rfl
    · intro taken
      split at taken
      · rename_i lapsed
        obtain ⟨j, there, own⟩ := List.mem_map.mp ((mem i.id).mpr lapsed)
        obtain ⟨epoch, live⟩ := loses.was j there
        rw [← h.live, ← own, live] at taken
        cases taken
        exact List.mem_map_of_mem there
      · cases taken
  · have whole : {id | o.lapsed timeout at_ id = true} =
        (((took.map (·.snapshot)).map (·.id)).toFinset : Set String) := by
      ext id
      simp only [Set.mem_ofPred_eq, List.coe_toFinset]
      exact (mem id).symm
    rw [Outline.evicted, whole, Set.ncard_coe_finset, List.toFinset_card_of_nodup loses.distinct,
      List.length_map, List.length_map]

end Evicting
end ServiceDirectory
