import ServiceDirectory.Proofs.Custody

/-! Revisions: the revision of a service moves exactly when a registration, a removal or a change of
status of one of its instances does, and never comes back to an earlier value. -/
namespace ServiceDirectory
namespace Registry
variable {r s t : Registry}

def standing (r : Registry) (service id : String) : Option (Instance × Nat) :=
  (r.records.get? id).bind fun x =>
    if x.snapshot.name = service then some (x.snapshot.unheard, x.epoch) else none

def Differs (r s : Registry) (service : String) : Prop :=
  ∃ id, s.standing service id ≠ r.standing service id

theorem standingOf {id : String} {x : Record} (live : r.records.get? id = some x)
    (service : String) : r.standing service id =
      if x.snapshot.name = service then some (x.snapshot.unheard, x.epoch) else none := by
  rw [standing, live]; rfl

theorem standingNone {id : String} (absent : r.records.get? id = none) (service : String) :
    r.standing service id = none := by
  rw [standing, absent]; rfl

theorem standingCongr {id : String} (same : s.records.get? id = r.records.get? id)
    (service : String) : s.standing service id = r.standing service id := by
  rw [standing, same]; rfl

structure Numbered (r : Registry) : Prop where
  given : ∀ n a, r.revisions.get? n = some a → 0 < a ∧ a ≤ r.lastRevision
  apart : ∀ m n a, r.revisions.get? m = some a → r.revisions.get? n = some a → m = n

theorem Numbered.revisionLe (h : r.Numbered) (service : String) :
    r.revision service ≤ r.lastRevision := by
  unfold revision
  cases found : r.revisions.get? service with
  | none => exact Nat.zero_le _
  | some a => exact (h.given service a found).2

theorem Numbered.revisionApart (h : r.Numbered) {m n : String} (differ : m ≠ n)
    (same : r.revision m = r.revision n) : r.revision m = 0 := by
  unfold revision at same ⊢
  cases left : r.revisions.get? m with
  | none => rfl
  | some a =>
    cases right : r.revisions.get? n with
    | none => simpa [left, right] using same
    | some b =>
      have equal : a = b := by simpa [left, right] using same
      exact absurd (h.apart m n a left (equal ▸ right)) differ

structure Bumps (r s : Registry) (services : List String) : Prop where
  numbered : r.Numbered → s.Numbered
  last : r.lastRevision ≤ s.lastRevision
  still : ∀ n, n ∉ services → s.revision n = r.revision n
  moves : ∀ n ∈ services, r.lastRevision < s.revision n

theorem Bumps.none (revisions : s.revisions = r.revisions)
    (last : s.lastRevision = r.lastRevision) : Bumps r s [] where
  numbered h := ⟨by rw [revisions, last]; exact h.given, by rw [revisions]; exact h.apart⟩
  last := Nat.le_of_eq last.symm
  still n _ := by rw [revision, revisions]; rfl
  moves _ mem := by cases mem

theorem Bumps.one {service : String}
    (revisions : s.revisions = r.revisions.put service (r.lastRevision + 1))
    (last : s.lastRevision = r.lastRevision + 1) : Bumps r s [service] where
  numbered h := by
    constructor
    · intro n a found
      rw [revisions, Table.getPut] at found
      rw [last]
      split at found
      · cases Option.some.inj found
        exact ⟨Nat.succ_pos _, Nat.le_refl _⟩
      · obtain ⟨positive, bound⟩ := h.given n a found
        exact ⟨positive, Nat.le_succ_of_le bound⟩
    · intro m n a left right
      rw [revisions, Table.getPut] at left right
      -- A revision given out before is not the one given out now.
      have old (k : String) (found : r.revisions.get? k = some (r.lastRevision + 1)) : False :=
        Nat.not_succ_le_self _ (h.given k _ found).2
      by_cases hm : m = service <;> by_cases hn : n = service
      · rw [hm, hn]
      · rw [if_pos hm] at left
        rw [if_neg hn] at right
        exact (old n (right.trans left.symm)).elim
      · rw [if_neg hm] at left
        rw [if_pos hn] at right
        exact (old m (left.trans right.symm)).elim
      · rw [if_neg hm] at left
        rw [if_neg hn] at right
        exact h.apart m n a left right
  last := last ▸ Nat.le_succ _
  still n unlisted := by
    rw [revision, revisions, Table.getPutOther _ _ (by simpa using unlisted)]; rfl
  moves n mem := by
    have now : s.revision service = r.lastRevision + 1 := by
      rw [revision, revisions, Table.getPutSame]; rfl
    rw [List.mem_singleton.mp mem, now]
    exact Nat.lt_succ_self _

theorem Bumps.both {a b : List String} (first : Bumps r s a) (second : Bumps s t b) :
    Bumps r t (a ++ b) where
  numbered h := second.numbered (first.numbered h)
  last := Nat.le_trans first.last second.last
  still n unlisted := by
    rw [List.mem_append, not_or] at unlisted
    rw [second.still n unlisted.2, first.still n unlisted.1]
  moves n mem := by
    by_cases late : n ∈ b
    · exact Nat.lt_of_le_of_lt first.last (second.moves n late)
    · rw [second.still n late]
      exact first.moves n ((List.mem_append.mp mem).resolve_right late)

theorem loadBumps (r : Registry) (now : Timestamp) (stored : List Instance) :
    Bumps r (r.load now stored).1 ((r.load now stored).2.1.map (·.name)) := by
  induction stored generalizing r with
  | nil => exact .none rfl rfl
  | cons i rest ih =>
    rcases loadOneCases r now i with same | ⟨j, _, _, entered⟩
    · simpa only [load, same, List.nil_append] using ih r
    · have one : Bumps r (r.enter j).1 [j.name] := .one rfl rfl
      simpa only [load, entered, List.singleton_append, List.map_cons] using one.both (ih _)

theorem expelAllBumps (r : Registry) (ids : List String) :
    Bumps r (r.expelAll ids).1 (((r.expelAll ids).2.map (·.snapshot)).map (·.name)) := by
  induction ids generalizing r with
  | nil => exact .none rfl rfl
  | cons id rest ih =>
    simp only [expelAll, List.map_append]
    refine Bumps.both ?_ (ih _)
    unfold expel
    split
    · exact .none rfl rfl
    · exact .one rfl rfl

theorem gainsDiffers {came : List Instance} (gains : Gains r s came) (service : String) :
    r.Differs s service ↔ service ∈ came.map (·.name) := by
  constructor
  · rintro ⟨id, differs⟩
    by_cases mem : id ∈ came.map (·.id)
    · obtain ⟨i, hi, rfl⟩ := List.mem_map.mp mem
      obtain ⟨epoch, _, live⟩ := gains.here i hi
      rw [standingOf live, standingNone (gains.fresh i hi).1] at differs
      split at differs
      · rename_i same; exact List.mem_map.mpr ⟨i, hi, same⟩
      · exact absurd rfl differs
    · exact absurd (standingCongr (gains.others id mem) service) differs
  · intro mem
    obtain ⟨i, hi, rfl⟩ := List.mem_map.mp mem
    obtain ⟨epoch, _, live⟩ := gains.here i hi
    refine ⟨i.id, ?_⟩
    rw [standingOf live, standingNone (gains.fresh i hi).1, if_pos rfl]
    exact Option.some_ne_none _

theorem losesDiffers {gone : List Instance} (loses : Loses r s gone) (service : String) :
    r.Differs s service ↔ service ∈ gone.map (·.name) := by
  constructor
  · rintro ⟨id, differs⟩
    by_cases mem : id ∈ gone.map (·.id)
    · obtain ⟨i, hi, rfl⟩ := List.mem_map.mp mem
      obtain ⟨epoch, live⟩ := loses.was i hi
      rw [standingOf live, standingNone (loses.left i hi)] at differs
      split at differs
      · rename_i same; exact List.mem_map.mpr ⟨i, hi, same⟩
      · exact absurd rfl differs
    · exact absurd (standingCongr (loses.others id mem) service) differs
  · intro mem
    obtain ⟨i, hi, rfl⟩ := List.mem_map.mp mem
    obtain ⟨epoch, live⟩ := loses.was i hi
    refine ⟨i.id, ?_⟩
    rw [standingOf live, standingNone (loses.left i hi), if_pos rfl]
    exact (Option.some_ne_none _).symm

theorem sameDiffers (same : ∀ id service, s.standing service id = r.standing service id)
    (service : String) : r.Differs s service ↔ service ∈ ([] : List String) :=
  ⟨fun ⟨id, differs⟩ => absurd (same id service) differs, fun mem => by cases mem⟩

theorem movedDiffers {id : String} {x : Record} {i : Instance}
    (live : r.records.get? id = some x) (differs : i.status ≠ x.snapshot.status)
    (later : x.snapshot.Continues i) (records : s.records = r.records.put id ⟨i, x.epoch⟩)
    (service : String) : r.Differs s service ↔ service ∈ [i.name] := by
  have live' : s.records.get? id = some ⟨i, x.epoch⟩ := by rw [records, Table.getPutSame]
  have name : i.name = x.snapshot.name := by rw [later.1]
  constructor
  · rintro ⟨other, moved⟩
    by_cases same : other = id
    · subst same
      rw [standingOf live', standingOf live] at moved
      simp only [name] at moved
      split at moved
      · rename_i mine; exact List.mem_singleton.mpr (name ▸ mine.symm)
      · exact absurd rfl moved
    · refine absurd (standingCongr ?_ service) moved
      rw [records, Table.getPutOther _ _ same]
  · intro mem
    cases List.mem_singleton.mp mem
    refine ⟨id, ?_⟩
    rw [standingOf live', standingOf live, if_pos rfl, if_pos name.symm]
    intro same
    have status := congrArg (fun o => o.map fun p => p.1.status) same
    exact differs (by simpa [Instance.unheard] using status)

structure Follows (r s : Registry) : Prop where
  numbered : s.Numbered
  last : r.lastRevision ≤ s.lastRevision
  still : ∀ n, ¬ r.Differs s n → s.revision n = r.revision n
  moves : ∀ n, r.Differs s n → r.lastRevision < s.revision n

theorem Bumps.follows {services : List String} (bumps : Bumps r s services) (h : r.Numbered)
    (differs : ∀ n, r.Differs s n ↔ n ∈ services) : Follows r s where
  numbered := bumps.numbered h
  last := bumps.last
  still n same := bumps.still n fun mem => same ((differs n).mpr mem)
  moves n differ := bumps.moves n ((differs n).mp differ)

theorem Follows.unseen (h : r.Numbered)
    (same : ∀ id service, s.standing service id = r.standing service id)
    (revisions : s.revisions = r.revisions) (last : s.lastRevision = r.lastRevision) :
    Follows r s :=
  (Bumps.none revisions last).follows h (sameDiffers same)

theorem touchStanding (r : Registry) (id : String) (now : Timestamp) (other service : String) :
    (r.touch id now).standing service other = r.standing service other := by
  by_cases same : other = id
  · subst same
    simp only [standing, touch, Table.getAdjust, if_pos]
    cases r.records.get? other <;> rfl
  · exact standingCongr (by simp [touch, Table.getAdjust, same]) service

end Registry

section Turn
open Registry
variable {r s : Registry} {now : Timestamp} {before after : Option Call} {told : List Event}

theorem turnFollows (sound : SoundRecords r.records r.nextEpoch) (numbered : r.Numbered)
    (vacant : ∀ i ∈ before.elim [] Call.admits, r.records.get? i.id = none)
    (turn : Turn r now before s after told) : Follows r s := by
  have quiet (s : Registry) (records : s.records = r.records)
      (revisions : s.revisions = r.revisions) (last : s.lastRevision = r.lastRevision) :
      Follows r s :=
    .unseen numbered (fun id service => standingCongr (by rw [records]) service) revisions last
  cases turn with
  | along hands calm => exact quiet _ calm.records calm.revisions calm.lastRevision
  | heard id at_ => exact .unseen numbered (touchStanding r id at_) rfl rfl
  | reordered perm =>
    exact .unseen numbered
      (fun id service => standingCongr (Table.getPerm sound.distinct perm id) service) rfl rfl
  | reserved => exact quiet _ rfl rfl rfl
  | dropped => exact quiet _ rfl rfl rfl
  | lost => exact quiet _ rfl rfl rfl
  | entered i =>
    have free : (r.release i.id).busy i.id = false :=
      (freeIff _ _).mpr ⟨vacant i List.mem_cons_self, by simp [release]⟩
    have one : Bumps r (r.commit i).1 [i.name] := .one rfl rfl
    exact one.follows numbered (gainsDiffers (enterGains (r.release i.id) i free))
  | removing id live free records parked revisions lastRevision =>
    exact quiet _ records revisions lastRevision
  | @left id x live =>
    have same : (r.release id).records.get? id = some x := live
    have one : Bumps r (r.finishRemoval id).1 [x.snapshot.name] :=
      .one (by simp only [finishRemoval, same]; rfl) (by simp only [finishRemoval, same]; rfl)
    exact one.follows numbered (losesDiffers (removeLoses sound live (leaveRecords live).1))
  | collected at_ timeout =>
    exact (expelAllBumps r _).follows numbered (losesDiffers (expelAllLoses sound _))
  | releasing => exact quiet _ rfl rfl rfl
  | expired => exact quiet _ rfl rfl rfl
  | loaded stored at_ =>
    exact (loadBumps r at_ stored).follows numbered (gainsDiffers (loadGains r at_ stored))
  | told => exact quiet _ rfl rfl rfl
  | silent => exact quiet _ rfl rfl rfl
  | @moved id x i live free differs later =>
    have one : Bumps r ({ r with records := r.records.put id ⟨i, x.epoch⟩ }.bump i.name) [i.name] :=
      .one rfl rfl
    exact one.follows numbered (movedDiffers live differs later rfl)

end Turn
end ServiceDirectory
