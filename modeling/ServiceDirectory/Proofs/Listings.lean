import Mathlib.Data.List.Nodup
import ServiceDirectory.Proofs.Revisions

/-! The listing of a service, by ids, is settled by what each id counts for in it. -/
namespace ServiceDirectory
namespace Registry
variable {r s : Registry}

def listed (service : String) (includeDown : Bool) (i : Instance) : Bool :=
  i.name == service && (includeDown || i.status != .down)

def byId (i j : Instance) : Bool := decide (i.id ≤ j.id)

theorem listEq (r : Registry) (service : String) (includeDown : Bool) :
    r.list service includeDown = (r.live.filter (listed service includeDown)).mergeSort byId := rfl

theorem memLive (sound : SoundRecords r.records r.nextEpoch) (i : Instance) :
    i ∈ r.live ↔ ∃ epoch, r.records.get? i.id = some ⟨i, epoch⟩ := by
  simp only [live, Table.values, List.map_map, List.mem_map, Function.comp_apply]
  constructor
  · rintro ⟨⟨id, x⟩, mem, rfl⟩
    have found := (Table.memIffGet sound.distinct id x).mp mem
    exact ⟨x.epoch, by rw [sound.own id x found]; exact found⟩
  · rintro ⟨epoch, found⟩
    exact ⟨(i.id, ⟨i, epoch⟩), Table.memOfGet found, rfl⟩

theorem memList (sound : SoundRecords r.records r.nextEpoch) (service : String)
    (includeDown : Bool) (i : Instance) :
    i ∈ r.list service includeDown ↔
      (∃ epoch, r.records.get? i.id = some ⟨i, epoch⟩) ∧ i.name = service ∧
        (includeDown = true ∨ i.status ≠ .down) := by
  rw [listEq, List.mem_mergeSort, List.mem_filter, memLive sound]
  simp [listed]

theorem liveIdsDistinct (sound : SoundRecords r.records r.nextEpoch) :
    (r.live.map (·.id)).Nodup := by
  have keys : r.live.map (·.id) = r.records.keys := by
    simp only [live, Table.values, Table.keys, List.map_map]
    refine List.map_congr_left fun entry mem => ?_
    exact sound.own entry.1 entry.2 ((Table.memIffGet sound.distinct _ _).mp mem)
  rw [keys]
  exact sound.distinct

theorem filteredIdsDistinct (sound : SoundRecords r.records r.nextEpoch) (p : Instance → Bool) :
    ((r.live.filter p).map (·.id)).Nodup :=
  List.Nodup.sublist (List.Sublist.map _ List.filter_sublist) (liveIdsDistinct sound)

theorem byIdSorted (l : List Instance) :
    (l.mergeSort byId).Pairwise fun i j => byId i j = true := by
  refine List.pairwise_mergeSort ?_ ?_ l
  · intro i j k first second
    simp only [byId, decide_eq_true_eq] at first second ⊢
    exact String.le_trans first second
  · intro i j
    simpa [byId] using String.le_total i.id j.id

theorem sortPerm {l m : List Instance} (perm : l.Perm m) (distinct : (l.map (·.id)).Nodup) :
    l.mergeSort byId = m.mergeSort byId := by
  have apart : ∀ i ∈ l, ∀ j ∈ l, i.id = j.id → i = j := fun i hi j hj same =>
    List.inj_on_of_nodup_map distinct hi hj same
  refine List.Perm.eq_of_pairwise ?_ (byIdSorted l) (byIdSorted m)
    ((List.mergeSort_perm l byId).trans (perm.trans (List.mergeSort_perm m byId).symm))
  intro i j hi hj first second
  exact apart i (List.mem_mergeSort.mp hi) j (perm.mem_iff.mpr (List.mem_mergeSort.mp hj))
    (String.le_antisymm (of_decide_eq_true first) (of_decide_eq_true second))

theorem mapUnheardList (r : Registry) (service : String) (includeDown : Bool) :
    (r.list service includeDown).map Instance.unheard =
      ((r.live.filter (listed service includeDown)).map Instance.unheard).mergeSort byId :=
  List.map_mergeSort fun _ _ _ _ => rfl

theorem memUnheard (sound : SoundRecords r.records r.nextEpoch) (service : String)
    (includeDown : Bool) (u : Instance) :
    u ∈ (r.live.filter (listed service includeDown)).map Instance.unheard ↔
      (∃ epoch, r.standing service u.id = some (u, epoch)) ∧
        (includeDown = true ∨ u.status ≠ .down) := by
  simp only [List.mem_map, List.mem_filter, memLive sound]
  constructor
  · rintro ⟨i, ⟨⟨epoch, found⟩, shown⟩, rfl⟩
    simp only [listed, Bool.and_eq_true, beq_iff_eq, Bool.or_eq_true, bne_iff_ne] at shown
    have standing : r.standing service i.id = some (i.unheard, epoch) := by
      rw [standingOf found, if_pos shown.1]
    exact ⟨⟨epoch, standing⟩, shown.2⟩
  · rintro ⟨⟨epoch, counts⟩, shown⟩
    obtain ⟨x, found, mine⟩ := Option.bind_eq_some_iff.mp counts
    split at mine
    · rename_i name
      obtain ⟨rfl, rfl⟩ := Prod.mk.inj (Option.some.inj mine)
      have own : x.snapshot.id = _ := sound.own _ x found
      refine ⟨x.snapshot, ⟨⟨x.epoch, own ▸ found⟩, ?_⟩, rfl⟩
      simpa [listed, name, Instance.unheard] using shown
    · cases mine

theorem alikeOfStanding (left : SoundRecords r.records r.nextEpoch)
    (right : SoundRecords s.records s.nextEpoch) {service : String}
    (same : ∀ id, s.standing service id = r.standing service id) (includeDown : Bool) :
    Alike (r.list service includeDown) (s.list service includeDown) := by
  rw [Alike.iffUnheard, mapUnheardList, mapUnheardList]
  have ids (t : Registry) (sound : SoundRecords t.records t.nextEpoch) :
      (((t.live.filter (listed service includeDown)).map Instance.unheard).map (·.id)).Nodup := by
    rw [List.map_map]
    exact filteredIdsDistinct sound _
  refine sortPerm ?_ (ids r left)
  refine (List.perm_ext_iff_of_nodup (List.Nodup.of_map _ (ids r left))
    (List.Nodup.of_map _ (ids s right))).mpr fun u => ?_
  rw [memUnheard left, memUnheard right, same]

end Registry
end ServiceDirectory
