import Mathlib.Data.List.Nodup
import ServiceDirectory.Proofs.InFlight

/-! The registrations that are live, each known by its id and its epoch: which come with a step of
the directory and which go. -/
namespace ServiceDirectory
open Registry (Gains Loses)

theorem exchange {α : Type} [BEq α] [LawfulBEq α] {l m : List α} (left : l.Nodup)
    (right : m.Nodup) :
    (m ++ l.filter (· ∉ m)).Perm (l ++ m.filter (· ∉ l)) := by
  have distinct {l m : List α} (left : l.Nodup) (right : m.Nodup) :
      (m ++ l.filter (· ∉ m)).Nodup :=
    List.nodup_append.mpr ⟨right, left.filter _, fun a ha b hb same => by
      subst same
      simpa [ha] using (List.mem_filter.mp hb).2⟩
  refine (List.perm_ext_iff_of_nodup (distinct left right) (distinct right left)).mpr fun a => ?_
  simp only [List.mem_append, List.mem_filter, decide_eq_true_eq]
  tauto

abbrev Mark := String × Nat

def Record.mark (x : Record) : Mark := (x.snapshot.id, x.epoch)

namespace Registry
variable {r s : Registry}

def marks (r : Registry) : List Mark := r.records.values.map Record.mark

def without (r s : Registry) : List Record := r.records.values.filter fun x => x.mark ∉ s.marks

def Apart (r : Registry) : Prop :=
  ∀ id other x y, r.records.get? id = some x → r.records.get? other = some y →
    x.epoch = y.epoch → id = other

theorem memRecords (sound : SoundRecords r.records r.nextEpoch) (x : Record) :
    x ∈ r.records.values ↔ r.records.get? x.snapshot.id = some x := by
  simp only [Table.values, List.mem_map]
  constructor
  · rintro ⟨⟨id, y⟩, mem, rfl⟩
    have found := (Table.memIffGet sound.distinct id y).mp mem
    rw [sound.own id y found]
    exact found
  · intro found
    exact ⟨_, Table.memOfGet found, rfl⟩

theorem memMarks (sound : SoundRecords r.records r.nextEpoch) (id : String) (epoch : Nat) :
    (id, epoch) ∈ r.marks ↔ (r.records.get? id).map (·.epoch) = some epoch := by
  simp only [marks, List.mem_map, Record.mark, Prod.mk.injEq, Option.map_eq_some_iff]
  constructor
  · rintro ⟨x, mem, rfl, rfl⟩
    exact ⟨x, (memRecords sound x).mp mem, rfl⟩
  · rintro ⟨x, found, rfl⟩
    have own := sound.own id x found
    exact ⟨x, (memRecords sound x).mpr (own.symm ▸ found), own, rfl⟩

theorem idsDistinct (sound : SoundRecords r.records r.nextEpoch) :
    (r.records.values.map (·.snapshot.id)).Nodup := by
  have keys : r.records.values.map (·.snapshot.id) = r.records.keys := by
    simp only [Table.values, Table.keys, List.map_map]
    refine List.map_congr_left fun entry mem => ?_
    exact sound.own entry.1 entry.2 ((Table.memIffGet sound.distinct _ _).mp mem)
  exact keys ▸ sound.distinct

theorem marksDistinct (sound : SoundRecords r.records r.nextEpoch) : r.marks.Nodup :=
  List.Nodup.of_map Prod.fst (by rw [marks, List.map_map]; exact idsDistinct sound)

theorem marksWithout (r s : Registry) :
    (r.without s).map Record.mark = r.marks.filter (· ∉ s.marks) := by
  rw [marks.eq_def r, List.filter_map]
  rfl

theorem marksExchange (left : SoundRecords r.records r.nextEpoch)
    (right : SoundRecords s.records s.nextEpoch) :
    (s.marks ++ (r.without s).map Record.mark).Perm (r.marks ++ (s.without r).map Record.mark) := by
  rw [marksWithout, marksWithout]
  exact exchange (marksDistinct left) (marksDistinct right)

theorem memWithout (left : SoundRecords r.records r.nextEpoch)
    (right : SoundRecords s.records s.nextEpoch) (x : Record) :
    x ∈ r.without s ↔ r.records.get? x.snapshot.id = some x ∧
      (s.records.get? x.snapshot.id).map (·.epoch) ≠ some x.epoch := by
  rw [without, List.mem_filter, memRecords left, decide_eq_true_eq, Record.mark, memMarks right]

theorem withoutDistinct (sound : SoundRecords r.records r.nextEpoch) (s : Registry) :
    ((r.without s).map (·.snapshot)).Nodup := by
  have ids : (((r.without s).map (·.snapshot)).map (·.id)).Nodup := by
    rw [List.map_map]
    exact (idsDistinct sound).sublist (List.filter_sublist.map _)
  exact ids.of_map _

theorem sameWithout (left : SoundRecords r.records r.nextEpoch)
    (right : SoundRecords s.records s.nextEpoch)
    (epochs : ∀ id, (s.records.get? id).map (·.epoch) = (r.records.get? id).map (·.epoch)) :
    r.without s = [] :=
  List.eq_nil_iff_forall_not_mem.mpr fun x mem => by
    obtain ⟨live, other⟩ := (memWithout left right x).mp mem
    exact other (by rw [epochs, live]; rfl)

section Coming
variable {came : List Instance}

theorem Gains.losesNone (left : SoundRecords r.records r.nextEpoch)
    (right : SoundRecords s.records s.nextEpoch) (gains : Gains r s came) : r.without s = [] :=
  List.eq_nil_iff_forall_not_mem.mpr fun x mem => by
    obtain ⟨live, other⟩ := (memWithout left right x).mp mem
    refine other ?_
    rw [gains.others, live]
    · rfl
    · intro mem
      obtain ⟨i, hi, same⟩ := List.mem_map.mp mem
      rw [← same, (gains.fresh i hi).1] at live
      cases live

theorem Gains.arrived (left : SoundRecords r.records r.nextEpoch)
    (right : SoundRecords s.records s.nextEpoch) (gains : Gains r s came) :
    ((s.without r).map (·.snapshot)).Perm came := by
  refine (List.perm_ext_iff_of_nodup (withoutDistinct right r)
    (gains.distinct.of_map _)).mpr fun i => ?_
  rw [List.mem_map]
  constructor
  · rintro ⟨x, mem, rfl⟩
    obtain ⟨live, other⟩ := (memWithout right left x).mp mem
    by_cases mine : x.snapshot.id ∈ came.map (·.id)
    · obtain ⟨i, hi, same⟩ := List.mem_map.mp mine
      obtain ⟨epoch, _, here⟩ := gains.here i hi
      rw [same, live] at here
      cases here
      exact hi
    · exact absurd (by rw [← gains.others _ mine, live]; rfl) other
  · intro mem
    obtain ⟨epoch, _, here⟩ := gains.here i mem
    exact ⟨⟨i, epoch⟩, (memWithout right left _).mpr ⟨here, by simp [(gains.fresh i mem).1]⟩, rfl⟩

theorem Gains.late (left : SoundRecords r.records r.nextEpoch)
    (right : SoundRecords s.records s.nextEpoch) (gains : Gains r s came) :
    ∀ x ∈ s.without r, r.nextEpoch ≤ x.epoch := by
  intro x mem
  have live := ((memWithout right left x).mp mem).1
  have mine := (gains.arrived left right).mem_iff.mp (List.mem_map_of_mem mem)
  obtain ⟨epoch, late, here⟩ := gains.here _ mine
  rw [Option.some.inj (live.symm.trans here)]
  exact late

end Coming

section Going
variable {gone : List Instance}

theorem Loses.addsNone (left : SoundRecords r.records r.nextEpoch)
    (right : SoundRecords s.records s.nextEpoch) (loses : Loses r s gone) : s.without r = [] :=
  List.eq_nil_iff_forall_not_mem.mpr fun x mem => by
    obtain ⟨live, other⟩ := (memWithout right left x).mp mem
    refine other ?_
    rw [← loses.others, live]
    · rfl
    · intro mem
      obtain ⟨i, hi, same⟩ := List.mem_map.mp mem
      rw [← same, loses.left i hi] at live
      cases live

theorem Loses.departed (left : SoundRecords r.records r.nextEpoch)
    (right : SoundRecords s.records s.nextEpoch) (loses : Loses r s gone) :
    ((r.without s).map (·.snapshot)).Perm gone := by
  refine (List.perm_ext_iff_of_nodup (withoutDistinct left s)
    (loses.distinct.of_map _)).mpr fun i => ?_
  rw [List.mem_map]
  constructor
  · rintro ⟨x, mem, rfl⟩
    obtain ⟨live, other⟩ := (memWithout left right x).mp mem
    by_cases mine : x.snapshot.id ∈ gone.map (·.id)
    · obtain ⟨i, hi, same⟩ := List.mem_map.mp mine
      obtain ⟨epoch, was⟩ := loses.was i hi
      rw [same, live] at was
      cases was
      exact hi
    · exact absurd (by rw [loses.others _ mine, live]; rfl) other
  · intro mem
    obtain ⟨epoch, was⟩ := loses.was i mem
    exact ⟨⟨i, epoch⟩, (memWithout left right _).mpr ⟨was, by simp [loses.left i mem]⟩, rfl⟩

end Going

theorem Apart.within (apart : r.Apart)
    (within : ∀ id x, s.records.get? id = some x →
      ∃ y, r.records.get? id = some y ∧ y.epoch = x.epoch) : s.Apart := by
  intro id other x y hx hy same
  obtain ⟨x', hx', ex⟩ := within id x hx
  obtain ⟨y', hy', ey⟩ := within other y hy
  exact apart id other x' y' hx' hy' (ex.trans (same.trans ey.symm))

theorem Apart.same (apart : r.Apart)
    (epochs : ∀ id, (s.records.get? id).map (·.epoch) = (r.records.get? id).map (·.epoch)) :
    s.Apart :=
  apart.within fun id x found => by
    have same := epochs id
    rw [found] at same
    exact Option.map_eq_some_iff.mp same.symm

theorem Loses.apart {gone : List Instance} (loses : Loses r s gone) (apart : r.Apart) : s.Apart :=
  apart.within fun id x found => by
    refine ⟨x, ?_, rfl⟩
    rw [← loses.others, found]
    intro mem
    obtain ⟨i, hi, rfl⟩ := List.mem_map.mp mem
    rw [loses.left i hi] at found
    cases found

theorem enterApart (sound : SoundRecords r.records r.nextEpoch) (apart : r.Apart) (i : Instance) :
    (r.enter i).1.Apart := by
  have cases_ (id : String) (x : Record) (found : (r.enter i).1.records.get? id = some x) :
      (id = i.id ∧ x.epoch = r.nextEpoch) ∨
        (r.records.get? id = some x ∧ x.epoch < r.nextEpoch) := by
    have found : (r.records.put i.id ⟨i, r.nextEpoch⟩).get? id = some x := found
    rw [Table.getPut] at found
    split at found
    · cases found
      exact .inl ⟨‹_›, rfl⟩
    · exact .inr ⟨found, sound.past id x found⟩
  intro id other x y hx hy same
  rcases cases_ id x hx with ⟨rfl, ex⟩ | ⟨ox, ex⟩ <;>
    rcases cases_ other y hy with ⟨rfl, ey⟩ | ⟨oy, ey⟩
  · rfl
  · omega
  · omega
  · exact apart id other x y ox oy same

theorem loadApart (sound : SoundRecords r.records r.nextEpoch) (apart : r.Apart) (now : Timestamp)
    (stored : List Instance) : (r.load now stored).1.Apart := by
  induction stored generalizing r with
  | nil => exact apart
  | cons i rest ih =>
    rcases loadOneCases r now i with same | ⟨j, _, _, entered⟩
    · simpa only [load, same] using ih sound apart
    · simpa only [load, entered] using ih (enterSound sound j) (enterApart sound apart j)

theorem expelAllEpochs (sound : SoundRecords r.records r.nextEpoch) (ids : List String) :
    (r.expelAll ids).1.nextEpoch = r.nextEpoch := by
  induction ids generalizing r with
  | nil => rfl
  | cons id rest ih =>
    refine (ih (expelSound sound id)).trans ?_
    rcases expelCases sound id with ⟨_, same⟩ | ⟨_, _, _, _, epochs, _, _⟩
    · rw [same]
    · exact epochs

theorem touchEpochs (r : Registry) (id : String) (now : Timestamp) (other : String) :
    ((r.touch id now).records.get? other).map (·.epoch) =
      (r.records.get? other).map (·.epoch) := by
  simp only [touch, Table.getAdjust]
  split
  · rw [Option.map_map]; rfl
  · rfl

theorem putEpochs {t : Table Record} {id : String} {x : Record} (live : t.get? id = some x)
    (i : Instance) (other : String) :
    ((t.put id ⟨i, x.epoch⟩).get? other).map (·.epoch) = (t.get? other).map (·.epoch) := by
  rw [Table.getPut]
  split
  · rename_i same
    rw [same, live]; rfl
  · rfl

theorem passedEpochs (r : Registry) (id : String) (epoch : Nat) (at_ : Timestamp) :
    (∀ other, ((r.passed id epoch at_).records.get? other).map (·.epoch) =
      (r.records.get? other).map (·.epoch)) ∧ (r.passed id epoch at_).nextEpoch = r.nextEpoch := by
  unfold passed
  split
  · split
    · exact ⟨touchEpochs r id at_, rfl⟩
    · exact ⟨fun _ => rfl, rfl⟩
  · exact ⟨fun _ => rfl, rfl⟩

theorem expireLoses (sound : SoundRecords r.records r.nextEpoch) {timeout : Nat} {now : Timestamp}
    {took : List Expiry} (expires : r.expire timeout now = (s, took)) :
    Loses r s (took.map (·.snapshot)) ∧ s.nextEpoch = r.nextEpoch := by
  have loses := expelAllLoses sound (r.victims timeout now)
  have epochs := expelAllEpochs sound (r.victims timeout now)
  rw [← expire, expires] at loses epochs
  exact ⟨loses, epochs⟩

theorem expireParks (sound : SoundRecords r.records r.nextEpoch) {timeout : Nat} {now : Timestamp}
    {took : List Expiry} (expires : r.expire timeout now = (s, took)) (id : String) :
    id ∈ s.inFlight ↔ id ∈ r.inFlight ∨ id ∈ (took.map (·.snapshot)).map (·.id) := by
  have parks := expelAllParks sound (r.victims timeout now) id
  rwa [← expire, expires] at parks

theorem epochsDistinct (sound : SoundRecords r.records r.nextEpoch) (apart : r.Apart)
    (s : Registry) : ((r.without s).map (·.epoch)).Nodup := by
  refine List.Nodup.map_on (fun x hx y hy same => ?_)
    ((withoutDistinct sound s).of_map (·.snapshot))
  have hx := (memRecords sound x).mp (List.mem_filter.mp hx).1
  have hy := (memRecords sound y).mp (List.mem_filter.mp hy).1
  rw [apart _ _ x y hx hy same] at hx
  exact Option.some.inj (hx.symm.trans hy)

end Registry
end ServiceDirectory
