import ServiceDirectory.Proofs.Engines
import ServiceDirectory.Proofs.Particulars

/-! Whom a directory can hold whose store nobody else writes to: those it is asked to let in and
those that were stored to begin with. -/
namespace ServiceDirectory

def Call.carries : Call → List Instance
  | .loading stored _ => stored.filter Instance.admissible
  | c => c.subject?.toList

namespace Table
variable {β : Type} {t : Table β}

theorem valuesPut {key : String} {value v : β} (mem : v ∈ (t.put key value).values) :
    v = value ∨ v ∈ t.values := by
  induction t with
  | nil => exact .inl (List.mem_singleton.mp mem)
  | cons entry rest ih =>
    obtain ⟨other, w⟩ := entry
    simp only [put] at mem
    split at mem
    · exact (List.mem_cons.mp mem).imp_right (List.mem_cons_of_mem _)
    · rcases List.mem_cons.mp mem with rfl | mem
      · exact .inr List.mem_cons_self
      · exact (ih mem).imp_right (List.mem_cons_of_mem _)

theorem valuesRemove {key : String} {v : β} (kept : v ∈ (t.remove key).values) :
    v ∈ t.values := by
  obtain ⟨entry, mem, rfl⟩ := List.mem_map.mp kept
  exact List.mem_map.mpr ⟨entry, List.mem_of_mem_filter mem, rfl⟩

end Table

namespace Directory
variable {d e : Directory} {a : Action} {source : Particulars → Prop}

structure Within (source : Particulars → Prop) (d : Directory) : Prop where
  live : ∀ id x, d.registry.records.get? id = some x → source x.snapshot.particulars
  carried : ∀ k c, d.call? k = some c → ∀ i ∈ c.carries, source i.particulars
  stored : ∀ i ∈ d.store.values, i.admissible = true → source i.particulars

theorem withinStep (custody : d.Custody) (h : d.Within source)
    (asked : ∀ i, a = .begin (.register i) → source i.particulars)
    (stocks : ∀ i, a ≠ .storeDirect i) (handed : ∀ k stored, a ≠ .listed k stored)
    (next : d.step a = some e) : e.Within source where
  live id x live := by
    cases stepStems custody next live with
    | kept was => exact h.live id x was
    | @heard y _ was is =>
      subst is
      exact h.live id y was
    | reported _ was _ later => exact later.particulars ▸ h.live id _ was
    | entered acts found own is =>
      subst is
      exact h.carried _ _ found _ List.mem_cons_self
    | @loaded k stored at_ i acts found listed named placed own late is =>
      have fit : i.admissible = true := by simp [Instance.admissible, named, placed]
      rw [is]
      exact h.carried k _ found i (List.mem_filter.mpr ⟨listed, fit⟩)
  carried := by
    obtain ⟨k, before, after, result, told, runs⟩ := stepRuns custody.lined next
    refine runs.each (fun j c _ found => h.carried j c found) fun c is i mem => ?_
    subst is
    cases runs.course with
    | opened opens =>
      cases opens with
      | register => exact List.mem_singleton.mp mem ▸ asked _ rfl
      | _ => cases mem
    | @reserved _ j =>
      cases List.mem_singleton.mp mem
      exact h.carried k _ runs.was j List.mem_cons_self
    | saved => exact h.carried k _ runs.was _ mem
    | listed =>
      obtain ⟨mem, fit⟩ := List.mem_filter.mp mem
      exact h.stored i (List.mem_mergeSort.mp mem) fit
    | given => exact absurd rfl (handed _ _)
    | _ => cases mem
  stored i mem fit := by
    cases stepDeed next with
    | saved found =>
      rcases Table.valuesPut mem with rfl | mem
      · exact h.carried _ _ found _ List.mem_cons_self
      · exact h.stored i mem fit
    | deleted found stores =>
      subst stores
      refine h.stored i ?_ fit
      split at mem
      · exact Table.valuesRemove mem
      · exact mem
    | purged found stores =>
      subst stores
      refine h.stored i ?_ fit
      split at mem
      · exact Table.valuesRemove mem
      · exact mem
    | stocked => exact absurd rfl (stocks _)
    | _ => exact h.stored i mem fit

theorem withStoreWithin {settings : DirectorySettings} {store : Table Instance}
    (stored : ∀ i ∈ store.values, i.admissible = true → source i.particulars) :
    (withStore settings store).Within source where
  live id x live := by cases live
  carried k c found := by cases found
  stored := stored

theorem Reaches.within {requests : Request → Prop} (h : Reaches requests d e) (custody : d.Custody)
    (within : d.Within source) (asked : ∀ i, requests (.register i) → source i.particulars) :
    e.Custody ∧ e.Within source := by
  refine h.keeps (P := fun m => m.Custody ∧ m.Within source) ⟨custody, within⟩
    fun {m n a} asks next ⟨custody, within⟩ => ⟨custodyStep custody next, ?_⟩
  rcases asks with own | ⟨request, mine, rfl⟩
  · exact withinStep custody within (by rintro _ rfl; cases own) (by rintro _ rfl; cases own)
      (by rintro _ _ rfl; cases own) next
  · exact withinStep custody within (fun i same => asked i (by cases same; exact mine))
      (fun _ same => by cases same) (fun _ _ same => by cases same) next

end Directory
end ServiceDirectory
