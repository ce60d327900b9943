import ServiceDirectory.Filter
import ServiceDirectory.Proofs.Snapshots
import ServiceDirectory.Resolve.Balance

/-! What the strategies at hand make of candidates: they find one where there is one, and no pick
depends on when anybody was last heard of. -/
namespace ServiceDirectory

namespace Filter

def Steady (f : Filter) : Prop := ∀ i j : Instance, i.sameButHeartbeat j → f i = f j

theorem passesSteady {filters : List Filter} (steady : ∀ f ∈ filters, f.Steady) {i j : Instance}
    (same : i.sameButHeartbeat j) : passesAll filters i = passesAll filters j := by
  induction filters with
  | nil => rfl
  | cons f rest ih =>
    have others := ih fun g mem => steady g (List.mem_cons_of_mem _ mem)
    simp only [passesAll, List.all_cons] at others ⊢
    rw [steady f List.mem_cons_self i j same, others]

theorem keepAlike {filters : List Filter} (steady : ∀ f ∈ filters, f.Steady) {l m : List Instance}
    (alike : Alike l m) : Alike (keep filters l) (keep filters m) := by
  induction alike with
  | nil => exact .nil
  | @cons i j l m same _ ih =>
    simp only [keep, List.filter_cons, passesSteady steady same] at ih ⊢
    split
    · exact .cons same ih
    · exact ih

end Filter

namespace Resolve

def Agree : Except Failure Instance → Except Failure Instance → Prop
  | .ok i, .ok j => i.sameButHeartbeat j
  | .error e, .error f => e = f
  | _, _ => False

namespace Strategy

def builtIn : Strategy → Bool
  | .caller _ _ _ => false
  | _ => true

theorem stickyIff {s : Strategy} (own : s.builtIn = true) :
    s.sticky = true ↔ s.name = first.name := by
  cases s with
  | caller => cases own
  | _ => decide

theorem firstOfName {s : Strategy} (own : s.builtIn = true) (name : s.name = first.name) :
    s = first := by
  cases s with
  | caller => cases own
  | first => rfl
  | _ => exact absurd name (by decide)

end Strategy

section Lowest
variable {l m : List Instance} {i : Instance}

theorem lowestMem (h : lowestId l = some i) : i ∈ l := by
  induction l with
  | nil => cases h
  | cons c rest ih =>
    simp only [lowestId] at h
    split at h
    · cases h; exact List.mem_cons_self
    · rename_i best found
      split at h
      · cases h; exact List.mem_cons_of_mem _ (ih found)
      · cases h; exact List.mem_cons_self

theorem lowestNone : lowestId l = none ↔ l = [] := by
  constructor
  · intro none
    cases l with
    | nil => rfl
    | cons c rest =>
      simp only [lowestId] at none
      split at none
      · cases none
      · split at none <;> cases none
  · rintro rfl
    rfl

theorem lowestLe (h : lowestId l = some i) : ∀ j ∈ l, i.id ≤ j.id := by
  induction l generalizing i with
  | nil => cases h
  | cons c rest ih =>
    simp only [lowestId] at h
    intro j mem
    split at h
    · rename_i alone
      cases h
      rw [lowestNone.mp alone] at mem
      cases List.mem_singleton.mp mem
      exact String.le_refl _
    · rename_i best found
      split at h
      · rename_i less
        cases h
        rcases List.mem_cons.mp mem with rfl | later
        · exact String.not_lt.mp (String.lt_asymm less)
        · exact ih found j later
      · rename_i notLess
        cases h
        rcases List.mem_cons.mp mem with rfl | later
        · exact String.le_refl _
        · exact String.le_trans (String.not_lt.mp notLess) (ih found j later)

theorem lowestKept {p : Instance → Bool} (h : lowestId l = some i) (passes : p i = true) :
    lowestId (l.filter p) = some i := by
  induction l generalizing i with
  | nil => cases h
  | cons c rest ih =>
    simp only [lowestId] at h
    split at h
    · rename_i alone
      cases h
      rw [lowestNone.mp alone]
      simp [passes, lowestId]
    · rename_i best found
      split at h
      · rename_i less
        cases h
        rw [List.filter_cons]
        split
        · simp only [lowestId, ih found passes, if_pos less]
        · exact ih found passes
      · rename_i notLess
        cases h
        rw [List.filter_cons_of_pos passes]
        simp only [lowestId]
        split
        · rfl
        · rename_i other kept
          have later := lowestLe found other (List.mem_of_mem_filter (lowestMem kept))
          rw [if_neg]
          exact String.not_lt.mpr (String.le_trans (String.not_lt.mp notLess) later)

theorem lowestUnheard (l : List Instance) :
    lowestId (l.map Instance.unheard) = (lowestId l).map Instance.unheard := by
  induction l with
  | nil => rfl
  | cons c rest ih =>
    simp only [List.map_cons, lowestId, ih]
    cases lowestId rest with
    | none => rfl
    | some best =>
      simp only [Option.map_some]
      by_cases less : best.id < c.id
      · rw [if_pos less, if_pos (show best.unheard.id < c.unheard.id from less)]; rfl
      · rw [if_neg less, if_neg (show ¬best.unheard.id < c.unheard.id from less)]; rfl

theorem lowestAlike (alike : Alike l m) (h : lowestId l = some i) :
    ∃ j, lowestId m = some j ∧ i.sameButHeartbeat j := by
  have same := congrArg lowestId (Alike.iffUnheard.mp alike)
  rw [lowestUnheard, lowestUnheard, h] at same
  obtain ⟨j, found, unheard⟩ := Option.map_eq_some_iff.mp same.symm
  exact ⟨j, found, Instance.sameIffUnheard.mpr unheard.symm⟩

end Lowest

section Weights
variable {l : List Instance} {offset : Nat} {i : Instance}

theorem pickMem (h : pickAt offset l = some i) : i ∈ l := by
  induction l generalizing offset with
  | nil => cases h
  | cons c rest ih =>
    simp only [pickAt] at h
    split at h
    · cases h; exact List.mem_cons_self
    · exact List.mem_cons_of_mem _ (ih h)

theorem pickFound (within : offset < totalWeight l) : ∃ i, pickAt offset l = some i := by
  induction l generalizing offset with
  | nil => exact absurd within (Nat.not_lt_zero _)
  | cons c rest ih =>
    simp only [pickAt]
    split
    · exact ⟨c, rfl⟩
    · have fewer : offset - c.weight < totalWeight rest := by
        simp only [totalWeight, List.foldr_cons] at within ⊢
        omega
      exact ih fewer

theorem pickUnheard (l : List Instance) (offset : Nat) :
    pickAt offset (l.map Instance.unheard) = (pickAt offset l).map Instance.unheard := by
  induction l generalizing offset with
  | nil => rfl
  | cons c rest ih =>
    simp only [List.map_cons, pickAt, ih]
    by_cases here : offset < c.weight
    · rw [if_pos here, if_pos (show offset < c.unheard.weight from here)]; rfl
    · rw [if_neg here, if_neg (show ¬offset < c.unheard.weight from here)]; rfl

theorem weightUnheard (l : List Instance) : totalWeight (l.map Instance.unheard) = totalWeight l := by
  induction l with
  | nil => rfl
  | cons c rest ih =>
    simp only [totalWeight, List.map_cons, List.foldr_cons] at ih ⊢
    rw [ih]; rfl

end Weights

theorem foundAgree {o p : Option Instance} (same : o.map Instance.unheard = p.map Instance.unheard) :
    Agree (found o) (found p) := by
  cases o <;> cases p
  · rfl
  · cases same
  · cases same
  · exact Instance.sameIffUnheard.mpr (Option.some.inj same)

namespace Strategy
variable {s : Strategy} {draw : Draw} {cursor : Cursor} {l m : List Instance}

theorem selectAlike (own : s.builtIn = true) (alike : Alike l m) :
    Agree (s.select draw cursor l).1 (s.select draw cursor m).1 ∧
      (s.select draw cursor l).2 = (s.select draw cursor m).2 := by
  have same := Alike.iffUnheard.mp alike
  have length : l.length = m.length := alike.length_eq
  have weight : totalWeight l = totalWeight m := by
    rw [← weightUnheard l, same, weightUnheard m]
  have at_ (n : Nat) : (l[n]?).map Instance.unheard = (m[n]?).map Instance.unheard := by
    rw [← List.getElem?_map, same, List.getElem?_map]
  have none : l.isEmpty = m.isEmpty := by
    cases alike <;> rfl
  cases s with
  | caller => cases own
  | roundRobin =>
    simp only [select, none, length]
    split
    · exact ⟨rfl, rfl⟩
    · exact ⟨foundAgree (at_ _), rfl⟩
  | weightedRandom =>
    refine ⟨?_, rfl⟩
    simp only [select, weight, length]
    split
    · exact foundAgree (at_ _)
    · refine foundAgree ?_
      rw [← pickUnheard, same, pickUnheard]
  | random =>
    refine ⟨?_, rfl⟩
    simp only [select, length]
    exact foundAgree (at_ _)
  | first =>
    refine ⟨foundAgree ?_, rfl⟩
    rw [← lowestUnheard, same, lowestUnheard]

theorem selectFinds (own : s.builtIn = true) (some_ : l ≠ []) :
    ∃ i ∈ l, (s.select draw cursor l).1 = .ok i := by
  have positive : 0 < l.length := List.length_pos_iff.mpr some_
  have at_ (n : Nat) : ∃ i ∈ l, found l[n % l.length]? = .ok i := by
    have within : n % l.length < l.length := Nat.mod_lt _ positive
    exact ⟨l[n % l.length], List.getElem_mem within, by rw [List.getElem?_eq_getElem within]; rfl⟩
  cases s with
  | caller => cases own
  | roundRobin =>
    simp only [select, List.isEmpty_iff, some_, if_false]
    exact at_ _
  | weightedRandom =>
    simp only [select]
    by_cases none : totalWeight l = 0
    · simp only [none, beq_self_eq_true, if_true]
      exact at_ _
    · obtain ⟨i, picked⟩ : ∃ i, pickAt (draw.below (totalWeight l)) l = some i :=
        pickFound (Nat.mod_lt _ (Nat.pos_of_ne_zero none))
      refine ⟨i, pickMem picked, ?_⟩
      simp [none, picked, found]
  | random => exact at_ _
  | first =>
    cases low : lowestId l with
    | none => exact absurd (lowestNone.mp low) some_
    | some i => exact ⟨i, lowestMem low, by simp [select, low, found]⟩

theorem selectTurns (own : s.builtIn = true) (some_ : l ≠ []) :
    (s.select draw cursor l).2 = if s.name = roundRobin.name then cursor.next else cursor := by
  cases s with
  | caller => cases own
  | roundRobin => simp [select, some_]
  | _ => rfl

end Strategy
end Resolve
end ServiceDirectory
