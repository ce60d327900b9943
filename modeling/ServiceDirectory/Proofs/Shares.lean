import Mathlib.Data.List.Basic
import ServiceDirectory.Proofs.Selection

/-! The shares of weighted candidates. Sums of weights stay within a word of sixty-four bits, and
each place among the candidates is found by exactly as many offsets as its candidate weighs. -/
namespace ServiceDirectory
namespace Resolve

def placeAt (offset : Nat) : List Instance → Option Nat
  | [] => none
  | c :: rest =>
    if offset < c.weight then some 0 else (placeAt (offset - c.weight) rest).map (· + 1)

def wordSum (sum weight : Nat) : Option Nat :=
  if sum + weight ≤ Number.largest64 then some (sum + weight) else none

def wordTotal (candidates : List Instance) : Option Nat :=
  candidates.foldlM (fun sum c => wordSum sum c.weight) 0

def walk (offset : Nat) : Nat → Nat → List Instance → Option (Option Nat)
  | _, _, [] => some none
  | place, sum, c :: rest =>
    (wordSum sum c.weight).bind fun sum =>
      if offset < sum then some (some place) else walk offset (place + 1) sum rest

section Shares
variable {l : List Instance} {c : Instance} {offset : Nat}

theorem weightCons (c : Instance) (rest : List Instance) :
    totalWeight (c :: rest) = c.weight + totalWeight rest := rfl

theorem weightNone : totalWeight l = 0 ↔ ∀ c ∈ l, c.weight = 0 := by
  induction l with
  | nil => simp [totalWeight]
  | cons c rest ih => rw [weightCons, Nat.add_eq_zero_iff, ih, List.forall_mem_cons]

theorem weightMost (light : ∀ c ∈ l, c.weight ≤ Number.largest32) :
    totalWeight l ≤ l.length * Number.largest32 := by
  induction l with
  | nil => exact Nat.zero_le _
  | cons c rest ih =>
    have others := ih fun i mem => light i (List.mem_cons_of_mem _ mem)
    have own := light c List.mem_cons_self
    rw [weightCons, List.length_cons, Nat.succ_mul]
    omega

theorem weightFits (few : l.length ≤ Number.largest32)
    (light : ∀ c ∈ l, c.weight ≤ Number.largest32) : totalWeight l ≤ Number.largest64 :=
  calc totalWeight l ≤ l.length * Number.largest32 := weightMost light
    _ ≤ Number.largest32 * Number.largest32 := Nat.mul_le_mul_right _ few
    _ ≤ Number.largest64 := by decide

theorem wordSums (sum : Nat) (fits : sum + totalWeight l ≤ Number.largest64) :
    l.foldlM (fun sum c => wordSum sum c.weight) sum = some (sum + totalWeight l) := by
  induction l generalizing sum with
  | nil => rfl
  | cons c rest ih =>
    rw [weightCons, ← Nat.add_assoc] at fits ⊢
    have first : wordSum sum c.weight = some (sum + c.weight) := if_pos (by omega)
    rw [List.foldlM_cons, first]
    exact ih (sum + c.weight) fits

theorem walkPlaces (place sum : Nat) (fits : sum + totalWeight l ≤ Number.largest64)
    (passed : sum ≤ offset) :
    walk offset place sum l = some ((placeAt (offset - sum) l).map (place + ·)) := by
  induction l generalizing place sum with
  | nil => rfl
  | cons c rest ih =>
    rw [weightCons, ← Nat.add_assoc] at fits
    have first : wordSum sum c.weight = some (sum + c.weight) := if_pos (by omega)
    simp only [walk, placeAt, first, Option.bind_some]
    by_cases here : offset < sum + c.weight
    · have within : offset - sum < c.weight := by omega
      simp [here, within]
    · have beyond : ¬offset - sum < c.weight := by omega
      rw [if_neg here, if_neg beyond, ih (place + 1) (sum + c.weight) fits (by omega),
        Nat.sub_add_eq, Option.map_map]
      exact congrArg some (congrArg (Option.map · _) (funext fun n => by simp; omega))

theorem pickPlaced (offset : Nat) (l : List Instance) :
    pickAt offset l = (placeAt offset l).bind (l[·]?) := by
  induction l generalizing offset with
  | nil => rfl
  | cons c rest ih =>
    simp only [pickAt, placeAt]
    split
    · rfl
    · rw [ih, Option.bind_map]
      rfl

theorem placeFound (within : offset < totalWeight l) :
    ∃ place c, placeAt offset l = some place ∧ l[place]? = some c ∧ 0 < c.weight := by
  induction l generalizing offset with
  | nil => exact absurd within (Nat.not_lt_zero _)
  | cons c rest ih =>
    simp only [placeAt]
    by_cases here : offset < c.weight
    · exact ⟨0, c, if_pos here, rfl, Nat.zero_lt_of_lt here⟩
    · rw [weightCons] at within
      have later : offset - c.weight < totalWeight rest := by omega
      obtain ⟨place, i, found, there, weighs⟩ := ih later
      exact ⟨place + 1, i, by rw [if_neg here, found]; rfl, there, weighs⟩

theorem placeWithin {rest : List Instance} (here : offset < c.weight) :
    placeAt offset (c :: rest) = some 0 := if_pos here

theorem placeBeyond (c : Instance) (rest : List Instance) (offset : Nat) :
    placeAt (c.weight + offset) (c :: rest) = (placeAt offset rest).map (· + 1) := by
  rw [placeAt, if_neg (Nat.not_lt.mpr (Nat.le_add_right _ _)), Nat.add_sub_cancel_left]

theorem sharesCons (c : Instance) (rest : List Instance) (p : Option Nat → Bool) :
    (List.range (totalWeight (c :: rest))).countP (fun offset => p (placeAt offset (c :: rest))) =
      (List.range c.weight).countP (fun _ => p (some 0)) +
        (List.range (totalWeight rest)).countP fun offset =>
          p ((placeAt offset rest).map (· + 1)) := by
  rw [weightCons, List.range_add, List.countP_append, List.countP_map]
  congr 1
  · refine List.countP_congr fun offset mem => ?_
    rw [placeWithin (List.mem_range.mp mem)]
  · refine List.countP_congr fun offset _ => ?_
    rw [Function.comp_apply, placeBeyond]

theorem shareIs {place : Nat} (there : l[place]? = some c) :
    (List.range (totalWeight l)).countP (placeAt · l == some place) = c.weight := by
  induction l generalizing place with
  | nil => cases there
  | cons first rest ih =>
    rw [sharesCons first rest (· == some place)]
    cases place with
    | zero =>
      cases there
      have others : (List.range (totalWeight rest)).countP
          (fun offset => (placeAt offset rest).map (· + 1) == some 0) = 0 :=
        List.countP_eq_zero.mpr fun offset _ => by cases placeAt offset rest <;> simp
      simp [others]
    | succ place =>
      have shifted (offset : Nat) : ((placeAt offset rest).map (· + 1) == some (place + 1)) =
          (placeAt offset rest == some place) := by
        cases placeAt offset rest <;> simp
      have none : (List.range first.weight).countP (fun _ => some 0 == some (place + 1)) = 0 :=
        List.countP_eq_zero.mpr fun _ _ => by simp
      simp only [none, shifted, Nat.zero_add]
      exact ih there

/-- Each candidate is picked in as many ways as it weighs: the sums fit into their words, and of the
offsets below the total as many fall on a place as its candidate weighs. Where nobody weighs
anything any place may be drawn, and only where there is nobody at all nobody is picked. -/
theorem weightsShareExactly (few : l.length ≤ Number.largest32)
    (light : ∀ c ∈ l, c.weight ≤ Number.largest32) (some_ : l ≠ []) (cursor : Cursor) :
    (wordTotal l = some (totalWeight l) ∧
      ∀ offset, walk offset 0 0 l = some (placeAt offset l)) ∧
    (0 < totalWeight l →
      (∀ offset < totalWeight l, ∃ place c, placeAt offset l = some place ∧ l[place]? = some c ∧
        0 < c.weight ∧ ∀ draw : Draw, draw.below (totalWeight l) = offset →
          Strategy.weightedRandom.select draw cursor l = (.ok c, cursor)) ∧
      ∀ place c, l[place]? = some c →
        (List.range (totalWeight l)).countP (placeAt · l == some place) = c.weight) ∧
    ((∀ c ∈ l, c.weight = 0) → ∀ draw : Draw, ∃ c, l[draw.below l.length]? = some c ∧
      Strategy.weightedRandom.select draw cursor l = (.ok c, cursor)) ∧
    ∀ draw, Strategy.weightedRandom.select draw cursor [] =
      (.error ⟨.noAvailableInstances, "empty candidate list"⟩, cursor) := by
  have fits := weightFits few light
  refine ⟨⟨?_, fun offset => ?_⟩, fun weighs => ⟨fun offset within => ?_, fun place c => shareIs⟩,
    fun weightless draw => ?_, fun draw => rfl⟩
  · simpa [wordTotal] using wordSums 0 (by simpa using fits)
  · simpa using walkPlaces 0 0 (by simpa using fits) (Nat.zero_le offset)
  · obtain ⟨place, c, found, there, own⟩ := placeFound within
    refine ⟨place, c, found, there, own, fun draw drawn => ?_⟩
    have total : (totalWeight l == 0) = false := by simpa using Nat.ne_of_gt weighs
    simp [Strategy.select, total, drawn, pickPlaced, found, there, Resolve.found]
  · have drawn : draw.below l.length < l.length := Nat.mod_lt _ (List.length_pos_iff.mpr some_)
    refine ⟨l[draw.below l.length], List.getElem?_eq_getElem drawn, ?_⟩
    simp [Strategy.select, weightNone.mpr weightless, List.getElem?_eq_getElem drawn, Resolve.found]

end Shares

def weighted : List Instance :=
  [(Instance.fresh "a" "web" "a:80" .origin).withWeight 2,
    (Instance.fresh "b" "web" "b:80" .origin).withWeight 0,
    (Instance.fresh "c" "web" "c:80" .origin).withWeight 3]

theorem weightedShares :
    weighted.length ≤ Number.largest32 ∧ (∀ c ∈ weighted, c.weight ≤ Number.largest32) ∧
      weighted ≠ [] ∧ wordTotal weighted = some 5 ∧
      (List.range 5).countP (placeAt · weighted == some 1) = 0 ∧
      (List.range 5).countP (placeAt · weighted == some 2) = 3 ∧
      ∃ c, weighted[2]? = some c ∧
        Strategy.weightedRandom.select (fun _ => 2) ⟨7⟩ weighted = (.ok c, ⟨7⟩) := by
  have few : weighted.length ≤ Number.largest32 := by decide
  have light : ∀ c ∈ weighted, c.weight ≤ Number.largest32 := by decide
  have some_ : weighted ≠ [] := by decide
  obtain ⟨⟨total, _⟩, picked, _⟩ := weightsShareExactly few light some_ ⟨7⟩
  obtain ⟨falls, shares⟩ := picked (by decide)
  obtain ⟨place, c, found, there, _, picks⟩ := falls 2 (by decide)
  obtain rfl : 2 = place := Option.some.inj (found.symm.trans rfl).symm
  exact ⟨few, light, some_, total, shares 1 _ rfl, shares 2 _ rfl, c, there, picks _ rfl⟩

end Resolve
end ServiceDirectory
