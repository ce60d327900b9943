import ServiceDirectory.Table

/-! What each change of a table does to the entry under a key, and to its keys. -/
namespace ServiceDirectory.Table
variable {β : Type}

def Distinct (t : Table β) : Prop := t.keys.Nodup

theorem holdsIff (t : Table β) (key : String) : t.holds key = true ↔ (t.get? key).isSome := by
  simp [holds, get?, List.any_eq_true, List.find?_isSome]

theorem absentIff (t : Table β) (key : String) : t.holds key = false ↔ t.get? key = none := by
  rw [← Bool.not_eq_true, holdsIff, Option.not_isSome_iff_eq_none]

theorem getPut (t : Table β) (key other : String) (v : β) :
    (t.put key v).get? other = if other = key then some v else t.get? other := by
  by_cases h : other = key
  · subst h; rw [if_pos rfl, getPutSame]
  · rw [if_neg h, getPutOther t v h]

theorem somePut {t : Table β} {key other : String} {v : β}
    (h : (t.get? other).isSome ∨ other = key) : ((t.put key v).get? other).isSome := by
  rw [getPut]
  split
  · rfl
  · exact h.resolve_right ‹_›

theorem getRemove (t : Table β) (key other : String) :
    (t.remove key).get? other = if other = key then none else t.get? other := by
  induction t with
  | nil => simp [remove, get?]
  | cons head rest ih =>
    simp only [remove, get?] at ih ⊢
    by_cases hk : head.1 = key
    · rw [List.filter_cons_of_neg (by simp [hk]), ih]
      split
      · rfl
      · rename_i ho
        rw [List.find?_cons_of_neg (by simp [hk, Ne.symm ho])]
    · rw [List.filter_cons_of_pos (by simp [hk])]
      by_cases ho : head.1 = other
      · have apart : other ≠ key := by rw [← ho]; exact hk
        simp [ho, apart]
      · rw [List.find?_cons_of_neg (by simp [ho]), List.find?_cons_of_neg (by simp [ho]), ih]

theorem getAdjust (t : Table β) (key other : String) (f : β → β) :
    (t.adjust key f).get? other =
      if other = key then (t.get? other).map f else t.get? other := by
  induction t with
  | nil => simp [adjust, get?]
  | cons head rest ih =>
    obtain ⟨k, v⟩ := head
    simp only [adjust, get?, List.map_cons] at ih ⊢
    by_cases hk : k = key
    · subst hk
      by_cases ho : k = other
      · subst ho; simp
      · rw [List.find?_cons_of_neg (by simpa using ho), List.find?_cons_of_neg (by simpa using ho),
          ih]
    · by_cases ho : k = other
      · subst ho; simp [hk]
      · rw [List.find?_cons_of_neg (by simpa [hk] using ho),
          List.find?_cons_of_neg (by simpa using ho), ih]

theorem keysPut (t : Table β) (key : String) (v : β) :
    (t.put key v).keys = if key ∈ t.keys then t.keys else t.keys ++ [key] := by
  induction t with
  | nil => simp [put, keys]
  | cons head rest ih =>
    obtain ⟨k, w⟩ := head
    simp only [keys] at ih ⊢
    by_cases hk : k = key
    · simp [put, hk]
    · by_cases known : key ∈ rest.map Prod.fst
      · simp [put, hk, ih, known]
      · simp [put, hk, ih, known, Ne.symm hk]

theorem putDistinct {t : Table β} (h : t.Distinct) (key : String) (v : β) :
    (t.put key v).Distinct := by
  simp only [Distinct, keysPut] at h ⊢
  split
  · exact h
  · rename_i fresh
    exact List.nodup_append.mpr ⟨h, by simp, by
      rintro a ha b hb rfl
      exact fresh (List.mem_singleton.mp hb ▸ ha)⟩

theorem removeDistinct {t : Table β} (h : t.Distinct) (key : String) :
    (t.remove key).Distinct :=
  List.Nodup.sublist (List.Sublist.map Prod.fst List.filter_sublist) h

theorem keysAdjust (t : Table β) (key : String) (f : β → β) : (t.adjust key f).keys = t.keys := by
  simp only [adjust, keys, List.map_map]
  congr 1
  funext entry
  simp only [Function.comp_apply]
  split <;> rfl

theorem adjustDistinct {t : Table β} (h : t.Distinct) (key : String) (f : β → β) :
    (t.adjust key f).Distinct := by
  rw [Distinct, keysAdjust]; exact h

theorem memOfGet {t : Table β} {key : String} {v : β} (h : t.get? key = some v) :
    (key, v) ∈ t := by
  obtain ⟨entry, found, rfl⟩ := Option.map_eq_some_iff.mp h
  have same : entry.1 = key := by simpa using List.find?_some found
  exact same ▸ List.mem_of_find?_eq_some found

theorem getOfMem {t : Table β} (h : t.Distinct) {key : String} {v : β} (mem : (key, v) ∈ t) :
    t.get? key = some v := by
  induction t with
  | nil => simp at mem
  | cons head rest ih =>
    obtain ⟨fresh, distinct⟩ := List.nodup_cons.mp h
    rcases List.mem_cons.mp mem with rfl | inside
    · simp [get?]
    · have apart : head.1 ≠ key := fun same =>
        fresh (List.mem_map.mpr ⟨(key, v), inside, same.symm⟩)
      simpa [get?, apart] using ih distinct inside

theorem memIffGet {t : Table β} (h : t.Distinct) (key : String) (v : β) :
    (key, v) ∈ t ↔ t.get? key = some v := ⟨getOfMem h, memOfGet⟩

theorem getPerm {t u : Table β} (h : t.Distinct) (perm : u.Perm t) (key : String) :
    u.get? key = t.get? key := by
  have hu : u.Distinct := ((perm.map Prod.fst).nodup_iff).mpr h
  apply Option.ext
  intro v
  rw [← memIffGet hu, ← memIffGet h, perm.mem_iff]

theorem putFresh {t : Table β} {key : String} (fresh : key ∉ t.keys) (value : β) :
    t.put key value = t ++ [(key, value)] := by
  induction t with
  | nil => rfl
  | cons entry rest ih =>
    obtain ⟨other, v⟩ := entry
    simp only [keys, List.map_cons, List.mem_cons, not_or] at fresh
    simp [put, Ne.symm fresh.1, ih fresh.2]

theorem ofDistinct {t : Table β} (distinct : t.Distinct) : ofEntries t = t := by
  have grows (front back : Table β) (distinct : (front ++ back).Distinct) :
      List.foldl (fun t (entry : String × β) => put t entry.1 entry.2) front back =
        front ++ back := by
    induction back generalizing front with
    | nil => simp
    | cons entry rest ih =>
      have fresh : entry.1 ∉ front.keys := by
        simp only [Distinct, keys, List.map_append, List.map_cons, List.nodup_append] at distinct
        exact fun mem => distinct.2.2 _ mem _ List.mem_cons_self rfl
      rw [List.foldl_cons, putFresh fresh, ih _ (by simpa using distinct), List.append_assoc]
      rfl
  exact grows [] t distinct

end ServiceDirectory.Table

namespace ServiceDirectory
variable {α : Type} {k : Nat}

theorem findMapped (l : List (Nat × α)) (id : Nat) (v : α) :
    ((l.map fun x => if x.1 == id then (id, v) else x).find? (·.1 == k)).map (·.2) =
      if id = k then ((l.find? (·.1 == k)).map (·.2)).map fun _ => v
      else (l.find? (·.1 == k)).map (·.2) := by
  induction l with
  | nil => simp
  | cons x rest ih =>
    rw [List.map_cons]
    by_cases here : x.1 = k
    · by_cases mine : id = k
      · simp [here, mine]
      · have other : ¬k = id := fun same => mine same.symm
        simp [here, other, mine]
    · by_cases hit : x.1 = id
      · have other : ¬id = k := fun same => here (hit.trans same)
        simpa [hit, other] using ih
      · simpa [here, hit] using ih

theorem findFiltered (l : List (Nat × α)) (id : Nat) :
    (l.filter (·.1 != id)).find? (·.1 == k) = if id = k then none else l.find? (·.1 == k) := by
  induction l with
  | nil => simp
  | cons x rest ih =>
    by_cases hit : x.1 = id
    · subst hit
      rw [List.filter_cons_of_neg (by simp), ih]
      split
      · rfl
      · rename_i other
        rw [List.find?_cons_of_neg (by simpa using other)]
    · by_cases mine : x.1 = k
      · have other : ¬k = id := fun same => hit (mine.trans same)
        simp [mine, other, Ne.symm other]
      · simpa [hit, mine] using ih

end ServiceDirectory
