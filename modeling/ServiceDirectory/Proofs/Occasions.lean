/-! Each thing done, with all that was done before it. -/
namespace ServiceDirectory
variable {α : Type}

def occasionsFrom (past : List α) : List α → List (List α × α)
  | [] => []
  | a :: rest => (past, a) :: occasionsFrom (past ++ [a]) rest

def occasions (done : List α) : List (List α × α) := occasionsFrom [] done

theorem occasionsFromLast (past done : List α) (a : α) :
    occasionsFrom past (done ++ [a]) = occasionsFrom past done ++ [(past ++ done, a)] := by
  induction done generalizing past with
  | nil => simp [occasionsFrom]
  | cons b rest ih => simp [occasionsFrom, ih]

theorem occasionsLast (done : List α) (a : α) :
    occasions (done ++ [a]) = occasions done ++ [(done, a)] := occasionsFromLast [] done a

theorem occasionsFromIff {past done : List α} {x : List α × α} :
    x ∈ occasionsFrom past done ↔
      ∃ early late, done = early ++ x.2 :: late ∧ x.1 = past ++ early := by
  induction done generalizing past with
  | nil => simp [occasionsFrom]
  | cons a rest ih =>
    rw [occasionsFrom, List.mem_cons, ih]
    constructor
    · rintro (rfl | ⟨early, late, rfl, same⟩)
      · exact ⟨[], rest, rfl, (List.append_nil past).symm⟩
      · exact ⟨a :: early, late, rfl, by simpa using same⟩
    · rintro ⟨early, late, split, same⟩
      cases early with
      | nil =>
        obtain ⟨rfl, rfl⟩ := List.cons.inj split
        exact .inl (Prod.ext (by simpa using same) rfl)
      | cons b early =>
        obtain ⟨rfl, rfl⟩ := List.cons.inj split
        exact .inr ⟨early, late, rfl, by simpa using same⟩

theorem occasionsIff {done : List α} {x : List α × α} :
    x ∈ occasions done ↔ ∃ late, done = x.1 ++ x.2 :: late := by
  rw [occasions, occasionsFromIff]
  constructor
  · rintro ⟨early, late, rfl, same⟩
    exact ⟨late, by simp [same]⟩
  · rintro ⟨late, split⟩
    exact ⟨x.1, late, split, rfl⟩

theorem occasionsEnd (done : List α) (a : α) : (done, a) ∈ occasions (done ++ [a]) :=
  occasionsIff.mpr ⟨[], rfl⟩

theorem occasionsMore (done more : List α) : occasions done ⊆ occasions (done ++ more) := by
  intro x mem
  obtain ⟨late, split⟩ := occasionsIff.mp mem
  exact occasionsIff.mpr ⟨late ++ more, by rw [split, List.append_assoc, List.cons_append]⟩

theorem occasionsPrefix {done : List α} {x y : List α × α} (mem : x ∈ occasions done)
    (mem' : y ∈ occasions done) (shorter : x.1.length ≤ y.1.length) :
    x = y ∨ x.1 ++ [x.2] <+: y.1 := by
  obtain ⟨late, split⟩ := occasionsIff.mp mem
  obtain ⟨late', split'⟩ := occasionsIff.mp mem'
  obtain ⟨between, same⟩ : x.1 <+: y.1 :=
    List.prefix_of_prefix_length_le ⟨_, split.symm⟩ ⟨_, split'.symm⟩ shorter
  rw [split, ← same, List.append_assoc, List.append_cancel_left_eq] at split'
  cases between with
  | nil =>
    obtain ⟨now, _⟩ := List.cons.inj split'
    exact .inl (Prod.ext (by simpa using same) now)
  | cons b between =>
    obtain ⟨now, _⟩ := List.cons.inj split'
    exact .inr ⟨between, by rw [← same, now, List.append_assoc, List.singleton_append]⟩

end ServiceDirectory
