import Mathlib.Data.List.TakeWhile
import ServiceDirectory.Proofs.Table
import ServiceDirectory.Settings.Environment

/-! Tables laid over tables, and where in them a key leads: one step for each of the words between
its dots. A variable leads where its section and its setting say, two underscores between them. -/
namespace ServiceDirectory.Settings

def last? {α : Type} (given : List (String × α)) (name : String) : Option α :=
  ((given.filter (·.1 == name)).getLast?).map (·.2)

theorem lastCons {α : Type} (key name : String) (a : α) (rest : List (String × α)) :
    last? ((key, a) :: rest) name = (last? rest name).or (if name = key then some a else none) := by
  by_cases own : name = key
  · subst own
    simp only [last?, List.filter_cons, beq_self_eq_true, if_true, List.getLast?_cons]
    cases (rest.filter (·.1 == name)).getLast? <;> rfl
  · simp [last?, own, Ne.symm own]

theorem lastMem {α : Type} {given : List (String × α)} {name : String} {a : α}
    (found : last? given name = some a) : (name, a) ∈ given := by
  obtain ⟨entry, mem, rfl⟩ := Option.map_eq_some_iff.mp found
  obtain ⟨inside, own⟩ := List.mem_filter.mp (List.mem_of_getLast? mem)
  exact beq_iff_eq.mp own ▸ inside

def Source.IsScalar (s : Source) : Prop := ∃ origin v, s = .scalar origin v

theorem overlayMerges (origin : Option String) (fields : List (String × Source))
    (existing : Table Source) : ∃ merged : Table Source,
      Source.overlayEntries (.table origin existing) fields = .table origin merged ∧
      (existing.Distinct → merged.Distinct) ∧
      ∀ name, (∀ s, (name, s) ∈ fields → s.IsScalar) →
        merged.get? name = (last? fields name).or (existing.get? name) := by
  induction fields generalizing existing with
  | nil => exact ⟨existing, rfl, id, fun _ _ => rfl⟩
  | cons entry rest ih =>
    obtain ⟨key, s⟩ := entry
    obtain ⟨merged, laid, distinct, gets⟩ :=
      ih (existing.put key (Source.overlay ((existing.get? key).getD .nothing) s))
    refine ⟨merged, laid, fun apart => distinct (Table.putDistinct apart _ _),
      fun name scalar => ?_⟩
    rw [gets name fun s mem => scalar s (List.mem_cons_of_mem _ mem), Table.getPut, lastCons,
      Option.or_assoc]
    congr 1
    split
    · rename_i own
      subst own
      obtain ⟨from_, v, rfl⟩ := scalar s List.mem_cons_self
      rfl
    · rfl

theorem pathHead (key : String) : ∃ name rest, pathOf key = .key name :: rest := by
  simp only [pathOf]
  split
  · exact ⟨key, [], rfl⟩
  · cases readSteps key.toList.length (key.toList.dropWhile isKeyChar) with
    | none => exact ⟨key, [], rfl⟩
    | some rest => exact ⟨_, rest, rfl⟩

theorem setUnder (origin : Option String) (entries : Table Source) (key : String) (value : Source) :
    ∃ name s, (pathOf key).head? = some (.key name) ∧
      (Source.table origin entries).set key value = .table origin (entries.put name s) := by
  obtain ⟨name, rest, path⟩ := pathHead key
  exact ⟨name, _, by rw [path]; rfl, by rw [Source.set, path, Source.changeAt]; rfl⟩

structure Word (cs : List Char) : Prop where
  letters : cs ≠ []
  plain : cs.all isKeyChar = true

instance (cs : List Char) : Decidable (Word cs) :=
  decidable_of_iff (cs ≠ [] ∧ cs.all isKeyChar = true) ⟨fun h => ⟨h.1, h.2⟩, fun h => ⟨h.1, h.2⟩⟩

section
variable {cs outer inner : List Char}

theorem Word.taken (word : Word cs) : cs.takeWhile isKeyChar = cs :=
  List.takeWhile_eq_self_iff.mpr (List.all_eq_true.mp word.plain)

theorem Word.dropped (word : Word cs) : cs.dropWhile isKeyChar = [] :=
  List.dropWhile_eq_nil_iff.mpr (List.all_eq_true.mp word.plain)

theorem wordPath (word : Word cs) : pathOf (String.ofList cs) = [.key (String.ofList cs)] := by
  simp only [pathOf, String.toList_ofList, word.taken, word.dropped, readSteps]
  split <;> rfl

theorem dottedPath (first : Word outer) (second : Word inner) :
    pathOf (String.ofList (outer ++ '.' :: inner)) =
      [.key (String.ofList outer), .key (String.ofList inner)] := by
  have plain := List.all_eq_true.mp first.plain
  have dot : isKeyChar '.' = false := by decide
  have head : (outer ++ '.' :: inner).takeWhile isKeyChar = outer := by
    rw [List.takeWhile_append_of_pos plain, List.takeWhile_cons_of_neg (by simp [dot]),
      List.append_nil]
  have tail : (outer ++ '.' :: inner).dropWhile isKeyChar = '.' :: inner := by
    rw [List.dropWhile_append_of_pos plain, List.dropWhile_cons_of_neg (by simp [dot])]
  obtain ⟨n, long⟩ : ∃ n, (outer ++ '.' :: inner).length = n + 1 :=
    ⟨outer.length + inner.length, by simp only [List.length_append, List.length_cons]; omega⟩
  simp only [pathOf, String.toList_ofList, head, tail, long, readSteps, second.taken,
    second.dropped, List.isEmpty_eq_false_iff.mpr first.letters,
    List.isEmpty_eq_false_iff.mpr second.letters]
  rfl

theorem dottedSame (apart : ¬['_', '_'] <:+: cs) : dotted cs = cs := by
  induction cs with
  | nil => rfl
  | cons c rest ih =>
    have behind : ¬['_', '_'] <:+: rest := fun inside => apart (List.infix_cons inside)
    rw [dotted, ih behind]
    rintro more rfl rfl
    exact apart ⟨[], more, rfl⟩

theorem dottedAt (single : '_' ∉ outer) (apart : ¬['_', '_'] <:+: inner) :
    dotted (outer ++ '_' :: '_' :: inner) = outer ++ '.' :: inner := by
  induction outer with
  | nil => exact congrArg ('.' :: ·) (dottedSame apart)
  | cons c rest ih =>
    obtain ⟨other, single⟩ := not_or.mp (mt List.mem_cons.mpr single)
    rw [List.cons_append, dotted, ih single, List.cons_append]
    rintro more rfl
    exact absurd rfl other

theorem variableKeyIs {name : String} (single : '_' ∉ outer) (apart : ¬['_', '_'] <:+: inner)
    (named : (Text.lower name).toList = variableStart ++ (outer ++ '_' :: '_' :: inner)) :
    variableKey? name = some (String.ofList (outer ++ '.' :: inner)) := by
  have starts : variableStart.isPrefixOf (Text.lower name).toList = true := by
    rw [named]
    exact List.isPrefixOf_iff_prefix.mpr (List.prefix_append _ _)
  have rest : (Text.lower name).toList.drop variableStart.length =
      outer ++ '_' :: '_' :: inner := by
    rw [named, List.drop_left]
  simp only [variableKey?, starts, if_true, rest, dottedAt single apart]

end

end ServiceDirectory.Settings
