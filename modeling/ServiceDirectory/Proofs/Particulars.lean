import ServiceDirectory.Daemon
import ServiceDirectory.Proofs.Tenure

/-! What an instance is registered with, and what is live with it. Who comes first under an id keeps
it, be it loaded or registered. -/
namespace ServiceDirectory

structure Particulars where
  id : String
  name : String
  version : String
  endpoint : String
  weight : Nat
  tags : List String
  metadata : Table String
  deriving DecidableEq, Repr

namespace Instance

def particulars (i : Instance) : Particulars :=
  ⟨i.id, i.name, i.version, i.endpoint, i.weight, i.tags, i.metadata⟩

def admissible (i : Instance) : Bool := i.id != "" && i.endpoint != ""

theorem Continues.particulars {i j : Instance} (later : i.Continues j) :
    j.particulars = i.particulars := by rw [later.1]; rfl

end Instance

namespace Settings.ConfiguredInstance

def particulars (c : ConfiguredInstance) : Particulars :=
  ⟨c.id, c.name, c.version, c.endpoint, c.weight.getD 1, c.tags, .ofEntries c.metadata⟩

end Settings.ConfiguredInstance

theorem taggedParticulars (tags : List String) (i : Instance) :
    (tags.foldl Instance.withTag i).particulars =
      { i.particulars with tags := i.particulars.tags ++ tags } := by
  induction tags generalizing i with
  | nil => simp [Instance.particulars]
  | cons tag rest ih =>
    rw [List.foldl_cons, ih]
    simp [Instance.withTag, Instance.particulars]

theorem annotatedParticulars (metadata : List (String × String)) (i : Instance) :
    (metadata.foldl (fun i (k, v) => i.withMetadata k v) i).particulars =
      { i.particulars with
        metadata := metadata.foldl (fun t (k, v) => Table.put t k v) i.particulars.metadata } := by
  induction metadata generalizing i with
  | nil => rfl
  | cons entry rest ih => exact ih (i.withMetadata entry.1 entry.2)

theorem staticParticulars {c : Settings.ConfiguredInstance} (named : c.id ≠ "") (host : String)
    (choices : List Nat) (now : Timestamp) :
    (Daemon.staticInstance c host choices now).particulars = c.particulars := by
  have unnamed : (c.id == "") = false := by simpa using named
  simp only [Daemon.staticInstance, unnamed, annotatedParticulars, taggedParticulars]
  cases weight : c.weight <;>
    simp [Instance.particulars, Instance.withVersion, Instance.withWeight, Instance.fresh, weight,
      Settings.ConfiguredInstance.particulars, Table.ofEntries]

abbrev Roll := String → Option Particulars

namespace Roll

def add (f : Roll) (p : Particulars) : Roll :=
  fun id => (f id).or (if id = p.id then some p else none)

theorem addTaken {f : Roll} {p : Particulars} (taken : f p.id ≠ none) : f.add p = f := by
  funext id
  unfold add
  split
  · rename_i own
    obtain ⟨q, is⟩ := Option.ne_none_iff_exists'.mp taken
    simp [own, is]
  · simp

theorem addAll (f : Roll) (all : List Particulars) :
    all.foldl add f = fun id => (f id).or (all.find? (·.id == id)) := by
  induction all generalizing f with
  | nil => funext id; simp
  | cons p rest ih =>
    rw [List.foldl_cons, ih]
    funext id
    by_cases own : p.id = id
    · simp [add, own]
    · simp [add, own, Ne.symm own]

end Roll

namespace Registry

def roll (r : Registry) : Roll := fun id => (r.get? id).map Instance.particulars

theorem rollEnter {r : Registry} {i : Instance} (free : r.records.get? i.id = none) :
    (r.enter i).1.roll = r.roll.add i.particulars := by
  funext id
  have is : (r.enter i).1.records.get? id =
      if id = i.id then some ⟨i, r.nextEpoch⟩ else r.records.get? id := Table.getPut _ _ _ _
  simp only [roll, get?, Roll.add, is]
  split
  · rename_i own
    simp [own, free, Instance.particulars]
  · rename_i other
    simp [other, Instance.particulars]

theorem rollLoad {r : Registry} (unparked : r.inFlight = []) (now : Timestamp)
    (stored : List Instance) : (r.load now stored).1.roll =
      ((stored.filter Instance.admissible).map Instance.particulars).foldl Roll.add r.roll := by
  induction stored generalizing r with
  | nil => rfl
  | cons i rest ih =>
    have busyIff : r.busy i.id = true ↔ r.roll i.id ≠ none := by
      simp [busy, unparked, roll, get?, Table.holdsIff, Option.isSome_iff_ne_none]
    cases fit : i.admissible with
    | false =>
      have same : r.loadOne now i = (r, [], []) := by
        refine if_pos ?_
        simp only [Instance.admissible, Bool.and_eq_false_iff, bne_eq_false_iff_eq] at fit
        rcases fit with id | endpoint <;> simp [*]
      simpa [load, same, fit] using ih unparked
    | true =>
      rw [List.filter_cons_of_pos fit, List.map_cons, List.foldl_cons]
      simp only [Instance.admissible, Bool.and_eq_true, bne_iff_ne] at fit
      cases busy : r.busy i.id with
      | true =>
        have same : r.loadOne now i = (r, [], []) := if_pos (by simp [busy])
        rw [Roll.addTaken (f := r.roll) (busyIff.mp busy)]
        simpa only [load, same] using ih unparked
      | false =>
        obtain ⟨j, entered, same⟩ : ∃ j : Instance,
            r.loadOne now i = ((r.enter j).1, [j], (r.enter j).2) ∧ j.particulars = i.particulars :=
          ⟨_, if_neg (by simp [busy, fit]), rfl⟩
        have own : j.id = i.id := congrArg Particulars.id same
        have free : r.records.get? j.id = none := own ▸ ((freeIff r i.id).mp busy).1
        have still : (r.enter j).1.inFlight = [] := unparked
        simp only [load, entered]
        rw [ih still, rollEnter free, same]

end Registry
end ServiceDirectory
