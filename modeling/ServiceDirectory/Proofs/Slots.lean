import Mathlib.Data.List.Forall2
import Mathlib.Data.List.Nodup
import ServiceDirectory.Json.Decode
import ServiceDirectory.Proofs.Grammar
import ServiceDirectory.Proofs.Table

/-! Records in JSON: what an object says of a record, in whatever order and among whatever else, and
that this record is read from it. -/
namespace ServiceDirectory.Json
open Decode (Field Absence field)

structure Slot (ρ : Type) where
  {α : Type}
  name : String
  needed : Bool
  get : ρ → α
  shows : α → Draft → Prop

namespace Slot
variable {ρ α : Type}

def must (name : String) (get : ρ → α) (shows : α → Draft → Prop) : Slot ρ :=
  ⟨name, true, get, shows⟩

def may (name : String) (get : ρ → α) (shows : α → Draft → Prop) : Slot ρ :=
  ⟨name, false, get, shows⟩

def free (slot : Slot ρ) : Slot ρ := { slot with needed := false }

end Slot

variable {ρ : Type}

def Entries.leaveOut (entries : Entries) (name : String) : Prop := ∀ d, (some name, d) ∉ entries

def known (slots : List (Slot ρ)) (key : Option String) : Bool :=
  slots.any fun slot => key == some slot.name

structure Agrees (slots : List (Slot ρ)) (r : ρ) (entries : Entries) : Prop where
  once : ((entries.map (·.1)).filter (known slots)).Nodup
  shown : ∀ slot ∈ slots, ∀ d, (some slot.name, d) ∈ entries → slot.shows (slot.get r) d
  others : ∀ entry ∈ entries, (∀ slot ∈ slots, entry.1 ≠ some slot.name) → Passable entry

structure Gives (slots : List (Slot ρ)) (start : ρ) (r : ρ) (entries : Entries) : Prop
    extends Agrees slots r entries where
  omitted : ∀ slot ∈ slots, entries.leaveOut slot.name →
    slot.needed = false ∧ slot.get r = slot.get start

theorem Agrees.tail {slots : List (Slot ρ)} {r : ρ} {entry : Option String × Draft}
    {entries : Entries} (agrees : Agrees slots r (entry :: entries)) : Agrees slots r entries := by
  refine ⟨agrees.once.sublist ?_, fun slot inside d place =>
    agrees.shown slot inside d (List.mem_cons_of_mem _ place), fun other place =>
    agrees.others other (List.mem_cons_of_mem _ place)⟩
  exact (List.sublist_cons_self _ _).filter _

theorem Agrees.apart {slots : List (Slot ρ)} {r : ρ} {slot : Slot ρ} {d : Draft} {entries : Entries}
    (agrees : Agrees slots r ((some slot.name, d) :: entries)) (inside : slot ∈ slots) :
    entries.leaveOut slot.name := by
  intro e later
  have once := agrees.once
  have isKnown : known slots (some slot.name) = true :=
    List.any_eq_true.mpr ⟨slot, inside, by simp⟩
  rw [List.map_cons, List.filter_cons_of_pos isKnown] at once
  refine (List.nodup_cons.mp once).1 (List.mem_filter.mpr ⟨?_, isKnown⟩)
  exact List.mem_map.mpr ⟨_, later, rfl⟩

theorem paired {α β : Type*} {R : α → β → Prop} {as : List α} {bs : List β}
    (pairs : List.Forall₂ R as bs) : ∀ a ∈ as, ∃ b ∈ bs, R a b := by
  induction pairs with
  | nil => exact List.forall_mem_nil _
  | cons one _ ih =>
    refine List.forall_mem_cons.mpr ⟨⟨_, List.mem_cons_self, one⟩, fun a inside => ?_⟩
    obtain ⟨b, among, related⟩ := ih a inside
    exact ⟨b, List.mem_cons_of_mem _ among, related⟩

theorem sameNames {α β γ : Type*} {R : α → β → Prop} {as : List α} {bs : List β} {f : α → γ}
    {g : β → γ} (pairs : List.Forall₂ R as bs) (same : ∀ a b, R a b → f a = g b) :
    as.map f = bs.map g := by
  induction pairs with
  | nil => rfl
  | cons one _ ih => rw [List.map_cons, List.map_cons, same _ _ one, ih]

structure Stores (slots : List (Slot ρ)) (f : Field Draft Fault ρ) (slot : Slot ρ) : Prop where
  name : f.name = slot.name
  refuses : f.absence = .refused → slot.needed = true
  stores : ∀ a d x, slot.shows a d → ∃ y, f.store d x = .ok y ∧ slot.get y = a ∧
    ∀ other ∈ slots, other.name ≠ slot.name → other.get y = other.get x

structure Lays (fields : List (Field Draft Fault ρ)) (slots : List (Slot ρ)) : Prop where
  stores : List.Forall₂ (Stores slots) fields slots
  distinct : (slots.map (·.name)).Nodup
  whole : ∀ r s, (∀ slot ∈ slots, slot.get r = slot.get s) → r = s

variable {fields : List (Field Draft Fault ρ)} {slots : List (Slot ρ)}

theorem Lays.same (lays : Lays fields slots) {a b : Slot ρ} (left : a ∈ slots) (right : b ∈ slots)
    (named : a.name = b.name) : a = b :=
  List.inj_on_of_nodup_map lays.distinct left right named

theorem Lays.noField (lays : Lays fields slots) {key : String}
    (missing : fields.find? (·.name == key) = none) : ∀ slot ∈ slots, key ≠ slot.name := by
  intro slot inside same
  have named : key ∈ fields.map (·.name) := by
    rw [sameNames lays.stores fun _ _ stores => stores.name, same]
    exact List.mem_map_of_mem inside
  obtain ⟨f, place, fits⟩ := List.mem_map.mp named
  have other := List.find?_eq_none.mp missing f place
  simp [fits] at other

structure Filled (slots : List (Slot ρ)) (r : ρ) (entries : Entries) (x y : ρ)
    (met met' : List String) : Prop where
  filled : ∀ slot ∈ slots, ∀ d, (some slot.name, d) ∈ entries →
    slot.name ∈ met' ∧ slot.get y = slot.get r
  left : ∀ slot ∈ slots, entries.leaveOut slot.name → slot.get y = slot.get x
  kept : ∀ name ∈ met, name ∈ met'

theorem Filled.alien {r x y : ρ} {entries : Entries} {met met' : List String} {key : String}
    {d : Draft} (filled : Filled slots r entries x y met met')
    (alien : ∀ slot ∈ slots, key ≠ slot.name) :
    Filled slots r ((some key, d) :: entries) x y met met' := by
  refine ⟨fun slot inside e entry => ?_, fun slot inside out => ?_, filled.kept⟩
  · rcases List.mem_cons.mp entry with same | later
    · cases same
      exact absurd rfl (alien slot inside)
    · exact filled.filled slot inside e later
  · exact filled.left slot inside fun e later => out e (List.mem_cons_of_mem _ later)

theorem Filled.next {r x y z : ρ} {entries : Entries} {met met' : List String} {slot : Slot ρ}
    {d : Draft} (lays : Lays fields slots) (inside : slot ∈ slots)
    (taken : slot.get y = slot.get r)
    (frame : ∀ other ∈ slots, other.name ≠ slot.name → other.get y = other.get x)
    (last : entries.leaveOut slot.name)
    (filled : Filled slots r entries y z (slot.name :: met) met') :
    Filled slots r ((some slot.name, d) :: entries) x z met met' := by
  refine ⟨fun other among e entry => ?_, fun other among out => ?_,
    fun name old => filled.kept name (List.mem_cons_of_mem _ old)⟩
  · rcases List.mem_cons.mp entry with same | later
    · have named : other.name = slot.name := by simpa using congrArg Prod.fst same
      cases lays.same among inside named
      exact ⟨filled.kept _ List.mem_cons_self, (filled.left _ inside last).trans taken⟩
    · exact filled.filled other among e later
  · have apart : other.name ≠ slot.name := fun named =>
      out d (by rw [named]; exact List.mem_cons_self)
    exact (filled.left other among fun e later => out e (List.mem_cons_of_mem _ later)).trans
      (frame other among apart)

theorem namedReads (lays : Lays fields slots) {r : ρ} :
    ∀ (entries : Entries) (met : List String) (x : ρ), Agrees slots r entries →
      (∀ slot ∈ slots, slot.name ∈ met → entries.leaveOut slot.name) →
      ∃ met' y, readNamed fields entries met x = .ok (met', y) ∧ Filled slots r entries x y met met'
  | [], met, x, _, _ => ⟨met, x, rfl, ⟨by simp, fun _ _ _ => rfl, fun _ old => old⟩⟩
  | (none, d) :: rest, met, x, agrees, _ => by
    have keyed := (agrees.others (none, d) List.mem_cons_self (by simp)).1
    cases keyed
  | (some key, d) :: rest, met, x, agrees, fresh => by
    rw [readNamed]
    cases found : fields.find? (·.name == key) with
    | none =>
      have alien := lays.noField found
      have skips := (agrees.others (some key, d) List.mem_cons_self (by simpa using alien)).2
      obtain ⟨met', y, read, filled⟩ := namedReads lays rest met x agrees.tail fun slot inside old e
        later => fresh slot inside old e (List.mem_cons_of_mem _ later)
      refine ⟨met', y, ?_, filled.alien alien⟩
      simp only [skips, bind, Except.bind, read]
    | some f =>
      obtain ⟨slot, inside, stores⟩ := paired lays.stores f (List.mem_of_find?_eq_some found)
      have fits := List.find?_some found
      have named : key = slot.name := by
        rw [← stores.name]
        exact (beq_iff_eq.mp fits).symm
      subst named
      have new : slot.name ∉ met := fun old => fresh slot inside old d List.mem_cons_self
      have shown := agrees.shown slot inside d List.mem_cons_self
      obtain ⟨y, stored, taken, frame⟩ := stores.stores _ d x shown
      -- what was stored stays: the name is met now and does not come again
      have last := agrees.apart inside
      obtain ⟨met', z, read, filled⟩ := namedReads lays rest (slot.name :: met) y agrees.tail
        fun other among old e later => by
          rcases List.mem_cons.mp old with same | old
          · rw [same] at later
            exact last e later
          · exact fresh other among old e (List.mem_cons_of_mem _ later)
      refine ⟨met', z, ?_, filled.next lays inside taken frame last⟩
      simp only [List.contains_iff_mem, new, if_false, stored, bind, Except.bind, read]

theorem Gives.present {start r : ρ} {entries : Entries} (gives : Gives slots start r entries)
    {slot : Slot ρ} (inside : slot ∈ slots) (needed : slot.needed = true) :
    ∃ d, (some slot.name, d) ∈ entries := by
  refine Classical.byContradiction fun out => ?_
  have free := (gives.omitted slot inside fun d place => out ⟨d, place⟩).1
  rw [needed] at free
  cases free

theorem recordReads (lays : Lays fields slots) {start r : ρ} {entries : Entries}
    (gives : Gives slots start r entries) (surplus : Nat → Fault) (kind : String) :
    readRecord surplus kind fields start (.object entries none) = .ok r := by
  obtain ⟨met, y, read, filled⟩ := namedReads lays entries [] start gives.toAgrees (by simp)
  have same : y = r := lays.whole y r fun slot inside => by
    by_cases out : entries.leaveOut slot.name
    · rw [filled.left slot inside out, (gives.omitted slot inside out).2]
    · obtain ⟨d, place⟩ : ∃ d, (some slot.name, d) ∈ entries := by
        simpa [Entries.leaveOut] using out
      exact (filled.filled slot inside d place).2
  have complete : missing? fields met = none := by
    rw [missing?, Option.map_eq_none_iff, List.find?_eq_none]
    intro f inside
    obtain ⟨slot, among, stores⟩ := paired lays.stores f inside
    by_cases refused : f.absence = .refused
    · obtain ⟨d, place⟩ := gives.present among (stores.refuses refused)
      have reached := (filled.filled slot among d place).1
      simp [stores.name, reached]
    · simp [refused]
  simp only [readRecord, read, bind, Except.bind, Draft.finish, complete, same]

theorem storesField {α : Type} {name : String} {absence : Absence} {needed : Bool}
    {read : Draft → Except Fault α} {put : α → ρ → ρ} {get : ρ → α} {shows : α → Draft → Prop}
    (refuses : absence = .refused → needed = true) (reads : ∀ a d, shows a d → read d = .ok a)
    (taken : ∀ a x, get (put a x) = a)
    (frame : ∀ other ∈ slots, other.name ≠ name → ∀ a x, other.get (put a x) = other.get x) :
    Stores slots (field name absence read put) ⟨name, needed, get, shows⟩ := by
  refine ⟨rfl, refuses, fun a d x shown => ⟨put a x, ?_, taken a x, fun other inside apart =>
    frame other inside apart a x⟩⟩
  simp [field, reads a d shown, bind, Except.bind, pure, Except.pure]

def Value.members : Value → List (String × Value)
  | .object members => members
  | _ => []

def Encodes (r : ρ) (member : String × Value) (slot : Slot ρ) : Prop :=
  member.1 = slot.name ∧ slot.shows (slot.get r) (.ofValue member.2)

theorem ofFieldsMem {members : List (String × Value)} {key : Option String} {d : Draft} :
    (key, d) ∈ Draft.ofFields members ↔ ∃ m ∈ members, key = some m.1 ∧ d = .ofValue m.2 := by
  induction members with
  | nil => simp [Draft.ofFields]
  | cons m rest ih => simp [Draft.ofFields, ih]

theorem ofFieldsKeys (members : List (String × Value)) :
    (Draft.ofFields members).map (·.1) = members.map fun m => some m.1 := by
  induction members with
  | nil => rfl
  | cons m rest ih => simp [Draft.ofFields, ih]

theorem keysDistinct {members : List (String × Value)} (distinct : (members.map (·.1)).Nodup) :
    (members.map fun m => some m.1).Nodup := by
  have keys : ((members.map (·.1)).map some).Nodup :=
    distinct.map fun _ _ same => Option.some.inj same
  rwa [List.map_map] at keys

mutual

theorem valueSkips : (v : Value) → (Draft.ofValue v).skip = .ok ()
  | .null => rfl
  | .bool _ => rfl
  | .integer _ => rfl
  | .floating _ => rfl
  | .string _ => rfl
  | .array items => by
    simp [Draft.ofValue, Draft.skip, Draft.finish, itemsSkip items, bind, Except.bind]
  | .object fields => by
    simp [Draft.ofValue, Draft.skip, Draft.finish, fieldsSkip fields, bind, Except.bind]

theorem itemsSkip : (items : List Value) → Draft.skipItems (Draft.ofItems items) = .ok ()
  | [] => rfl
  | v :: rest => by
    simp [Draft.ofItems, Draft.skipItems, valueSkips v, itemsSkip rest, bind, Except.bind]

theorem fieldsSkip : (fields : List (String × Value)) →
    Draft.skipFields (Draft.ofFields fields) = .ok ()
  | [] => rfl
  | (_, v) :: rest => by
    simp [Draft.ofFields, Draft.skipFields, valueSkips v, fieldsSkip rest, bind, Except.bind]

end

theorem membersGive {members : List (String × Value)} {start r : ρ}
    (once : (members.map (·.1)).Nodup)
    (shown : ∀ slot ∈ slots, ∀ m ∈ members, m.1 = slot.name →
      slot.shows (slot.get r) (.ofValue m.2))
    (omitted : ∀ slot ∈ slots, slot.name ∉ members.map (·.1) →
      slot.needed = false ∧ slot.get r = slot.get start) :
    Gives slots start r (Draft.ofFields members) := by
  refine ⟨⟨?_, fun slot inside d place => ?_, fun entry place _ => ?_⟩, fun slot inside out => ?_⟩
  · rw [ofFieldsKeys]
    exact (keysDistinct once).filter _
  · obtain ⟨m, among, same, rfl⟩ := ofFieldsMem.mp place
    exact shown slot inside m among (Option.some.inj same).symm
  · obtain ⟨m, _, same, skipped⟩ := ofFieldsMem.mp place
    rw [Passable, same, skipped]
    exact ⟨rfl, valueSkips m.2⟩
  · refine omitted slot inside fun place => ?_
    obtain ⟨m, among, named⟩ := List.mem_map.mp place
    exact out _ (ofFieldsMem.mpr ⟨m, among, by rw [named], rfl⟩)

/-- From the members of an encoded record some are left out, the rest are put in any order and
others are added. -/
def Excerpt (members : List (String × Value)) (left : List String) (entries : Entries) : Prop :=
  ∃ extra, entries.Perm (Draft.ofFields (members.filter fun m => !left.contains m.1) ++ extra) ∧
    ∀ entry ∈ extra, ∀ m ∈ members, entry.1 ≠ some m.1

theorem Excerpt.mem {members : List (String × Value)} {left : List String} {entries : Entries}
    (excerpt : Excerpt members left entries) {m : String × Value} (inside : m ∈ members)
    (d : Draft) :
    (some m.1, d) ∈ entries ↔ m.1 ∉ left ∧ ∃ n ∈ members, n.1 = m.1 ∧ d = .ofValue n.2 := by
  obtain ⟨extra, shuffled, others⟩ := excerpt
  have given (n : String × Value) :
      n ∈ members.filter (fun m => !left.contains m.1) ↔ n ∈ members ∧ n.1 ∉ left := by
    simp [List.mem_filter]
  rw [shuffled.mem_iff, List.mem_append, ofFieldsMem]
  constructor
  · rintro (⟨n, place, same, shown⟩ | alien)
    · have named : n.1 = m.1 := (Option.some.inj same).symm
      obtain ⟨among, kept⟩ := (given n).mp place
      exact ⟨named ▸ kept, n, among, named, shown⟩
    · exact absurd rfl (others _ alien m inside)
  · rintro ⟨kept, n, among, named, shown⟩
    exact .inl ⟨n, (given n).mpr ⟨among, named ▸ kept⟩, by rw [named], shown⟩

theorem Excerpt.once {members : List (String × Value)} {left : List String} {entries : Entries}
    (excerpt : Excerpt members left entries) (names : members.map (·.1) = slots.map (·.name))
    (distinct : (members.map (·.1)).Nodup) : ((entries.map (·.1)).filter (known slots)).Nodup := by
  obtain ⟨extra, shuffled, others⟩ := excerpt
  have none : (extra.map (·.1)).filter (known slots) = [] := by
    refine List.filter_eq_nil_iff.mpr fun key place isKnown => ?_
    obtain ⟨entry, inside, rfl⟩ := List.mem_map.mp place
    obtain ⟨slot, among, same⟩ := List.any_eq_true.mp isKnown
    have listed : slot.name ∈ members.map (·.1) := by
      rw [names]
      exact List.mem_map_of_mem among
    obtain ⟨m, here, named⟩ := List.mem_map.mp listed
    exact others entry inside m here ((beq_iff_eq.mp same).trans (congrArg some named.symm))
  have kept : ((members.filter fun m => !left.contains m.1).map fun m => some m.1).Nodup :=
    (keysDistinct distinct).sublist (List.filter_sublist.map _)
  rw [((shuffled.map (·.1)).filter _).nodup_iff, List.map_append, List.filter_append, none,
    List.append_nil, ofFieldsKeys]
  exact kept.filter _

theorem excerptGives {members : List (String × Value)} {left : List String} {entries : Entries}
    {start r t : ρ} (encodes : List.Forall₂ (Encodes r) members slots)
    (distinct : (slots.map (·.name)).Nodup) (excerpt : Excerpt members left entries)
    (passable : ∀ entry ∈ entries, Passable entry)
    (kept : ∀ slot ∈ slots, slot.name ∉ left → slot.get t = slot.get r)
    (dropped : ∀ slot ∈ slots, slot.name ∈ left →
      slot.needed = false ∧ slot.get t = slot.get start) :
    Gives slots start t entries := by
  have names : members.map (·.1) = slots.map (·.name) := sameNames encodes fun _ _ one => one.1
  have apart : (members.map (·.1)).Nodup := by rw [names]; exact distinct
  refine ⟨⟨excerpt.once names apart, fun slot inside d place => ?_, fun entry place _ =>
    passable entry place⟩, fun slot inside out => ?_⟩
  · obtain ⟨m, among, named, shown⟩ := paired encodes.flip slot inside
    rw [← named] at place
    obtain ⟨given, n, other, same, rfl⟩ := (excerpt.mem among d).mp place
    cases List.inj_on_of_nodup_map apart other among same
    rw [kept slot inside (named ▸ given)]
    exact shown
  · refine dropped slot inside (Classical.byContradiction fun given => ?_)
    obtain ⟨m, among, named, _⟩ := paired encodes.flip slot inside
    rw [← named] at out given
    exact out _ ((excerpt.mem among _).mpr ⟨given, m, among, rfl, rfl⟩)

def textShown (s : String) (d : Draft) : Prop := d = .string s

def flagShown (b : Bool) (d : Draft) : Prop := d = .bool b

def naturalShown (limit n : Nat) (d : Draft) : Prop := n ≤ limit ∧ d = .integer n

def optionShown {α : Type} (shows : α → Draft → Prop) : Option α → Draft → Prop
  | none, d => d = .null
  | some a, d => d ≠ .null ∧ shows a d

def listShown {α : Type} (shows : α → Draft → Prop) (list : List α) (d : Draft) : Prop :=
  ∃ items, d = .array items none ∧ List.Forall₂ shows list items

def tableShown (t : Table String) (d : Draft) : Prop :=
  ∃ members, t = .ofEntries members ∧
    d = .object (members.map fun (k, v) => (some k, .string v)) none

def recordShown (slots : List (Slot ρ)) (start r : ρ) (d : Draft) : Prop :=
  ∃ entries, d = .object entries none ∧ Gives slots start r entries

theorem textReads {s : String} {d : Draft} (shown : textShown s d) : readText d = .ok s := by
  rw [shown]
  rfl

theorem flagReads {b : Bool} {d : Draft} (shown : flagShown b d) : readFlag d = .ok b := by
  rw [shown]
  rfl

theorem naturalReads {limit n : Nat} {d : Draft} (kind : String) (shown : naturalShown limit n d) :
    readNatural limit kind d = .ok n := by
  obtain ⟨most, rfl⟩ := shown
  simp [readNatural, most]

theorem optionReads {α : Type} {read : Draft → Except Fault α} {shows : α → Draft → Prop}
    (reads : ∀ a d, shows a d → read d = .ok a) {option : Option α} {d : Draft}
    (shown : optionShown shows option d) : readOptional read d = .ok option := by
  cases option with
  | none =>
    rw [show d = .null from shown]
    rfl
  | some a =>
    obtain ⟨some, shown⟩ := shown
    simp [readOptional, reads a d shown, bind, Except.bind, pure, Except.pure]

theorem listReads {α : Type} {read : Draft → Except Fault α} {shows : α → Draft → Prop}
    (reads : ∀ a d, shows a d → read d = .ok a) {list : List α} {d : Draft}
    (shown : listShown shows list d) : readList read d = .ok list := by
  obtain ⟨items, rfl, each⟩ := shown
  have all : readEach read items = .ok list := by
    induction each with
    | nil => rfl
    | cons one _ ih => simp [readEach, reads _ _ one, ih, bind, Except.bind, pure, Except.pure]
  simp [readList, all, Draft.finish, bind, Except.bind, pure, Except.pure]

theorem tableReads {t : Table String} {d : Draft} (shown : tableShown t d) :
    readTable readText d = .ok t := by
  obtain ⟨members, rfl, rfl⟩ := shown
  have all : readEntries readText (members.map fun (k, v) => (some k, Draft.string v)) =
      .ok members := by
    induction members with
    | nil => rfl
    | cons entry rest ih =>
      simp [readEntries, readText, ih, bind, Except.bind, pure, Except.pure]
  simp [readTable, all, Draft.finish, bind, Except.bind, pure, Except.pure]

theorem recordShownReads (lays : Lays fields slots) {start r : ρ} {d : Draft}
    (surplus : Nat → Fault) (kind : String) (shown : recordShown slots start r d) :
    readRecord surplus kind fields start d = .ok r := by
  obtain ⟨entries, rfl, gives⟩ := shown
  exact recordReads lays gives surplus kind

end ServiceDirectory.Json
