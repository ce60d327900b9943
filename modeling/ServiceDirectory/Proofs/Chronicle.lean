import ServiceDirectory.Event
import ServiceDirectory.Proofs.Snapshots

/-! What the events about one id may say, one after the other: a registration, changes of status, the
end of the registration, and then the next one. -/
namespace ServiceDirectory
namespace Event

def unstamped (e : Event) : Event := { e with stamp := .origin }

def Tells : Option Instance → Event → Option Instance → Prop
  | none, e, some i =>
    e.kind = .registered ∧ e.previous = none ∧ e.snapshot = i ∧ i.status = .starting
  | some i, e, some j =>
    e.kind = .statusChanged ∧ e.previous = some i.status ∧ e.snapshot = j ∧ i.Continues j ∧
      j.status ≠ i.status
  | some i, e, none =>
    e.kind.terminal = true ∧ e.previous = none ∧ i.Continues e.snapshot ∧
      e.snapshot.status = i.status
  | none, _, none => False

theorem unstampedTells {a b : Option Instance} {e : Event} :
    Tells a e.unstamped b ↔ Tells a e b := by
  cases a <;> cases b <;> exact Iff.rfl

end Event
open Event (Tells)

def Chronicle : Option Instance → List Event → Option Instance → Prop
  | a, [], b => a = b
  | a, e :: rest, b => ∃ m, Tells a e m ∧ Chronicle m rest b

namespace Chronicle
variable {a b c : Option Instance} {es fs : List Event}

theorem next (first : Chronicle a es b) (second : Chronicle b fs c) : Chronicle a (es ++ fs) c := by
  induction es generalizing a with
  | nil => cases first; exact second
  | cons e rest ih =>
    obtain ⟨m, one, others⟩ := first
    exact ⟨m, one, ih others⟩

theorem one {e : Event} (tells : Tells a e b) : Chronicle a [e] b := ⟨b, tells, rfl⟩

theorem start (whole : Chronicle a (es ++ fs) c) : ∃ b, Chronicle a es b := by
  induction es generalizing a with
  | nil => exact ⟨a, rfl⟩
  | cons e rest ih =>
    obtain ⟨m, one, others⟩ := whole
    obtain ⟨b, more⟩ := ih others
    exact ⟨b, m, one, more⟩

theorem unstamped : Chronicle a (es.map Event.unstamped) b ↔ Chronicle a es b := by
  induction es generalizing a with
  | nil => exact Iff.rfl
  | cons e rest ih =>
    exact exists_congr fun m => and_congr Event.unstampedTells ih

end Chronicle

def about (id : String) (story : List Event) : List Event :=
  story.filter (·.snapshot.id == id)

section About
variable {id : String} {story : List Event}

theorem aboutAppend (id : String) (story more : List Event) :
    about id (story ++ more) = about id story ++ about id more := List.filter_append ..

theorem aboutNothing {more : List Event} (others : ∀ e ∈ more, e.snapshot.id ≠ id) :
    about id (story ++ more) = about id story := by
  rw [aboutAppend]
  have none : about id more = [] := List.filter_eq_nil_iff.mpr fun e mem => by simp [others e mem]
  rw [none, List.append_nil]

theorem aboutItself {e : Event} (own : e.snapshot.id = id) :
    about id (story ++ [e]) = about id story ++ [e] := by
  rw [aboutAppend]
  simp [about, own]

theorem aboutUnstamped (id : String) (story : List Event) :
    about id (story.map Event.unstamped) = (about id story).map Event.unstamped := by
  rw [about, List.filter_map]
  rfl

theorem aboutEach (f : Instance → Event) (own : ∀ i, (f i).snapshot = i) {came : List Instance}
    (distinct : (came.map (·.id)).Nodup) {i : Instance} (mem : i ∈ came) :
    about i.id (came.map f) = [f i] := by
  induction came with
  | nil => cases mem
  | cons j rest ih =>
    obtain ⟨fresh, distinct⟩ := List.nodup_cons.mp distinct
    rcases List.mem_cons.mp mem with rfl | later
    · have others : ∀ e ∈ rest.map f, e.snapshot.id ≠ i.id := by
        intro e hit same
        obtain ⟨k, hk, rfl⟩ := List.mem_map.mp hit
        exact fresh (List.mem_map.mpr ⟨k, hk, own k ▸ same⟩)
      have alone : about i.id ([f i] ++ rest.map f) = about i.id [f i] := aboutNothing others
      exact alone.trans (by simp [about, own])
    · have apart : j.id ≠ i.id := fun same => fresh (List.mem_map.mpr ⟨i, later, same.symm⟩)
      rw [← ih distinct later]
      simp [about, own, apart]

end About

def Open (id : String) (story : List Event) (i : Instance) : Prop :=
  ∃ s, Chronicle none (about id story) (some s) ∧ s.Continues i ∧ i.status = s.status

def Closed (id : String) (story : List Event) : Prop := Chronicle none (about id story) none

section Growing
variable {id : String} {story more : List Event} {i j : Instance} {now : Timestamp}

theorem Open.later (h : Open id story i) (later : i.Continues j) (same : j.status = i.status) :
    Open id story j := by
  obtain ⟨s, told, before, status⟩ := h
  exact ⟨s, told, Instance.continuesTrans before later, same.trans status⟩

theorem Open.aside (h : Open id story i) (others : ∀ e ∈ more, e.snapshot.id ≠ id) :
    Open id (story ++ more) i := by
  rw [Open, aboutNothing others]
  exact h

theorem Closed.aside (h : Closed id story) (others : ∀ e ∈ more, e.snapshot.id ≠ id) :
    Closed id (story ++ more) := by
  rw [Closed, aboutNothing others]
  exact h

theorem Open.changed (h : Open id story i) (later : i.Continues j) (own : i.id = id)
    (differs : j.status ≠ i.status) : Open id (story ++ [.statusChange j i.status now]) j := by
  obtain ⟨s, told, before, status⟩ := h
  have follows := Instance.continuesTrans before later
  refine ⟨j, ?_, Instance.continuesRefl j, rfl⟩
  rw [aboutItself ((Instance.continuesId later).trans own)]
  exact told.next (.one ⟨rfl, congrArg some status, rfl, follows, status ▸ differs⟩)

theorem Open.ended (h : Open id story i) (own : i.id = id) {kind : EventKind}
    (terminal : kind.terminal = true) : Closed id (story ++ [.plain kind i now]) := by
  obtain ⟨s, told, before, status⟩ := h
  rw [Closed, aboutItself own]
  exact told.next (.one ⟨terminal, rfl, before, status⟩)

end Growing
end ServiceDirectory
