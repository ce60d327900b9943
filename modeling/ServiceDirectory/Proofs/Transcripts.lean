import ServiceDirectory.Proofs.Courses
import ServiceDirectory.Proofs.Outline
import ServiceDirectory.Proofs.Stock

/-! The transcript of a run: which of its calls are numbered, what it shows, and what its numbered
calls publish. The other calls tell of changes of status, launch the loops or shut the directory
down. -/
namespace ServiceDirectory
open Health (Report)

namespace Action

def counted : Action → Bool
  | .begin .start => false
  | .begin .shutdown => false
  | .begin _ => true
  | .sweepTick => true
  | _ => false

end Action

namespace Call

def going (n : Nat) : Call → Option Outward
  | .admitting i => some (.goes n [i.id])
  | .entering _ => some (.goes n [])
  | .leaving _ => some (.goes n [])
  | .collecting _ => some (.goes n [])
  | .releasing round => some (.frees n round.current.id)
  | .expiring round => some (.tells n round.current.id)
  | .loading stored _ => some (.goes n (stored.map (·.id)))
  | .announcing _ _ => some (.goes n [])
  | _ => none

def hearing (n : Nat) (listing : List Instance) (failure : Option Failure) : Call → Option Outward
  | .saving _ => failure.map (.fails n)
  | .listing => some (failure.elim (.lists n listing) (.fails n))
  | _ => none

def stage : Call → Milestone
  | .admitting i => .admitting i
  | .saving i => .admitted i
  | .entering i => .admitted i
  | .quieting id _ => .removing id
  | .deleting id => .removing id
  | .leaving id => .removing id
  | .collecting at_ => .collecting at_
  | .hushing _ round => .evicting (round.rest.length + 1) round.total
  | .purging round => .evicting (round.rest.length + 1) round.total
  | .releasing round => .evicting (round.rest.length + 1) round.total
  | .expiring round => .evicting (round.rest.length + 1) round.total
  | .listing => .listing
  | .loading stored at_ => .loading stored at_
  | .announcing notices answer => .announcing (notices.map Notice.unrated) answer.unrated
  | .launching => .ended none
  | .draining => .ended none
  | .stilling _ => .ended none
  | .joining _ => .ended none

end Call

def stageOf (c : Option Call) (result : Option (Except Failure Answer)) : Milestone :=
  c.elim (.ended (result.map (·.map Answer.unrated))) Call.stage

namespace Stride

def number? (s : Stride) (calls : List CallId) : Option Nat :=
  s.action.call?.bind fun k => calls.idxOf? k

def outward? (s : Stride) (calls : List CallId) : Option Outward :=
  match s.action with
  | .begin request => some (.begins request)
  | .sweepTick => some .ticks
  | .proceed k => (calls.idxOf? k).bind fun n => (s.before.call? k).bind (·.going n)
  | .settle k failure => (calls.idxOf? k).bind fun n =>
    (s.before.call? k).bind (·.hearing n s.before.storeList failure)
  | .listed k stored => (calls.idxOf? k).map (.lists · stored)
  | .abandon k => (calls.idxOf? k).map .drops
  | _ => none

end Stride

structure Transcript where
  calls : List CallId
  shown : List Shown
  story : List (Nat × Event)

def Transcript.next (r : Transcript) (s : Stride) : Transcript where
  calls := if s.action.counted then r.calls ++ [s.before.nextCall] else r.calls
  shown := (s.outward? r.calls).toList.map (⟨s.before.clock, ·⟩) ++ r.shown
  story := r.story ++ (s.number? r.calls).elim [] fun n => s.told.map (n, ·)

def transcript (past : List Stride) : Transcript := past.foldl .next ⟨[], [], []⟩

def expiries (n : Nat) (story : List (Nat × Event)) : List Instance :=
  (story.filter fun x => x.1 == n && x.2.kind == .expired).map (·.2.snapshot)

theorem expiriesMore (n : Nat) (story more : List (Nat × Event)) :
    expiries n (story ++ more) = expiries n story ++ expiries n more := by
  simp [expiries]

theorem expiriesNone {n : Nat} {more : List (Nat × Event)}
    (others : ∀ x ∈ more, x.1 = n → x.2.kind ≠ .expired) : expiries n more = [] := by
  rw [expiries, List.filter_eq_nil_iff.mpr fun x mem => ?_, List.map_nil]
  simpa using others x mem

theorem numberAt {calls : List CallId} {k : CallId} {n : Nat} (number : calls.idxOf? k = some n) :
    calls[n]? = some k := by
  obtain ⟨bound, here, _⟩ := List.idxOf?_eq_some_iff.mp number
  rw [List.getElem?_eq_getElem bound, here]

theorem numberOf {calls : List CallId} {k : CallId} {n : Nat} (once : calls.Nodup)
    (here : calls[n]? = some k) : calls.idxOf? k = some n := by
  obtain ⟨bound, own⟩ := List.getElem?_eq_some_iff.mp here
  refine List.idxOf?_eq_some_iff.mpr ⟨bound, own, fun j early same => ?_⟩
  exact absurd ((once.getElem_inj_iff).mp (same.trans own.symm)) (Nat.ne_of_lt early)

theorem mapTurned {α : Type} {calls : List CallId} {k : CallId} {n : Nat} {f g : CallId → α}
    (once : calls.Nodup) (number : calls.idxOf? k = some n) (others : ∀ j ≠ k, g j = f j) :
    calls.map g = (calls.map f).set n (g k) := by
  refine List.ext_getElem? fun m => ?_
  rw [List.getElem?_set, List.getElem?_map, List.getElem?_map, List.length_map]
  have here := numberAt number
  split
  · rename_i own
    subst own
    rw [if_pos (List.getElem?_eq_some_iff.mp here).1, here, Option.map_some]
  · rename_i apart
    cases there : calls[m]? with
    | none => rfl
    | some j =>
      have other : j ≠ k := by
        rintro rfl
        exact apart (Option.some.inj (number.symm.trans (numberOf once there)))
      rw [Option.map_some, Option.map_some, others j other]

namespace Call

def Counted : Call → Prop
  | .announcing notices _ => ∀ n ∈ notices, ∃ i, n = .plain .registered i ∨ n = .plain .deregistered i
  | .launching => False
  | .draining => False
  | .stilling _ => False
  | .joining _ => False
  | _ => True

def Aside : Call → Prop
  | .announcing notices _ => ∀ n ∈ notices, ∃ event, n = .stamped event ∧ event.kind = .statusChanged
  | .launching => True
  | .draining => True
  | .stilling _ => True
  | .joining _ => True
  | _ => False

end Call

namespace Directory
variable {d e : Directory} {a : Action} {k : CallId} {c c' : Call} {calls : List CallId}
  {before after : Option Call} {result : Option (Except Failure Answer)} {told : List Event}

def stage (d : Directory) (k : CallId) : Milestone := stageOf (d.call? k) (d.ending? k)

theorem Course.counted (h : Course d a k before after result told)
    (was : ∀ c, before = some c → c.Counted) (opens : before = none → a.counted = true) :
    ∀ c, after = some c → c.Counted := by
  intro c is
  cases h with
  | opened opened => cases opened <;> cases is <;> trivial
  | starting => cases opens rfl
  | closing => cases opens rfl
  | moved ofReport => rcases ofReport with ⟨rfl, _⟩ | ⟨_, rfl⟩ <;> cases opens rfl
  | entered =>
    cases is
    intro n mem
    exact ⟨_, .inl (List.mem_singleton.mp mem)⟩
  | left =>
    cases is
    intro n mem
    exact ⟨_, .inr (List.mem_singleton.mp mem)⟩
  | loaded =>
    cases is
    intro n mem
    obtain ⟨i, _, rfl⟩ := List.mem_map.mp mem
    exact ⟨i, .inl rfl⟩
  | told =>
    cases is
    exact (List.forall_mem_cons.mp (was _ rfl)).2
  | drained => exact (was _ rfl).elim
  | stilled => exact (was _ rfl).elim
  | _ => cases is <;> trivial

theorem Course.unanswered (h : Course d a k before after result told) (on : after ≠ none) :
    result = none := by
  cases h <;> first | rfl | exact absurd rfl on

structure Numbered (calls : List CallId) (d : Directory) : Prop where
  once : calls.Nodup
  known : ∀ k ∈ calls, k < d.nextCall
  own : ∀ k ∈ calls, ∀ c, d.call? k = some c → c.Counted
  others : ∀ k, k ∉ calls → ∀ c, d.call? k = some c → c.Aside
  pending : ∀ k c, d.call? k = some c → d.ending? k = none
  ended : ∀ k, d.ending? k ≠ none → k < d.nextCall

theorem Numbered.fresh (h : Numbered calls d) : d.ending? d.nextCall = none := by
  by_contra ends
  exact Nat.lt_irrefl _ (h.ended _ ends)

theorem Numbered.stage (h : Numbered calls d) (runs : Runs d a e k before after result told)
    (j : CallId) : e.stage j = if j = k then stageOf after result else d.stage j := by
  have unended : d.ending? k = none := by
    cases before with
    | none => exact runs.course.fresh rfl ▸ h.fresh
    | some c => exact h.pending k c runs.was
  rw [Directory.stage, runs.calls, runs.ending, unended, Option.or_none, Directory.stage]
  split <;> rfl

end Directory
end ServiceDirectory
