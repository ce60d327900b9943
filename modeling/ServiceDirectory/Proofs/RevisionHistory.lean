import ServiceDirectory.Proofs.Listings
import ServiceDirectory.Settings.Effective

/-! Revisions over a whole run: who reads the same revision of a service at two moments has missed
nothing of it in between. -/
namespace ServiceDirectory
namespace Registry
variable {r s t : Registry}

structure Since (r s : Registry) : Prop where
  last : r.lastRevision ≤ s.lastRevision
  either : ∀ n, (s.revision n = r.revision n ∧ ∀ id, s.standing n id = r.standing n id) ∨
    r.lastRevision < s.revision n

theorem Since.same (r : Registry) : Since r r := ⟨Nat.le_refl _, fun _ => .inl ⟨rfl, fun _ => rfl⟩⟩

theorem Since.later (first : Since r s) (second : Since s t) : Since r t where
  last := Nat.le_trans first.last second.last
  either n := by
    rcases second.either n with ⟨kept, stands⟩ | new
    · rcases first.either n with ⟨early, stood⟩ | new
      · exact .inl ⟨kept.trans early, fun id => (stands id).trans (stood id)⟩
      · exact .inr (kept ▸ new)
    · have given := first.last
      exact .inr (by omega)

theorem Follows.since (h : Follows r s) : Since r s where
  last := h.last
  either n := by
    by_cases differs : r.Differs s n
    · exact .inr (h.moves n differs)
    · refine .inl ⟨h.still n differs, fun id => ?_⟩
      by_contra moved
      exact differs ⟨id, moved⟩

theorem Since.revisionLe (h : Since r s) (numbered : r.Numbered) (n : String) :
    r.revision n ≤ s.revision n := by
  have given := numbered.revisionLe n
  rcases h.either n with ⟨same, _⟩ | new
  · omega
  · omega

theorem Since.unmoved (h : Since r s) {n : String} (old : s.revision n ≤ r.lastRevision) :
    s.revision n = r.revision n ∧ ∀ id, s.standing n id = r.standing n id :=
  (h.either n).resolve_right (Nat.not_lt.mpr old)

theorem Since.standing (h : Since r s) (numbered : r.Numbered) {n : String}
    (same : s.revision n = r.revision n) (id : String) : s.standing n id = r.standing n id :=
  (h.unmoved (same ▸ numbered.revisionLe n)).2 id

theorem Since.revisionApart (h : Since r s) (numbered : r.Numbered) {m n : String} (differ : m ≠ n)
    (same : r.revision m = s.revision n) : r.revision m = 0 := by
  have kept := (h.unmoved (same ▸ numbered.revisionLe m)).1
  exact numbered.revisionApart differ (same.trans kept)

theorem emptyNumbered : empty.Numbered :=
  ⟨by simp [empty, Table.get?], by simp [empty, Table.get?]⟩

end Registry

namespace Directory
open Registry (Follows Since)
variable {d e : Directory}

theorem stepFollows (c : d.Custody) (numbered : d.registry.Numbered) {a : Action}
    (next : d.step a = some e) : Follows d.registry e.registry := by
  obtain ⟨k, before, after, told, h⟩ := stepTurns c.lined next
  refine turnFollows c.sound numbered (fun i mem => c.kept.vacant i ?_) h.turn
  obtain ⟨rest, was, _⟩ := h.others c.lined
  cases before with
  | none => cases mem
  | some call =>
    exact List.mem_flatMap.mpr ⟨(k, call), was.mem_iff.mpr List.mem_cons_self, mem⟩

theorem runSince (c : d.Custody) (numbered : d.registry.Numbered) {actions : List Action}
    (run : d.steps actions = some e) : e.registry.Numbered ∧ Since d.registry e.registry := by
  induction actions generalizing d with
  | nil =>
    cases run
    exact ⟨numbered, .same _⟩
  | cons a rest ih =>
    obtain ⟨m, one, others⟩ := Option.bind_eq_some_iff.mp run
    have follows := stepFollows c numbered one
    obtain ⟨numbered', since⟩ := ih (custodyStep c one) follows.numbered others
    exact ⟨numbered', follows.since.later since⟩

def hears (d : Directory) : Action → Bool
  | .begin (.heartbeat _) => true
  | .applyDirect (.passed _ _ _) => true
  | .applyNext => d.reports.head?.any fun
    | .passed _ _ _ => true
    | .transition _ _ _ _ _ => false
  | _ => false

theorem passedRevision (r : Registry) (id : String) (epoch : Nat) (at_ : Timestamp)
    (service : String) : (r.passed id epoch at_).revision service = r.revision service := by
  unfold Registry.passed
  split
  · split <;> rfl
  · rfl

theorem heardRevision {a : Action} (hears : d.hears a = true) (next : d.step a = some e)
    (service : String) : e.registry.revision service = d.registry.revision service := by
  cases a with
  | begin request =>
    cases request with
    | heartbeat id =>
      cases next
      simp only [begin, beginHeartbeat, Registry.heartbeat]
      split
      · rfl
      · rename_i heard
        split at heard
        · cases heard; rfl
        · cases heard
    | _ => cases hears
  | applyDirect report =>
    cases report with
    | passed id epoch at_ => cases next; exact passedRevision ..
    | transition => cases hears
  | applyNext =>
    simp only [step, applyNext] at next
    split at next
    · cases next
    · rename_i report rest queue
      split at next
      · cases report with
        | passed id epoch at_ => cases next; exact passedRevision ..
        | transition => simp [Directory.hears, queue] at hears
      · cases next
  | _ => cases hears

/-- Revisions tell of everything that happens to the instances of a service and of nothing else; no
two services ever have one, and a service never has one again once it has moved on. -/
theorem revisionsTellChanges {settings : DirectorySettings} {past : List Action}
    (run : (empty settings).steps past = some d) :
    (∀ a e, d.step a = some e → ∀ n,
      (d.registry.Differs e.registry n → d.registry.revision n < e.registry.revision n) ∧
      (¬ d.registry.Differs e.registry n → e.registry.revision n = d.registry.revision n) ∧
      (d.hears a = true → e.registry.revision n = d.registry.revision n)) ∧
    (∀ actions e, d.steps actions = some e → ∀ n,
      d.registry.revision n ≤ e.registry.revision n ∧
      (∀ m, m ≠ n → d.registry.revision m = e.registry.revision n → d.registry.revision m = 0) ∧
      (d.registry.revision n = e.registry.revision n →
        Alike (d.registry.list n true) (e.registry.list n true))) := by
  have custody : d.Custody := custodySteps (emptyCustody settings) run
  have numbered : d.registry.Numbered :=
    (runSince (emptyCustody settings) Registry.emptyNumbered run).1
  refine ⟨fun a e next n => ⟨fun differs => ?_, ?_, fun hears => heardRevision hears next n⟩,
    fun actions e more n => ?_⟩
  · have moves := (stepFollows custody numbered next).moves n differs
    have given := numbered.revisionLe n
    omega
  · exact (stepFollows custody numbered next).still n
  · have since := (runSince custody numbered more).2
    have sound := (custodySteps custody more).sound
    refine ⟨since.revisionLe numbered n, fun m differ same => ?_, fun same => ?_⟩
    · exact since.revisionApart numbered differ same
    · exact Registry.alikeOfStanding custody.sound sound (since.standing numbered same.symm) true

def admission : List Action :=
  [.begin (.register (.fresh "a" "web" "h:1" .origin)), .proceed 0, .settle 0 none]

theorem revisionTellsAdmission :
    ∃ d e, (empty Settings.standard.directory).steps admission = some d ∧
      d.step (.proceed 0) = some e ∧ d.registry.revision "web" < e.registry.revision "web" := by
  have run : (empty Settings.standard.directory).steps admission = some _ := rfl
  have tells := (revisionsTellChanges run).1 (.proceed 0) _ rfl "web"
  exact ⟨_, _, run, rfl, tells.1 ⟨"a", by decide⟩⟩

end Directory
end ServiceDirectory
