import ServiceDirectory.Directory.Step

/-! A run as the list of the steps it takes, for what is said of a run and not of its end alone. -/
namespace ServiceDirectory

structure Stride where
  before : Directory
  action : Action
  after : Directory

namespace Directory
variable {d e : Directory} {actions : List Action}

def trail (d : Directory) : List Action → List Stride
  | [] => []
  | a :: rest =>
    match d.step a with
    | none => []
    | some e => ⟨d, a, e⟩ :: e.trail rest

theorem trailNext {a : Action} {rest : List Action} (next : d.step a = some e) :
    d.trail (a :: rest) = ⟨d, a, e⟩ :: e.trail rest := by
  simp [trail, next]

theorem trailMore {more : List Action} (run : d.steps actions = some e) :
    d.trail (actions ++ more) = d.trail actions ++ e.trail more := by
  induction actions generalizing d with
  | nil => cases run; rfl
  | cons a rest ih =>
    obtain ⟨m, one, others⟩ := Option.bind_eq_some_iff.mp run
    rw [List.cons_append, trailNext one, trailNext one, ih others, List.cons_append]

theorem trailActions {s : Stride} (mem : s ∈ d.trail actions) : s.action ∈ actions := by
  induction actions generalizing d with
  | nil => cases mem
  | cons a rest ih =>
    simp only [trail] at mem
    split at mem
    · cases mem
    · rcases List.mem_cons.mp mem with rfl | later
      · exact List.mem_cons_self
      · exact List.mem_cons_of_mem _ (ih later)

theorem trailKeeps {P : List Stride → Directory → Prop} {past : List Stride}
    (start : P past d) (run : d.steps actions = some e)
    (keeps : ∀ s ∈ d.trail actions, s.before.step s.action = some s.after →
      ∀ past, P past s.before → P (past ++ [s]) s.after) : P (past ++ d.trail actions) e := by
  induction actions generalizing d past with
  | nil => cases run; simpa [trail] using start
  | cons a rest ih =>
    obtain ⟨m, one, others⟩ := Option.bind_eq_some_iff.mp run
    rw [trailNext one] at keeps ⊢
    have first := keeps ⟨d, a, m⟩ List.mem_cons_self one past start
    have whole := ih first others fun s mem => keeps s (List.mem_cons_of_mem _ mem)
    rwa [List.append_assoc, List.singleton_append] at whole

theorem trailHolds {P : Directory → Prop} (start : P d) (run : d.steps actions = some e)
    (keeps : ∀ s ∈ d.trail actions, s.before.step s.action = some s.after →
      P s.before → P s.after) : P e :=
  @trailKeeps d e actions (fun _ => P) [] start run fun s mem next _ => keeps s mem next

theorem trailEach {P : Directory → Prop} {Q : Stride → Prop} (start : P d)
    (keeps : ∀ s ∈ d.trail actions, s.before.step s.action = some s.after →
      P s.before → P s.after ∧ Q s) : ∀ s ∈ d.trail actions, Q s := by
  induction actions generalizing d with
  | nil =>
    intro s mem
    cases mem
  | cons a rest ih =>
    cases one : d.step a with
    | none =>
      intro s mem
      simp [trail, one] at mem
    | some m =>
      rw [trailNext one] at keeps ⊢
      obtain ⟨held, mine⟩ := keeps ⟨d, a, m⟩ List.mem_cons_self one start
      exact List.forall_mem_cons.mpr
        ⟨mine, ih held fun s mem => keeps s (List.mem_cons_of_mem _ mem)⟩

end Directory
end ServiceDirectory
