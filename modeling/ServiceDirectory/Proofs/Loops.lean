import ServiceDirectory.Directory.Step

/-! What a step may do to the check loops that run: probe under their epoch, stop them for good, or
end them. -/
namespace ServiceDirectory

namespace Health.CheckLoop
variable {l m : CheckLoop} {now : Nat}

theorem beginIs {s : LoopSettings} {o : Outcome} (begun : l.beginProbe s o now = some m) :
    ∃ phase, m = { l with phase } := by
  unfold beginProbe at begun
  split at begun
  · split at begun
    · cases begun; exact ⟨_, rfl⟩
    · cases begun
  · cases begun

theorem endIs {s : LoopSettings} {clock : Timestamp} {reports : List Report}
    (ended : l.endProbe s now clock = some (m, reports)) :
    ∃ due failure, (m, reports) = { l with phase := .waiting due }.observe s ⟨failure, clock⟩ := by
  unfold endProbe at ended
  split at ended
  · cases ended
  · rename_i due ends failure _
    split at ended
    · exact ⟨due, failure, (Option.some.inj ended).symm⟩
    · cases ended

theorem beginKeepsOwner {s : LoopSettings} {o : Outcome} (begun : l.beginProbe s o now = some m) :
    m.id = l.id ∧ m.epoch = l.epoch := by
  obtain ⟨phase, rfl⟩ := beginIs begun
  exact ⟨rfl, rfl⟩

theorem beginKeepsEpoch {s : LoopSettings} {o : Outcome} (begun : l.beginProbe s o now = some m) :
    m.epoch = l.epoch := (beginKeepsOwner begun).2

theorem endKeepsOwner {s : LoopSettings} {clock : Timestamp} {reports : List Report}
    (ended : l.endProbe s now clock = some (m, reports)) : m.id = l.id ∧ m.epoch = l.epoch := by
  obtain ⟨due, failure, same⟩ := endIs ended
  obtain rfl := congrArg Prod.fst same
  exact observeKeepsOwner _ _ _

theorem endKeepsEpoch {s : LoopSettings} {clock : Timestamp} {reports : List Report}
    (ended : l.endProbe s now clock = some (m, reports)) : m.epoch = l.epoch :=
  (endKeepsOwner ended).2

end Health.CheckLoop

namespace Directory
variable {d e : Directory}

theorem cancelledLoops {epochs : List Nat} {l : RunningLoop}
    (mem : l ∈ (d.cancelLoops epochs).loops) (own : l.check.epoch ∈ epochs) :
    l.cancelled = true := by
  obtain ⟨old, _, rfl⟩ := List.mem_map.mp mem
  by_cases mine : epochs.contains old.check.epoch
  · simp only [mine, if_true]
  · rw [if_neg mine] at own
    exact absurd (List.contains_iff_mem.mpr own) mine

theorem cancelNone (d : Directory) : (d.cancelLoops []).loops = d.loops := by
  simp [cancelLoops]

structure Heirs (d e : Directory) : Prop where
  fewer : (e.loops.map (·.check.epoch)).Sublist (d.loops.map (·.check.epoch))
  own : ∀ l ∈ e.loops, ∃ old ∈ d.loops, old.check.epoch = l.check.epoch ∧
    (d.stopped old = true → e.stopped l = true)

namespace Heirs

theorem same (loops : e.loops = d.loops) (cancelled : d.cancelled = true → e.cancelled = true) :
    Heirs d e := by
  refine ⟨loops ▸ .refl _, fun l mem => ⟨l, loops ▸ mem, rfl, fun was => ?_⟩⟩
  simp only [stopped, Bool.or_eq_true] at was ⊢
  exact was.imp_right cancelled

theorem cancelling (epochs : List Nat) (loops : e.loops = (d.cancelLoops epochs).loops)
    (cancelled : d.cancelled = true → e.cancelled = true) : Heirs d e := by
  refine ⟨?_, fun l mem => ?_⟩
  · have epochs : e.loops.map (·.check.epoch) = d.loops.map (·.check.epoch) := by
      rw [loops, cancelLoops, List.map_map]
      refine List.map_congr_left fun l _ => ?_
      simp only [Function.comp_apply]
      split <;> rfl
    exact epochs ▸ .refl _
  · rw [loops] at mem
    obtain ⟨old, there, rfl⟩ := List.mem_map.mp mem
    refine ⟨old, there, by split <;> rfl, fun was => ?_⟩
    simp only [stopped, Bool.or_eq_true] at was ⊢
    split
    · exact .inl rfl
    · exact was.imp_right cancelled

theorem put {epoch : Nat} {l : RunningLoop} {check : Health.CheckLoop}
    (found : d.loop? epoch = some l) (runs : d.stopped l = false)
    (keeps : check.epoch = l.check.epoch) (loops : e.loops = (d.putLoop { l with check }).loops)
    (cancelled : e.cancelled = d.cancelled) : Heirs d e := by
  refine ⟨?_, fun x mem => ?_⟩
  · have epochs : e.loops.map (·.check.epoch) = d.loops.map (·.check.epoch) := by
      rw [loops, putLoop, List.map_map]
      refine List.map_congr_left fun x _ => ?_
      simp only [Function.comp_apply]
      split
      · rename_i own
        exact (beq_iff_eq.mp own).symm
      · rfl
    exact epochs ▸ .refl _
  · rw [loops] at mem
    obtain ⟨old, there, rfl⟩ := List.mem_map.mp mem
    split
    · exact ⟨l, List.mem_of_find?_eq_some found, keeps.symm, fun was => absurd was (by simp [runs])⟩
    · refine ⟨old, there, rfl, fun was => ?_⟩
      rwa [stopped, cancelled]

theorem dropped (epoch : Nat) : Heirs d (d.dropLoop epoch) :=
  ⟨List.filter_sublist.map _, fun l mem => ⟨l, (List.mem_filter.mp mem).1, rfl, id⟩⟩

end Heirs

end Directory
end ServiceDirectory
