import Mathlib.Data.List.Forall2
import ServiceDirectory.Instance

/-! How two snapshots of one instance can differ: in when it was last heard of, and over its
registration in its status as well. -/
namespace ServiceDirectory
namespace Instance

def unheard (i : Instance) : Instance := { i with lastHeartbeat := .origin }

theorem sameIffUnheard {i j : Instance} : i.sameButHeartbeat j ↔ i.unheard = j.unheard := by
  cases i
  cases j
  simp [sameButHeartbeat, unheard]

theorem sameRefl (i : Instance) : i.sameButHeartbeat i := rfl

theorem sameTrans {i j k : Instance} (h : i.sameButHeartbeat j) (next : j.sameButHeartbeat k) :
    i.sameButHeartbeat k :=
  sameIffUnheard.mpr ((sameIffUnheard.mp h).trans (sameIffUnheard.mp next))

def Continues (i j : Instance) : Prop :=
  j = { i with status := j.status, lastHeartbeat := j.lastHeartbeat } ∧
    i.lastHeartbeat.nanos ≤ j.lastHeartbeat.nanos

theorem continuesRefl (i : Instance) : i.Continues i := ⟨rfl, Int.le_refl _⟩

theorem continuesTrans {i j k : Instance} (h : i.Continues j) (next : j.Continues k) :
    i.Continues k := by
  refine ⟨?_, Int.le_trans h.2 next.2⟩
  rw [next.1, h.1]

theorem continuesId {i j : Instance} (h : i.Continues j) : j.id = i.id := by rw [h.1]

theorem touchContinues (i : Instance) (now : Timestamp) : i.Continues (i.touch now) :=
  ⟨rfl, touchForward i now⟩

end Instance

abbrev Alike : List Instance → List Instance → Prop := List.Forall₂ Instance.sameButHeartbeat

namespace Alike

theorem iffUnheard {l m : List Instance} :
    Alike l m ↔ l.map Instance.unheard = m.map Instance.unheard := by
  induction l generalizing m with
  | nil => cases m <;> simp
  | cons i rest ih =>
    cases m with
    | nil => simp
    | cons j others =>
      simp only [Alike, List.forall₂_cons, Instance.sameIffUnheard, List.map_cons, List.cons.injEq]
      exact and_congr_right fun _ => ih

theorem same (l : List Instance) : Alike l l := iffUnheard.mpr rfl

theorem next {l m n : List Instance} (h : Alike l m) (then_ : Alike m n) : Alike l n :=
  iffUnheard.mpr ((iffUnheard.mp h).trans (iffUnheard.mp then_))

end Alike
end ServiceDirectory
