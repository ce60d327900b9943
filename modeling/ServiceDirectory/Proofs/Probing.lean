import ServiceDirectory.Proofs.Outlining
import ServiceDirectory.Proofs.Waits

/-! Probing decides nothing but statuses. The directory that a run comes to has the outline of what the
run shows; so two runs that show the same differ in statuses alone. -/
namespace ServiceDirectory
open Health (Report)

namespace Directory
variable {d e : Directory} {a : Action} {k : CallId} {c : Call} {r : Transcript} {n timeout : Nat}
  {before after : Option Call} {result : Option (Except Failure Answer)} {told : List Event}

structure Unseen (d e : Directory) : Prop where
  records : ∀ id, (e.registry.records.get? id).map Record.unrated =
    (d.registry.records.get? id).map Record.unrated
  inFlight : e.registry.inFlight = d.registry.inFlight
  nextEpoch : e.registry.nextEpoch = d.registry.nextEpoch
  cancelled : e.cancelled = d.cancelled

theorem Unseen.same (registry : e.registry = d.registry) (cancelled : e.cancelled = d.cancelled) :
    Unseen d e := ⟨fun _ => by rw [registry], by rw [registry], by rw [registry], cancelled⟩

theorem expiriesUnrated (n : Nat) (story : List (Nat × Event)) :
    expiries n (story.map fun x => (x.1, x.2.unrated)) =
      (expiries n story).map Instance.unrated := by
  simp only [expiries, List.filter_map, List.map_map]
  rfl

section TwoRuns
variable {settings : DirectorySettings} {store store' : Table Instance}
  {early late early' late' : List Action}

def Undropped (d : Directory) (k : CallId) : Prop := d.call? k ≠ none ∨ d.ending? k ≠ none

def untold (d : Directory) (k : CallId) : List Instance :=
  ((d.call? k).elim [] Call.held).map Instance.unrated

theorem Outlined.lot (h : Outlined timeout r d) (there : r.calls[n]? = some k) (kept : d.Undropped k) :
    Lot ((outline timeout r.shown).took n)
      ((expiries n r.story).map Instance.unrated ++ d.untold k) := by
  obtain ⟨rest, whole, mine⟩ := h.lots n
  obtain ⟨going, ended⟩ := mine k there
  have left : rest = d.untold k := by
    unfold untold
    cases found : d.call? k with
    | some c => exact going c found
    | none => exact ended (kept.resolve_left (absurd found))
  rwa [left, h.told, expiriesUnrated] at whole

def shows (d : Directory) (actions : List Action) : List Shown := (transcript (d.trail actions)).shown

end TwoRuns

def enrolling (k : CallId) (i : Instance) : List Action :=
  [.begin (.register i), .proceed k, .settle k none, .proceed k, .proceed k, .proceed k]

def threeLive : List Action :=
  [.begin .start, .proceed 0] ++ enrolling 1 (.fresh "a" "web" "h:1" .origin) ++
    enrolling 2 (.fresh "b" "web" "h:2" .origin) ++ enrolling 3 (.fresh "c" "web" "h:3" .origin)

def passing : List Action :=
  threeLive ++ [.beginProbe 3 .pass, .endProbe 3, .applyNext, .proceed 4, .proceed 4, .pass 50000,
    .begin (.heartbeat "c"), .pass 50000, .begin .sweep, .proceed 6, .endLoop 1, .endLoop 2,
    .proceed 6, .settle 6 none, .proceed 6, .proceed 6, .settle 6 none, .proceed 6, .proceed 6]

def vacant : Directory := withStore Settings.standard.directory []

end Directory
end ServiceDirectory
