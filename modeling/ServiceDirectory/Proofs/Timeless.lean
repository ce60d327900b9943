import ServiceDirectory.Proofs.Startup

/-! A start over a store that answers at once takes no time: as long as a call of it has not come
back, something can be done without waiting. -/
namespace ServiceDirectory

namespace Engine
variable {e : Engine} {k : CallId} {c : Call}

theorem idleActs (idle : e.act = none) : e.proceedCalls = none ∧ e.endStore = none ∧
    e.beginStore = none ∧ e.keepAlive = none := by
  have each := List.findSome?_eq_none_iff.mp idle
  exact ⟨each (fun _ => e.proceedCalls) (by simp), each (fun _ => e.endStore) (by simp),
    each (fun _ => e.beginStore) (by simp), each (fun _ => e.keepAlive) (by simp)⟩

theorem idleProceeds (idle : e.act = none) (found : e.directory.call? k = some c) :
    e.directory.proceedWith k c = none := by
  have none := List.findSome?_eq_none_iff.mp (idleActs idle).1 (k, c) (Directory.memOfCall found)
  have stuck : (e.directory.call? k).bind (e.directory.proceedWith k) = Option.none :=
    Option.map_eq_none_iff.mp none
  rwa [found, Option.bind_some] at stuck

theorem idleStores (idle : e.act = none) (prompt : e.Prompt)
    (found : e.directory.call? k = some c) (works : c.storeWork?.isSome = true) :
    ∃ failure, e.directory.settle k failure = none := by
  obtain ⟨work, is⟩ := Option.isSome_iff_exists.mp works
  have begun := List.findSome?_eq_none_iff.mp (idleActs idle).2.2.1 (k, c)
    (Directory.memOfCall found)
  simp only [is] at begun
  split at begun
  · rename_i waits
    obtain ⟨p, mem, own⟩ := List.any_eq_true.mp waits
    have ended := List.findSome?_eq_none_iff.mp (idleActs idle).2.1 p mem
    rw [if_pos (prompt.pending p mem)] at ended
    have own : p.call = k := by simpa using own
    exact ⟨_, own ▸ Option.map_eq_none_iff.mp ended⟩
  · cases begun

theorem idleOrder (idle : e.act = none) (orderly : e.directory.Orderly)
    (lined : e.directory.Lined) : e.directory.order.isNone = true := by
  cases holds : e.directory.order with
  | none => rfl
  | some j =>
    obtain ⟨c, mem, announces⟩ := orderly j holds
    have stuck := idleProceeds idle (Directory.callOfMem lined mem)
    cases c with
    | announcing | expiring => cases stuck
    | _ => cases announces

theorem arrivalBusy {since : Int} {taken : Roll} {listed : List Instance} {request : Request}
    (standing : e.directory.Standing since (some k))
    (comes : e.directory.Comes taken listed request k) (prompt : e.Prompt)
    (unended : e.directory.ending? k = none) : e.act ≠ none := by
  intro idle
  have free := idleOrder idle standing.orderly standing.custody.lined
  cases comes with
  | early found stands =>
    have stuck := idleProceeds idle found
    cases stands with
    | admitting => cases stuck
    | saving | listing =>
      obtain ⟨failure, unsettled⟩ := idleStores idle prompt found rfl
      cases failure <;> simp [Directory.settle, found, Call.storeWork?] at unsettled
    | entering | loading | launching => simp [Directory.proceedWith, free] at stuck
  | telling found => cases idleProceeds idle found
  | done _ ended => cases unended.symm.trans ended

structure Undisturbed (before : Directory) (e : Engine) : Prop where
  alone : Alone before e
  prompt : e.Prompt
  time : Directory.SameTime before e.directory

theorem Undisturbed.act {before : Directory} {f : Engine} (h : Undisturbed before e)
    (next : e.act = some f) : Undisturbed before f := by
  have acted := actUnkept h.alone.keeper next
  exact ⟨h.alone.act next, acted.prompt h.prompt, acted.time.now.trans h.time.now,
    acted.time.skew.trans h.time.skew⟩

theorem Undisturbed.soon {before : Directory} {since : Int} (h : Undisturbed before e)
    (soon : before.Soon since) : e.directory.Soon since := by
  obtain ⟨actions, own, run⟩ := h.alone.run
  have led : before.Reaches (fun _ => True) e.directory := .own own run
  rw [Directory.Soon, h.time.clock, led.time.1]
  exact soon

end Engine

namespace Daemon
variable {d d' m n : Daemon} {host : String} {choices : List Nat} {since : Int}
  {request : Request} {result : Except Failure Answer} {instances : List Instance}

structure Timely (since : Int) (d : Daemon) : Prop extends Starting since d where
  prompt : d.engine.Prompt
  soon : d.engine.directory.Soon since

theorem callTimeless (h : Timely since d) (arrives : request.arrives = true)
    (came : d.call request = (d', some result)) :
    Directory.SameTime d.engine.directory d'.engine.directory ∧ Timely since d' := by
  have begins := Directory.beginTime d.engine.directory request
  have soon : (d.engine.directory.begin request).Soon since := Directory.soonAsked.mpr h.soon
  have prompt : (d.engine.asked request).Prompt :=
    ⟨h.prompt.plan, fun p mem => (h.prompt.pending p mem).trans_eq begins.now.symm⟩
  obtain ⟨e, ⟨still, _⟩, is⟩ := Engine.callIs (d := d) request
    (P := fun e => Engine.Undisturbed (d.engine.directory.begin request) e ∧
      e.front = some (.call d.engine.directory.nextCall))
    (fun {e f} ⟨still, front⟩ next => ⟨still.act next,
      (Engine.actUnkept still.alone.keeper next).front _ front⟩)
    (fun {e f ms} ⟨still, front⟩ idle waits _ => by
      obtain ⟨actions, own, run⟩ := still.alone.run
      obtain ⟨begun, comes⟩ := Directory.comesBegin h.standing h.soon arrives
      obtain ⟨standing, comes⟩ := Directory.comesRun own begun comes run (still.soon soon)
      refine absurd idle (Engine.arrivalBusy standing comes still.prompt ?_)
      simpa [Engine.frontOver, front, Engine.jobOver] using waits)
    (fun ⟨_, front⟩ => front)
    ⟨⟨⟨h.unkept, [], nofun, rfl⟩, prompt, ⟨rfl, rfl⟩⟩, rfl⟩
  obtain ⟨rfl, _⟩ := Prod.mk.inj (came.symm.trans is)
  have later : Engine.Undisturbed e.directory ({ e with front := none } : Engine).settle :=
    Engine.settleKeeps (fun h next => h.act next)
      ⟨⟨still.alone.keeper, [], nofun, rfl⟩, ⟨still.prompt.plan, still.prompt.pending⟩, ⟨rfl, rfl⟩⟩
  have time : Directory.SameTime d.engine.directory
      ({ e with front := none } : Engine).settle.directory :=
    ⟨later.time.now.trans (still.time.now.trans begins.now),
      later.time.skew.trans (still.time.skew.trans begins.skew)⟩
  have soonLater := later.soon (still.soon soon)
  exact ⟨time, (callArrives h.toStarting arrives came soonLater).1, later.prompt, soonLater⟩

theorem registersTimeless (h : Timely since d) (registers : Registers d instances d') :
    Directory.SameTime d.engine.directory d'.engine.directory ∧ Timely since d' := by
  induction registers with
  | nil => exact ⟨⟨rfl, rfl⟩, h⟩
  | cons came _ _ ih =>
    obtain ⟨first, timely⟩ := callTimeless h rfl came
    obtain ⟨others, still⟩ := ih timely
    exact ⟨⟨others.now.trans first.now, others.skew.trans first.skew⟩, still⟩

theorem runsTimeless (h : Timely since d) (runs : Runs d m) :
    Directory.SameTime d.engine.directory m.engine.directory ∧ Timely since m := by
  obtain ⟨_, running, _, n, boots, starts, rfl⟩ := runs.course
  obtain ⟨first, booted⟩ := callTimeless h rfl boots
  obtain ⟨second, begun⟩ := callTimeless booted rfl starts
  obtain ⟨_, keeper, pending, plan, listens⟩ := listenAlone running
  obtain ⟨standing, _⟩ := Directory.standingRun (by simp [Action.own]) begun.standing listens
    begun.soon
  exact ⟨⟨second.now.trans first.now, second.skew.trans first.skew⟩,
    ⟨⟨keeper.trans begun.unkept, standing⟩, ⟨plan.trans begun.prompt.plan, fun p mem =>
      begun.prompt.pending p (pending ▸ mem)⟩, begun.soon⟩⟩

end Daemon
end ServiceDirectory
