import ServiceDirectory.Engine.State

/-! Running an engine: at every instant all that can happen does, then time moves to where something
can happen next. -/
namespace ServiceDirectory
open Health (Outcome Prober Script)

namespace Engine

def firstAct (acts : List (Unit → Option Engine)) : Option Engine :=
  acts.findSome? fun act => act ()

/-! Calls and the store -/

def proceedOrder (e : Engine) : Option Engine :=
  e.directory.order.bind fun id => e.try_ (.proceed id)

def proceedCalls (e : Engine) : Option Engine :=
  e.directory.calls.findSome? fun c => e.try_ (.proceed c.1)

def StorePlan.draw (p : StorePlan) (work : Call.StoreWork) : PlannedCall × StorePlan :=
  let take (calls : List PlannedCall) : PlannedCall := calls.headD ⟨0, none⟩
  match work with
  | .save _ => (take p.save, { p with save := p.save.tail })
  | .delete _ => (take p.delete, { p with delete := p.delete.tail })
  | .list => (take p.list, { p with list := p.list.tail })

def beginStore (e : Engine) : Option Engine :=
  e.directory.calls.findSome? fun (id, call) =>
    match call.storeWork? with
    | none => none
    | some work =>
      if e.pending.any (·.call == id) then none
      else
        let (planned, plan) := StorePlan.draw e.plan work
        some { e with plan, pending := e.pending ++ [⟨id, e.now + planned.delay, planned.failure⟩] }

def endStore (e : Engine) : Option Engine :=
  e.pending.findSome? fun p =>
    if p.due ≤ e.now then
      let e := { e with pending := e.pending.filter (·.call != p.call) }
      e.try_ (.settle p.call (p.failure.map fun text => ⟨.store, text⟩))
    else none

/-! Resolves and jobs -/

def steady : Resolve.Draw := fun _ => 0

def proceedResolves (e : Engine) : Option Engine :=
  e.broker.pursuits.findSome? fun p => e.tryBroker (.proceedResolve p.1 steady)

def stepJob (e : Engine) : Job → Option (Engine × Job)
  | .call _ => none
  | .resolves service options left none picks =>
    match left with
    | 0 => none
    | left + 1 =>
      let id := e.broker.nextPursuit
      (e.tryBroker (.beginResolve service options steady)).map fun e =>
        (e, .resolves service options left (some id) picks)
  | .resolves service options left (some id) picks =>
    (e.broker.ending? id).map fun result =>
      (e, .resolves service options left none (picks ++ [result]))

def jobOver (e : Engine) : Job → Bool
  | .call id => (e.directory.ending? id).isSome
  | .resolves _ _ left current _ => left == 0 && current.isNone

def stepFront (e : Engine) : Option Engine := do
  let job ← e.front
  let (e, job) ← e.stepJob job
  return { e with front := some job }

def stepTasks (e : Engine) : Option Engine :=
  e.tasks.findSome? fun t => do
    let (e, job) ← e.stepJob t.job
    let tasks := e.tasks.map fun x => if x.number == t.number then { x with job } else x
    return { e with tasks }

def noteFinished (e : Engine) : Option Engine :=
  e.tasks.findSome? fun t =>
    if t.finishedAt.isNone && e.jobOver t.job then
      some { e with tasks := e.tasks.map fun x =>
        if x.number == t.number then { x with finishedAt := some e.now } else x }
    else none

/-! Check loops -/

def drawProbe (e : Engine) (endpoint : String) : Outcome × Engine :=
  match e.probes with
  | .plain prober => ((prober.outcome? endpoint).getD .pass, e)
  | .scripted scripts others =>
    let e := { e with probesBegun := e.probesBegun + 1 }
    match scripts.get? endpoint with
    | some script =>
      let (o, script) := Script.draw script
      (o, { e with probes := .scripted (scripts.put endpoint script) others })
    | none =>
      let (o, others) := Script.draw others
      (o, { e with probes := .scripted scripts others })

def endLoops (e : Engine) : Option Engine :=
  e.directory.loops.findSome? fun l => e.try_ (.endLoop l.check.epoch)

def endProbes (e : Engine) : Option Engine :=
  e.directory.loops.findSome? fun l => e.try_ (.endProbe l.check.epoch)

def beginProbes (e : Engine) : Option Engine :=
  e.directory.loops.findSome? fun l =>
    let (o, drawn) := e.drawProbe l.check.endpoint
    drawn.try_ (.beginProbe l.check.epoch o)

/-! Background work -/

def followEvents (e : Engine) : Option Engine :=
  e.broker.followers.findSome? fun w => e.tryBroker (.followNext w)

def logEvents (e : Engine) : Option Engine :=
  e.loggers.findSome? fun w =>
    match (e.directory.bus.find? w).map (·.queue) with
    | some (_ :: _) => e.try_ (.takeEvent w)
    | _ => none

def keepAlive (e : Engine) : Option Engine := do
  let k ← e.keeper
  match k.waiting, k.todo with
  | some call, _ =>
    let _ ← e.directory.ending? call
    return { e with keeper := some { k with waiting := none } }
  | none, i :: rest =>
    let call := e.directory.nextCall
    let e ← e.try_ (.begin (.heartbeat i.id))
    match e.directory.ending? call with
    | some (.error _) =>
      let again := e.directory.nextCall
      let e ← e.try_ (.begin (.register i))
      return { e with keeper := some { k with todo := rest, waiting := some again } }
    | _ => return { e with keeper := some { k with todo := rest } }
  | none, [] =>
    if k.due ≤ e.now then
      return { e with keeper := some { k with ticks := k.ticks + 1, todo := k.instances } }
    else none

def act (e : Engine) : Option Engine :=
  firstAct [
    fun _ => e.proceedOrder,
    fun _ => e.proceedCalls,
    fun _ => e.endStore,
    fun _ => e.beginStore,
    fun _ => e.proceedResolves,
    fun _ => e.stepFront,
    fun _ => e.stepTasks,
    fun _ => e.noteFinished,
    fun _ => e.endLoops,
    fun _ => e.endProbes,
    fun _ => e.beginProbes,
    fun _ => e.try_ .applyNext,
    fun _ => e.try_ .endApplier,
    fun _ => e.try_ .sweepTick,
    fun _ => e.try_ .endSweeper,
    fun _ => e.followEvents,
    fun _ => e.logEvents,
    fun _ => e.keepAlive]

def actsPerInstant : Nat := 1000000

def settleWithin : Nat → Engine → Engine
  | 0, e => e
  | fuel + 1, e =>
    match e.act with
    | some e => settleWithin fuel e
    | none => e

def settle (e : Engine) : Engine := settleWithin actsPerInstant e

/-! Time -/

def wakes (e : Engine) : List Nat :=
  let d := e.directory
  e.pending.map (·.due)
    ++ (d.loops.filter fun l => !d.stopped l).map (·.check.wakes)
    ++ (match d.sweeper with
        | .resting due => [due]
        | _ => [])
    ++ e.broker.pursuits.filterMap (·.2.wakes)
    ++ (match e.keeper with
        | some k => [k.due]
        | none => [])

def nextWake (e : Engine) : Option Nat := ((e.wakes).filter (e.now < ·)).min?

/-- Time moves only when nothing more can happen now. -/
def passTo (e : Engine) (target : Nat) : Engine :=
  match e.act with
  | some e => e
  | none => (e.try_ (.pass (target - e.now))).getD e

def advanceTo (target : Nat) : Nat → Engine → Engine
  | 0, e => e
  | fuel + 1, e =>
    match e.nextWake with
    | some wake => if wake ≤ target then advanceTo target fuel (e.passTo wake).settle
      else (e.passTo target).settle
    | none => (e.passTo target).settle

def advance (ms : Nat) (e : Engine) : Engine := advanceTo (e.now + ms) ms e

def waitUntil (finished : Engine → Bool) : Nat → Engine → Engine
  | 0, e => e
  | fuel + 1, e =>
    if finished e then e
    else match e.act, e.nextWake with
      | some e, _ => waitUntil finished fuel e.settle
      | none, some wake => waitUntil finished fuel (e.passTo wake).settle
      | none, none => e

end Engine
end ServiceDirectory
