import ServiceDirectory.Directory.State

/-! What can happen to a directory, one thing at a time; a step is none where it cannot. A call goes
on by itself until it needs an answer of the store, which settles its work in full or not at all, or
until its caller drops it. The store may be written to by others and may list whatever it likes, and
reports may come that went through no queue. -/
namespace ServiceDirectory
open Health (Outcome Report)

inductive Action where
  | begin (request : Request)
  | proceed (call : CallId)
  | settle (call : CallId) (failure : Option Failure)
  | abandon (call : CallId)
  | applyNext
  | applyDirect (report : Report)
  | endApplier
  | sweepTick
  | endSweeper
  | beginProbe (epoch : Nat) (outcome : Outcome)
  | endProbe (epoch : Nat)
  | endLoop (epoch : Nat)
  | watch (service : Option String)
  | takeEvent (watcher : Nat)
  | closeWatcher (watcher : Nat)
  | storeDirect (i : Instance)
  | listed (call : CallId) (stored : List Instance)
  | reorder (records : Table Record)
  | pass (ms : Nat)
  | setClock (nanos : Int)
  deriving DecidableEq, Repr

namespace Directory

def shutDown : Failure := ⟨.configuration, "Registry is shut down"⟩

def alreadyStarted : Failure := ⟨.configuration, "Registry already started"⟩

/-! Beginning a call -/

def open_ (d : Directory) (call : Call) : Directory :=
  { d with calls := d.calls ++ [(d.nextCall, call)], nextCall := d.nextCall + 1 }

def answer (d : Directory) (result : Except Failure Answer) : Directory :=
  { d with nextCall := d.nextCall + 1, endings := ⟨d.nextCall, result⟩ :: d.endings }

def beginRegister (d : Directory) (i : Instance) : Directory :=
  match Registry.objection? i with
  | some failure => d.answer (.error failure)
  | none => if d.cancelled then d.answer (.error shutDown) else d.open_ (.admitting i)

def beginDeregister (d : Directory) (id : String) : Directory :=
  match d.registry.beginRemoval id with
  | .error failure => d.answer (.error failure)
  | .ok (registry, loop) =>
    ({ d with registry }.cancelLoops loop.toList).open_ (.quieting id loop)

def beginHeartbeat (d : Directory) (id : String) : Directory :=
  match d.registry.heartbeat id d.clock with
  | .error failure => d.answer (.error failure)
  | .ok registry => { d with registry }.answer (.ok .done)

def beginStart (d : Directory) : Directory :=
  if d.started then d.answer (.error alreadyStarted)
  else
    let d := { d with started := true, applier := .running }
    if d.settings.sweepInterval == 0 then d.answer (.ok .broken)
    else { d with sweeper := .resting d.now, unattended := true }.open_ .launching

def begin (d : Directory) : Request → Directory
  | .register i => d.beginRegister i
  | .deregister id => d.beginDeregister id
  | .heartbeat id => d.beginHeartbeat id
  | .sweep => d.open_ (.collecting d.clock)
  | .bootstrap => d.open_ .listing
  | .start => d.beginStart
  | .shutdown => { d with cancelled := true }.open_ .draining

/-! Going on with a call -/

def reserve (d : Directory) (id : CallId) (i : Instance) : Directory :=
  match d.registry.reserve i.id with
  | .error failure => d.finish id (.error failure)
  | .ok registry => { d with registry }.moveTo id (.saving (Registry.stamped i d.clock))

def announce (d : Directory) (id : CallId) (notices : List Notice) (answer : Answer) : Directory :=
  { d with order := some id }.moveTo id (.announcing notices answer)

def enter (d : Directory) (id : CallId) (i : Instance) : Directory :=
  let (registry, orders) := d.registry.commit i
  ({ d with registry }.startLoops orders).announce id [.plain .registered i] (.instance i)

def leave (d : Directory) (id : CallId) (target : String) : Directory :=
  match d.registry.finishRemoval target with
  | (registry, some i) =>
    { d with registry }.announce id [.plain .deregistered i] (.instance i)
  | (registry, none) => { d with registry }.finish id (.error (Registry.notFound target))

def collect (d : Directory) (id : CallId) (at_ : Timestamp) : Directory :=
  let (registry, expiries) := d.registry.expire d.settings.heartbeatTimeout at_
  let loops := expiries.filterMap (·.loop)
  let d := { d with registry }.cancelLoops loops
  match expiries.map (·.snapshot) with
  | [] => d.finish id (.ok (.count 0))
  | i :: rest => d.moveTo id (.hushing loops ⟨i, rest, rest.length + 1⟩)

def releaseExpired (d : Directory) (id : CallId) (round : Round) : Directory :=
  { d with registry := d.registry.release round.current.id, order := some id }.moveTo id
    (.expiring round)

def publishExpired (d : Directory) (id : CallId) (round : Round) : Directory :=
  let d := { d.publish (.plain .expired round.current d.clock) with order := none }
  match round.rest with
  | [] => d.finish id (.ok (.count round.total))
  | i :: rest => d.moveTo id (.purging { round with current := i, rest })

def load (d : Directory) (id : CallId) (stored : List Instance) (at_ : Timestamp) : Directory :=
  let (registry, loaded, orders) := d.registry.load at_ stored
  ({ d with registry }.startLoops orders).announce id (loaded.map (.plain .registered))
    (.count loaded.length)

def publishNext (d : Directory) (id : CallId) (notices : List Notice) (answer : Answer) :
    Directory :=
  match notices with
  | [] => { d with order := none }.finish id (.ok answer)
  | n :: rest => (d.publish (n.event d.clock)).moveTo id (.announcing rest answer)

def launch (d : Directory) (id : CallId) : Directory :=
  let (registry, orders) := d.registry.run
  ({ d with registry }.startLoops orders).finish id (.ok .done)

def drain (d : Directory) (id : CallId) : Directory :=
  let (registry, loops) := d.registry.unsupervise
  ({ d with registry }.cancelLoops loops).moveTo id (.stilling loops)

def attend (d : Directory) (id : CallId) : Directory :=
  { d with unattended := false }.moveTo id (.joining d.unattended)

def backgroundOver (d : Directory) : Bool :=
  (d.applier == .absent || d.applier == .ended) &&
    (d.sweeper == .absent || d.sweeper == .ended)

def proceedWith (d : Directory) (id : CallId) : Call → Option Directory
  | .admitting i => some (d.reserve id i)
  | .entering i => if d.order.isNone then some (d.enter id i) else none
  | .quieting target loop =>
    if loop.toList.any d.loopRuns then none else some (d.moveTo id (.deleting target))
  | .leaving target => if d.order.isNone then some (d.leave id target) else none
  | .collecting at_ => some (d.collect id at_)
  | .hushing loops round =>
    if loops.any d.loopRuns then none else some (d.moveTo id (.purging round))
  | .releasing round => if d.order.isNone then some (d.releaseExpired id round) else none
  | .expiring round => some (d.publishExpired id round)
  | .loading stored at_ => if d.order.isNone then some (d.load id stored at_) else none
  | .announcing notices answer => some (d.publishNext id notices answer)
  | .launching => if d.order.isNone then some (d.launch id) else none
  | .draining => some (d.drain id)
  | .stilling loops => if loops.any d.loopRuns then none else some (d.attend id)
  | .joining waits =>
    if waits && !d.backgroundOver then none else some (d.finish id (.ok .done))
  | .saving _ => none
  | .deleting _ => none
  | .purging _ => none
  | .listing => none

def proceed (d : Directory) (id : CallId) : Option Directory :=
  (d.call? id).bind (d.proceedWith id)

def stored (store : Table Instance) : Call.StoreWork → Table Instance
  | .save i => store.put i.id i
  | .delete id => store.remove id
  | .list => store

def storeList (d : Directory) : List Instance :=
  d.store.values.mergeSort fun i j => i.id ≤ j.id

def settle (d : Directory) (id : CallId) (failure : Option Failure) : Option Directory := do
  let call ← d.call? id
  let work ← call.storeWork?
  let d := if failure.isNone then { d with store := stored d.store work } else d
  match call, failure with
  | .saving i, none => some (d.moveTo id (.entering i))
  | .saving i, some failure =>
    some ({ d with registry := d.registry.release i.id }.finish id (.error failure))
  | .deleting target, _ => some (d.moveTo id (.leaving target))
  | .purging round, _ => some (d.moveTo id (.releasing round))
  | .listing, none => some (d.moveTo id (.loading d.storeList d.clock))
  | .listing, some failure => some (d.finish id (.error failure))
  | _, _ => none

def answerListing (d : Directory) (id : CallId) (stored : List Instance) : Option Directory :=
  match d.call? id with
  | some .listing => some (d.moveTo id (.loading stored d.clock))
  | _ => none

def abandon (d : Directory) (id : CallId) : Option Directory := do
  let call ← d.call? id
  if call.abandonable then
    let registry := match call.guarded? with
      | some target => d.registry.release target
      | none => d.registry
    some { d with registry, calls := d.calls.filter (·.1 != id) }
  else none

/-! Reports and background work -/

def applyReport (d : Directory) (report : Report) : Option Directory :=
  match report with
  | .passed id epoch observedAt =>
    some { d with registry := d.registry.passed id epoch observedAt }
  | .transition _ _ _ _ _ =>
    if d.order.isSome then none
    else match d.registry.apply d.settings.refreshOnPass d.clock report with
      | (registry, none) => some { d with registry }
      | (registry, some event) =>
        let call := d.nextCall
        some ({ d with registry, order := some call }.open_ (.announcing [.stamped event] .done))

def applyNext (d : Directory) : Option Directory :=
  match d.reports with
  | [] => none
  | report :: rest =>
    if d.applier == .running && !d.cancelled then { d with reports := rest }.applyReport report
    else none

/-- Whoever applies reports tells of a change before it looks for an end. -/
def endApplier (d : Directory) : Option Directory :=
  if d.applier == .running && d.cancelled && !d.calls.any (·.2.reports) then
    some { d with applier := .ended }
  else none

def sweepTick (d : Directory) : Option Directory :=
  match d.sweeper with
  | .resting due =>
    if due ≤ d.now && !d.cancelled then
      let next := Health.tickAfter d.settings.sweepInterval due d.now
      some ({ d with sweeper := .sweeping d.nextCall next }.open_ (.collecting d.clock))
    else none
  | _ => none

def endSweeper (d : Directory) : Option Directory :=
  match d.sweeper with
  | .sweeping call due =>
    if (d.call? call).isNone then some { d with sweeper := .resting due } else none
  | .resting _ => if d.cancelled then some { d with sweeper := .ended } else none
  | _ => none

/-- The order in which records are found is nobody's choice. -/
def reorder (d : Directory) (records : Table Record) : Option Directory :=
  if records.isPerm d.registry.records then
    some { d with registry := { d.registry with records } }
  else none

/-! Check loops -/

def loop? (d : Directory) (epoch : Nat) : Option RunningLoop :=
  d.loops.find? (·.check.epoch == epoch)

def putLoop (d : Directory) (l : RunningLoop) : Directory :=
  { d with loops := d.loops.map fun x => if x.check.epoch == l.check.epoch then l else x }

def dropLoop (d : Directory) (epoch : Nat) : Directory :=
  { d with loops := d.loops.filter (·.check.epoch != epoch) }

def stopped (d : Directory) (l : RunningLoop) : Bool := l.cancelled || d.cancelled

def beginProbe (d : Directory) (epoch : Nat) (o : Outcome) : Option Directory := do
  let l ← d.loop? epoch
  if d.stopped l then none
  let check ← l.check.beginProbe d.settings.loop o d.now
  some (d.putLoop { l with check })

def endProbe (d : Directory) (epoch : Nat) : Option Directory := do
  let l ← d.loop? epoch
  if d.stopped l then none
  let (check, reports) ← l.check.endProbe d.settings.loop d.now d.clock
  some { d.putLoop { l with check } with reports := d.reports ++ reports }

def endLoop (d : Directory) (epoch : Nat) : Option Directory := do
  let l ← d.loop? epoch
  if d.stopped l || d.settings.loop.interval == 0 then some (d.dropLoop epoch) else none

/-! All of it -/

def step (d : Directory) : Action → Option Directory
  | .begin request => some (d.begin request)
  | .proceed call => d.proceed call
  | .settle call failure => d.settle call failure
  | .abandon call => d.abandon call
  | .applyNext => d.applyNext
  | .applyDirect report => d.applyReport report
  | .endApplier => d.endApplier
  | .sweepTick => d.sweepTick
  | .endSweeper => d.endSweeper
  | .beginProbe epoch outcome => d.beginProbe epoch outcome
  | .endProbe epoch => d.endProbe epoch
  | .endLoop epoch => d.endLoop epoch
  | .watch service => some { d with bus := (d.bus.subscribe service).1 }
  | .takeEvent watcher => some { d with bus := (d.bus.take watcher).2 }
  | .closeWatcher watcher => some { d with bus := d.bus.close watcher }
  | .storeDirect i => some { d with store := d.store.put i.id i }
  | .listed call stored => d.answerListing call stored
  | .reorder records => d.reorder records
  | .pass ms => some { d with now := d.now + ms }
  | .setClock nanos => some { d with skew := d.skew + nanos }

def steps (d : Directory) : List Action → Option Directory
  | [] => some d
  | a :: rest => (d.step a).bind (·.steps rest)

theorem stepsAppend (d : Directory) (first second : List Action) :
    d.steps (first ++ second) = (d.steps first).bind (·.steps second) := by
  induction first generalizing d with
  | nil => rfl
  | cons a rest ih =>
    simp only [List.cons_append, steps]
    cases d.step a with
    | none => rfl
    | some e => exact ih e

end Directory
end ServiceDirectory
