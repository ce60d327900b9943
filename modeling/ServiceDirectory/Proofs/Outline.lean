import Mathlib.Data.Set.Card
import ServiceDirectory.Directory.Step

/-! What a directory shows apart from its probing: what is asked of it and when, when its calls go on,
and what its store answers. From that alone its records can be told, up to their status, and so can
what its calls answer and what they publish. -/
namespace ServiceDirectory

def Instance.unrated (i : Instance) : Instance := { i with status := .starting }

def Record.unrated (x : Record) : Record := { x with snapshot := x.snapshot.unrated }

def Event.unrated (e : Event) : Event := { e with snapshot := e.snapshot.unrated }

def Notice.unrated : Notice → Notice
  | .plain kind i => .plain kind i.unrated
  | .stamped e => .stamped e.unrated

theorem Notice.unratedEvent (n : Notice) (now : Timestamp) :
    n.unrated.event now = (n.event now).unrated := by cases n <;> rfl

def Answer.unrated : Answer → Answer
  | .instance i => .instance i.unrated
  | answer => answer

inductive Outward where
  | begins (request : Request)
  | ticks
  | goes (n : Nat) (asks : List String)
  | fails (n : Nat) (failure : Failure)
  | lists (n : Nat) (stored : List Instance)
  | drops (n : Nat)
  | frees (n : Nat) (id : String)
  | tells (n : Nat) (id : String)
  deriving DecidableEq

def Outward.asks : Outward → List String
  | .goes _ asks => asks
  | _ => []

structure Shown where
  at_ : Timestamp
  what : Outward
  deriving DecidableEq

def freed (past : List Shown) (n : Nat) (id : String) : Bool :=
  past.any fun s => s.what == .frees n id

/-- The same is shown at the same times, but sweeps may go through what they have taken in another
order. Where a call asks for an id, the sweeps that have freed it are the same. -/
inductive Matching : List Shown → List Shown → Prop where
  | start : Matching [] []
  | same {t u : List Shown} (s : Shown)
      (clear : ∀ id ∈ s.what.asks, ∀ n, freed t n id = freed u n id) (earlier : Matching t u) :
      Matching (s :: t) (s :: u)
  | freed {t u : List Shown} (at_ : Timestamp) (n : Nat) (id other : String)
      (earlier : Matching t u) : Matching (⟨at_, .frees n id⟩ :: t) (⟨at_, .frees n other⟩ :: u)
  | told {t u : List Shown} (at_ : Timestamp) (n : Nat) (id other : String)
      (earlier : Matching t u) : Matching (⟨at_, .tells n id⟩ :: t) (⟨at_, .tells n other⟩ :: u)

namespace Matching
variable {t u : List Shown}

theorem length (h : Matching t u) : t.length = u.length := by
  induction h with
  | start => rfl
  | same s clear earlier ih => simp [ih]
  | freed at_ n id other earlier ih => simp [ih]
  | told at_ n id other earlier ih => simp [ih]

theorem before {late later : List Shown} (h : Matching (late ++ t) (later ++ u))
    (many : t.length = u.length) : Matching t u := by
  induction late generalizing later with
  | nil =>
    have same := h.length
    cases later with
    | nil => exact h
    | cons s later => simp at same; omega
  | cons s late ih =>
    cases later with
    | nil =>
      have same := h.length
      simp at same
      omega
    | cons s' later =>
      cases h with
      | same s clear earlier => exact ih earlier
      | freed at_ n id other earlier => exact ih earlier
      | told at_ n id other earlier => exact ih earlier

end Matching

def Outward.alike (t u : List Shown) : Outward → Outward → Bool
  | .frees n _, .frees m _ => n == m
  | .tells n _, .tells m _ => n == m
  | what, other => what == other && (t ++ u).all fun s =>
    match s.what with
    | .frees n id => !what.asks.contains id || freed t n id == freed u n id
    | _ => true

def alike : List Shown → List Shown → Bool
  | [], [] => true
  | s :: t, s' :: u => s.at_ == s'.at_ && s.what.alike t u s'.what && alike t u
  | _, _ => false

inductive Hold where
  | free
  | caller
  | sweep (n : Nat)
  deriving DecidableEq

def Hold.parks (past : List Shown) (id : String) : Hold → Bool
  | .free => false
  | .caller => true
  | .sweep n => !freed past n id

inductive Milestone where
  | admitting (i : Instance)
  | admitted (i : Instance)
  | removing (id : String)
  | collecting (at_ : Timestamp)
  | evicting (left total : Nat)
  | listing
  | loading (stored : List Instance) (at_ : Timestamp)
  | announcing (notices : List Notice) (answer : Answer)
  | ended (result : Option (Except Failure Answer))

def Milestone.tells (now : Timestamp) : Milestone → List Event
  | .announcing (notice :: _) _ => [notice.event now]
  | _ => []

structure Outline where
  live : String → Option Record
  hold : String → Hold
  took : Nat → String → Option Instance
  nextEpoch : Nat
  cancelled : Bool
  stages : List Milestone

namespace Outline
open Function (update update_apply)

def empty : Outline := ⟨fun _ => none, fun _ => .free, fun _ _ => none, 1, false, []⟩

def add (o : Outline) (stage : Milestone) : Outline := { o with stages := o.stages ++ [stage] }

def put (o : Outline) (n : Nat) (stage : Milestone) : Outline :=
  { o with stages := o.stages.set n stage }

def park (o : Outline) (id : String) : Outline := { o with hold := update o.hold id .caller }

def release (o : Outline) (id : String) : Outline := { o with hold := update o.hold id .free }

def enter (o : Outline) (i : Instance) : Outline :=
  { o with live := update o.live i.id (some ⟨i.unrated, o.nextEpoch⟩), nextEpoch := o.nextEpoch + 1 }

def remove (o : Outline) (id : String) : Outline := { o with live := update o.live id none }

def touch (o : Outline) (id : String) (now : Timestamp) : Outline :=
  let heard := (o.live id).map fun x => { x with snapshot := x.snapshot.touch now }
  { o with live := update o.live id heard }

theorem parkHold (o : Outline) (id other : String) :
    (o.park id).hold other = if other = id then .caller else o.hold other := update_apply ..

theorem releaseHold (o : Outline) (id other : String) :
    (o.release id).hold other = if other = id then .free else o.hold other := update_apply ..

theorem parkMoves {o : Outline} {id other : String}
    (differs : (o.park id).hold other ≠ o.hold other) : other = id := by
  by_contra apart
  exact differs ((parkHold o id other).trans (if_neg apart))

theorem releaseMoves {o : Outline} {id other : String}
    (differs : (o.release id).hold other ≠ o.hold other) : other = id := by
  by_contra apart
  exact differs ((releaseHold o id other).trans (if_neg apart))

theorem enterLive (o : Outline) (i : Instance) (other : String) : (o.enter i).live other =
    if other = i.id then some ⟨i.unrated, o.nextEpoch⟩ else o.live other := update_apply ..

theorem removeLive (o : Outline) (id other : String) :
    (o.remove id).live other = if other = id then none else o.live other := update_apply ..

theorem touchLive (o : Outline) (id : String) (now : Timestamp) (other : String) :
    (o.touch id now).live other = if other = id then
      (o.live id).map fun x => { x with snapshot := x.snapshot.touch now } else o.live other :=
  update_apply ..

def beginRegister (o : Outline) (i : Instance) : Milestone :=
  match Registry.objection? i with
  | some failure => .ended (some (.error failure))
  | none => if o.cancelled then .ended (some (.error Directory.shutDown)) else .admitting i

def ask (o : Outline) (now : Timestamp) : Request → Outline
  | .register i => o.add (o.beginRegister i)
  | .deregister id =>
    if (o.live id).isSome && o.hold id != .caller then (o.park id).add (.removing id)
    else o.add (.ended (some (.error (Registry.notFound id))))
  | .heartbeat id =>
    if (o.live id).isSome then (o.touch id now).add (.ended (some (.ok .done)))
    else o.add (.ended (some (.error (Registry.notFound id))))
  | .sweep => o.add (.collecting now)
  | .bootstrap => o.add .listing
  | .start => o
  | .shutdown => { o with cancelled := true }

def loadOne (o : Outline) (parks : String → Bool) (at_ : Timestamp) (i : Instance) :
    Outline × List Instance :=
  if i.id == "" || i.endpoint == "" || ((o.live i.id).isSome || parks i.id) then (o, [])
  else
    let i := { i with status := .starting, lastHeartbeat := at_ }
    (o.enter i, [i])

def load (o : Outline) (parks : String → Bool) (at_ : Timestamp) :
    List Instance → Outline × List Instance
  | [] => (o, [])
  | i :: rest =>
    let (o, came) := o.loadOne parks at_ i
    let (o, more) := o.load parks at_ rest
    (o, came ++ more)

def lapsed (o : Outline) (timeout : Nat) (at_ : Timestamp) (id : String) : Bool :=
  o.hold id != .caller && (o.live id).any (·.snapshot.stale timeout at_)

def evict (o : Outline) (timeout : Nat) (at_ : Timestamp) (n : Nat) : Outline :=
  { o with
    live := fun id => if o.lapsed timeout at_ id then none else o.live id
    hold := fun id => if o.lapsed timeout at_ id then .sweep n else o.hold id
    took := update o.took n fun id =>
      if o.lapsed timeout at_ id then (o.live id).map (·.snapshot) else none }

noncomputable def evicted (o : Outline) (timeout : Nat) (at_ : Timestamp) : Nat :=
  {id | o.lapsed timeout at_ id = true}.ncard

noncomputable def go (o : Outline) (timeout : Nat) (parks : String → Bool) (now : Timestamp)
    (n : Nat) : Milestone → Outline
  | .admitting i =>
    if (o.live i.id).isSome || parks i.id then
      o.put n (.ended (some (.error (Registry.alreadyRegistered i.id))))
    else (o.park i.id).put n (.admitted (Registry.stamped i now))
  | .admitted i =>
    ((o.release i.id).enter i).put n
      (.announcing [.plain .registered i.unrated] (.instance i.unrated))
  | .removing id =>
    match o.live id with
    | some x => ((o.release id).remove id).put n
        (.announcing [.plain .deregistered x.snapshot] (.instance x.snapshot))
    | none => (o.release id).put n (.ended (some (.error (Registry.notFound id))))
  | .collecting at_ =>
    (o.evict timeout at_ n).put n
      (if o.evicted timeout at_ = 0 then .ended (some (.ok (.count 0)))
        else .evicting (o.evicted timeout at_) (o.evicted timeout at_))
  | .loading stored at_ =>
    (o.load parks at_ stored).1.put n
      (.announcing ((o.load parks at_ stored).2.map (.plain .registered))
        (.count (o.load parks at_ stored).2.length))
  | .announcing (_ :: rest) answer => o.put n (.announcing rest answer)
  | .announcing [] answer => o.put n (.ended (some (.ok answer)))
  | _ => o

def fail (o : Outline) (n : Nat) (failure : Failure) : Milestone → Outline
  | .admitted i => (o.release i.id).put n (.ended (some (.error failure)))
  | .listing => o.put n (.ended (some (.error failure)))
  | _ => o

def drop (o : Outline) (n : Nat) : Milestone → Outline
  | .admitted i => (o.release i.id).put n (.ended none)
  | .removing id => (o.release id).put n (.ended none)
  | _ => o.put n (.ended none)

def tell (o : Outline) (n : Nat) : Milestone → Outline
  | .evicting left total =>
    o.put n (if left ≤ 1 then .ended (some (.ok (.count total))) else .evicting (left - 1) total)
  | _ => o

def turn (o : Outline) (n : Nat) (turn : Milestone → Outline) : Outline :=
  (o.stages[n]?).elim o turn

noncomputable def next (o : Outline) (timeout : Nat) (parks : String → Bool) (s : Shown) : Outline :=
  match s.what with
  | .begins request => o.ask s.at_ request
  | .ticks => o.add (.collecting s.at_)
  | .goes n _ => o.turn n (o.go timeout parks s.at_ n)
  | .fails n failure => o.turn n (o.fail n failure)
  | .lists n stored => o.turn n fun _ => o.put n (.loading stored s.at_)
  | .drops n => o.turn n (o.drop n)
  | .frees _ _ => o
  | .tells n _ => o.turn n (o.tell n)

def publishes (o : Outline) (s : Shown) : List (Nat × Event) :=
  match s.what with
  | .goes n _ => ((o.stages[n]?).elim [] (Milestone.tells s.at_)).map (n, ·)
  | .tells n id =>
    [(n, .plain .expired ((o.took n id).getD (.fresh id "" "" s.at_)) s.at_)]
  | _ => []

structure Beside (o p : Outline) : Prop where
  took : p.took = o.took
  cancelled : p.cancelled = o.cancelled
  stages : p.stages = o.stages

theorem loadBeside (o : Outline) (parks : String → Bool) (at_ : Timestamp)
    (stored : List Instance) : o.Beside (o.load parks at_ stored).1 := by
  induction stored generalizing o with
  | nil => exact ⟨rfl, rfl, rfl⟩
  | cons i rest ih =>
    have first : o.Beside (o.loadOne parks at_ i).1 := by
      unfold loadOne
      split <;> exact ⟨rfl, rfl, rfl⟩
    have more := ih (o.loadOne parks at_ i).1
    exact ⟨more.took.trans first.took, more.cancelled.trans first.cancelled,
      more.stages.trans first.stages⟩

theorem putSame {o : Outline} {n : Nat} {stage : Milestone} (here : o.stages[n]? = some stage) :
    o.put n stage = o := by
  have same : o.stages.set n stage = o.stages := List.ext_getElem? fun m => by
    rw [List.getElem?_set]
    split
    · rename_i own
      subst own
      rw [if_pos (List.getElem?_eq_some_iff.mp here).1, here]
    · rfl
  rw [put, same]

def parks (o : Outline) (past : List Shown) (asks : List String) (id : String) : Bool :=
  asks.contains id && (o.hold id).parks past id

theorem parksAsked (o : Outline) (past : List Shown) {asks : List String} {id : String}
    (asked : id ∈ asks) : o.parks past asks id = (o.hold id).parks past id := by
  simp [parks, asked]

theorem turnAt {o : Outline} {n : Nat} {stage : Milestone} (here : o.stages[n]? = some stage)
    (turn : Milestone → Outline) : o.turn n turn = turn stage := by
  simp [Outline.turn, here]

end Outline

noncomputable def outline (timeout : Nat) : List Shown → Outline
  | [] => .empty
  | s :: past =>
    (outline timeout past).next timeout ((outline timeout past).parks past s.what.asks) s

noncomputable def tale (timeout : Nat) : List Shown → List (Nat × Event)
  | [] => []
  | s :: past => tale timeout past ++ (outline timeout past).publishes s

section Matching
variable {t u : List Shown} {timeout : Nat}

end Matching
end ServiceDirectory
