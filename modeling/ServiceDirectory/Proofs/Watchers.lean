import ServiceDirectory.Proofs.Replay
import ServiceDirectory.Settings.Effective

/-! What a watcher has received: every event published since it watches that it wants, in order, as
long as none found its queue full. -/
namespace ServiceDirectory
open Subscription (delivery)

namespace EventBus
variable {b : EventBus} {w : Nat} {sub : Subscription}

def Numbered (b : EventBus) : Prop := ∀ s ∈ b.subscriptions, s.id < b.nextId

theorem numberedUnknown (h : b.Numbered) : b.find? b.nextId = none :=
  List.find?_eq_none.mpr fun s mem same => by
    simp only [Bool.and_eq_true, beq_iff_eq] at same
    exact absurd same.1 (Nat.ne_of_lt (h s mem))

theorem publishNumbered (h : b.Numbered) (e : Event) : (b.publish e).Numbered := by
  intro s mem
  obtain ⟨x, old, made⟩ := List.mem_filterMap.mp mem
  have known := h x old
  split at made <;> cases made <;> exact known

theorem takeNumbered (h : b.Numbered) (v : Nat) : (b.take v).2.Numbered := by
  intro s mem
  obtain ⟨x, old, rfl⟩ := List.mem_map.mp mem
  have known := h x old
  split <;> exact known

theorem closeNumbered (h : b.Numbered) (v : Nat) : (b.close v).Numbered := by
  intro s mem
  obtain ⟨x, old, rfl⟩ := List.mem_map.mp mem
  have known := h x old
  split <;> exact known

theorem subscribeNumbered (h : b.Numbered) (service : Option String) :
    (b.subscribe service).1.Numbered := by
  intro s mem
  rcases List.mem_append.mp mem with old | new
  · exact Nat.lt_succ_of_lt (h s old)
  · cases List.mem_singleton.mp new
    exact Nat.lt_succ_self _

theorem subscribeFinds (b : EventBus) (service : Option String) (w : Nat) :
    (b.subscribe service).1.find? w =
      (b.find? w).or (if b.nextId = w then some ⟨b.nextId, service, true, []⟩ else none) := by
  rw [find?, find?, subscribe, List.find?_append]
  by_cases own : b.nextId = w <;> simp [own]

theorem findSubscribed (h : b.Numbered) (service : Option String) :
    (b.subscribe service).1.find? b.nextId = some ⟨b.nextId, service, true, []⟩ := by
  rw [subscribeFinds, numberedUnknown h, if_pos rfl, Option.none_or]

theorem findKept (found : b.find? w = some sub) (service : Option String) :
    (b.subscribe service).1.find? w = some sub := by
  rw [subscribeFinds, found, Option.some_or]

theorem findIs (found : b.find? w = some sub) : sub.id = w ∧ sub.isOpen = true := by
  simpa using List.find?_some found

def given (capacity : Nat) (e : Event) (s : Subscription) : Option Subscription :=
  match delivery capacity e s with
  | .accepted => some { s with queue := s.queue ++ [e] }
  | .gone => none
  | .unwanted => some s
  | .full => some s

theorem publishGives (b : EventBus) (e : Event) :
    (b.publish e).subscriptions = b.subscriptions.filterMap (given b.capacity e) := rfl

theorem openStays {capacity : Nat} {e : Event} {s : Subscription} (isOpen : s.isOpen = true) :
    given capacity e s = some (if delivery capacity e s = .accepted
      then { s with queue := s.queue ++ [e] } else s) := by
  have stays : delivery capacity e s ≠ .gone := by
    simp only [delivery, isOpen]
    split
    · simp
    · simp only [Bool.not_true, Bool.false_eq_true, if_false]
      split <;> simp
  unfold given
  cases fate : delivery capacity e s with
  | gone => exact absurd fate stays
  | _ => rfl

theorem givenFound (capacity : Nat) (e : Event) (w : Nat) (s : Subscription) :
    Option.any (fun s => s.id == w && s.isOpen) (given capacity e s) = (s.id == w && s.isOpen) := by
  cases isOpen : s.isOpen with
  | true =>
    rw [openStays isOpen]
    split <;> simp [isOpen]
  | false =>
    unfold given
    split <;> simp [isOpen]

theorem publishFinds (b : EventBus) (e : Event) (w : Nat) :
    (b.publish e).find? w = (b.find? w).map fun sub =>
      if delivery b.capacity e sub = .accepted then { sub with queue := sub.queue ++ [e] }
      else sub := by
  rw [find?, publishGives, List.find?_filterMap]
  simp only [givenFound]
  cases found : b.find? w with
  | none =>
    rw [find?] at found
    rw [found]
    rfl
  | some sub =>
    have isOpen := (findIs found).2
    rw [find?] at found
    rw [found, Option.bind_some, openStays isOpen, Option.map_some]

theorem takeFinds (b : EventBus) (v w : Nat) :
    (b.take v).2.find? w = (b.find? w).map fun sub =>
      if v = w then { sub with queue := sub.queue.tail } else sub := by
  have unmoved : ((fun s : Subscription => s.id == w && s.isOpen) ∘ fun s =>
      if s.id == v then { s with queue := s.queue.tail } else s) =
      fun s => s.id == w && s.isOpen := by
    funext s
    simp only [Function.comp_apply]
    split <;> rfl
  rw [take, find?, List.find?_map, unmoved]
  cases found : b.find? w with
  | none =>
    rw [find?] at found
    rw [found]
    rfl
  | some sub =>
    have own := (findIs found).1
    rw [find?] at found
    by_cases same : v = w
    · simp [found, own, same]
    · simp [found, own, same, Ne.symm same]

theorem closeFinds (b : EventBus) (v w : Nat) :
    (b.close v).find? w = if v = w then none else b.find? w := by
  rw [close, find?, List.find?_map]
  by_cases same : v = w
  · subst same
    have none : ((fun s : Subscription => s.id == v && s.isOpen) ∘ fun s =>
        if s.id == v then { s with isOpen := false, queue := [] } else s) = fun _ => false := by
      funext s
      by_cases own : s.id = v <;> simp [own]
    rw [none, if_pos rfl, List.find?_eq_none.mpr (by simp), Option.map_none]
  · have unmoved : ((fun s : Subscription => s.id == w && s.isOpen) ∘ fun s =>
        if s.id == v then { s with isOpen := false, queue := [] } else s) =
        fun s => s.id == w && s.isOpen := by
      funext s
      by_cases own : s.id = v
      · simp [own, same]
      · simp [own]
    rw [unmoved, if_neg same]
    cases found : b.find? w with
    | none =>
      rw [find?] at found
      rw [found]
      rfl
    | some sub =>
      have own := (findIs found).1
      rw [find?] at found
      simp [found, own, Ne.symm same]

theorem findPublished (found : b.find? w = some sub) (e : Event) :
    (b.publish e).find? w =
      some (if delivery b.capacity e sub = .accepted then { sub with queue := sub.queue ++ [e] }
        else sub) := by
  rw [publishFinds, found, Option.map_some]

theorem findTaken (found : b.find? w = some sub) (v : Nat) :
    (b.take v).2.find? w = some (if v = w then { sub with queue := sub.queue.tail } else sub) := by
  rw [takeFinds, found, Option.map_some]

theorem findClosed (found : b.find? w = some sub) {v : Nat} (other : v ≠ w) :
    (b.close v).find? w = some sub := by
  rw [closeFinds, if_neg other, found]

end EventBus

namespace Stride

def took (w : Nat) (s : Stride) : List Event :=
  match s.action with
  | .takeEvent v => if v = w then (s.before.bus.take w).1.toList else []
  | _ => []

def missed (w : Nat) (s : Stride) : List Event :=
  (s.after.log.drop s.before.log.length).filter fun e =>
    (s.before.bus.find? w).any fun sub => delivery s.before.bus.capacity e sub == .full

end Stride

def received (w : Nat) (past : List Stride) (d : Directory) : List Event :=
  past.flatMap (Stride.took w) ++ (d.bus.find? w).elim [] (·.queue)

namespace Directory
variable {d e : Directory} {a : Action} {w : Nat} {service : Option String} {past : List Stride}

theorem numberedStep (h : d.bus.Numbered) (next : d.step a = some e) : e.bus.Numbered := by
  cases stepDeed next with
  | expiredLast => exact EventBus.publishNumbered h _
  | expired => exact EventBus.publishNumbered h _
  | told => exact EventBus.publishNumbered h _
  | watched => exact EventBus.subscribeNumbered h _
  | taken => exact EventBus.takeNumbered h _
  | closed => exact EventBus.closeNumbered h _
  | _ => exact h

theorem numberedSteps (h : d.bus.Numbered) {actions : List Action}
    (run : d.steps actions = some e) : e.bus.Numbered := by
  induction actions generalizing d with
  | nil => cases run; exact h
  | cons a rest ih =>
    obtain ⟨m, one, others⟩ := Option.bind_eq_some_iff.mp run
    exact ih (numberedStep h one) others

def wanted (service : Option String) (e : Event) : Bool := service.all (· == e.service)

def Follows (w : Nat) (service : Option String) (past : List Stride) (d : Directory) : Prop :=
  ∃ queue, d.bus.find? w = some ⟨w, service, true, queue⟩ ∧
    past.flatMap (Stride.took w) ++ queue = d.log.filter (wanted service)

namespace Follows

theorem aside (h : Follows w service past d)
    (bus : ∀ sub, d.bus.find? w = some sub → e.bus.find? w = some sub) (log : e.log = d.log)
    (took : (⟨d, a, e⟩ : Stride).took w = []) : Follows w service (past ++ [⟨d, a, e⟩]) e := by
  obtain ⟨queue, found, got⟩ := h
  refine ⟨queue, bus _ found, ?_⟩
  rw [log, List.flatMap_append, List.flatMap_singleton, took, List.append_nil, got]

theorem published (h : Follows w service past d) {x : Event} (bus : e.bus = d.bus.publish x)
    (log : e.log = d.log ++ [x]) (took : (⟨d, a, e⟩ : Stride).took w = [])
    (whole : (⟨d, a, e⟩ : Stride).missed w = []) : Follows w service (past ++ [⟨d, a, e⟩]) e := by
  obtain ⟨queue, found, got⟩ := h
  have next := EventBus.findPublished found x
  have room : delivery d.bus.capacity x ⟨w, service, true, queue⟩ ≠ .full := by
    simpa [Stride.missed, log, found] using whole
  have wants : (⟨w, service, true, queue⟩ : Subscription).wants x = wanted service x := by
    cases service <;> rfl
  rw [← bus] at next
  rw [Follows, List.flatMap_append, List.flatMap_singleton, took, List.append_nil, log,
    List.filter_append, ← got]
  simp only [delivery, wants] at next room
  cases mine : wanted service x with
  | false =>
    simp only [mine, Bool.not_false, if_true, reduceCtorEq, if_false] at next
    exact ⟨queue, next, by simp [mine]⟩
  | true =>
    simp only [mine, Bool.not_true, Bool.false_eq_true, if_false] at next room
    split at room
    · rename_i space
      simp only [space, if_true] at next
      exact ⟨queue ++ [x], next, by simp [mine]⟩
    · exact absurd rfl room

theorem taken (h : Follows w service past d) {v : Nat} (bus : e.bus = (d.bus.take v).2)
    (log : e.log = d.log) : Follows w service (past ++ [⟨d, .takeEvent v, e⟩]) e := by
  obtain ⟨queue, found, got⟩ := h
  have next := EventBus.findTaken found v
  rw [← bus] at next
  rw [Follows, log, ← got, List.flatMap_append, List.flatMap_singleton]
  by_cases mine : v = w
  · rw [if_pos mine] at next
    refine ⟨queue.tail, next, ?_⟩
    have first : (⟨d, .takeEvent v, e⟩ : Stride).took w = queue.head?.toList := by
      simp [Stride.took, mine, EventBus.take, found]
    rw [first]
    cases queue <;> simp
  · rw [if_neg mine] at next
    exact ⟨queue, next, by simp [Stride.took, mine]⟩

end Follows

theorem followsStep (h : Follows w service past d) (stays : a ≠ .closeWatcher w)
    (whole : (⟨d, a, e⟩ : Stride).missed w = []) (next : d.step a = some e) :
    Follows w service (past ++ [⟨d, a, e⟩]) e := by
  have silent (ofReport : a = .applyNext ∨ ∃ report, a = .applyDirect report) :
      (⟨d, a, e⟩ : Stride).took w = [] := by
    rcases ofReport with rfl | ⟨report, rfl⟩ <;> rfl
  cases stepDeed next with
  | expiredLast => exact h.published rfl rfl rfl whole
  | expired => exact h.published rfl rfl rfl whole
  | told => exact h.published rfl rfl rfl whole
  | watched service => exact h.aside (fun _ found => EventBus.findKept found service) rfl rfl
  | taken => exact h.taken rfl rfl
  | closed v =>
    exact h.aside (fun _ found => EventBus.findClosed found fun same => stays (same ▸ rfl)) rfl rfl
  | passed ofReport => exact h.aside (fun _ found => found) rfl (silent ofReport)
  | ignored ofReport => exact h.aside (fun _ found => found) rfl (silent ofReport)
  | moved ofReport => exact h.aside (fun _ found => found) rfl (silent ofReport)
  | _ => exact h.aside (fun _ found => found) rfl rfl

theorem followsWatching (numbered : d.bus.Numbered) (silent : d.log = [])
    (next : d.step (.watch service) = some e) : Follows d.bus.nextId service [] e := by
  cases next
  refine ⟨[], EventBus.findSubscribed numbered service, ?_⟩
  rw [silent]
  rfl

theorem receivesWanted {actions : List Action} (start : Follows w service [] d)
    (run : d.steps actions = some e) (stays : ∀ a ∈ actions, a ≠ .closeWatcher w)
    (whole : ∀ s ∈ d.trail actions, s.missed w = []) :
    received w (d.trail actions) e = e.log.filter (wanted service) := by
  have follows : Follows w service ([] ++ d.trail actions) e :=
    trailKeeps start run fun s mem next past h =>
      followsStep h (stays s.action (trailActions mem)) (whole s mem) next
  obtain ⟨queue, found, got⟩ := follows
  rw [received, found]
  exact got

/-- When nobody is changing anything, the events published so far make up the directory, and so do
those that a watcher has received that was there before the first of them and missed none: all of it,
or the listing of the service that it watches. -/
theorem eventsMakeDirectory {settings : DirectorySettings} {actions : List Action}
    (run : (empty settings).steps actions = some d) (kept : ∀ a ∈ actions, a.abandons = false)
    (quiet : d.Quiet) :
    Alike ((replay d.log).values.mergeSort Registry.byId)
        (d.registry.live.mergeSort Registry.byId) ∧
      ∀ first service rest m e, actions = first ++ .watch service :: rest →
        (empty settings).steps first = some m → m.step (.watch service) = some e → m.log = [] →
        (∀ a ∈ rest, a ≠ .closeWatcher m.bus.nextId) →
        (∀ s ∈ e.trail rest, s.missed m.bus.nextId = []) →
        Alike ((replay (received m.bus.nextId (e.trail rest) d)).values.mergeSort Registry.byId)
          (service.elim (d.registry.live.mergeSort Registry.byId) (d.registry.list · true)) := by
  have accounted := accountedSteps (emptyAccounted settings) run
  have parked : d.Parked := parkedSteps (emptyCustody settings) (emptyParked settings) kept run
  have sound := accounted.custody.sound
  have alike (p : String → Bool) := (replayListed (d.log.filter (p ·.service))).alike
    (Registry.liveListed sound (p ·.name)) (quietReplays accounted parked quiet p)
  refine ⟨by simpa using alike fun _ => true, ?_⟩
  rintro first service rest m e rfl early watch silent stays whole
  have first : (empty settings).bus.Numbered := by simp [EventBus.Numbered, empty, EventBus.empty]
  have numbered : m.bus.Numbered := numberedSteps first early
  have later : e.steps rest = some d := by
    rw [stepsAppend, early, Option.bind_some, steps, watch, Option.bind_some] at run
    exact run
  rw [receivesWanted (followsWatching numbered silent watch) later stays whole]
  cases service with
  | none =>
    have all : d.log.filter (wanted none) = d.log := List.filter_eq_self.mpr fun _ _ => rfl
    rw [all]
    simpa using alike fun _ => true
  | some name =>
    have told : wanted (some name) = fun e => e.service == name := by
      funext e
      simp [wanted, eq_comm]
    have shown : Registry.listed name true = fun i => i.name == name := by
      funext i
      simp [Registry.listed]
    rw [told, Option.elim_some, Registry.listEq, shown]
    exact alike (· == name)

def watching : List Action :=
  [.begin (.register (.fresh "a" "web" "h:1" .origin)), .proceed 0, .settle 0 none, .proceed 0,
    .proceed 0, .takeEvent 1, .proceed 0,
    .begin (.register (.fresh "b" "api" "h:2" .origin)), .proceed 1, .settle 1 none, .proceed 1,
    .proceed 1, .proceed 1, .pass 5, .begin (.heartbeat "a"),
    .applyDirect (.transition "a" 1 .starting .up ⟨none, .origin⟩), .proceed 3, .proceed 3,
    .begin (.deregister "b"), .proceed 4, .settle 4 none, .proceed 4, .proceed 4, .proceed 4]

def watchedBy (service : Option String) : Directory :=
  { empty Settings.standard.directory with
    bus := ((empty Settings.standard.directory).bus.subscribe service).1 }

theorem watchedFirst (service : Option String) :
    (empty Settings.standard.directory).step (.watch service) =
      some (watchedBy service) := rfl

theorem watcherMakesListing :
    ∃ d, (watchedBy (some "web")).steps watching = some d ∧
      (received 1 ((watchedBy (some "web")).trail watching) d).map (·.kind) =
        [.registered, .statusChanged] ∧
      Alike ((replay (received 1 ((watchedBy (some "web")).trail watching) d)).values.mergeSort
        Registry.byId) (d.registry.list "web" true) := by
  obtain ⟨d, run, quiet, got⟩ : ∃ d, (watchedBy (some "web")).steps watching = some d ∧ d.Quiet ∧
      (received 1 ((watchedBy (some "web")).trail watching) d).map (·.kind) =
        [.registered, .statusChanged] := ⟨_, rfl, by decide +kernel, by decide +kernel⟩
  have first := watchedFirst (some "web")
  have whole : (empty Settings.standard.directory).steps (.watch (some "web") :: watching) =
      some d := by
    rw [steps, first, Option.bind_some, run]
  exact ⟨d, run, got, (eventsMakeDirectory whole (by decide) quiet).2 [] (some "web") watching _ _
    rfl rfl first rfl (by decide) (by decide +kernel)⟩

end Directory
end ServiceDirectory
