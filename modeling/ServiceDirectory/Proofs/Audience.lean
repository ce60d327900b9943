import Mathlib.Data.List.Induction
import ServiceDirectory.Proofs.Occasions
import ServiceDirectory.Proofs.Watchers

/-! A bus and the watchers handed out for it. Its list of subscribers has everybody who has not been
dropped, in order, and of those dropped whoever has not been wanted since: a watcher that is dropped
goes with the next event that it wants, not with the next one. -/
namespace ServiceDirectory
open Subscription (delivery)

structure Watcher where
  id : Nat
  service : Option String
  deriving DecidableEq, Repr

namespace Watcher

def wants (w : Watcher) (e : Event) : Bool := w.service.all (· == e.service)

end Watcher

inductive BusUse where
  | subscribe (service : Option String)
  | publish (event : Event)
  | take (watcher : Nat)
  | drop (watcher : Nat)
  deriving DecidableEq, Repr

structure Audience where
  bus : EventBus
  handed : List Watcher
  held : List Watcher
  deriving DecidableEq, Repr

def Subscription.watcher (s : Subscription) : Watcher := ⟨s.id, s.service⟩

namespace EventBus
variable {b : EventBus}

def roll (b : EventBus) : List (Watcher × Bool) :=
  b.subscriptions.map fun s => (s.watcher, s.isOpen)

def queued (b : EventBus) (w : Nat) : List Event := (b.find? w).elim [] (·.queue)

theorem wantsSame (s : Subscription) (e : Event) : s.wants e = s.watcher.wants e := by
  obtain ⟨id, service, isOpen, queue⟩ := s
  cases service <;> rfl

theorem givenRoll (capacity : Nat) (e : Event) (s : Subscription) :
    (given capacity e s).map (fun s => (s.watcher, s.isOpen)) =
      if s.isOpen || !s.watcher.wants e then some (s.watcher, s.isOpen) else none := by
  cases isOpen : s.isOpen with
  | true =>
    rw [openStays isOpen]
    split <;> simp [Subscription.watcher, isOpen]
  | false =>
    cases wants : s.watcher.wants e <;>
      simp [given, delivery, wantsSame, wants, isOpen]

theorem publishRoll (b : EventBus) (e : Event) :
    (b.publish e).roll = b.roll.filter fun x => x.2 || !x.1.wants e := by
  rw [roll, publishGives, roll, List.map_filterMap, List.filter_map, ← List.filterMap_eq_map,
    ← List.filterMap_eq_filter, List.filterMap_filterMap]
  refine List.filterMap_congr fun s _ => ?_
  rw [givenRoll]
  simp only [Option.guard, Function.comp_apply]
  split <;> rfl

theorem takeRoll (b : EventBus) (v : Nat) : (b.take v).2.roll = b.roll := by
  rw [roll, take, roll, List.map_map]
  refine List.map_congr_left fun s _ => ?_
  simp only [Function.comp_apply]
  split <;> rfl

theorem closeRoll (b : EventBus) (v : Nat) :
    (b.close v).roll = b.roll.map fun x => if x.1.id = v then (x.1, false) else x := by
  rw [roll, close, roll, List.map_map, List.map_map]
  refine List.map_congr_left fun s _ => ?_
  by_cases own : s.id = v <;> simp [own, Subscription.watcher]

theorem closeListed (b : EventBus) (v : Nat) : (b.close v).roll.map (·.1) = b.roll.map (·.1) := by
  rw [closeRoll, List.map_map]
  refine List.map_congr_left fun x _ => ?_
  simp only [Function.comp_apply]
  split <;> rfl

theorem subscribeRoll (b : EventBus) (service : Option String) :
    (b.subscribe service).1.roll = b.roll ++ [(⟨b.nextId, service⟩, true)] := by
  simp [roll, subscribe, Subscription.watcher]

end EventBus

namespace Audience
open EventBus (queued)

def use (a : Audience) : BusUse → Audience
  | .subscribe service =>
    let w : Watcher := ⟨(a.bus.subscribe service).2, service⟩
    ⟨(a.bus.subscribe service).1, a.handed ++ [w], a.held ++ [w]⟩
  | .publish e => { a with bus := a.bus.publish e }
  | .take w => { a with bus := (a.bus.take w).2 }
  | .drop w => { a with bus := a.bus.close w, held := a.held.filter (·.id != w) }

def after (capacity : Nat) (uses : List BusUse) : Audience :=
  uses.foldl use ⟨.empty capacity, [], []⟩

theorem afterLast (capacity : Nat) (uses : List BusUse) (u : BusUse) :
    after capacity (uses ++ [u]) = (after capacity uses).use u := by
  simp [after]

structure Attended (a : Audience) : Prop where
  numbered : ∀ w ∈ a.handed, w.id < a.bus.nextId
  grows : (a.handed.map (·.id)).Pairwise (· < ·)
  listed : (a.bus.roll.map (·.1)).Sublist a.handed
  held : a.held = (a.bus.roll.filter (·.2)).map (·.1)

namespace Attended
variable {a : Audience}

theorem empty (capacity : Nat) : Attended ⟨.empty capacity, [], []⟩ :=
  ⟨fun _ mem => (nomatch mem), .nil, .slnil, rfl⟩

theorem distinct (h : a.Attended) : (a.bus.roll.map (·.1.id)).Nodup := by
  have ids := h.grows.sublist (h.listed.map (·.id))
  rw [List.map_map] at ids
  exact ids.imp Nat.ne_of_lt

theorem heldIff (h : a.Attended) {w : Watcher} : w ∈ a.held ↔ (w, true) ∈ a.bus.roll := by
  rw [h.held, List.mem_map]
  constructor
  · rintro ⟨⟨v, isOpen⟩, mem, rfl⟩
    obtain ⟨on, is⟩ := List.mem_filter.mp mem
    cases is
    exact on
  · exact fun on => ⟨(w, true), List.mem_filter.mpr ⟨on, rfl⟩, rfl⟩

theorem openIff (h : a.Attended) {w : Watcher} {isOpen : Bool} (on : (w, isOpen) ∈ a.bus.roll) :
    isOpen = true ↔ w ∈ a.held := by
  rw [h.heldIff]
  refine ⟨fun is => is ▸ on, fun there => ?_⟩
  exact congrArg Prod.snd (List.inj_on_of_nodup_map h.distinct on there rfl)

theorem heldHanded (h : a.Attended) {w : Watcher} (held : w ∈ a.held) : w ∈ a.handed :=
  h.listed.subset (List.mem_map.mpr ⟨(w, true), h.heldIff.mp held, rfl⟩)

theorem use (h : a.Attended) (u : BusUse) : (a.use u).Attended := by
  cases u with
  | subscribe service =>
    have fresh : ∀ x ∈ a.handed.map (·.id), x < a.bus.nextId := fun x mem => by
      obtain ⟨w, handed, rfl⟩ := List.mem_map.mp mem
      exact h.numbered w handed
    refine ⟨fun w mem => ?_, ?_, ?_, ?_⟩
    · rcases List.mem_append.mp mem with old | new
      · exact Nat.lt_succ_of_lt (h.numbered w old)
      · cases List.mem_singleton.mp new
        exact Nat.lt_succ_self _
    · simp only [Audience.use, EventBus.subscribe, List.map_append, List.map_cons, List.map_nil]
      exact List.pairwise_append.mpr ⟨h.grows, List.pairwise_singleton _ _, fun x mem y last => by
        cases List.mem_singleton.mp last
        exact fresh x mem⟩
    · change ((a.bus.subscribe service).1.roll.map (·.1)).Sublist _
      rw [EventBus.subscribeRoll, List.map_append]
      exact h.listed.append (.refl _)
    · change _ = ((a.bus.subscribe service).1.roll.filter (·.2)).map (·.1)
      rw [EventBus.subscribeRoll, List.filter_append, List.map_append, ← h.held]
      rfl
  | publish e =>
    refine ⟨h.numbered, h.grows, ?_, ?_⟩
    · change ((a.bus.publish e).roll.map (·.1)).Sublist _
      rw [EventBus.publishRoll]
      exact (List.filter_sublist.map _).trans h.listed
    · change _ = ((a.bus.publish e).roll.filter (·.2)).map (·.1)
      rw [EventBus.publishRoll, List.filter_filter]
      refine h.held.trans (congrArg _ (List.filter_congr fun x _ => ?_))
      cases x.2 <;> rfl
  | take v =>
    refine ⟨h.numbered, h.grows, ?_, ?_⟩
    · change ((a.bus.take v).2.roll.map (·.1)).Sublist _
      rw [EventBus.takeRoll]
      exact h.listed
    · change _ = ((a.bus.take v).2.roll.filter (·.2)).map (·.1)
      rw [EventBus.takeRoll]
      exact h.held
  | drop v =>
    refine ⟨h.numbered, h.grows, ?_, ?_⟩
    · change ((a.bus.close v).roll.map (·.1)).Sublist _
      rw [EventBus.closeListed]
      exact h.listed
    · change a.held.filter (·.id != v) = ((a.bus.close v).roll.filter (·.2)).map (·.1)
      rw [EventBus.closeRoll, h.held]
      generalize a.bus.roll = roll
      induction roll with
      | nil => rfl
      | cons x rest ih =>
        obtain ⟨w, isOpen⟩ := x
        by_cases own : w.id = v <;> cases isOpen <;> simp [own, ih]

theorem after (capacity : Nat) (uses : List BusUse) : (after capacity uses).Attended := by
  induction uses using List.reverseRecOn with
  | nil => exact empty capacity
  | append_singleton uses u ih =>
    rw [afterLast]
    exact ih.use u

end Attended

def removes (capacity : Nat) (w : Watcher) (x : List BusUse × BusUse) : Bool :=
  match x.2 with
  | .publish e =>
    w.wants e && decide (w ∈ (after capacity x.1).handed ∧ w ∉ (after capacity x.1).held)
  | _ => false

section Roll
variable {capacity : Nat} {uses : List BusUse} {w : Watcher}

theorem handedStays (a : Audience) (uses : List BusUse) :
    a.handed ⊆ (uses.foldl use a).handed := by
  induction uses generalizing a with
  | nil => exact List.Subset.refl _
  | cons u rest ih =>
    refine List.Subset.trans ?_ (ih (a.use u))
    cases u with
    | subscribe service => exact List.subset_append_left _ _
    | _ => exact List.Subset.refl _

theorem handedBefore {x : List BusUse × BusUse} (mem : x ∈ occasions uses) :
    (after capacity x.1).handed ⊆ (after capacity uses).handed := by
  obtain ⟨late, split⟩ := occasionsIff.mp mem
  rw [split, after, after, List.foldl_append]
  exact handedStays _ _

theorem removesHanded {x : List BusUse × BusUse} (removed : removes capacity w x = true) :
    w ∈ (after capacity x.1).handed := by
  unfold removes at removed
  split at removed
  · simp only [Bool.and_eq_true, decide_eq_true_eq] at removed
    exact removed.2.1
  · cases removed

theorem rollIs (capacity : Nat) (uses : List BusUse) :
    (after capacity uses).bus.roll.map (·.1) =
      (after capacity uses).handed.filter fun w =>
        !(occasions uses).any (removes capacity w) := by
  induction uses using List.reverseRecOn with
  | nil => rfl
  | append_singleton uses u ih =>
    have attended := Attended.after capacity uses
    have later (u : BusUse) (w : Watcher) : (!(occasions (uses ++ [u])).any (removes capacity w)) =
        (!removes capacity w (uses, u) && !(occasions uses).any (removes capacity w)) := by
      simp [occasionsLast, Bool.and_comm]
    simp only [later]
    rw [← List.filter_filter, afterLast]
    cases u with
    | subscribe service =>
      have new : ∀ x ∈ occasions uses,
          ¬removes capacity ⟨(after capacity uses).bus.nextId, service⟩ x = true :=
        fun x mem removed => absurd
          (attended.numbered _ (handedBefore mem (removesHanded removed))) (Nat.lt_irrefl _)
      simp only [removes, Bool.not_false, List.filter_true]
      have handed : ((after capacity uses).use (.subscribe service)).handed =
          (after capacity uses).handed ++ [⟨(after capacity uses).bus.nextId, service⟩] := rfl
      change ((after capacity uses).bus.subscribe service).1.roll.map (·.1) = _
      rw [handed, EventBus.subscribeRoll, List.map_append, ih, List.filter_append]
      congr 1
      refine (List.filter_eq_self.mpr fun w last => ?_).symm
      cases List.mem_singleton.mp last
      simpa using new
    | publish e =>
      change (((after capacity uses).bus.publish e).roll.map (·.1)) =
        ((after capacity uses).handed.filter _).filter _
      rw [EventBus.publishRoll, ← ih, List.filter_map]
      refine congrArg _ (List.filter_congr fun x on => ?_)
      have handed := attended.listed.subset (List.mem_map_of_mem on)
      have isOpen := attended.openIff on
      simp only [Function.comp_apply, removes, handed, true_and]
      cases is : x.2 with
      | true => simp [isOpen.mp is]
      | false =>
        have gone : x.1 ∉ (after capacity uses).held := fun held => by
          rw [isOpen.mpr held] at is
          cases is
        simp [gone]
    | take v =>
      simp only [removes, Bool.not_false, List.filter_true]
      change ((after capacity uses).bus.take v).2.roll.map (·.1) = _
      rw [EventBus.takeRoll, ih]
      rfl
    | drop v =>
      simp only [removes, Bool.not_false, List.filter_true]
      change ((after capacity uses).bus.close v).roll.map (·.1) = _
      rw [EventBus.closeListed, ih]
      rfl

end Roll

theorem listedIsRoll (b : EventBus) :
    b.subscriptions.map (·.watcher) = b.roll.map (·.1) := by
  simp [EventBus.roll]

/-- The bus lists everybody who is held, and besides, in the order in which they subscribed, all
those dropped for whom nothing has come since that they want. So right after an event its list has
exactly those who are held, as long as the others on it want that event. -/
theorem droppedStayUntilWanted (capacity : Nat) (uses : List BusUse) (e : Event) :
    (after capacity uses).held.Sublist
        ((after capacity uses).bus.subscriptions.map (·.watcher)) ∧
      (after capacity uses).bus.subscriptions.map (·.watcher) =
        (after capacity uses).handed.filter
          (fun w => !(occasions uses).any (removes capacity w)) ∧
      ((∀ w ∈ (after capacity uses).bus.subscriptions.map (·.watcher),
          w ∈ (after capacity uses).held ∨ w.wants e = true) →
        (after capacity (uses ++ [.publish e])).bus.subscriptions.map (·.watcher) =
          (after capacity (uses ++ [.publish e])).held) := by
  have attended := Attended.after capacity uses
  simp only [listedIsRoll]
  refine ⟨?_, rollIs capacity uses, fun wanted => ?_⟩
  · rw [attended.held]
    exact List.filter_sublist.map _
  · rw [afterLast]
    change ((after capacity uses).bus.publish e).roll.map (·.1) = (after capacity uses).held
    rw [EventBus.publishRoll, attended.held]
    refine congrArg _ (List.filter_congr fun x on => ?_)
    cases is : x.2 with
    | true => rfl
    | false =>
      rcases wanted x.1 (List.mem_map_of_mem on) with held | wants
      · rw [(attended.openIff on).mpr held] at is
        cases is
      · simp [wants]

def ofService (service : String) : Event :=
  .plain .registered (.fresh "a" service "a:80" .origin) .origin

def firstDropped : List BusUse :=
  [.subscribe (some "web"), .subscribe none, .subscribe (some "api"), .drop 1]

theorem wantedIsRemoved :
    (after 4 firstDropped).bus.subscriptions.map (·.watcher) =
        [⟨1, some "web"⟩, ⟨2, none⟩, ⟨3, some "api"⟩] ∧
      (after 4 (firstDropped ++ [.publish (ofService "web")])).bus.subscriptions.map (·.watcher) =
        [⟨2, none⟩, ⟨3, some "api"⟩] :=
  ⟨by decide, (droppedStayUntilWanted 4 firstDropped (ofService "web")).2.2 (by decide)⟩

theorem unwantedStays :
    ¬∀ (capacity : Nat) (uses : List BusUse) (e : Event),
      (after capacity (uses ++ [.publish e])).bus.subscriptions.map (·.watcher) =
        (after capacity (uses ++ [.publish e])).held := fun claim =>
  absurd (claim 4 [.subscribe (some "api"), .drop 1] (ofService "db")) (by decide)

end Audience
end ServiceDirectory
