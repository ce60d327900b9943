import ServiceDirectory.Proofs.Audience

/-! What the watchers of a bus get of what is published: each held watcher has got, or has queued for
it, all that it wants and that found room in its queue; the bus has counted what found none. Nobody
gets more or less for what others take or for being dropped. -/
namespace ServiceDirectory
open Subscription (delivery)

def BusUse.concerns (w : Nat) : BusUse → Bool
  | .take v => v == w
  | .drop v => v == w
  | _ => true

theorem openDelivery (capacity : Nat) (e : Event) (w : Watcher) (queue : List Event) :
    delivery capacity e ⟨w.id, w.service, true, queue⟩ =
      if w.wants e then if queue.length < capacity then .accepted else .full else .unwanted := by
  have wants : (⟨w.id, w.service, true, queue⟩ : Subscription).wants e = w.wants e :=
    EventBus.wantsSame _ e
  rw [delivery, wants]
  cases w.wants e <;> rfl

namespace Audience
variable {a : Audience} {w : Watcher}

namespace Attended

theorem openFound (h : a.Attended) {s : Subscription} (on : s ∈ a.bus.subscriptions)
    (isOpen : s.isOpen = true) : a.bus.find? s.id = some s := by
  have distinct : (a.bus.subscriptions.map (·.id)).Nodup := by
    have ids := h.distinct
    rwa [EventBus.roll, List.map_map] at ids
  cases found : a.bus.find? s.id with
  | none =>
    have nobody := List.find?_eq_none.mp found s on
    simp [isOpen] at nobody
  | some t =>
    have there := List.mem_of_find?_eq_some found
    exact congrArg some (List.inj_on_of_nodup_map distinct there on (EventBus.findIs found).1)

theorem heldFound (h : a.Attended) (held : w ∈ a.held) :
    a.bus.find? w.id = some ⟨w.id, w.service, true, a.bus.queued w.id⟩ := by
  obtain ⟨s, on, same⟩ := List.mem_map.mp (h.heldIff.mp held)
  obtain ⟨rfl, isOpen⟩ := Prod.mk.inj same
  have found : a.bus.find? s.watcher.id = some s := h.openFound on isOpen
  rw [EventBus.queued, found, Option.elim_some, ← isOpen]
  rfl

theorem foundHeld (h : a.Attended) {v : Nat} {s : Subscription} (found : a.bus.find? v = some s) :
    s.watcher ∈ a.held := by
  refine h.heldIff.mpr (List.mem_map.mpr ⟨s, List.mem_of_find?_eq_some found, ?_⟩)
  rw [(EventBus.findIs found).2]

theorem unknown (h : a.Attended) {v : Nat} (later : a.bus.nextId ≤ v) : a.bus.find? v = none := by
  cases found : a.bus.find? v with
  | none => rfl
  | some s =>
    have known := h.numbered _ (h.heldHanded (h.foundHeld found))
    rw [Subscription.watcher, (EventBus.findIs found).1] at known
    exact absurd known (Nat.not_lt.mpr later)

theorem heldCount (h : a.Attended) {p : Subscription → Bool}
    (closed : ∀ s, s.isOpen = false → p s = false) :
    a.bus.subscriptions.countP p = a.held.countP fun w => (a.bus.find? w.id).any p := by
  have held : a.held = (a.bus.subscriptions.filter (·.isOpen)).map (·.watcher) := by
    rw [h.held, EventBus.roll, List.filter_map, List.map_map]
    rfl
  rw [held, List.countP_map, List.countP_filter]
  refine List.countP_congr fun s on => ?_
  cases isOpen : s.isOpen with
  | true =>
    have found : a.bus.find? s.watcher.id = some s := h.openFound on isOpen
    simp [found]
  | false => simp [closed s isOpen]

end Attended

def took (capacity : Nat) (w : Watcher) (x : List BusUse × BusUse) : List Event :=
  match x.2 with
  | .take v => if v = w.id then ((after capacity x.1).bus.take v).1.toList else []
  | _ => []

/-- What is published for the watcher while it is held, and finds room in its queue. -/
def admitted (capacity : Nat) (w : Watcher) (x : List BusUse × BusUse) : List Event :=
  match x.2 with
  | .publish e =>
    if w ∈ (after capacity x.1).held ∧ w.wants e = true ∧
      ((after capacity x.1).bus.queued w.id).length < max capacity 1 then [e] else []
  | _ => []

def refused (capacity : Nat) (x : List BusUse × BusUse) : List Watcher :=
  match x.2 with
  | .publish e =>
    (after capacity x.1).held.filter fun w =>
      w.wants e && decide (max capacity 1 ≤ ((after capacity x.1).bus.queued w.id).length)
  | _ => []

section Account
variable (capacity : Nat) (uses : List BusUse)

theorem afterCapacity : (after capacity uses).bus.capacity = max capacity 1 := by
  induction uses using List.reverseRecOn with
  | nil => rfl
  | append_singleton uses u ih =>
    rw [afterLast, ← ih]
    cases u <;> rfl

theorem queuedPublished (h : a.Attended) (held : w ∈ a.held) (e : Event) :
    (a.bus.publish e).queued w.id =
      if w.wants e = true ∧ (a.bus.queued w.id).length < a.bus.capacity
      then a.bus.queued w.id ++ [e] else a.bus.queued w.id := by
  rw [EventBus.queued, EventBus.findPublished (h.heldFound held), openDelivery, Option.elim_some]
  cases w.wants e with
  | false => simp
  | true =>
    by_cases room : (a.bus.queued w.id).length < a.bus.capacity <;> simp [room]

theorem tookIs (v : Nat) (same : v = w.id) :
    took capacity w (uses, .take v) = (((after capacity uses).bus.queued w.id).head?).toList := by
  subst same
  simp only [took, if_pos, EventBus.take, EventBus.queued]
  cases (after capacity uses).bus.find? w.id <;> rfl

theorem useBalances (u : BusUse)
    (stands : w ∈ (after capacity (uses ++ [u])).held ∨
      (after capacity (uses ++ [u])).bus.nextId ≤ w.id) :
    (w ∈ (after capacity uses).held ∨ (after capacity uses).bus.nextId ≤ w.id) ∧
      took capacity w (uses, u) ++ (after capacity (uses ++ [u])).bus.queued w.id =
        (after capacity uses).bus.queued w.id ++ admitted capacity w (uses, u) := by
  have attended := Attended.after capacity uses
  have limit := afterCapacity capacity uses
  rw [afterLast] at stands ⊢
  generalize now : after capacity uses = a at *
  -- Who has not subscribed yet has neither a queue nor anything to take.
  have apart (later : a.bus.nextId ≤ w.id) : w ∉ a.held := fun held =>
    absurd (attended.numbered w (attended.heldHanded held)) (Nat.not_lt.mpr later)
  cases u with
  | subscribe service =>
    have queued : (a.bus.subscribe service).1.queued w.id = a.bus.queued w.id := by
      rw [EventBus.queued, EventBus.subscribeFinds, EventBus.queued]
      cases a.bus.find? w.id with
      | some s => rfl
      | none =>
        rw [Option.none_or]
        split <;> rfl
    refine ⟨?_, by simpa [took, admitted, use] using queued⟩
    rcases stands with held | later
    · rcases List.mem_append.mp held with old | new
      · exact .inl old
      · cases List.mem_singleton.mp new
        exact .inr (Nat.le_refl _)
    · exact .inr (Nat.le_of_succ_le later)
  | publish e =>
    refine ⟨stands, ?_⟩
    simp only [took, admitted, use, List.nil_append, now]
    rcases stands with held | later
    · replace held : w ∈ a.held := held
      rw [queuedPublished attended held, limit]
      simp only [held, true_and]
      split <;> simp
    · replace later : a.bus.nextId ≤ w.id := later
      rw [EventBus.queued, EventBus.publishFinds, attended.unknown later, EventBus.queued,
        attended.unknown later]
      simp [apart later]
  | take v =>
    refine ⟨stands, ?_⟩
    simp only [admitted, use, List.append_nil]
    by_cases same : v = w.id
    · rw [tookIs capacity uses v same, now, EventBus.queued, EventBus.queued, EventBus.takeFinds]
      cases a.bus.find? w.id with
      | none => rfl
      | some s =>
        simp only [same, if_true, Option.map_some, Option.elim_some]
        cases s.queue <;> rfl
    · simp only [took, same, if_false, List.nil_append]
      rw [EventBus.queued, EventBus.queued, EventBus.takeFinds]
      cases a.bus.find? w.id with
      | none => rfl
      | some s => rw [Option.map_some, if_neg same]
  | drop v =>
    simp only [took, admitted, use, List.nil_append, List.append_nil]
    rw [EventBus.queued, EventBus.queued, EventBus.closeFinds]
    rcases stands with held | later
    · obtain ⟨old, other⟩ := List.mem_filter.mp held
      have other : ¬v = w.id := fun same => by simp [same] at other
      exact ⟨.inl old, by rw [if_neg other]⟩
    · refine ⟨.inr later, ?_⟩
      rw [attended.unknown later]
      split <;> rfl

theorem accountBalances
    (stands : w ∈ (after capacity uses).held ∨ (after capacity uses).bus.nextId ≤ w.id) :
    (occasions uses).flatMap (took capacity w) ++ (after capacity uses).bus.queued w.id =
      (occasions uses).flatMap (admitted capacity w) := by
  induction uses using List.reverseRecOn with
  | nil => rfl
  | append_singleton uses u ih =>
    obtain ⟨stood, balances⟩ := useBalances capacity uses u stands
    rw [occasionsLast, List.flatMap_append, List.flatMap_append, List.flatMap_singleton,
      List.flatMap_singleton, List.append_assoc, balances, ← List.append_assoc, ih stood]

theorem refusedCounted :
    (after capacity uses).bus.dropped =
      ((occasions uses).flatMap (refused capacity)).length := by
  induction uses using List.reverseRecOn with
  | nil => rfl
  | append_singleton uses u ih =>
    rw [occasionsLast, List.flatMap_append, List.flatMap_singleton, List.length_append, ← ih,
      afterLast]
    cases u with
    | publish e =>
      have attended := Attended.after capacity uses
      simp only [use, EventBus.publish, refused, ← List.countP_eq_length_filter]
      congr 1
      rw [attended.heldCount]
      · refine List.countP_congr fun w held => ?_
        rw [attended.heldFound held, Option.any_some, openDelivery, afterCapacity]
        cases w.wants e with
        | false => simp
        | true =>
          simp only [if_true, Bool.true_and, decide_eq_true_eq, ← Nat.not_lt]
          by_cases room : ((after capacity uses).bus.queued w.id).length < max capacity 1
          · simp only [room, if_true, not_true_eq_false, iff_false]
            decide
          · simp only [room, if_false, not_false_eq_true, beq_self_eq_true]
      · intro s isOpen
        simp only [delivery, isOpen]
        split <;> rfl
    | _ => rfl

theorem takersTake (h : a.Attended) (e : Event) :
    a.bus.takers e = a.held.countP fun w =>
      (a.bus.publish e).queued w.id == a.bus.queued w.id ++ [e] := by
  rw [EventBus.takers, h.heldCount]
  · refine List.countP_congr fun w held => ?_
    rw [h.heldFound held, Option.any_some, openDelivery, queuedPublished h held]
    cases w.wants e with
    | false => simp
    | true =>
      by_cases room : (a.bus.queued w.id).length < a.bus.capacity <;> simp [room]
  · intro s isOpen
    simp only [delivery, isOpen]
    split <;> rfl

end Account

structure AsFor (v : Nat) (a c : Audience) : Prop where
  next : a.bus.nextId = c.bus.nextId
  capacity : a.bus.capacity = c.bus.capacity
  found : a.bus.find? v = c.bus.find? v

theorem AsFor.use {v : Nat} {c : Audience} (h : AsFor v a c) (u : BusUse) :
    AsFor v (a.use u) (c.use u) := by
  cases u with
  | subscribe service =>
    refine ⟨congrArg (· + 1) h.next, h.capacity, ?_⟩
    change (a.bus.subscribe service).1.find? v = (c.bus.subscribe service).1.find? v
    rw [EventBus.subscribeFinds, EventBus.subscribeFinds, h.next, h.found]
  | publish e =>
    refine ⟨h.next, h.capacity, ?_⟩
    change (a.bus.publish e).find? v = (c.bus.publish e).find? v
    rw [EventBus.publishFinds, EventBus.publishFinds, h.capacity, h.found]
  | take x =>
    refine ⟨h.next, h.capacity, ?_⟩
    change (a.bus.take x).2.find? v = (c.bus.take x).2.find? v
    rw [EventBus.takeFinds, EventBus.takeFinds, h.found]
  | drop x =>
    refine ⟨h.next, h.capacity, ?_⟩
    change (a.bus.close x).find? v = (c.bus.close x).find? v
    rw [EventBus.closeFinds, EventBus.closeFinds, h.found]

theorem AsFor.aside {v : Nat} {c : Audience} (h : AsFor v a c) {u : BusUse}
    (other : u.concerns v = false) : AsFor v (a.use u) c := by
  cases u with
  | take x =>
    have apart : ¬x = v := by simpa [BusUse.concerns] using other
    refine ⟨h.next, h.capacity, ?_⟩
    change (a.bus.take x).2.find? v = c.bus.find? v
    rw [EventBus.takeFinds, h.found]
    cases c.bus.find? v <;> simp [apart]
  | drop x =>
    have apart : ¬x = v := by simpa [BusUse.concerns] using other
    refine ⟨h.next, h.capacity, ?_⟩
    change (a.bus.close x).find? v = c.bus.find? v
    rw [EventBus.closeFinds, h.found, if_neg apart]
  | _ => cases other

theorem AsFor.took {capacity : Nat} {uses others : List BusUse}
    (h : AsFor w.id (after capacity uses) (after capacity others)) (u : BusUse) :
    took capacity w (uses, u) = took capacity w (others, u) := by
  cases u with
  | take v =>
    by_cases same : v = w.id
    · rw [tookIs capacity uses v same, tookIs capacity others v same, EventBus.queued, h.found]
      rfl
    · simp [Audience.took, same]
  | _ => rfl

theorem concernedSame (capacity : Nat) (w : Watcher) (uses : List BusUse) :
    AsFor w.id (after capacity uses) (after capacity (uses.filter (·.concerns w.id))) ∧
      (occasions uses).flatMap (took capacity w) =
        (occasions (uses.filter (·.concerns w.id))).flatMap (took capacity w) := by
  induction uses using List.reverseRecOn with
  | nil => exact ⟨⟨rfl, rfl, rfl⟩, rfl⟩
  | append_singleton uses u ih =>
    obtain ⟨alike, same⟩ := ih
    rw [List.filter_append, afterLast, occasionsLast, List.flatMap_append, List.flatMap_singleton]
    cases mine : u.concerns w.id with
    | true =>
      rw [List.filter_cons_of_pos mine, List.filter_nil, afterLast, occasionsLast,
        List.flatMap_append, List.flatMap_singleton, same, alike.took]
      exact ⟨alike.use u, rfl⟩
    | false =>
      have nothing : took capacity w (uses, u) = [] := by
        cases u with
        | take v =>
          have apart : ¬v = w.id := by simpa [BusUse.concerns] using mine
          simp [took, apart]
        | _ => rfl
      rw [List.filter_cons_of_neg (by simp [mine]), List.filter_nil, List.append_nil, nothing,
        List.append_nil]
      exact ⟨alike.aside mine, same⟩

/-- Each watcher held has received, or has queued, exactly and in order what was published for it
since it subscribed and found its queue not full; the events dropped are the pairs of an event and a
watcher held that wants it and whose queue was full; an event is said to be taken by as many queues
as it is added to; what is taken is what has been queued longest; what a watcher gets hangs neither
on what others take nor on who else is dropped; and ids are given out in ascending order. -/
theorem deliveriesAccounted (capacity : Nat) (uses : List BusUse) :
    (∀ w ∈ (after capacity uses).held,
        (occasions uses).flatMap (took capacity w) ++ (after capacity uses).bus.queued w.id =
          (occasions uses).flatMap (admitted capacity w) ∧
        ((after capacity uses).bus.take w.id).1 = ((after capacity uses).bus.queued w.id).head? ∧
        ∀ others : List BusUse,
          others.filter (·.concerns w.id) = uses.filter (·.concerns w.id) →
          w ∈ (after capacity others).held ∧
            (after capacity others).bus.queued w.id = (after capacity uses).bus.queued w.id ∧
            (occasions others).flatMap (took capacity w) =
              (occasions uses).flatMap (took capacity w)) ∧
      (after capacity uses).bus.dropped =
        ((occasions uses).flatMap (refused capacity)).length ∧
      (∀ e, (after capacity uses).bus.takers e = (after capacity uses).held.countP fun w =>
        (after capacity (uses ++ [.publish e])).bus.queued w.id ==
          (after capacity uses).bus.queued w.id ++ [e]) ∧
      ((after capacity uses).handed.map (·.id)).Pairwise (· < ·) := by
  have attended := Attended.after capacity uses
  refine ⟨fun w held => ⟨accountBalances capacity uses (.inl held), ?_, fun others same => ?_⟩,
    refusedCounted capacity uses, fun e => ?_, attended.grows⟩
  · rw [EventBus.take, attended.heldFound held]
    rfl
  · obtain ⟨mine, took⟩ := concernedSame capacity w uses
    obtain ⟨theirs, tookToo⟩ := concernedSame capacity w others
    rw [same] at theirs tookToo
    have found := theirs.found.trans mine.found.symm
    refine ⟨?_, by rw [EventBus.queued, EventBus.queued, found], tookToo.trans took.symm⟩
    exact (Attended.after capacity others).foundHeld (found.trans (attended.heldFound held))
  · rw [afterLast]
    exact takersTake attended e

def crowded : List BusUse :=
  [.subscribe (some "web"), .subscribe none, .publish (ofService "web"), .publish (ofService "db"),
    .take 2, .publish (ofService "api")]

def lessCrowded : List BusUse := crowded ++ [.take 1, .drop 1]

theorem crowdedAccounted :
    (⟨2, none⟩ : Watcher) ∈ (after 1 crowded).held ∧
      lessCrowded.filter (·.concerns 2) = crowded.filter (·.concerns 2) ∧
      (after 1 crowded).bus.dropped = 1 ∧
      (occasions crowded).flatMap (took 1 ⟨2, none⟩) = [ofService "web"] ∧
      [ofService "web"] ++ (after 1 crowded).bus.queued 2 = [ofService "web", ofService "api"] ∧
      (after 1 lessCrowded).bus.queued 2 = (after 1 crowded).bus.queued 2 := by
  have held : (⟨2, none⟩ : Watcher) ∈ (after 1 crowded).held := by decide
  have same : lessCrowded.filter (·.concerns 2) = crowded.filter (·.concerns 2) := by decide
  have got : (occasions crowded).flatMap (took 1 ⟨2, none⟩) = [ofService "web"] := by decide
  obtain ⟨each, dropped, _⟩ := deliveriesAccounted 1 crowded
  obtain ⟨all, _, apart⟩ := each ⟨2, none⟩ held
  refine ⟨held, same, dropped.trans (by decide), got, ?_, (apart _ same).2.1⟩
  rw [got] at all
  exact all.trans (by decide)

end Audience
end ServiceDirectory
