import ServiceDirectory.Proofs.Loops
import ServiceDirectory.Proofs.Stranding
import ServiceDirectory.Proofs.Tending

/-! Who is watched over. From the launch of the first loops until a shutdown, every live record has a
loop of its own that runs and is in the table, unless a removal has its hands on it, or had them on
it when it was dropped: a removal takes the loop first, and nobody gives it back. -/
namespace ServiceDirectory

namespace Stride

def forsakes (s : Stride) : List Mark :=
  (s.dropped?.elim [] Call.removes).filterMap fun id =>
    (s.before.registry.records.get? id).map fun x => (id, x.epoch)

end Stride

def forsaken (past : List Stride) : List Mark := past.flatMap Stride.forsakes

theorem forsakenNext (past : List Stride) (s : Stride) :
    forsaken (past ++ [s]) = forsaken past ++ s.forsakes := by
  simp [forsaken]

namespace Registry
variable {r s t : Registry}

def Owned (r : Registry) : Prop :=
  ∀ id epoch, r.supervised.get? id = some epoch → epoch < r.nextEpoch ∧
    ∀ other x, r.records.get? other = some x → x.epoch = epoch → other = id

theorem emptyOwned : empty.Owned := fun id epoch found => by cases found

theorem Owned.within (h : r.Owned) (nextEpoch : r.nextEpoch ≤ s.nextEpoch)
    (entries : ∀ id epoch, s.supervised.get? id = some epoch → r.supervised.get? id = some epoch)
    (epochs : ∀ id x, s.records.get? id = some x →
      ∃ y, r.records.get? id = some y ∧ y.epoch = x.epoch) : s.Owned := by
  intro id epoch found
  obtain ⟨early, own⟩ := h id epoch (entries id epoch found)
  refine ⟨Nat.lt_of_lt_of_le early nextEpoch, fun other x live same => ?_⟩
  obtain ⟨y, was, kept⟩ := epochs other x live
  exact own other y was (kept.trans same)

structure Enlists (r s : Registry) (orders : List LoopOrder) : Prop where
  running : s.running = r.running
  grows : r.nextEpoch ≤ s.nextEpoch
  keeps : ∀ id x, r.records.get? id = some x → s.records.get? id = some x
  idle : r.running = false → s.supervised = r.supervised ∧ orders = []
  records : ∀ id x, s.records.get? id = some x →
    (r.records.get? id = some x ∧ s.supervised.get? id = r.supervised.get? id) ∨
      (r.nextEpoch ≤ x.epoch ∧ (r.running = true →
        s.supervised.get? id = some x.epoch ∧ ⟨x.snapshot, x.epoch⟩ ∈ orders))
  entries : ∀ id epoch, s.supervised.get? id = some epoch →
    r.supervised.get? id = some epoch ∨ (r.nextEpoch ≤ epoch ∧ epoch < s.nextEpoch ∧
      ∃ x, s.records.get? id = some x ∧ x.epoch = epoch)
  ordered : ∀ o ∈ orders, r.nextEpoch ≤ o.epoch ∧ o.epoch < s.nextEpoch ∧
    s.records.get? o.snapshot.id = some ⟨o.snapshot, o.epoch⟩
  distinct : (orders.map (·.epoch)).Nodup

namespace Enlists
variable {a b : List LoopOrder}

theorem none (r : Registry) : Enlists r r [] :=
  ⟨rfl, Nat.le_refl _, fun _ _ => id, fun _ => ⟨rfl, rfl⟩, fun _ _ live => .inl ⟨live, rfl⟩,
    fun _ _ => .inl, nofun, .nil⟩

theorem both (first : Enlists r s a) (second : Enlists s t b) : Enlists r t (a ++ b) where
  running := second.running.trans first.running
  grows := Nat.le_trans first.grows second.grows
  keeps id x live := second.keeps id x (first.keeps id x live)
  idle rests := by
    obtain ⟨table, nobody⟩ := first.idle rests
    obtain ⟨later, none⟩ := second.idle (first.running.trans rests)
    exact ⟨later.trans table, by rw [nobody, none]; rfl⟩
  records id x live := by
    rcases second.records id x live with ⟨was, same⟩ | ⟨late, mans⟩
    · rcases first.records id x was with ⟨old, kept⟩ | ⟨late, mans⟩
      · exact .inl ⟨old, same.trans kept⟩
      · refine .inr ⟨late, fun runs => ?_⟩
        obtain ⟨entry, order⟩ := mans runs
        exact ⟨same.trans entry, List.mem_append_left _ order⟩
    · refine .inr ⟨Nat.le_trans first.grows late, fun runs => ?_⟩
      obtain ⟨entry, order⟩ := mans (first.running.trans runs)
      exact ⟨entry, List.mem_append_right _ order⟩
  entries id epoch found := by
    rcases second.entries id epoch found with was | ⟨late, early, new⟩
    · refine (first.entries id epoch was).imp_right fun ⟨late, early, x, live, same⟩ => ?_
      exact ⟨late, Nat.lt_of_lt_of_le early second.grows, x, second.keeps id x live, same⟩
    · exact .inr ⟨Nat.le_trans first.grows late, early, new⟩
  ordered o mem := by
    rcases List.mem_append.mp mem with mine | theirs
    · obtain ⟨late, early, live⟩ := first.ordered o mine
      exact ⟨late, Nat.lt_of_lt_of_le early second.grows, second.keeps _ _ live⟩
    · obtain ⟨late, early, live⟩ := second.ordered o theirs
      exact ⟨Nat.le_trans first.grows late, early, live⟩
  distinct := by
    rw [List.map_append]
    refine List.nodup_append.mpr ⟨first.distinct, second.distinct, ?_⟩
    rintro _ mine _ theirs rfl
    obtain ⟨o, ho, rfl⟩ := List.mem_map.mp mine
    obtain ⟨u, hu, same⟩ := List.mem_map.mp theirs
    have early := (first.ordered o ho).2.1
    have late := (second.ordered u hu).1
    omega

theorem owned (h : Enlists r s a) (owned : r.Owned) (apart : s.Apart) : s.Owned := by
  intro id epoch found
  rcases h.entries id epoch found with was | ⟨_, early, x, live, rfl⟩
  · obtain ⟨early, own⟩ := owned id epoch was
    refine ⟨Nat.lt_of_lt_of_le early h.grows, fun other y live same => ?_⟩
    rcases h.records other y live with ⟨old, _⟩ | ⟨late, _⟩
    · exact own other y old same
    · omega
  · exact ⟨early, fun other y there same => apart other id y x there live same⟩

end Enlists

theorem enterEnlists {i : Instance} (free : r.busy i.id = false) :
    Enlists r (r.enter i).1 (r.enter i).2 := by
  obtain ⟨gone, _⟩ := (freeIff r i.id).mp free
  have records : (r.enter i).1.records = r.records.put i.id ⟨i, r.nextEpoch⟩ := rfl
  have table : (r.enter i).1.supervised =
      if r.running then r.supervised.put i.id r.nextEpoch else r.supervised := rfl
  have orders : (r.enter i).2 = if r.running then [⟨i, r.nextEpoch⟩] else [] := rfl
  have own : (r.enter i).1.records.get? i.id = some ⟨i, r.nextEpoch⟩ := Table.getPutSame _ _ _
  refine ⟨rfl, Nat.le_succ _, fun id x live => ?_, fun rests => ?_, fun id x live => ?_,
    fun id epoch found => ?_, fun o mem => ?_, ?_⟩
  · have apart : id ≠ i.id := fun same => by rw [same, gone] at live; cases live
    rw [records, Table.getPutOther _ _ apart, live]
  · rw [table, orders, rests]
    exact ⟨rfl, rfl⟩
  · by_cases mine : id = i.id
    · subst mine
      cases own.symm.trans live
      refine .inr ⟨Nat.le_refl _, fun runs => ?_⟩
      rw [table, orders, if_pos runs, if_pos runs, Table.getPutSame]
      exact ⟨rfl, List.mem_singleton_self _⟩
    · rw [records, Table.getPutOther _ _ mine] at live
      refine .inl ⟨live, ?_⟩
      rw [table]
      split
      · exact Table.getPutOther _ _ mine
      · rfl
  · rw [table] at found
    split at found
    · rw [Table.getPut] at found
      split at found
      · rename_i mine
        cases found
        exact .inr ⟨Nat.le_refl _, Nat.lt_succ_self _, _, mine ▸ own, rfl⟩
      · exact .inl found
    · exact .inl found
  · rw [orders] at mem
    split at mem
    · cases List.mem_singleton.mp mem
      exact ⟨Nat.le_refl _, Nat.lt_succ_self _, own⟩
    · cases mem
  · rw [orders]
    split <;> simp

theorem loadEnlists (r : Registry) (now : Timestamp) (stored : List Instance) :
    Enlists r (r.load now stored).1 (r.load now stored).2.2 := by
  induction stored generalizing r with
  | nil => exact .none r
  | cons i rest ih =>
    rcases loadOneCases r now i with same | ⟨j, _, free, entered⟩
    · simpa only [load, same, List.nil_append] using ih r
    · simpa only [load, entered] using (enterEnlists free).both (ih _)

structure Dismisses (r s : Registry) (took : List Expiry) : Prop where
  running : s.running = r.running
  entries : ∀ id epoch, s.supervised.get? id = some epoch → r.supervised.get? id = some epoch
  others : ∀ id, id ∉ took.map (·.snapshot.id) → s.supervised.get? id = r.supervised.get? id
  loops : ∀ x ∈ took, ∀ epoch ∈ x.loop, r.supervised.get? x.snapshot.id = some epoch

theorem Dismisses.both {a b : List Expiry} (first : Dismisses r s a) (second : Dismisses s t b) :
    Dismisses r t (a ++ b) where
  running := second.running.trans first.running
  entries id epoch found := first.entries id epoch (second.entries id epoch found)
  others id out := by
    simp only [List.map_append, List.mem_append, not_or] at out
    exact (second.others id out.2).trans (first.others id out.1)
  loops x mem epoch loop := by
    rcases List.mem_append.mp mem with mine | theirs
    · exact first.loops x mine epoch loop
    · exact first.entries _ _ (second.loops x theirs epoch loop)

theorem expelDismisses (sound : SoundRecords r.records r.nextEpoch) (id : String) :
    Dismisses r (r.expel id).1 (r.expel id).2 := by
  unfold expel
  split
  · exact ⟨rfl, fun _ _ found => found, fun _ _ => rfl, nofun⟩
  · rename_i x live
    have own := sound.own id x live
    have table (other : String) : (r.supervised.remove id).get? other =
        if other = id then Option.none else r.supervised.get? other := Table.getRemove _ _ _
    refine ⟨rfl, fun other epoch found => ?_, fun other out => ?_, fun y mem epoch loop => ?_⟩
    · have found := (table other).symm.trans found
      split at found
      · cases found
      · exact found
    · have apart : other ≠ id := by simpa [own] using out
      exact (table other).trans (if_neg apart)
    · cases List.mem_singleton.mp mem
      rw [own]
      exact loop

theorem expelAllDismisses (sound : SoundRecords r.records r.nextEpoch) (ids : List String) :
    Dismisses r (r.expelAll ids).1 (r.expelAll ids).2 := by
  induction ids generalizing r with
  | nil => exact ⟨rfl, fun _ _ => id, fun _ _ => rfl, nofun⟩
  | cons id rest ih => exact (expelDismisses sound id).both (ih (expelSound sound id))

end Registry

def Call.closes : Call → Bool
  | .draining => true
  | .stilling _ => true
  | .joining _ => true
  | _ => false

namespace Directory
variable {d e : Directory} {a : Action} {k : CallId} {c c' : Call} {past : List Stride} {s : Stride}

theorem stepSettings (next : d.step a = some e) : e.settings = d.settings := by
  cases stepDeed next <;> rfl

structure Unshut (d : Directory) : Prop where
  cancelled : d.cancelled = false
  open_ : ∀ x ∈ d.calls, x.2.closes = false
  launches : ∀ x ∈ d.calls, x.2 = .launching → d.started = true ∧ d.registry.running = false
  once : ∀ x ∈ d.calls, ∀ y ∈ d.calls, x.2 = .launching → y.2 = .launching → x = y
  runs : d.registry.running = true → d.started = true

theorem emptyUnshut (settings : DirectorySettings) : (empty settings).Unshut where
  cancelled := rfl
  open_ x mem := by cases mem
  launches x mem := by cases mem
  once x mem := by cases mem
  runs running := by cases running

theorem Unshut.next (h : d.Unshut) (cancelled : e.cancelled = d.cancelled)
    (started : e.started = d.started) (running : e.registry.running = d.registry.running)
    (calls : d.Newly (fun c => c.closes = false ∧ c ≠ .launching) e) : e.Unshut where
  cancelled := cancelled.trans h.cancelled
  open_ x mem := (calls x mem).elim (h.open_ x) And.left
  launches x mem launching := by
    rw [started, running]
    exact h.launches x ((calls x mem).resolve_right fun new => new.2 launching) launching
  once x hx y hy launching too :=
    h.once x ((calls x hx).resolve_right fun new => new.2 launching) y
      ((calls y hy).resolve_right fun new => new.2 too) launching too
  runs := by
    rw [started, running]
    exact h.runs

theorem leaveRunning {r : Registry} {id : String} {x : Record} (live : r.records.get? id = some x) :
    (r.finishRemoval id).1.running = r.running := by
  have live : (r.release id).records.get? id = some x := live
  simp only [Registry.finishRemoval, live]
  rfl

theorem passedRunning (r : Registry) (id : String) (epoch : Nat) (at_ : Timestamp) :
    (r.passed id epoch at_).running = r.running := by
  unfold Registry.passed
  split
  · split <;> rfl
  · rfl

theorem expireDismisses (custody : d.Custody) {timeout : Nat} {at_ : Timestamp} {r : Registry}
    {took : List Expiry} (expires : d.registry.expire timeout at_ = (r, took)) :
    d.registry.Dismisses r took := by
  have dismisses := Registry.expelAllDismisses custody.sound (d.registry.victims timeout at_)
  rwa [← Registry.expire, expires] at dismisses

theorem unshutStep (custody : d.Custody) (h : d.Unshut) (stays : a ≠ .begin .shutdown)
    (next : d.step a = some e) : e.Unshut := by
  have closing {k : CallId} {c : Call} (found : d.call? k = some c) (closes : c.closes = true) :
      e.Unshut := by
    have := h.open_ _ (memOfCall found)
    rw [closes] at this
    cases this
  cases stepDeed next with
  | opened opens =>
    exact h.next rfl rfl rfl (.opened rfl (by cases opens <;> exact ⟨rfl, nofun⟩))
  | removing => exact h.next rfl rfl rfl (.opened rfl ⟨rfl, nofun⟩)
  | starting first =>
    have none (x : CallId × Call) (mem : x ∈ d.calls) : x.2 ≠ .launching := fun launching => by
      have started := (h.launches x mem launching).1
      rw [first] at started
      cases started
    have rests : d.registry.running = false := Bool.eq_false_iff.mpr fun runs => by
      have started := h.runs runs
      rw [first] at started
      cases started
    refine ⟨h.cancelled, eachOpened h.open_ rfl, fun _ _ _ => ⟨rfl, rests⟩, ?_, fun _ => rfl⟩
    exact eachOpened (fun x hx y _ launching => absurd launching (none x hx))
      (eachOpened (fun y hy _ launching => absurd launching (none y hy)) fun _ _ => rfl)
  | closing => exact absurd rfl stays
  | ticked => exact h.next rfl rfl rfl (.opened rfl ⟨rfl, nofun⟩)
  | moved => exact h.next rfl rfl rfl (.opened rfl ⟨rfl, nofun⟩)
  | broke first =>
    refine ⟨h.cancelled, h.open_, fun x mem launching => ?_, h.once, fun _ => rfl⟩
    exact ⟨rfl, (h.launches x mem launching).2⟩
  | turnedAway => exact h.next rfl rfl rfl (.left rfl)
  | reserved => exact h.next rfl rfl rfl (.moved rfl ⟨rfl, nofun⟩)
  | entered => exact h.next rfl rfl rfl (.moved rfl ⟨rfl, nofun⟩)
  | quieted => exact h.next rfl rfl rfl (.moved rfl ⟨rfl, nofun⟩)
  | left found live => exact h.next rfl rfl (leaveRunning live) (.moved rfl ⟨rfl, nofun⟩)
  | missed => exact h.next rfl rfl rfl (.left rfl)
  | foundNone found expires =>
    exact h.next rfl rfl (expireDismisses custody expires).running (.left rfl)
  | collected found expires =>
    exact h.next rfl rfl (expireDismisses custody expires).running (.moved rfl ⟨rfl, nofun⟩)
  | hushed => exact h.next rfl rfl rfl (.moved rfl ⟨rfl, nofun⟩)
  | releasing => exact h.next rfl rfl rfl (.moved rfl ⟨rfl, nofun⟩)
  | expiredLast => exact h.next rfl rfl rfl (.left rfl)
  | expired => exact h.next rfl rfl rfl (.moved rfl ⟨rfl, nofun⟩)
  | loaded => exact h.next rfl rfl (Registry.loadEnlists _ _ _).running (.moved rfl ⟨rfl, nofun⟩)
  | told => exact h.next rfl rfl rfl (.moved rfl ⟨rfl, nofun⟩)
  | silent => exact h.next rfl rfl rfl (.left rfl)
  | launched found =>
    have mine := memOfCall found
    have none : ∀ x ∈ d.calls.filter (·.1 != _), x.2 ≠ .launching := eachLeft fun x mem other own =>
      other (congrArg Prod.fst (h.once x mem _ mine own rfl))
    exact ⟨h.cancelled, eachLeft fun x mem _ => h.open_ x mem,
      fun x mem launching => absurd launching (none x mem),
      fun x mem y _ launching => absurd launching (none x mem),
      fun _ => (h.launches _ mine rfl).1⟩
  | drained found => exact closing found rfl
  | stilled found => exact closing found rfl
  | joined found => exact closing found rfl
  | saved => exact h.next rfl rfl rfl (.moved rfl ⟨rfl, nofun⟩)
  | unsaved => exact h.next rfl rfl rfl (.left rfl)
  | deleted => exact h.next rfl rfl rfl (.moved rfl ⟨rfl, nofun⟩)
  | purged => exact h.next rfl rfl rfl (.moved rfl ⟨rfl, nofun⟩)
  | listed => exact h.next rfl rfl rfl (.moved rfl ⟨rfl, nofun⟩)
  | unlisted => exact h.next rfl rfl rfl (.left rfl)
  | given => exact h.next rfl rfl rfl (.moved rfl ⟨rfl, nofun⟩)
  | @dropped k c => exact h.next rfl rfl (by cases c.guarded? <;> rfl) (.left rfl)
  | passed => exact h.next rfl rfl (passedRunning _ _ _ _) (.same rfl)
  | _ => exact h.next rfl rfl rfl (.same rfl)

structure Manned (d : Directory) (id : String) (epoch : Nat) : Prop where
  entry : d.registry.supervised.get? id = some epoch
  loop : ∃ l ∈ d.loops, l.check.id = id ∧ l.check.epoch = epoch ∧ l.cancelled = false

def Excused (past : List Stride) (d : Directory) (id : String) (epoch : Nat) : Prop :=
  (∃ x ∈ d.calls, id ∈ x.2.removes) ∨ (id, epoch) ∈ forsaken past

structure Manning (past : List Stride) (d : Directory) : Prop where
  lone : (d.loops.map (·.check.epoch)).Nodup
  early : ∀ l ∈ d.loops, l.check.epoch < d.registry.nextEpoch
  owned : d.registry.Owned
  resting : d.registry.running = false →
    (∀ id, d.registry.supervised.get? id = none) ∧ d.loops = []
  manned : d.registry.running = true → ∀ id x, d.registry.records.get? id = some x →
    d.Manned id x.epoch ∨ Excused past d id x.epoch

theorem emptyManning (settings : DirectorySettings) : Manning [] (empty settings) where
  lone := .nil
  early l mem := by cases mem
  owned := Registry.emptyOwned
  resting _ := ⟨fun _ => rfl, rfl⟩
  manned running := by cases running

structure Steady (r s : Registry) : Prop where
  supervised : s.supervised = r.supervised
  running : s.running = r.running
  nextEpoch : r.nextEpoch ≤ s.nextEpoch
  epochs : ∀ id x, s.records.get? id = some x → ∃ y, r.records.get? id = some y ∧ y.epoch = x.epoch

theorem Steady.same {r s : Registry} (supervised : s.supervised = r.supervised)
    (running : s.running = r.running) (nextEpoch : s.nextEpoch = r.nextEpoch)
    (epochs : ∀ id, (s.records.get? id).map (·.epoch) = (r.records.get? id).map (·.epoch)) :
    Steady r s :=
  ⟨supervised, running, Nat.le_of_eq nextEpoch.symm, fun id x live => by
    have same := epochs id
    rw [live] at same
    exact Option.map_eq_some_iff.mp same.symm⟩

theorem Manned.still {id : String} {epoch : Nat} (h : d.Manned id epoch)
    (entry : e.registry.supervised.get? id = d.registry.supervised.get? id)
    (loops : ∀ l ∈ d.loops, l.check.epoch = epoch → l.cancelled = false →
      ∃ m ∈ e.loops, m.check.id = l.check.id ∧ m.check.epoch = l.check.epoch ∧
        m.cancelled = false) : e.Manned id epoch := by
  refine ⟨entry.trans h.entry, ?_⟩
  obtain ⟨l, mem, own, mine, runs⟩ := h.loop
  obtain ⟨m, there, same, its, still⟩ := loops l mem mine runs
  exact ⟨m, there, same.trans own, its.trans mine, still⟩

namespace Manning

theorem sole (h : Manning past d) {l m : RunningLoop} (hl : l ∈ d.loops) (hm : m ∈ d.loops)
    (same : l.check.epoch = m.check.epoch) : l = m :=
  List.inj_on_of_nodup_map h.lone hl hm same

theorem inherited (h : Manning past d) (heirs : Heirs d e)
    (running : e.registry.running = d.registry.running)
    (grows : d.registry.nextEpoch ≤ e.registry.nextEpoch)
    (entries : ∀ id epoch, e.registry.supervised.get? id = some epoch →
      d.registry.supervised.get? id = some epoch)
    (epochs : ∀ id x, e.registry.records.get? id = some x →
      ∃ y, d.registry.records.get? id = some y ∧ y.epoch = x.epoch)
    (manned : ∀ id x, e.registry.records.get? id = some x → d.Manned id x.epoch →
      e.Manned id x.epoch ∨ Excused (past ++ [s]) e id x.epoch)
    (excused : ∀ id x, e.registry.records.get? id = some x → (∃ y ∈ d.calls, id ∈ y.2.removes) →
      Excused (past ++ [s]) e id x.epoch) : Manning (past ++ [s]) e := by
  refine ⟨h.lone.sublist heirs.fewer, fun l mem => ?_, h.owned.within grows entries epochs,
    fun rests => ?_, fun runs id x live => ?_⟩
  · obtain ⟨old, there, same, _⟩ := heirs.own l mem
    exact same ▸ Nat.lt_of_lt_of_le (h.early old there) grows
  · obtain ⟨bare, none⟩ := h.resting (running ▸ rests)
    refine ⟨fun id => Option.eq_none_iff_forall_ne_some.mpr fun epoch found => ?_, ?_⟩
    · have was := entries id epoch found
      rw [bare] at was
      cases was
    · have fewer := heirs.fewer
      rw [none] at fewer
      exact List.map_eq_nil_iff.mp (List.sublist_nil.mp fewer)
  · obtain ⟨y, was, same⟩ := epochs id x live
    rcases h.manned (running ▸ runs) id y was with mans | hands | gone
    · exact manned id x live (same ▸ mans)
    · exact .inr (excused id x live hands)
    · refine .inr (.inr ?_)
      rw [forsakenNext]
      exact List.mem_append_left _ (same ▸ gone)

theorem quiet (h : Manning past d) (steady : Steady d.registry e.registry)
    (loops : e.loops = d.loops) (cancelled : e.cancelled = d.cancelled)
    (excused : ∀ id x, e.registry.records.get? id = some x → (∃ y ∈ d.calls, id ∈ y.2.removes) →
      Excused (past ++ [s]) e id x.epoch) : Manning (past ++ [s]) e :=
  h.inherited (.same loops (cancelled.trans ·)) steady.running steady.nextEpoch
    (fun _ _ found => steady.supervised ▸ found) steady.epochs
    (fun id _ _ mans => .inl (mans.still (congrArg (·.get? id) steady.supervised)
      fun l mem _ runs => ⟨l, loops ▸ mem, rfl, rfl, runs⟩)) excused

theorem aside (h : Manning past d) (steady : Steady d.registry e.registry)
    (loops : e.loops = d.loops) (cancelled : e.cancelled = d.cancelled)
    (calls : e.calls = d.calls) : Manning (past ++ [s]) e :=
  h.quiet steady loops cancelled fun _ _ _ hands => .inl (by rw [calls]; exact hands)

theorem opened (h : Manning past d) (steady : Steady d.registry e.registry)
    (loops : e.loops = d.loops) (cancelled : e.cancelled = d.cancelled) {x : CallId × Call}
    (calls : e.calls = d.calls ++ [x]) : Manning (past ++ [s]) e :=
  h.quiet steady loops cancelled fun _ _ _ ⟨y, mem, hands⟩ =>
    .inl ⟨y, by rw [calls]; exact List.mem_append_left _ mem, hands⟩

theorem moved (h : Manning past d) (lined : d.Lined) (found : d.call? k = some c)
    (steady : Steady d.registry e.registry) (loops : e.loops = d.loops)
    (cancelled : e.cancelled = d.cancelled) (calls : e.calls = (d.moveTo k c').calls)
    (mine : ∀ id x, e.registry.records.get? id = some x → id ∈ c.removes → id ∈ c'.removes) :
    Manning (past ++ [s]) e :=
  h.quiet steady loops cancelled fun id x live hands => .inl (by
    rw [calls]
    exact someMoved (P := (id ∈ ·.removes)) lined found (mine id x live) hands)

theorem left (h : Manning past d) (lined : d.Lined) (found : d.call? k = some c)
    (steady : Steady d.registry e.registry) (loops : e.loops = d.loops)
    (cancelled : e.cancelled = d.cancelled) (calls : e.calls = d.calls.filter (·.1 != k))
    (mine : ∀ id x, e.registry.records.get? id = some x → id ∉ c.removes) :
    Manning (past ++ [s]) e :=
  h.quiet steady loops cancelled fun id x live hands => .inl (by
    rw [calls]
    exact someLeft (P := (id ∈ ·.removes)) lined found (mine id x live) hands)

theorem arrived (h : Manning past d) (right : SoundRecords e.registry.records e.registry.nextEpoch)
    (apart : e.registry.Apart) {r : Registry} {orders : List LoopOrder}
    (enlists : r.Enlists e.registry orders) (records : r.records = d.registry.records)
    (supervised : r.supervised = d.registry.supervised) (running : r.running = d.registry.running)
    (nextEpoch : r.nextEpoch = d.registry.nextEpoch) (loops : e.loops = (d.startLoops orders).loops)
    (hands : ∀ id, (∃ x ∈ d.calls, id ∈ x.2.removes) → ∃ x ∈ e.calls, id ∈ x.2.removes) :
    Manning (past ++ [s]) e := by
  have table : e.loops = d.loops ++ orders.map fun o => ⟨.ofInstance o.snapshot o.epoch d.now, false⟩ :=
    loops
  have owned : r.Owned := h.owned.within (Nat.le_of_eq nextEpoch.symm)
    (fun _ _ found => supervised ▸ found) fun id x live => ⟨x, records ▸ live, rfl⟩
  refine ⟨?_, fun l mem => ?_, enlists.owned owned apart, fun rests => ?_, fun runs id x live => ?_⟩
  · rw [table, List.map_append, List.map_map]
    refine List.nodup_append.mpr ⟨h.lone, enlists.distinct, ?_⟩
    rintro _ old _ new rfl
    obtain ⟨l, there, same⟩ := List.mem_map.mp old
    obtain ⟨o, order, own⟩ := List.mem_map.mp new
    have early := h.early l there
    have late := (enlists.ordered o order).1
    have both : l.check.epoch = o.epoch := same.trans own.symm
    omega
  · rw [table] at mem
    rcases List.mem_append.mp mem with old | new
    · exact Nat.lt_of_lt_of_le (nextEpoch ▸ h.early l old) enlists.grows
    · obtain ⟨o, order, rfl⟩ := List.mem_map.mp new
      exact (enlists.ordered o order).2.1
  · have rests := enlists.running.symm.trans rests
    obtain ⟨same, none⟩ := enlists.idle rests
    obtain ⟨bare, nobody⟩ := h.resting (running ▸ rests)
    refine ⟨fun id => by rw [same, supervised]; exact bare id, ?_⟩
    rw [table, none, nobody]
    rfl
  · have runs := enlists.running.symm.trans runs
    rcases enlists.records id x live with ⟨was, same⟩ | ⟨_, mans⟩
    · rcases h.manned (running ▸ runs) id x (records ▸ was) with mans | removed | gone
      · refine .inl (mans.still (same.trans (congrArg (·.get? id) supervised)) ?_)
        exact fun l mem _ still => ⟨l, by rw [table]; exact List.mem_append_left _ mem, rfl, rfl, still⟩
      · exact .inr (.inl (hands id removed))
      · refine .inr (.inr ?_)
        rw [forsakenNext]
        exact List.mem_append_left _ gone
    · obtain ⟨entry, order⟩ := mans runs
      have started : ⟨.ofInstance x.snapshot x.epoch d.now, false⟩ ∈ e.loops := by
        rw [table]
        exact List.mem_append_right _ (List.mem_map.mpr ⟨_, order, rfl⟩)
      exact .inl ⟨entry, _, started, right.own id x live, rfl, rfl⟩

theorem stopping (h : Manning past d) {epochs : List Nat}
    (loops : e.loops = (d.cancelLoops epochs).loops) (cancelled : e.cancelled = d.cancelled)
    (running : e.registry.running = d.registry.running)
    (grows : d.registry.nextEpoch ≤ e.registry.nextEpoch)
    (entries : ∀ id epoch, e.registry.supervised.get? id = some epoch →
      d.registry.supervised.get? id = some epoch)
    (records : ∀ id x, e.registry.records.get? id = some x → d.registry.records.get? id = some x)
    (spared : ∀ id x, e.registry.records.get? id = some x →
      (e.registry.supervised.get? id = d.registry.supervised.get? id ∧ x.epoch ∉ epochs) ∨
        Excused (past ++ [s]) e id x.epoch)
    (hands : ∀ id, (∃ x ∈ d.calls, id ∈ x.2.removes) → ∃ x ∈ e.calls, id ∈ x.2.removes) :
    Manning (past ++ [s]) e := by
  refine h.inherited (.cancelling epochs loops (cancelled.trans ·)) running grows entries
    (fun id x live => ⟨x, records id x live, rfl⟩) (fun id x live mans => ?_)
    fun id x _ removed => .inl (hands id removed)
  refine (spared id x live).imp_left fun ⟨same, out⟩ => mans.still same fun l mem mine runs => ?_
  refine ⟨l, ?_, rfl, rfl, runs⟩
  rw [loops]
  refine List.mem_map.mpr ⟨l, mem, if_neg fun stops => out ?_⟩
  exact mine ▸ List.contains_iff_mem.mp stops

theorem probed (h : Manning past d) {epoch : Nat} {l : RunningLoop} {check : Health.CheckLoop}
    (found : d.loop? epoch = some l) (runs : d.stopped l = false)
    (own : check.id = l.check.id ∧ check.epoch = l.check.epoch)
    (loops : e.loops = (d.putLoop { l with check }).loops) (registry : e.registry = d.registry)
    (cancelled : e.cancelled = d.cancelled) (calls : e.calls = d.calls) :
    Manning (past ++ [s]) e := by
  have there := List.mem_of_find?_eq_some found
  refine h.inherited (.put found runs own.2 loops cancelled) (by rw [registry])
    (Nat.le_of_eq (by rw [registry])) (by rw [registry]; exact fun _ _ => id)
    (by rw [registry]; exact fun _ x live => ⟨x, live, rfl⟩) (fun id x _ mans => .inl ?_)
    fun _ _ _ hands => .inl (by rw [calls]; exact hands)
  refine mans.still (by rw [registry]) fun m mem mine still => ?_
  by_cases same : m.check.epoch = check.epoch
  · cases h.sole mem there (same.trans own.2)
    refine ⟨{ l with check }, ?_, own.1, own.2, still⟩
    rw [loops]
    exact List.mem_map.mpr ⟨l, mem, if_pos (by simp [own.2])⟩
  · refine ⟨m, ?_, rfl, rfl, still⟩
    rw [loops]
    exact List.mem_map.mpr ⟨m, mem, if_neg (by simpa using same)⟩

theorem ceased (h : Manning past d) (unshut : d.cancelled = false) {epoch : Nat} {l : RunningLoop}
    (found : d.loop? epoch = some l) (stops : d.stopped l = true) :
    Manning (past ++ [s]) (d.dropLoop epoch) := by
  have there := List.mem_of_find?_eq_some found
  have its : l.check.epoch = epoch := by simpa using List.find?_some found
  have cancelled : l.cancelled = true := by simpa [stopped, unshut] using stops
  refine h.inherited (.dropped epoch) rfl (Nat.le_refl _) (fun _ _ => id)
    (fun _ x live => ⟨x, live, rfl⟩) (fun id x _ mans => .inl (mans.still rfl ?_))
    fun _ _ _ hands => .inl hands
  intro m mem mine still
  refine ⟨m, List.mem_filter.mpr ⟨mem, bne_iff_ne.mpr fun same => ?_⟩, rfl, rfl, still⟩
  cases h.sole mem there (same.trans its.symm)
  rw [cancelled] at still
  cases still

theorem launched (h : Manning past d) (balanced : Balanced past d)
    (rests : d.registry.running = false) : Manning (past ++ [s]) (d.launch k) := by
  obtain ⟨bare, none⟩ := h.resting rests
  have sound := balanced.custody.sound
  have table : (d.launch k).registry.supervised =
      Registry.putAll d.registry.supervised d.registry.untended := rfl
  have loops : (d.launch k).loops = d.loops ++ d.registry.run.2.map fun o =>
      ⟨.ofInstance o.snapshot o.epoch d.now, false⟩ := rfl
  have untended {id : String} {x : Record} (live : d.registry.records.get? id = some x) :
      (id, x) ∈ d.registry.untended :=
    List.mem_filter.mpr ⟨Table.memOfGet live, by simp [(Table.absentIff _ _).mpr (bare id)]⟩
  refine ⟨?_, fun l mem => ?_, fun id epoch found => ?_, nofun, fun _ id x live => .inl ⟨?_, ?_⟩⟩
  · rw [loops, none, List.nil_append, List.map_map]
    exact Registry.runDistinct sound.distinct balanced.apart
  · rw [loops, none, List.nil_append, Registry.runIs, List.map_map] at mem
    obtain ⟨⟨id, x⟩, entry, rfl⟩ := List.mem_map.mp mem
    exact sound.past id x (Registry.memUntended sound.distinct entry).1
  · rw [table] at found
    rcases Registry.putAllFound found with old | ⟨x, entry, rfl⟩
    · rw [bare] at old
      cases old
    · have live := (Registry.memUntended sound.distinct entry).1
      exact ⟨sound.past id x live, fun other y there => balanced.apart other id y x there live⟩
  · rw [table]
    exact Registry.putAllHas (Registry.untendedDistinct sound.distinct) (untended live)
  · refine ⟨⟨.ofInstance x.snapshot x.epoch d.now, false⟩, ?_, sound.own id x live, rfl, rfl⟩
    rw [loops, Registry.runIs, List.map_map]
    exact List.mem_append_right _ (List.mem_map.mpr ⟨_, untended live, rfl⟩)

theorem swept (h : Manning past d) (custody : d.Custody) {timeout : Nat} {at_ : Timestamp}
    {took : List Expiry} (expires : d.registry.expire timeout at_ = (e.registry, took))
    (loops : e.loops = (d.cancelLoops (took.filterMap Expiry.loop)).loops)
    (cancelled : e.cancelled = d.cancelled)
    (hands : ∀ id, (∃ x ∈ d.calls, id ∈ x.2.removes) → ∃ x ∈ e.calls, id ∈ x.2.removes) :
    Manning (past ++ [s]) e := by
  have dismisses := expireDismisses custody expires
  obtain ⟨loses, epochs⟩ := Registry.expireLoses custody.sound expires
  have stays (id : String) (x : Record) (live : e.registry.records.get? id = some x) :
      id ∉ took.map (·.snapshot.id) := by
    intro gone
    obtain ⟨y, mem, rfl⟩ := List.mem_map.mp gone
    rw [loses.left _ (List.mem_map_of_mem mem)] at live
    cases live
  have records (id : String) (x : Record) (live : e.registry.records.get? id = some x) :
      d.registry.records.get? id = some x := by
    rw [← loses.others id (by simpa using stays id x live)]
    exact live
  refine h.stopping loops cancelled dismisses.running (Nat.le_of_eq epochs.symm) dismisses.entries
    records (fun id x live => .inl ⟨dismisses.others id (stays id x live), fun stops => ?_⟩) hands
  obtain ⟨y, mem, loop⟩ := List.mem_filterMap.mp stops
  obtain ⟨_, own⟩ := h.owned _ _ (dismisses.loops y mem _ loop)
  have same := own id x (records id x live) rfl
  exact stays id x live (same ▸ List.mem_map_of_mem mem)

theorem removing (h : Manning past d) {target : String} {x : CallId × Call}
    (registry : e.registry = { d.registry.park target with
      supervised := d.registry.supervised.remove target })
    (loops : e.loops = (d.cancelLoops (d.registry.supervised.get? target).toList).loops)
    (cancelled : e.cancelled = d.cancelled) (calls : e.calls = d.calls ++ [x])
    (takes : target ∈ x.2.removes) : Manning (past ++ [s]) e := by
  have table (id : String) : e.registry.supervised.get? id =
      if id = target then none else d.registry.supervised.get? id := by
    rw [registry]
    exact Table.getRemove _ _ _
  have records : e.registry.records = d.registry.records := by rw [registry]; rfl
  refine h.stopping loops cancelled (by rw [registry]; rfl) (by rw [registry]; exact Nat.le_refl _)
    (fun id epoch found => ?_) (fun _ _ live => records ▸ live) (fun id y there => ?_)
    fun id ⟨z, mem, hands⟩ => ⟨z, by rw [calls]; exact List.mem_append_left _ mem, hands⟩
  · rw [table] at found
    split at found
    · cases found
    · exact found
  · by_cases own : id = target
    · subst own
      refine .inr (.inl ⟨x, ?_, takes⟩)
      rw [calls]
      exact List.mem_append_right _ (List.mem_singleton_self _)
    · refine .inl ⟨(table id).trans (if_neg own), fun stops => own ?_⟩
      exact (h.owned target y.epoch (Option.mem_toList.mp stops)).2 id y (records ▸ there) rfl

theorem parted (h : Manning past d) (lined : d.Lined) {target : String} {y : Record}
    (found : d.call? k = some (.leaving target)) (live : d.registry.records.get? target = some y)
    (registry : e.registry = (d.registry.finishRemoval target).1) (loops : e.loops = d.loops)
    (cancelled : e.cancelled = d.cancelled) (calls : e.calls = (d.moveTo k c').calls) :
    Manning (past ++ [s]) e := by
  obtain ⟨records, _, nextEpoch⟩ := Registry.leaveRecords live
  have stayed {id : String} {x : Record}
      (there : (d.registry.finishRemoval target).1.records.get? id = some x) :
      id ≠ target ∧ d.registry.records.get? id = some x := by
    rw [records, Table.getRemove] at there
    split at there
    · cases there
    · exact ⟨‹_›, there⟩
  refine h.moved lined found ?_ loops cancelled calls fun id x there mine => ?_
  · rw [registry]
    exact ⟨Registry.leaveSupervised live, leaveRunning live, Nat.le_of_eq nextEpoch.symm,
      fun id x there => ⟨x, (stayed there).2, rfl⟩⟩
  · exact absurd (List.mem_singleton.mp mine) (stayed (registry ▸ there)).1

theorem dropped (h : Manning past d) (lined : d.Lined) (found : d.call? k = some c) :
    Manning (past ++ [⟨d, .abandon k, e⟩])
      { d with registry := c.guarded?.elim d.registry d.registry.release,
               calls := d.calls.filter (·.1 != k) } := by
  have steady : Steady d.registry (c.guarded?.elim d.registry d.registry.release) := by
    cases c.guarded? <;> exact .same rfl rfl rfl fun _ => rfl
  refine h.quiet steady rfl rfl fun id x live hands => ?_
  by_cases mine : id ∈ c.removes
  · have live : d.registry.records.get? id = some x := by
      cases guarded : c.guarded? <;> simpa [guarded, Registry.release] using live
    refine .inr ?_
    rw [forsakenNext]
    refine List.mem_append_right _ (List.mem_filterMap.mpr ⟨id, ?_, by simp [live]⟩)
    simpa [Stride.dropped?, found] using mine
  · exact .inl (someLeft (P := (id ∈ ·.removes)) lined found mine hands)

end Manning

theorem manningStep (balanced : Balanced past d) (unshut : d.Unshut)
    (probes : d.settings.loop.interval ≠ 0) (h : Manning past d) (stays : a ≠ .begin .shutdown)
    (next : d.step a = some e) : Manning (past ++ [⟨d, a, e⟩]) e := by
  have custody := balanced.custody
  have lined := custody.lined
  have right := (custodyStep custody next).sound
  have apart := (balancedStep (s := ⟨d, a, e⟩) balanced next).apart
  have same (r : Registry) : Steady r r := .same rfl rfl rfl fun _ => rfl
  have released (id : String) : Steady d.registry (d.registry.release id) :=
    .same rfl rfl rfl fun _ => rfl
  have closing {k : CallId} {c : Call} (found : d.call? k = some c) (closes : c.closes = true) :
      Manning (past ++ [⟨d, a, e⟩]) e := by
    have open_ := unshut.open_ _ (memOfCall found)
    rw [closes] at open_
    cases open_
  cases stepDeed next with
  | heard => exact h.aside (.same rfl rfl rfl (Registry.touchEpochs _ _ _)) rfl rfl rfl
  | opened | starting | ticked => exact h.opened (same _) rfl rfl rfl
  | removing => exact h.removing rfl rfl rfl rfl (List.mem_singleton_self _)
  | closing => exact absurd rfl stays
  | reserved found =>
    exact h.moved lined found (.same rfl rfl rfl fun _ => rfl) rfl rfl rfl fun _ _ _ => id
  | @entered k i found =>
    exact h.arrived right apart (Registry.enterEnlists (commitFree custody found)) rfl rfl rfl rfl
      rfl fun id => someMoved (P := (id ∈ ·.removes)) lined found nofun
  | left found live => exact h.parted lined found live rfl rfl rfl rfl
  | @missed k target found gone =>
    refine h.left lined found (released target) rfl rfl rfl fun id x there mine => ?_
    have there : d.registry.records.get? id = some x := there
    rw [List.mem_singleton.mp mine, gone] at there
    cases there
  | foundNone found expires =>
    exact h.swept custody expires rfl rfl fun id =>
      someLeft (P := (id ∈ ·.removes)) lined found List.not_mem_nil
  | collected found expires =>
    exact h.swept custody expires rfl rfl fun id =>
      someMoved (P := (id ∈ ·.removes)) lined found nofun
  | releasing found => exact h.moved lined found (released _) rfl rfl rfl fun _ _ _ => id
  | @loaded k stored at_ found =>
    exact h.arrived right apart (Registry.loadEnlists d.registry at_ stored) rfl rfl rfl rfl rfl
      fun id => someMoved (P := (id ∈ ·.removes)) lined found nofun
  | launched found => exact h.launched balanced (unshut.launches _ (memOfCall found) rfl).2
  | drained found | stilled found | joined found => exact closing found rfl
  | turnedAway found | expiredLast found | silent found | unlisted found =>
    exact h.left lined found (same _) rfl rfl rfl fun _ _ _ => List.not_mem_nil
  | unsaved found =>
    exact h.left lined found (released _) rfl rfl rfl fun _ _ _ => List.not_mem_nil
  | quieted found | hushed found | expired found | told found | saved found | deleted found
  | purged found | listed found | given found =>
    exact h.moved lined found (same _) rfl rfl rfl fun _ _ _ => id
  | dropped found => exact h.dropped lined found
  | passed =>
    obtain ⟨epochs, nextEpoch⟩ := Registry.passedEpochs d.registry _ _ _
    exact h.aside (.same (Registry.passedSupervised _ _ _ _) (passedRunning _ _ _ _) nextEpoch epochs)
      rfl rfl rfl
  | moved ofReport live =>
    exact h.opened (.same rfl rfl rfl (Registry.putEpochs live _)) rfl rfl rfl
  | probing found runs begun =>
    exact h.probed found runs (Health.CheckLoop.beginKeepsOwner begun) rfl rfl rfl rfl
  | probed found runs ended =>
    exact h.probed found runs (Health.CheckLoop.endKeepsOwner ended) rfl rfl rfl rfl
  | ceased found ends => exact h.ceased unshut.cancelled found (ends.resolve_right probes)
  | reordered perm =>
    exact h.aside (.same rfl rfl rfl
      fun id => congrArg _ (Table.getPerm custody.sound.distinct perm id)) rfl rfl rfl
  | _ => exact h.aside (same _) rfl rfl rfl

structure Watched (settings : DirectorySettings) (past : List Stride) (d : Directory) : Prop where
  settled : d.settings = settings
  balanced : Balanced past d
  unshut : d.Unshut
  manning : Manning past d

theorem emptyWatched (settings : DirectorySettings) : Watched settings [] (empty settings) where
  settled := rfl
  balanced := emptyBalanced settings
  unshut := emptyUnshut settings
  manning := emptyManning settings

theorem watchedStep {settings : DirectorySettings} (probes : settings.health.interval ≠ 0)
    (h : Watched settings past d) (stays : a ≠ .begin .shutdown) (next : d.step a = some e) :
    Watched settings (past ++ [⟨d, a, e⟩]) e where
  settled := (stepSettings next).trans h.settled
  balanced := balancedStep h.balanced next
  unshut := unshutStep h.balanced.custody h.unshut stays next
  manning := manningStep h.balanced h.unshut (h.settled ▸ probes) h.manning stays next

end Directory
end ServiceDirectory
