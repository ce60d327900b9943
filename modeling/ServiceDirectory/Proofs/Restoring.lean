import ServiceDirectory.Proofs.Ledger
import ServiceDirectory.Proofs.Stock

/-! What a bootstrap makes live. It reads the store first and takes the lock later, and parks no id in
between. What it was listed is still stored when it comes to load it, or the id is taken, as long as
nobody deletes an id that a bootstrap has listed. -/
namespace ServiceDirectory
open Registry (Gains Loses)

namespace Call

def lists : Call → List Instance
  | .loading stored _ => stored
  | _ => []

def erased : Call → List String
  | .leaving id => [id]
  | .releasing round => [round.current.id]
  | _ => []

def saves : Call → List String
  | .saving i => [i.id]
  | _ => []

def enters : Call → List String
  | .entering i => [i.id]
  | _ => []

def deletes? (c : Call) : Option String :=
  match c.storeWork? with
  | some (.delete id) => some id
  | _ => none

theorem savesParked {c : Call} {id : String} (mem : id ∈ c.saves) : id ∈ c.parks := by
  cases c with
  | saving i => exact mem
  | _ => cases mem

theorem erasedParked {c : Call} {id : String} (mem : id ∈ c.erased) : id ∈ c.parks := by
  cases c with
  | leaving target => exact mem
  | releasing round => exact List.mem_cons.mpr (.inl (List.mem_singleton.mp mem))
  | _ => cases mem

end Call

namespace Stride

def deletes? (s : Stride) : Option String :=
  match s.action with
  | .settle k _ => (s.before.call? k).bind Call.deletes?
  | _ => none

/-- No bootstrap has listed the id that is deleted, unless it has loaded what it has listed. -/
def DeletesApart (s : Stride) : Prop :=
  ∀ x ∈ s.before.calls, ∀ i ∈ x.2.lists, s.deletes? ≠ some i.id

instance (s : Stride) : Decidable s.DeletesApart :=
  inferInstanceAs (Decidable (∀ x ∈ s.before.calls, ∀ i ∈ x.2.lists, s.deletes? ≠ some i.id))

def saves? (s : Stride) : Option String :=
  match s.action with
  | .settle k none => (s.before.call? k).bind fun
    | .saving i => some i.id
    | _ => none
  | _ => none

end Stride

namespace Directory
variable {d e : Directory} {a : Action} {k : CallId} {c c' : Call} {id : String}

structure Taken (d : Directory) (id : String) : Prop where
  busy : d.Lives id ∨ id ∈ d.registry.inFlight
  unsaved : ∀ x ∈ d.calls, id ∉ x.2.saves

theorem Taken.next (h : d.Taken id)
    (busy : d.Lives id ∨ id ∈ d.registry.inFlight → e.Lives id ∨ id ∈ e.registry.inFlight)
    (calls : d.Newly (id ∉ ·.saves) e) : e.Taken id :=
  ⟨busy h.busy, fun x mem => (calls x mem).elim (h.unsaved x) fun none => none⟩

theorem busyReleased {other : String} (apart : id ≠ other) :
    id ∈ d.registry.inFlight → id ∈ (d.registry.release other).inFlight :=
  fun busy => (Registry.memRelease _ _ _).mpr ⟨busy, apart⟩

theorem busyExpired (custody : d.Custody) {at_ : Timestamp} {s : Registry} {took : List Expiry}
    (expires : d.registry.expire d.settings.heartbeatTimeout at_ = (s, took))
    (busy : d.Lives id ∨ id ∈ d.registry.inFlight) :
    (s.records.get? id).isSome ∨ id ∈ s.inFlight := by
  have parks := Registry.expelAllParks custody.sound
    (d.registry.victims d.settings.heartbeatTimeout at_) id
  rw [← Registry.expire, expires] at parks
  rcases busy with live | busy
  · exact (livesExpired custody expires live).imp_right fun gone => parks.mpr (.inr gone)
  · exact .inr (parks.mpr (.inl busy))

theorem guardedLives (removing : d.Removing) (unsaved : ∀ x ∈ d.calls, id ∉ x.2.saves)
    (found : d.call? k = some c) (guarded : c.guarded? = some id) : d.Lives id := by
  have removes (mine : id ∈ c.removes) : d.Lives id := (Table.holdsIff _ _).mp
    (removing id (List.mem_flatMap.mpr ⟨_, memOfCall found, mine⟩))
  cases c with
  | saving i =>
    cases guarded
    exact absurd (List.mem_singleton_self _) (unsaved _ (memOfCall found))
  | quieting target loop => cases guarded; exact removes (List.mem_singleton_self _)
  | deleting target => cases guarded; exact removes (List.mem_singleton_self _)
  | _ => cases guarded

theorem Taken.left (h : d.Taken id) {target : String} {x : Record} (apart : id ≠ target)
    (live : d.registry.records.get? target = some x)
    (registry : e.registry = (d.registry.finishRemoval target).1)
    (calls : d.Newly (fun c => id ∉ c.saves) e) : e.Taken id := by
  obtain ⟨records, inFlight, _⟩ := Registry.leaveRecords live
  refine h.next (.imp (fun live => ?_) fun busy => ?_) calls
  · rw [Lives, registry, records, Table.getRemove, if_neg apart]
    exact live
  · rw [registry, inFlight]
    exact busyReleased apart busy

theorem Taken.dropped (h : d.Taken id) (removing : d.Removing) (found : d.call? k = some c) :
    Taken { d with registry := c.guarded?.elim d.registry d.registry.release,
                   calls := d.calls.filter (·.1 != k) } id := by
  refine h.next (fun busy => ?_) (.left rfl)
  cases guarded : c.guarded? with
  | none => exact busy
  | some target =>
    by_cases own : id = target
    · subst own
      have live : d.Lives id := guardedLives removing h.unsaved found guarded
      exact .inl live
    · exact busy.imp_right (busyReleased own)

theorem takenStep (custody : d.Custody) (removing : d.Removing) (h : d.Taken id)
    (kept : ∀ x ∈ d.calls, id ∉ x.2.erased) (works : a.fails = false)
    (next : d.step a = some e) : e.Taken id := by
  have erases {k : CallId} {c : Call} (found : d.call? k = some c) : id ∉ c.erased :=
    kept _ (memOfCall found)
  cases stepDeed next with
  | heard => exact h.next (.imp_left (livesTouched _)) (.same rfl)
  | opened opens => exact h.next (·) (.opened rfl (by cases opens <;> exact List.not_mem_nil))
  | removing => exact h.next (.imp_right (List.mem_cons_of_mem _)) (.opened rfl List.not_mem_nil)
  | starting | closing | ticked => exact h.next (·) (.opened rfl List.not_mem_nil)
  | @reserved k i found free =>
    refine h.next (.imp_right (List.mem_cons_of_mem _)) (.moved rfl fun mine => ?_)
    have own : id = i.id := List.mem_singleton.mp mine
    obtain ⟨gone, out⟩ := (Registry.freeIff d.registry i.id).mp free
    rcases h.busy with live | busy
    · rw [Lives, own, gone] at live
      cases live
    · exact out (own ▸ busy)
  | @entered k i found =>
    refine h.next (fun busy => ?_) (.moved rfl List.not_mem_nil)
    by_cases mine : id = i.id
    · exact .inl (Table.somePut (.inr mine))
    · exact busy.imp (fun live => Table.somePut (.inl live)) (busyReleased mine)
  | left found live =>
    exact h.left (by simpa [Call.erased] using erases found) live rfl
      (.moved rfl List.not_mem_nil)
  | @missed k target found =>
    have apart : id ≠ target := by simpa [Call.erased] using erases found
    exact h.next (.imp_right (busyReleased apart)) (.left rfl)
  | foundNone found expires => exact h.next (busyExpired custody expires) (.left rfl)
  | collected found expires =>
    exact h.next (busyExpired custody expires) (.moved rfl List.not_mem_nil)
  | @releasing k round found =>
    have apart : id ≠ round.current.id := by simpa [Call.erased] using erases found
    exact h.next (.imp_right (busyReleased apart)) (.moved rfl List.not_mem_nil)
  | @loaded k stored at_ found =>
    have same := (Registry.loadGains d.registry at_ stored).inFlight
    exact h.next (.imp (livesLoaded at_ stored) fun busy => by rwa [← same] at busy)
      (.moved rfl List.not_mem_nil)
  | quieted | hushed | expired | told | drained | stilled | saved | deleted | purged | listed
  | given => exact h.next (·) (.moved rfl List.not_mem_nil)
  | turnedAway | expiredLast | silent | launched | joined | unlisted =>
    exact h.next (·) (.left rfl)
  | unsaved => cases works
  | dropped found => exact h.dropped removing found
  | passed =>
    exact h.next (.imp (livesPassed _ _)
      (congrArg (id ∈ ·) (passedInFlight d.registry _ _ _)).mpr) (.same rfl)
  | moved =>
    exact h.next (.imp_left fun live => Table.somePut (.inl live)) (.opened rfl List.not_mem_nil)
  | reordered perm =>
    have same := Table.getPerm custody.sound.distinct perm id
    exact h.next (.imp_left fun live => (congrArg Option.isSome same).trans live) (.same rfl)
  | _ => exact h.next (·) (.same rfl)

structure Relisted (d : Directory) : Prop where
  keyed : Keyed d.store
  listed : ∀ x ∈ d.calls, ∀ i ∈ x.2.lists, d.store.get? i.id = some i ∨ d.Taken i.id
  erased : ∀ x ∈ d.calls, ∀ id ∈ x.2.erased, d.store.get? id = none
  apart : ∀ x ∈ d.calls, ∀ id ∈ x.2.erased, ∀ y ∈ d.calls, ∀ i ∈ y.2.lists, i.id ≠ id

theorem withStoreRelisted {settings : DirectorySettings} {store : Table Instance}
    (keyed : Keyed store) : (withStore settings store).Relisted where
  keyed := keyed
  listed x mem := by cases mem
  erased x mem := by cases mem
  apart x mem := by cases mem

namespace Relisted

theorem still (h : d.Relisted) (custody : d.Custody) (removing : d.Removing)
    (works : a.fails = false) (next : d.step a = some e) (store : e.store = d.store)
    (calls : d.Newly (fun c => c.lists = [] ∧ c.erased = []) e) : e.Relisted := by
  have lists {x : CallId × Call} (mem : x ∈ e.calls) {i : Instance} (own : i ∈ x.2.lists) :
      x ∈ d.calls := (calls x mem).resolve_right fun bare => by rw [bare.1] at own; cases own
  have erases {x : CallId × Call} (mem : x ∈ e.calls) {id : String} (own : id ∈ x.2.erased) :
      x ∈ d.calls := (calls x mem).resolve_right fun bare => by rw [bare.2] at own; cases own
  refine ⟨store ▸ h.keyed, fun x mem i own => ?_, fun x mem id own => ?_,
    fun x mem id own y there i mine => h.apart x (erases mem own) id own y (lists there mine) i mine⟩
  · rw [store]
    refine (h.listed x (lists mem own) i own).imp_right fun taken => ?_
    exact takenStep custody removing taken
      (fun y hy its => h.apart y hy _ its x (lists mem own) i own rfl) works next
  · rw [store]
    exact h.erased x (erases mem own) id own

theorem settled (h : d.Relisted) (custody : d.Custody) (removing : d.Removing)
    (works : a.fails = false) (next : d.step a = some e) (calls : e.calls = (d.moveTo k c').calls)
    (keyed : Keyed e.store)
    (listed : ∀ x ∈ d.calls, ∀ i ∈ x.2.lists, d.store.get? i.id = some i →
      e.store.get? i.id = some i ∨ e.Taken i.id)
    (erased : ∀ x ∈ d.calls, x.1 ≠ k → ∀ id ∈ x.2.erased, d.store.get? id = none →
      e.store.get? id = none)
    (lists : ∀ i ∈ c'.lists, c'.erased = [] ∧ e.store.get? i.id = some i ∧
      ∀ x ∈ d.calls, i.id ∉ x.2.erased)
    (erases : ∀ id ∈ c'.erased, e.store.get? id = none ∧
      ∀ x ∈ d.calls, ∀ i ∈ x.2.lists, i.id ≠ id) : e.Relisted := by
  have split : ∀ x ∈ e.calls, (x ∈ d.calls ∧ x.1 ≠ k) ∨ x = (k, c') := by
    rw [calls]
    exact eachMoved (fun x mem other => .inl ⟨mem, other⟩) (.inr rfl)
  refine ⟨keyed, fun x mem i own => ?_, fun x mem id own => ?_, fun x mem id own y there i mine => ?_⟩
  · rcases split x mem with ⟨old, _⟩ | rfl
    · rcases h.listed x old i own with stored | taken
      · exact listed x old i own stored
      · exact .inr (takenStep custody removing taken
          (fun y hy its => h.apart y hy _ its x old i own rfl) works next)
    · exact .inl (lists i own).2.1
  · rcases split x mem with ⟨old, other⟩ | rfl
    · exact erased x old other id own (h.erased x old id own)
    · exact (erases id own).1
  · rcases split x mem with ⟨old, _⟩ | rfl <;> rcases split y there with ⟨before, _⟩ | rfl
    · exact h.apart x old id own y before i mine
    · exact fun same => (lists i mine).2.2 x old (same ▸ own)
    · exact (erases id own).2 y before i mine
    · rw [(lists i mine).1] at own
      cases own

theorem saved (h : d.Relisted) (custody : d.Custody) (removing : d.Removing) {i : Instance}
    (found : d.call? k = some (.saving i)) (works : a.fails = false) (next : d.step a = some e)
    (store : e.store = d.store.put i.id i) (calls : e.calls = (d.moveTo k (.entering i)).calls)
    (registry : e.registry = d.registry) : e.Relisted := by
  have known := memOfCall found
  have mine : i.id ∈ (Call.saving i).parks := List.mem_singleton_self _
  have kept {id : String} (other : id ≠ i.id) : e.store.get? id = d.store.get? id := by
    rw [store]
    exact Table.getPutOther _ _ other
  refine h.settled custody removing works next calls (by rw [store]; exact h.keyed.put i)
    (fun x mem j own stored => ?_) (fun x mem other id own gone => ?_) (fun _ own => by cases own)
    fun _ own => by cases own
  · by_cases same : j.id = i.id
    · -- Whoever was listed the id finds it taken from now on.
      have busy : i.id ∈ d.registry.inFlight :=
        custody.kept.inFlight _ (List.mem_flatMap.mpr ⟨_, known, mine⟩)
      refine .inr ⟨.inr (by rw [same, registry]; exact busy), ?_⟩
      rw [calls, same]
      exact eachMoved (fun y there other saves =>
        parksApart custody known there (Ne.symm other) mine (Call.savesParked saves))
        List.not_mem_nil
    · exact .inl ((kept same).trans stored)
  · refine (kept fun same => ?_).trans gone
    exact parksApart custody known mem (Ne.symm other) mine (same ▸ Call.erasedParked own)

theorem deleted (h : d.Relisted) (custody : d.Custody) (removing : d.Removing) {id : String}
    (deletes : ∀ x ∈ d.calls, ∀ i ∈ x.2.lists, i.id ≠ id) (works : a.fails = false)
    (next : d.step a = some e) (store : e.store = d.store.remove id)
    (calls : e.calls = (d.moveTo k c').calls) (lists : c'.lists = []) (erased : c'.erased = [id]) :
    e.Relisted := by
  have gone (other : String) : e.store.get? other =
      if other = id then none else d.store.get? other := by rw [store, Table.getRemove]
  refine h.settled custody removing works next calls (by rw [store]; exact h.keyed.remove id)
    (fun x mem i own stored => .inl ?_) (fun x mem _ other _ none => ?_)
    (fun _ own => by rw [lists] at own; cases own) fun other own => ?_
  · rw [gone, if_neg (deletes x mem i own), stored]
  · rw [gone, none, ite_self]
  · rw [erased] at own
    cases List.mem_singleton.mp own
    exact ⟨by rw [gone, if_pos rfl], deletes⟩

end Relisted

theorem relistedStep (custody : d.Custody) (removing : d.Removing) (h : d.Relisted)
    (faithful : a.faithful = true) (works : a.fails = false)
    (apart : (⟨d, a, e⟩ : Stride).DeletesApart) (next : d.step a = some e) : e.Relisted := by
  have still (store : e.store = d.store)
      (calls : d.Newly (fun c => c.lists = [] ∧ c.erased = []) e) : e.Relisted :=
    h.still custody removing works next store calls
  cases stepDeed next with
  | opened opens => exact still rfl (.opened rfl (by cases opens <;> exact ⟨rfl, rfl⟩))
  | removing | starting | closing | ticked | moved => exact still rfl (.opened rfl ⟨rfl, rfl⟩)
  | turnedAway | missed | foundNone | expiredLast | silent | launched | joined | unlisted
  | dropped => exact still rfl (.left rfl)
  | reserved | entered | quieted | left | collected | hushed | releasing | expired | loaded | told
  | drained | stilled => exact still rfl (.moved rfl ⟨rfl, rfl⟩)
  | saved found => exact h.saved custody removing found works next rfl rfl rfl
  | unsaved => cases works
  | @deleted k id failure store found stores =>
    have deletes : ∀ x ∈ d.calls, ∀ i ∈ x.2.lists, i.id ≠ id := fun x mem i own same =>
      apart x mem i own (by simp [Stride.deletes?, found, Call.deletes?, Call.storeWork?, same])
    cases failure with
    | some failure => cases works
    | none => exact h.deleted custody removing deletes works next stores rfl rfl rfl
  | @purged k round failure store found stores =>
    have deletes : ∀ x ∈ d.calls, ∀ i ∈ x.2.lists, i.id ≠ round.current.id := fun x mem i own same =>
      apart x mem i own (by simp [Stride.deletes?, found, Call.deletes?, Call.storeWork?, same])
    cases failure with
    | some failure => cases works
    | none => exact h.deleted custody removing deletes works next stores rfl rfl rfl
  | @listed k found =>
    have stored {i : Instance} (mem : i ∈ d.storeList) : d.store.get? i.id = some i :=
      h.keyed.values (List.mem_mergeSort.mp mem)
    refine h.settled custody removing works next rfl h.keyed (fun _ _ _ _ => .inl)
      (fun _ _ _ _ _ => id) (fun i own => ⟨rfl, stored own, fun x mem erases => ?_⟩)
      fun _ own => by cases own
    have gone := h.erased x mem _ erases
    rw [stored own] at gone
    cases gone
  | given | stocked => cases faithful
  | _ => exact still rfl (.same rfl)

def Wiped (d : Directory) (id : String) : Prop :=
  d.store.get? id = none ∧ ∀ x ∈ d.calls, ∀ i ∈ x.2.lists, i.id ≠ id

structure Gone (d : Directory) (id : String) : Prop where
  away : d.registry.records.get? id = none
  unentered : ∀ x ∈ d.calls, id ∉ x.2.enters
  cleared : d.Wiped id ∨ (id ∈ d.registry.inFlight ∧ ∀ x ∈ d.calls, id ∉ x.2.saves)

structure Harmless (d : Directory) (id : String) (c : Call) : Prop where
  lists : c.lists = []
  enters : id ∉ c.enters
  saves : id ∈ c.saves → d.Wiped id

theorem Harmless.bare (lists : c.lists = []) (enters : c.enters = []) (saves : c.saves = []) :
    d.Harmless id c := ⟨lists, by simp [enters], by simp [saves]⟩

theorem Relisted.wiped (h : d.Relisted) (found : d.call? k = some c) (mine : id ∈ c.erased) :
    d.Wiped id :=
  ⟨h.erased _ (memOfCall found) id mine, h.apart _ (memOfCall found) id mine⟩

theorem Gone.next (h : d.Gone id) (away : e.registry.records.get? id = none)
    (busy : id ∈ d.registry.inFlight → id ∈ e.registry.inFlight ∨ d.Wiped id)
    (store : d.store.get? id = none → e.store.get? id = none)
    (calls : d.Newly (d.Harmless id) e) : e.Gone id := by
  have wiped (was : d.Wiped id) : e.Wiped id := by
    refine ⟨store was.1, fun x mem i own => ?_⟩
    rcases calls x mem with old | new
    · exact was.2 x old i own
    · rw [new.lists] at own
      cases own
  refine ⟨away, fun x mem => (calls x mem).elim (h.unentered x) Harmless.enters, ?_⟩
  by_cases was : d.Wiped id
  · exact .inl (wiped was)
  · obtain ⟨there, unsaved⟩ := h.cleared.resolve_left was
    refine .inr ⟨(busy there).resolve_right was, fun x mem saves => ?_⟩
    rcases calls x mem with old | new
    · exact unsaved x old saves
    · exact was (new.saves saves)

section Away
variable {r : Registry}

theorem awayTouched (away : r.records.get? id = none) (other : String) (at_ : Timestamp) :
    (r.touch other at_).records.get? id = none := by
  simp only [Registry.touch, Table.getAdjust, away, Option.map_none, ite_self]

theorem awayPassed (away : r.records.get? id = none) (other : String) (epoch : Nat)
    (at_ : Timestamp) : (r.passed other epoch at_).records.get? id = none := by
  unfold Registry.passed
  split
  · split
    · exact awayTouched away other at_
    · exact away
  · exact away

theorem awayExpired (custody : d.Custody) {at_ : Timestamp} {took : List Expiry}
    (expires : d.registry.expire d.settings.heartbeatTimeout at_ = (r, took))
    (away : d.registry.records.get? id = none) :
    r.records.get? id = none ∧ (id ∈ d.registry.inFlight → id ∈ r.inFlight) := by
  have loses := (Registry.expireLoses custody.sound expires).1
  have parks := Registry.expelAllParks custody.sound
    (d.registry.victims d.settings.heartbeatTimeout at_) id
  rw [← Registry.expire, expires] at parks
  refine ⟨?_, fun busy => parks.mpr (.inl busy)⟩
  by_cases gone : id ∈ (took.map (·.snapshot)).map (·.id)
  · obtain ⟨i, mem, rfl⟩ := List.mem_map.mp gone
    exact loses.left i mem
  · exact (loses.others id gone).trans away

theorem awayDeleted {store left : Table Instance} {failure : Option Failure} {other : String}
    (stores : left = if failure.isNone then store.remove other else store)
    (away : store.get? id = none) : left.get? id = none := by
  subst stores
  split
  · rw [Table.getRemove, away, ite_self]
  · exact away

end Away

theorem Gone.left (h : d.Gone id) {target : String} {x : Record}
    (live : d.registry.records.get? target = some x)
    (registry : e.registry = (d.registry.finishRemoval target).1) (store : e.store = d.store)
    (calls : d.Newly (d.Harmless id) e) : e.Gone id := by
  obtain ⟨records, inFlight, _⟩ := Registry.leaveRecords live
  have other : id ≠ target := fun same => by
    rw [← same, h.away] at live
    cases live
  refine h.next ?_ (fun still => .inl ?_) (store ▸ ·) calls
  · rw [registry, records, Table.getRemove, if_neg other]
    exact h.away
  · rw [registry, inFlight]
    exact busyReleased other still

theorem Gone.released (h : d.Gone id) (relisted : d.Relisted) (found : d.call? k = some c)
    {target : String} (erased : target ∈ c.erased)
    (registry : e.registry = d.registry.release target) (store : e.store = d.store)
    (calls : d.Newly (d.Harmless id) e) : e.Gone id := by
  refine h.next (registry ▸ h.away) (fun still => ?_) (store ▸ ·) calls
  by_cases mine : id = target
  · exact .inr (relisted.wiped found (mine ▸ erased))
  · rw [registry]
    exact .inl (busyReleased mine still)

theorem Gone.loaded (h : d.Gone id) {stored : List Instance} {at_ : Timestamp}
    (found : d.call? k = some (.loading stored at_)) : (d.load k stored at_).Gone id := by
  have gains := Registry.loadGains d.registry at_ stored
  have out : id ∉ (d.registry.load at_ stored).2.1.map (·.id) := fun came => by
    obtain ⟨j, mem, own⟩ := List.mem_map.mp came
    rcases h.cleared with wiped | busy
    · obtain ⟨i, listed, same, _⟩ := loadedOf d.registry at_ stored j mem
      exact wiped.2 _ (memOfCall found) i listed (same.trans own)
    · exact (gains.fresh j mem).2 (own ▸ busy.1)
  refine h.next ((gains.others id out).trans h.away) (fun still => .inl ?_) (·)
    (.moved rfl (.bare rfl rfl rfl))
  exact (congrArg (id ∈ ·) gains.inFlight).mpr still

theorem Gone.listed (h : d.Gone id) (relisted : d.Relisted) :
    (d.moveTo k (.loading d.storeList d.clock)).Gone id := by
  refine ⟨h.away, eachMoved (fun x mem _ => h.unentered x mem) List.not_mem_nil,
    h.cleared.imp (fun wiped => ?_) fun busy => ?_⟩
  · refine ⟨wiped.1, eachMoved (fun x mem _ => wiped.2 x mem) fun i mem same => ?_⟩
    have stored := relisted.keyed.values (List.mem_mergeSort.mp mem)
    rw [same, wiped.1] at stored
    cases stored
  · exact ⟨busy.1, eachMoved (fun x mem _ => busy.2 x mem) List.not_mem_nil⟩

theorem Gone.dropped (h : d.Gone id) (removing : d.Removing) (found : d.call? k = some c) :
    Gone { d with registry := c.guarded?.elim d.registry d.registry.release,
                  calls := d.calls.filter (·.1 != k) } id := by
  cases guarded : c.guarded? with
  | none => exact h.next h.away .inl (·) (.left rfl)
  | some target =>
    refine h.next h.away (fun still => ?_) (·) (.left rfl)
    rcases h.cleared with wiped | ⟨_, unsaved⟩
    · exact .inr wiped
    · refine .inl (busyReleased (fun same => ?_) still)
      have live := guardedLives removing unsaved found (same ▸ guarded)
      rw [Lives, h.away] at live
      cases live

theorem goneStep (custody : d.Custody) (removing : d.Removing) (relisted : d.Relisted)
    (h : d.Gone id) (faithful : a.faithful = true) (works : a.fails = false)
    (unsaved : (⟨d, a, e⟩ : Stride).saves? ≠ some id) (next : d.step a = some e) : e.Gone id := by
  have away := h.away
  have bare {c : Call} (lists : c.lists = []) (enters : c.enters = []) (saves : c.saves = []) :
      d.Harmless id c := .bare lists enters saves
  cases stepDeed next with
  | heard => exact h.next (awayTouched away _ _) .inl (·) (.same rfl)
  | opened opens =>
    exact h.next away .inl (·) (.opened rfl (by cases opens <;> exact bare rfl rfl rfl))
  | removing => exact h.next away (.inl ∘ List.mem_cons_of_mem _) (·) (.opened rfl (bare rfl rfl rfl))
  | starting | closing | ticked => exact h.next away .inl (·) (.opened rfl (bare rfl rfl rfl))
  | @reserved k i found free =>
    refine h.next away (.inl ∘ List.mem_cons_of_mem _) (·)
      (.moved rfl ⟨rfl, List.not_mem_nil, fun mine => ?_⟩)
    have own : id = i.id := List.mem_singleton.mp mine
    have out := ((Registry.freeIff d.registry i.id).mp free).2
    exact h.cleared.resolve_right fun busy => out (own ▸ busy.1)
  | @entered k i found =>
    have other : id ≠ i.id := by simpa [Call.enters] using h.unentered _ (memOfCall found)
    exact h.next ((Table.getPutOther _ _ other).trans away) (.inl ∘ busyReleased other) (·)
      (.moved rfl (bare rfl rfl rfl))
  | left found live => exact h.left live rfl rfl (.moved rfl (bare rfl rfl rfl))
  | missed found =>
    exact h.released relisted found (List.mem_singleton_self _) rfl rfl (.left rfl)
  | foundNone found expires =>
    obtain ⟨gone, busy⟩ := awayExpired custody expires away
    exact h.next gone (.inl ∘ busy) (·) (.left rfl)
  | collected found expires =>
    obtain ⟨gone, busy⟩ := awayExpired custody expires away
    exact h.next gone (.inl ∘ busy) (·) (.moved rfl (bare rfl rfl rfl))
  | releasing found =>
    exact h.released relisted found (List.mem_singleton_self _) rfl rfl
      (.moved rfl (bare rfl rfl rfl))
  | loaded found => exact h.loaded found
  | quieted | hushed | expired | told | drained | stilled =>
    exact h.next away .inl (·) (.moved rfl (bare rfl rfl rfl))
  | turnedAway | expiredLast | silent | launched | joined | unlisted =>
    exact h.next away .inl (·) (.left rfl)
  | @saved k i found =>
    have other : id ≠ i.id := fun same => unsaved (by simp [Stride.saves?, found, same])
    exact h.next away .inl (Table.getPutOther _ _ other).trans
      (.moved rfl ⟨rfl, by simpa [Call.enters] using other, nofun⟩)
  | unsaved => cases works
  | deleted found stores | purged found stores =>
    exact h.next away .inl (awayDeleted stores) (.moved rfl (bare rfl rfl rfl))
  | listed => exact h.listed relisted
  | dropped found => exact h.dropped removing found
  | given | stocked => cases faithful
  | passed =>
    exact h.next (awayPassed away _ _ _)
      (.inl ∘ (congrArg (id ∈ ·) (passedInFlight d.registry _ _ _)).mpr) (·) (.same rfl)
  | @moved _ _ other x i ofReport live =>
    have apart : id ≠ other := fun same => by rw [← same, away] at live; cases live
    exact h.next ((Table.getPutOther _ _ apart).trans away) .inl (·)
      (.opened rfl (bare rfl rfl rfl))
  | reordered perm =>
    exact h.next ((Table.getPerm custody.sound.distinct perm id).trans away) .inl (·) (.same rfl)
  | _ => exact h.next away .inl (·) (.same rfl)

theorem liveUnsaved (custody : d.Custody) {x : Record} (live : d.registry.records.get? id = some x) :
    ∀ y ∈ d.calls, id ∉ y.2.enters ∧ id ∉ y.2.saves := by
  intro y mem
  have unasked {i : Instance} (own : i ∈ y.2.admits) : id ≠ i.id := fun same => by
    have vacant := custody.kept.vacant i (List.mem_flatMap.mpr ⟨y, mem, own⟩)
    rw [← same, live] at vacant
    cases vacant
  obtain ⟨j, call⟩ := y
  cases call with
  | saving i =>
    exact ⟨List.not_mem_nil, by simpa [Call.saves] using unasked (List.mem_singleton_self i)⟩
  | entering i =>
    exact ⟨by simpa [Call.enters] using unasked (List.mem_singleton_self i), List.not_mem_nil⟩
  | _ => exact ⟨List.not_mem_nil, List.not_mem_nil⟩

theorem leaveIs {target : String} (found : d.call? k = some (.leaving target)) {x : Record}
    (live : d.registry.records.get? target = some x) (next : d.step (.proceed k) = some e) :
    e = { d with registry := (d.registry.finishRemoval target).1 }.announce k
      [.plain .deregistered x.snapshot] (.instance x.snapshot) := by
  have out : d.registry.finishRemoval target =
      ((d.registry.finishRemoval target).1, some x.snapshot) := by
    simp [Registry.finishRemoval, Registry.release, live]
  simp only [step, proceed, found, Option.bind_some, proceedWith] at next
  split at next
  · rw [← Option.some.inj next, leave, out]
  · cases next

theorem departedGone (custody : d.Custody) (removing : d.Removing) (relisted : d.Relisted)
    (next : d.step a = some e) {p : Passage} (mem : p ∈ (⟨d, a, e⟩ : Stride).passages)
    (departs : p.cause.arrives = false) : e.Gone p.record.snapshot.id := by
  have right := (custodyStep custody next).sound
  obtain ⟨c, found, acts, rfl, gone⟩ := passageOf mem
  simp only [Stride.passing, departs, Bool.false_eq_true, if_false] at gone
  obtain ⟨live, changed⟩ := (Registry.memWithout custody.sound right _).mp gone
  have unsaved := liveUnsaved custody live
  cases c with
  | leaving target =>
    have holds := removing target
      (List.mem_flatMap.mpr ⟨_, memOfCall found, List.mem_singleton_self _⟩)
    obtain ⟨x, there⟩ := Option.isSome_iff_exists.mp ((Table.holdsIff _ _).mp holds)
    obtain rfl := leaveIs found there next
    obtain ⟨records, _, _⟩ := Registry.leaveRecords there
    have left : (d.registry.finishRemoval target).1.records.get? p.record.snapshot.id =
        if p.record.snapshot.id = target then none
          else d.registry.records.get? p.record.snapshot.id := by rw [records, Table.getRemove]
    by_cases own : p.record.snapshot.id = target
    · have wiped := relisted.wiped found (List.mem_singleton.mpr own)
      exact ⟨left.trans (if_pos own), eachMoved (fun x mem _ => (unsaved x mem).1) List.not_mem_nil,
        .inl ⟨wiped.1, eachMoved (fun x mem _ => wiped.2 x mem) (by simp [Call.lists])⟩⟩
    · refine absurd ?_ changed
      exact congrArg (Option.map (·.epoch)) ((left.trans (if_neg own)).trans live)
  | collecting at_ =>
    simp only [step, proceed, found, Option.bind_some, proceedWith, Option.some.injEq] at next
    rcases expires : d.registry.expire d.settings.heartbeatTimeout at_ with ⟨s, took⟩
    have registry : e.registry = s := by
      rw [← next, collect, expires]
      cases took <;> rfl
    have calls : ∀ x ∈ e.calls, x ∈ d.calls ∨ (x.2.enters = [] ∧ x.2.saves = []) := by
      rw [← next, collect, expires]
      cases took with
      | nil => exact eachLeft fun x mem _ => .inl mem
      | cons => exact eachMoved (fun x mem _ => .inl mem) (.inr ⟨rfl, rfl⟩)
    have loses := (Registry.expireLoses custody.sound expires).1
    have parks := Registry.expelAllParks custody.sound
      (d.registry.victims d.settings.heartbeatTimeout at_) p.record.snapshot.id
    rw [← Registry.expire, expires] at parks
    rw [registry] at changed
    have taken : p.record.snapshot.id ∈ (took.map (·.snapshot)).map (·.id) := by
      by_contra out
      exact changed (by rw [loses.others _ out, live]; rfl)
    refine ⟨?_, fun x mem => ?_, .inr ⟨registry ▸ parks.mpr (.inr taken), fun x mem => ?_⟩⟩
    · obtain ⟨i, mem, same⟩ := List.mem_map.mp taken
      rw [registry, ← same]
      exact loses.left i mem
    · exact (calls x mem).elim (fun old => (unsaved x old).1) fun new => by simp [new.1]
    · exact (calls x mem).elim (fun old => (unsaved x old).2) fun new => by simp [new.2]
  | entering i =>
    rw [← Option.some.inj acts] at departs
    cases departs
  | loading stored at_ =>
    rw [← Option.some.inj acts] at departs
    cases departs
  | _ => cases acts

theorem loadedStored (custody : d.Custody) (relisted : d.Relisted) (next : d.step a = some e)
    {p : Passage} (mem : p ∈ (⟨d, a, e⟩ : Stride).passages) (loads : p.cause = .loaded) :
    ∃ i, d.store.get? p.record.snapshot.id = some i ∧ p.record.snapshot.filed = i.filed := by
  have right := (custodyStep custody next).sound
  obtain ⟨c, found, acts, rfl, came⟩ := passageOf mem
  rw [loads] at acts came
  cases c with
  | loading stored at_ =>
    simp only [step, proceed, found, Option.bind_some, proceedWith] at next
    split at next
    · cases next
      have gains := Registry.loadGains d.registry at_ stored
      have arrived := (gains.arrived custody.sound right).mem_iff.mp (List.mem_map_of_mem came)
      obtain ⟨i, listed, same, filed⟩ := loadedOf d.registry at_ stored _ arrived
      obtain ⟨gone, free⟩ := gains.fresh _ arrived
      rcases relisted.listed _ (memOfCall found) i listed with there | taken
      · exact ⟨i, same ▸ there, filed⟩
      · rw [same] at taken
        rcases taken.busy with live | busy
        · rw [Lives, gone] at live
          cases live
        · exact absurd busy free
    · cases next
  | _ => cases acts

end Directory

def Lapsed (past : List Stride) (id : String) : Prop :=
  ∃ first s last, past = first ++ s :: last ∧
    (∃ p ∈ s.passages, p.cause.arrives = false ∧ p.record.snapshot.id = id) ∧
    ∀ t ∈ last, t.saves? ≠ some id

theorem lapsedNext {past : List Stride} {s : Stride} {id : String} (h : Lapsed (past ++ [s]) id) :
    (∃ p ∈ s.passages, p.cause.arrives = false ∧ p.record.snapshot.id = id) ∨
      (Lapsed past id ∧ s.saves? ≠ some id) := by
  obtain ⟨first, t, last, split, departs, unsaved⟩ := h
  rcases List.eq_nil_or_concat last with rfl | ⟨rest, u, rfl⟩
  · obtain ⟨_, same⟩ := List.append_inj' split rfl
    cases same
    exact .inl departs
  · rw [List.concat_eq_append, ← List.cons_append, ← List.append_assoc] at split
    obtain ⟨same, own⟩ := List.append_inj' split rfl
    cases own
    simp only [List.concat_eq_append, List.forall_mem_append, List.forall_mem_singleton] at unsaved
    exact .inr ⟨⟨first, t, rest, same, departs, unsaved.1⟩, unsaved.2⟩

namespace Directory
variable {d e : Directory} {a : Action} {past : List Stride}

structure Restoring (past : List Stride) (d : Directory) : Prop where
  custody : d.Custody
  removing : d.Removing
  relisted : d.Relisted
  gone : ∀ id, Lapsed past id → d.Gone id

theorem withStoreRestoring {settings : DirectorySettings} {store : Table Instance}
    (keyed : Keyed store) : Restoring [] (withStore settings store) where
  custody := withStoreCustody settings store
  removing := emptyRemoving settings
  relisted := withStoreRelisted keyed
  gone id lapsed := by
    obtain ⟨first, s, last, split, _⟩ := lapsed
    cases first <;> cases split

theorem restoringStep (h : Restoring past d) (faithful : a.faithful = true)
    (works : a.fails = false) (apart : (⟨d, a, e⟩ : Stride).DeletesApart)
    (next : d.step a = some e) : Restoring (past ++ [⟨d, a, e⟩]) e where
  custody := custodyStep h.custody next
  removing := removingStep h.custody h.removing next
  relisted := relistedStep h.custody h.removing h.relisted faithful works apart next
  gone id lapsed := by
    rcases lapsedNext lapsed with ⟨p, mem, departs, rfl⟩ | ⟨was, unsaved⟩
    · exact departedGone h.custody h.removing h.relisted next mem departs
    · exact goneStep h.custody h.removing h.relisted (h.gone id was) faithful works unsaved next

structure Restores (past : List Stride) (d : Directory) : Prop where
  gone : ∀ id, Lapsed past id → d.registry.get? id = none
  stored : ∀ a e, d.step a = some e → ∀ p ∈ (⟨d, a, e⟩ : Stride).passages, p.cause = .loaded →
    ∃ i, d.store.get? p.record.snapshot.id = some i ∧ p.record.snapshot.filed = i.filed
  arrives : ∀ a e, d.step a = some e → ∀ p ∈ (⟨d, a, e⟩ : Stride).passages,
    p.cause.arrives = true → ¬Lapsed past p.record.snapshot.id

/-- Over a store that does what it is asked, and with any calls dropped, a bootstrap brings nobody
back, unless an id is deleted from the store after the bootstrap was listed it and before it loads
it. -/
theorem bootstrapRevivesNobody {settings : DirectorySettings} {store : Table Instance}
    {actions : List Action} (keyed : Keyed store)
    (run : (withStore settings store).steps actions = some d)
    (faithful : ∀ a ∈ actions, a.faithful = true) (works : ∀ a ∈ actions, a.fails = false)
    (apart : ∀ s ∈ (withStore settings store).trail actions, s.DeletesApart) :
    Restores ((withStore settings store).trail actions) d := by
  have h : Restoring ((withStore settings store).trail actions) d :=
    trailKeeps (withStoreRestoring keyed) run fun s mem next past h => by
      have acts := trailActions mem
      exact restoringStep h (faithful _ acts) (works _ acts) (apart s mem) next
  refine ⟨fun id lapsed => ?_, fun a e next p mem loads => ?_, fun a e next p mem arrives lapsed => ?_⟩
  · rw [Registry.get?, (h.gone id lapsed).away]
    rfl
  · exact loadedStored h.custody h.relisted next mem loads
  · obtain ⟨c, found, acts, rfl, came⟩ := passageOf mem
    simp only [Stride.passing, arrives, if_true] at came
    have sound := (custodyStep h.custody next).sound
    have live := ((Registry.memWithout sound h.custody.sound _).mp came).1
    have away := (goneStep h.custody h.removing h.relisted (h.gone _ lapsed) rfl rfl
      (by simp [Stride.saves?]) next).away
    rw [live] at away
    cases away

def overlapping : List Action :=
  [.begin (.register (.fresh "a" "web" "h:1" .origin)), .proceed 0, .settle 0 none, .proceed 0,
    .proceed 0, .proceed 0, .begin .bootstrap, .begin (.deregister "a"), .proceed 2, .settle 2 none,
    .settle 1 none, .proceed 2, .proceed 2, .proceed 2]

theorem overlappingRestores :
    ∃ d, (withStore Settings.standard.directory
        [("b", .fresh "b" "web" "h:2" .origin)]).steps overlapping = some d ∧
      d.ending? 2 ≠ none ∧ (d.call? 1).map (·.lists.map (·.id)) = some ["b"] ∧
      Restores ((withStore Settings.standard.directory
        [("b", .fresh "b" "web" "h:2" .origin)]).trail overlapping) d := by
  have keyed : Keyed [("b", .fresh "b" "web" "h:2" .origin)] :=
    emptyKeyed.put (.fresh "b" "web" "h:2" .origin)
  obtain ⟨d, run, ended, lists⟩ : ∃ d, (withStore Settings.standard.directory
        [("b", .fresh "b" "web" "h:2" .origin)]).steps overlapping = some d ∧
      d.ending? 2 ≠ none ∧ (d.call? 1).map (·.lists.map (·.id)) = some ["b"] :=
    ⟨_, rfl, nofun, by decide +kernel⟩
  exact ⟨d, run, ended, lists,
    bootstrapRevivesNobody keyed run (by decide) (by decide) (by decide +kernel)⟩

def overtakenListing : List Action :=
  [.begin (.register (.fresh "a" "web" "h:1" .origin)), .proceed 0, .settle 0 none, .proceed 0,
    .proceed 0, .proceed 0, .begin .bootstrap, .settle 1 none, .begin (.deregister "a"), .proceed 2,
    .settle 2 none, .proceed 2, .proceed 2, .proceed 2]

theorem listingRevives :
    ∃ d e i, (empty Settings.standard.directory).steps overtakenListing = some d ∧
      d.ending? 2 = some (.ok (.instance i)) ∧ i.id = "a" ∧
      d.registry.get? "a" = none ∧ d.store.get? "a" = none ∧
      d.step (.proceed 1) = some e ∧ (e.registry.get? "a").map (·.filed) = some i.filed :=
  ⟨_, _, _, rfl, rfl, by decide +kernel, by decide +kernel, by decide +kernel, rfl,
    by decide +kernel⟩

end Directory
end ServiceDirectory
