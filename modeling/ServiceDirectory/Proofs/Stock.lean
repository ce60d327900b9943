import ServiceDirectory.Proofs.Replay
import ServiceDirectory.Settings.Effective

/-! The records against the store. While an id is in flight the two may differ; otherwise what is live
is also stored, and what is stored and not live is what some call under way has still to see to. -/
namespace ServiceDirectory
open Registry (Gains Loses)

def Instance.filed (i : Instance) : Instance :=
  { i with status := .starting, lastHeartbeat := .origin }

theorem Instance.continuesFiled {i j : Instance} (h : i.Continues j) : j.filed = i.filed := by
  rw [h.1]; rfl

structure Keyed (store : Table Instance) : Prop where
  distinct : store.Distinct
  own : ∀ id i, store.get? id = some i → i.id = id

theorem emptyKeyed : Keyed [] := ⟨List.nodup_nil, fun id i found => by cases found⟩

namespace Keyed
variable {store : Table Instance}

theorem put (h : Keyed store) (i : Instance) : Keyed (store.put i.id i) where
  distinct := Table.putDistinct h.distinct _ _
  own id j found := by
    rw [Table.getPut] at found
    split at found
    · cases found
      exact (‹id = i.id›).symm
    · exact h.own id j found

theorem remove (h : Keyed store) (id : String) : Keyed (store.remove id) where
  distinct := Table.removeDistinct h.distinct _
  own other j found := by
    rw [Table.getRemove] at found
    split at found
    · cases found
    · exact h.own other j found

theorem deleted (h : Keyed store) {failure : Option Failure} {id : String} {left : Table Instance}
    (stores : left = if failure.isNone then store.remove id else store) :
    Keyed left ∧ ∀ other, other ≠ id → left.get? other = store.get? other := by
  subst stores
  split
  · exact ⟨h.remove id, fun other apart => by rw [Table.getRemove, if_neg apart]⟩
  · exact ⟨h, fun _ _ => rfl⟩

theorem values (h : Keyed store) {i : Instance} (mem : i ∈ store.values) :
    store.get? i.id = some i := by
  obtain ⟨⟨id, j⟩, entry, rfl⟩ := List.mem_map.mp mem
  have found := (Table.memIffGet h.distinct id j).mp entry
  rwa [← h.own id j found] at found

end Keyed

theorem loadedOf (r : Registry) (now : Timestamp) (stored : List Instance) :
    ∀ j ∈ (r.load now stored).2.1, ∃ i ∈ stored, i.id = j.id ∧ j.filed = i.filed := by
  induction stored generalizing r with
  | nil => simp [Registry.load]
  | cons i rest ih =>
    intro j mem
    simp only [Registry.load, List.mem_append] at mem
    rcases mem with mine | later
    · refine ⟨i, List.mem_cons_self, ?_⟩
      simp only [Registry.loadOne] at mine
      split at mine
      · cases mine
      · cases List.mem_singleton.mp mine
        exact ⟨rfl, rfl⟩
    · obtain ⟨i', there, same⟩ := ih _ j later
      exact ⟨i', List.mem_cons_of_mem _ there, same⟩

def Backs (store : Table Instance) (r : Registry) : Prop :=
  ∀ id x, r.records.get? id = some x → id ∉ r.inFlight →
    ∃ i, store.get? id = some i ∧ i.filed = x.snapshot.filed

namespace Backs
variable {store : Table Instance} {r s : Registry}

theorem later (h : Backs store r)
    (was : ∀ id y, s.records.get? id = some y → id ∉ s.inFlight →
      ∃ x, r.records.get? id = some x ∧ id ∉ r.inFlight ∧ y.snapshot.filed = x.snapshot.filed) :
    Backs store s := by
  intro id y live free
  obtain ⟨x, old, out, same⟩ := was id y live free
  obtain ⟨i, stored, filed⟩ := h id x old out
  exact ⟨i, stored, filed.trans same.symm⟩

theorem restocked (h : Backs store r) {store' : Table Instance}
    (same : ∀ id, id ∉ r.inFlight → store'.get? id = store.get? id) : Backs store' r := by
  intro id x live free
  rw [same id free]
  exact h id x live free

theorem parked (h : Backs store r) {id : String} (records : s.records = r.records)
    (inFlight : s.inFlight = id :: r.inFlight) : Backs store s :=
  h.later fun other y live free => by
    rw [records] at live
    rw [inFlight, List.mem_cons, not_or] at free
    exact ⟨y, live, free.2, rfl⟩

theorem released (h : Backs store r) {id : String} (gone : r.records.get? id = none) :
    Backs store (r.release id) :=
  h.later fun other y live free => by
    have live : r.records.get? other = some y := live
    have apart : other ≠ id := fun same => by rw [same, gone] at live; cases live
    exact ⟨y, live, fun mem => free ((Registry.memRelease r id other).mpr ⟨mem, apart⟩), rfl⟩

theorem same (h : Backs store r) (inFlight : s.inFlight = r.inFlight)
    (was : ∀ id y, s.records.get? id = some y →
      ∃ x, r.records.get? id = some x ∧ y.snapshot.filed = x.snapshot.filed) : Backs store s :=
  h.later fun id y live free => by
    obtain ⟨x, old, same⟩ := was id y live
    exact ⟨x, old, inFlight ▸ free, same⟩

theorem touched (h : Backs store r) (id : String) (now : Timestamp) :
    Backs store (r.touch id now) :=
  h.same rfl fun other y live => by
    simp only [Registry.touch, Table.getAdjust] at live
    split at live
    · obtain ⟨x, old, rfl⟩ := Option.map_eq_some_iff.mp live
      exact ⟨x, old, rfl⟩
    · exact ⟨y, live, rfl⟩

theorem passed (h : Backs store r) (id : String) (epoch : Nat) (now : Timestamp) :
    Backs store (r.passed id epoch now) := by
  unfold Registry.passed
  split
  · split
    · exact h.touched id now
    · exact h
  · exact h

theorem moved (h : Backs store r) {id : String} {x : Record} {i : Instance}
    (live : r.records.get? id = some x) (later : x.snapshot.Continues i) :
    Backs store ({ r with records := r.records.put id ⟨i, x.epoch⟩ }.bump i.name) :=
  h.same rfl fun other y live' => by
    have live' : (r.records.put id ⟨i, x.epoch⟩).get? other = some y := live'
    rw [Table.getPut] at live'
    split at live'
    · cases live'
      rename_i same
      exact ⟨x, same ▸ live, Instance.continuesFiled later⟩
    · exact ⟨y, live', rfl⟩

theorem entered (h : Backs store r) {i : Instance} (stored : store.get? i.id = some i) :
    Backs store (r.commit i).1 := by
  intro id y live free
  have live : (r.records.put i.id ⟨i, r.nextEpoch⟩).get? id = some y := live
  have free : id ∉ (r.release i.id).inFlight := free
  rw [Table.getPut] at live
  split at live
  · rename_i same
    cases live
    exact ⟨i, same ▸ stored, rfl⟩
  · rename_i other
    exact h id y live fun mem => free ((Registry.memRelease r i.id id).mpr ⟨mem, other⟩)

theorem left (h : Backs store r) {id : String} {x : Record} (live : r.records.get? id = some x) :
    Backs store (r.finishRemoval id).1 := by
  obtain ⟨records, inFlight, _⟩ := Registry.leaveRecords live
  refine h.later fun other y live free => ?_
  rw [records, Table.getRemove] at live
  split at live
  · cases live
  · rename_i apart
    rw [inFlight] at free
    exact ⟨y, live, fun mem => free ((Registry.memRelease r id other).mpr ⟨mem, apart⟩), rfl⟩

theorem expired (h : Backs store r) (sound : SoundRecords r.records r.nextEpoch) {timeout : Nat}
    {now : Timestamp} {took : List Expiry} (expires : r.expire timeout now = (s, took)) :
    Backs store s := by
  have loses := Registry.expelAllLoses sound (r.victims timeout now)
  have parks := Registry.expelAllParks sound (r.victims timeout now)
  rw [← Registry.expire, expires] at loses parks
  refine h.later fun id y live free => ⟨y, ?_, fun mem => free ((parks id).mpr (.inl mem)), rfl⟩
  rw [← loses.others, live]
  exact fun gone => free ((parks id).mpr (.inr gone))

theorem loaded (h : Backs store r) (now : Timestamp) {stored : List Instance}
    (listed : ∀ i ∈ stored, store.get? i.id = some i) : Backs store (r.load now stored).1 := by
  have gains := Registry.loadGains r now stored
  intro id y live free
  rw [gains.inFlight] at free
  by_cases came : id ∈ (r.load now stored).2.1.map (·.id)
  · obtain ⟨j, hj, rfl⟩ := List.mem_map.mp came
    obtain ⟨epoch, _, here⟩ := gains.here j hj
    cases here.symm.trans live
    obtain ⟨i, hi, own, filed⟩ := loadedOf r now stored j hj
    exact ⟨i, own ▸ listed i hi, filed.symm⟩
  · rw [gains.others id came] at live
    exact h id y live free

end Backs

def Call.boots : Call → Bool
  | .listing => true
  | .loading _ _ => true
  | _ => false

def Call.Backed (store : Table Instance) : Call → Prop
  | .entering i => store.get? i.id = some i
  | .loading stored _ => ∀ i ∈ stored, store.get? i.id = some i
  | _ => True

/-- The store answers for itself: nobody else writes to it, and it lists what it holds. -/
def Action.faithful : Action → Bool
  | .storeDirect _ => false
  | .listed _ _ => false
  | _ => true

namespace Directory
variable {d e : Directory} {k : CallId} {c c' : Call}

def BootsAlone (d : Directory) : Prop := ∀ x ∈ d.calls, x.2.boots = true → d.calls = [x]

instance (d : Directory) : Decidable d.BootsAlone :=
  inferInstanceAs (Decidable (∀ x ∈ d.calls, x.2.boots = true → d.calls = [x]))

structure Stocked (d : Directory) : Prop where
  keyed : Keyed d.store
  backs : Backs d.store d.registry
  backed : ∀ x ∈ d.calls, x.2.Backed d.store

namespace Stocked

theorem listed (h : d.Stocked) : ∀ i ∈ d.storeList, d.store.get? i.id = some i := fun _ mem =>
  h.keyed.values (List.mem_mergeSort.mp mem)

theorem aside (h : d.Stocked) (store : e.store = d.store) (calls : e.calls = d.calls)
    (backs : Backs d.store e.registry) : e.Stocked :=
  ⟨store ▸ h.keyed, store ▸ backs, by rw [store, calls]; exact h.backed⟩

theorem opened (h : d.Stocked) (store : e.store = d.store) (calls : e.calls = d.calls ++ [(k, c)])
    (backs : Backs d.store e.registry) (mine : c.Backed d.store) : e.Stocked :=
  ⟨store ▸ h.keyed, store ▸ backs, by rw [store, calls]; exact eachOpened h.backed mine⟩

theorem moved (h : d.Stocked) (store : e.store = d.store) (calls : e.calls = (d.moveTo k c').calls)
    (backs : Backs d.store e.registry) (mine : c'.Backed d.store) : e.Stocked :=
  ⟨store ▸ h.keyed, store ▸ backs, by
    rw [store, calls]; exact eachMoved (fun x mem _ => h.backed x mem) mine⟩

theorem ended (h : d.Stocked) (store : e.store = d.store)
    (calls : e.calls = d.calls.filter (·.1 != k)) (backs : Backs d.store e.registry) : e.Stocked :=
  ⟨store ▸ h.keyed, store ▸ backs, by
    rw [store, calls]; exact eachLeft fun x mem _ => h.backed x mem⟩

theorem restocked (h : d.Stocked) (custody : d.Custody) (alone : d.BootsAlone)
    (found : d.call? k = some c) {id : String} (parks : id ∈ c.parks) (keyed : Keyed e.store)
    (same : ∀ other, other ≠ id → e.store.get? other = d.store.get? other)
    (registry : e.registry = d.registry) (calls : e.calls = (d.moveTo k c').calls)
    (mine : c'.Backed e.store) : e.Stocked := by
  have known := memOfCall found
  have busy : id ∈ d.registry.inFlight :=
    custody.kept.inFlight id (List.mem_flatMap.mpr ⟨_, known, parks⟩)
  refine ⟨keyed, registry ▸ h.backs.restocked fun other free => same other fun own => ?_, ?_⟩
  · exact free (own ▸ busy)
  · rw [calls]
    refine eachMoved (fun x mem apart => ?_) mine
    have backed := h.backed x mem
    obtain ⟨j, call⟩ := x
    cases call with
    | entering i =>
      have other : i.id ≠ id := fun own =>
        parksApart custody known mem (Ne.symm apart) (own ▸ parks) (List.mem_singleton_self i.id)
      exact (same _ other).trans backed
    | loading stored at_ =>
      rw [alone _ mem rfl] at known
      cases List.mem_singleton.mp known
      exact absurd rfl apart
    | _ => trivial

end Stocked

theorem stockedStep (custody : d.Custody) (alone : d.BootsAlone)
    (h : d.Stocked) {a : Action} (kept : a.abandons = false) (faithful : a.faithful = true)
    (next : d.step a = some e) : e.Stocked := by
  cases stepDeed next with
  | heard => exact h.aside rfl rfl (h.backs.touched _ _)
  | opened opens => exact h.opened rfl rfl h.backs (by cases opens <;> trivial)
  | removing live unparked => exact h.opened rfl rfl (h.backs.parked rfl rfl) trivial
  | starting => exact h.opened rfl rfl h.backs trivial
  | closing => exact h.opened rfl rfl h.backs trivial
  | ticked => exact h.opened rfl rfl h.backs trivial
  | turnedAway found => exact h.ended rfl rfl h.backs
  | reserved found free => exact h.moved rfl rfl (h.backs.parked rfl rfl) trivial
  | entered found free =>
    exact h.moved rfl rfl (h.backs.entered (h.backed _ (memOfCall found))) trivial
  | quieted found => exact h.moved rfl rfl h.backs trivial
  | left found live => exact h.moved rfl rfl (h.backs.left live) trivial
  | missed found gone => exact h.ended rfl rfl (h.backs.released gone)
  | foundNone found expires => exact h.ended rfl rfl (h.backs.expired custody.sound expires)
  | collected found expires => exact h.moved rfl rfl (h.backs.expired custody.sound expires) trivial
  | hushed found => exact h.moved rfl rfl h.backs trivial
  | releasing found =>
    have gone := custody.kept.away _
      (List.mem_flatMap.mpr ⟨_, memOfCall found, List.mem_cons_self⟩)
    exact h.moved rfl rfl (h.backs.released gone) trivial
  | expiredLast found => exact h.ended rfl rfl h.backs
  | expired found => exact h.moved rfl rfl h.backs trivial
  | loaded found => exact h.moved rfl rfl (h.backs.loaded _ (h.backed _ (memOfCall found))) trivial
  | told found => exact h.moved rfl rfl h.backs trivial
  | silent found => exact h.ended rfl rfl h.backs
  | launched found => exact h.ended rfl rfl h.backs
  | drained found => exact h.moved rfl rfl h.backs trivial
  | stilled found => exact h.moved rfl rfl h.backs trivial
  | joined found => exact h.ended rfl rfl h.backs
  | @saved k i found =>
    exact h.restocked custody alone found (List.mem_singleton_self i.id) (h.keyed.put i)
      (fun other apart => Table.getPutOther _ _ apart) rfl rfl (Table.getPutSame _ _ _)
  | @unsaved k i failure found =>
    have vacant := custody.kept.vacant i
      (List.mem_flatMap.mpr ⟨_, memOfCall found, List.mem_singleton_self i⟩)
    exact h.ended rfl rfl (h.backs.released vacant)
  | @deleted k id failure store found stores =>
    obtain ⟨keyed, same⟩ := h.keyed.deleted stores
    exact h.restocked custody alone found (List.mem_singleton_self id) keyed same rfl rfl trivial
  | @purged k round failure store found stores =>
    obtain ⟨keyed, same⟩ := h.keyed.deleted stores
    exact h.restocked custody alone found List.mem_cons_self keyed same rfl rfl trivial
  | listed found => exact h.moved rfl rfl h.backs h.listed
  | unlisted found => exact h.ended rfl rfl h.backs
  | given => cases faithful
  | dropped => cases kept
  | stocked => cases faithful
  | passed => exact h.aside rfl rfl (h.backs.passed _ _ _)
  | moved ofReport live unparked differs later =>
    exact h.opened rfl rfl (h.backs.moved live later) trivial
  | reordered perm =>
    refine h.aside rfl rfl (h.backs.same rfl fun id y live => ⟨y, ?_, rfl⟩)
    exact (Table.getPerm custody.sound.distinct perm id).symm.trans live
  | _ => exact h.aside rfl rfl h.backs

end Directory

def Call.owes : Call → List String
  | .entering i => [i.id]
  | .hushing _ round => (round.current :: round.rest).map (·.id)
  | .purging round => (round.current :: round.rest).map (·.id)
  | .releasing round => round.rest.map (·.id)
  | .expiring round => round.rest.map (·.id)
  | _ => []

def Call.clears : Call → List String
  | .leaving id => [id]
  | _ => []

theorem Call.clearsParked {c : Call} {id : String} (mem : id ∈ c.clears) : id ∈ c.parks := by
  cases c with
  | leaving target => exact mem
  | _ => cases mem

def Action.fails : Action → Bool
  | .settle _ (some _) => true
  | _ => false

namespace Directory
variable {d e : Directory} {k : CallId} {c c' : Call}

def Stores (d : Directory) (id : String) : Prop := (d.store.get? id).isSome

def Lives (d : Directory) (id : String) : Prop := (d.registry.records.get? id).isSome

structure Cleared (d : Directory) : Prop where
  owed : ∀ id, d.Stores id → d.Lives id ∨ ∃ x ∈ d.calls, id ∈ x.2.owes
  gone : ∀ x ∈ d.calls, ∀ id ∈ x.2.clears, ¬d.Stores id

namespace Cleared

theorem aside (h : d.Cleared) (store : e.store = d.store) (calls : e.calls = d.calls)
    (live : ∀ id, d.Lives id → e.Lives id) : e.Cleared := by
  refine ⟨fun id stored => ?_, ?_⟩
  · rw [Stores, store] at stored
    rw [calls]
    exact (h.owed id stored).imp_left (live id)
  · rw [calls]
    simp only [Stores, store]
    exact h.gone

theorem opened (h : d.Cleared) (store : e.store = d.store) (calls : e.calls = d.calls ++ [(k, c)])
    (live : ∀ id, d.Lives id → e.Lives id) (idle : c.clears = []) : e.Cleared := by
  refine ⟨fun id stored => ?_, ?_⟩
  · rw [Stores, store] at stored
    rw [calls]
    refine (h.owed id stored).imp (live id) fun ⟨x, mem, owes⟩ => ?_
    exact ⟨x, List.mem_append_left _ mem, owes⟩
  · rw [calls]
    simp only [Stores, store]
    exact eachOpened h.gone (by simp [idle])

theorem moved (h : d.Cleared) (lined : d.Lined) (found : d.call? k = some c)
    (calls : e.calls = (d.moveTo k c').calls)
    (store : ∀ id, e.Stores id → d.Stores id ∨ id ∈ c'.owes)
    (live : ∀ id, e.Stores id → d.Lives id → e.Lives id ∨ id ∈ c'.owes)
    (owes : ∀ id, e.Stores id → id ∈ c.owes → e.Lives id ∨ id ∈ c'.owes)
    (others : ∀ x ∈ d.calls, x.1 ≠ k → ∀ id ∈ x.2.clears, ¬e.Stores id)
    (mine : ∀ id ∈ c'.clears, ¬e.Stores id) : e.Cleared := by
  have there : (k, c') ∈ e.calls := by
    rw [calls]
    exact memMoved found
  refine ⟨fun id stored => ?_, by rw [calls]; exact eachMoved others mine⟩
  rcases store id stored with old | own
  · rcases h.owed id old with was | owed
    · exact (live id stored was).imp_right fun own => ⟨_, there, own⟩
    · by_cases now : e.Lives id
      · exact .inl now
      · rw [calls]
        exact .inr (someMoved (P := (id ∈ ·.owes)) lined found
          (fun own => (owes id stored own).resolve_left now) owed)
  · exact .inr ⟨_, there, own⟩

theorem along (h : d.Cleared) (c' : Call) (lined : d.Lined) (found : d.call? k = some c)
    (store : e.store = d.store) (calls : e.calls = (d.moveTo k c').calls)
    (live : ∀ id, d.Lives id → e.Lives id) (owes : c.owes ⊆ c'.owes) (idle : c'.clears = []) :
    e.Cleared := by
  have same (id : String) (stored : e.Stores id) : d.Stores id := by rwa [Stores, store] at stored
  exact h.moved lined found calls (fun id stored => .inl (same id stored))
    (fun id _ was => .inl (live id was)) (fun id _ own => .inr (owes own))
    (fun x mem _ id clears stored => h.gone x mem id clears (same id stored)) (by simp [idle])

theorem ended (h : d.Cleared) (lined : d.Lined) (found : d.call? k = some c)
    (store : e.store = d.store) (calls : e.calls = d.calls.filter (·.1 != k))
    (live : ∀ id, d.Lives id → e.Lives id) (owes : c.owes = []) : e.Cleared := by
  refine ⟨fun id stored => ?_, ?_⟩
  · rw [Stores, store] at stored
    rw [calls]
    exact (h.owed id stored).imp (live id)
      (someLeft (P := (id ∈ ·.owes)) lined found (by simp [owes]))
  · rw [calls]
    simp only [Stores, store]
    exact eachLeft fun x mem _ => h.gone x mem

end Cleared

theorem clearedOf {failure : Option Failure} {id : String} {left : Table Instance}
    (works : (Action.settle k failure).fails = false)
    (stores : left = if failure.isNone then d.store.remove id else d.store) :
    ¬(left.get? id).isSome ∧ ∀ other, (left.get? other).isSome → d.Stores other := by
  cases failure with
  | some failure => cases works
  | none =>
    subst stores
    refine ⟨by simp [Table.getRemoveSame], fun other stored => ?_⟩
    simp only [Option.isNone_none, if_true, Table.getRemove] at stored
    split at stored
    · cases stored
    · exact stored

theorem livesTouched {id : String} (at_ : Timestamp) {other : String} (h : d.Lives other) :
    ((d.registry.touch id at_).records.get? other).isSome := by
  simp only [Registry.touch, Table.getAdjust]
  split
  · rw [Option.isSome_map]; exact h
  · exact h

theorem livesPassed {id : String} (epoch : Nat) (at_ : Timestamp) {other : String}
    (h : d.Lives other) : ((d.registry.passed id epoch at_).records.get? other).isSome := by
  unfold Registry.passed
  split
  · split
    · exact livesTouched at_ h
    · exact h
  · exact h

theorem livesExpired (custody : d.Custody) {at_ : Timestamp} {s : Registry} {took : List Expiry}
    (expires : d.registry.expire d.settings.heartbeatTimeout at_ = (s, took)) {id : String}
    (h : d.Lives id) :
    (s.records.get? id).isSome ∨ id ∈ (took.map (·.snapshot)).map (·.id) := by
  have loses := Registry.expelAllLoses custody.sound
    (d.registry.victims d.settings.heartbeatTimeout at_)
  rw [← Registry.expire, expires] at loses
  by_cases gone : id ∈ (took.map (·.snapshot)).map (·.id)
  · exact .inr gone
  · exact .inl (by rw [loses.others id gone]; exact h)

theorem livesLoaded (at_ : Timestamp) (stored : List Instance) {id : String} (h : d.Lives id) :
    ((d.registry.load at_ stored).1.records.get? id).isSome := by
  have gains := Registry.loadGains d.registry at_ stored
  by_cases came : id ∈ (d.registry.load at_ stored).2.1.map (·.id)
  · obtain ⟨i, hi, rfl⟩ := List.mem_map.mp came
    obtain ⟨epoch, _, here⟩ := gains.here i hi
    exact congrArg Option.isSome here
  · exact (congrArg Option.isSome (gains.others id came)).trans h

theorem Cleared.left (h : d.Cleared) (lined : d.Lined) {id : String} {x : Record}
    (found : d.call? k = some (.leaving id)) (live : d.registry.records.get? id = some x)
    (registry : e.registry = (d.registry.finishRemoval id).1) (store : e.store = d.store)
    (calls : e.calls = (d.moveTo k c').calls) (idle : c'.clears = []) : e.Cleared := by
  have same (other : String) : e.Stores other ↔ d.Stores other := by
    rw [Stores, Stores, store]
  refine h.moved lined found calls (fun _ stored => .inl ((same _).mp stored))
    (fun other stored was => ?_) (fun _ _ own => by cases own)
    (fun x mem _ other clears stored => h.gone x mem other clears ((same other).mp stored))
    (by simp [idle])
  have apart : other ≠ id := fun own =>
    h.gone _ (memOfCall found) id (List.mem_singleton_self id) (own ▸ (same other).mp stored)
  refine .inl ?_
  rw [Lives, registry, (Registry.leaveRecords live).1, Table.getRemove, if_neg apart]
  exact was

theorem Cleared.saved (h : d.Cleared) (custody : d.Custody) {i : Instance}
    (found : d.call? k = some (.saving i)) :
    ({ d with store := d.store.put i.id i }.moveTo k (.entering i)).Cleared := by
  have stores (id : String) (stored : ((d.store.put i.id i).get? id).isSome) :
      d.Stores id ∨ id = i.id := by
    rw [Table.getPut] at stored
    split at stored
    · exact .inr ‹_›
    · exact .inl stored
  refine h.moved custody.lined found rfl (fun id stored => ?_) (fun _ _ live => .inl live)
    (fun _ _ own => by cases own) (fun x mem apart id clears stored => ?_) (by simp [Call.clears])
  · exact (stores id stored).imp_right fun same => List.mem_singleton.mpr same
  · rcases stores id stored with old | rfl
    · exact h.gone x mem id clears old
    · exact parksApart custody (memOfCall found) mem (Ne.symm apart) (List.mem_singleton_self i.id)
        (Call.clearsParked clears)

theorem clearedStep (custody : d.Custody) (h : d.Cleared) {a : Action} (kept : a.abandons = false)
    (faithful : a.faithful = true) (works : a.fails = false) (next : d.step a = some e) :
    e.Cleared := by
  have lined := custody.lined
  cases stepDeed next with
  | heard => exact h.aside rfl rfl fun _ => livesTouched _
  | opened opens => exact h.opened rfl rfl (fun _ => id) (by cases opens <;> rfl)
  | removing | starting | closing | ticked => exact h.opened rfl rfl (fun _ => id) rfl
  | reserved found free =>
    exact h.along (.saving _) lined found rfl rfl (fun _ => id) (List.nil_subset _) rfl
  | entered found =>
    refine h.moved lined found rfl (fun _ stored => .inl stored) (fun _ _ live => ?_)
      (fun _ _ own => ?_) (fun x mem _ => h.gone x mem) (by simp [Call.clears])
    · exact .inl (Table.somePut (.inl live))
    · exact .inl (Table.somePut (.inr (List.mem_singleton.mp own)))
  | quieted found =>
    exact h.along (.deleting _) lined found rfl rfl (fun _ => id) (List.nil_subset _) rfl
  | left found live => exact h.left lined found live rfl rfl rfl rfl
  | foundNone found expires =>
    exact h.ended lined found rfl rfl
      (fun _ live => (livesExpired custody expires live).resolve_right (by simp)) rfl
  | collected found expires takes =>
    refine h.moved lined found rfl (fun _ stored => .inl stored) (fun _ _ live => ?_)
      (fun _ _ own => by cases own) (fun x mem _ => h.gone x mem) (by simp [Call.clears])
    have split := livesExpired custody expires live
    rwa [takes] at split
  | hushed found =>
    exact h.along (.purging _) lined found rfl rfl (fun _ => id) (List.Subset.refl _) rfl
  | releasing found =>
    exact h.along (.expiring _) lined found rfl rfl (fun _ => id) (List.Subset.refl _) rfl
  | expiredLast found last =>
    exact h.ended lined found rfl rfl (fun _ => id) (by simp [Call.owes, last])
  | expired found more =>
    exact h.along (.purging _) lined found rfl rfl (fun _ => id) (by simp [Call.owes, more]) rfl
  | @loaded k stored at_ found =>
    exact h.along (.announcing _ _) lined found rfl rfl (fun _ => livesLoaded at_ stored)
      (List.nil_subset _) rfl
  | @told k n rest answer found =>
    exact h.along (.announcing rest answer) lined found rfl rfl (fun _ => id) (List.nil_subset _)
      rfl
  | turnedAway found | missed found | silent found | launched found | joined found =>
    exact h.ended lined found rfl rfl (fun _ => id) rfl
  | drained found =>
    exact h.along (.stilling _) lined found rfl rfl (fun _ => id) (List.nil_subset _) rfl
  | stilled found =>
    exact h.along (.joining _) lined found rfl rfl (fun _ => id) (List.nil_subset _) rfl
  | saved found => exact h.saved custody found
  | deleted found stores =>
    obtain ⟨gone, less⟩ := clearedOf works stores
    exact h.moved lined found rfl (fun other stored => .inl (less other stored))
      (fun _ _ live => .inl live) (fun _ _ own => by cases own)
      (fun x mem _ other clears stored => h.gone x mem other clears (less other stored))
      (fun other mine => by cases List.mem_singleton.mp mine; exact gone)
  | @purged k round failure store found stores =>
    obtain ⟨gone, less⟩ := clearedOf works stores
    refine h.moved lined found rfl (fun other stored => .inl (less other stored))
      (fun _ _ live => .inl live) (fun other stored own => .inr ?_)
      (fun x mem _ other clears stored => h.gone x mem other clears (less other stored))
      (by simp [Call.clears])
    refine (List.mem_cons.mp own).resolve_left fun same => gone ?_
    have same : other = round.current.id := same
    exact same ▸ stored
  | listed found =>
    exact h.along (.loading _ _) lined found rfl rfl (fun _ => id) (List.nil_subset _) rfl
  | unsaved | unlisted => cases works
  | given | stocked => cases faithful
  | dropped => cases kept
  | passed => exact h.aside rfl rfl fun _ => livesPassed _ _
  | moved => exact h.opened rfl rfl (fun _ live => Table.somePut (.inl live)) rfl
  | reordered perm =>
    exact h.aside rfl rfl fun id live =>
      (congrArg Option.isSome (Table.getPerm custody.sound.distinct perm id)).trans live
  | _ => exact h.aside rfl rfl fun _ => id

def withStore (settings : DirectorySettings) (store : Table Instance) : Directory :=
  { empty settings with store }

theorem withStoreCustody (settings : DirectorySettings) (store : Table Instance) :
    (withStore settings store).Custody where
  lined := ⟨.nil, by simp [withStore, empty], by simp [withStore, empty]⟩
  sound := (emptyCustody settings).sound
  kept := (emptyCustody settings).kept

theorem withStoreStocked {settings : DirectorySettings} {store : Table Instance}
    (keyed : Keyed store) : (withStore settings store).Stocked where
  keyed := keyed
  backs id x live := by cases live
  backed x mem := by cases mem

theorem withNothingCleared (settings : DirectorySettings) : (withStore settings []).Cleared where
  owed id stored := by cases stored
  gone x mem := by cases mem

theorem idleOwes {c : Call} (idle : c.changes = false) : c.owes = [] := by
  cases c with
  | launching => rfl
  | draining => rfl
  | stilling => rfl
  | joining => rfl
  | _ => cases idle

/-- With a store that does what it is asked or says that it has not, every live record that is not in
flight is stored as it was registered, as long as no call is dropped and a bootstrap is let alone. If
the store began empty and nothing failed in it, then it holds just what is live once nobody is
changing anything. -/
theorem storeBacksRecords {settings : DirectorySettings} {store : Table Instance}
    {actions : List Action} (keyed : Keyed store)
    (run : (withStore settings store).steps actions = some d)
    (kept : ∀ a ∈ actions, a.abandons = false) (faithful : ∀ a ∈ actions, a.faithful = true)
    (alone : ∀ s ∈ (withStore settings store).trail actions, s.before.BootsAlone) :
    (∀ id i, d.registry.get? id = some i → id ∉ d.registry.inFlight →
      ∃ j, d.store.get? id = some j ∧ j.filed = i.filed) ∧
      ((∀ a ∈ actions, a.fails = false) → store = [] → d.Quiet →
        ∀ id, (d.store.get? id).isSome ↔ (d.registry.get? id).isSome) := by
  have custody := withStoreCustody settings store
  have parked : d.Parked := parkedSteps custody (emptyParked settings) kept run
  have stocked : d.Custody ∧ d.Stocked :=
    trailHolds (P := fun d => d.Custody ∧ d.Stocked) ⟨custody, withStoreStocked keyed⟩ run
      fun s mem next ⟨custody, stocked⟩ =>
        have inside := trailActions mem
        ⟨custodyStep custody next, stockedStep custody (alone s mem) stocked (kept _ inside)
          (faithful _ inside) next⟩
  refine ⟨fun id i found free => ?_, fun works bare quiet id => ⟨fun stored => ?_, fun lives => ?_⟩⟩
  · obtain ⟨x, live, rfl⟩ := Option.map_eq_some_iff.mp found
    exact stocked.2.backs id x live free
  · have cleared : d.Custody ∧ d.Cleared :=
      trailHolds (P := fun d => d.Custody ∧ d.Cleared)
        ⟨custody, bare ▸ withNothingCleared settings⟩ run fun s mem next ⟨custody, cleared⟩ =>
          have inside := trailActions mem
          ⟨custodyStep custody next, clearedStep custody cleared (kept _ inside)
            (faithful _ inside) (works _ inside) next⟩
    rcases cleared.2.owed id stored with live | ⟨x, mem, owes⟩
    · rwa [Registry.get?, Option.isSome_map]
    · rw [idleOwes (quiet x mem)] at owes
      cases owes
  · rw [Registry.get?, Option.isSome_map, Option.isSome_iff_exists] at lives
    obtain ⟨x, live⟩ := lives
    have free : id ∉ d.registry.inFlight := fun mem => by
      obtain ⟨y, hy, parks⟩ := parked id mem
      rw [(idleHands (quiet y hy)).1] at parks
      cases parks
    obtain ⟨i, stored, _⟩ := stocked.2.backs id x live free
    rw [stored]; rfl

def restocking : List Action :=
  [.begin (.register (.fresh "a" "web" "h:1" .origin)), .proceed 0, .settle 0 none, .proceed 0,
    .proceed 0, .proceed 0,
    .begin (.deregister "a"), .begin (.register (.fresh "b" "web" "h:2" .origin)), .proceed 2,
    .proceed 1, .settle 2 none, .settle 1 none, .proceed 1, .proceed 1, .proceed 1,
    .proceed 2, .proceed 2, .proceed 2]

theorem restockingBacked :
    ∃ d, (withStore Settings.standard.directory []).steps restocking = some d ∧
      d.store.keys = ["b"] ∧
      (∃ j, d.store.get? "b" = some j ∧ (d.registry.get? "b").map (·.filed) = some j.filed) ∧
      ∀ id, (d.store.get? id).isSome ↔ (d.registry.get? id).isSome := by
  obtain ⟨d, run, keys, free, live, quiet⟩ :
      ∃ d, (withStore Settings.standard.directory []).steps restocking = some d ∧
        d.store.keys = ["b"] ∧ "b" ∉ d.registry.inFlight ∧ (d.registry.get? "b").isSome ∧ d.Quiet :=
    ⟨_, rfl, by decide +kernel, by decide +kernel, by decide +kernel, by decide +kernel⟩
  have backs := storeBacksRecords emptyKeyed run (by decide) (by decide) (by decide +kernel)
  obtain ⟨i, found⟩ := Option.isSome_iff_exists.mp live
  obtain ⟨j, stored, same⟩ := backs.1 "b" i found free
  exact ⟨d, run, keys, ⟨j, stored, by rw [found, same]; rfl⟩, backs.2 (by decide) rfl quiet⟩

end Directory
end ServiceDirectory
