import Mathlib.Algebra.GroupWithZero.Nat
import Mathlib.Data.List.Flatten
import ServiceDirectory.Proofs.CachedAttempt
import ServiceDirectory.Proofs.Listings
import ServiceDirectory.Proofs.Stock

/-! What is read of the records has one form, whatever order they are found in: listings strictly
by id, names strictly by spelling, every live record in the listing of one name. It hangs on nothing
but which records are live, and so do the picks that leave nothing to chance. -/
namespace ServiceDirectory

theorem eraseRepsFrom {α : Type} [BEq α] (a : α) (l seen : List α) :
    List.eraseRepsBy.loop (· == ·) a l seen = seen.reverse ++ List.eraseReps (a :: l) := by
  have loops (a : α) (l seen : List α) : List.eraseRepsBy.loop (· == ·) a l seen =
      seen.reverse ++ List.eraseRepsBy.loop (· == ·) a l [] := by
    induction l generalizing a seen with
    | nil => simp [List.eraseRepsBy.loop]
    | cons b rest ih =>
      simp only [List.eraseRepsBy.loop]
      split
      · exact ih a seen
      · rw [ih b (a :: seen), ih b [a]]
        simp
  exact loops a l seen

theorem eraseRepsCons {a b : String} {rest : List String} :
    List.eraseReps (a :: b :: rest) =
      if a = b then List.eraseReps (a :: rest) else a :: List.eraseReps (b :: rest) := by
  have unfolds : List.eraseReps (a :: b :: rest) =
      List.eraseRepsBy.loop (· == ·) a (b :: rest) [] := rfl
  rw [unfolds, List.eraseRepsBy.loop]
  by_cases same : a = b
  · simp [same, eraseRepsFrom]
  · simp [same, beq_eq_false_iff_ne.mpr same, eraseRepsFrom]

theorem memEraseReps {name : String} (l : List String) : name ∈ l.eraseReps ↔ name ∈ l := by
  cases l with
  | nil => rfl
  | cons a rest =>
    induction rest generalizing a with
    | nil => rfl
    | cons b rest ih =>
      rw [eraseRepsCons]
      split
      · rename_i same
        subst same
        rw [ih]
        simp
      · rw [List.mem_cons, ih]
        simp only [List.mem_cons]

theorem eraseRepsStrict {l : List String} (sorted : l.Pairwise (· ≤ ·)) :
    l.eraseReps.Pairwise (· < ·) := by
  cases l with
  | nil => exact .nil
  | cons a rest =>
    induction rest generalizing a with
    | nil => exact List.pairwise_singleton _ _
    | cons b rest ih =>
      obtain ⟨below, others⟩ := List.pairwise_cons.mp sorted
      rw [eraseRepsCons]
      split
      · rename_i same
        subst same
        exact ih a others
      · rename_i differ
        refine List.pairwise_cons.mpr ⟨fun c mem => ?_, ih b others⟩
        have next : ¬b ≤ a := fun back =>
          differ (String.le_antisymm (below b List.mem_cons_self) back)
        have later : b ≤ c := by
          rcases List.mem_cons.mp ((memEraseReps _).mp mem) with rfl | behind
          · exact String.le_refl _
          · exact (List.pairwise_cons.mp others).1 c behind
        exact String.not_le.mp fun back => next (String.le_trans later back)

theorem memSortedDistinct {names : List String} {name : String} :
    name ∈ sortedDistinct names ↔ name ∈ names := by
  rw [sortedDistinct, memEraseReps, List.mem_mergeSort]

theorem sortedDistinctStrict (names : List String) : (sortedDistinct names).Pairwise (· < ·) := by
  refine eraseRepsStrict ?_
  have sorted : (names.mergeSort fun a b => a ≤ b).Pairwise fun a b => decide (a ≤ b) = true := by
    refine List.pairwise_mergeSort ?_ ?_ names
    · intro a b c first second
      simp only [decide_eq_true_eq] at first second ⊢
      exact String.le_trans first second
    · intro a b
      simpa using String.le_total a b
  exact sorted.imp fun first => of_decide_eq_true first

theorem sortedDistinctNodup (names : List String) : (sortedDistinct names).Nodup :=
  (sortedDistinctStrict names).imp fun {a b} less same => by
    subst same
    exact String.lt_irrefl a less

namespace Registry
variable {r s : Registry}

theorem getIff (r : Registry) (i : Instance) :
    r.get? i.id = some i ↔ ∃ epoch, r.records.get? i.id = some ⟨i, epoch⟩ := by
  rw [get?, Option.map_eq_some_iff]
  constructor
  · rintro ⟨x, found, rfl⟩
    exact ⟨x.epoch, found⟩
  · rintro ⟨epoch, found⟩
    exact ⟨⟨i, epoch⟩, found, rfl⟩

theorem memServices {name : String} : name ∈ r.services ↔ ∃ i ∈ r.live, i.name = name := by
  rw [services, memSortedDistinct, List.mem_map]

theorem listStrict (sound : SoundRecords r.records r.nextEpoch) (service : String)
    (includeDown : Bool) : ((r.list service includeDown).map (·.id)).Pairwise (· < ·) := by
  have distinct : ((r.list service includeDown).map (·.id)).Nodup :=
    ((List.mergeSort_perm _ byId).map _).nodup_iff.mpr (filteredIdsDistinct sound _)
  have sorted := byIdSorted (r.live.filter (listed service includeDown))
  refine List.pairwise_map.mpr ?_
  refine (sorted.and (List.pairwise_map.mp distinct)).imp fun {i j} both => ?_
  have ordered : i.id ≤ j.id := of_decide_eq_true both.1
  exact String.not_le.mp fun back => both.2 (String.le_antisymm ordered back)

theorem listsPart (sound : SoundRecords r.records r.nextEpoch) :
    (r.services.flatMap fun name => r.list name true).Perm r.live := by
  have distinct : (r.services.flatMap fun name => r.list name true).Nodup := by
    refine List.nodup_flatMap.mpr ⟨fun name _ => ?_, ?_⟩
    · exact List.Nodup.of_map _ ((listStrict sound name true).imp fun less same => by
        exact String.lt_irrefl _ (same ▸ less))
    · refine (sortedDistinctStrict _).imp fun {m n} less i left right => ?_
      have first : i.name = m := ((memList sound m true i).mp left).2.1
      have second : i.name = n := ((memList sound n true i).mp right).2.1
      obtain rfl : m = n := first.symm.trans second
      exact String.lt_irrefl m less
  refine (List.perm_ext_iff_of_nodup distinct (List.Nodup.of_map _ (liveIdsDistinct sound))).mpr
    fun i => ?_
  rw [List.mem_flatMap]
  constructor
  · rintro ⟨name, _, mem⟩
    exact (memLive sound i).mpr ((memList sound name true i).mp mem).1
  · intro mem
    exact ⟨i.name, memServices.mpr ⟨i, mem, rfl⟩,
      (memList sound i.name true i).mpr ⟨(memLive sound i).mp mem, rfl, .inl rfl⟩⟩

structure Canonical (r : Registry) : Prop where
  ordered : ∀ service includeDown, ((r.list service includeDown).map (·.id)).Pairwise (· < ·)
  listed : ∀ service includeDown i, i ∈ r.list service includeDown ↔
    r.get? i.id = some i ∧ i.name = service ∧ (includeDown = true ∨ i.status ≠ .down)
  named : r.services.Pairwise (· < ·)
  served : ∀ name, name ∈ r.services ↔ ∃ i, r.get? i.id = some i ∧ i.name = name
  own : ∀ id i, r.get? id = some i → i.id = id
  apart : (r.live.map (·.id)).Nodup
  parts : (r.services.flatMap fun name => r.list name true).Perm r.live
  counted : (r.services.map fun name => (r.list name true).length).sum = r.size

theorem canonicalOf (sound : SoundRecords r.records r.nextEpoch) : r.Canonical where
  ordered := listStrict sound
  listed service includeDown i := by rw [memList sound, getIff]
  named := sortedDistinctStrict _
  served name := by simp only [memServices, memLive sound, getIff]
  own id i found := by
    obtain ⟨x, live, rfl⟩ := Option.map_eq_some_iff.mp found
    exact sound.own id x live
  apart := liveIdsDistinct sound
  parts := listsPart sound
  counted := by
    rw [← List.length_flatMap, (listsPart sound).length_eq]
    simp [live, Table.values, size]

end Registry

namespace Resolve
variable {q : Query} {r s : Registry}

def Strategy.drawless : Strategy → Bool
  | .roundRobin => true
  | .first => true
  | _ => false

namespace Strategy

theorem drawlessBuiltIn {s : Strategy} (drawless : s.drawless = true) : s.builtIn = true := by
  cases s with
  | roundRobin => rfl
  | first => rfl
  | _ => cases drawless

theorem selectDrawless {s : Strategy} (drawless : s.drawless = true) (draw other : Draw)
    (cursor : Cursor) (l : List Instance) : s.select draw cursor l = s.select other cursor l := by
  cases s with
  | roundRobin => rfl
  | first => rfl
  | _ => cases drawless

end Strategy

namespace Query

theorem directDrawless (drawless : q.strategy.drawless = true)
    (same : r.list q.service false = s.list q.service false) (draw other : Draw)
    (cursor : Cursor) : q.direct r draw cursor = q.direct s other cursor := by
  simp only [direct, same]
  rw [Strategy.selectDrawless drawless draw other]

theorem attemptDirect (own : q.strategy.builtIn = true) (r : Registry) (now : Nat) (draw : Draw)
    (shared : Shared) :
    (q.uncached.attempt r now draw shared).1 = (q.direct r draw shared.cursor).1 ∧
      (q.uncached.attempt r now draw shared).2.cursor = (q.direct r draw shared.cursor).2 := by
  have off : Yields q.uncached r now draw longest .lookup shared
      (q.direct r draw shared.cursor).1 (q.direct r draw shared.cursor).2 (q.directOffers r) :=
    (yieldsDirect (q := q.uncached) own shared).next rfl
  exact ⟨off.result, off.cursor⟩

end Query
end Resolve

namespace Registry
open Resolve (Strategy Query Draw Cursor Shared)
variable {r s : Registry}

/-- Nothing tells one from the other in what is read of them, nor in what the strategies that draw
nothing make of it, turn after turn. -/
structure ReadsAs (r s : Registry) : Prop where
  lists : ∀ service includeDown, r.list service includeDown = s.list service includeDown
  services : r.services = s.services
  size : r.size = s.size
  picks : ∀ strategy : Strategy, strategy.drawless = true → ∀ (filters : List Filter)
    (service : String) (includeDown : Bool) (draw other : Draw) (cursor : Cursor),
    strategy.select draw cursor (Filter.keep filters (r.list service includeDown)) =
      strategy.select other cursor (Filter.keep filters (s.list service includeDown))
  attempts : ∀ q : Query, q.strategy.drawless = true → ∀ (now later : Nat) (draw other : Draw)
    (shared apart : Shared), shared.cursor = apart.cursor →
    (q.uncached.attempt r now draw shared).1 = (q.uncached.attempt s later other apart).1 ∧
      (q.uncached.attempt r now draw shared).2.cursor =
        (q.uncached.attempt s later other apart).2.cursor

theorem livePerm (left : SoundRecords r.records r.nextEpoch)
    (right : SoundRecords s.records s.nextEpoch) (same : ∀ i, i ∈ r.live ↔ i ∈ s.live) :
    r.live.Perm s.live :=
  (List.perm_ext_iff_of_nodup (List.Nodup.of_map _ (liveIdsDistinct left))
    (List.Nodup.of_map _ (liveIdsDistinct right))).mpr same

theorem readsAsOf (left : SoundRecords r.records r.nextEpoch)
    (right : SoundRecords s.records s.nextEpoch) (same : ∀ i, i ∈ r.live ↔ i ∈ s.live) :
    r.ReadsAs s := by
  have perm := livePerm left right same
  have lists (service : String) (includeDown : Bool) :
      r.list service includeDown = s.list service includeDown :=
    sortPerm (perm.filter _) (filteredIdsDistinct left _)
  refine ⟨lists, ?_, ?_, fun strategy drawless filters service includeDown draw other cursor => ?_,
    fun q drawless now later draw other shared apart level => ?_⟩
  · refine List.Perm.eq_of_pairwise (fun m n _ _ less greater => ?_) (sortedDistinctStrict _)
      (sortedDistinctStrict _) ?_
    · exact absurd greater (String.lt_asymm less)
    · refine (List.perm_ext_iff_of_nodup (sortedDistinctNodup _) (sortedDistinctNodup _)).mpr
        fun name => ?_
      rw [memSortedDistinct, memSortedDistinct]
      exact (perm.map _).mem_iff
  · simpa [live, Table.values, size] using perm.length_eq
  · rw [lists, Strategy.selectDrawless drawless draw other]
  · have own := Strategy.drawlessBuiltIn drawless
    have here := Query.attemptDirect own r now draw shared
    have there := Query.attemptDirect own s later other apart
    have turn := Query.directDrawless drawless (lists q.service false) draw other shared.cursor
    rw [here.1, here.2, there.1, there.2, turn, level]
    exact ⟨rfl, rfl⟩

end Registry

namespace Directory
variable {d e : Directory}

theorem soundRun {settings : DirectorySettings} {store : Table Instance} {past : List Action}
    (run : (withStore settings store).steps past = some d) :
    SoundRecords d.registry.records d.registry.nextEpoch :=
  (custodySteps (withStoreCustody settings store) run).sound

/-- However the records lie in memory after a run, what is read of them has its one form, and so it
has when they lie otherwise. Two runs that end with the same live records read as one. -/
theorem readsAreCanonical {settings : DirectorySettings} {store : Table Instance}
    {past : List Action} (run : (withStore settings store).steps past = some d) :
    (∀ records : Table Record, records.Perm d.registry.records →
      ({ d.registry with records } : Registry).Canonical ∧
        ({ d.registry with records } : Registry).ReadsAs d.registry) ∧
      ∀ {others : DirectorySettings} {filed : Table Instance} {actions : List Action}
        {e : Directory}, (withStore others filed).steps actions = some e →
        (∀ i, i ∈ e.registry.live ↔ i ∈ d.registry.live) → e.registry.ReadsAs d.registry := by
  have sound := soundRun run
  refine ⟨fun records perm => ?_, fun run same => Registry.readsAsOf (soundRun run) sound same⟩
  have moved : SoundRecords records d.registry.nextEpoch := sound.reorder perm
  refine ⟨Registry.canonicalOf moved, Registry.readsAsOf moved sound fun i => ?_⟩
  have live : (records.values.map (·.snapshot)).Perm (d.registry.records.values.map (·.snapshot)) :=
    (perm.map _).map _
  exact live.mem_iff

def registerAt (call : CallId) (id service : String) : List Action :=
  [.begin (.register (.fresh id service "h:1" .origin)), .proceed call, .settle call none,
    .proceed call, .proceed call, .proceed call]

def nearFirst : List Action :=
  registerAt 0 "a" "web" ++ registerAt 1 "b" "web" ++ registerAt 2 "c" "api"

def farFirst : List Action :=
  registerAt 0 "c" "api" ++ registerAt 1 "b" "web" ++ registerAt 2 "a" "web"

theorem registeredEitherWay :
    ∃ d e, (withStore Settings.standard.directory []).steps nearFirst = some d ∧
      (withStore Settings.standard.directory []).steps farFirst = some e ∧
      d.registry.records.keys = ["a", "b", "c"] ∧ e.registry.records.keys = ["c", "b", "a"] ∧
      ({ d.registry with records := d.registry.records.reverse } : Registry).Canonical ∧
      e.registry.ReadsAs d.registry := by
  have ran : ((withStore Settings.standard.directory []).steps nearFirst).bind (fun d =>
      ((withStore Settings.standard.directory []).steps farFirst).map fun e =>
        (d.registry.records.keys, e.registry.records.keys,
          e.registry.live.isPerm d.registry.live)) =
      some (["a", "b", "c"], ["c", "b", "a"], true) := by decide +kernel
  obtain ⟨d, near, ran⟩ := Option.bind_eq_some_iff.mp ran
  obtain ⟨e, far, ends⟩ := Option.map_eq_some_iff.mp ran
  obtain ⟨nearKeys, farKeys, perm⟩ : _ ∧ _ ∧ _ := by simpa only [Prod.mk.injEq] using ends
  have reads := readsAreCanonical near
  exact ⟨d, e, near, far, nearKeys, farKeys, (reads.1 _ (List.reverse_perm _)).1,
    reads.2 far fun i => (List.isPerm_iff.mp perm).mem_iff⟩

end Directory
end ServiceDirectory
