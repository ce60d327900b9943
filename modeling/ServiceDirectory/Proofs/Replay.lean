import ServiceDirectory.Proofs.InFlight
import ServiceDirectory.Proofs.Listings
import ServiceDirectory.Proofs.Publication

/-! The events published, applied one after the other to an empty table, against the records. -/
namespace ServiceDirectory

def Event.applied (t : Table Instance) (e : Event) : Table Instance :=
  if e.kind.terminal then t.remove e.snapshot.id else t.put e.snapshot.id e.snapshot

def replay (story : List Event) : Table Instance := story.foldl Event.applied []

def Event.leaves (e : Event) : Option Instance := if e.kind.terminal then none else some e.snapshot

theorem foldGet (story : List Event) (t : Table Instance) (id : String) :
    (story.foldl Event.applied t).get? id =
      (about id story).foldl (fun _ e => e.leaves) (t.get? id) := by
  induction story generalizing t with
  | nil => rfl
  | cons e rest ih =>
    rw [List.foldl_cons, ih]
    by_cases mine : e.snapshot.id = id
    · have first : about id (e :: rest) = e :: about id rest := by simp [about, mine]
      rw [first, List.foldl_cons]
      congr 1
      unfold Event.applied Event.leaves
      split
      · rw [mine, Table.getRemoveSame]
      · rw [mine, Table.getPutSame]
    · have first : about id (e :: rest) = about id rest := by simp [about, mine]
      rw [first]
      congr 1
      unfold Event.applied
      split
      · rw [Table.getRemove, if_neg (Ne.symm mine)]
      · rw [Table.getPut, if_neg (Ne.symm mine)]

theorem foldDistinct (story : List Event) {t : Table Instance} (h : t.Distinct) :
    (story.foldl Event.applied t).Distinct := by
  induction story generalizing t with
  | nil => exact h
  | cons e rest ih =>
    refine ih ?_
    unfold Event.applied
    split
    · exact Table.removeDistinct h _
    · exact Table.putDistinct h _ _

namespace Chronicle
variable {a b : Option Instance} {es : List Event}

theorem leaves (told : Chronicle a es b) : es.foldl (fun _ e => e.leaves) a = b := by
  induction es generalizing a with
  | nil => exact told
  | cons e rest ih =>
    obtain ⟨m, one, others⟩ := told
    rw [List.foldl_cons, ← ih others]
    congr 1
    unfold Event.leaves
    cases a with
    | none =>
      cases m with
      | none => cases one
      | some i => rw [one.1, one.2.2.1]; rfl
    | some i =>
      cases m with
      | none => rw [one.1]; rfl
      | some j => rw [one.1, one.2.2.1]; rfl

theorem tellsOwn {e : Event} (tells : Event.Tells a e b) :
    (∀ i ∈ a, i.name = e.service) ∧ ∀ j ∈ b, j.name = e.service := by
  have later {i j : Instance} (h : i.Continues j) : i.name = j.name := by rw [h.1]
  cases a with
  | none =>
    cases b with
    | none => cases tells
    | some j => exact ⟨by simp, fun i mem => by cases mem; rw [Event.service, tells.2.2.1]⟩
  | some i =>
    cases b with
    | none => exact ⟨fun j mem => by cases mem; exact later tells.2.2.1, by simp⟩
    | some j =>
      have same : e.service = j.name := congrArg Instance.name tells.2.2.1
      exact ⟨fun k mem => by cases mem; rw [same]; exact later tells.2.2.2.1,
        fun k mem => by cases mem; exact same.symm⟩

theorem ofNames (p : String → Bool) (told : Chronicle a es b) :
    Chronicle (a.filter (p ·.name)) (es.filter (p ·.service)) (b.filter (p ·.name)) := by
  induction es generalizing a with
  | nil => exact congrArg _ told
  | cons e rest ih =>
    obtain ⟨m, one, others⟩ := told
    obtain ⟨before, after⟩ := tellsOwn one
    cases mine : p e.service with
    | true =>
      have keeps {c : Option Instance} (own : ∀ i ∈ c, i.name = e.service) :
          c.filter (p ·.name) = c := by
        cases c with
        | none => rfl
        | some i => simp [own i rfl, mine]
      rw [List.filter_cons_of_pos (by simpa using mine), keeps before]
      exact ⟨m, one, keeps after ▸ ih others⟩
    | false =>
      have drops {c : Option Instance} (own : ∀ i ∈ c, i.name = e.service) :
          c.filter (p ·.name) = none := by
        cases c with
        | none => rfl
        | some i => simp [own i rfl, mine]
      have later := ih others
      rw [drops after] at later
      rwa [List.filter_cons_of_neg (by simpa using mine), drops before]

end Chronicle

def Call.changes : Call → Bool
  | .launching => false
  | .draining => false
  | .stilling _ => false
  | .joining _ => false
  | _ => true

namespace Directory
variable {d : Directory}

/-- No registration, removal, sweep or bootstrap is under way, and no report is being applied. -/
def Quiet (d : Directory) : Prop := ∀ x ∈ d.calls, x.2.changes = false

instance (d : Directory) : Decidable d.Quiet :=
  inferInstanceAs (Decidable (∀ x ∈ d.calls, x.2.changes = false))

theorem Quiet.none {α : Type} (quiet : d.Quiet) {f : Call → List α}
    (idle : ∀ c : Call, c.changes = false → f c = []) : d.calls.flatMap (fun x => f x.2) = [] :=
  List.flatMap_eq_nil_iff.mpr fun x mem => idle x.2 (quiet x mem)

theorem idleHands {c : Call} (idle : c.changes = false) :
    c.parks = [] ∧ c.held = [] ∧ c.news = [] := by
  cases c with
  | launching => exact ⟨rfl, rfl, rfl⟩
  | draining => exact ⟨rfl, rfl, rfl⟩
  | stilling => exact ⟨rfl, rfl, rfl⟩
  | joining => exact ⟨rfl, rfl, rfl⟩
  | _ => cases idle

theorem quietTold (accounted : d.Accounted) (parked : d.Parked) (quiet : d.Quiet) (id : String) :
    ∃ last, Chronicle none (about id d.log) last ∧
      last.map Instance.unheard = (d.registry.get? id).map Instance.unheard := by
  have parks := quiet.none (f := Call.parks) fun c idle => (idleHands idle).1
  have held := quiet.none (f := Call.held) fun c idle => (idleHands idle).2.1
  have news := quiet.none (f := Call.news) fun c idle => (idleHands idle).2.2
  have story : d.story = d.log.map Event.unstamped := by
    rw [Directory.story, Directory.news, news]
    simp
  have recounted := accounted.recounted
  rw [story, held] at recounted
  cases found : d.registry.records.get? id with
  | none =>
    have free : id ∉ d.registry.inFlight := fun mem => by
      have mine := List.mem_flatMap.mpr (parked id mem)
      rw [parks] at mine
      cases mine
    have closed := recounted.closed id found (by simp) (.inr free)
    rw [Closed, aboutUnstamped] at closed
    exact ⟨none, Chronicle.unstamped.mp closed, by simp [Registry.get?, found]⟩
  | some x =>
    obtain ⟨s, told, later, status⟩ := recounted.live id x found
    rw [aboutUnstamped] at told
    refine ⟨some s, Chronicle.unstamped.mp told, ?_⟩
    simp only [Registry.get?, found, Option.map_some, Option.some.injEq]
    rw [later.1, status]
    rfl

theorem quietReplays (accounted : d.Accounted) (parked : d.Parked) (quiet : d.Quiet)
    (p : String → Bool) (id : String) :
    ((replay (d.log.filter (p ·.service))).get? id).map Instance.unheard =
      ((d.registry.get? id).filter (p ·.name)).map Instance.unheard := by
  obtain ⟨last, told, same⟩ := quietTold accounted parked quiet id
  have comm : about id (d.log.filter (p ·.service)) = (about id d.log).filter (p ·.service) := by
    simp only [about, List.filter_filter, Bool.and_comm]
  have got : (replay (d.log.filter (p ·.service))).get? id = last.filter (p ·.name) := by
    rw [replay, foldGet, comm]
    exact (told.ofNames p).leaves
  have names (o : Option Instance) : (o.filter (p ·.name)).map Instance.unheard =
      (o.map Instance.unheard).filter (p ·.name) := by
    cases o with
    | none => rfl
    | some i =>
      have kept : i.unheard.name = i.name := rfl
      simp only [Option.filter, Option.map_some, kept]
      split <;> rfl
  rw [got, names, names, same]

end Directory

theorem leavesOwn {id : String} {es : List Event} (about : ∀ e ∈ es, e.snapshot.id = id)
    {a : Option Instance} (own : ∀ i ∈ a, i.id = id) :
    ∀ i ∈ es.foldl (fun _ e => e.leaves) a, i.id = id := by
  induction es generalizing a with
  | nil => exact own
  | cons e rest ih =>
    refine ih (fun f mem => about f (List.mem_cons_of_mem _ mem)) fun i mem => ?_
    simp only [Event.leaves] at mem
    split at mem <;> cases mem
    exact about e List.mem_cons_self

theorem replayOwn (story : List Event) (id : String) (i : Instance)
    (found : (replay story).get? id = some i) : i.id = id := by
  rw [replay, foldGet] at found
  exact leavesOwn (fun e mem => by simpa using (List.mem_filter.mp mem).2) (by simp [Table.get?]) i
    found

section Listed
variable {l m : List Instance} {f g : String → Option Instance}

structure ListedBy (l : List Instance) (f : String → Option Instance) : Prop where
  distinct : (l.map (·.id)).Nodup
  found : ∀ i, i ∈ l ↔ f i.id = some i
  own : ∀ id i, f id = some i → i.id = id

theorem ListedBy.unheard (h : ListedBy l f) (u : Instance) :
    u ∈ l.map Instance.unheard ↔ (f u.id).map Instance.unheard = some u := by
  rw [List.mem_map, Option.map_eq_some_iff]
  constructor
  · rintro ⟨i, mem, rfl⟩
    exact ⟨i, (h.found i).mp mem, rfl⟩
  · rintro ⟨i, found, rfl⟩
    have own : i.id = i.unheard.id := rfl
    exact ⟨i, (h.found i).mpr (own ▸ found), rfl⟩

theorem ListedBy.alike (left : ListedBy l f) (right : ListedBy m g)
    (same : ∀ id, (f id).map Instance.unheard = (g id).map Instance.unheard) :
    Alike (l.mergeSort Registry.byId) (m.mergeSort Registry.byId) := by
  have sorted (k : List Instance) : (k.mergeSort Registry.byId).map Instance.unheard =
      (k.map Instance.unheard).mergeSort Registry.byId := List.map_mergeSort fun _ _ _ _ => rfl
  have ids {k : List Instance} (distinct : (k.map (·.id)).Nodup) :
      ((k.map Instance.unheard).map (·.id)).Nodup := by
    rw [List.map_map]
    exact distinct
  rw [Alike.iffUnheard, sorted, sorted]
  refine Registry.sortPerm ?_ (ids left.distinct)
  refine (List.perm_ext_iff_of_nodup ((ids left.distinct).of_map _)
    ((ids right.distinct).of_map _)).mpr fun u => ?_
  rw [left.unheard, right.unheard, same]

end Listed

theorem replayListed (story : List Event) :
    ListedBy (replay story).values (replay story).get? := by
  have distinct : (replay story).Distinct := foldDistinct story .nil
  have own := replayOwn story
  refine ⟨?_, fun i => ?_, own⟩
  · have keys : (replay story).values.map (·.id) = (replay story).keys := by
      simp only [Table.values, Table.keys, List.map_map]
      refine List.map_congr_left fun entry mem => ?_
      exact own entry.1 entry.2 ((Table.memIffGet distinct _ _).mp mem)
    exact keys ▸ distinct
  · rw [← Table.memIffGet distinct, Table.values, List.mem_map]
    constructor
    · rintro ⟨⟨id, j⟩, mem, rfl⟩
      rw [own id j ((Table.memIffGet distinct _ _).mp mem)]
      exact mem
    · exact fun mem => ⟨_, mem, rfl⟩

theorem Registry.liveListed {r : Registry} (sound : SoundRecords r.records r.nextEpoch)
    (shown : Instance → Bool) :
    ListedBy (r.live.filter shown) fun id => (r.get? id).filter shown := by
  refine ⟨Registry.filteredIdsDistinct sound shown, fun i => ?_, fun id i found => ?_⟩
  · rw [List.mem_filter, Registry.memLive sound, Option.filter_eq_some_iff, Registry.get?,
      Option.map_eq_some_iff]
    refine and_congr_left fun _ => ⟨fun ⟨epoch, found⟩ => ⟨_, found, rfl⟩, ?_⟩
    rintro ⟨⟨j, epoch⟩, found, rfl⟩
    exact ⟨epoch, found⟩
  · obtain ⟨x, live, rfl⟩ := Option.map_eq_some_iff.mp (Option.filter_eq_some_iff.mp found).1
    exact sound.own id x live

end ServiceDirectory
