import ServiceDirectory.Proofs.CacheHistory

/-! The answers and the counts of a cache over any run. It answers what stands under the key and
nothing else; as long as there is room for every key, it answers whenever something stands. -/
namespace ServiceDirectory.Resolve

def keys (uses : List CacheUse) : Finset (String × String) := (uses.filterMap (·.key?)).toFinset

def stocked (service : String) (uses : List CacheUse) : Bool :=
  (uses.reverse.takeWhile fun u => u != .invalidate service && u != .clear).any (·.stores service)

theorem keysGrow (uses : List CacheUse) (u : CacheUse) : keys uses ⊆ keys (uses ++ [u]) := by
  intro key mem
  rw [keys, List.mem_toFinset] at mem ⊢
  rw [List.filterMap_append]
  exact List.mem_append_left _ mem

theorem stockedLast (service : String) (uses : List CacheUse) (u : CacheUse) :
    stocked service (uses ++ [u]) =
      if u = .invalidate service ∨ u = .clear then false
      else u.stores service || stocked service uses := by
  rw [stocked, List.reverse_append, List.reverse_singleton, List.singleton_append,
    List.takeWhile_cons]
  by_cases ends : u = .invalidate service ∨ u = .clear
  · rw [if_pos ends]
    rcases ends with rfl | rfl <;> simp
  · rw [if_neg ends]
    rw [not_or] at ends
    simp [ends.1, ends.2, stocked]

namespace Clocked
variable {how : Clearing} {lifetime capacity : Nat} {uses : List CacheUse} {c : Clocked}
  {u : CacheUse} {service strategy : String} {revision : Nat} {content : Content}

theorem capacityAfter (how : Clearing) (lifetime capacity : Nat) (uses : List CacheUse) :
    (after how lifetime capacity uses).cache.capacity = capacity := by
  induction uses using List.reverseRecOn with
  | nil => rfl
  | append_singleton uses u ih => rw [afterLast, (madeUse _ u).capacity, ih]

namespace Faithful

theorem othersFew (h : Faithful how lifetime uses c) (service strategy : String) (revision : Nat)
    (content : Content) :
    (c.cache.entries.filter fun e =>
        !e.isFor service strategy && e.alive c.cache.lifetime c.now).length <
      (keys (uses ++ [.insert service strategy revision content])).card := by
  have distinct := Cache.filterDistinct h.distinct fun e =>
    !e.isFor service strategy && e.alive c.cache.lifetime c.now
  generalize others : c.cache.entries.filter (fun e =>
    !e.isFor service strategy && e.alive c.cache.lifetime c.now) = l at distinct
  have each : ∀ e ∈ l, (e.service, e.strategy) ∈ keys uses ∧
      (e.service, e.strategy) ≠ (service, strategy) := fun e mem => by
    rw [← others, List.mem_filter, Bool.and_eq_true, h.limit] at mem
    obtain ⟨since, stored⟩ := h.stored e mem.1 mem.2.2
    refine ⟨List.mem_toFinset.mpr stored.inserted, fun same => ?_⟩
    obtain ⟨own, own'⟩ := Prod.mk.inj same
    simp [Entry.isFor, own, own'] at mem
  have fresh : (service, strategy) ∉ l.map fun e => (e.service, e.strategy) := fun mem => by
    obtain ⟨e, there, same⟩ := List.mem_map.mp mem
    exact (each e there).2 same
  have whole := List.toFinset_card_of_nodup (List.nodup_cons.mpr ⟨fresh, distinct⟩)
  rw [List.length_cons, List.length_map] at whole
  rw [Nat.lt_iff_add_one_le, ← whole]
  refine Finset.card_le_card fun key mem => ?_
  rcases List.mem_cons.mp (List.mem_toFinset.mp mem) with rfl | other
  · exact List.mem_toFinset.mpr (by simp [CacheUse.key?])
  · obtain ⟨e, there, rfl⟩ := List.mem_map.mp other
    exact keysGrow uses _ (each e there).1

theorem keptUse (h : Faithful how lifetime uses c)
    (room : (keys (uses ++ [u])).card ≤ c.cache.capacity)
    (kept : ∀ e since, Stored how uses since e → e.alive lifetime c.now = true → e ∈ c.cache.entries)
    {e : Entry} {since : List CacheUse} (stored : Stored how (uses ++ [u]) since e)
    (alive : e.alive lifetime (c.use u).now = true) : e ∈ (c.use u).cache.entries := by
  have earlier : e.alive lifetime c.now = true := aliveEarlier u (nowUse c u ▸ alive)
  rcases stored.cases with ⟨rfl, rfl, time⟩ | ⟨before, rfl, old, undropped⟩
  · refine Cache.insertMem.mpr (.inr ⟨Nat.lt_of_lt_of_le (h.othersFew _ _ _ _) room, ?_⟩)
    rw [h.now, ← time]
  · have there := kept e before old earlier
    rw [dropsNotIff] at undropped
    cases u with
    | insert service strategy revision content =>
      have other := undropped.resolve_right fun spared => by simpa using sparedUse spared
      exact Cache.insertMem.mpr (.inl ⟨there, other, h.limit ▸ earlier⟩)
    | get service strategy revision =>
      refine (Cache.getMem h.distinct).mpr ⟨there, fun own _ => ?_⟩
      have own : (e.service == service && e.strategy == strategy) = true := own
      have same := undropped.resolve_right fun spared => by simpa using sparedUse spared
      simpa [ends, own] using same
    | invalidate service =>
      refine Cache.invalidateMem.mpr ⟨there, fun own => ?_⟩
      have cleared := sparedCleared (undropped.resolve_left (by simp [ends, own]))
      exact fun known => (h.known e before old).mp (own ▸ known) cleared
    | clear =>
      refine Cache.clearMem.mpr ⟨there, ?_⟩
      have spared := undropped.resolve_left (Bool.noConfusion ·)
      rw [h.clearing]
      cases how with
      | everything => cases spared
      | earlier =>
        have none : elapsed before = 0 := beq_iff_eq.mp spared
        refine decide_eq_true ?_
        rw [h.now, old.time, none]
        exact Nat.le_refl _
    | advance ms => exact there
    | evict service strategy =>
      have other := undropped.resolve_right fun spared => by simpa using sparedUse spared
      exact Cache.evictMem.mpr ⟨there, other⟩

theorem keptAfter (room : (keys uses).card ≤ capacity) {e : Entry} {since : List CacheUse}
    (stored : Stored how uses since e)
    (alive : e.alive lifetime (Clocked.after how lifetime capacity uses).now = true) :
    e ∈ (Clocked.after how lifetime capacity uses).cache.entries := by
  induction uses using List.reverseRecOn generalizing e since with
  | nil =>
    obtain ⟨early, split, _⟩ := stored.split
    simp at split
  | append_singleton uses u ih =>
    have before := Nat.le_trans (Finset.card_le_card (keysGrow uses u)) room
    rw [afterLast] at alive ⊢
    refine (Faithful.after how lifetime capacity uses).keptUse ?_ (fun e since => ih before) stored
      alive
    rwa [capacityAfter]

theorem answerIff (h : Faithful how lifetime uses c) :
    c.answer service strategy revision = some content ↔
      ∃ e ∈ c.cache.entries, e.isFor service strategy = true ∧ e.alive lifetime c.now = true ∧
        e.revision = revision ∧ e.content = content := by
  have found {e : Entry} : c.cache.find? service strategy c.now = some e ↔
      e ∈ c.cache.entries ∧ e.isFor service strategy = true ∧ e.alive lifetime c.now = true := by
    rw [Cache.findIff h.distinct, h.limit]
  simp only [answer, Cache.get]
  constructor
  · intro hit
    split at hit
    · rename_i e there
      split at hit
      · rename_i same
        obtain ⟨mem, own, alive⟩ := found.mp there
        exact ⟨e, mem, own, alive, by simpa using same, Option.some.inj hit⟩
      · cases hit
    · cases hit
  · rintro ⟨e, mem, own, alive, rfl, rfl⟩
    rw [found.mpr ⟨mem, own, alive⟩]
    simp

theorem answersRemaining (h : Faithful how lifetime uses c)
    (hit : c.answer service strategy revision = some content) :
    Remains how lifetime uses service strategy revision content := by
  obtain ⟨e, mem, own, alive, rfl, rfl⟩ := h.answerIff.mp hit
  obtain ⟨rfl, rfl⟩ := Cache.isForIff.mp own
  obtain ⟨since, stored⟩ := h.stored e mem alive
  obtain ⟨early, split, time⟩ := stored.split
  refine ⟨early, since, split, ?_, stored.undropped⟩
  have spent := stored.time
  simp only [Entry.alive, decide_eq_true_eq, h.now] at alive
  omega

theorem remainingAnswers (room : (keys uses).card ≤ capacity)
    (remains : Remains how lifetime uses service strategy revision content) :
    (Clocked.after how lifetime capacity uses).answer service strategy revision = some content := by
  obtain ⟨early, since, split, young, undropped⟩ := remains
  have faithful := Faithful.after how lifetime capacity uses
  have stored : Stored how uses since ⟨service, strategy, revision, content, elapsed early⟩ :=
    ⟨⟨early, split, rfl⟩, undropped⟩
  have alive : (⟨service, strategy, revision, content, elapsed early⟩ : Entry).alive lifetime
      (Clocked.after how lifetime capacity uses).now = true := by
    rw [faithful.now, stored.time]
    simpa [Entry.alive] using young
  exact faithful.answerIff.mpr
    ⟨_, keptAfter room stored alive, by simp [Entry.isFor], alive, rfl, rfl⟩

end Faithful

theorem stockedIs (how : Clearing) (lifetime capacity : Nat) (service : String)
    (uses : List CacheUse) :
    ((after how lifetime capacity uses).cache.cached.get? service).isSome = stocked service uses := by
  induction uses using List.reverseRecOn with
  | nil => rfl
  | append_singleton uses u ih =>
    rw [afterLast, stockedLast, ← ih]
    cases u with
    | insert s strategy revision content =>
      simp only [use, Cache.insert, Table.getPut, reduceCtorEq, or_self, if_false,
        CacheUse.stores]
      by_cases own : service = s
      · simp [own]
      · simp [own, Ne.symm own]
    | invalidate s =>
      simp only [use, Cache.invalidate, CacheUse.stores, reduceCtorEq, or_false,
        CacheUse.invalidate.injEq, Bool.false_or]
      by_cases own : s = service
      · subst own
        rw [if_pos rfl]
        split
        · rename_i none
          simp [none]
        · simp [Table.getRemove]
      · rw [if_neg own]
        split
        · rfl
        · simp [Table.getRemove, Ne.symm own]
    | clear => simp [use, Cache.clear, Table.get?]
    | get s strategy revision =>
      simp [use, (Cache.getSettled _ _ _ _ _).1, CacheUse.stores]
    | _ => simp [use, Cache.evict, Cache.drop, CacheUse.stores]

def hit (how : Clearing) (lifetime capacity : Nat) (x : List CacheUse × CacheUse) : Bool :=
  match x.2 with
  | .get service strategy revision =>
    ((after how lifetime capacity x.1).answer service strategy revision).isSome
  | _ => false

def invalidates (x : List CacheUse × CacheUse) : Bool :=
  match x.2 with
  | .invalidate service => stocked service x.1
  | _ => false

theorem getCounts (c : Cache) (service strategy : String) (revision now : Nat) :
    (c.get service strategy revision now).2.hits =
        c.hits + (if (c.get service strategy revision now).1.isSome = true then 1 else 0) ∧
      (c.get service strategy revision now).2.hits +
          (c.get service strategy revision now).2.misses = c.hits + c.misses + 1 := by
  unfold Cache.get
  split
  · split
    · exact ⟨rfl, by simp only; omega⟩
    · exact ⟨rfl, rfl⟩
  · exact ⟨rfl, rfl⟩

theorem countsAre (how : Clearing) (lifetime capacity : Nat) (uses : List CacheUse) :
    (after how lifetime capacity uses).cache.hits =
        (occasions uses).countP (hit how lifetime capacity) ∧
      (after how lifetime capacity uses).cache.hits +
          (after how lifetime capacity uses).cache.misses =
        uses.countP (·.isGet) ∧
      (after how lifetime capacity uses).cache.invalidations =
        (occasions uses).countP invalidates := by
  induction uses using List.reverseRecOn with
  | nil => exact ⟨rfl, rfl, rfl⟩
  | append_singleton uses u ih =>
    obtain ⟨hits, gets, invalidations⟩ := ih
    rw [afterLast, occasionsLast, List.countP_append, List.countP_append, List.countP_append,
      List.countP_singleton, List.countP_singleton, List.countP_singleton, ← hits, ← gets,
      ← invalidations]
    cases u with
    | get service strategy revision =>
      obtain ⟨found, all⟩ := getCounts (after how lifetime capacity uses).cache service strategy
        revision (after how lifetime capacity uses).now
      exact ⟨found, all, (Cache.getSettled _ _ _ _ _).2⟩
    | invalidate service =>
      obtain ⟨hits, misses⟩ :=
        Cache.invalidateSettled (after how lifetime capacity uses).cache service
      refine ⟨hits, by simp [use, hits, misses, CacheUse.isGet], ?_⟩
      simp only [use, invalidates, ← stockedIs how lifetime capacity]
      unfold Cache.invalidate
      cases (after how lifetime capacity uses).cache.cached.get? service <;> rfl
    | _ => exact ⟨rfl, rfl, rfl⟩

theorem foundElsewhere (c : Clocked) (u : CacheUse) {s t : String} (about : u.service? = some s)
    (other : t ≠ s) (strategy : String) {later : Nat} (since : c.now ≤ later) :
    (c.use u).cache.find? t strategy later = c.cache.find? t strategy later := by
  have apart (k : String) (e : Entry) (own : e.isFor t strategy = true) : e.isFor s k = false := by
    obtain ⟨rfl, rfl⟩ := Cache.isForIff.mp own
    simp [Entry.isFor, other]
  -- What goes is of the other service, or has had its time.
  have filtered (p : Entry → Bool) (stays : ∀ e, e.isFor t strategy = true →
      e.alive c.cache.lifetime later = true → p e = true) :
      (c.cache.entries.filter p).find? (fun e =>
        e.isFor t strategy && e.alive c.cache.lifetime later) = c.cache.find? t strategy later := by
    rw [List.find?_filter, Cache.find?]
    congr 1
    funext e
    cases own : e.isFor t strategy with
    | false => simp
    | true =>
      cases alive : e.alive c.cache.lifetime later with
      | false => simp
      | true => simp [stays e own alive]
  cases u with
  | insert service k revision content =>
    cases Option.some.inj about
    have lives (e : Entry) (alive : e.alive c.cache.lifetime later = true) :
        e.alive c.cache.lifetime c.now = true := by
      simp only [Entry.alive, decide_eq_true_eq] at alive ⊢
      omega
    have others := filtered (fun e => !e.isFor s k && e.alive c.cache.lifetime c.now)
      fun e own alive => by simp [apart k e own, lives e alive]
    simp only [use, Cache.insert, Cache.find?]
    split
    · rw [List.find?_append, others, List.find?_cons_of_neg, List.find?_nil, Option.or_none]
      · rfl
      · simp [Entry.isFor, Ne.symm other]
    · exact others
  | get service k revision =>
    cases Option.some.inj about
    simp only [use, Cache.get]
    split
    · split
      · rfl
      · exact filtered _ fun e own _ => by simp [apart k e own]
    · rfl
  | invalidate service =>
    cases Option.some.inj about
    simp only [use, Cache.invalidate]
    split
    · rfl
    · refine filtered _ fun e own _ => ?_
      obtain ⟨rfl, rfl⟩ := Cache.isForIff.mp own
      simp [other]
  | evict service k =>
    cases Option.some.inj about
    exact filtered _ fun e own _ => by simp [apart k e own]
  | clear => cases about
  | advance ms => cases about

/-- Whatever is done with a cache whose clear takes everything, it answers only what stands under the
key, for the revision that is asked for; and whenever there is room for all keys ever stored under, it
answers all that stands. What is done for one service leaves what is found for others. Every lookup is
a hit or a miss, as it answers or not, and an invalidation counts if anything has been stored for the
service since the last one or the last clear. -/
theorem answersWhatStands (lifetime capacity : Nat) (uses : List CacheUse) :
    (∀ service strategy revision content,
        (after .everything lifetime capacity uses).answer service strategy revision = some content →
          Stands lifetime uses service strategy revision content) ∧
      ((keys uses).card ≤ capacity → ∀ service strategy revision content,
        Stands lifetime uses service strategy revision content →
          (after .everything lifetime capacity uses).answer service strategy revision =
            some content) ∧
      (∀ u service other, u.service? = some service → other ≠ service →
        ∀ strategy later, (after .everything lifetime capacity uses).now ≤ later →
          (after .everything lifetime capacity (uses ++ [u])).cache.find? other strategy later =
            (after .everything lifetime capacity uses).cache.find? other strategy later) ∧
      (after .everything lifetime capacity uses).cache.hits =
        (occasions uses).countP (hit .everything lifetime capacity) ∧
      (after .everything lifetime capacity uses).cache.hits +
          (after .everything lifetime capacity uses).cache.misses = uses.countP (·.isGet) ∧
      (after .everything lifetime capacity uses).cache.invalidations =
        (occasions uses).countP invalidates := by
  refine ⟨fun service strategy revision content answers => ?_,
    fun room service strategy revision content stands => ?_,
    fun u service other about apart strategy later since => ?_,
    countsAre .everything lifetime capacity uses⟩
  · have faithful := Faithful.after .everything lifetime capacity uses
    exact remainsStands.mp (faithful.answersRemaining answers)
  · exact Faithful.remainingAnswers room (remainsStands.mpr stands)
  · rw [afterLast]
    exact foundElsewhere _ u about apart strategy since

def shelved : Content := .candidates [.fresh "a" "web" "a:80" .origin]

def twoShelved : List CacheUse :=
  [.insert "web" "first" 1 (.candidates []), .insert "web" "first" 2 shelved, .advance 40, .clear,
    .insert "api" "first" 2 shelved, .insert "db" "random" 7 shelved, .get "web" "first" 2,
    .insert "web" "first" 3 shelved, .advance 59]

theorem twoShelvedStand :
    (keys twoShelved).card ≤ 3 ∧ Stands 60 twoShelved "web" "first" 3 shelved ∧
      (after .everything 60 3 twoShelved).answer "web" "first" 3 = some shelved ∧
      Stands 60 twoShelved "api" "first" 2 shelved ∧
      (after .everything 60 3 (twoShelved ++ [.invalidate "web"])).cache.find? "db" "random" 99 =
        (after .everything 60 3 twoShelved).cache.find? "db" "random" 99 ∧
      (after .everything 60 3 twoShelved).cache.hits = 0 := by
  have room : (keys twoShelved).card ≤ 3 := by decide
  have stands : Stands 60 twoShelved "web" "first" 3 shelved :=
    ⟨twoShelved.take 7, [.advance 59], rfl, by decide, by decide⟩
  obtain ⟨only, all, apart, hits, _⟩ := answersWhatStands 60 3 twoShelved
  exact ⟨room, stands, all room _ _ _ _ stands, only _ _ _ _ (by decide),
    apart (.invalidate "web") "web" "db" rfl (by decide) "random" 99 (by decide),
    hits.trans (by decide)⟩

theorem sparedIsAnswered {early : List CacheUse} (lives : 0 < lifetime)
    (room : (keys (early ++ [.insert service strategy revision content, .clear,
      .invalidate service])).card ≤ capacity) :
    (after .earlier lifetime capacity (early ++ [.insert service strategy revision content, .clear,
      .invalidate service])).answer service strategy revision = some content := by
  refine Faithful.remainingAnswers room ⟨early, [.clear, .invalidate service], rfl, lives, ?_⟩
  intro x mem
  have either : x = ([], .clear) ∨ x = ([.clear], .invalidate service) := by
    simpa [occasions, occasionsFrom] using mem
  rcases either with rfl | rfl <;> exact dropsNotIff.mpr (.inr rfl)

end Clocked
end ServiceDirectory.Resolve
