import Mathlib.Algebra.GroupWithZero.Nat
import Mathlib.Data.Finset.Card
import Mathlib.Data.List.Induction
import ServiceDirectory.Proofs.Occasions
import ServiceDirectory.Proofs.Table
import ServiceDirectory.Resolve.Cache

/-! What a cache answers, from what has been done with it alone: the last thing stored under a key,
as long as it is young enough and nothing done since drops it. If a clear leaves what was stored at
its very moment, what it leaves is out of reach of later invalidations. -/
namespace ServiceDirectory.Resolve

inductive CacheUse where
  | insert (service strategy : String) (revision : Nat) (content : Content)
  | get (service strategy : String) (revision : Nat)
  | invalidate (service : String)
  | clear
  | advance (ms : Nat)
  | evict (service strategy : String)
  deriving DecidableEq, Repr

namespace CacheUse

def ms : CacheUse → Nat
  | .advance ms => ms
  | _ => 0

def key? : CacheUse → Option (String × String)
  | .insert service strategy _ _ => some (service, strategy)
  | _ => none

def service? : CacheUse → Option String
  | .insert service _ _ _ => some service
  | .get service _ _ => some service
  | .invalidate service => some service
  | .evict service _ => some service
  | _ => none

def stores (service : String) : CacheUse → Bool
  | .insert s _ _ _ => s == service
  | _ => false

def isGet : CacheUse → Bool
  | .get _ _ _ => true
  | _ => false

end CacheUse

def elapsed (uses : List CacheUse) : Nat := (uses.map (·.ms)).sum

theorem elapsedLast (uses : List CacheUse) (u : CacheUse) :
    elapsed (uses ++ [u]) = elapsed uses + u.ms := by simp [elapsed]

structure Clocked where
  cache : Cache
  now : Nat
  deriving DecidableEq, Repr

namespace Clocked

def use (c : Clocked) : CacheUse → Clocked
  | .insert service strategy revision content =>
    { c with cache := c.cache.insert service strategy revision content c.now }
  | .get service strategy revision =>
    { c with cache := (c.cache.get service strategy revision c.now).2 }
  | .invalidate service => { c with cache := c.cache.invalidate service }
  | .clear => { c with cache := c.cache.clear c.now }
  | .advance ms => { c with now := c.now + ms }
  | .evict service strategy => { c with cache := c.cache.evict service strategy }

def after (how : Clearing) (lifetime capacity : Nat) (uses : List CacheUse) : Clocked :=
  uses.foldl use ⟨{ Cache.empty lifetime capacity with clearing := how }, 0⟩

def answer (c : Clocked) (service strategy : String) (revision : Nat) : Option Content :=
  (c.cache.get service strategy revision c.now).1

theorem afterLast (how : Clearing) (lifetime capacity : Nat) (uses : List CacheUse)
    (u : CacheUse) :
    after how lifetime capacity (uses ++ [u]) = (after how lifetime capacity uses).use u := by
  simp [after]

end Clocked

def ends (service strategy : String) (revision : Nat) : CacheUse → Bool
  | .insert s k _ _ => service == s && strategy == k
  | .get s k r => service == s && strategy == k && revision != r
  | .invalidate s => service == s
  | .clear => true
  | .advance _ => false
  | .evict s k => service == s && strategy == k

def Stands (lifetime : Nat) (uses : List CacheUse) (service strategy : String) (revision : Nat)
    (content : Content) : Prop :=
  ∃ early since, uses = early ++ .insert service strategy revision content :: since ∧
    elapsed since < lifetime ∧ ∀ u ∈ since, ends service strategy revision u = false

def Clearing.spares (how : Clearing) (x : List CacheUse × CacheUse) : Bool :=
  match how, x.2 with
  | .earlier, .clear => elapsed x.1 == 0
  | .earlier, .invalidate _ => x.1.contains .clear
  | _, _ => false

def drops (how : Clearing) (service strategy : String) (revision : Nat)
    (x : List CacheUse × CacheUse) : Bool :=
  ends service strategy revision x.2 && !how.spares x

def Remains (how : Clearing) (lifetime : Nat) (uses : List CacheUse) (service strategy : String)
    (revision : Nat) (content : Content) : Prop :=
  ∃ early since, uses = early ++ .insert service strategy revision content :: since ∧
    elapsed since < lifetime ∧ ∀ x ∈ occasions since, drops how service strategy revision x = false

structure Stored (how : Clearing) (uses since : List CacheUse) (e : Entry) : Prop where
  split : ∃ early, uses = early ++ .insert e.service e.strategy e.revision e.content :: since ∧
    e.storedAt = elapsed early
  undropped : ∀ x ∈ occasions since, drops how e.service e.strategy e.revision x = false

theorem dropsNotIff {how : Clearing} {service strategy : String} {revision : Nat}
    {x : List CacheUse × CacheUse} : drops how service strategy revision x = false ↔
      ends service strategy revision x.2 = false ∨ how.spares x = true := by
  simp [drops, imp_iff_not_or]

theorem sparedUse {how : Clearing} {since : List CacheUse} {u : CacheUse}
    (spared : how.spares (since, u) = true) : u = .clear ∨ ∃ service, u = .invalidate service := by
  cases how with
  | everything => cases spared
  | earlier =>
    cases u with
    | clear => exact .inl rfl
    | invalidate service => exact .inr ⟨service, rfl⟩
    | _ => cases spared

theorem sparedCleared {how : Clearing} {since : List CacheUse} {service : String}
    (spared : how.spares (since, .invalidate service) = true) : .clear ∈ since := by
  cases how with
  | everything => cases spared
  | earlier => exact List.contains_iff_mem.mp spared

theorem dropsAll (service strategy : String) (revision : Nat) (x : List CacheUse × CacheUse) :
    drops .everything service strategy revision x = ends service strategy revision x.2 :=
  Bool.and_true _

theorem remainsStands {lifetime revision : Nat} {uses : List CacheUse} {service strategy : String}
    {content : Content} : Remains .everything lifetime uses service strategy revision content ↔
      Stands lifetime uses service strategy revision content := by
  refine exists_congr fun early => exists_congr fun since => and_congr_right fun _ =>
    and_congr_right fun _ => ?_
  simp only [dropsAll]
  constructor
  · intro each u mem
    obtain ⟨before, rest, split⟩ := List.append_of_mem mem
    exact each (before, u) (occasionsIff.mpr ⟨rest, split⟩)
  · intro each x mem
    obtain ⟨late, split⟩ := occasionsIff.mp mem
    exact each x.2 (by rw [split]; simp)

namespace Stored
variable {how : Clearing} {uses since : List CacheUse} {e : Entry} {u : CacheUse}

theorem time (h : Stored how uses since e) : elapsed uses = e.storedAt + elapsed since := by
  obtain ⟨early, rfl, stored⟩ := h.split
  simp [elapsed, stored, CacheUse.ms]

theorem inserted (h : Stored how uses since e) :
    (e.service, e.strategy) ∈ uses.filterMap (·.key?) := by
  obtain ⟨early, rfl, _⟩ := h.split
  simp [CacheUse.key?]

theorem last (uses : List CacheUse) (service strategy : String) (revision : Nat)
    (content : Content) : Stored how (uses ++ [.insert service strategy revision content]) []
      ⟨service, strategy, revision, content, elapsed uses⟩ :=
  ⟨⟨uses, rfl, rfl⟩, fun _ mem => nomatch mem⟩

theorem next (h : Stored how uses since e)
    (kept : drops how e.service e.strategy e.revision (since, u) = false) :
    Stored how (uses ++ [u]) (since ++ [u]) e := by
  obtain ⟨⟨early, rfl, stored⟩, undropped⟩ := h
  refine ⟨⟨early, by simp, stored⟩, fun x mem => ?_⟩
  rw [occasionsLast] at mem
  rcases List.mem_append.mp mem with old | new
  · exact undropped x old
  · cases List.mem_singleton.mp new
    exact kept

theorem cases (h : Stored how (uses ++ [u]) since e) :
    (since = [] ∧ u = .insert e.service e.strategy e.revision e.content ∧
        e.storedAt = elapsed uses) ∨
      ∃ earlier, since = earlier ++ [u] ∧ Stored how uses earlier e ∧
        drops how e.service e.strategy e.revision (earlier, u) = false := by
  obtain ⟨⟨early, split, stored⟩, undropped⟩ := h
  rcases List.eq_nil_or_concat since with rfl | ⟨earlier, v, rfl⟩
  · obtain ⟨rfl, same⟩ := List.append_inj' split rfl
    exact .inl ⟨rfl, List.head_eq_of_cons_eq same, stored⟩
  · have parts : uses ++ [u] =
        (early ++ .insert e.service e.strategy e.revision e.content :: earlier) ++ [v] := by
      simpa using split
    obtain ⟨rfl, same⟩ := List.append_inj' parts rfl
    cases List.head_eq_of_cons_eq same
    simp only [List.concat_eq_append, occasionsLast] at undropped ⊢
    exact .inr ⟨earlier, rfl,
      ⟨⟨early, rfl, stored⟩, fun x mem => undropped x (List.mem_append_left _ mem)⟩,
      undropped _ (List.mem_append_right _ (List.mem_singleton.mpr rfl))⟩

theorem uncleared (h : Stored .everything uses since e) : .clear ∉ since := by
  intro mem
  obtain ⟨before, rest, split⟩ := List.append_of_mem mem
  exact Bool.noConfusion (h.undropped (before, .clear) (occasionsIff.mpr ⟨rest, split⟩))

end Stored

namespace Cache
variable {c : Cache} {e : Entry} {service strategy : String} {revision now : Nat}
  {content : Content}

def Distinct (c : Cache) : Prop := (c.entries.map fun e => (e.service, e.strategy)).Nodup

def known (c : Cache) (service : String) : List String := (c.cached.get? service).getD []

theorem filterDistinct (h : c.Distinct) (p : Entry → Bool) :
    ((c.entries.filter p).map fun e => (e.service, e.strategy)).Nodup :=
  List.Nodup.sublist (List.filter_sublist.map _) h

theorem isForIff : e.isFor service strategy = true ↔ e.service = service ∧ e.strategy = strategy := by
  simp [Entry.isFor]

theorem findIff (distinct : c.Distinct) :
    c.find? service strategy now = some e ↔
      e ∈ c.entries ∧ e.isFor service strategy = true ∧ e.alive c.lifetime now = true := by
  constructor
  · intro found
    have own := List.find?_some found
    rw [Bool.and_eq_true] at own
    exact ⟨List.mem_of_find?_eq_some found, own⟩
  · rintro ⟨mem, own, alive⟩
    cases found : c.find? service strategy now with
    | none => exact absurd (List.find?_eq_none.mp found e mem) (by simp [own, alive])
    | some f =>
      have there := List.find?_some found
      rw [Bool.and_eq_true, isForIff] at there
      rw [isForIff] at own
      refine congrArg some (List.inj_on_of_nodup_map distinct
        (List.mem_of_find?_eq_some found) mem ?_)
      rw [there.1.1, there.1.2, own.1, own.2]

theorem getMem (distinct : c.Distinct) :
    e ∈ (c.get service strategy revision now).2.entries ↔
      e ∈ c.entries ∧ (e.isFor service strategy = true → e.alive c.lifetime now = true →
        e.revision = revision) := by
  cases found : c.find? service strategy now with
  | none =>
    have nobody : e ∈ c.entries → e.isFor service strategy = true →
        e.alive c.lifetime now = true → e.revision = revision := fun mem own alive => by
      rw [(findIff distinct).mpr ⟨mem, own, alive⟩] at found
      cases found
    simp only [get, found]
    exact ⟨fun mem => ⟨mem, nobody mem⟩, (·.1)⟩
  | some f =>
    have only : e ∈ c.entries → e.isFor service strategy = true →
        e.alive c.lifetime now = true → e = f := fun mem own alive => by
      rw [(findIff distinct).mpr ⟨mem, own, alive⟩] at found
      exact Option.some.inj found
    obtain ⟨there, mine, lives⟩ := (findIff distinct).mp found
    simp only [get, found]
    split
    · rename_i same
      exact ⟨fun mem => ⟨mem, fun own alive => only mem own alive ▸ by simpa using same⟩, (·.1)⟩
    · rename_i other
      simp only [drop, List.mem_filter]
      refine and_congr_right fun mem => ?_
      cases own : e.isFor service strategy with
      | false => simp
      | true =>
        -- It is for the key that was found, and so it is what was found.
        have same : e = f := by
          rw [isForIff] at own mine
          refine List.inj_on_of_nodup_map distinct mem there ?_
          rw [own.1, own.2, mine.1, mine.2]
        subst same
        simpa [lives] using other

theorem insertMem :
    e ∈ (c.insert service strategy revision content now).entries ↔
      (e ∈ c.entries ∧ e.isFor service strategy = false ∧ e.alive c.lifetime now = true) ∨
        ((c.entries.filter fun e =>
            !e.isFor service strategy && e.alive c.lifetime now).length < c.capacity ∧
          e = ⟨service, strategy, revision, content, now⟩) := by
  simp only [insert]
  split
  · rename_i room
    simp [room]
  · rename_i full
    simp [full]

theorem invalidateMem :
    e ∈ (c.invalidate service).entries ↔
      e ∈ c.entries ∧ (e.service = service → e.strategy ∉ c.known service) := by
  simp only [invalidate, known]
  cases c.cached.get? service with
  | none => simp
  | some strategies => simp [imp_iff_not_or]

theorem clearMem :
    e ∈ (c.clear now).entries ↔ e ∈ c.entries ∧ c.clearing.leaves now e = true := by
  simp [clear]

theorem evictMem :
    e ∈ (c.evict service strategy).entries ↔
      e ∈ c.entries ∧ e.isFor service strategy = false := by
  simp [evict, drop]

theorem insertKnown (other : String) :
    (c.insert service strategy revision content now).known other =
      if other = service then
        if (c.known service).contains strategy then c.known service
        else c.known service ++ [strategy]
      else c.known other := by
  simp only [known, insert, Table.getPut]
  split <;> rfl

theorem invalidateKnown (other : String) :
    (c.invalidate service).known other = if other = service then [] else c.known other := by
  simp only [known, invalidate]
  cases found : c.cached.get? service with
  | none =>
    by_cases same : other = service <;> simp [same, found]
  | some strategies =>
    rw [Table.getRemove]
    split <;> rfl

structure MadeAs (c d : Cache) : Prop where
  clearing : c.clearing = d.clearing
  lifetime : c.lifetime = d.lifetime
  capacity : c.capacity = d.capacity

theorem getMade (c : Cache) (service strategy : String) (revision now : Nat) :
    (c.get service strategy revision now).2.MadeAs c := by
  unfold get
  split
  · split <;> exact ⟨rfl, rfl, rfl⟩
  · exact ⟨rfl, rfl, rfl⟩

theorem getSettled (c : Cache) (service strategy : String) (revision now : Nat) :
    (c.get service strategy revision now).2.cached = c.cached ∧
      (c.get service strategy revision now).2.invalidations = c.invalidations := by
  unfold get
  split
  · split <;> exact ⟨rfl, rfl⟩
  · exact ⟨rfl, rfl⟩

theorem invalidateMade (c : Cache) (service : String) : (c.invalidate service).MadeAs c := by
  unfold invalidate
  split <;> exact ⟨rfl, rfl, rfl⟩

theorem invalidateSettled (c : Cache) (service : String) :
    (c.invalidate service).hits = c.hits ∧ (c.invalidate service).misses = c.misses := by
  unfold invalidate
  split <;> exact ⟨rfl, rfl⟩

end Cache

namespace Clocked
variable {how : Clearing} {lifetime capacity : Nat} {uses : List CacheUse} {c : Clocked}

structure Faithful (how : Clearing) (lifetime : Nat) (uses : List CacheUse) (c : Clocked) : Prop where
  now : c.now = elapsed uses
  clearing : c.cache.clearing = how
  limit : c.cache.lifetime = lifetime
  distinct : c.cache.Distinct
  stored : ∀ e ∈ c.cache.entries, e.alive lifetime c.now = true → ∃ since, Stored how uses since e
  known : ∀ e since, Stored how uses since e →
    (e.strategy ∈ c.cache.known e.service ↔ .clear ∉ since)

theorem nowUse (c : Clocked) (u : CacheUse) : (c.use u).now = c.now + u.ms := by
  cases u <;> rfl

theorem madeUse (c : Clocked) (u : CacheUse) : (c.use u).cache.MadeAs c.cache := by
  cases u with
  | get service strategy revision => exact Cache.getMade _ _ _ _ _
  | invalidate service => exact Cache.invalidateMade _ _
  | _ => exact ⟨rfl, rfl, rfl⟩

theorem aliveEarlier {e : Entry} {now : Nat} (u : CacheUse)
    (alive : e.alive lifetime (now + u.ms) = true) : e.alive lifetime now = true := by
  simp only [Entry.alive, decide_eq_true_eq] at alive ⊢
  omega

namespace Faithful

theorem empty (how : Clearing) (lifetime capacity : Nat) :
    Faithful how lifetime [] ⟨{ Cache.empty lifetime capacity with clearing := how }, 0⟩ where
  now := rfl
  clearing := rfl
  limit := rfl
  distinct := .nil
  stored e mem := nomatch mem
  known e since h := by
    obtain ⟨early, split, _⟩ := h.split
    simp at split

theorem distinctUse (h : Faithful how lifetime uses c) (u : CacheUse) : (c.use u).cache.Distinct := by
  cases u with
  | insert service strategy revision content =>
    have others := Cache.filterDistinct h.distinct fun e =>
      !e.isFor service strategy && e.alive c.cache.lifetime c.now
    simp only [use, Cache.insert, Cache.Distinct]
    split
    · rw [List.map_append, List.nodup_append]
      refine ⟨others, by simp, fun x old y new => ?_⟩
      cases List.mem_singleton.mp new
      obtain ⟨e, mem, rfl⟩ := List.mem_map.mp old
      rintro same
      obtain ⟨own, own'⟩ := Prod.mk.inj same
      simp [Entry.isFor, own, own'] at mem
    · exact others
  | get service strategy revision =>
    simp only [use, Cache.get]
    split
    · split
      · exact h.distinct
      · exact Cache.filterDistinct h.distinct _
    · exact h.distinct
  | invalidate service =>
    simp only [use, Cache.invalidate]
    split
    · exact h.distinct
    · exact Cache.filterDistinct h.distinct _
  | clear => exact Cache.filterDistinct h.distinct _
  | advance ms => exact h.distinct
  | evict service strategy => exact Cache.filterDistinct h.distinct _

theorem storedUse (h : Faithful how lifetime uses c) (u : CacheUse) {e : Entry}
    (mem : e ∈ (c.use u).cache.entries) (alive : e.alive lifetime (c.use u).now = true) :
    ∃ since, Stored how (uses ++ [u]) since e := by
  have earlier : e.alive lifetime c.now = true := aliveEarlier u (nowUse c u ▸ alive)
  have stays (old : e ∈ c.cache.entries) (kept : ∀ since, Stored how uses since e →
      drops how e.service e.strategy e.revision (since, u) = false) :
      ∃ since, Stored how (uses ++ [u]) since e := by
    obtain ⟨since, stored⟩ := h.stored e old earlier
    exact ⟨since ++ [u], stored.next (kept since stored)⟩
  cases u with
  | insert service strategy revision content =>
    rcases Cache.insertMem.mp mem with ⟨old, other, _⟩ | ⟨_, rfl⟩
    · exact stays old fun since _ => dropsNotIff.mpr (.inl other)
    · rw [h.now]
      exact ⟨[], .last uses service strategy revision content⟩
  | get service strategy revision =>
    obtain ⟨old, same⟩ := (Cache.getMem h.distinct).mp mem
    rw [h.limit] at same
    refine stays old fun since _ => dropsNotIff.mpr (.inl ?_)
    cases own : e.isFor service strategy with
    | true => simp [ends, same own earlier]
    | false => exact Bool.and_eq_false_imp.mpr fun there => absurd (own.symm.trans there) nofun
  | invalidate service =>
    obtain ⟨old, unknown⟩ := Cache.invalidateMem.mp mem
    refine stays old fun since stored => dropsNotIff.mpr ?_
    by_cases own : e.service = service
    · have cleared : .clear ∈ since := Classical.not_not.mp fun never =>
        unknown own (own ▸ (h.known e since stored).mpr never)
      cases how with
      | everything => exact absurd cleared stored.uncleared
      | earlier => exact .inr (List.contains_iff_mem.mpr cleared)
    · exact .inl (beq_eq_false_iff_ne.mpr own)
  | clear =>
    obtain ⟨old, late⟩ := Cache.clearMem.mp mem
    refine stays old fun since stored => dropsNotIff.mpr (.inr ?_)
    have time := stored.time
    rw [h.clearing, h.now] at late
    cases how with
    | everything => cases late
    | earlier =>
      have late : elapsed uses ≤ e.storedAt := of_decide_eq_true late
      exact beq_iff_eq.mpr (show elapsed since = 0 by omega)
  | advance ms => exact stays mem fun since _ => rfl
  | evict service strategy =>
    obtain ⟨old, other⟩ := Cache.evictMem.mp mem
    exact stays old fun since _ => dropsNotIff.mpr (.inl other)

theorem knownUse (h : Faithful how lifetime uses c) (u : CacheUse) (e : Entry)
    (since : List CacheUse) (stored : Stored how (uses ++ [u]) since e) :
    e.strategy ∈ (c.use u).cache.known e.service ↔ .clear ∉ since := by
  rcases stored.cases with ⟨rfl, rfl, _⟩ | ⟨earlier, rfl, old, kept⟩
  · simp only [use, Cache.insertKnown, if_true, List.not_mem_nil, not_false_eq_true, iff_true]
    split
    · rename_i there
      simpa using there
    · simp
  · have before := h.known e earlier old
    rw [List.mem_append, List.mem_singleton]
    cases u with
    | insert service strategy revision content =>
      have kept := (dropsNotIff.mp kept).resolve_right fun spared => by simpa using sparedUse spared
      simp only [ends, Bool.and_eq_false_iff, beq_eq_false_iff_ne] at kept
      simp only [use, Cache.insertKnown, reduceCtorEq, or_false, ← before]
      by_cases own : e.service = service
      · have other : ¬e.strategy = strategy := kept.resolve_left (absurd own)
        rw [if_pos own, own]
        split <;> simp [other]
      · rw [if_neg own]
    | invalidate service =>
      simp only [use, Cache.invalidateKnown, reduceCtorEq, or_false, ← before]
      by_cases own : e.service = service
      · have cleared : .clear ∈ earlier :=
          sparedCleared ((dropsNotIff.mp kept).resolve_left (by simp [ends, own]))
        have never : e.strategy ∉ c.cache.known e.service := fun there =>
          before.mp there cleared
        simp [own, own ▸ never]
      · rw [if_neg own]
    | clear => simp [use, Cache.clear, Cache.known, Table.get?]
    | get service strategy revision =>
      have same : (c.use (.get service strategy revision)).cache.known e.service =
          c.cache.known e.service := by
        simp only [use, Cache.known, (Cache.getSettled _ _ _ _ _).1]
      rw [same, before]
      simp
    | advance ms =>
      simp only [reduceCtorEq, or_false, ← before]
      rfl
    | evict service strategy =>
      simp only [reduceCtorEq, or_false, ← before]
      rfl

theorem use (h : Faithful how lifetime uses c) (u : CacheUse) :
    Faithful how lifetime (uses ++ [u]) (c.use u) where
  now := by rw [nowUse, elapsedLast, h.now]
  clearing := (madeUse c u).clearing.trans h.clearing
  limit := (madeUse c u).lifetime.trans h.limit
  distinct := h.distinctUse u
  stored _ mem alive := h.storedUse u mem alive
  known := h.knownUse u

theorem after (how : Clearing) (lifetime capacity : Nat) (uses : List CacheUse) :
    Faithful how lifetime uses (after how lifetime capacity uses) := by
  induction uses using List.reverseRecOn with
  | nil => exact empty how lifetime capacity
  | append_singleton uses u ih =>
    rw [afterLast]
    exact ih.use u

end Faithful
end Clocked
end ServiceDirectory.Resolve
