import ServiceDirectory.Proofs.Engines
import ServiceDirectory.Proofs.Evictions
import ServiceDirectory.Proofs.Failures
import ServiceDirectory.Proofs.Waits

/-! The course of a sweep, whatever else is done meanwhile. It goes over the records once, and deals
with what it takes out one after the other: the store is asked to delete it, the id is given back
whether that failed or not, and it is told that it has expired. -/
namespace ServiceDirectory

namespace Stride

def deletion? (k : CallId) (s : Stride) : Option (String × Option Failure) :=
  match s.action with
  | .settle j failure =>
    if j = k then
      match (s.before.call? k).bind Call.storeWork? with
      | some (.delete id) => some (id, failure)
      | _ => none
    else none
  | _ => none

def toldBy (k : CallId) (s : Stride) : List Event :=
  if s.action.call? = some k then s.told else []

end Stride

def deletions (k : CallId) (past : List Stride) : List (String × Option Failure) :=
  past.filterMap (Stride.deletion? k)

def toldBy (k : CallId) (past : List Stride) : List Event := past.flatMap (Stride.toldBy k)

def Farewells (out : List Instance) (told : List Event) : Prop :=
  told.map (fun event => (event.kind, event.snapshot, event.previous)) =
    out.map fun i => (.expired, i, none)

structure Stride.Purges (k : CallId) (out : List Instance) (s : Stride) : Prop where
  store : s.after.store = match s.deletion? k with
    | some (id, none) => s.before.store.remove id
    | _ => s.before.store
  registry : s.after.registry = { s.before.registry with inFlight := s.after.registry.inFlight }
  kept : ∀ id ∈ s.after.registry.inFlight, id ∈ s.before.registry.inFlight
  given : ∀ id ∈ s.before.registry.inFlight, id ∉ s.after.registry.inFlight → id ∈ out.map (·.id)
  rest : s.after = { s.before with
    registry := s.after.registry, store := s.after.store, bus := s.after.bus, log := s.after.log,
    order := s.after.order, calls := s.after.calls, endings := s.after.endings }

theorem Stride.Purges.idle {k : CallId} {out : List Instance} {s : Stride}
    (none : s.deletion? k = none)
    (store : s.after.store = s.before.store) (registry : s.after.registry = s.before.registry)
    (rest : s.after = { s.before with
      registry := s.after.registry, store := s.after.store, bus := s.after.bus, log := s.after.log,
      order := s.after.order, calls := s.after.calls, endings := s.after.endings }) :
    s.Purges k out where
  store := by rw [none, store]
  registry := by rw [registry]
  kept id mem := registry ▸ mem
  given id mem gone := absurd (registry ▸ mem) gone
  rest := rest

namespace Directory
variable {d e f : Directory} {a : Action} {k : CallId} {c : Call} {out : List Instance}
  {asked : List (String × Option Failure)} {told : List Event} {at_ : Timestamp}
  {actions : List Action}

inductive Purging (d : Directory) (k : CallId) (out : List Instance)
    (asked : List (String × Option Failure)) (told : List Event) : Prop where
  | hushing {loops : List Nat} {round : Round} (found : d.call? k = some (.hushing loops round))
      (total : round.total = out.length) (all : out = round.current :: round.rest)
      (deletes : asked = []) (tells : told = [])
  | purging {done : List Instance} {round : Round} (found : d.call? k = some (.purging round))
      (total : round.total = out.length) (all : out = done ++ round.current :: round.rest)
      (deletes : asked.map (·.1) = done.map (·.id)) (tells : Farewells done told)
  | releasing {done : List Instance} {round : Round} (found : d.call? k = some (.releasing round))
      (total : round.total = out.length) (all : out = done ++ round.current :: round.rest)
      (deletes : asked.map (·.1) = (done ++ [round.current]).map (·.id))
      (tells : Farewells done told)
  | expiring {done : List Instance} {round : Round} (found : d.call? k = some (.expiring round))
      (total : round.total = out.length) (all : out = done ++ round.current :: round.rest)
      (deletes : asked.map (·.1) = (done ++ [round.current]).map (·.id))
      (tells : Farewells done told)
  | ended (gone : d.call? k = none) (answer : d.ending? k = some (.ok (.count out.length)))
      (deletes : asked.map (·.1) = out.map (·.id)) (tells : Farewells out told)
  | dropped {done rest : List Instance} (gone : d.call? k = none) (silent : d.ending? k = none)
      (all : out = done ++ rest) (deletes : asked.map (·.1) = done.map (·.id))
      (tells : Farewells done told)

theorem Purging.still (h : Purging d k out asked told) (call : e.call? k = d.call? k)
    (ending : e.ending? k = d.ending? k) : Purging e k out asked told := by
  cases h with
  | hushing found total all deletes tells =>
    exact .hushing (call.trans found) total all deletes tells
  | purging found total all deletes tells =>
    exact .purging (call.trans found) total all deletes tells
  | releasing found total all deletes tells =>
    exact .releasing (call.trans found) total all deletes tells
  | expiring found total all deletes tells =>
    exact .expiring (call.trans found) total all deletes tells
  | ended gone answer deletes tells =>
    exact .ended (call.trans gone) (ending.trans answer) deletes tells
  | dropped gone silent all deletes tells =>
    exact .dropped (call.trans gone) (ending.trans silent) all deletes tells

theorem turnOrStay (lined : d.Lined) (known : k < d.nextCall) (next : d.step a = some e) :
    (a.call? ≠ some k ∧ e.call? k = d.call? k ∧ e.ending? k = d.ending? k) ∨
      ∃ before after result told, Runs d a e k (some before) after result told := by
  obtain ⟨j, before, after, result, told, runs⟩ := stepRuns lined next
  by_cases own : j = k
  · subst own
    cases before with
    | none => exact absurd (runs.course.fresh rfl) (Nat.ne_of_lt known)
    | some before => exact .inr ⟨before, after, result, told, runs⟩
  · refine .inl ⟨fun about => own (runs.course.turn about), ?_, ?_⟩
    · rw [runs.calls, if_neg (Ne.symm own)]
    · rw [runs.ending, if_neg (Ne.symm own)]

theorem unansweredStep (lined : d.Lined) (known : k < d.nextCall)
    (h : d.call? k ≠ none → d.ending? k = none) (next : d.step a = some e) :
    e.call? k ≠ none → e.ending? k = none := by
  rcases turnOrStay lined known next with ⟨_, call, ending⟩ | ⟨before, after, result, told, runs⟩
  · rwa [call, ending]
  · intro stays
    rw [runs.calls, if_pos rfl] at stays
    rw [runs.ending, if_pos rfl, h (by rw [runs.was]; exact nofun), Option.or_none]
    cases runs.course <;> first | rfl | exact absurd rfl stays

structure Furthers (d : Directory) (a : Action) (e : Directory) (k : CallId) (out : List Instance)
    (asked : List (String × Option Failure)) (told : List Event) : Prop where
  purging : Purging e k out (asked ++ ((⟨d, a, e⟩ : Stride).deletion? k).toList)
    (told ++ (⟨d, a, e⟩ : Stride).toldBy k)
  purges : a.call? = some k → (⟨d, a, e⟩ : Stride).Purges k out

namespace Furthers

theorem quiet (log : e.log = d.log) (purging : Purging e k out
      (asked ++ ((⟨d, a, e⟩ : Stride).deletion? k).toList) told)
    (purges : a.call? = some k → (⟨d, a, e⟩ : Stride).Purges k out) :
    Furthers d a e k out asked told := by
  have nothing : (⟨d, a, e⟩ : Stride).toldBy k = [] := by simp [Stride.toldBy, Stride.told, log]
  exact ⟨by rwa [nothing, List.append_nil], purges⟩

theorem silently (none : (⟨d, a, e⟩ : Stride).deletion? k = none) (log : e.log = d.log)
    (purging : Purging e k out asked told)
    (purges : a.call? = some k → (⟨d, a, e⟩ : Stride).Purges k out) :
    Furthers d a e k out asked told :=
  .quiet log (by simpa [none] using purging) purges

end Furthers

theorem droppedFurthers {round : Round} {done : List Instance} (silent : d.ending? k = none)
    (found : d.call? k = some c) (free : c.guarded? = none)
    (all : out = done ++ round.current :: round.rest) (deletes : asked.map (·.1) = done.map (·.id))
    (tells : Farewells done told) (next : d.step (.abandon k) = some e) :
    Furthers d (.abandon k) e k out asked told := by
  obtain ⟨c', there, _, rfl⟩ := dropIs next
  cases found.symm.trans there
  simp only [free, Option.elim_none]
  exact .silently rfl rfl (.dropped ((callLeft rfl k).trans (if_pos rfl)) silent all deletes tells)
    fun _ => .idle rfl rfl rfl rfl

variable {round : Round} {done : List Instance} {after : Option Call}
  {result : Option (Except Failure Answer)} {told' : List Event}

theorem hushingFurthers {loops : List Nat} (silent : d.ending? k = none)
    (total : round.total = out.length) (all : out = round.current :: round.rest)
    (runs : Runs d a e k (some (.hushing loops round)) after result told')
    (next : d.step a = some e) : Furthers d a e k out [] [] := by
  have all : out = [] ++ round.current :: round.rest := all
  cases runs.course with
  | hushed =>
    have is := proceedsWith runs.was next
    simp only [proceedWith] at is
    split at is
    · cases is
    · cases is
      refine .silently rfl rfl ?_ fun _ => .idle rfl rfl rfl rfl
      exact .purging ((callMoved runs.was rfl k).trans (if_pos rfl)) total all rfl rfl
  | dropped => exact droppedFurthers silent runs.was rfl all rfl rfl next

theorem purgingSettles (found : d.call? k = some (.purging round)) (failure : Option Failure) :
    d.step (.settle k failure) = some ({ d with
      store := if failure.isNone then d.store.remove round.current.id else d.store }.moveTo k
        (.releasing round)) := by
  simp only [step, settle, found, Option.bind_eq_bind, Option.bind_some, Call.storeWork?]
  cases failure <;> rfl

theorem purgingAsks (found : d.call? k = some (.purging round)) (failure : Option Failure)
    (e : Directory) :
    (⟨d, .settle k failure, e⟩ : Stride).deletion? k = some (round.current.id, failure) := by
  simp [Stride.deletion?, found, Call.storeWork?]

theorem purgingFurthers (silent : d.ending? k = none) (total : round.total = out.length)
    (all : out = done ++ round.current :: round.rest) (deletes : asked.map (·.1) = done.map (·.id))
    (tells : Farewells done told)
    (runs : Runs d a e k (some (.purging round)) after result told')
    (next : d.step a = some e) : Furthers d a e k out asked told := by
  cases runs.course with
  | @purged _ _ failure =>
    cases next.symm.trans (purgingSettles runs.was failure)
    refine .quiet rfl ?_ fun _ => ⟨?_, rfl, fun _ => id, fun _ mem gone => absurd mem gone, rfl⟩
    · refine .releasing ((callMoved runs.was rfl k).trans (if_pos rfl)) total all ?_ tells
      rw [purgingAsks runs.was, List.map_append, deletes, List.map_append]
      rfl
    · rw [purgingAsks runs.was]
      cases failure <;> rfl
  | dropped => exact droppedFurthers silent runs.was rfl all deletes tells next

theorem releasingFurthers (total : round.total = out.length)
    (all : out = done ++ round.current :: round.rest)
    (deletes : asked.map (·.1) = (done ++ [round.current]).map (·.id)) (tells : Farewells done told)
    (runs : Runs d a e k (some (.releasing round)) after result told')
    (next : d.step a = some e) : Furthers d a e k out asked told := by
  cases runs.course with
  | releasing =>
    have is := proceedsWith runs.was next
    simp only [proceedWith] at is
    split at is
    · cases is
      refine .silently rfl rfl ?_ fun _ => ⟨rfl, rfl, fun id mem => ?_, fun id mem gone => ?_, rfl⟩
      · exact .expiring ((callMoved runs.was rfl k).trans (if_pos rfl)) total all deletes tells
      · exact ((Registry.memRelease _ _ _).mp mem).1
      · by_contra other
        refine gone ((Registry.memRelease _ _ _).mpr ⟨mem, fun own => other ?_⟩)
        rw [own, all]
        exact List.mem_map_of_mem (List.mem_append_right _ List.mem_cons_self)
    · cases is
  | dropped abandonable => cases abandonable

theorem farewellsNext (tells : Farewells done told) (i : Instance) (now : Timestamp) :
    Farewells (done ++ [i]) (told ++ [.plain .expired i now]) := by
  rw [Farewells, List.map_append, tells, List.map_append]
  rfl

theorem expiringFurthers (total : round.total = out.length)
    (all : out = done ++ round.current :: round.rest)
    (deletes : asked.map (·.1) = (done ++ [round.current]).map (·.id)) (tells : Farewells done told)
    (runs : Runs d a e k (some (.expiring round)) after result told')
    (next : d.step a = some e) : Furthers d a e k out asked told := by
  obtain ⟨rfl, rfl, rfl⟩ : a = .proceed k ∧ d.publishExpired k round = e ∧
      told' = [.plain .expired round.current d.clock] := by
    cases runs.course with
    | dropped abandonable => cases abandonable
    | _ => exact ⟨rfl, Option.some.inj (proceedsWith runs.was next), rfl⟩
  have own : (⟨d, .proceed k, d.publishExpired k round⟩ : Stride).toldBy k =
      [.plain .expired round.current d.clock] := (if_pos rfl).trans runs.tells
  have tells := farewellsNext tells round.current d.clock
  have nothing : asked ++ ((⟨d, .proceed k, d.publishExpired k round⟩ : Stride).deletion?
      k).toList = asked := List.append_nil _
  refine ⟨?_, fun _ => ?_⟩
  · rw [own, nothing]
    cases more : round.rest with
    | nil =>
      rw [more] at all
      subst all
      simp only [publishExpired, more]
      refine .ended ((callLeft rfl k).trans (if_pos rfl)) ?_ deletes tells
      simp [finish, ending?, total]
    | cons i rest =>
      rw [more] at all
      simp only [publishExpired, more]
      refine .purging ((callMoved runs.was rfl k).trans (if_pos rfl)) total ?_ deletes tells
      rw [all, List.append_assoc]
      rfl
  · simp only [publishExpired]
    split <;> exact .idle rfl rfl rfl rfl

theorem purgingStep (lined : d.Lined) (known : k < d.nextCall)
    (unanswered : d.call? k ≠ none → d.ending? k = none) (h : Purging d k out asked told)
    (next : d.step a = some e) : Furthers d a e k out asked told := by
  rcases turnOrStay lined known next with ⟨other, call, ending⟩ | ⟨before, _, _, told', runs⟩
  · have unasked : (⟨d, a, e⟩ : Stride).deletion? k = none := by
      cases a with
      | settle j failure =>
        have apart : j ≠ k := fun same => other (congrArg some same)
        simp [Stride.deletion?, apart]
      | _ => rfl
    have untold : (⟨d, a, e⟩ : Stride).toldBy k = [] := if_neg other
    refine ⟨?_, fun own => absurd own other⟩
    rw [unasked, untold, List.append_nil]
    exact (List.append_nil asked).symm ▸ h.still call ending
  · have silent := unanswered (by rw [runs.was]; exact nofun)
    cases h with
    | hushing found total all deletes tells =>
      cases runs.was.symm.trans found
      subst deletes tells
      exact hushingFurthers silent total all runs next
    | purging found total all deletes tells =>
      cases runs.was.symm.trans found
      exact purgingFurthers silent total all deletes tells runs next
    | releasing found total all deletes tells =>
      cases runs.was.symm.trans found
      exact releasingFurthers total all deletes tells runs next
    | expiring found total all deletes tells =>
      cases runs.was.symm.trans found
      exact expiringFurthers total all deletes tells runs next
    | ended gone | dropped gone => exact nomatch runs.was.symm.trans gone

structure Sweepable (d : Directory) : Prop where
  custody : d.Custody
  apart : d.registry.Apart
  owned : d.registry.Owned
  known : d.Known
  halting : d.Halting
  orderly : d.Orderly

theorem withStoreSweepable (settings : DirectorySettings) (store : Table Instance) :
    (withStore settings store).Sweepable where
  custody := withStoreCustody settings store
  apart id other x y live := by cases live
  owned := Registry.emptyOwned
  known := withStoreKnown settings store
  halting := withStoreHalting settings store
  orderly := withStoreOrderly settings store

theorem sweepableStep (h : d.Sweepable) (next : d.step a = some e) : e.Sweepable where
  custody := custodyStep h.custody next
  apart := (passesStep h.custody next).apart h.apart
  owned := ownedStep h.custody h.apart h.owned next
  known := knownStep h.custody.lined h.known next
  halting := haltingStep h.custody h.halting next
  orderly := orderlyStep h.custody.lined h.orderly next

theorem sweepableSteps (h : d.Sweepable) (run : d.steps actions = some e) : e.Sweepable :=
  trailHolds h run fun _ _ next h => sweepableStep h next

end Directory

def Stride.Helps (k : CallId) (outcome : String → Option Failure) (s : Stride) : Prop :=
  (∃ epoch, s.action = .endLoop epoch) ∨ (∃ j, s.action = .proceed j) ∨
    ∃ id, s.deletion? k = some (id, outcome id)

namespace Directory
variable {d e f : Directory} {a : Action} {k : CallId} {c : Call} {out : List Instance}
  {asked : List (String × Option Failure)} {told : List Event} {at_ : Timestamp}
  {actions : List Action}
  {outcome : String → Option Failure} {n : Nat} {round : Round}

def Finishes (d : Directory) (k : CallId) (outcome : String → Option Failure) (n : Nat) : Prop :=
  ∃ more e, (∀ s ∈ d.trail more, s.Helps k outcome) ∧ d.steps more = some e ∧
    e.ending? k = some (.ok (.count n))

theorem Finishes.here (answer : d.ending? k = some (.ok (.count n))) : d.Finishes k outcome n :=
  ⟨[], d, List.forall_mem_nil _, rfl, answer⟩

theorem Finishes.after (run : d.steps actions = some e)
    (helps : ∀ s ∈ d.trail actions, s.Helps k outcome) (h : e.Finishes k outcome n) :
    d.Finishes k outcome n := by
  obtain ⟨more, f, later, others, answer⟩ := h
  refine ⟨actions ++ more, f, fun s mem => ?_, by rw [stepsAppend, run]; exact others, answer⟩
  rw [trailMore run] at mem
  exact (List.mem_append.mp mem).elim (helps s) (later s)

theorem Finishes.next (next : d.step a = some e) (helps : (⟨d, a, e⟩ : Stride).Helps k outcome)
    (h : e.Finishes k outcome n) : d.Finishes k outcome n := by
  have run : d.steps [a] = some e := by rw [steps, next]; rfl
  refine .after run (fun s mem => ?_) h
  rw [trailNext next] at mem
  exact List.mem_singleton.mp mem ▸ helps

theorem Finishes.going (goes : ∀ a ∈ actions, (∃ epoch, a = .endLoop epoch) ∨ ∃ j, a = .proceed j)
    (run : d.steps actions = some e) (h : e.Finishes k outcome n) : d.Finishes k outcome n :=
  .after run (fun s mem => (goes s.action (trailActions mem)).imp_right .inl) h

theorem orderFreed (h : d.Sweepable) (found : d.call? k = some c) (quiet : c.announces = false) :
    ∃ goes e, (∀ a ∈ goes, ∃ j, a = .proceed j) ∧ d.steps goes = some e ∧ e.order = none ∧
      e.call? k = some c := by
  cases holds : d.order with
  | none => exact ⟨[], d, nofun, rfl, holds, found⟩
  | some j =>
    obtain ⟨c', there, announces⟩ := h.orderly j holds
    have found' := callOfMem h.custody.lined there
    have apart : k ≠ j := by
      rintro rfl
      cases found.symm.trans found'
      rw [quiet] at announces
      cases announces
    cases c' with
    | announcing notices answer =>
      obtain ⟨tells, e, own, run, free, _, _, kept⟩ := tellsAll found'
      exact ⟨tells, e, fun a mem => ⟨j, own a mem⟩, run, free, (kept k apart).trans found⟩
    | expiring round =>
      have one : d.step (.proceed j) = some (d.publishExpired j round) := by
        simp [step, proceed, found', proceedWith]
      refine ⟨[.proceed j], d.publishExpired j round, fun a mem => ⟨j, List.mem_singleton.mp mem⟩,
        by rw [steps, one]; rfl, ?_, ?_⟩
      · simp only [publishExpired]
        split <;> rfl
      · simp only [publishExpired]
        split
        · exact (callLeft rfl k).trans ((if_neg apart).trans found)
        · exact (callMoved found' rfl k).trans ((if_neg apart).trans found)
    | _ => cases announces

theorem purgingFinishes (h : d.Sweepable) (found : d.call? k = some (.purging round))
    (releasing : ∀ e : Directory, e.Sweepable → e.call? k = some (.releasing round) →
      e.Finishes k outcome n) : d.Finishes k outcome n := by
  have next := purgingSettles found (outcome round.current.id)
  refine .next next (.inr (.inr ⟨_, purgingAsks found _ _⟩))
    (releasing _ (sweepableStep h next) ?_)
  exact (callMoved found rfl k).trans (if_pos rfl)

theorem releasingFinishes (h : d.Sweepable) (found : d.call? k = some (.releasing round))
    (expiring : ∀ e : Directory, e.Sweepable → e.call? k = some (.expiring round) →
      e.Finishes k outcome n) : d.Finishes k outcome n := by
  obtain ⟨goes, m, own, run, free, there⟩ := orderFreed h found rfl
  have next : m.step (.proceed k) = some (m.releaseExpired k round) := by
    simp [step, proceed, there, proceedWith, free]
  refine .going (fun a mem => .inr (own a mem)) run (.next next (.inr (.inl ⟨k, rfl⟩)) ?_)
  exact expiring _ (sweepableStep (sweepableSteps h run) next)
    ((callMoved there rfl k).trans (if_pos rfl))

theorem expiringFinishes (rest : List Instance) {i : Instance} (h : d.Sweepable)
    (found : d.call? k = some (.expiring ⟨i, rest, n⟩)) : d.Finishes k outcome n := by
  induction rest generalizing d i with
  | nil =>
    have next : d.step (.proceed k) = some (d.publishExpired k ⟨i, [], n⟩) := by
      simp [step, proceed, found, proceedWith]
    refine .next next (.inr (.inl ⟨k, rfl⟩)) (.here ?_)
    simp [publishExpired, finish, ending?]
  | cons j rest ih =>
    have next : d.step (.proceed k) = some (d.publishExpired k ⟨i, j :: rest, n⟩) := by
      simp [step, proceed, found, proceedWith]
    have found : (d.publishExpired k ⟨i, j :: rest, n⟩).call? k = some (.purging ⟨j, rest, n⟩) :=
      (callMoved found rfl k).trans (if_pos rfl)
    refine .next next (.inr (.inl ⟨k, rfl⟩)) ?_
    exact purgingFinishes (sweepableStep h next) found fun e h found =>
      releasingFinishes h found fun e h found => ih h found

theorem sweepFinishes (h : d.Sweepable) (purging : Purging d k out asked told)
    (under : d.call? k ≠ none) (outcome : String → Option Failure) :
    d.Finishes k outcome out.length := by
  have expires {e : Directory} {round : Round} (total : round.total = out.length)
      (h : e.Sweepable) (found : e.call? k = some (.expiring round)) :
      e.Finishes k outcome out.length := by
    rw [← total]
    exact expiringFinishes round.rest h found
  have releases {e : Directory} {round : Round} (total : round.total = out.length)
      (h : e.Sweepable) (found : e.call? k = some (.releasing round)) :
      e.Finishes k outcome out.length := releasingFinishes h found fun _ => expires total
  have purges {e : Directory} {round : Round} (total : round.total = out.length)
      (h : e.Sweepable) (found : e.call? k = some (.purging round)) :
      e.Finishes k outcome out.length := purgingFinishes h found fun _ => releases total
  cases purging with
  | @hushing loops round found total =>
    obtain ⟨ends, rest, ofLoops, run, _, ended⟩ :=
      loopsEnd loops (h.halting.halted (k, .hushing loops round) (memOfCall found))
    have still : loops.any { d with loops := rest }.loopRuns = false :=
      List.any_eq_false.mpr fun epoch own runs => by
        obtain ⟨l, there, same⟩ := List.any_eq_true.mp runs
        exact ended l there (beq_iff_eq.mp same ▸ own)
    have next : { d with loops := rest }.step (.proceed k) =
        some ({ d with loops := rest }.moveTo k (.purging round)) := by
      have found : { d with loops := rest }.call? k = some (.hushing loops round) := found
      simp [step, proceed, found, proceedWith, still]
    refine .going (fun a mem => .inl (ofLoops a mem)) run (.next next (.inr (.inl ⟨k, rfl⟩)) ?_)
    exact purges total (sweepableStep (sweepableSteps h run) next)
      ((callMoved (d := { d with loops := rest }) found rfl k).trans (if_pos rfl))
  | purging found total => exact purges total h found
  | releasing found total => exact releases total h found
  | expiring found total => exact expires total h found
  | ended gone | dropped gone => exact absurd gone under

structure Dealing (k : CallId) (out : List Instance) (past : List Stride) (d : Directory) :
    Prop where
  sweepable : d.Sweepable
  known : k < d.nextCall
  unanswered : d.call? k ≠ none → d.ending? k = none
  purging : Purging d k out (deletions k past) (toldBy k past)
  purges : ∀ s ∈ past, s.action.call? = some k → s.Purges k out
  answered : (∀ s ∈ past, s.action ≠ .abandon k) → d.call? k = none → d.ending? k ≠ none

theorem deletionsNext (past : List Stride) (s : Stride) :
    deletions k (past ++ [s]) = deletions k past ++ (s.deletion? k).toList := by
  rw [deletions, List.filterMap_append]
  cases answers : s.deletion? k <;> simp [deletions, answers]

theorem toldByNext (past : List Stride) (s : Stride) :
    toldBy k (past ++ [s]) = toldBy k past ++ s.toldBy k := by
  simp [toldBy]

theorem Course.answers {result : Option (Except Failure Answer)}
    (h : Course d a k (some c) none result told) (kept : a ≠ .abandon k) : result ≠ none := by
  cases h with
  | dropped => exact absurd rfl kept
  | _ => exact nofun

theorem answeredStep (lined : d.Lined) (known : k < d.nextCall)
    (h : d.call? k = none → d.ending? k ≠ none) (kept : a ≠ .abandon k) (next : d.step a = some e) :
    e.call? k = none → e.ending? k ≠ none := by
  rcases turnOrStay lined known next with ⟨_, call, ending⟩ | ⟨before, after, result, told, runs⟩
  · rwa [call, ending]
  · intro gone
    rw [runs.calls, if_pos rfl] at gone
    subst gone
    obtain ⟨r, rfl⟩ := Option.ne_none_iff_exists'.mp (runs.course.answers kept)
    rw [runs.ending, if_pos rfl, Option.some_or]
    exact nofun

theorem callsGrow (lined : d.Lined) (next : d.step a = some e) : d.nextCall ≤ e.nextCall := by
  obtain ⟨j, before, after, result, told, runs⟩ := stepRuns lined next
  exact runs.grows

theorem dealingStep {past : List Stride} (h : Dealing k out past d) (next : d.step a = some e) :
    Dealing k out (past ++ [⟨d, a, e⟩]) e := by
  have lined := h.sweepable.custody.lined
  obtain ⟨purging, purges⟩ := purgingStep lined h.known h.unanswered h.purging next
  refine ⟨sweepableStep h.sweepable next, Nat.lt_of_lt_of_le h.known (callsGrow lined next),
    unansweredStep lined h.known h.unanswered next, ?_, fun s mem => ?_, fun kept => ?_⟩
  · rwa [deletionsNext, toldByNext]
  · rcases List.mem_append.mp mem with old | new
    · exact h.purges s old
    · exact List.mem_singleton.mp new ▸ purges
  · exact answeredStep lined h.known (h.answered fun s mem => kept s (List.mem_append_left _ mem))
      (kept ⟨d, a, e⟩ (List.mem_append_right _ List.mem_cons_self)) next

/-- The course of the sweep `k` as of the moment `at_`, from its beginning in `d` on. -/
inductive Sweeping (d : Directory) (k : CallId) (at_ : Timestamp) (actions : List Action)
    (f : Directory) : Prop where
  | waits (unturned : .proceed k ∉ actions) (found : f.call? k = some (.collecting at_))
      (silent : f.ending? k = none) (ready : (f.step (.proceed k)).isSome = true)
  | sweeps {first rest : List Action} {m n : Directory} {out : List Instance}
      (split : actions = first ++ .proceed k :: rest) (unturned : .proceed k ∉ first)
      (before : d.steps first = some m) (next : m.step (.proceed k) = some n)
      (collects : Collects m n at_ out) (run : n.steps rest = some f)
      (purging : Purging f k out (deletions k (n.trail rest)) (toldBy k (n.trail rest)))
      (purges : ∀ s ∈ n.trail rest, s.action.call? = some k → s.Purges k out)
      (answers : .abandon k ∉ rest → f.call? k = none →
        f.ending? k = some (.ok (.count out.length)))
      (finishes : f.call? k ≠ none → ∀ outcome, f.Finishes k outcome out.length)

theorem sweepsOn {rest : List Action} (h : d.Sweepable) (known : k < d.nextCall)
    (silent : d.ending? k = none) (found : d.call? k = some (.collecting at_))
    (next : d.step (.proceed k) = some e) (run : e.steps rest = some f) :
    Sweeping d k at_ (.proceed k :: rest) f := by
  obtain ⟨out, collects, fate⟩ := collectsStep h.custody h.owned found next
  have lined := h.custody.lined
  have start : Dealing k out [] e := by
    have unanswered := unansweredStep lined known (fun _ => silent) next
    have known := Nat.lt_of_lt_of_le known (callsGrow lined next)
    rcases fate with ⟨rfl, gone, answer⟩ | ⟨i, rest, loops, rfl, found⟩
    · exact ⟨sweepableStep h next, known, unanswered, .ended gone answer rfl rfl,
        List.forall_mem_nil _, fun _ _ => by rw [answer]; exact nofun⟩
    · exact ⟨sweepableStep h next, known, unanswered, .hushing found rfl rfl rfl rfl,
        List.forall_mem_nil _, fun _ gone => nomatch found.symm.trans gone⟩
  have dealing : Dealing k out ([] ++ e.trail rest) f :=
    trailKeeps start run fun s _ next past h => dealingStep h next
  rw [List.nil_append] at dealing
  refine .sweeps (List.nil_append _).symm List.not_mem_nil rfl next collects run dealing.purging
    dealing.purges (fun kept gone => ?_) (sweepFinishes dealing.sweepable dealing.purging)
  have answered := dealing.answered (fun s mem drops => kept (drops ▸ trailActions mem)) gone
  cases dealing.purging with
  | ended _ answer => exact answer
  | dropped _ silent => exact absurd silent answered
  | hushing found | purging found | releasing found | expiring found =>
    exact nomatch found.symm.trans gone

theorem Sweeping.later {rest : List Action} (next : d.step a = some e) (other : a ≠ .proceed k)
    (h : Sweeping e k at_ rest f) : Sweeping d k at_ (a :: rest) f := by
  have apart {actions : List Action} (unturned : .proceed k ∉ actions) :
      .proceed k ∉ a :: actions := fun mem =>
    (List.mem_cons.mp mem).elim (fun same => other same.symm) unturned
  cases h with
  | waits unturned found silent ready => exact .waits (apart unturned) found silent ready
  | @sweeps first tail m _ _ split unturned before goes collects run purging purges answers
      finishes =>
    have split : a :: rest = (a :: first) ++ .proceed k :: tail := by rw [split]; rfl
    have before : d.steps (a :: first) = some m := by rwa [steps, next, Option.bind_some]
    exact .sweeps split (apart unturned) before goes collects run purging purges answers finishes

theorem sweepingOf (h : d.Sweepable) (known : k < d.nextCall) (silent : d.ending? k = none)
    (found : d.call? k = some (.collecting at_)) (run : d.steps actions = some f) :
    Sweeping d k at_ actions f := by
  induction actions generalizing d with
  | nil =>
    cases run
    exact .waits List.not_mem_nil found silent (proceedsIf found rfl)
  | cons a rest ih =>
    obtain ⟨m, next, others⟩ := Option.bind_eq_some_iff.mp run
    have lined := h.custody.lined
    by_cases own : a = .proceed k
    · subst own
      exact sweepsOn h known silent found next others
    · rcases turnOrStay lined known next with ⟨_, call, ending⟩ | ⟨before, _, _, _, runs⟩
      · exact .later next own (ih (sweepableStep h next)
          (Nat.lt_of_lt_of_le known (callsGrow lined next)) (ending.trans silent)
          (call.trans found) others)
      · cases runs.was.symm.trans found
        cases runs.course with
        | foundNone | collected => exact absurd rfl own
        | dropped abandonable => cases abandonable

theorem sweepBegins (h : d.Sweepable) (sweeps : a = .begin .sweep ∨ a = .sweepTick)
    (next : d.step a = some e) : e.call? d.nextCall = some (.collecting d.clock) ∧
      e.ending? d.nextCall = none ∧ d.nextCall < e.nextCall := by
  have opened {m : Directory} (calls : m.calls = d.calls ++ [(d.nextCall, .collecting d.clock)])
      (endings : m.endings = d.endings) (nextCall : m.nextCall = d.nextCall + 1) :
      m.call? d.nextCall = some (.collecting d.clock) ∧ m.ending? d.nextCall = none ∧
        d.nextCall < m.nextCall := by
    refine ⟨(callOpened h.custody.lined calls _).trans (if_pos rfl), ?_,
      nextCall ▸ Nat.lt_succ_self _⟩
    rw [ending?, endings, ← ending?]
    exact h.known.unended
  rcases sweeps with rfl | rfl
  · cases next
    exact opened rfl rfl rfl
  · cases stepDeed next with
    | ticked => exact opened rfl rfl rfl
    | passed ofReport | ignored ofReport | moved ofReport =>
      rcases ofReport with is | ⟨_, is⟩ <;> cases is

def Departed (d : Directory) (id : String) (epoch : Nat) : Prop :=
  epoch < d.registry.nextEpoch ∧ ∀ x, d.registry.records.get? id = some x → x.epoch ≠ epoch

structure HeardAt (since : Int) (id : String) (epoch : Nat) (d : Directory) : Prop where
  sweepable : d.Sweepable
  early : epoch < d.registry.nextEpoch
  heard : ∀ x, d.registry.records.get? id = some x → x.epoch = epoch →
    since ≤ x.snapshot.lastHeartbeat.nanos

theorem heardAtStep {since : Int} {id : String} {epoch : Nat} (h : HeardAt since id epoch d)
    (next : d.step a = some e) : HeardAt since id epoch e ∧ (⟨d, a, e⟩ : Stride).Spares id epoch
      (since + d.settings.heartbeatTimeout * Timestamp.perMilli) := by
  obtain ⟨early, heard⟩ := registrationKeeps (P := fun i => since ≤ i.lastHeartbeat.nanos)
    (fun _ _ later heard => Int.le_trans heard later.2) h.sweepable.custody h.early h.heard next
  refine ⟨⟨sweepableStep h.sweepable next, early, heard⟩, ?_⟩
  rintro k at_ x rfl found timely live own
  have fresh := h.heard x live own
  refine (sparedOrLapsed h.sweepable.custody h.sweepable.owned found next live).resolve_right ?_
  rintro ⟨_, late⟩
  have late : _ < at_.nanos - x.snapshot.lastHeartbeat.nanos := late
  omega

structure Swept (past : List Stride) (d : Directory) : Prop where
  sweepable : d.Sweepable
  either : ∀ s ∈ past, ∀ k at_ id x, s.action = .proceed k →
    s.before.call? k = some (.collecting at_) → s.before.registry.records.get? id = some x →
      s.after.registry.records.get? id = some x ∨ d.Departed id x.epoch

theorem departedStep {id : String} {epoch : Nat} (custody : d.Custody) (h : d.Departed id epoch)
    (next : d.step a = some e) : e.Departed id epoch :=
  registrationKeeps (P := fun _ => False) (fun _ _ _ no => no) custody h.1 h.2 next

theorem sweptStep {past : List Stride} (h : Swept past d) (next : d.step a = some e) :
    Swept (past ++ [⟨d, a, e⟩]) e := by
  have custody := h.sweepable.custody
  refine ⟨sweepableStep h.sweepable next, fun s mem k at_ id x acts found live => ?_⟩
  rcases List.mem_append.mp mem with old | new
  · exact (h.either s old k at_ id x acts found live).imp_right (departedStep custody · next)
  · cases List.mem_singleton.mp new
    cases acts
    refine (sparedOrLapsed custody h.sweepable.owned found next live).imp_right fun ⟨gone, _⟩ => ?_
    refine ⟨Nat.lt_of_lt_of_le (custody.sound.past id x live) (passesStep custody next).grows, ?_⟩
    rw [gone]
    exact nofun

theorem heartbeatSpares {id : String} {past : List Stride} (h : Swept past d)
    (next : d.step (.begin (.heartbeat id)) = some e)
    (heard : e.ending? d.nextCall = some (.ok .done)) :
    ∃ x, e.registry.records.get? id = some x ∧ ∀ actions, ∀ s ∈ past ++ e.trail actions,
      s.Spares id x.epoch (d.clock.nanos + d.settings.heartbeatTimeout * Timestamp.perMilli) := by
  have live : d.registry.records.holds id = true := by
    have ends := Engine.heartbeatEnds d id
    cases next
    rw [heard] at ends
    by_contra gone
    rw [if_neg gone] at ends
    cases ends
  cases next
  have next : d.step (.begin (.heartbeat id)) = some (d.begin (.heartbeat id)) := rfl
  obtain ⟨x, there, since⟩ := heartbeatHeard live
  refine ⟨x, there, fun actions s mem => ?_⟩
  rcases List.mem_append.mp mem with old | new
  · rintro k at_ y acts found _ was own
    refine (h.either s old k at_ id y acts found was).resolve_right fun gone => ?_
    exact (departedStep h.sweepable.custody gone next).2 x there own.symm
  · have sweepable := sweepableStep h.sweepable next
    have start : HeardAt d.clock.nanos id x.epoch (d.begin (.heartbeat id)) :=
      ⟨sweepable, sweepable.custody.sound.past id x there, fun y same _ => by
        cases there.symm.trans same
        exact since⟩
    refine trailEach (P := fun m => m.settings = d.settings ∧ HeardAt d.clock.nanos id x.epoch m)
      ⟨stepSettings next, start⟩ (fun s _ next ⟨settled, h⟩ => ?_) s new
    obtain ⟨later, spares⟩ := heardAtStep h next
    exact ⟨⟨(stepSettings next).trans settled, later⟩, settled ▸ spares⟩

/-- A sweep takes out just those who are live, not in flight and silent for longer than the timeout,
by the clock as it was when the sweep began, and touches nobody else. It has each of them deleted,
whatever becomes of the other deletes, tells once of each that it has expired, and answers how many
they are; and it can always be brought to that. So a registration that was heard of is spared by
every sweep that did not begin later than the timeout after that, wherever the clock has gone. -/
theorem sweepsAreExact {settings : DirectorySettings} {store : Table Instance} {past : List Action}
    (run : (withStore settings store).steps past = some d) :
    (∀ a e actions f, a = .begin .sweep ∨ a = .sweepTick → d.step a = some e →
      e.steps actions = some f → Sweeping e d.nextCall d.clock actions f) ∧
    ∀ id e, d.step (.begin (.heartbeat id)) = some e → e.ending? d.nextCall = some (.ok .done) →
      ∃ x, e.registry.records.get? id = some x ∧
        ∀ actions, ∀ s ∈ (withStore settings store).trail past ++ e.trail actions,
          s.Spares id x.epoch (d.clock.nanos + settings.heartbeatTimeout * Timestamp.perMilli) := by
  have swept : Swept ([] ++ (withStore settings store).trail past) d :=
    trailKeeps ⟨withStoreSweepable settings store, List.forall_mem_nil _⟩ run
      fun s _ next _ h => sweptStep h next
  rw [List.nil_append] at swept
  have settled : d.settings = settings :=
    trailHolds (P := fun m => m.settings = settings) rfl run fun _ _ next settled =>
      (stepSettings next).trans settled
  refine ⟨fun a e actions f sweeps next later => ?_, fun id e next heard => ?_⟩
  · obtain ⟨found, silent, known⟩ := sweepBegins swept.sweepable sweeps next
    exact sweepingOf (sweepableStep swept.sweepable next) known silent found later
  · have spares := heartbeatSpares swept next heard
    rwa [settled] at spares

def fallSilent : List Action :=
  [.begin .bootstrap, .listed 0 [.fresh "a" "web" "h:1" .origin, .fresh "b" "web" "h:2" .origin,
      .fresh "c" "web" "h:3" .origin], .proceed 0, .proceed 0, .proceed 0, .proceed 0, .proceed 0,
    .begin .start, .proceed 1, .pass 90001, .begin (.heartbeat "c")]

def sweptAway : List Action :=
  [.proceed 3, .endLoop 1, .endLoop 2, .proceed 3, .settle 3 (some ⟨.store, "down"⟩), .proceed 3,
    .proceed 3, .begin (.register (.fresh "a" "web" "h:1" .origin)), .proceed 4, .settle 3 none,
    .proceed 3, .proceed 3]

theorem silentOnesSwept :
    ∃ d e f g x, (withStore Settings.standard.directory []).steps fallSilent = some d ∧
      d.step (.begin .sweep) = some e ∧ e.steps sweptAway = some f ∧
      Sweeping e d.nextCall d.clock sweptAway f ∧
      f.ending? d.nextCall = some (.ok (.count 2)) ∧ f.registry.live.map (·.id) = ["c"] ∧
      (f.log.filter (·.kind == .expired)).map (·.snapshot.id) = ["a", "b"] ∧
      d.step (.begin (.heartbeat "c")) = some g ∧ g.ending? d.nextCall = some (.ok .done) ∧
      g.registry.records.get? "c" = some x ∧
      ∀ actions, ∀ s ∈ (withStore Settings.standard.directory []).trail fallSilent ++
          g.trail actions, s.Spares "c" x.epoch (d.clock.nanos +
            Settings.standard.directory.heartbeatTimeout * Timestamp.perMilli) := by
  obtain ⟨d, e, f, g, run, sweeps, later, count, live, told, heard, answer⟩ : ∃ d e f g,
      (withStore Settings.standard.directory []).steps fallSilent = some d ∧
      d.step (.begin .sweep) = some e ∧ e.steps sweptAway = some f ∧
      f.ending? d.nextCall = some (.ok (.count 2)) ∧ f.registry.live.map (·.id) = ["c"] ∧
      (f.log.filter (·.kind == .expired)).map (·.snapshot.id) = ["a", "b"] ∧
      d.step (.begin (.heartbeat "c")) = some g ∧ g.ending? d.nextCall = some (.ok .done) :=
    ⟨_, _, _, _, rfl, rfl, rfl, rfl, by decide +kernel, by decide +kernel, rfl, rfl⟩
  obtain ⟨exactly, heeds⟩ := sweepsAreExact run
  obtain ⟨x, there, spares⟩ := heeds "c" g heard answer
  exact ⟨d, e, f, g, x, run, sweeps, later, exactly _ e sweptAway f (.inl rfl) sweeps later, count,
    live, told, heard, answer, there, spares⟩

end Directory
end ServiceDirectory
