import ServiceDirectory.Proofs.ResolveCalls

/-! The instants of a resolve: when an instance it gives was listed, and when there was none for it.
What it may get from others, through the cache, is marked with the revision it has read. -/
namespace ServiceDirectory
open Resolve (Cache Content Course Draw Progress Pursuit Query Shared Stage Strategy)

namespace Resolve

def Content.instances : Content → List Instance
  | .selected i => [i]
  | .candidates live => live

def Stage.Marks (revision : Nat) (i : Instance) : Stage → Prop
  | .choose mark live => mark = revision ∧ i ∈ live
  | .keep mark live pick => mark = revision ∧ (i = pick ∨ i ∈ live)
  | _ => False

def Stage.Seen (q : Query) (seen : Instance → Prop) (marked : Nat → Instance → Prop) :
    Stage → Prop
  | .fetch revision => ∀ i, marked revision i → seen i
  | .pickCached candidates => ∀ i ∈ candidates, seen i ∧ Filter.passesAll q.filters i = true
  | .choose _ live => ∀ i ∈ live, seen i
  | .keep _ _ pick => seen pick ∧ Filter.passesAll q.filters pick = true
  | _ => True

def Progress.Sound (q : Query) (seen : Instance → Prop) (marked : Nat → Instance → Prop)
    (nothing : Prop) : Progress → Prop
  | .next stage => stage.Seen q seen marked
  | .ended (.ok i) => seen i ∧ Filter.passesAll q.filters i = true
  | .ended (.error _) => nothing

section Attempt
variable {r : Registry} {now : Nat} {draw : Draw} {s : Shared} {q : Query} {stage : Stage}
  {seen : Instance → Prop} {marked : Nat → Instance → Prop} {nothing : Prop}

theorem candidatesPass {live : List Instance} {i : Instance} (mem : i ∈ q.candidates live) :
    i ∈ live ∧ Filter.passesAll q.filters i = true :=
  ⟨List.mem_of_mem_filter mem, (List.mem_filter.mp mem).2⟩

theorem usefulSound {content : Content} (known : ∀ i ∈ content.instances, seen i) :
    (q.useful (some content)).Sound q seen marked nothing := by
  cases content with
  | selected i =>
    simp only [Query.useful]
    split
    · rename_i passes
      exact ⟨known i (List.mem_singleton_self i), passes⟩
    · trivial
  | candidates live =>
    simp only [Query.useful]
    split
    · trivial
    · intro i mem
      obtain ⟨within, passes⟩ := candidatesPass mem
      exact ⟨known i within, passes⟩

theorem fetchSound {revision : Nat} (own : ∀ i, marked revision i → seen i)
    (cache : ∀ cache, s.cache = some cache → ∀ e ∈ cache.entries, e.service = q.service →
      ∀ i ∈ e.content.instances, marked e.revision i) :
    (q.fetch revision now s).1.Sound q seen marked nothing := by
  simp only [Query.fetch]
  split
  · rename_i c used
    cases hit : (c.get q.service q.strategy.name revision now).1 with
    | none => trivial
    | some content =>
      obtain ⟨e, mem, service, _, mark, rfl⟩ := Cache.getHit hit
      exact usefulSound fun i within =>
        own i (mark ▸ cache c (Query.cacheUsed used) e mem service i within)
  · trivial

theorem pickSound (draw : Draw) (s : Shared) (own : q.strategy.builtIn = true)
    {candidates : List Instance} (some_ : candidates ≠ []) :
    ∃ i ∈ candidates, ∃ s', q.pick draw s candidates = (.ok i, s') := by
  obtain ⟨i, mem, picked⟩ : ∃ i ∈ candidates,
      (q.strategy.select draw s.cursor candidates).1 = .ok i :=
    Strategy.selectFinds own some_
  exact ⟨i, mem, _, Prod.ext picked rfl⟩

theorem advanceSound (own : q.strategy.builtIn = true) (fits : stage.Fits r q)
    (h : stage.Seen q seen marked)
    (cache : ∀ cache, s.cache = some cache → ∀ e ∈ cache.entries, e.service = q.service →
      ∀ i ∈ e.content.instances, marked e.revision i)
    (current : ∀ i, marked (r.revision q.service) i → seen i)
    (listed : ∀ i ∈ r.list q.service false, seen i) :
    (q.advance r now draw s stage).1.Sound q seen marked
      (q.candidates (r.list q.service false) = []) := by
  cases stage with
  | lookup =>
    simp only [Query.advance, Query.lookup]
    split
    · exact current
    · trivial
  | fetch revision => exact fetchSound h cache
  | pickCached candidates =>
    obtain ⟨i, mem, s', picked⟩ := pickSound draw s own fits
    simp only [Query.advance, picked]
    exact h i mem
  | snapshot => trivial
  | list revision =>
    simp only [Query.advance]
    split
    · rename_i none
      exact List.isEmpty_iff.mp none
    · exact listed
  | choose revision live =>
    obtain ⟨i, mem, s', picked⟩ := pickSound draw s own fits.2
    simp only [Query.advance, picked]
    obtain ⟨within, passes⟩ := candidatesPass mem
    exact ⟨h i within, passes⟩
  | keep revision live pick => exact h

inductive Course.Sound (q : Query) (seen : Instance → Prop) (marked : Nat → Instance → Prop)
    (nothing : Prop) (p : Pursuit) : Course → Prop where
  | goes {p' : Pursuit} (query : p'.query = q) (delays : p'.delays = p.delays)
      (stage : ∀ stage, p'.moment = .trying stage → stage.Seen q seen marked) :
      Sound q seen marked nothing p (.ahead p')
  | again {p' : Pursuit} (query : p'.query = q) {delay : Nat} (delays : p.delays = delay :: p'.delays)
      (tried : ∃ stage, p.moment = .trying stage) (found : nothing)
      (stage : ∀ stage, p'.moment = .trying stage → stage.Seen q seen marked) :
      Sound q seen marked nothing p (.ahead p')
  | ok {i : Instance} (found : seen i) (passes : Filter.passesAll q.filters i = true) :
      Sound q seen marked nothing p (.ended (.ok i))
  | missed {e : Failure} (delays : p.delays = []) (tried : ∃ stage, p.moment = .trying stage)
      (found : nothing) : Sound q seen marked nothing p (.ended (.error e))
  | failed {e : Failure} (kind : e.kind ≠ .noAvailableInstances) :
      Sound q seen marked nothing p (.ended (.error e))

theorem takenSound {p : Pursuit} {course : Course} {s' : Shared} (fits : p.Fits r)
    (h : ∀ stage, p.moment = .trying stage → stage.Seen p.query seen marked)
    (cache : ∀ cache, s.cache = some cache → ∀ e ∈ cache.entries, e.service = p.query.service →
      ∀ i ∈ e.content.instances, marked e.revision i)
    (current : ∀ i, marked (r.revision p.query.service) i → seen i)
    (listed : ∀ i ∈ r.list p.query.service false, seen i)
    (taken : p.Taken r now draw s course s') :
    course.Sound p.query seen marked (p.query.candidates (r.list p.query.service false) = []) p := by
  have advanced {stage : Stage} {progress : Progress} (trying : p.moment = .trying stage)
      (moved : p.query.advance r now draw s stage = (progress, s')) :
      progress.Sound p.query seen marked
        (p.query.candidates (r.list p.query.service false) = []) := by
    have sound : (p.query.advance r now draw s stage).1.Sound p.query seen marked
        (p.query.candidates (r.list p.query.service false) = []) :=
      advanceSound fits.own (fits.stage stage trying) (h stage trying) cache current listed
    rw [moved] at sound
    exact sound
  cases taken with
  | next trying moved =>
    have sound := advanced trying moved
    exact .goes rfl rfl fun stage same => by cases same; exact sound
  | found trying moved =>
    obtain ⟨shown, passes⟩ := advanced trying moved
    exact .ok shown passes
  | refused trying moved final =>
    refine .failed fun kind => ?_
    simp [Failure.retryable, kind] at final
  | missed trying moved delays => exact .missed delays ⟨_, trying⟩ (advanced trying moved)
  | again trying moved delays anew =>
    refine .again rfl delays ⟨_, trying⟩ (advanced trying moved) fun stage same => ?_
    cases anew stage same
    trivial
  | rested => exact .goes rfl rfl fun stage same => by cases same; trivial
  | expired => exact .failed fun kind => by cases kind

end Attempt
end Resolve

namespace Broker
variable {b c : Broker} {service : String} {revision : Nat} {i : Instance}

def Marked (b : Broker) (service : String) (revision : Nat) (i : Instance) : Prop :=
  (∃ cache, b.cache = some cache ∧ ∃ e ∈ cache.entries, e.service = service ∧
    e.revision = revision ∧ i ∈ e.content.instances) ∨
  ∃ x ∈ b.pursuits, x.2.query.service = service ∧
    ∃ stage, x.2.moment = .trying stage ∧ stage.Marks revision i

theorem markedListed (f : b.Fresh) (h : b.Marked service (b.directory.registry.revision service) i) :
    ∃ j ∈ b.directory.registry.list service false, i.sameButHeartbeat j := by
  have among {l : List Instance} (alike : Alike l (b.directory.registry.list service false))
      (mem : i ∈ l) : ∃ j ∈ b.directory.registry.list service false, i.sameButHeartbeat j := by
    obtain ⟨n, within, rfl⟩ := List.mem_iff_getElem.mp mem
    have other : n < (b.directory.registry.list service false).length := alike.length_eq ▸ within
    exact ⟨_, List.getElem_mem other, List.forall₂_iff_get.mp alike |>.2 n within other⟩
  rcases h with ⟨cache, used, e, mem, rfl, mark, within⟩ | ⟨x, mem, rfl, stage, trying, marks⟩
  · have fits := (f.shared cache used e mem).now mark
    cases content : e.content with
    | selected pick =>
      rw [content] at fits within
      cases List.mem_singleton.mp within
      obtain ⟨_, j, low, same⟩ := fits
      exact ⟨j, Resolve.lowestMem low, same⟩
    | candidates live =>
      rw [content] at fits within
      exact among fits.2 within
  · have fits := (f.pursuits x mem).stage stage trying
    cases stage with
    | choose mark live => exact among (fits.1.now marks.1) marks.2
    | keep mark live pick =>
      obtain ⟨same, rfl | within⟩ := marks
      · exact among (fits.1.now same) fits.2.1
      · exact among (fits.1.now same) within
    | _ => cases marks

section Marks
variable {r : Registry} {now : Nat} {draw : Draw} {s : Shared} {q : Query} {stage after : Stage}

theorem advanceMarks (own : q.strategy.builtIn = true) (fits : stage.Fits r q)
    (next : (q.advance r now draw s stage).1 = .next after) (marks : after.Marks revision i) :
    stage.Marks revision i ∨ i ∈ r.list q.service false := by
  cases stage with
  | lookup =>
    simp only [Query.advance, Query.lookup] at next
    split at next <;> cases next <;> cases marks
  | fetch mark =>
    simp only [Query.advance, Query.fetch] at next
    split at next
    · simp only [Query.useful] at next
      split at next <;> (try split at next) <;> cases next <;> cases marks
    · cases next
      cases marks
  | pickCached candidates => cases next
  | snapshot => cases next; cases marks
  | list mark =>
    simp only [Query.advance] at next
    split at next <;> cases next
    exact .inr marks.2
  | choose mark live =>
    obtain ⟨pick, mem, s', picked⟩ := Resolve.pickSound draw s own fits.2
    simp only [Query.advance, picked] at next
    cases next
    obtain ⟨same, rfl | within⟩ := marks
    · exact .inl ⟨same, (Resolve.candidatesPass mem).1⟩
    · exact .inl ⟨same, within⟩
  | keep mark live pick => cases next

theorem contentMarks {live : List Instance} {pick : Instance} {content : Content}
    (kept : q.content? live pick = some content) :
    ∀ i ∈ content.instances, (Stage.keep revision live pick).Marks revision i := by
  intro i within
  simp only [Query.content?] at kept
  split at kept
  · cases kept
    exact ⟨rfl, .inr within⟩
  · split at kept <;> cases kept
    exact ⟨rfl, .inl (List.mem_singleton.mp within)⟩

theorem takenMarks {p p' : Pursuit} {s' : Shared} (fits : p.Fits r)
    (taken : p.Taken r now draw s (.ahead p') s') (trying : p'.moment = .trying after)
    (marks : after.Marks revision i) :
    (∃ stage, p.moment = .trying stage ∧ stage.Marks revision i) ∨
      i ∈ r.list p.query.service false := by
  cases taken with
  | @next stage _ _ tried moved =>
    cases trying
    have gone : (p.query.advance r now draw s stage).1 = .next after := congrArg Prod.fst moved
    rcases advanceMarks fits.own (fits.stage stage tried) gone marks with old | listed
    · exact .inl ⟨stage, tried, old⟩
    · exact .inr listed
  | again tried moved delays anew =>
    cases anew after trying
    cases marks
  | rested =>
    cases trying
    cases marks

end Marks

theorem markedStep (f : b.Fresh) {a : BrokerAction} (next : b.step a = some c)
    (h : c.Marked service revision i) :
    b.Marked service revision i ∨ i ∈ b.directory.registry.list service false := by
  rcases h with ⟨cache', left, e, mem, name, mark, within⟩ | ⟨x, mem, name, stage, trying, marks⟩
  · -- An entry is new only where an attempt was about to keep it, which marked it before.
    refine .inl ?_
    rcases stepLeaves next left mem with ⟨cache, used, old⟩ | ⟨x, under, moment, kept⟩
    · exact .inl ⟨cache, used, e, old, name, mark, within⟩
    · cases mark
      exact .inr ⟨x, under, name, _, moment, contentMarks kept i within⟩
  · rcases stepPursuits next mem with old | ⟨options, wanted, jitter, _, _, begun⟩ | ahead
    · exact .inl (.inr ⟨x, old, name, stage, trying, marks⟩)
    · obtain ⟨_, _, _, _, moment⟩ := Pursuit.beginCases begun
      cases moment.symm.trans trying
      cases marks
    · obtain ⟨p, draw, s, _, found, taken⟩ := ahead
      have was := pursuitMem found
      have query : p.query.service = service := by
        rw [← name, Pursuit.takenQuery taken]
      rcases takenMarks (f.pursuits _ was) taken trying marks with ⟨stage, tried, old⟩ | listed
      · exact .inl (.inr ⟨_, was, query, stage, tried, old⟩)
      · exact .inr (query ▸ listed)

def SeenIn (visited : Broker → Prop) (service : String) (i : Instance) : Prop :=
  ∃ m, visited m ∧ ∃ j ∈ m.directory.registry.list service false, i.sameButHeartbeat j

def MissedIn (visited : Broker → Prop) (k : Nat) (q : Query) (left : Nat) : Prop :=
  ∃ m p stage, visited m ∧ m.pursuit? k = some p ∧ p.moment = .trying stage ∧
    p.delays.length = left ∧ q.candidates (m.directory.registry.list q.service false) = []

structure Tracked (visited : Broker → Prop) (b : Broker) (k : Nat) (q : Query) (total : Nat)
    (p : Pursuit) : Prop where
  here : visited b
  query : p.query = q
  stage : ∀ stage, p.moment = .trying stage →
    stage.Seen q (SeenIn visited q.service) (b.Marked q.service)
  missed : ∀ n, p.delays.length < n → n ≤ total → MissedIn visited k q n

section Later
variable {visited visited' : Broker → Prop} {k total : Nat} {q : Query}
  (grows : ∀ m, visited m → visited' m)
include grows

theorem seenLater (h : SeenIn visited service i) : SeenIn visited' service i := by
  obtain ⟨m, was, rest⟩ := h
  exact ⟨m, grows m was, rest⟩

theorem missedLater {n : Nat} (h : MissedIn visited k q n) : MissedIn visited' k q n := by
  obtain ⟨m, p, stage, was, rest⟩ := h
  exact ⟨m, p, stage, grows m was, rest⟩

theorem stageLater {stage : Stage} (f : b.Fresh) (here : visited b) {a : BrokerAction}
    (next : b.step a = some c)
    (h : stage.Seen q (SeenIn visited q.service) (b.Marked q.service)) :
    stage.Seen q (SeenIn visited' q.service) (c.Marked q.service) := by
  cases stage with
  | fetch revision =>
    intro i marked
    rcases markedStep f next marked with old | listed
    · exact seenLater grows (h i old)
    · exact seenLater grows ⟨b, here, i, listed, Instance.sameRefl i⟩
  | pickCached candidates => exact fun i mem => ⟨seenLater grows (h i mem).1, (h i mem).2⟩
  | choose revision live => exact fun i mem => seenLater grows (h i mem)
  | keep revision live pick => exact ⟨seenLater grows h.1, h.2⟩
  | _ => trivial

end Later

section Tracked
variable {visited : Broker → Prop} {k total : Nat} {q : Query} {p : Pursuit}

theorem trackedAside (f : b.Fresh) (h : Tracked visited b k q total p) {a : BrokerAction}
    (next : b.step a = some c) : Tracked (fun m => visited m ∨ m = c) c k q total p where
  here := .inr rfl
  query := h.query
  stage stage trying := stageLater (fun _ => .inl) f h.here next (h.stage stage trying)
  missed n fewer within := missedLater (fun _ => .inl) (h.missed n fewer within)

theorem trackedCourse (f : b.Fresh) (h : Tracked visited b k q total p)
    (was : b.pursuit? k = some p) {draw : Draw} {course : Course} {s : Shared}
    (taken : p.Taken b.directory.registry b.directory.now draw b.shared course s) :
    course.Sound q (SeenIn visited q.service) (b.Marked q.service)
      (q.candidates (b.directory.registry.list q.service false) = []) p := by
  obtain ⟨here, rfl, stage, _⟩ := h
  refine Resolve.takenSound (f.pursuits _ (pursuitMem was)) stage ?_ ?_ ?_ taken
  · exact fun cache used e mem name i within => .inl ⟨cache, used, e, mem, name, rfl, within⟩
  · intro i marked
    exact ⟨b, here, markedListed f marked⟩
  · exact fun i listed => ⟨b, here, i, listed, Instance.sameRefl i⟩

theorem trackedMissed (h : Tracked visited b k q total p) (was : b.pursuit? k = some p)
    (tried : ∃ stage, p.moment = .trying stage)
    (found : q.candidates (b.directory.registry.list q.service false) = []) :
    MissedIn visited k q p.delays.length := by
  obtain ⟨stage, trying⟩ := tried
  exact ⟨b, p, stage, h.here, was, trying, rfl, found⟩

theorem trackedAhead (f : b.Fresh) (h : Tracked visited b k q total p)
    (was : b.pursuit? k = some p) {draw : Draw} {p' : Pursuit} {s : Shared}
    (taken : p.Taken b.directory.registry b.directory.now draw b.shared (.ahead p') s)
    {a : BrokerAction} (next : b.step a = some c) :
    Tracked (fun m => visited m ∨ m = c) c k q total p' := by
  have sound := trackedCourse f h was taken
  cases sound with
  | goes query delays stage =>
    refine ⟨.inr rfl, query, fun stage' trying => ?_, fun n fewer within => ?_⟩
    · exact stageLater (fun _ => .inl) f h.here next (stage stage' trying)
    · exact missedLater (fun _ => .inl) (h.missed n (delays ▸ fewer) within)
  | @again _ query delay delays tried found stage =>
    refine ⟨.inr rfl, query, fun stage' trying => ?_, fun n fewer within => ?_⟩
    · exact stageLater (fun _ => .inl) f h.here next (stage stage' trying)
    · refine missedLater (fun _ => .inl) ?_
      have length : p.delays.length = p'.delays.length + 1 := by simp [delays]
      by_cases last : n = p.delays.length
      · subst last
        exact trackedMissed h was tried found
      · have more : p.delays.length < n := by omega
        exact h.missed n more within

end Tracked

def Visits (b : Broker) (k : Nat) (actions : List BrokerAction) (m : Broker) : Prop :=
  ∃ first last, actions = first ++ last ∧ b.steps first = some m ∧ (m.pursuit? k).isSome = true

theorem Visits.begun {k : Nat} {p : Pursuit} (was : b.pursuit? k = some p)
    (actions : List BrokerAction) : Visits b k actions b :=
  ⟨[], actions, rfl, rfl, by rw [was]; rfl⟩

theorem Visits.later {k : Nat} {a : BrokerAction} {rest : List BrokerAction} {m : Broker}
    (next : b.step a = some c) (h : Visits c k rest m) : Visits b k (a :: rest) m := by
  obtain ⟨first, last, rfl, run, under⟩ := h
  exact ⟨a :: first, last, rfl, by rw [steps, next]; exact run, under⟩

def EndsWell (visited : Broker → Prop) (k : Nat) (q : Query) (total : Nat)
    (result : Except Failure Instance) : Prop :=
  (∀ i, result = .ok i → SeenIn visited q.service i ∧ Filter.passesAll q.filters i = true) ∧
    ∀ e, result = .error e → e.kind = .noAvailableInstances →
      ∀ n, n ≤ total → MissedIn visited k q n

theorem EndsWell.later {visited visited' : Broker → Prop} {k total : Nat} {q : Query}
    {result : Except Failure Instance} (h : EndsWell visited k q total result)
    (grows : ∀ m, visited m → visited' m) : EndsWell visited' k q total result :=
  ⟨fun i ok => ⟨seenLater grows (h.1 i ok).1, (h.1 i ok).2⟩,
    fun e failed kind n within => missedLater grows (h.2 e failed kind n within)⟩

theorem trackedEnd {visited : Broker → Prop} {k total : Nat} {q : Query} {p : Pursuit}
    {result : Except Failure Instance} {marked : Nat → Instance → Prop}
    (h : Tracked visited b k q total p) (was : b.pursuit? k = some p)
    (sound : Course.Sound q (SeenIn visited q.service) marked
      (q.candidates (b.directory.registry.list q.service false) = []) p (.ended result)) :
    EndsWell visited k q total result := by
  cases sound with
  | ok found passes =>
    exact ⟨fun i same => by cases same; exact ⟨found, passes⟩, fun e failed => by cases failed⟩
  | missed delays tried found =>
    refine ⟨fun i same => (by cases same), fun e failed kind n within => ?_⟩
    have last := trackedMissed h was tried found
    rw [delays] at last
    rcases Nat.eq_zero_or_pos n with rfl | more
    · exact last
    · exact h.missed n (by rw [delays]; exact more) within
  | failed kind =>
    exact ⟨fun i same => (by cases same),
      fun e failed none => absurd none (by cases failed; exact kind)⟩

theorem trackedSteps {visited : Broker → Prop} {k total : Nat} {q : Query} {p : Pursuit}
    (f : b.Fresh) (h : Tracked visited b k q total p) (known : k < b.nextPursuit)
    (was : b.pursuit? k = some p) (open_ : b.ending? k = none) {actions : List BrokerAction}
    (plain : ∀ a ∈ actions, a.plain = true) (run : b.steps actions = some c)
    {result : Except Failure Instance} (ended : c.ending? k = some result) :
    EndsWell (fun m => visited m ∨ Visits b k actions m) k q total result := by
  induction actions generalizing b visited p with
  | nil =>
    cases run
    rw [open_] at ended
    cases ended
  | cons a rest ih =>
    obtain ⟨m, one, others⟩ := Option.bind_eq_some_iff.mp run
    have fresh := freshStep f (plain a List.mem_cons_self) one
    have plain' : ∀ x ∈ rest, x.plain = true := fun x mem => plain x (List.mem_cons_of_mem _ mem)
    -- The moments visited grow by `m`; those after it are visited by the rest of the run.
    have grows {p' : Pursuit} (is : m.pursuit? k = some p') (x : Broker)
        (old : (visited x ∨ x = m) ∨ Visits m k rest x) :
        visited x ∨ Visits b k (a :: rest) x := by
      rcases old with (old | rfl) | later
      · exact .inl old
      · exact .inr (.later one (.begun is rest))
      · exact .inr (.later one later)
    obtain ⟨known', moved⟩ := stepMoved known one
    cases moved with
    | untouched pursuit ending =>
      have is := pursuit.trans was
      exact (ih fresh (trackedAside f h one) known' is (ending.trans open_) plain' others).later
        (grows is)
    | dropped pursuit ending =>
      rw [goneSteps known' pursuit others, ending, open_] at ended
      cases ended
    | ahead was' taken pursuit ending =>
      cases was.symm.trans was'
      exact (ih fresh (trackedAhead f h was taken one) known' pursuit (ending.trans open_) plain'
        others).later (grows pursuit)
    | ended was' taken pursuit ending =>
      cases was.symm.trans was'
      rw [goneSteps known' pursuit others, ending] at ended
      cases ended
      exact (trackedEnd h was (trackedCourse f h was taken)).later fun x => .inl

theorem trackedBegin {p : Pursuit} (k : Nat) (moment : p.moment = .trying .lookup) :
    Tracked (· = b) b k p.query p.delays.length p where
  here := rfl
  query := rfl
  stage stage trying := by
    cases moment.symm.trans trying
    trivial
  missed n fewer within := absurd fewer (Nat.not_lt.mpr within)

/-- An instance that a resolve gives is of the service, passes the filters, and was listed while the
resolve was under way, as it is but for its last heartbeat. A resolve that has found none has tried
as often as it may, and during each attempt there was a moment with nothing for it. -/
theorem resolvesAreCurrent {settings : DirectorySettings} {resolver : Resolve.ResolverSettings}
    {limits : Option (Nat × Nat)} {past actions : List BrokerAction}
    (before : (new (.empty settings) resolver (limits.map fun l => .empty l.1 l.2)).steps past =
      some b)
    {service : String} {options : Resolve.ResolveOptions} {jitter : Draw}
    (run : (b.beginResolve service options jitter).steps actions = some c)
    (plain : ∀ a ∈ past ++ actions, a.plain = true) {result : Except Failure Instance}
    (ended : c.ending? b.nextPursuit = some result) :
    (∀ i, result = .ok i → i.name = service ∧ (∀ f ∈ options.filters, f i = true) ∧
      ∃ m, Visits (b.beginResolve service options jitter) b.nextPursuit actions m ∧
        ∃ j ∈ m.directory.registry.list service false, i.sameButHeartbeat j) ∧
    (∀ e, result = .error e → e.kind = .noAvailableInstances →
      ∀ left, left ≤ options.retries.getD b.settings.retries →
        ∃ m p stage, Visits (b.beginResolve service options jitter) b.nextPursuit actions m ∧
          m.pursuit? b.nextPursuit = some p ∧ p.moment = .trying stage ∧ p.delays.length = left ∧
          Filter.keep options.filters (m.directory.registry.list service false) = []) := by
  have earlier : ∀ a ∈ past, a.plain = true := fun a mem => plain a (List.mem_append_left _ mem)
  have later : ∀ a ∈ actions, a.plain = true := fun a mem => plain a (List.mem_append_right _ mem)
  have fresh := freshSteps (newFresh settings resolver limits) earlier before
  have named := namedSteps (newNamed settings resolver _) before
  have fresh' : (b.beginResolve service options jitter).Fresh :=
    freshStep fresh (a := .beginResolve service options jitter) rfl rfl
  obtain ⟨known, ⟨e, kind, gone, failed⟩ | ⟨p, begun, was, open_⟩⟩ :=
    beginCases named service options jitter
  · rw [goneSteps known gone run, failed] at ended
    cases ended
    exact ⟨fun i same => (by cases same), fun e' same none => absurd none (by cases same; exact kind)⟩
  · obtain ⟨strategy, _, query, delays, moment⟩ := Pursuit.beginCases begun
    have visits (m : Broker) (old : m = b.beginResolve service options jitter ∨
        Visits (b.beginResolve service options jitter) b.nextPursuit actions m) :
        Visits (b.beginResolve service options jitter) b.nextPursuit actions m := by
      rcases old with rfl | later
      · exact .begun was actions
      · exact later
    have ends := (trackedSteps fresh' (trackedBegin b.nextPursuit moment) known was open_ later run
      ended).later visits
    rw [query, delays, Pursuit.delaysLength] at ends
    refine ⟨fun i ok => ?_, fun e failed none left within => ?_⟩
    · obtain ⟨⟨m, visits, j, listed, same⟩, passes⟩ := ends.1 i ok
      refine ⟨?_, List.all_eq_true.mp passes, m, visits, j, listed, same⟩
      have reached : m.Fresh := by
        obtain ⟨first, last, rfl, steps, _⟩ := visits
        exact freshSteps fresh' (fun a mem => later a (List.mem_append_left _ mem)) steps
      have name := ((Registry.memList reached.custody.sound service false j).mp listed).2.1
      rw [same]
      exact name
    · obtain ⟨m, p, stage, visits, under, trying, length, none⟩ := ends.2 e failed none left within
      exact ⟨m, p, stage, visits, under, trying, length, none⟩

theorem registeredIsCurrent :
    ∃ b c i, standardStart.steps registered = some b ∧
      (b.beginResolve "web" .standard id).steps (List.replicate 6 (.proceedResolve 0 id)) = some c ∧
      c.ending? b.nextPursuit = some (.ok i) ∧ i.name = "web" ∧
      ∃ m, Visits (b.beginResolve "web" .standard id) b.nextPursuit
          (List.replicate 6 (.proceedResolve 0 id)) m ∧
        ∃ j ∈ m.directory.registry.list "web" false, i.sameButHeartbeat j := by
  have ran : ((standardStart.steps registered).bind fun b =>
      ((b.beginResolve "web" .standard id).steps (List.replicate 6 (.proceedResolve 0 id))).bind
        fun c => (c.ending? b.nextPursuit).bind (·.toOption)).isSome = true := by decide +kernel
  obtain ⟨i, found⟩ := Option.isSome_iff_exists.mp ran
  obtain ⟨b, before, found⟩ := Option.bind_eq_some_iff.mp found
  obtain ⟨c, run, found⟩ := Option.bind_eq_some_iff.mp found
  obtain ⟨result, ended, ok⟩ := Option.bind_eq_some_iff.mp found
  cases result with
  | error e => cases ok
  | ok j =>
    cases Option.some.inj ok
    have current := (resolvesAreCurrent before run (by decide) ended).1 i rfl
    exact ⟨b, c, i, before, run, ended, current.1, current.2.2⟩

end Broker
end ServiceDirectory
