import Mathlib.Data.List.Induction
import ServiceDirectory.Proofs.CachedAttempt
import ServiceDirectory.Proofs.Occasions
import ServiceDirectory.Proofs.ResolveCalls

/-! Whose picks resolves end with, while strategies are put in each other's place. The cache knows a
strategy by its name alone, so the pick of a sticky one may come to those who found another. -/
namespace ServiceDirectory
open Resolve (Cursor Draw Pursuit Query Shared Stage Strategy)

namespace Resolve

section Attempt
variable {q : Query} {r : Registry} {now : Nat} {draw : Draw} {s s' : Shared} {stage : Stage}
  {revision : Nat} {live : List Instance} {i : Instance}

theorem Query.advanceKeeps
    (moved : q.advance r now draw s stage = (.next (.keep revision live i), s')) :
    ∃ candidates, q.choice? stage = some candidates ∧
      (q.strategy.select draw s.cursor candidates).1 = .ok i := by
  cases stage with
  | choose revision live =>
    simp only [advance] at moved
    split at moved <;> cases moved
    rename_i picked
    exact ⟨q.candidates live, rfl, congrArg Prod.fst picked⟩
  | lookup =>
    simp only [advance, lookup] at moved
    split at moved <;> cases moved
  | fetch revision =>
    simp only [advance, fetch, useful] at moved
    split at moved
    · have moved := (Prod.mk.inj moved).1
      split at moved
      · split at moved <;> cases moved
      · split at moved <;> cases moved
      · cases moved
    · cases moved
  | list revision =>
    simp only [advance] at moved
    split at moved <;> cases moved
  | _ => cases moved

theorem Query.advanceFinds (moved : q.advance r now draw s stage = (.ended (.ok i), s')) :
    (∃ candidates, q.choice? stage = some candidates ∧
        (q.strategy.select draw s.cursor candidates).1 = .ok i) ∨
      (∃ revision live, stage = .keep revision live i) ∨
      q.useCache = true ∧ ∃ cache, s.cache = some cache ∧ ∃ e ∈ cache.entries,
        e.service = q.service ∧ e.strategy = q.strategy.name ∧ e.content = .selected i := by
  cases stage with
  | pickCached candidates =>
    exact .inl ⟨candidates, rfl, Progress.ended.inj (Prod.mk.inj moved).1⟩
  | keep revision live pick =>
    cases moved
    exact .inr (.inl ⟨revision, live, rfl⟩)
  | fetch revision =>
    simp only [advance, fetch] at moved
    split at moved
    · rename_i cache used
      have useful := (Prod.mk.inj moved).1
      cases hit : (cache.get q.service q.strategy.name revision now).1 with
      | none =>
        rw [hit] at useful
        cases useful
      | some content =>
        obtain ⟨e, mem, service, strategy, _, same⟩ := Cache.getHit hit
        rw [hit] at useful
        cases content with
        | selected pick =>
          simp only [Query.useful] at useful
          split at useful <;> cases useful
          refine .inr (.inr ⟨?_, cache, cacheUsed used, e, mem, service, strategy, same⟩)
          unfold cache? at used
          split at used
          · assumption
          · cases used
        | candidates live =>
          simp only [Query.useful] at useful
          split at useful <;> cases useful
    · cases moved
  | lookup =>
    simp only [advance, lookup] at moved
    split at moved <;> cases moved
  | snapshot => cases moved
  | list revision =>
    simp only [advance] at moved
    split at moved <;> cases moved
  | choose revision live =>
    simp only [advance] at moved
    split at moved <;> cases moved

theorem Query.contentSelected {live : List Instance} {pick : Instance}
    (kept : q.content? live pick = some (.selected i)) :
    i = pick ∧ q.strategy.sticky = true ∧ q.filters = [] := by
  simp only [content?] at kept
  split at kept
  · cases kept
  · rename_i sticky
    split at kept <;> cases kept
    rename_i none
    exact ⟨rfl, by simpa using sticky, List.isEmpty_iff.mp none⟩

end Attempt

namespace Pursuit
variable {p p' : Pursuit} {r : Registry} {now : Nat} {draw : Draw} {s s' : Shared} {i : Instance}

def Selects (p : Pursuit) (draw : Draw) (cursor : Cursor) (i : Instance) : Prop :=
  ∃ stage candidates, p.moment = .trying stage ∧ p.query.choice? stage = some candidates ∧
    (p.query.strategy.select draw cursor candidates).1 = .ok i

theorem takenKeeps {revision : Nat} {live : List Instance}
    (taken : p.Taken r now draw s (.ahead p') s')
    (keeps : p'.moment = .trying (.keep revision live i)) : p.Selects draw s.cursor i := by
  cases taken with
  | next trying moved =>
    cases keeps
    obtain ⟨candidates, offered, picked⟩ := Query.advanceKeeps moved
    exact ⟨_, candidates, trying, offered, picked⟩
  | again trying moved delays anew => cases anew _ keeps
  | rested => cases keeps

theorem takenFinds (taken : p.Taken r now draw s (.ended (.ok i)) s') :
    p.Selects draw s.cursor i ∨ (∃ revision live, p.moment = .trying (.keep revision live i)) ∨
      p.query.useCache = true ∧ ∃ cache, s.cache = some cache ∧ ∃ e ∈ cache.entries,
        e.service = p.query.service ∧ e.strategy = p.query.strategy.name ∧
          e.content = .selected i := by
  cases taken with
  | found trying moved =>
    rcases Query.advanceFinds moved with ⟨candidates, offered, picked⟩ | ⟨revision, live, rfl⟩ | kept
    · exact .inl ⟨_, candidates, trying, offered, picked⟩
    · exact .inr (.inl ⟨revision, live, trying⟩)
    · exact .inr (.inr kept)

end Pursuit
end Resolve

def BrokerAction.enrols (name : String) : BrokerAction → Bool
  | .addStrategy s => s.name == name
  | _ => false

namespace Broker
variable {start b c m : Broker} {run past past' rest : List BrokerAction} {a : BrokerAction} {k : Nat}
  {name name' service : String} {q q' : Query} {i : Instance} {s t : Strategy}

theorem stepsAppend (b : Broker) (first last : List BrokerAction) :
    b.steps (first ++ last) = (b.steps first).bind (·.steps last) := by
  induction first generalizing b with
  | nil => rfl
  | cons a rest ih =>
    simp only [List.cons_append, steps]
    cases b.step a with
    | none => rfl
    | some c => exact ih c

theorem stepsLast : start.steps (run ++ [a]) = some c ↔
    ∃ b, start.steps run = some b ∧ b.step a = some c := by
  simp [stepsAppend, steps, Option.bind_eq_some_iff]

/-- The resolve begins in the run, after `past`, and finds its strategy under the name. -/
inductive Looks (start : Broker) (run past : List BrokerAction) (k : Nat) (name : String) :
    Query → Prop where
  | begins {service : String} {options : Resolve.ResolveOptions} {jitter : Draw} {m : Broker}
      {strategy : Strategy} (begun : (past, .beginResolve service options jitter) ∈ occasions run)
      (there : start.steps past = some m) (next : m.nextPursuit = k)
      (named : options.strategy.getD m.settings.defaultStrategy = name)
      (found : m.balancer.strategies.get? name = some strategy) :
      Looks start run past k name ⟨service, strategy, options.filters, options.useCache⟩

/-- The strategy that the resolve has found picks the instance for it. -/
inductive Picks (start : Broker) (run : List BrokerAction) (k : Nat) (q : Query) (i : Instance) :
    Prop where
  | selects {past : List BrokerAction} {draw : Draw} {m : Broker} {p : Pursuit}
      (goesOn : (past, .proceedResolve k draw) ∈ occasions run) (there : start.steps past = some m)
      (under : m.pursuit? k = some p) (query : p.query = q)
      (picked : p.Selects draw m.balancer.cursor i)

inductive StickyPick (start : Broker) (run : List BrokerAction) (service name : String)
    (i : Instance) : Prop where
  | of {past : List BrokerAction} {k : Nat} {q : Query} (looks : Looks start run past k name q)
      (about : q.service = service) (sticky : q.strategy.sticky = true) (whole : q.filters = [])
      (picks : Picks start run k q i)

inductive Replaces (start : Broker) (run past : List BrokerAction) (name : String)
    (old new : Strategy) : Prop where
  | adds {m : Broker} (added : (past, .addStrategy new) ∈ occasions run)
      (there : start.steps past = some m) (named : new.name = name)
      (held : m.balancer.strategies.get? name = some old)

def enrolled (name : String) (run : List BrokerAction) : Nat :=
  run.countP (BrokerAction.enrols name)

theorem Looks.more (h : Looks start run past k name q) (rest : List BrokerAction) :
    Looks start (run ++ rest) past k name q := by
  obtain ⟨begun, there, next, named, found⟩ := h
  exact .begins (occasionsMore _ _ begun) there next named found

theorem Picks.more (h : Picks start run k q i) (rest : List BrokerAction) :
    Picks start (run ++ rest) k q i := by
  obtain ⟨goesOn, there, under, query, picked⟩ := h
  exact .selects (occasionsMore _ _ goesOn) there under query picked

theorem StickyPick.more (h : StickyPick start run service name i) (rest : List BrokerAction) :
    StickyPick start (run ++ rest) service name i := by
  obtain ⟨looks, about, sticky, whole, picks⟩ := h
  exact .of (looks.more rest) about sticky whole (picks.more rest)

theorem Replaces.more (h : Replaces start run past name s t) (rest : List BrokerAction) :
    Replaces start (run ++ rest) past name s t := by
  obtain ⟨added, there, named, held⟩ := h
  exact .adds (occasionsMore _ _ added) there named held

theorem knownSteps (known : k < b.nextPursuit) {actions : List BrokerAction}
    (ran : b.steps actions = some c) : k < c.nextPursuit := by
  induction actions generalizing b with
  | nil => cases ran; exact known
  | cons a rest ih =>
    obtain ⟨m, one, others⟩ := Option.bind_eq_some_iff.mp ran
    exact ih (stepMoved known one).1 others

theorem beginsBefore {service : String} {options : Resolve.ResolveOptions} {jitter : Draw}
    (there : start.steps past = some m)
    (later : start.steps (past ++ [.beginResolve service options jitter] ++ rest) = some c) :
    m.nextPursuit < c.nextPursuit := by
  rw [stepsAppend, stepsAppend, there, Option.bind_some] at later
  obtain ⟨n, begins, others⟩ := Option.bind_eq_some_iff.mp later
  obtain ⟨o, begins, same⟩ := Option.bind_eq_some_iff.mp begins
  obtain ⟨pursuits, endings, rfl⟩ := beginAside begins
  cases same
  exact knownSteps (Nat.lt_succ_self m.nextPursuit) others

theorem looksNotBefore (h : Looks start run past k name q) (h' : Looks start run past' k name' q')
    (shorter : past.length ≤ past'.length) : past = past' ∧ name = name' ∧ q = q' := by
  obtain ⟨begun, there, next, named, found⟩ := h
  obtain ⟨begun', there', next', named', found'⟩ := h'
  rcases occasionsPrefix begun begun' shorter with same | ⟨between, rfl⟩
  · cases same
    cases there.symm.trans there'
    subst named named'
    cases found.symm.trans found'
    exact ⟨rfl, rfl, rfl⟩
  · exact absurd (beginsBefore there there') (by omega)

theorem looksOnce (h : Looks start run past k name q) (h' : Looks start run past' k name' q') :
    past = past' ∧ name = name' ∧ q = q' := by
  rcases Nat.le_total past.length past'.length with shorter | shorter
  · exact looksNotBefore h h' shorter
  · obtain ⟨rfl, rfl, rfl⟩ := looksNotBefore h' h shorter
    exact ⟨rfl, rfl, rfl⟩

structure Attributed (start : Broker) (run : List BrokerAction) (b : Broker) : Prop where
  titled : ∀ {name s}, b.balancer.strategies.get? name = some s → s.name = name
  under : ∀ x ∈ b.pursuits, ∃ past, Looks start run past x.1 x.2.query.strategy.name x.2.query ∧
    ∀ revision live pick, x.2.moment = .trying (.keep revision live pick) →
      Picks start run x.1 x.2.query pick
  kept : ∀ cache, b.cache = some cache → ∀ e ∈ cache.entries, ∀ i, e.content = .selected i →
    StickyPick start run e.service e.strategy i
  ended : ∀ e ∈ b.endings, ∀ i, e.result = .ok i →
    ∃ past q, Looks start run past e.call q.strategy.name q ∧
      (Picks start run e.call q i ∨
        q.useCache = true ∧ StickyPick start run q.service q.strategy.name i)

section Step
variable (h : Attributed start run b) (there : start.steps run = some b) (next : b.step a = some c)
include h next

theorem titledStep {name : String} {s : Strategy}
    (found : c.balancer.strategies.get? name = some s) : s.name = name := by
  rcases stepTable next with ⟨new, _, same⟩ | ⟨_, same⟩
  · rw [same, Table.getPut] at found
    split at found
    · rename_i named
      cases found
      exact named.symm
    · exact h.titled found
  · exact h.titled (same ▸ found)

include there in
theorem underStep (x : Nat × Pursuit) (mem : x ∈ c.pursuits) :
    ∃ past, Looks start (run ++ [a]) past x.1 x.2.query.strategy.name x.2.query ∧
      ∀ revision live pick, x.2.moment = .trying (.keep revision live pick) →
        Picks start (run ++ [a]) x.1 x.2.query pick := by
  have last := occasionsEnd run a
  rcases stepPursuits next mem with old | ⟨options, service, jitter, rfl, call, begun⟩ |
    ⟨p, draw, s, rfl, found, taken⟩
  · obtain ⟨past, looks, picks⟩ := h.under x old
    exact ⟨past, looks.more _, fun revision live pick keeps => (picks revision live pick keeps).more _⟩
  · obtain ⟨strategy, found, query, _, moment⟩ := Pursuit.beginCases begun
    refine ⟨run, ?_, fun revision live pick keeps => by cases moment.symm.trans keeps⟩
    rw [query, h.titled found]
    exact .begins last there call.symm rfl found
  · obtain ⟨past, looks, _⟩ := h.under _ (pursuitMem found)
    rw [Pursuit.takenQuery taken]
    exact ⟨past, looks.more _, fun revision live pick keeps =>
      .selects last there found rfl (Pursuit.takenKeeps taken keeps)⟩

theorem keptStep {cache : Resolve.Cache} (left : c.cache = some cache) (e : Resolve.Entry)
    (mem : e ∈ cache.entries) (i : Instance) (selected : e.content = .selected i) :
    StickyPick start (run ++ [a]) e.service e.strategy i := by
  rcases stepLeaves next left mem with ⟨cache, used, old⟩ | ⟨x, under, moment, kept⟩
  · exact (h.kept cache used e old i selected).more _
  · cases selected
    obtain ⟨rfl, sticky, whole⟩ := Query.contentSelected kept
    obtain ⟨past, looks, picks⟩ := h.under x under
    exact (StickyPick.of looks rfl sticky whole (picks _ _ _ moment)).more _

include there in
theorem endedStep (e : ResolveEnding) (mem : e ∈ c.endings) (i : Instance) (ok : e.result = .ok i) :
    ∃ past q, Looks start (run ++ [a]) past e.call q.strategy.name q ∧
      (Picks start (run ++ [a]) e.call q i ∨
        q.useCache = true ∧ StickyPick start (run ++ [a]) q.service q.strategy.name i) := by
  have last := occasionsEnd run a
  rcases stepEndings next mem with old | ⟨failure, failed⟩ | ⟨p, draw, s, rfl, found, taken⟩
  · obtain ⟨past, q, looks, whose⟩ := h.ended e old i ok
    exact ⟨past, q, looks.more _, whose.imp (·.more _) (.imp_right (·.more _))⟩
  · cases failed.symm.trans ok
  · obtain ⟨past, looks, picks⟩ := h.under _ (pursuitMem found)
    refine ⟨past, p.query, looks.more _, ?_⟩
    rw [ok] at taken
    rcases Pursuit.takenFinds taken with picked | ⟨revision, live, keeps⟩ |
      ⟨uses, cache, used, entry, mem, service, strategy, selected⟩
    · exact .inl (.selects last there found rfl picked)
    · exact .inl ((picks _ _ _ keeps).more _)
    · exact .inr ⟨uses, service ▸ strategy ▸ (h.kept cache used entry mem i selected).more _⟩

include there in
theorem attributedStep : Attributed start (run ++ [a]) c :=
  ⟨titledStep h next, underStep h there next, fun _ left => keptStep h next left,
    endedStep h there next⟩

end Step

def unused (settings : DirectorySettings) (resolver : Resolve.ResolverSettings)
    (limits : Option (Nat × Nat)) : Broker :=
  new (.empty settings) resolver (limits.map fun l => .empty l.1 l.2)

theorem unusedAttributed (settings : DirectorySettings) (resolver : Resolve.ResolverSettings)
    (limits : Option (Nat × Nat)) :
    Attributed (unused settings resolver limits) [] (unused settings resolver limits) where
  titled := by
    intro name s found
    obtain ⟨x, hit, rfl⟩ := Option.map_eq_some_iff.mp found
    have named : x.1 = name := by simpa using List.find?_some hit
    have each : ∀ x ∈ (unused settings resolver limits).balancer.strategies, x.2.name = x.1 := by
      simp [unused, new, Resolve.Balancer.new, Resolve.Balancer.standard,
        Resolve.Balancer.register, Table.put, Strategy.name]
    exact (each x (List.mem_of_find?_eq_some hit)).trans named
  under := fun x mem => by cases mem
  kept := fun cache used e mem => by
    obtain ⟨l, _, rfl⟩ := Option.map_eq_some_iff.mp used
    cases mem
  ended := fun e mem => by cases mem

theorem attributedSteps (h : Attributed start [] start) (ran : start.steps run = some b) :
    Attributed start run b := by
  induction run using List.reverseRecOn generalizing b with
  | nil => cases ran; exact h
  | append_singleton run a ih =>
    obtain ⟨m, before, next⟩ := stepsLast.mp ran
    exact attributedStep (ih before) before next

inductive Leads (start : Broker) (run past : List BrokerAction) (name : String) (s : Strategy) :
    Strategy → Prop where
  | stays (number : enrolled name run = enrolled name past) : Leads start run past name s s
  | replaced {first last : List BrokerAction} {u v t : Strategy}
      (away : Replaces start run first name s u) (since : past <+: first)
      (put : Replaces start run last name v t) (since' : past <+: last) :
      Leads start run past name s t

theorem Leads.cases (h : Leads start run past name s t) :
    (t = s ∧ enrolled name run = enrolled name past) ∨
      (∃ between u, past <+: between ∧ Replaces start run between name s u) ∧
        ∃ between u, past <+: between ∧ Replaces start run between name u t := by
  cases h with
  | stays number => exact .inl ⟨rfl, number⟩
  | replaced away since put since' => exact .inr ⟨⟨_, _, since, away⟩, _, _, since', put⟩

theorem Leads.aside (h : Leads start run past name s t) (apart : a.enrols name = false) :
    Leads start (run ++ [a]) past name s t := by
  cases h with
  | stays number =>
    refine .stays ?_
    rw [enrolled, List.countP_append, List.countP_singleton, apart]
    exact number
  | replaced away since put since' => exact .replaced (away.more _) since (put.more _) since'

theorem foundLater (there : start.steps past = some m)
    (found : m.balancer.strategies.get? name = some s)
    (later : start.steps (past ++ rest) = some c) :
    ∃ t, c.balancer.strategies.get? name = some t ∧
      Leads start (past ++ rest) past name s t := by
  induction rest using List.reverseRecOn generalizing c with
  | nil =>
    rw [List.append_nil] at later ⊢
    cases there.symm.trans later
    exact ⟨s, found, .stays rfl⟩
  | append_singleton rest a ih =>
    rw [← List.append_assoc] at later ⊢
    obtain ⟨n, before, next⟩ := stepsLast.mp later
    obtain ⟨t, held, leads⟩ := ih before
    have last := occasionsEnd (past ++ rest) a
    rcases stepTable next with ⟨new, rfl, same⟩ | ⟨other, same⟩
    · by_cases named : new.name = name
      · -- What is put in the place of another is the first to be or not, but it is the last so far.
        have put : Replaces start (past ++ rest ++ [.addStrategy new]) (past ++ rest) name t new :=
          .adds last before named held
        refine ⟨new, by rw [same, named, Table.getPutSame], ?_⟩
        cases leads with
        | stays => exact .replaced put (past.prefix_append rest) put (past.prefix_append rest)
        | replaced away since => exact .replaced (away.more _) since put (past.prefix_append rest)
      · exact ⟨t, by rw [same, Table.getPutOther _ _ (Ne.symm named), held],
          leads.aside (by simpa [BrokerAction.enrols] using named)⟩
    · refine ⟨t, by rw [same, held], leads.aside ?_⟩
      cases a with
      | addStrategy new => exact absurd rfl (other new)
      | _ => rfl

theorem looksLead (h : Looks start run past k name q) (h' : Looks start run past' k' name q')
    (shorter : past.length ≤ past'.length) :
    Leads start past' past name q.strategy q'.strategy := by
  obtain ⟨begun, there, _, _, found⟩ := h
  obtain ⟨begun', there', _, _, found'⟩ := h'
  obtain ⟨between, rfl⟩ : past <+: past' := by
    rcases occasionsPrefix begun begun' shorter with same | earlier
    · exact (Prod.mk.inj same).1 ▸ List.prefix_rfl
    · exact (List.prefix_append _ _).trans earlier
  obtain ⟨t, held, leads⟩ := foundLater there found there'
  cases held.symm.trans found'
  exact leads

/-- Whatever strategies are added under whatever names, a resolve gets what the strategy it has found
picks for it, or, by way of the cache, what a sticky one has picked that another resolve has found
under the same name. That is the same strategy, as it was added; or it had been replaced before this
resolve began; or it has been put in the place of another since. -/
theorem strategiesFoundPick {settings : DirectorySettings} {resolver : Resolve.ResolverSettings}
    {limits : Option (Nat × Nat)} {run past : List BrokerAction} {b : Broker} {k : Nat}
    {name : String} {q : Query} {i : Instance}
    (ran : (unused settings resolver limits).steps run = some b)
    (looks : Looks (unused settings resolver limits) run past k name q)
    (ended : b.ending? k = some (.ok i)) :
    Picks (unused settings resolver limits) run k q i ∨
      q.useCache = true ∧ ∃ past' k' q',
        Looks (unused settings resolver limits) run past' k' name q' ∧ q'.service = q.service ∧
        q'.strategy.sticky = true ∧ q'.filters = [] ∧
        Picks (unused settings resolver limits) run k' q' i ∧
        (q'.strategy = q.strategy ∧ enrolled name past' = enrolled name past ∨
          (∃ between u, past' <+: between ∧
            Replaces (unused settings resolver limits) past between name q'.strategy u) ∨
          ∃ between u, past <+: between ∧
            Replaces (unused settings resolver limits) past' between name u q'.strategy) := by
  have attributed := attributedSteps (unusedAttributed settings resolver limits) ran
  obtain ⟨e, hit, ok⟩ := Option.map_eq_some_iff.mp ended
  have own : e.call = k := by simpa using List.find?_some hit
  subst own
  obtain ⟨_, _, looksToo, whose⟩ := attributed.ended e (List.mem_of_find?_eq_some hit) i ok
  obtain ⟨rfl, rfl, rfl⟩ := looksOnce looks looksToo
  refine whose.imp_right (.imp_right ?_)
  rintro ⟨looks', about, sticky, whole, picks⟩
  refine ⟨_, _, _, looks', about, sticky, whole, picks, ?_⟩
  rcases Nat.le_total past.length _ with shorter | shorter
  · rcases (looksLead looks looks' shorter).cases with stays | ⟨_, put⟩
    · exact .inl stays
    · exact .inr (.inr put)
  · rcases (looksLead looks' looks shorter).cases with ⟨same, number⟩ | ⟨away, _⟩
    · exact .inl ⟨same.symm, number.symm⟩
    · exact .inr (.inl away)

def pinned (sticky : Bool) (id : String) : Strategy :=
  .caller "pin" sticky fun candidates => Resolve.found (candidates.find? (·.id == id))

theorem pinnedPicks {sticky : Bool} {id : String} (own : q.strategy = pinned sticky id)
    (picks : Picks start run k q i) : i.id = id := by
  obtain ⟨_, _, _, rfl, stage, candidates, _, _, picked⟩ := picks
  rw [own] at picked
  have picked : Resolve.found (candidates.find? (·.id == id)) = .ok i := picked
  cases hit : candidates.find? (·.id == id) with
  | none =>
    rw [hit] at picked
    cases picked
  | some j =>
    rw [hit] at picked
    cases picked
    simpa using List.find?_some hit

def byPin : Resolve.ResolveOptions := { Resolve.ResolveOptions.standard with strategy := some "pin" }

def displaced : List BrokerAction :=
  registered ++ .addStrategy (pinned true "a") :: .beginResolve "web" byPin id ::
    List.replicate 6 (.proceedResolve 0 id) ++ [.addStrategy (pinned false "b")]

def asksAgain : List BrokerAction :=
  .beginResolve "web" byPin id :: List.replicate 2 (.proceedResolve 1 id)

theorem displacedEnds : ∃ b i, standardStart.steps (displaced ++ asksAgain) = some b ∧
    b.ending? 1 = some (.ok i) ∧ i.id = "a" := by
  have ran : (standardStart.steps (displaced ++ asksAgain)).map
      (fun b => ((b.ending? 1).bind (·.toOption)).map (·.id)) = some (some "a") := by decide +kernel
  obtain ⟨b, ran, ends⟩ := Option.map_eq_some_iff.mp ran
  obtain ⟨i, ok, own⟩ := Option.map_eq_some_iff.mp ends
  obtain ⟨result, ended, ok⟩ := Option.bind_eq_some_iff.mp ok
  cases result with
  | error e => cases ok
  | ok j =>
    cases ok
    exact ⟨b, i, ran, ended, own⟩

theorem displacedLooks : Looks standardStart (displaced ++ asksAgain) displaced 1 "pin"
    ⟨"web", pinned false "b", [], true⟩ := by
  have ran : (standardStart.steps displaced).map (·.nextPursuit) = some 1 := by decide +kernel
  obtain ⟨m, there, next⟩ := Option.map_eq_some_iff.mp ran
  obtain ⟨n, _, added⟩ := stepsLast.mp there
  have begun : (displaced, .beginResolve "web" byPin id) ∈ occasions (displaced ++ asksAgain) :=
    occasionsIff.mpr ⟨_, rfl⟩
  refine .begins begun there next rfl ?_
  cases added
  exact Table.getPutSame _ _ _

theorem displacedPicks : ∃ b i, standardStart.steps (displaced ++ asksAgain) = some b ∧
    Looks standardStart (displaced ++ asksAgain) displaced 1 "pin"
      ⟨"web", pinned false "b", [], true⟩ ∧ b.ending? 1 = some (.ok i) ∧
    ∃ k q, q.strategy.sticky = true ∧ Picks standardStart (displaced ++ asksAgain) k q i := by
  obtain ⟨b, i, ran, ended, own⟩ := displacedEnds
  refine ⟨b, i, ran, displacedLooks, ended, ?_⟩
  have fresh : (unused _ _ (some (5000, 10000))).steps (displaced ++ asksAgain) = some b := ran
  rcases strategiesFoundPick fresh displacedLooks ended with
    picks | ⟨_, _, k, q, _, _, sticky, _, picks, _⟩
  · exact absurd (own.symm.trans (pinnedPicks rfl picks)) (by decide)
  · exact ⟨k, q, sticky, picks⟩

theorem replacedStillPicks :
    ¬∀ (settings : DirectorySettings) (resolver : Resolve.ResolverSettings)
      (limits : Option (Nat × Nat)) (run past : List BrokerAction) (b : Broker) (k : Nat)
      (name : String) (q : Query) (i : Instance),
      (unused settings resolver limits).steps run = some b →
        Looks (unused settings resolver limits) run past k name q → b.ending? k = some (.ok i) →
          ∃ k' q', q'.strategy = q.strategy ∧ Picks (unused settings resolver limits) run k' q' i := by
  intro claim
  obtain ⟨b, i, ran, ended, own⟩ := displacedEnds
  obtain ⟨_, _, same, picks⟩ :=
    claim _ _ (some (5000, 10000)) _ _ b 1 "pin" _ i ran displacedLooks ended
  exact absurd (own.symm.trans (pinnedPicks same picks)) (by decide)

end Broker
end ServiceDirectory
