import ServiceDirectory.Proofs.Freshness

/-! One attempt with the cache and one without it, from the same state, come to the same. -/
namespace ServiceDirectory.Resolve
open ServiceDirectory (Broker BrokerAction)

namespace Query
variable (q : Query) (r : Registry) (now : Nat) (draw : Draw)

def stages : Nat → Stage → Shared → List Stage
  | 0, _, _ => []
  | fuel + 1, stage, s =>
    stage :: match q.advance r now draw s stage with
      | (.ended _, _) => []
      | (.next after, s) => stages fuel after s

def choice? : Stage → Option (List Instance)
  | .pickCached candidates => some candidates
  | .choose _ live => some (q.candidates live)
  | _ => none

def offers (s : Shared) : List (List Instance) :=
  (q.stages r now draw longest .lookup s).filterMap q.choice?

structure Yields (fuel : Nat) (stage : Stage) (s : Shared) (result : Except Failure Instance)
    (cursor : Cursor) (offered : List (List Instance)) : Prop where
  result : (q.runFrom r now draw fuel stage s).1 = result
  cursor : (q.runFrom r now draw fuel stage s).2.cursor = cursor
  offered : (q.stages r now draw fuel stage s).filterMap q.choice? = offered

variable {q r now draw} {fuel : Nat} {stage after : Stage} {s s' : Shared}
  {result : Except Failure Instance} {cursor : Cursor} {offered : List (List Instance)}

theorem Yields.next (step : q.advance r now draw s stage = (.next after, s'))
    (h : Yields q r now draw fuel after s' result cursor offered) :
    Yields q r now draw (fuel + 1) stage s result cursor ((q.choice? stage).toList ++ offered) where
  result := by simp only [runFrom, step]; exact h.result
  cursor := by simp only [runFrom, step]; exact h.cursor
  offered := by
    simp only [stages, step]
    cases chosen : q.choice? stage with
    | none => rw [List.filterMap_cons_none chosen, h.offered]; rfl
    | some l => rw [List.filterMap_cons_some chosen, h.offered]; rfl

theorem Yields.last (step : q.advance r now draw s stage = (.ended result, s')) :
    Yields q r now draw (fuel + 1) stage s result s'.cursor (q.choice? stage).toList where
  result := by simp only [runFrom, step]
  cursor := by simp only [runFrom, step]
  offered := by
    simp only [stages, step]
    cases chosen : q.choice? stage with
    | none => rw [List.filterMap_cons_none chosen]; rfl
    | some l => rw [List.filterMap_cons_some chosen]; rfl

theorem keepCursor (q : Query) (revision now : Nat) (live : List Instance) (pick : Instance)
    (s : Shared) : (q.keep revision now live pick s).cursor = s.cursor := by
  simp only [keep]
  split <;> rfl

theorem yieldsChosen (own : q.strategy.builtIn = true) (s : Shared) (revision : Nat)
    {live : List Instance} (some_ : q.candidates live ≠ []) :
    Yields q r now draw (fuel + 2) (.choose revision live) s
      (q.strategy.select draw s.cursor (q.candidates live)).1
      (q.strategy.select draw s.cursor (q.candidates live)).2 [q.candidates live] := by
  obtain ⟨i, _, picked⟩ : ∃ i ∈ q.candidates live,
      (q.strategy.select draw s.cursor (q.candidates live)).1 = .ok i :=
    Strategy.selectFinds own some_
  have chosen : q.advance r now draw s (.choose revision live) =
      (.next (.keep revision live i),
        { s with cursor := (q.strategy.select draw s.cursor (q.candidates live)).2 }) := by
    simp only [advance, pick, picked]
  have kept (s : Shared) :
      Yields q r now draw (fuel + 1) (.keep revision live i) s (.ok i) s.cursor [] := by
    have ends : q.advance r now draw s (.keep revision live i) =
        (.ended (.ok i), q.keep revision now live i s) := rfl
    have yields : Yields q r now draw (fuel + 1) (.keep revision live i) s (.ok i)
        (q.keep revision now live i s).cursor [] := .last ends
    rw [keepCursor] at yields
    exact yields
  rw [picked]
  exact (kept _).next chosen

def direct (q : Query) (r : Registry) (draw : Draw) (cursor : Cursor) :
    Except Failure Instance × Cursor :=
  if (q.candidates (r.list q.service false)).isEmpty then (.error (noInstances q.service), cursor)
  else q.strategy.select draw cursor (q.candidates (r.list q.service false))

def directOffers (q : Query) (r : Registry) : List (List Instance) :=
  if (q.candidates (r.list q.service false)).isEmpty then []
  else [q.candidates (r.list q.service false)]

theorem yieldsDirect (own : q.strategy.builtIn = true) (s : Shared) :
    Yields q r now draw (fuel + 4) .snapshot s (q.direct r draw s.cursor).1
      (q.direct r draw s.cursor).2 (q.directOffers r) := by
  have first : q.advance r now draw s .snapshot = (.next (.list (r.revision q.service)), s) := rfl
  unfold direct directOffers
  split
  · rename_i none
    have second : q.advance r now draw s (.list (r.revision q.service)) =
        (.ended (.error (noInstances q.service)), s) := by
      simp only [advance, none, if_true]
    exact (Yields.last second).next first
  · rename_i some_
    have second : q.advance r now draw s (.list (r.revision q.service)) =
        (.next (.choose (r.revision q.service) (r.list q.service false)), s) := by
      simp only [advance, some_, Bool.false_eq_true, if_false]
    exact ((yieldsChosen own s _ (by simpa using some_)).next second).next first

inductive Found (q : Query) (r : Registry) (now : Nat) (draw : Draw) (s : Shared) : Prop where
  | direct (h : Yields q r now draw longest .lookup s (q.direct r draw s.cursor).1
      (q.direct r draw s.cursor).2 (q.directOffers r))
  | selected (cache : Cache) (used : s.cache = some cache) (e : Entry) (mem : e ∈ cache.entries)
      (service : e.service = q.service) (strategy : e.strategy = q.strategy.name)
      (revision : e.revision = r.revision q.service) (i : Instance) (content : e.content = .selected i)
      (passes : Filter.passesAll q.filters i = true)
      (h : Yields q r now draw longest .lookup s (.ok i) s.cursor [])
  | candidates (cache : Cache) (used : s.cache = some cache) (e : Entry) (mem : e ∈ cache.entries)
      (service : e.service = q.service) (strategy : e.strategy = q.strategy.name)
      (revision : e.revision = r.revision q.service) (l : List Instance)
      (content : e.content = .candidates l) (some_ : q.candidates l ≠ [])
      (h : Yields q r now draw longest .lookup s
        (q.strategy.select draw s.cursor (q.candidates l)).1
        (q.strategy.select draw s.cursor (q.candidates l)).2 [q.candidates l])

theorem foundUncached (own : q.strategy.builtIn = true) (off : q.cache? s = none) :
    Found q r now draw s := by
  have first : q.advance r now draw s .lookup = (.next .snapshot, s) := by
    simp only [advance, lookup, off]
  exact .direct ((yieldsDirect own s).next first)

theorem foundCached (own : q.strategy.builtIn = true) {cache : Cache}
    (on : q.cache? s = some cache) : Found q r now draw s := by
  have used : s.cache = some cache := cacheUsed on
  have first : q.advance r now draw s .lookup = (.next (.fetch (r.revision q.service)), s) := by
    simp only [advance, lookup, on]
  have second (progress : Progress)
      (useful : q.useful (cache.get q.service q.strategy.name (r.revision q.service) now).1 =
        progress) : q.advance r now draw s (.fetch (r.revision q.service)) =
      (progress,
        ⟨some (cache.get q.service q.strategy.name (r.revision q.service) now).2, s.cursor⟩) := by
    simp only [advance, fetch, on, useful]
  have misses (useful : q.useful (cache.get q.service q.strategy.name (r.revision q.service) now).1 =
      .next .snapshot) : Found q r now draw s :=
    .direct (((yieldsDirect own _).next (second _ useful)).next first)
  cases hit : (cache.get q.service q.strategy.name (r.revision q.service) now).1 with
  | none => exact misses (by rw [hit]; rfl)
  | some content =>
    obtain ⟨e, mem, service, strategy, revision, rfl⟩ := Cache.getHit hit
    cases content : e.content with
    | selected i =>
      by_cases passes : Filter.passesAll q.filters i = true
      · refine .selected cache used e mem service strategy revision i content passes ?_
        have ends := second (.ended (.ok i)) (by rw [hit, content]; simp only [useful, passes, if_true])
        exact (Yields.last ends).next first
      · exact misses (by rw [hit, content]; simp only [useful, passes]; rfl)
    | candidates l =>
      by_cases none : (q.candidates l).isEmpty = true
      · exact misses (by rw [hit, content]; simp only [useful, none, if_true])
      · refine .candidates cache used e mem service strategy revision l content
          (by simpa using none) ?_
        have goes := second (.next (.pickCached (q.candidates l)))
          (by rw [hit, content]; simp only [useful, none]; rfl)
        have ends (cache : Option Cache) :
            q.advance r now draw ⟨cache, s.cursor⟩ (.pickCached (q.candidates l)) =
              (.ended (q.strategy.select draw s.cursor (q.candidates l)).1,
                ⟨cache, (q.strategy.select draw s.cursor (q.candidates l)).2⟩) := rfl
        exact ((Yields.last (ends _)).next goes).next first

theorem agreeSame (result : Except Failure Instance) : Agree result result := by
  cases result <;> rfl

theorem directSome (some_ : q.candidates (r.list q.service false) ≠ []) :
    q.direct r draw cursor =
      q.strategy.select draw cursor (q.candidates (r.list q.service false)) := by
  simp [direct, some_]

theorem directTurns (own : q.strategy.builtIn = true) (cursor : Cursor) :
    (q.direct r draw cursor = (.error (noInstances q.service), cursor)) ∨
      ((∃ i, (q.direct r draw cursor).1 = .ok i) ∧ (q.direct r draw cursor).2 =
        if q.strategy.name = Strategy.roundRobin.name then cursor.next else cursor) := by
  by_cases none : q.candidates (r.list q.service false) = []
  · exact .inl (by simp [direct, none])
  · rw [directSome none]
    obtain ⟨i, _, picked⟩ := Strategy.selectFinds own none
    exact .inr ⟨⟨i, picked⟩, Strategy.selectTurns own none⟩

theorem directFirst (first : q.strategy = .first) {i : Instance}
    (low : lowestId (r.list q.service false) = some i)
    (passes : Filter.passesAll q.filters i = true) : q.direct r draw cursor = (.ok i, cursor) := by
  have kept : lowestId (q.candidates (r.list q.service false)) = some i := lowestKept low passes
  have some_ : q.candidates (r.list q.service false) ≠ [] := List.ne_nil_of_mem (lowestMem kept)
  rw [directSome some_, first]
  simp only [Strategy.select, kept, found]

theorem foundAgrees (found : Found q r now draw s) (shared : s.Fits r)
    (own : q.strategy.builtIn = true) (steady : ∀ f ∈ q.filters, f.Steady) :
    ∃ result offered, Yields q r now draw longest .lookup s result (q.direct r draw s.cursor).2
      offered ∧ Agree result (q.direct r draw s.cursor).1 ∧
        (q.strategy.sticky = false → List.Forall₂ Alike offered (q.directOffers r)) := by
  cases found with
  | direct h =>
    exact ⟨_, _, h, agreeSame _, fun _ => List.forall₂_same.mpr fun l _ => .same l⟩
  | selected cache used e mem service strategy revision i content passes h =>
    have fits := (shared cache used e mem).now (service ▸ revision)
    rw [content, service, strategy] at fits
    obtain ⟨name, j, low, same⟩ := fits
    -- The first of the whole list passes the filters, so it is the first of the filtered one.
    have first : q.direct r draw s.cursor = (.ok j, s.cursor) :=
      directFirst (Strategy.firstOfName own name) low (Filter.passesSteady steady same ▸ passes)
    rw [first]
    refine ⟨_, _, h, same, fun loose => ?_⟩
    rw [(Strategy.stickyIff own).mpr name] at loose
    cases loose
  | candidates cache used e mem service strategy revision l content some_ h =>
    have fits := (shared cache used e mem).now (service ▸ revision)
    rw [content, service, strategy] at fits
    have alike : Alike (q.candidates l) (q.candidates (r.list q.service false)) :=
      Filter.keepAlike steady fits.2
    have live : q.candidates (r.list q.service false) ≠ [] := by
      intro none
      rw [none] at alike
      exact some_ (List.forall₂_nil_right_iff.mp alike)
    obtain ⟨agrees, turns⟩ :
        Agree (q.strategy.select draw s.cursor (q.candidates l)).1
            (q.strategy.select draw s.cursor (q.candidates (r.list q.service false))).1 ∧
          (q.strategy.select draw s.cursor (q.candidates l)).2 =
            (q.strategy.select draw s.cursor (q.candidates (r.list q.service false))).2 :=
      Strategy.selectAlike own alike
    rw [directSome live, ← turns]
    refine ⟨_, _, h, agrees, fun _ => ?_⟩
    simp only [directOffers, List.isEmpty_iff, live, if_false]
    exact .cons alike .nil

def cached (q : Query) : Query := { q with useCache := true }

def uncached (q : Query) : Query := { q with useCache := false }

/-- With a cache that comes from any run, an attempt gives what it gives without: the same instance
up to its last heartbeat, or the same failure, for as many turns, and from the same candidates. -/
theorem cachedAttemptAgrees {settings : DirectorySettings} {resolver : ResolverSettings}
    {limits : Option (Nat × Nat)} {actions : List BrokerAction} {b : Broker}
    (run : (Broker.new (.empty settings) resolver (limits.map fun l => .empty l.1 l.2)).steps
      actions = some b)
    (plain : ∀ a ∈ actions, a.plain = true) {q : Query} (own : q.strategy.builtIn = true)
    (steady : ∀ f ∈ q.filters, f.Steady) (now : Nat) (draw : Draw) :
    Agree (q.cached.attempt b.directory.registry now draw b.shared).1
        (q.uncached.attempt b.directory.registry now draw b.shared).1 ∧
      (q.cached.attempt b.directory.registry now draw b.shared).2.cursor =
        (q.uncached.attempt b.directory.registry now draw b.shared).2.cursor ∧
      (∀ i, (q.uncached.attempt b.directory.registry now draw b.shared).1 = .ok i →
        (q.uncached.attempt b.directory.registry now draw b.shared).2.cursor =
          if q.strategy.name = Strategy.roundRobin.name then b.shared.cursor.next
          else b.shared.cursor) ∧
      (∀ e, (q.uncached.attempt b.directory.registry now draw b.shared).1 = .error e →
        e = noInstances q.service ∧
          (q.uncached.attempt b.directory.registry now draw b.shared).2.cursor = b.shared.cursor) ∧
      (q.strategy.sticky = false →
        List.Forall₂ Alike (q.cached.offers b.directory.registry now draw b.shared)
          (q.uncached.offers b.directory.registry now draw b.shared)) := by
  have fresh := Broker.freshSteps (Broker.newFresh settings resolver limits) plain run
  have off : Yields q.uncached b.directory.registry now draw longest .lookup b.shared
      (q.direct b.directory.registry draw b.shared.cursor).1
      (q.direct b.directory.registry draw b.shared.cursor).2
      (q.directOffers b.directory.registry) :=
    (yieldsDirect (q := q.uncached) own b.shared).next rfl
  have on : Found q.cached b.directory.registry now draw b.shared := by
    cases used : b.cache with
    | none => exact foundUncached own used
    | some cache => exact foundCached own used
  obtain ⟨result, offered, yields, agrees, alike⟩ := foundAgrees on fresh.shared own steady
  simp only [attempt, offers, yields.result, yields.cursor, yields.offered, off.result, off.cursor,
    off.offered]
  refine ⟨agrees, rfl, fun i ok => ?_, fun e failed => ?_, alike⟩
  · rcases directTurns own b.shared.cursor with none | ⟨_, turns⟩
    · rw [none] at ok
      cases ok
    · exact turns
  · rcases directTurns own b.shared.cursor with none | ⟨⟨i, ok⟩, _⟩
    · rw [none] at failed ⊢
      cases failed
      exact ⟨rfl, rfl⟩
    · rw [ok] at failed
      cases failed

def resolvedOnce : List BrokerAction :=
  Broker.registered ++
    .beginResolve "web" .standard id :: List.replicate 6 (.proceedResolve 0 id)

theorem resolvedOnceAgrees :
    ∃ b, Broker.standardStart.steps resolvedOnce = some b ∧ b.cache.map (·.entries.length) = some 1 ∧
      Agree ((Query.mk "web" .roundRobin [] true).cached.attempt b.directory.registry 0 id b.shared).1
        ((Query.mk "web" .roundRobin [] true).uncached.attempt b.directory.registry 0 id b.shared).1
    := by
  have ran : (Broker.standardStart.steps resolvedOnce).map (fun b => b.cache.map (·.entries.length)) =
      some (some 1) := by decide +kernel
  obtain ⟨b, run, entries⟩ := Option.map_eq_some_iff.mp ran
  have agrees := cachedAttemptAgrees run (by decide) (q := Query.mk "web" .roundRobin [] true) rfl
    (fun f mem => by cases mem) 0 id
  exact ⟨b, run, entries, agrees.1⟩

end Query
end ServiceDirectory.Resolve
