import ServiceDirectory.Proofs.Announcements
import ServiceDirectory.Proofs.Likeness
import ServiceDirectory.Proofs.Transcripts

/-! The directory against the outline of what a run shows: whatever a numbered call does, the outline
does too. -/
namespace ServiceDirectory

namespace Directory
variable {d e : Directory} {a : Action} {k : CallId} {c c' : Call} {r : Transcript} {n timeout : Nat}
  {before after : Option Call} {result : Option (Except Failure Answer)} {told : List Event}

structure Outlined (timeout : Nat) (r : Transcript) (d : Directory) : Prop where
  drawn : d.registry.Drawn r.shown (outline timeout r.shown)
  cancelled : d.cancelled = (outline timeout r.shown).cancelled
  stages : (outline timeout r.shown).stages = r.calls.map d.stage
  owed : ∀ n k c, r.calls[n]? = some k → d.call? k = some c → ∀ i ∈ c.held, i.id ∈ c.parks →
    (outline timeout r.shown).hold i.id = .sweep n
  early : ∀ n, (∀ k, r.calls[n]? = some k → ∃ at_, d.call? k = some (.collecting at_)) →
    (∀ id, freed r.shown n id = false) ∧ (outline timeout r.shown).took n = fun _ => none
  lots : ∀ n, ∃ rest,
    Lot ((outline timeout r.shown).took n) (expiries n (tale timeout r.shown) ++ rest) ∧
      ∀ k, r.calls[n]? = some k →
        (∀ c, d.call? k = some c → rest = c.held.map Instance.unrated) ∧
          (d.ending? k ≠ none → rest = [])
  told : tale timeout r.shown = r.story.map fun x => (x.1, x.2.unrated)
  log : r.story.map (·.2) = d.log.filter fun e => !e.changes

def view (d : Directory) (k : CallId) :
    Option (Milestone × List Instance × List String) × Option (Except Failure Answer) :=
  ((d.call? k).map fun c => (c.stage, c.held, c.parks), d.ending? k)

theorem stageView (same : e.view k = d.view k) : e.stage k = d.stage k := by
  obtain ⟨calls, endings⟩ := Prod.mk.inj same
  rw [stage, stage, endings]
  have same (c : Option Call) : stageOf c (d.ending? k) =
      ((c.map fun c => (c.stage, c.held, c.parks)).map (·.1)).getD (stageOf none (d.ending? k)) := by
    cases c <;> rfl
  rw [same, same (d.call? k), calls]

theorem callView (same : e.view k = d.view k) (found : e.call? k = some c) :
    ∃ c', d.call? k = some c' ∧ c'.stage = c.stage ∧ c'.held = c.held ∧ c'.parks = c.parks := by
  obtain ⟨calls, _⟩ := Prod.mk.inj same
  rw [found] at calls
  obtain ⟨c', was, is⟩ := Option.map_eq_some_iff.mp calls.symm
  simp only [Prod.mk.injEq] at is
  exact ⟨c', was, is.1, is.2.1, is.2.2⟩

theorem stageCollects {at_ : Timestamp} (is : c.stage = .collecting at_) : c = .collecting at_ := by
  cases c with
  | collecting => cases is; rfl
  | _ => cases is

namespace Outlined

theorem still (shown : List Shown) (h : Outlined timeout r d) (uncounted : a.counted = false)
    (shows : (r.next ⟨d, a, e⟩).shown = shown) (story : (r.next ⟨d, a, e⟩).story = r.story)
    (drawn : e.registry.Drawn shown (outline timeout shown))
    (cancelled : e.cancelled = (outline timeout shown).cancelled)
    (hold : (outline timeout shown).hold = (outline timeout r.shown).hold)
    (took : (outline timeout shown).took = (outline timeout r.shown).took)
    (stages : (outline timeout shown).stages = (outline timeout r.shown).stages)
    (unfreed : ∀ n id, freed shown n id = freed r.shown n id)
    (untold : tale timeout shown = tale timeout r.shown)
    (views : ∀ k ∈ r.calls, e.view k = d.view k)
    (log : (e.log.filter fun e => !e.changes) = d.log.filter fun e => !e.changes) :
    Outlined timeout (r.next ⟨d, a, e⟩) e := by
  have calls : (r.next ⟨d, a, e⟩).calls = r.calls := by simp [Transcript.next, uncounted]
  constructor
  · rw [shows]
    exact drawn
  · rw [shows]
    exact cancelled
  · rw [shows, calls, stages, h.stages]
    exact List.map_congr_left fun k mem => (stageView (views k mem)).symm
  · rw [shows, calls, hold]
    intro n k c there found i inside parks
    obtain ⟨c', was, _, held, parked⟩ := callView (views k (List.mem_of_getElem? there)) found
    exact h.owed n k c' there was i (held ▸ inside) (parked ▸ parks)
  · rw [shows, calls, took]
    intro n fresh
    obtain ⟨early, none⟩ := h.early n fun k there => by
      obtain ⟨at_, found⟩ := fresh k there
      obtain ⟨c', was, stage, _⟩ := callView (views k (List.mem_of_getElem? there)) found
      exact ⟨at_, stageCollects stage ▸ was⟩
    exact ⟨fun id => (unfreed n id).trans (early id), none⟩
  · rw [shows, calls, took, untold]
    intro n
    obtain ⟨rest, whole, others⟩ := h.lots n
    refine ⟨rest, whole, fun k there => ?_⟩
    have same := views k (List.mem_of_getElem? there)
    refine ⟨fun c found => ?_, fun ended => (others k there).2 ?_⟩
    · obtain ⟨c', was, _, held, _⟩ := callView same found
      rw [(others k there).1 c' was, held]
    · rwa [← (Prod.mk.inj same).2]
  · rw [shows, story, untold, h.told]
  · rw [story, h.log, log]

section Goes
variable {what : Outward} {o : Outline} (h : Outlined timeout r d) (numbered : Numbered r.calls d)
  (number : r.calls.idxOf? k = some n) (runs : Runs d a e k (some c) after result told)
include numbered number

theorem apart {m : Nat} {j : CallId} (there : r.calls[m]? = some j) (other : m ≠ n) : j ≠ k := by
  rintro rfl
  exact other (Option.some.inj ((numberOf numbered.once there).symm.trans number))

include h runs

theorem goesOwed (custody : d.Custody)
    (hold : ∀ id, o.hold id ≠ (outline timeout r.shown).hold id →
      id ∉ d.registry.inFlight ∨ id ∈ c.parks)
    (owed : ∀ c', after = some c' → ∀ i ∈ c'.held, i.id ∈ c'.parks → o.hold i.id = .sweep n)
    (m : Nat) (j : CallId) (c' : Call) (there : r.calls[m]? = some j) (found : e.call? j = some c') :
    ∀ i ∈ c'.held, i.id ∈ c'.parks → o.hold i.id = .sweep m := by
  intro i mem parks
  rw [runs.calls] at found
  split at found
  · rename_i own
    subst own
    obtain rfl := Option.some.inj ((numberOf numbered.once there).symm.trans number)
    exact owed c' found i mem parks
  · rename_i other
    rw [← h.owed m j c' there found i mem parks]
    by_contra differs
    -- Whoever it is that holds the id now, the other call had parked it, and two calls park apart.
    have mine := memOfCall runs.was
    have theirs := memOfCall found
    rcases hold i.id differs with free | parked
    · exact free (custody.kept.inFlight _ (List.mem_flatMap.mpr ⟨_, theirs, parks⟩))
    · exact parksApart custody mine theirs (Ne.symm other) parked parks

theorem goesEarly (leaves : ∀ at_, after ≠ some (.collecting at_))
    (frees : ∀ m id, what = .frees m id → m = n)
    (took : ∀ m, m ≠ n → o.took m = (outline timeout r.shown).took m) (m : Nat)
    (fresh : ∀ j, r.calls[m]? = some j → ∃ at_, e.call? j = some (.collecting at_)) :
    (∀ id, freed (⟨d.clock, what⟩ :: r.shown) m id = false) ∧ o.took m = fun _ => none := by
  -- The call whose turn it is has collected, if it is a sweep at all.
  have other : m ≠ n := by
    rintro rfl
    obtain ⟨at_, found⟩ := fresh k (numberAt number)
    rw [runs.calls, if_pos rfl] at found
    exact leaves at_ found
  obtain ⟨unfreed, none⟩ := h.early m fun j there => by
    obtain ⟨at_, found⟩ := fresh j there
    rw [runs.calls, if_neg (apart numbered number there other)] at found
    exact ⟨at_, found⟩
  refine ⟨fun id => ?_, (took m other).trans none⟩
  rw [freedNext _ fun same => other (frees m id same)]
  exact unfreed id

theorem goesLots (took : ∀ m, m ≠ n → o.took m = (outline timeout r.shown).took m)
    (lot : ∃ rest, Lot (o.took n) (expiries n (tale timeout r.shown ++
        told.map fun e => (n, e.unrated)) ++ rest) ∧
      (∀ c', after = some c' → rest = c'.held.map Instance.unrated) ∧ (result ≠ none → rest = []))
    (m : Nat) : ∃ rest, Lot (o.took m) (expiries m (tale timeout r.shown ++
        told.map fun e => (n, e.unrated)) ++ rest) ∧
      ∀ j, r.calls[m]? = some j → (∀ c', e.call? j = some c' → rest = c'.held.map Instance.unrated) ∧
        (e.ending? j ≠ none → rest = []) := by
  by_cases own : m = n
  · subst own
    obtain ⟨rest, whole, going, ends⟩ := lot
    refine ⟨rest, whole, fun j there => ?_⟩
    obtain rfl := Option.some.inj ((numberAt number).symm.trans there)
    refine ⟨fun c' found => going c' ?_, fun ended => ends ?_⟩
    · rwa [runs.calls, if_pos rfl] at found
    · rw [runs.ending, if_pos rfl, numbered.pending k c runs.was, Option.or_none] at ended
      exact ended
  · obtain ⟨rest, whole, others⟩ := h.lots m
    have none : expiries m (told.map fun e => (n, e.unrated)) = [] :=
      expiriesNone fun x mem same => by
        obtain ⟨event, _, rfl⟩ := List.mem_map.mp mem
        exact absurd same.symm own
    refine ⟨rest, ?_, fun j there => ?_⟩
    · rw [expiriesMore, none, List.append_nil]
      exact (took m own).symm ▸ whole
    · have other := apart numbered number there own
      rw [runs.calls, runs.ending, if_neg other, if_neg other]
      exact others j there

end Goes

theorem goes (what : Outward) (o : Outline) (h : Outlined timeout r d) (custody : d.Custody)
    (numbered : Numbered r.calls d) (number : r.calls.idxOf? k = some n)
    (runs : Runs d a e k (some c) after result told) (uncounted : a.counted = false)
    (shows : (⟨d, a, e⟩ : Stride).outward? r.calls = some what)
    (is : outline timeout (⟨d.clock, what⟩ :: r.shown) = o.put n (stageOf after result))
    (drawn : e.registry.Drawn (⟨d.clock, what⟩ :: r.shown) o) (cancels : e.cancelled = d.cancelled)
    (cancelled : o.cancelled = (outline timeout r.shown).cancelled)
    (stages : o.stages = (outline timeout r.shown).stages)
    (hold : ∀ id, o.hold id ≠ (outline timeout r.shown).hold id →
      id ∉ d.registry.inFlight ∨ id ∈ c.parks)
    (owed : ∀ c', after = some c' → ∀ i ∈ c'.held, i.id ∈ c'.parks → o.hold i.id = .sweep n)
    (leaves : ∀ at_, after ≠ some (.collecting at_)) (frees : ∀ m id, what = .frees m id → m = n)
    (took : ∀ m, m ≠ n → o.took m = (outline timeout r.shown).took m)
    (lot : ∃ rest, Lot (o.took n) (expiries n (tale timeout r.shown ++
        told.map fun e => (n, e.unrated)) ++ rest) ∧
      (∀ c', after = some c' → rest = c'.held.map Instance.unrated) ∧ (result ≠ none → rest = []))
    (publishes : (outline timeout r.shown).publishes ⟨d.clock, what⟩ =
      told.map fun e => (n, e.unrated))
    (plain : ∀ e ∈ told, e.changes = false) : Outlined timeout (r.next ⟨d, a, e⟩) e := by
  have calls : (r.next ⟨d, a, e⟩).calls = r.calls := by simp [Transcript.next, uncounted]
  have shown : (r.next ⟨d, a, e⟩).shown = ⟨d.clock, what⟩ :: r.shown := by
    simp [Transcript.next, shows]
  have acts : a.call? = some k := runs.course.about nofun
  have story : (r.next ⟨d, a, e⟩).story = r.story ++ told.map (n, ·) := by
    simp [Transcript.next, Stride.number?, acts, number, runs.tells]
  have tells : tale timeout (⟨d.clock, what⟩ :: r.shown) =
      tale timeout r.shown ++ told.map fun e => (n, e.unrated) := by rw [tale, publishes]
  constructor
  · rw [shown, is]
    exact drawn.put ..
  · rw [shown, is, cancels]
    exact h.cancelled.trans cancelled.symm
  · have others (j : CallId) (other : j ≠ k) : e.stage j = d.stage j := by
      rw [numbered.stage runs, if_neg other]
    rw [shown, is, calls, Outline.put, stages, h.stages, mapTurned numbered.once number others,
      numbered.stage runs, if_pos rfl]
  · rw [shown, is, calls]
    exact h.goesOwed numbered number runs custody hold owed
  · rw [shown, is, calls]
    exact h.goesEarly numbered number runs leaves frees took
  · rw [shown, is, calls, tells]
    exact h.goesLots numbered number runs took lot
  · rw [shown, tells, story, h.told, List.map_append, List.map_map]
    rfl
  · rw [story, List.map_append, h.log, runs.log, List.filter_append, List.map_map]
    congr 1
    rw [List.filter_eq_self.mpr fun e mem => by rw [plain e mem]; rfl]
    simp

theorem plainly (what : Outward) (o : Outline) (h : Outlined timeout r d) (custody : d.Custody)
    (numbered : Numbered r.calls d) (number : r.calls.idxOf? k = some n)
    (runs : Runs d a e k (some c) after result told) (uncounted : a.counted = false)
    (shows : (⟨d, a, e⟩ : Stride).outward? r.calls = some what)
    (is : outline timeout (⟨d.clock, what⟩ :: r.shown) = o.put n (stageOf after result))
    (beside : (outline timeout r.shown).Beside o) (drawn : e.registry.Drawn r.shown o)
    (cancels : e.cancelled = d.cancelled)
    (hold : ∀ id, o.hold id ≠ (outline timeout r.shown).hold id →
      id ∉ d.registry.inFlight ∨ id ∈ c.parks)
    (bare : c.held = []) (stays : ∀ c', after = some c' → c'.held = [])
    (leaves : ∀ at_, after ≠ some (.collecting at_)) (frees : ∀ m id, what ≠ .frees m id)
    (publishes : (outline timeout r.shown).publishes ⟨d.clock, what⟩ =
      told.map fun e => (n, e.unrated))
    (plain : ∀ e ∈ told, e.changes = false ∧ e.kind ≠ .expired) :
    Outlined timeout (r.next ⟨d, a, e⟩) e := by
  obtain ⟨rest, whole, mine⟩ := h.lots n
  obtain rfl : rest = [] := by rw [(mine k (numberAt number)).1 c runs.was, bare]; rfl
  have none : expiries n (told.map fun e => (n, e.unrated)) = [] := expiriesNone fun x mem _ => by
    obtain ⟨event, inside, rfl⟩ := List.mem_map.mp mem
    exact (plain event inside).2
  refine h.goes what o custody numbered number runs uncounted shows is (drawn.later _ frees) cancels
    beside.cancelled beside.stages hold (fun c' next i mem => ?_) leaves
    (fun m id same => absurd same (frees m id)) (fun m _ => congrFun beside.took m)
    ⟨[], ?_, fun c' next => ?_, fun _ => rfl⟩ publishes fun event mem => (plain event mem).1
  · rw [stays c' next] at mem
    cases mem
  · rw [beside.took, expiriesMore, none, List.append_nil]
    exact whole
  · rw [stays c' next]
    rfl

theorem stands (h : Outlined timeout r d) (number : r.calls.idxOf? k = some n)
    (found : d.call? k = some c) : (outline timeout r.shown).stages[n]? = some c.stage := by
  rw [h.stages, List.getElem?_map, numberAt number, Option.map_some, stage, found]
  rfl

theorem turned {what : Outward} {f : Milestone → Outline} (h : Outlined timeout r d)
    (number : r.calls.idxOf? k = some n) (found : d.call? k = some c)
    (turns : (outline timeout r.shown).next timeout
        ((outline timeout r.shown).parks r.shown what.asks) ⟨d.clock, what⟩ =
      (outline timeout r.shown).turn n f) :
    outline timeout (⟨d.clock, what⟩ :: r.shown) = f c.stage := by
  rw [outline, turns, Outline.turnAt (h.stands number found)]

theorem proceeds (asks : List String) (o : Outline) (h : Outlined timeout r d)
    (custody : d.Custody) (numbered : Numbered r.calls d) (number : r.calls.idxOf? k = some n)
    (runs : Runs d (.proceed k) e k (some c) after result told)
    (going : c.going n = some (.goes n asks))
    (is : (outline timeout r.shown).go timeout ((outline timeout r.shown).parks r.shown asks)
      d.clock n c.stage = o.put n (stageOf after result))
    (beside : (outline timeout r.shown).Beside o) (drawn : e.registry.Drawn r.shown o)
    (cancels : e.cancelled = d.cancelled)
    (hold : ∀ id, o.hold id ≠ (outline timeout r.shown).hold id →
      id ∉ d.registry.inFlight ∨ id ∈ c.parks)
    (bare : c.held = []) (stays : ∀ c', after = some c' → c'.held = [])
    (leaves : ∀ at_, after ≠ some (.collecting at_))
    (tells : c.stage.tells d.clock = told.map Event.unrated)
    (plain : ∀ e ∈ told, e.changes = false ∧ e.kind ≠ .expired) :
    Outlined timeout (r.next ⟨d, .proceed k, e⟩) e := by
  have stands := h.stands number runs.was
  refine h.plainly (.goes n asks) o custody numbered number runs rfl ?_ ?_ beside drawn cancels hold
    bare stays leaves nofun ?_ plain
  · simp [Stride.outward?, number, runs.was, going]
  · rw [← is]
    exact h.turned number runs.was rfl
  · simp only [Outline.publishes, stands, Option.elim_some, tells, List.map_map]
    rfl

section Own
variable (h : Outlined timeout r d) (custody : d.Custody) (numbered : Numbered r.calls d)
  (number : r.calls.idxOf? k = some n)
include h custody numbered number

theorem reserves {i : Instance} (found : d.call? k = some (.admitting i))
    (free : d.registry.busy i.id = false)
    (is : e = { d with registry := d.registry.park i.id }.moveTo k
      (.saving (Registry.stamped i d.clock))) :
    Outlined timeout (r.next ⟨d, .proceed k, e⟩) e := by
  subst is
  have asked := (outline timeout r.shown).parksAsked r.shown (List.mem_singleton_self i.id)
  have unparked := ((Registry.freeIff d.registry i.id).mp free).2
  have runs := Runs.moved (e := { d with registry := d.registry.park i.id }.moveTo k
    (.saving (Registry.stamped i d.clock))) custody.lined found (.reserved free) rfl rfl
    (List.append_nil _).symm rfl
  rw [h.drawn.busy, ← asked] at free
  refine h.proceeds [i.id] ((outline timeout r.shown).park i.id) custody numbered number runs rfl
    (if_neg (Bool.not_eq_true _ ▸ free)) ⟨rfl, rfl, rfl⟩ (h.drawn.park _) rfl
    (fun id differs => .inl (Outline.parkMoves differs ▸ unparked)) rfl ?_ ?_ rfl ?_
  all_goals
    intro _ is
    cases is
  rfl

theorem enters {i : Instance} (found : d.call? k = some (.entering i)) :
    Outlined timeout (r.next ⟨d, .proceed k, d.enter k i⟩) (d.enter k i) := by
  have runs := Runs.moved (e := d.enter k i) custody.lined found .entered rfl rfl
    (List.append_nil _).symm rfl
  have unparked : i.id ∉ (d.registry.release i.id).inFlight := fun mem =>
    ((Registry.memRelease _ _ _).mp mem).2 rfl
  refine h.proceeds [] (((outline timeout r.shown).release i.id).enter i) custody numbered number
    runs rfl rfl ⟨rfl, rfl, rfl⟩ ((h.drawn.release i.id).enter unparked) rfl
    (fun id differs => .inr (List.mem_singleton.mpr (Outline.releaseMoves differs))) rfl ?_ ?_ rfl ?_
  all_goals
    intro _ is
    cases is
  rfl

theorem leaves {id : String} {x : Record} (found : d.call? k = some (.leaving id))
    (live : d.registry.records.get? id = some x)
    (is : e = { d with registry := (d.registry.finishRemoval id).1 }.announce k
      [.plain .deregistered x.snapshot] (.instance x.snapshot)) :
    Outlined timeout (r.next ⟨d, .proceed k, e⟩) e := by
  subst is
  obtain ⟨records, inFlight, nextEpoch⟩ := Registry.leaveRecords live
  have was : (outline timeout r.shown).live id = some x.unrated := by
    rw [← h.drawn.live, live]
    rfl
  refine h.proceeds [] (((outline timeout r.shown).release id).remove id) custody numbered number
    (.moved custody.lined found .left rfl rfl (List.append_nil _).symm rfl) rfl ?_ ⟨rfl, rfl, rfl⟩
    ((h.drawn.release _).remove id records inFlight nextEpoch) rfl
    (fun id differs => .inr (List.mem_singleton.mpr (Outline.releaseMoves differs))) rfl ?_ ?_ rfl ?_
  · simp only [Call.stage, Outline.go, was]
    rfl
  all_goals
    intro _ is
    cases is
  rfl

theorem misses {id : String} (found : d.call? k = some (.leaving id))
    (gone : d.registry.records.get? id = none)
    (is : e = { d with registry := d.registry.release id }.finish k
      (.error (Registry.notFound id))) : Outlined timeout (r.next ⟨d, .proceed k, e⟩) e := by
  subst is
  have was : (outline timeout r.shown).live id = none := by
    rw [← h.drawn.live, gone]
    rfl
  refine h.proceeds [] ((outline timeout r.shown).release id) custody numbered number
    (.left custody.lined found (.missed gone) rfl rfl (List.append_nil _).symm rfl) rfl ?_
    ⟨rfl, rfl, rfl⟩ (h.drawn.release id) rfl
    (fun id differs => .inr (List.mem_singleton.mpr (Outline.releaseMoves differs))) rfl ?_ ?_ rfl ?_
  · simp only [Call.stage, Outline.go, was]
    rfl
  all_goals
    intro _ never
    cases never

theorem loads {stored : List Instance} {at_ : Timestamp}
    (found : d.call? k = some (.loading stored at_)) :
    Outlined timeout (r.next ⟨d, .proceed k, d.load k stored at_⟩) (d.load k stored at_) := by
  have asked : ∀ i ∈ stored, (outline timeout r.shown).parks r.shown (stored.map (·.id)) i.id =
      ((outline timeout r.shown).hold i.id).parks r.shown i.id := fun i mem =>
    Outline.parksAsked _ _ (List.mem_map_of_mem mem)
  obtain ⟨drawn, came⟩ := h.drawn.load at_ stored asked
  have runs := Runs.moved (e := d.load k stored at_) custody.lined found .loaded rfl rfl
    (List.append_nil _).symm rfl
  have unrated : ((d.registry.load at_ stored).2.1.map (.plain .registered)).map Notice.unrated =
      (d.registry.load at_ stored).2.1.map (.plain .registered) := by
    rw [List.map_map]
    refine List.map_congr_left fun i mem => ?_
    rw [Function.comp_apply, Notice.unrated, Instance.unrated,
      ← Registry.loadedStarting _ _ _ i mem]
  refine h.proceeds (stored.map (·.id)) _ custody numbered number runs rfl ?_
    ((outline timeout r.shown).loadBeside _ at_ stored) drawn rfl
    (fun id differs => absurd (congrFun (Outline.loadHold ..) id) differs) rfl ?_ ?_ rfl ?_
  · simp only [Call.stage, Outline.go, stageOf, Option.elim_some, came, unrated]
    rfl
  all_goals
    intro _ is
    cases is
  rfl

theorem tells {m : Notice} {rest : List Notice} {answer : Answer}
    (found : d.call? k = some (.announcing (m :: rest) answer))
    (is : e = (d.publish (m.event d.clock)).moveTo k (.announcing rest answer)) :
    Outlined timeout (r.next ⟨d, .proceed k, e⟩) e := by
  subst is
  have counted := numbered.own k (List.mem_of_getElem? (numberAt number)) _ found
  refine h.proceeds [] (outline timeout r.shown) custody numbered number
    (.moved custody.lined found .told rfl rfl rfl rfl) rfl rfl ⟨rfl, rfl, rfl⟩ h.drawn rfl
    (fun id differs => absurd rfl differs) rfl (fun _ is => by cases is; rfl)
    (fun _ is => by cases is) ?_ fun event mem => ?_
  · exact congrArg (fun event => [event]) (m.unratedEvent d.clock)
  · rw [List.mem_singleton.mp mem]
    rcases (List.forall_mem_cons.mp counted).1 with ⟨i, rfl | rfl⟩ <;> exact ⟨rfl, nofun⟩

theorem finishes {answer : Answer} (found : d.call? k = some (.announcing [] answer))
    (is : e = { d with order := none }.finish k (.ok answer)) :
    Outlined timeout (r.next ⟨d, .proceed k, e⟩) e := by
  subst is
  refine h.proceeds [] (outline timeout r.shown) custody numbered number
    (.left custody.lined found .silent rfl rfl (List.append_nil _).symm rfl) rfl rfl
    ⟨rfl, rfl, rfl⟩ h.drawn rfl (fun id differs => absurd rfl differs) rfl ?_ ?_ rfl ?_
  all_goals
    intro _ never
    cases never

theorem unsaved {i : Instance} {failure : Failure} (found : d.call? k = some (.saving i))
    (is : e = { d with registry := d.registry.release i.id }.finish k (.error failure)) :
    Outlined timeout (r.next ⟨d, .settle k (some failure), e⟩) e := by
  subst is
  refine h.plainly (.fails n failure) ((outline timeout r.shown).release i.id) custody numbered
    number (.left custody.lined found .unsaved rfl rfl (List.append_nil _).symm rfl) rfl ?_
    (h.turned (f := (outline timeout r.shown).fail n failure)
      number found rfl) ⟨rfl, rfl, rfl⟩ (h.drawn.release _) rfl
    (fun id differs => .inr (List.mem_singleton.mpr (Outline.releaseMoves differs))) rfl ?_ ?_
    nofun rfl ?_
  · simp [Stride.outward?, number, found, Call.hearing]
  all_goals
    intro _ never
    cases never

theorem unlisted {failure : Failure} (found : d.call? k = some .listing)
    (is : e = d.finish k (.error failure)) :
    Outlined timeout (r.next ⟨d, .settle k (some failure), e⟩) e := by
  subst is
  refine h.plainly (.fails n failure) (outline timeout r.shown) custody numbered number
    (.left custody.lined found .unlisted rfl rfl (List.append_nil _).symm rfl) rfl ?_
    (h.turned (f := (outline timeout r.shown).fail n failure)
      number found rfl) ⟨rfl, rfl, rfl⟩ h.drawn rfl
    (fun id differs => absurd rfl differs) rfl ?_ ?_ nofun rfl ?_
  · simp [Stride.outward?, number, found, Call.hearing]
  all_goals
    intro _ never
    cases never

theorem listed {stored : List Instance} (found : d.call? k = some .listing)
    (given : a = .settle k none ∧ stored = d.storeList ∨ a = .listed k stored)
    (is : e = d.moveTo k (.loading stored d.clock)) :
    Outlined timeout (r.next ⟨d, a, e⟩) e := by
  subst is
  have course : Course d a k (some .listing) (some (.loading stored d.clock)) none [] := by
    rcases given with ⟨rfl, rfl⟩ | rfl
    · exact .listed
    · exact .given
  refine h.plainly (.lists n stored) (outline timeout r.shown) custody numbered number
    (.moved custody.lined found course rfl rfl (List.append_nil _).symm rfl) ?_ ?_
    (h.turned (f := fun _ => (outline timeout r.shown).put n (.loading stored d.clock))
      number found rfl) ⟨rfl, rfl, rfl⟩ h.drawn rfl
    (fun id differs => absurd rfl differs) rfl ?_ ?_ nofun rfl ?_
  · rcases given with ⟨rfl, _⟩ | rfl <;> rfl
  · rcases given with ⟨rfl, rfl⟩ | rfl <;>
      simp [Stride.outward?, number, found, Call.hearing]
  all_goals
    intro _ is
    cases is
  rfl

theorem collects {at_ : Timestamp} {s : Registry} {took : List Expiry}
    (expires : d.registry.expire timeout at_ = (s, took))
    (runs : Runs d (.proceed k) e k (some (.collecting at_)) after result [])
    (registry : e.registry = s) (cancels : e.cancelled = d.cancelled)
    (stage : stageOf after result = if took.length = 0 then .ended (some (.ok (.count 0)))
      else .evicting took.length took.length)
    (held : ∀ c, after = some c → c.held = took.map (·.snapshot))
    (leaves : ∀ at_, after ≠ some (.collecting at_)) (ends : result ≠ none → took = []) :
    Outlined timeout (r.next ⟨d, .proceed k, e⟩) e := by
  have stands := h.stands number runs.was
  have mem := memEvicted custody.sound h.drawn expires
  obtain ⟨whole, many⟩ := evictedLot custody.sound h.drawn expires n
  obtain ⟨early, none⟩ := h.early n fun j there => by
    obtain rfl := Option.some.inj ((numberAt number).symm.trans there)
    exact ⟨at_, runs.was⟩
  have untold : expiries n (tale timeout r.shown) = [] := by
    obtain ⟨rest, lot, _⟩ := h.lots n
    rw [none] at lot
    exact (List.append_eq_nil_iff.mp lot.empty).1
  have publishes : (outline timeout r.shown).publishes ⟨d.clock, .goes n []⟩ = [] := by
    simp [Outline.publishes, stands, Call.stage, Milestone.tells]
  have drawn := h.drawn.evict (n := n) custody.sound expires early
  refine h.goes (.goes n []) ((outline timeout r.shown).evict timeout at_ n) custody numbered number
    runs rfl ?_ ?_ (registry ▸ drawn.later _ fun _ _ is => by cases is) cancels rfl rfl
    (fun id differs => .inl ?_) (fun c is i inside parks => ?_) leaves
    (fun m id is => by cases is) (fun m other => ?_)
    ⟨(took.map (·.snapshot)).map Instance.unrated, ?_, fun c is => ?_, fun ended => ?_⟩ publishes
    fun event mem => by cases mem
  · simp [Stride.outward?, number, runs.was, Call.going]
  · refine (h.turned (f := (outline timeout r.shown).go timeout _ d.clock n) number runs.was
      rfl).trans ?_
    simp only [Call.stage, Outline.go, stage, many]
  · by_contra parked
    exact differs (if_neg fun lapsed => h.drawn.lapsedFree lapsed parked)
  · rw [held c is] at inside
    exact if_pos ((mem i.id).mp (List.mem_map_of_mem inside))
  · exact Function.update_of_ne other ..
  · rw [List.map_nil, List.append_nil, untold, List.nil_append]
    exact whole
  · rw [held c is]
  · rw [ends ended]
    rfl

theorem frees {round : Round} (found : d.call? k = some (.releasing round)) :
    Outlined timeout (r.next ⟨d, .proceed k, d.releaseExpired k round⟩)
      (d.releaseExpired k round) := by
  have stands := h.stands number found
  have hold := h.owed n k _ (numberAt number) found
  have runs := Runs.moved (e := d.releaseExpired k round) custody.lined found .releasing rfl rfl
    (List.append_nil _).symm rfl
  obtain ⟨rest, whole, mine⟩ := h.lots n
  have drawn := h.drawn.free d.clock
    (hold round.current List.mem_cons_self (List.mem_map_of_mem List.mem_cons_self))
  refine h.goes (.frees n round.current.id) (outline timeout r.shown) custody numbered number runs
    rfl ?_ (Outline.putSame stands).symm drawn rfl rfl rfl (fun id differs => absurd rfl differs)
    (fun c is i inside parks => ?_) (fun at_ is => by cases is)
    (fun m id same => (Outward.frees.inj same).1.symm) (fun m _ => rfl)
    ⟨rest, ?_, fun c is => ?_, fun ended => absurd rfl ended⟩ rfl fun event mem => by cases mem
  · simp [Stride.outward?, number, found, Call.going]
  · cases is
    exact hold i inside (List.mem_map_of_mem inside)
  · exact (List.append_nil (tale timeout r.shown)).symm ▸ whole
  · cases is
    exact (mine k (numberAt number)).1 (.releasing round) found

theorem expires {round : Round} (found : d.call? k = some (.expiring round))
    (runs : Runs d (.proceed k) e k (some (.expiring round)) after result
      [.plain .expired round.current d.clock])
    (registry : e.registry = d.registry) (cancels : e.cancelled = d.cancelled)
    (stage : stageOf after result = if round.rest.length + 1 ≤ 1 then
      .ended (some (.ok (.count round.total))) else .evicting round.rest.length round.total)
    (held : ∀ c, after = some c → c.held = round.rest)
    (leaves : ∀ at_, after ≠ some (.collecting at_)) (ends : result ≠ none → round.rest = []) :
    Outlined timeout (r.next ⟨d, .proceed k, e⟩) e := by
  have stands := h.stands number found
  have hold := h.owed n k _ (numberAt number) found
  obtain ⟨rest, whole, mine⟩ := h.lots n
  obtain rfl := (mine k (numberAt number)).1 _ found
  have took : (outline timeout r.shown).took n round.current.id = some round.current.unrated :=
    (whole.2 round.current.unrated).mp (List.mem_append_right _ (List.mem_map_of_mem
      (List.mem_cons_self (a := round.current) (l := round.rest))))
  have publishes : (outline timeout r.shown).publishes ⟨d.clock, .tells n round.current.id⟩ =
      [(n, .plain .expired round.current.unrated d.clock)] := by
    simp [Outline.publishes, took]
  refine h.goes (.tells n round.current.id) (outline timeout r.shown) custody numbered number runs
    rfl ?_ ?_ (registry ▸ h.drawn.later _ fun _ _ is => by cases is) cancels rfl rfl
    (fun id differs => absurd rfl differs) (fun c is i inside parked => ?_) leaves
    (fun m id is => by cases is) (fun m _ => rfl)
    ⟨round.rest.map Instance.unrated, ?_, fun c is => ?_, fun ended => ?_⟩ publishes
    fun event mem => ?_
  · simp [Stride.outward?, number, found, Call.going]
  · refine (h.turned (f := (outline timeout r.shown).tell n) number found rfl).trans ?_
    rw [stage]
    rfl
  · rw [held c is] at inside
    exact hold i (List.mem_cons_of_mem _ inside) (List.mem_map_of_mem inside)
  · rw [expiriesMore, List.append_assoc]
    simpa [expiries, Event.plain, Event.unrated, Call.held] using whole
  · rw [held c is]
  · rw [ends ended]
    rfl
  · rw [List.mem_singleton.mp mem]
    rfl

theorem drops (found : d.call? k = some c) (abandonable : c.abandonable = true)
    (is : e = { d with registry := c.guarded?.elim d.registry d.registry.release,
                       calls := d.calls.filter (·.1 != k) }) :
    Outlined timeout (r.next ⟨d, .abandon k, e⟩) e := by
  obtain ⟨rest, whole, _⟩ := h.lots n
  have main (o : Outline) (turn : (outline timeout r.shown).drop n c.stage = o.put n (.ended none))
      (beside : (outline timeout r.shown).Beside o) (drawn : e.registry.Drawn r.shown o)
      (hold : ∀ id, o.hold id ≠ (outline timeout r.shown).hold id →
        id ∉ d.registry.inFlight ∨ id ∈ c.parks) :
      Outlined timeout (r.next ⟨d, .abandon k, e⟩) e := by
    subst is
    refine h.goes (.drops n) o custody numbered number (.left custody.lined found
      (.dropped abandonable) rfl rfl (List.append_nil _).symm rfl) rfl ?_
      ((h.turned (f := (outline timeout r.shown).drop n) number found rfl).trans turn)
      (drawn.later _ nofun) rfl beside.cancelled beside.stages hold (fun c is => by cases is)
      (fun at_ is => by cases is) nofun (fun m _ => congrFun beside.took m)
      ⟨rest, ?_, (fun c is => by cases is), fun ended => absurd rfl ended⟩ rfl
      fun _ mem => by cases mem
    · simp [Stride.outward?, number]
    · rw [beside.took]
      exact (List.append_nil (tale timeout r.shown)).symm ▸ whole
  have releasing (id : String) (guarded : c.guarded? = some id) (parks : c.parks = [id])
      (turn : (outline timeout r.shown).drop n c.stage =
        ((outline timeout r.shown).release id).put n (.ended none)) :
      Outlined timeout (r.next ⟨d, .abandon k, e⟩) e := by
    refine main ((outline timeout r.shown).release id) turn ⟨rfl, rfl, rfl⟩ ?_ fun other differs =>
      .inr (parks ▸ List.mem_singleton.mpr (Outline.releaseMoves differs))
    rw [is, guarded]
    exact h.drawn.release id
  have keeping (guarded : c.guarded? = none) (turn : (outline timeout r.shown).drop n c.stage =
      (outline timeout r.shown).put n (.ended none)) :
      Outlined timeout (r.next ⟨d, .abandon k, e⟩) e := by
    refine main (outline timeout r.shown) turn ⟨rfl, rfl, rfl⟩ ?_ fun id differs =>
      absurd rfl differs
    rw [is, guarded]
    exact h.drawn
  cases c with
  | saving i => exact releasing i.id rfl rfl rfl
  | quieting id loop => exact releasing id rfl rfl rfl
  | deleting id => exact releasing id rfl rfl rfl
  | hushing | purging | listing | stilling | joining => exact keeping rfl rfl
  | _ => cases abandonable

end Own

theorem begins (what : Outward) (o : Outline) (h : Outlined timeout r d)
    (numbered : Numbered r.calls d) (runs : Runs d a e d.nextCall none after result [])
    (counted : a.counted = true) (uncalled : a.call? = none)
    (shows : (⟨d, a, e⟩ : Stride).outward? r.calls = some what)
    (is : outline timeout (⟨d.clock, what⟩ :: r.shown) = o.add (stageOf after result))
    (beside : (outline timeout r.shown).Beside o) (drawn : e.registry.Drawn r.shown o)
    (cancels : e.cancelled = d.cancelled)
    (hold : ∀ id n, (outline timeout r.shown).hold id = .sweep n → id ∈ d.registry.inFlight →
      o.hold id = .sweep n)
    (custody : d.Custody) (bare : ∀ c, after = some c → c.held = [])
    (frees : ∀ m id, what ≠ .frees m id)
    (silent : (outline timeout r.shown).publishes ⟨d.clock, what⟩ = []) :
    Outlined timeout (r.next ⟨d, a, e⟩) e := by
  have calls : (r.next ⟨d, a, e⟩).calls = r.calls ++ [d.nextCall] := by
    simp [Transcript.next, counted]
  have shown : (r.next ⟨d, a, e⟩).shown = ⟨d.clock, what⟩ :: r.shown := by
    simp [Transcript.next, shows]
  have story : (r.next ⟨d, a, e⟩).story = r.story := by
    simp [Transcript.next, Stride.number?, uncalled]
  have tells : tale timeout (⟨d.clock, what⟩ :: r.shown) = tale timeout r.shown := by
    rw [tale, silent, List.append_nil]
  have apart {j : CallId} (old : j ∈ r.calls) : j ≠ d.nextCall := fun own =>
    Nat.lt_irrefl _ (own ▸ numbered.known j old)
  have early {n : Nat} {j : CallId} (there : (r.calls ++ [d.nextCall])[n]? = some j) :
      r.calls[n]? = some j ∨ j = d.nextCall ∧ r.calls[n]? = none := by
    rw [List.getElem?_append] at there
    split at there
    · exact .inl there
    · rename_i late
      refine .inr ⟨?_, List.getElem?_eq_none (Nat.le_of_not_lt late)⟩
      exact List.mem_singleton.mp (List.mem_of_getElem? there)
  constructor
  · rw [shown, is]
    exact (drawn.later _ frees).add _
  · rw [shown, is, cancels]
    exact h.cancelled.trans beside.cancelled.symm
  · have others : r.calls.map e.stage = r.calls.map d.stage :=
      List.map_congr_left fun j old => by rw [numbered.stage runs, if_neg (apart old)]
    rw [shown, is, calls, Outline.add, beside.stages, h.stages, List.map_append, List.map_singleton,
      numbered.stage runs, if_pos rfl, others]
  · rw [shown, is, calls]
    intro n j c there found i mem parks
    rcases early there with old | ⟨rfl, _⟩
    · rw [runs.calls, if_neg (apart (List.mem_of_getElem? old))] at found
      exact hold _ _ (h.owed n j c old found i mem parks)
        (custody.kept.inFlight _ (List.mem_flatMap.mpr ⟨_, memOfCall found, parks⟩))
    · rw [runs.calls, if_pos rfl] at found
      rw [bare c found] at mem
      cases mem
  · rw [shown, is, calls]
    intro n fresh
    obtain ⟨unfreed, none⟩ := h.early n fun j there => by
      obtain ⟨at_, found⟩ := fresh j (by
        rw [List.getElem?_append_left (List.getElem?_eq_some_iff.mp there).1, there])
      rw [runs.calls, if_neg (apart (List.mem_of_getElem? there))] at found
      exact ⟨at_, found⟩
    exact ⟨fun id => (freedNext _ (frees n id)).trans (unfreed id),
      (congrFun beside.took n).trans none⟩
  · rw [shown, is, calls, tells]
    intro n
    obtain ⟨rest, whole, others⟩ := h.lots n
    refine ⟨rest, beside.took.symm ▸ whole, fun j there => ?_⟩
    rcases early there with old | ⟨rfl, late⟩
    · have other := apart (List.mem_of_getElem? old)
      rw [runs.calls, runs.ending, if_neg other, if_neg other]
      exact others j old
    · obtain ⟨_, none⟩ := h.early n fun j there => by simp [late] at there
      rw [none] at whole
      obtain rfl := (List.append_eq_nil_iff.mp whole.empty).2
      refine ⟨fun c found => ?_, fun _ => rfl⟩
      rw [runs.calls, if_pos rfl] at found
      rw [bare c found]
      rfl
  · rw [shown, tells, story, h.told]
  · rw [story, h.log, runs.log, List.append_nil]

end Outlined
end Directory
end ServiceDirectory
