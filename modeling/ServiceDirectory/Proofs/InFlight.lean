import ServiceDirectory.Proofs.Deeds
import ServiceDirectory.Proofs.Trail

/-! As long as no call is dropped, the ids in flight are those that calls under way have parked: what
a call parks it also releases. -/
namespace ServiceDirectory
open Registry (Loses)

def Action.abandons : Action → Bool
  | .abandon _ => true
  | _ => false

namespace Directory
variable {d e : Directory} {k : CallId} {c c' : Call}

theorem callOfMem (lined : d.Lined) (mem : (k, c) ∈ d.calls) : d.call? k = some c := by
  obtain ⟨first, last, split⟩ := List.append_of_mem mem
  have distinct := lined.distinct
  rw [split, List.map_append, List.map_cons, List.nodup_append] at distinct
  have early : first.find? (·.1 == k) = none := List.find?_eq_none.mpr fun x hit same =>
    distinct.2.2 x.1 (List.mem_map_of_mem hit) k List.mem_cons_self (by simpa using same)
  simp [call?, split, List.find?_append, early]

theorem memMoved (found : d.call? k = some c) : (k, c') ∈ (d.moveTo k c').calls :=
  List.mem_map.mpr ⟨(k, c), memOfCall found, by simp⟩

theorem eachMoved {P : CallId × Call → Prop} (others : ∀ x ∈ d.calls, x.1 ≠ k → P x)
    (mine : P (k, c)) : ∀ x ∈ (d.moveTo k c).calls, P x := by
  intro x mem
  obtain ⟨y, old, rfl⟩ := List.mem_map.mp mem
  split
  · exact mine
  · rename_i other
    exact others y old (by simpa using other)

theorem eachLeft {P : CallId × Call → Prop} (others : ∀ x ∈ d.calls, x.1 ≠ k → P x) :
    ∀ x ∈ d.calls.filter (·.1 != k), P x := by
  intro x mem
  obtain ⟨old, other⟩ := List.mem_filter.mp mem
  exact others x old (by simpa using other)

theorem eachOpened {P : CallId × Call → Prop} (others : ∀ x ∈ d.calls, P x)
    (mine : P (k, c)) : ∀ x ∈ d.calls ++ [(k, c)], P x := by
  intro x mem
  rcases List.mem_append.mp mem with old | new
  · exact others x old
  · cases List.mem_singleton.mp new
    exact mine

def Newly (P : Call → Prop) (d e : Directory) : Prop := ∀ x ∈ e.calls, x ∈ d.calls ∨ P x.2

namespace Newly
variable {P : Call → Prop}

theorem same (calls : e.calls = d.calls) : Newly P d e := fun _ mem => .inl (calls ▸ mem)

theorem opened (calls : e.calls = d.calls ++ [(k, c)]) (new : P c) : Newly P d e := by
  rw [Newly, calls]
  exact eachOpened (fun _ mem => .inl mem) (.inr new)

theorem moved (calls : e.calls = (d.moveTo k c').calls) (new : P c') : Newly P d e := by
  rw [Newly, calls]
  exact eachMoved (fun _ mem _ => .inl mem) (.inr new)

theorem left (calls : e.calls = d.calls.filter (·.1 != k)) : Newly P d e := by
  rw [Newly, calls]
  exact eachLeft fun _ mem _ => .inl mem

end Newly

theorem someMoved {P : Call → Prop} (lined : d.Lined) (found : d.call? k = some c)
    (mine : P c → P c') (h : ∃ x ∈ d.calls, P x.2) : ∃ x ∈ (d.moveTo k c').calls, P x.2 := by
  obtain ⟨x, mem, holds⟩ := h
  by_cases own : x.1 = k
  · subst own
    cases (callOfMem lined mem).symm.trans found
    exact ⟨(x.1, c'), List.mem_map.mpr ⟨x, mem, by simp⟩, mine holds⟩
  · exact ⟨x, List.mem_map.mpr ⟨x, mem, by simp [own]⟩, holds⟩

theorem someLeft {P : Call → Prop} (lined : d.Lined) (found : d.call? k = some c) (mine : ¬P c)
    (h : ∃ x ∈ d.calls, P x.2) : ∃ x ∈ d.calls.filter (·.1 != k), P x.2 := by
  obtain ⟨x, mem, holds⟩ := h
  refine ⟨x, List.mem_filter.mpr ⟨mem, bne_iff_ne.mpr fun own => ?_⟩, holds⟩
  subst own
  cases (callOfMem lined mem).symm.trans found
  exact mine holds

theorem parksApart (custody : d.Custody) {x y : CallId × Call} (hx : x ∈ d.calls)
    (hy : y ∈ d.calls) (apart : x.1 ≠ y.1) {id : String} (mine : id ∈ x.2.parks) :
    id ∉ y.2.parks := by
  obtain ⟨first, last, split⟩ := List.append_of_mem hx
  have front : d.calls.Perm (x :: (first ++ last)) := split ▸ List.perm_middle
  have there : y ∈ first ++ last :=
    (List.mem_cons.mp (front.mem_iff.mp hy)).resolve_left fun same => apart (same ▸ rfl)
  have once := ((front.flatMap_right fun z => z.2.parks).nodup_iff).mp custody.kept.once
  rw [List.flatMap_cons, List.nodup_append] at once
  exact fun theirs => once.2.2 id mine id (List.mem_flatMap.mpr ⟨y, there, theirs⟩) rfl

def Parked (d : Directory) : Prop := ∀ id ∈ d.registry.inFlight, ∃ x ∈ d.calls, id ∈ x.2.parks

def ParkedBut (strays : List String) (d : Directory) : Prop :=
  ∀ id ∈ d.registry.inFlight, (∃ x ∈ d.calls, id ∈ x.2.parks) ∨ id ∈ strays

theorem parkedIff : d.Parked ↔ d.ParkedBut [] := by simp [Parked, ParkedBut]

theorem emptyParked (settings : DirectorySettings) : (empty settings).Parked := by
  intro id mem
  cases mem

namespace ParkedBut
variable {strays : List String}

theorem aside (h : d.ParkedBut strays) (calls : e.calls = d.calls)
    (inFlight : e.registry.inFlight = d.registry.inFlight) : e.ParkedBut strays := by
  rw [ParkedBut, calls, inFlight]
  exact h

theorem opened (h : d.ParkedBut strays) {x : CallId × Call} (calls : e.calls = d.calls ++ [x])
    (inFlight : ∀ id ∈ e.registry.inFlight, id ∈ x.2.parks ∨ id ∈ d.registry.inFlight) :
    e.ParkedBut strays := by
  intro id mem
  rw [calls]
  rcases inFlight id mem with mine | old
  · exact .inl ⟨x, by simp, mine⟩
  · refine (h id old).imp_left ?_
    rintro ⟨y, hy, parks⟩
    exact ⟨y, List.mem_append_left _ hy, parks⟩

theorem moved (h : d.ParkedBut strays) (lined : d.Lined) (found : d.call? k = some c)
    (calls : e.calls = (d.moveTo k c').calls)
    (inFlight : ∀ id ∈ e.registry.inFlight,
      id ∈ c'.parks ∨ (id ∈ d.registry.inFlight ∧ id ∉ c.parks)) : e.ParkedBut strays := by
  intro id mem
  rw [calls]
  rcases inFlight id mem with mine | ⟨old, unparked⟩
  · exact .inl ⟨(k, c'), memMoved found, mine⟩
  · exact (h id old).imp_left
      (someMoved (P := (id ∈ ·.parks)) lined found fun mine => absurd mine unparked)

theorem along (h : d.ParkedBut strays) (c' : Call) (lined : d.Lined) (found : d.call? k = some c)
    (parks : c'.parks = c.parks) (calls : e.calls = (d.moveTo k c').calls)
    (inFlight : e.registry.inFlight = d.registry.inFlight) : e.ParkedBut strays := by
  refine h.moved lined found calls fun id mem => ?_
  rw [inFlight] at mem
  rw [parks]
  exact (Classical.em (id ∈ c.parks)).imp_right fun out => ⟨mem, out⟩

theorem ended (h : d.ParkedBut strays) (lined : d.Lined) (found : d.call? k = some c)
    (calls : e.calls = d.calls.filter (·.1 != k))
    (inFlight : ∀ id ∈ e.registry.inFlight, id ∈ d.registry.inFlight ∧ id ∉ c.parks) :
    e.ParkedBut strays := by
  intro id mem
  rw [calls]
  obtain ⟨old, unparked⟩ := inFlight id mem
  exact (h id old).imp_left (someLeft (P := (id ∈ ·.parks)) lined found unparked)

theorem bare (h : d.ParkedBut strays) (lined : d.Lined) (found : d.call? k = some c)
    (parks : c.parks = []) (calls : e.calls = d.calls.filter (·.1 != k))
    (inFlight : e.registry.inFlight = d.registry.inFlight) : e.ParkedBut strays :=
  h.ended lined found calls fun id mem => ⟨inFlight ▸ mem, by simp [parks]⟩

end ParkedBut

theorem passedInFlight (r : Registry) (id : String) (epoch : Nat) (at_ : Timestamp) :
    (r.passed id epoch at_).inFlight = r.inFlight := by
  unfold Registry.passed
  split
  · split <;> rfl
  · rfl

theorem releasedInFlight {r : Registry} {id other : String}
    (mem : other ∈ (r.release id).inFlight) : other ∈ r.inFlight ∧ other ∉ [id] := by
  simpa using (Registry.memRelease r id other).mp mem

theorem parkedButStep {strays : List String} (custody : d.Custody) (h : d.ParkedBut strays)
    {a : Action} (kept : a.abandons = false) (next : d.step a = some e) : e.ParkedBut strays := by
  have lined := custody.lined
  cases stepDeed next with
  | opened opens => exact h.opened rfl fun id => .inr
  | removing live unparked =>
    exact h.opened rfl fun id mem => (List.mem_cons.mp mem).imp_left fun same => by
      simp [Call.parks, same]
  | starting => exact h.opened rfl fun id => .inr
  | closing => exact h.opened rfl fun id => .inr
  | ticked => exact h.opened rfl fun id => .inr
  | moved => exact h.opened rfl fun id => .inr
  | turnedAway found => exact h.bare lined found rfl rfl rfl
  | reserved found free =>
    refine h.moved lined found rfl fun id mem => ?_
    exact (List.mem_cons.mp mem).imp (fun same => by simp [Call.parks, Registry.stamped, same])
      fun old => ⟨old, by simp [Call.parks]⟩
  | entered found => exact h.moved lined found rfl fun id mem => .inr (releasedInFlight mem)
  | quieted found => exact h.along (.deleting _) lined found rfl rfl rfl
  | left found live =>
    refine h.moved lined found rfl fun id mem => .inr (releasedInFlight ?_)
    exact (Registry.leaveRecords live).2.1 ▸ mem
  | missed found => exact h.ended lined found rfl fun id mem => releasedInFlight mem
  | @foundNone k at_ s found expires =>
    refine h.ended lined found rfl fun id mem => ⟨?_, by simp [Call.parks]⟩
    have parks := Registry.expelAllParks custody.sound
      (d.registry.victims d.settings.heartbeatTimeout at_) id
    rw [← Registry.expire, expires] at parks
    simpa using parks.mp mem
  | @collected k at_ s took i rest found expires takes =>
    refine h.moved lined found rfl fun id mem => ?_
    have parks := Registry.expelAllParks custody.sound
      (d.registry.victims d.settings.heartbeatTimeout at_) id
    rw [← Registry.expire, expires, takes] at parks
    exact (parks.mp mem).symm.imp_right fun old => ⟨old, by simp [Call.parks]⟩
  | hushed found => exact h.along (.purging _) lined found rfl rfl rfl
  | @releasing k round found =>
    refine h.moved lined found rfl fun id mem => ?_
    obtain ⟨old, other⟩ := releasedInFlight mem
    by_cases more : id ∈ round.rest.map (·.id)
    · exact .inl more
    · have both := And.intro (show id ≠ round.current.id by simpa using other) more
      exact .inr ⟨old, by simpa [Call.parks, not_or] using both⟩
  | expiredLast found last => exact h.bare lined found (by simp [Call.parks, last]) rfl rfl
  | expired found more =>
    exact h.along (.purging _) lined found (by simp [Call.parks, more]) rfl rfl
  | loaded found =>
    exact h.along (.announcing _ _) lined found rfl rfl (Registry.loadGains ..).inFlight
  | @told k n rest answer found => exact h.along (.announcing rest answer) lined found rfl rfl rfl
  | silent found => exact h.bare lined found rfl rfl rfl
  | launched found => exact h.bare lined found rfl rfl rfl
  | drained found => exact h.along (.stilling _) lined found rfl rfl rfl
  | stilled found => exact h.along (.joining _) lined found rfl rfl rfl
  | joined found => exact h.bare lined found rfl rfl rfl
  | saved found => exact h.along (.entering _) lined found rfl rfl rfl
  | unsaved found => exact h.ended lined found rfl fun id mem => releasedInFlight mem
  | deleted found => exact h.along (.leaving _) lined found rfl rfl rfl
  | purged found => exact h.along (.releasing _) lined found rfl rfl rfl
  | listed found => exact h.along (.loading _ _) lined found rfl rfl rfl
  | unlisted found => exact h.bare lined found rfl rfl rfl
  | given found => exact h.along (.loading _ _) lined found rfl rfl rfl
  | dropped => cases kept
  | passed => exact h.aside rfl (passedInFlight ..)
  | _ => exact h.aside rfl rfl

theorem parkedStep (custody : d.Custody) (h : d.Parked) {a : Action} (kept : a.abandons = false)
    (next : d.step a = some e) : e.Parked :=
  parkedIff.mpr (parkedButStep custody (parkedIff.mp h) kept next)

theorem parkedSteps (custody : d.Custody) (h : d.Parked) {actions : List Action}
    (kept : ∀ a ∈ actions, a.abandons = false) (run : d.steps actions = some e) : e.Parked := by
  have both : e.Custody ∧ e.Parked :=
    trailHolds (P := fun d => d.Custody ∧ d.Parked) ⟨custody, h⟩ run
      fun s mem next ⟨custody, parked⟩ =>
        ⟨custodyStep custody next, parkedStep custody parked (kept _ (trailActions mem)) next⟩
  exact both.2

end Directory

def Call.removes : Call → List String
  | .quieting id _ => [id]
  | .deleting id => [id]
  | .leaving id => [id]
  | _ => []

theorem Call.removesParked (c : Call) : c.removes ⊆ c.parks := by
  cases c <;> simp [removes, parks]

theorem Call.parksHands {c : Call} {id : String} (mem : id ∈ c.parks) :
    id ∈ c.held.map (·.id) ∨ id ∈ c.admits.map (·.id) ∨ id ∈ c.removes := by
  cases c with
  | expiring round => exact .inl (List.mem_cons_of_mem _ mem)
  | _ => simp_all [parks, held, admits, removes]

theorem Call.removesHands {c : Call} (quiet : c.announces = false) :
    c.removes = if c.held = [] ∧ c.admits = [] then c.parks else [] := by
  cases c <;> simp [announces] at quiet <;> simp [removes, held, admits, parks]

theorem removesQuiet {c : Option Call} (quiet : c.any Call.announces = false) :
    c.elim [] Call.removes =
      if c.elim [] Call.held = [] ∧ c.elim [] Call.admits = [] then c.elim [] Call.parks else [] := by
  cases c with
  | none => simp
  | some c => exact Call.removesHands quiet

section Turn
variable {r s : Registry} {now : Timestamp} {before after : Option Call} {told : List Event}

theorem turnRemoves {parked removed : List String} {held admitted : List Instance}
    (sound : SoundRecords r.records r.nextEpoch)
    (kept : Kept r (before.elim [] Call.parks ++ parked) (before.elim [] Call.held ++ held)
      (before.elim [] Call.admits ++ admitted))
    (within : removed ⊆ parked)
    (live : ∀ id ∈ before.elim [] Call.removes ++ removed, r.records.holds id = true)
    (turn : Turn r now before s after told) :
    ∀ id ∈ after.elim [] Call.removes ++ removed, s.records.holds id = true := by
  have others (id : String) (mem : id ∈ removed) := live id (List.mem_append_right _ mem)
  have holdsNone {c : Option Call} (quiet : c.any Call.announces = false)
      (holds : c.elim [] Call.parks = (c.elim [] Call.held).map (·.id)) :
      c.elim [] Call.removes = [] := by
    rw [removesQuiet quiet, holds]
    split
    · rename_i none
      rw [none.1]; rfl
    · rfl
  cases turn with
  | along hands calm =>
    rw [removesQuiet hands.after, hands.parks, hands.held, hands.admits, ← removesQuiet hands.before,
      calm.records]
    exact live
  | heard id at_ =>
    intro other mem
    have here := live other mem
    simp only [Table.holdsIff, Registry.touch, Table.getAdjust] at here ⊢
    split <;> simpa using here
  | reordered perm =>
    intro id mem
    have here := live id mem
    simp only [Table.holdsIff] at here ⊢
    rwa [Table.getPerm sound.distinct perm]
  | entered i =>
    intro id mem
    have here := others id mem
    rw [Table.holdsIff] at here ⊢
    exact Table.somePut (.inl here)
  | removing id here free records =>
    intro other mem
    rw [records]
    rcases List.mem_append.mp mem with mine | mem
    · cases List.mem_singleton.mp mine
      exact here
    · exact others other mem
  | @left id x here =>
    have loses := Registry.removeLoses sound here (Registry.leaveRecords here).1
    intro other mem
    refine loses.holds (fun gone => ?_) (others other mem)
    have same : other = id := (List.mem_singleton.mp gone).trans (sound.own id x here)
    exact (List.nodup_cons.mp kept.once).1 (same ▸ within mem)
  | collected at_ timeout holds parks admits quiet =>
    have loses : Loses r (r.expire timeout at_).1 _ := Registry.expelAllLoses sound _
    rw [holdsNone quiet (parks.trans (by rw [holds]))]
    intro id mem
    refine loses.holds (fun gone => ?_) (others id mem)
    obtain ⟨i, hi, rfl⟩ := List.mem_map.mp gone
    exact Registry.expiredUnparked sound timeout at_ i hi
      (kept.inFlight _ (List.mem_append_right _ (within mem)))
  | expired round holds parks admits quiet =>
    rw [holdsNone quiet (parks.trans (by rw [holds]))]
    exact others
  | loaded stored at_ =>
    exact fun id mem => (Registry.loadGains r at_ stored).holds (others id mem)
  | @moved target x i was free differs later =>
    intro id mem
    have here := others id mem
    rw [Table.holdsIff] at here ⊢
    exact Table.somePut (.inl here)
  | _ => exact others

end Turn

namespace Directory
variable {d e : Directory}

def Removing (d : Directory) : Prop :=
  ∀ id ∈ d.calls.flatMap (·.2.removes), d.registry.records.holds id = true

theorem emptyRemoving (settings : DirectorySettings) : (empty settings).Removing := by
  intro id mem
  cases mem

theorem removingStep (c : d.Custody) (h : d.Removing) {a : Action} (next : d.step a = some e) :
    e.Removing := by
  obtain ⟨k, before, after, told, happens⟩ := stepTurns c.lined next
  obtain ⟨rest, was, is, _, _, _⟩ := happens.others c.lined
  have kept := c.kept.perm (was.symm.flatMap_right _) (was.symm.flatMap_right _)
    (was.symm.flatMap_right _)
  have live (id : String) (mem : id ∈ (before.toList.map (k, ·) ++ rest).flatMap (·.2.removes)) :
      d.registry.records.holds id = true := h id ((was.flatMap_right _).mem_iff.mpr mem)
  have within : rest.flatMap (·.2.removes) ⊆ rest.flatMap (·.2.parks) := fun id mem => by
    obtain ⟨x, hx, removes⟩ := List.mem_flatMap.mp mem
    exact List.mem_flatMap.mpr ⟨x, hx, x.2.removesParked removes⟩
  simp only [handsSplit] at kept live
  have still := turnRemoves c.sound kept within live happens.turn
  intro id mem
  have mem := (is.flatMap_right _).mem_iff.mp mem
  rw [handsSplit] at mem
  exact still id mem

theorem Parked.liveFree (parked : d.Parked) (custody : d.Custody)
    (none : ∀ x ∈ d.calls, x.2.removes = []) {id : String} {y : Record}
    (live : d.registry.records.get? id = some y) : id ∉ d.registry.inFlight := by
  intro busy
  obtain ⟨x, mem, parks⟩ := parked id busy
  rcases Call.parksHands parks with held | admits | removes
  · obtain ⟨i, holds, rfl⟩ := List.mem_map.mp held
    rw [custody.kept.away i (List.mem_flatMap.mpr ⟨x, mem, holds⟩)] at live
    cases live
  · obtain ⟨i, fills, rfl⟩ := List.mem_map.mp admits
    rw [custody.kept.vacant i (List.mem_flatMap.mpr ⟨x, mem, fills⟩)] at live
    cases live
  · rw [none x mem] at removes
    cases removes

end Directory
end ServiceDirectory
