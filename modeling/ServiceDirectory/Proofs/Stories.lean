import ServiceDirectory.Proofs.Chronicle
import ServiceDirectory.Proofs.Custody

/-! Records against what is told of them: at every turn the story of an id ends where its record, or
the sweep that took it out, stands. -/
namespace ServiceDirectory
open Registry (Gains Loses)

def Notice.tale (n : Notice) : Event := (n.event .origin).unstamped

theorem Notice.taleOfEvent (n : Notice) (now : Timestamp) : (n.event now).unstamped = n.tale := by
  cases n <;> rfl

theorem quietNews {c : Option Call} (quiet : c.any Call.announces = false) :
    c.elim [] Call.news = [] := by
  cases c with
  | none => rfl
  | some c =>
    cases c with
    | announcing => cases quiet
    | _ => rfl

structure Recounted (r : Registry) (parked : List String) (held : List Instance)
    (story : List Event) : Prop where
  live : ∀ id x, r.records.get? id = some x → Open id story x.snapshot
  taken : ∀ i ∈ held, Open i.id story i
  closed : ∀ id, r.records.get? id = none → id ∉ held.map (·.id) → id ∈ parked ∨ id ∉ r.inFlight →
    Closed id story
  every : ∀ id, ∃ last, Chronicle none (about id story) last

namespace Recounted
variable {r s : Registry} {parked : List String} {held : List Instance} {story : List Event}

theorem calm (h : Recounted r parked held story) (inFlight : s.inFlight = r.inFlight)
    (live : ∀ id x, s.records.get? id = some x → ∃ y, r.records.get? id = some y ∧
      y.snapshot.Continues x.snapshot ∧ x.snapshot.status = y.snapshot.status)
    (absent : ∀ id, s.records.get? id = none → r.records.get? id = none) :
    Recounted s parked held story where
  live id x found := by
    obtain ⟨y, was, later, same⟩ := live id x found
    exact (h.live id y was).later later same
  taken := h.taken
  closed id none away free := h.closed id (absent id none) away (inFlight ▸ free)
  every := h.every

theorem perm {parked' : List String} {held' : List Instance} (h : Recounted r parked held story)
    (parks : parked'.Perm parked) (holds : held'.Perm held) : Recounted r parked' held' story where
  live := h.live
  taken i mem := h.taken i (holds.mem_iff.mp mem)
  closed id none away free :=
    h.closed id none (fun mem => away ((holds.map (·.id)).mem_iff.mpr mem))
      (free.imp_left parks.mem_iff.mp)
  every := h.every

theorem sameRecords (h : Recounted r parked held story) (inFlight : s.inFlight = r.inFlight)
    (records : ∀ id, s.records.get? id = r.records.get? id) : Recounted s parked held story :=
  h.calm inFlight
    (fun id x found => ⟨x, (records id).symm.trans found, Instance.continuesRefl _, rfl⟩)
    (fun id none => (records id).symm.trans none)

theorem release {id : String} (h : Recounted r (id :: parked) held story) :
    Recounted (r.release id) parked held story where
  live := h.live
  taken := h.taken
  closed other none away free := by
    refine h.closed other none away ?_
    rcases free with mine | out
    · exact .inl (List.mem_cons_of_mem _ mine)
    · by_cases same : other = id
      · exact .inl (same ▸ List.mem_cons_self)
      · exact .inr fun was => out ((Registry.memRelease r id other).mpr ⟨was, same⟩)
  every := h.every

theorem park {id : String} (h : Recounted r parked held story) (free : id ∉ r.inFlight)
    (records : s.records = r.records) (inFlight : s.inFlight = id :: r.inFlight) :
    Recounted s (id :: parked) held story where
  live := records ▸ h.live
  taken := h.taken
  closed other none away out := by
    refine h.closed other (records ▸ none) away ?_
    by_cases same : other = id
    · exact .inr (same ▸ free)
    · rw [inFlight] at out
      exact out.imp (fun mem => (List.mem_cons.mp mem).resolve_left same)
        fun out was => out (List.mem_cons_of_mem _ was)
  every := h.every

theorem lost {ids : List String} {out : List Instance}
    (h : Recounted r (ids ++ parked) (out ++ held) story)
    (once : (ids ++ parked).Nodup) (inFlight : ∀ id ∈ ids, id ∈ r.inFlight)
    (within : ∀ i ∈ out, i.id ∈ ids) : Recounted r parked held story where
  live := h.live
  taken i mem := h.taken i (List.mem_append_right _ mem)
  closed id none away free := by
    refine h.closed id none ?_ (free.imp_left (List.mem_append_right _))
    rw [List.map_append, List.mem_append, not_or]
    refine ⟨fun taken => ?_, away⟩
    obtain ⟨i, hi, rfl⟩ := List.mem_map.mp taken
    rcases free with mine | out
    · exact (List.nodup_append.mp once).2.2 _ (within i hi) _ mine rfl
    · exact out (inFlight _ (within i hi))
  every := h.every

theorem gains {came : List Instance} (h : Recounted r parked held story) (gains : Gains r s came)
    (starting : ∀ i ∈ came, i.status = .starting)
    (apart : ∀ i ∈ came, i.id ∉ held.map (·.id)) :
    Recounted s parked held (story ++ came.map fun i => (Notice.plain .registered i).tale) := by
  have others {id : String} (strange : id ∉ came.map (·.id)) :
      ∀ e ∈ came.map fun i => (Notice.plain .registered i).tale, e.snapshot.id ≠ id := by
    intro e mem same
    obtain ⟨i, hi, rfl⟩ := List.mem_map.mp mem
    exact strange (List.mem_map.mpr ⟨i, hi, same⟩)
  have opens (i : Instance) (mem : i ∈ came) :
      Open i.id (story ++ came.map fun i => (Notice.plain .registered i).tale) i := by
    obtain ⟨absent, out⟩ := gains.fresh i mem
    have past : Closed i.id story := h.closed i.id absent (apart i mem) (.inr out)
    refine ⟨i, ?_, Instance.continuesRefl i, rfl⟩
    rw [aboutAppend, aboutEach _ (fun _ => rfl) gains.distinct mem]
    exact past.next (.one ⟨rfl, rfl, rfl, starting i mem⟩)
  refine ⟨fun id x found => ?_, fun i mem => (h.taken i mem).aside (others ?_),
    fun id absent away free => ?_, fun id => ?_⟩
  · by_cases mine : id ∈ came.map (·.id)
    · obtain ⟨i, hi, rfl⟩ := List.mem_map.mp mine
      obtain ⟨epoch, _, here⟩ := gains.here i hi
      cases here.symm.trans found
      exact opens i hi
    · exact (h.live id x (gains.others id mine ▸ found)).aside (others mine)
  · intro mine
    obtain ⟨j, hj, same⟩ := List.mem_map.mp mine
    exact apart j hj (List.mem_map.mpr ⟨i, mem, same.symm⟩)
  · by_cases mine : id ∈ came.map (·.id)
    · obtain ⟨i, hi, rfl⟩ := List.mem_map.mp mine
      obtain ⟨epoch, _, here⟩ := gains.here i hi
      rw [absent] at here
      cases here
    · refine (h.closed id ?_ away ?_).aside (others mine)
      · rw [← gains.others id mine, absent]
      · rw [← gains.inFlight]; exact free
  · by_cases mine : id ∈ came.map (·.id)
    · obtain ⟨i, hi, rfl⟩ := List.mem_map.mp mine
      obtain ⟨last, told, _⟩ := opens i hi
      exact ⟨some last, told⟩
    · rw [aboutNothing (others mine)]
      exact h.every id

theorem touched (h : Recounted r parked held story) (id : String) (at_ : Timestamp) :
    Recounted (r.touch id at_) parked held story := by
  refine h.calm rfl (fun other x found => ?_) fun other absent => ?_
  · simp only [Registry.touch, Table.getAdjust] at found
    split at found
    · obtain ⟨y, was, rfl⟩ := Option.map_eq_some_iff.mp found
      exact ⟨y, was, Instance.touchContinues _ at_, rfl⟩
    · exact ⟨x, found, Instance.continuesRefl _, rfl⟩
  · simp only [Registry.touch, Table.getAdjust] at absent
    split at absent
    · exact Option.map_eq_none_iff.mp absent
    · exact absent

theorem entered {i : Instance} (h : Recounted r (i.id :: parked) held story)
    (vacant : r.records.get? i.id = none) (starting : i.status = .starting)
    (apart : i.id ∉ held.map (·.id)) :
    Recounted (r.commit i).1 parked held (story ++ [(Notice.plain .registered i).tale]) := by
  have free : (r.release i.id).busy i.id = false :=
    (Registry.freeIff _ _).mpr ⟨vacant, by simp [Registry.release]⟩
  refine h.release.gains (Registry.enterGains _ i free) (fun j mem => ?_) fun j mem => ?_ <;>
    cases List.mem_singleton.mp mem
  · exact starting
  · exact apart

theorem collects {gone : List Instance} (h : Recounted r parked held story) (loses : Loses r s gone)
    (inFlight : ∀ id, id ∈ s.inFlight ↔ id ∈ r.inFlight ∨ id ∈ gone.map (·.id)) :
    Recounted s (gone.map (·.id) ++ parked) (gone ++ held) story where
  live id x found := by
    have stays : id ∉ gone.map (·.id) := by
      intro mem
      obtain ⟨i, hi, rfl⟩ := List.mem_map.mp mem
      rw [loses.left i hi] at found
      cases found
    exact h.live id x (loses.others id stays ▸ found)
  taken i mem := by
    rcases List.mem_append.mp mem with out | mem
    · obtain ⟨epoch, was⟩ := loses.was i out
      exact h.live i.id ⟨i, epoch⟩ was
    · exact h.taken i mem
  closed id none away free := by
    rw [List.map_append, List.mem_append, not_or] at away
    refine h.closed id (loses.others id away.1 ▸ none) away.2 (free.imp ?_ ?_)
    · exact fun mem => (List.mem_append.mp mem).resolve_left away.1
    · exact fun out was => out ((inFlight id).mpr (.inl was))
  every := h.every

theorem tells {id : String} {e : Event} {held' : List Instance} {parked' : List String}
    (h : Recounted r parked held story) (own : e.snapshot.id = id)
    (live : ∀ x, s.records.get? id = some x → Open id (story ++ [e]) x.snapshot)
    (closed : s.records.get? id = none → Closed id (story ++ [e]))
    (others : ∀ other, other ≠ id → s.records.get? other = r.records.get? other)
    (holds : ∀ i ∈ held', i ∈ held ∧ i.id ≠ id)
    (held : ∀ other, other ≠ id → other ∉ held'.map (·.id) → other ∉ held.map (·.id))
    (free : ∀ other, other ≠ id → other ∈ parked' ∨ other ∉ s.inFlight →
      other ∈ parked ∨ other ∉ r.inFlight) :
    Recounted s parked' held' (story ++ [e]) := by
  have aside {other : String} (apart : other ≠ id) : ∀ f ∈ [e], f.snapshot.id ≠ other := by
    intro f mem same
    cases List.mem_singleton.mp mem
    exact apart (same.symm.trans own)
  refine ⟨fun other x found => ?_, fun i mem => ?_, fun other none away out => ?_, fun other => ?_⟩
  · by_cases same : other = id
    · subst same; exact live x found
    · exact (h.live other x (others other same ▸ found)).aside (aside same)
  · obtain ⟨was, apart⟩ := holds i mem
    exact (h.taken i was).aside (aside apart)
  · by_cases same : other = id
    · subst same; exact closed none
    · exact (h.closed other (others other same ▸ none) (held other same away)
        (free other same out)).aside (aside same)
  · by_cases same : other = id
    · subst same
      cases found : s.records.get? other with
      | none => exact ⟨none, closed found⟩
      | some x =>
        obtain ⟨last, told, _⟩ := live x found
        exact ⟨some last, told⟩
    · rw [aboutNothing (aside same)]
      exact h.every other

theorem leaves {id : String} {x : Record} (h : Recounted r (id :: parked) held story)
    (own : x.snapshot.id = id) (live : r.records.get? id = some x)
    (away : ∀ i ∈ held, r.records.get? i.id = none) :
    Recounted (r.finishRemoval id).1 parked held
      (story ++ [(Notice.plain .deregistered x.snapshot).tale]) := by
  obtain ⟨records, inFlight, _⟩ := Registry.leaveRecords live
  refine h.tells own (fun y found => ?_) (fun _ => (h.live id x live).ended own rfl)
    (fun other apart => ?_) (fun i mem => ⟨mem, fun same => ?_⟩) (fun _ _ gone => gone)
    fun other apart free => ?_
  · rw [records, Table.getRemove, if_pos rfl] at found
    cases found
  · rw [records, Table.getRemove, if_neg apart]
  · have absent := away i mem
    rw [same, live] at absent
    cases absent
  · refine free.imp (List.mem_cons_of_mem _) fun out was => out ?_
    rw [inFlight]
    exact (Registry.memRelease r id other).mpr ⟨was, apart⟩

theorem expires {i : Instance} (h : Recounted r parked (i :: held) story)
    (absent : r.records.get? i.id = none) (fresh : i.id ∉ held.map (·.id)) :
    Recounted r parked held (story ++ [(Notice.plain .expired i).tale]) := by
  have taken : Open i.id story i := h.taken i List.mem_cons_self
  have own : (Notice.plain .expired i).tale.snapshot.id = i.id := rfl
  refine h.tells own (fun x found => ?_) (fun _ => taken.ended own rfl) (fun _ _ => rfl)
    (fun j mem => ⟨List.mem_cons_of_mem _ mem, fun same => ?_⟩) (fun other apart away => ?_)
    fun _ _ free => free
  · rw [absent] at found
    cases found
  · exact fresh (List.mem_map.mpr ⟨j, mem, same⟩)
  · exact fun mem => (List.mem_cons.mp mem).elim apart away

theorem moves {id : String} {x : Record} {i : Instance} {now : Timestamp}
    (h : Recounted r parked held story) (own : x.snapshot.id = id)
    (live : r.records.get? id = some x) (away : ∀ j ∈ held, r.records.get? j.id = none)
    (differs : i.status ≠ x.snapshot.status) (later : x.snapshot.Continues i) :
    Recounted ({ r with records := r.records.put id ⟨i, x.epoch⟩ }.bump i.name) parked held
      (story ++ [(Notice.stamped (.statusChange i x.snapshot.status now)).tale]) := by
  have here : (r.records.put id ⟨i, x.epoch⟩).get? id = some ⟨i, x.epoch⟩ := Table.getPutSame ..
  refine h.tells ((Instance.continuesId later).trans own) (fun y found => ?_) (fun absent => ?_)
    (fun other apart => Table.getPutOther r.records _ apart) (fun j mem => ⟨mem, fun same => ?_⟩)
    (fun _ _ gone => gone) fun _ _ free => free
  · cases here.symm.trans found
    exact (h.live id x live).changed later own differs
  · cases here.symm.trans absent
  · have absent := away j mem
    rw [same, live] at absent
    cases absent

end Recounted

section Turn
variable {r s : Registry} {now : Timestamp} {before after : Option Call} {told : List Event}

theorem turnAdmits (starting : ∀ i ∈ before.elim [] Call.admits, i.status = .starting)
    (turn : Turn r now before s after told) :
    ∀ i ∈ after.elim [] Call.admits, i.status = .starting := by
  cases turn with
  | along hands calm => rw [hands.admits]; exact starting
  | reserved i free =>
    intro j mem
    cases List.mem_singleton.mp mem
    rfl
  | collected at_ timeout holds parks admits quiet => simp [admits]
  | expired round holds parks admits quiet => simp [admits]
  | _ => simp [Call.admits]

def pendingTales (c : Option Call) : List Event := (c.elim [] Call.news).map Notice.tale

theorem noTales : pendingTales none = [] := rfl

theorem quietTales {c : Option Call} (quiet : c.any Call.announces = false) :
    pendingTales c = [] := by
  rw [pendingTales, quietNews quiet, List.map_nil]

theorem turnRecounts {parked : List String} {held admitted : List Instance} {story : List Event}
    (sound : SoundRecords r.records r.nextEpoch)
    (kept : Kept r (before.elim [] Call.parks ++ parked) (before.elim [] Call.held ++ held)
      (before.elim [] Call.admits ++ admitted))
    (starting : ∀ i ∈ before.elim [] Call.admits, i.status = .starting)
    (covered : after.any Call.announces = true → before.any Call.announces = false →
      ∀ id ∈ held.map (·.id), id ∈ parked)
    (h : Recounted r (before.elim [] Call.parks ++ parked) (before.elim [] Call.held ++ held)
      (story ++ pendingTales before))
    (turn : Turn r now before s after told) :
    Recounted s (after.elim [] Call.parks ++ parked) (after.elim [] Call.held ++ held)
      (story ++ told.map Event.unstamped ++ pendingTales after) := by
  cases turn with
  | along hands calm =>
    rw [quietTales hands.before] at h
    simp only [quietTales hands.after, hands.parks, hands.held, List.map_nil, List.append_nil]
      at h ⊢
    exact h.sameRecords calm.inFlight fun id => by rw [calm.records]
  | heard id at_ =>
    simp only [List.map_nil, List.append_nil]
    exact Recounted.touched h id at_
  | reordered perm =>
    simp only [List.map_nil, List.append_nil]
    exact Recounted.sameRecords h rfl (Table.getPerm sound.distinct perm)
  | reserved i free =>
    simp only [List.map_nil, List.append_nil]
    exact Recounted.park h ((Registry.freeIff r i.id).mp free).2 rfl rfl
  | @dropped c id parks holds quiet =>
    rw [quietTales (c := some c) quiet] at h
    simp only [Option.elim_some, Option.elim_none, parks, holds, noTales, List.nil_append,
      List.singleton_append, List.map_nil, List.append_nil] at h ⊢
    exact h.release
  | @lost c admits quiet =>
    rw [quietTales (c := some c) quiet] at h
    simp only [Option.elim_some, Option.elim_none, noTales, List.nil_append, List.map_nil,
      List.append_nil] at h ⊢
    exact h.lost kept.once (fun id mem => kept.inFlight id (List.mem_append_left _ mem))
      fun i mem => Call.heldIsParked quiet mem
  | entered i =>
    obtain ⟨fresh, _⟩ := List.nodup_cons.mp kept.once
    have apart : i.id ∉ held.map (·.id) := fun taken => fresh (covered rfl rfl i.id taken)
    simp only [pendingTales, Option.elim_some, Call.news, List.map_nil, List.append_nil] at h ⊢
    exact Recounted.entered h (kept.vacant i List.mem_cons_self) (starting i List.mem_cons_self) apart
  | removing id live free records parks revisions lastRevision nextEpoch =>
    simp only [List.map_nil, List.append_nil]
    exact Recounted.park h free records parks
  | @left id x live =>
    simp only [pendingTales, Option.elim_some, Call.news, List.map_nil, List.append_nil] at h ⊢
    exact Recounted.leaves h (sound.own id x live) live kept.away
  | collected at_ timeout holds parks admits quiet =>
    rw [quietTales quiet, holds, parks]
    simp only [pendingTales, Option.elim_some, Call.news, List.map_nil, List.append_nil] at h ⊢
    exact Recounted.collects h (Registry.expelAllLoses sound _)
      fun id => Registry.expelAllParks sound _ id
  | releasing round =>
    simp only [pendingTales, Option.elim_some, Call.news, List.map_nil, List.append_nil] at h ⊢
    exact Recounted.release h
  | expired round holds parks admits quiet =>
    rw [quietTales quiet, holds, parks]
    simp only [pendingTales, Option.elim_some, Call.news, List.map_nil, List.append_nil] at h ⊢
    have absent := kept.away round.current List.mem_cons_self
    exact Recounted.expires h absent (List.nodup_cons.mp kept.heldOnce).1
  | loaded stored at_ =>
    have gains := Registry.loadGains r at_ stored
    have apart : ∀ i ∈ (r.load at_ stored).2.1, i.id ∉ held.map (·.id) := by
      intro i mem taken
      exact (gains.fresh i mem).2 (kept.inFlight _ (covered rfl rfl _ taken))
    simp only [pendingTales, Option.elim_some, Call.news, List.map_nil, List.append_nil,
      List.map_map] at h ⊢
    exact Recounted.gains h gains (Registry.loadedStarting r at_ stored) apart
  | told n rest =>
    simp only [pendingTales, Option.elim_some, Call.news, List.map_cons, List.map_nil,
      Notice.taleOfEvent, List.append_assoc, List.singleton_append] at h ⊢
    exact h
  | silent =>
    simp only [pendingTales, Option.elim_some, Option.elim_none, Call.news, List.map_nil,
      List.append_nil] at h ⊢
    exact h
  | @moved id x i live free differs later =>
    simp only [pendingTales, Option.elim_some, Option.elim_none, Call.news, List.map_nil,
      List.append_nil] at h ⊢
    exact Recounted.moves h (sound.own id x live) live kept.away differs later

end Turn
end ServiceDirectory
