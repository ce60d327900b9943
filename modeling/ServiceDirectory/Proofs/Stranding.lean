import ServiceDirectory.Proofs.Books

/-! What dropped calls leave in flight. A registration or a removal that is dropped releases its id; a
sweep that is dropped releases nothing, so what it has taken out and not told of is stranded: no call
has it any more, and none can have it again. -/
namespace ServiceDirectory

namespace Stride

def dropped? (s : Stride) : Option Call :=
  match s.action with
  | .abandon k => s.before.call? k
  | _ => none

def strands (s : Stride) : List Instance := s.dropped?.elim [] Call.held

theorem strandsNone {s : Stride} (kept : s.action.abandons = false) : s.strands = [] := by
  unfold strands dropped?
  split
  · rename_i dropped
    rw [dropped] at kept
    cases kept
  · rfl

end Stride

def stranded (past : List Stride) : List Instance := past.flatMap Stride.strands

theorem strandedNext (past : List Stride) (s : Stride) :
    stranded (past ++ [s]) = stranded past ++ s.strands := by
  simp [stranded]

def Call.Serves (request : Option Request) : Call → Prop
  | .admitting i => ∃ j, request = some (.register j) ∧ j.id = i.id
  | .saving i => ∃ j, request = some (.register j) ∧ j.id = i.id
  | .entering i => ∃ j, request = some (.register j) ∧ j.id = i.id
  | .quieting id _ => request = some (.deregister id)
  | .deleting id => request = some (.deregister id)
  | .leaving id => request = some (.deregister id)
  | .collecting _ => request = some .sweep
  | .hushing _ _ => request = some .sweep
  | .purging _ => request = some .sweep
  | .releasing _ => request = some .sweep
  | .expiring _ => request = some .sweep
  | .listing => request = some .bootstrap
  | .loading _ _ => request = some .bootstrap
  | .launching => request = some .start
  | .draining => request = some .shutdown
  | .stilling _ => request = some .shutdown
  | .joining _ => request = some .shutdown
  | .announcing _ _ => True

def Request.Parks (id : String) : Request → Prop
  | .register i => i.id = id
  | .deregister target => target = id
  | .sweep => True
  | _ => False

theorem Call.servesParks {request : Option Request} {c : Call} {id : String}
    (serves : c.Serves request) (parks : id ∈ c.parks) : ∃ r, request = some r ∧ r.Parks id := by
  cases c with
  | saving i =>
    obtain ⟨j, rfl, same⟩ := serves
    exact ⟨_, rfl, same.trans (List.mem_singleton.mp parks).symm⟩
  | entering i =>
    obtain ⟨j, rfl, same⟩ := serves
    exact ⟨_, rfl, same.trans (List.mem_singleton.mp parks).symm⟩
  | quieting target loop => exact ⟨_, serves, (List.mem_singleton.mp parks).symm⟩
  | deleting target => exact ⟨_, serves, (List.mem_singleton.mp parks).symm⟩
  | leaving target => exact ⟨_, serves, (List.mem_singleton.mp parks).symm⟩
  | hushing loops round => exact ⟨_, serves, trivial⟩
  | purging round => exact ⟨_, serves, trivial⟩
  | releasing round => exact ⟨_, serves, trivial⟩
  | expiring round => exact ⟨_, serves, trivial⟩
  | _ => cases parks

section Turn
variable {r s : Registry} {now : Timestamp} {before after : Option Call} {told : List Event}

theorem turnStuck (sound : SoundRecords r.records r.nextEpoch)
    (turn : Turn r now before s after told) {id : String} (busy : id ∈ r.inFlight)
    (free : id ∉ before.elim [] Call.parks) :
    id ∈ s.inFlight ∧ id ∉ after.elim [] Call.parks := by
  have released {target : String} (other : id ≠ target) : id ∈ (r.release target).inFlight :=
    (Registry.memRelease r target id).mpr ⟨busy, other⟩
  cases turn with
  | along hands calm => exact ⟨calm.inFlight ▸ busy, hands.parks ▸ free⟩
  | reserved i room =>
    have other : id ≠ i.id := fun same => ((Registry.freeIff r i.id).mp room).2 (same ▸ busy)
    exact ⟨List.mem_cons_of_mem _ busy, by simpa [Call.parks, Registry.stamped] using other⟩
  | @dropped c target parks =>
    exact ⟨released (by simpa [parks] using free), List.not_mem_nil⟩
  | entered i => exact ⟨released (by simpa [Call.parks] using free), List.not_mem_nil⟩
  | removing target live unparked records parked =>
    have other : id ≠ target := fun same => unparked (same ▸ busy)
    exact ⟨parked ▸ List.mem_cons_of_mem _ busy, by simpa [Call.parks] using other⟩
  | left target live =>
    rw [(Registry.leaveRecords live).2.1]
    exact ⟨released (by simpa [Call.parks] using free), List.not_mem_nil⟩
  | collected at_ timeout held parks =>
    refine ⟨(Registry.expelAllParks sound _ id).mpr (.inl busy), fun mine => ?_⟩
    rw [parks] at mine
    obtain ⟨i, gone, rfl⟩ := List.mem_map.mp mine
    exact Registry.expiredUnparked sound timeout at_ i gone busy
  | releasing round =>
    simp only [Option.elim_some, Call.parks, List.map_cons, List.mem_cons, not_or] at free
    exact ⟨released free.1, free.2⟩
  | expired round held parks => exact ⟨busy, parks ▸ free⟩
  | loaded stored at_ => exact ⟨(Registry.loadGains r at_ stored).inFlight ▸ busy, List.not_mem_nil⟩
  | _ => exact ⟨busy, List.not_mem_nil⟩

end Turn

namespace Directory
variable {d e : Directory} {a : Action} {k : CallId} {c c' : Call} {past : List Stride} {s : Stride}

theorem dropIs (next : d.step (.abandon k) = some e) :
    ∃ c, d.call? k = some c ∧ c.abandonable = true ∧
      e = { d with registry := c.guarded?.elim d.registry d.registry.release,
                   calls := d.calls.filter (·.1 != k) } := by
  obtain ⟨c, found, next⟩ := Option.bind_eq_some_iff.mp next
  split at next
  · rename_i abandonable
    refine ⟨c, found, abandonable, ?_⟩
    cases next
    cases c.guarded? <;> rfl
  · cases next

theorem strandsHeld (found : d.call? k = some c) (e : Directory) :
    (⟨d, .abandon k, e⟩ : Stride).strands = c.held := by
  simp [Stride.strands, Stride.dropped?, found]

def Stuck (d : Directory) (id : String) : Prop :=
  id ∈ d.registry.inFlight ∧ ∀ x ∈ d.calls, id ∉ x.2.parks

theorem stuckStep (custody : d.Custody) {id : String} (h : d.Stuck id)
    (next : d.step a = some e) : e.Stuck id := by
  obtain ⟨k, before, after, told, happens⟩ := stepTurns custody.lined next
  obtain ⟨rest, was, is, known, _, _⟩ := happens.others custody.lined
  have free : id ∉ before.elim [] Call.parks := by
    cases before with
    | none => exact List.not_mem_nil
    | some c => exact h.2 (k, c) (was.mem_iff.mpr List.mem_cons_self)
  obtain ⟨busy, apart⟩ := turnStuck custody.sound happens.turn h.1 free
  refine ⟨busy, fun x mem => ?_⟩
  rcases List.mem_append.mp (is.mem_iff.mp mem) with mine | theirs
  · cases after with
    | none => cases mine
    | some c =>
      cases List.mem_singleton.mp mine
      exact apart
  · exact h.2 x (known x theirs)

structure Serving (past : List Stride) (d : Directory) : Prop where
  fresh : ∀ k, d.nextCall ≤ k → asked? past k = none
  serves : ∀ x ∈ d.calls, x.2.Serves (asked? past x.1)

theorem emptyServing (settings : DirectorySettings) : Serving [] (empty settings) :=
  ⟨fun _ _ => rfl, fun x mem => by cases mem⟩

namespace Serving

theorem still (h : Serving past d) (asks : s.asked = none) (grows : d.nextCall ≤ e.nextCall)
    (calls : ∀ x ∈ e.calls, x.2.Serves (asked? past x.1)) : Serving (past ++ [s]) e := by
  refine ⟨fun k late => ?_, fun x mem => ?_⟩
  · rw [Enters.asksNothing asks]
    exact h.fresh k (Nat.le_trans grows late)
  · rw [Enters.asksNothing asks]
    exact calls x mem

theorem begun (h : Serving past d) (lined : d.Lined) {request : Request}
    (asks : s.asked = some (d.nextCall, request)) (nextCall : e.nextCall = d.nextCall + 1)
    (calls : ∀ x ∈ e.calls, x ∈ d.calls ∨ x.1 = d.nextCall ∧ x.2.Serves (some request)) :
    Serving (past ++ [s]) e := by
  have others (k : CallId) (other : k ≠ d.nextCall) :
      asked? (past ++ [s]) k = asked? past k := by
    rw [askedNext]
    simp [asked?, asks, Ne.symm other]
  have own : asked? (past ++ [s]) d.nextCall = some request := by
    rw [askedNext, h.fresh _ (Nat.le_refl _)]
    simp [asked?, asks]
  refine ⟨fun k late => ?_, fun x mem => ?_⟩
  · have late : d.nextCall < k := Nat.lt_of_lt_of_le (nextCall ▸ Nat.lt_succ_self _) late
    rw [others k (Nat.ne_of_gt late)]
    exact h.fresh k (Nat.le_of_lt late)
  · rcases calls x mem with old | ⟨same, serves⟩
    · rw [others x.1 (Nat.ne_of_lt (lined.recent x old))]
      exact h.serves x old
    · rw [same, own]
      exact serves

theorem opened (h : Serving past d) (lined : d.Lined) {request : Request}
    (asks : s.asked = some (d.nextCall, request)) (calls : e.calls = d.calls ++ [(d.nextCall, c)])
    (nextCall : e.nextCall = d.nextCall + 1) (serves : c.Serves (some request)) :
    Serving (past ++ [s]) e := by
  refine h.begun lined asks nextCall ?_
  rw [calls]
  exact eachOpened (fun x mem => .inl mem) (.inr ⟨rfl, serves⟩)

theorem moved (h : Serving past d) (found : d.call? k = some c) (asks : s.asked = none)
    (calls : e.calls = (d.moveTo k c').calls) (nextCall : e.nextCall = d.nextCall)
    (turn : ∀ request, c.Serves request → c'.Serves request) : Serving (past ++ [s]) e := by
  refine h.still asks (Nat.le_of_eq nextCall.symm) ?_
  rw [calls]
  exact eachMoved (fun x mem _ => h.serves x mem) (turn _ (h.serves _ (memOfCall found)))

theorem left (h : Serving past d) (asks : s.asked = none)
    (calls : e.calls = d.calls.filter (·.1 != k)) (nextCall : e.nextCall = d.nextCall) :
    Serving (past ++ [s]) e := by
  refine h.still asks (Nat.le_of_eq nextCall.symm) ?_
  rw [calls]
  exact eachLeft fun x mem _ => h.serves x mem

end Serving

theorem servingStep (lined : d.Lined) (h : Serving past d) (next : d.step a = some e) :
    Serving (past ++ [⟨d, a, e⟩]) e := by
  cases stepDeed next with
  | refused => exact h.begun lined rfl rfl fun x => .inl
  | heard => exact h.begun lined rfl rfl fun x => .inl
  | broke => exact h.begun lined rfl rfl fun x => .inl
  | opened opens =>
    refine h.opened lined rfl rfl rfl ?_
    cases opens with
    | register => exact ⟨_, rfl, rfl⟩
    | sweep => exact rfl
    | bootstrap => exact rfl
  | removing => exact h.opened lined rfl rfl rfl rfl
  | starting => exact h.opened lined rfl rfl rfl rfl
  | closing => exact h.opened lined rfl rfl rfl rfl
  | ticked => exact h.opened lined rfl rfl rfl rfl
  | turnedAway => exact h.left rfl rfl rfl
  | reserved found => exact h.moved found rfl rfl rfl fun _ => id
  | entered found => exact h.moved found rfl rfl rfl fun _ _ => trivial
  | quieted found => exact h.moved found rfl rfl rfl fun _ => id
  | left found => exact h.moved found rfl rfl rfl fun _ _ => trivial
  | missed => exact h.left rfl rfl rfl
  | foundNone => exact h.left rfl rfl rfl
  | collected found => exact h.moved found rfl rfl rfl fun _ => id
  | hushed found => exact h.moved found rfl rfl rfl fun _ => id
  | releasing found => exact h.moved found rfl rfl rfl fun _ => id
  | expiredLast => exact h.left rfl rfl rfl
  | expired found => exact h.moved found rfl rfl rfl fun _ => id
  | loaded found => exact h.moved found rfl rfl rfl fun _ _ => trivial
  | told found => exact h.moved found rfl rfl rfl fun _ _ => trivial
  | silent => exact h.left rfl rfl rfl
  | launched => exact h.left rfl rfl rfl
  | drained found => exact h.moved found rfl rfl rfl fun _ => id
  | stilled found => exact h.moved found rfl rfl rfl fun _ => id
  | joined => exact h.left rfl rfl rfl
  | saved found => exact h.moved found rfl rfl rfl fun _ => id
  | unsaved => exact h.left rfl rfl rfl
  | deleted found => exact h.moved found rfl rfl rfl fun _ => id
  | purged found => exact h.moved found rfl rfl rfl fun _ => id
  | listed found => exact h.moved found rfl rfl rfl fun _ => id
  | unlisted => exact h.left rfl rfl rfl
  | given found => exact h.moved found rfl rfl rfl fun _ => id
  | dropped => exact h.left rfl rfl rfl
  | passed ofReport => exact h.still (asksReport ofReport _) (Nat.le_refl _) h.serves
  | ignored ofReport => exact h.still (asksReport ofReport _) (Nat.le_refl _) h.serves
  | moved ofReport =>
    exact h.still (asksReport ofReport _) (Nat.le_succ _) (eachOpened h.serves trivial)
  | _ => exact h.still rfl (Nat.le_refl _) h.serves

def Followed (k : CallId) (i : Instance) (d : Directory) : Prop :=
  (∃ c, (k, c) ∈ d.calls ∧ i ∈ c.held) ∨ ∃ now, .plain .expired i now ∈ d.log

namespace Followed
variable {i : Instance} {j : CallId}

theorem aside (h : Followed j i d) (calls : e.calls = d.calls) (log : e.log = d.log) :
    Followed j i e := by
  rw [Followed, calls, log]
  exact h

theorem opened (h : Followed j i d) {x : CallId × Call} (calls : e.calls = d.calls ++ [x])
    (log : e.log = d.log) : Followed j i e := by
  rw [Followed, calls, log]
  exact h.imp_left fun ⟨c, mem, held⟩ => ⟨c, List.mem_append_left _ mem, held⟩

theorem turned (h : Followed j i d) (lined : d.Lined) (found : d.call? k = some c)
    (others : ∀ x ∈ d.calls, x.1 ≠ k → x ∈ e.calls) (log : d.log ⊆ e.log)
    (mine : j = k → i ∈ c.held → Followed k i e) : Followed j i e := by
  rcases h with ⟨c', mem, held⟩ | ⟨now, told⟩
  · by_cases same : j = k
    · subst same
      cases (callOfMem lined mem).symm.trans found
      exact mine rfl held
    · exact .inl ⟨c', others _ mem same, held⟩
  · exact .inr ⟨now, log told⟩

theorem moved (h : Followed j i d) (lined : d.Lined) (found : d.call? k = some c)
    (calls : e.calls = (d.moveTo k c').calls) (log : e.log = d.log) (held : c.held ⊆ c'.held) :
    Followed j i e := by
  refine h.turned lined found (fun x mem other => ?_) (log ▸ List.Subset.refl _) fun _ mine => ?_
  · rw [calls]
    exact List.mem_map.mpr ⟨x, mem, by simp [other]⟩
  · exact .inl ⟨c', by rw [calls]; exact memMoved found, held mine⟩

theorem left (h : Followed j i d) (lined : d.Lined) (found : d.call? k = some c)
    (calls : e.calls = d.calls.filter (·.1 != k)) (log : e.log = d.log) (held : c.held = []) :
    Followed j i e := by
  refine h.turned lined found (fun x mem other => ?_) (log ▸ List.Subset.refl _) fun _ mine => ?_
  · rw [calls]
    exact List.mem_filter.mpr ⟨mem, by simpa using other⟩
  · rw [held] at mine
    cases mine

end Followed

theorem followedStep (lined : d.Lined) {i : Instance} {j : CallId} (h : Followed j i d)
    (kept : a ≠ .abandon j) (next : d.step a = some e) : Followed j i e := by
  cases stepDeed next with
  | opened => exact h.opened rfl rfl
  | removing => exact h.opened rfl rfl
  | starting => exact h.opened rfl rfl
  | closing => exact h.opened rfl rfl
  | ticked => exact h.opened rfl rfl
  | moved => exact h.opened rfl rfl
  | turnedAway found => exact h.left lined found rfl rfl rfl
  | reserved found => exact h.moved lined found rfl rfl (List.nil_subset _)
  | entered found => exact h.moved lined found rfl rfl (List.nil_subset _)
  | quieted found => exact h.moved lined found rfl rfl (List.nil_subset _)
  | left found => exact h.moved lined found rfl rfl (List.nil_subset _)
  | missed found => exact h.left lined found rfl rfl rfl
  | foundNone found => exact h.left lined found rfl rfl rfl
  | collected found => exact h.moved lined found rfl rfl (List.nil_subset _)
  | hushed found => exact h.moved lined found rfl rfl (List.Subset.refl _)
  | releasing found => exact h.moved lined found rfl rfl (List.Subset.refl _)
  | @expiredLast k round found last =>
    refine h.turned lined found (fun x mem other => List.mem_filter.mpr ⟨mem, by simpa using other⟩)
      (List.subset_append_left _ _) fun _ held => .inr ⟨d.clock, List.mem_append_right _ ?_⟩
    simp only [Call.held, last, List.mem_singleton] at held
    rw [held]
    exact List.mem_singleton_self _
  | @expired k round i' rest found more =>
    refine h.turned lined found (fun x mem other => List.mem_map.mpr ⟨x, mem, by simp [other]⟩)
      (List.subset_append_left _ _) fun _ held => ?_
    rcases List.mem_cons.mp held with rfl | later
    · exact .inr ⟨d.clock, List.mem_append_right _ (List.mem_singleton_self _)⟩
    · exact .inl ⟨_, memMoved found, by rwa [more] at later⟩
  | loaded found => exact h.moved lined found rfl rfl (List.nil_subset _)
  | told found =>
    exact h.turned lined found (fun x mem other => List.mem_map.mpr ⟨x, mem, by simp [other]⟩)
      (List.subset_append_left _ _) fun _ held => by cases held
  | silent found => exact h.left lined found rfl rfl rfl
  | launched found => exact h.left lined found rfl rfl rfl
  | drained found => exact h.moved lined found rfl rfl (List.nil_subset _)
  | stilled found => exact h.moved lined found rfl rfl (List.nil_subset _)
  | joined found => exact h.left lined found rfl rfl rfl
  | saved found => exact h.moved lined found rfl rfl (List.nil_subset _)
  | unsaved found => exact h.left lined found rfl rfl rfl
  | deleted found => exact h.moved lined found rfl rfl (List.nil_subset _)
  | purged found => exact h.moved lined found rfl rfl (List.Subset.refl _)
  | listed found => exact h.moved lined found rfl rfl (List.nil_subset _)
  | unlisted found => exact h.left lined found rfl rfl rfl
  | given found => exact h.moved lined found rfl rfl (List.nil_subset _)
  | dropped found =>
    exact h.turned lined found (fun x mem other => List.mem_filter.mpr ⟨mem, by simpa using other⟩)
      (List.Subset.refl _) fun same => absurd (congrArg _ same.symm) kept
  | _ => exact h.aside rfl rfl

theorem followedDrop (lined : d.Lined) {i : Instance} {j : CallId} (h : Followed j i d)
    (next : d.step (.abandon j) = some e) :
    Followed j i e ∨ i ∈ (⟨d, .abandon j, e⟩ : Stride).strands := by
  obtain ⟨c, found, _, rfl⟩ := dropIs next
  rcases h with ⟨c', mem, held⟩ | ⟨now, told⟩
  · cases (callOfMem lined mem).symm.trans found
    exact .inr (strandsHeld found _ ▸ held)
  · exact .inl (.inr ⟨now, told⟩)

theorem evictedFollowed (custody : d.Custody) (next : d.step a = some e) {p : Passage}
    (mem : p ∈ (⟨d, a, e⟩ : Stride).passages) (evicts : p.cause = .evicted) :
    Followed p.call p.record.snapshot e := by
  have right := (custodyStep custody next).sound
  obtain ⟨c, found, acts, rfl, gone⟩ := passageOf mem
  rw [evicts] at acts gone
  cases c with
  | collecting at_ =>
    simp only [step, proceed, found, Option.bind_some, proceedWith, Option.some.injEq] at next
    rcases expires : d.registry.expire d.settings.heartbeatTimeout at_ with ⟨s, took⟩
    have registry : e.registry = s := by
      rw [← next, collect, expires]
      cases took <;> rfl
    have taken : p.record.snapshot ∈ took.map (·.snapshot) := by
      obtain ⟨loses, _⟩ := Registry.expireLoses custody.sound expires
      rw [← registry] at loses
      exact (loses.departed custody.sound right).mem_iff.mp (List.mem_map_of_mem gone)
    cases took with
    | nil => cases taken
    | cons y rest =>
      have calls : e.calls = (d.moveTo p.call (.hushing ((y :: rest).filterMap Expiry.loop)
          ⟨y.snapshot, rest.map (·.snapshot), (rest.map (·.snapshot)).length + 1⟩)).calls := by
        rw [← next, collect, expires]
        rfl
      refine .inl ⟨_, calls ▸ memMoved found, ?_⟩
      exact taken
  | _ => cases acts

structure Stranding (past : List Stride) (d : Directory) : Prop where
  custody : d.Custody
  serving : Serving past d
  parked : d.ParkedBut ((stranded past).map (·.id))
  stuck : ∀ i ∈ stranded past, d.Stuck i.id
  evicted : ∀ p ∈ ledger past, p.cause = .evicted → Followed p.call p.record.snapshot d ∨
    ∃ s ∈ past, s.action = .abandon p.call ∧ p.record.snapshot ∈ s.strands

theorem emptyStranding (settings : DirectorySettings) : Stranding [] (empty settings) where
  custody := emptyCustody settings
  serving := emptyServing settings
  parked := parkedIff.mp (emptyParked settings)
  stuck i mem := by cases mem
  evicted p mem := by cases mem

theorem heldUnguarded {i : Instance} (abandonable : c.abandonable = true) (mem : i ∈ c.held) :
    c.guarded? = none ∧ i.id ∈ c.parks := by
  cases c with
  | hushing loops round => exact ⟨rfl, List.mem_map_of_mem mem⟩
  | purging round => exact ⟨rfl, List.mem_map_of_mem mem⟩
  | releasing round => cases abandonable
  | expiring round => cases abandonable
  | _ => cases mem

theorem parksGuarded {id : String} (abandonable : c.abandonable = true) (mem : id ∈ c.parks) :
    c.guarded? = some id ∨ id ∈ c.held.map (·.id) := by
  cases c with
  | saving i => exact .inl (congrArg some (List.mem_singleton.mp mem).symm)
  | quieting target loop => exact .inl (congrArg some (List.mem_singleton.mp mem).symm)
  | deleting target => exact .inl (congrArg some (List.mem_singleton.mp mem).symm)
  | hushing loops round => exact .inr mem
  | purging round => exact .inr mem
  | entering i => cases abandonable
  | leaving target => cases abandonable
  | releasing round => cases abandonable
  | expiring round => cases abandonable
  | _ => cases mem

theorem strandsStuck (custody : d.Custody) (next : d.step (.abandon k) = some e) :
    ∀ i ∈ (⟨d, .abandon k, e⟩ : Stride).strands, e.Stuck i.id := by
  obtain ⟨c, found, abandonable, rfl⟩ := dropIs next
  rw [strandsHeld found]
  intro i mem
  obtain ⟨unguarded, parks⟩ := heldUnguarded abandonable mem
  have known := memOfCall found
  refine ⟨?_, eachLeft fun x hx other => parksApart custody known hx (Ne.symm other) parks⟩
  rw [unguarded]
  exact custody.kept.inFlight _ (List.mem_flatMap.mpr ⟨_, known, parks⟩)

theorem ParkedBut.dropped {strays : List String} (h : d.ParkedBut strays) (lined : d.Lined)
    (next : d.step (.abandon k) = some e) :
    e.ParkedBut (strays ++ (⟨d, .abandon k, e⟩ : Stride).strands.map (·.id)) := by
  obtain ⟨c, found, abandonable, rfl⟩ := dropIs next
  rw [strandsHeld found]
  intro id mem
  have old : id ∈ d.registry.inFlight ∧ c.guarded? ≠ some id := by
    cases guarded : c.guarded? with
    | none => exact ⟨by simpa [guarded] using mem, nofun⟩
    | some target =>
      rw [guarded] at mem
      obtain ⟨was, other⟩ := releasedInFlight mem
      exact ⟨was, fun same => other (List.mem_singleton.mpr (Option.some.inj same).symm)⟩
  by_cases mine : id ∈ c.parks
  · exact .inr (List.mem_append_right _ ((parksGuarded abandonable mine).resolve_left old.2))
  · exact (h id old.1).imp (someLeft (P := (id ∈ ·.parks)) lined found mine)
      (List.mem_append_left _)

theorem strandingStep {s : Stride} (h : Stranding past s.before)
    (next : s.before.step s.action = some s.after) : Stranding (past ++ [s]) s.after := by
  have lined := h.custody.lined
  obtain ⟨d, a, e⟩ := s
  refine ⟨custodyStep h.custody next, servingStep lined h.serving next, ?_, ?_, fun p mem evicts => ?_⟩
  · rw [strandedNext, List.map_append]
    cases kept : a.abandons with
    | false =>
      rw [Stride.strandsNone kept, List.map_nil, List.append_nil]
      exact parkedButStep h.custody h.parked kept next
    | true =>
      cases a with
      | abandon k => exact h.parked.dropped lined next
      | _ => cases kept
  · rw [strandedNext]
    intro i mem
    rcases List.mem_append.mp mem with old | new
    · exact stuckStep h.custody (h.stuck i old) next
    · cases kept : a.abandons with
      | false =>
        rw [Stride.strandsNone kept] at new
        cases new
      | true =>
        cases a with
        | abandon k => exact strandsStuck h.custody next i new
        | _ => cases kept
  · rw [ledgerNext] at mem
    have later {t : Stride} (inside : t ∈ past) : t ∈ past ++ [⟨d, a, e⟩] :=
      List.mem_append_left _ inside
    rcases List.mem_append.mp mem with old | new
    · rcases h.evicted p old evicts with followed | ⟨t, inside, drops, held⟩
      · by_cases own : a = .abandon p.call
        · subst own
          refine (followedDrop lined followed next).imp_right fun held => ?_
          exact ⟨_, List.mem_append_right _ (List.mem_singleton_self _), rfl, held⟩
        · exact .inl (followedStep lined followed own next)
      · exact .inr ⟨t, later inside, drops, held⟩
    · exact .inl (evictedFollowed h.custody next new evicts)

/-- What is in flight belongs to calls under way, but for what sweeps that were dropped have left
there for good. -/
structure Unleaked (past : List Stride) (d : Directory) : Prop where
  inFlight : ∀ id, id ∈ d.registry.inFlight ↔
    (∃ x ∈ d.calls, id ∈ x.2.parks) ∨ id ∈ (stranded past).map (·.id)
  parkers : ∀ x ∈ d.calls, ∀ id ∈ x.2.parks,
    ∃ request, asked? past x.1 = some request ∧ request.Parks id
  admits : ∀ k i, d.call? k = some (.admitting i) → d.registry.get? i.id = none →
    (∀ x ∈ d.calls, i.id ∉ x.2.parks) → i.id ∉ (stranded past).map (·.id) →
    d.step (.proceed k) = some ({ d with registry := d.registry.park i.id }.moveTo k
      (.saving (Registry.stamped i d.clock)))
  evicted : ∀ p ∈ ledger past, p.cause = .evicted → Followed p.call p.record.snapshot d ∨
    ∃ s ∈ past, s.action = .abandon p.call ∧ p.record.snapshot ∈ s.strands

/-- Whichever calls are dropped and wherever they wait, only a sweep that is dropped leaves ids in
flight and instances taken out that nobody is told of: those it had taken out and not told of. -/
theorem onlyDroppedSweepsStrand {settings : DirectorySettings} {actions : List Action}
    (run : (empty settings).steps actions = some d) :
    Unleaked ((empty settings).trail actions) d := by
  have h : Stranding ((empty settings).trail actions) d :=
    trailKeeps (emptyStranding settings) run fun s _ next _ h => strandingStep h next
  have inFlight (id : String) : id ∈ d.registry.inFlight ↔ (∃ x ∈ d.calls, id ∈ x.2.parks) ∨
      id ∈ (stranded ((empty settings).trail actions)).map (·.id) := by
    refine ⟨h.parked id, ?_⟩
    rintro (⟨x, mem, parks⟩ | left)
    · exact h.custody.kept.inFlight id (List.mem_flatMap.mpr ⟨x, mem, parks⟩)
    · obtain ⟨i, mem, rfl⟩ := List.mem_map.mp left
      exact (h.stuck i mem).1
  refine ⟨inFlight, fun x mem id => Call.servesParks (h.serving.serves x mem),
    fun k i found gone free unstranded => ?_, h.evicted⟩
  have vacant : d.registry.records.get? i.id = none := by simpa [Registry.get?] using gone
  have out : i.id ∉ d.registry.inFlight := fun busy =>
    ((inFlight i.id).mp busy).elim (fun ⟨x, mem, parks⟩ => free x mem parks) unstranded
  have room := (Registry.freeIff d.registry i.id).mpr ⟨vacant, out⟩
  simp [step, proceed, found, proceedWith, reserve, Registry.reserve, room]

def drops : List Action :=
  [.begin (.register (.fresh "a" "web" "h:1" .origin)), .proceed 0, .abandon 0,
    .begin (.register (.fresh "a" "web" "h:1" .origin)), .proceed 1, .settle 1 none, .proceed 1,
    .proceed 1, .proceed 1,
    .begin (.deregister "a"), .proceed 2, .abandon 2, .pass 100000,
    .begin (.register (.fresh "b" "web" "h:2" .origin)), .proceed 3,
    .begin .sweep, .proceed 4, .proceed 4, .abandon 4]

theorem dropsStrand :
    ∃ d, (empty Settings.standard.directory).steps drops = some d ∧
      (stranded ((empty Settings.standard.directory).trail drops)).map (·.id) = ["a"] ∧
      d.registry.inFlight = ["a", "b"] ∧
      Unleaked ((empty Settings.standard.directory).trail drops) d := by
  obtain ⟨d, run, inFlight⟩ : ∃ d,
      (empty Settings.standard.directory).steps drops = some d ∧
        d.registry.inFlight = ["a", "b"] := ⟨_, rfl, by decide +kernel⟩
  exact ⟨d, run, by decide +kernel, inFlight, onlyDroppedSweepsStrand run⟩

def halfSwept : List Action :=
  [.begin (.register (.fresh "a" "web" "h:1" .origin)), .proceed 0, .settle 0 none, .proceed 0,
    .proceed 0, .proceed 0, .pass 100000, .begin .sweep, .proceed 1, .proceed 1, .abandon 1,
    .begin (.register (.fresh "a" "web" "h:1" .origin)), .proceed 2]

theorem droppedSweepBlocks :
    ∃ d, (empty Settings.standard.directory).steps halfSwept = some d ∧
      d.calls = [] ∧ d.registry.get? "a" = none ∧ "a" ∈ d.registry.inFlight ∧
      d.ending? 2 = some (.error (Registry.alreadyRegistered "a")) ∧
      (∃ p ∈ ledger ((empty Settings.standard.directory).trail halfSwept),
        p.cause = .evicted ∧ ¬Followed p.call p.record.snapshot d) := by
  obtain ⟨d, run, calls, gone, busy, refused, told, passed⟩ : ∃ d,
      (empty Settings.standard.directory).steps halfSwept = some d ∧
      d.calls = [] ∧ d.registry.get? "a" = none ∧ "a" ∈ d.registry.inFlight ∧
      d.ending? 2 = some (.error (Registry.alreadyRegistered "a")) ∧
      (∀ f ∈ d.log, f.kind ≠ .expired) ∧
      (ledger ((empty Settings.standard.directory).trail halfSwept)).any
        (·.cause == .evicted) = true :=
    ⟨_, rfl, by decide +kernel, by decide +kernel, by decide +kernel, rfl, by decide +kernel,
      by decide +kernel⟩
  obtain ⟨p, mem, evicts⟩ := List.any_eq_true.mp passed
  refine ⟨d, run, calls, gone, busy, refused, p, mem, by simpa using evicts, ?_⟩
  rintro (⟨c, held, _⟩ | ⟨now, published⟩)
  · rw [calls] at held
    cases held
  · exact told _ published rfl

end Directory
end ServiceDirectory
