import ServiceDirectory.Proofs.Ledger
import ServiceDirectory.Settings.Effective

/-! What every call was asked for and answers, against what the ledger has of it: a call that answers
has entered just what it answers, one that fails has entered nothing. -/
namespace ServiceDirectory
open Registry (Gains Loses)

def Stride.asked (s : Stride) : Option (CallId × Request) :=
  match s.action with
  | .begin request => some (s.before.nextCall, request)
  | .sweepTick => some (s.before.nextCall, .sweep)
  | _ => none

def asked? (past : List Stride) (k : CallId) : Option Request :=
  ((past.filterMap Stride.asked).find? (·.1 == k)).map (·.2)

abbrev Entry := Cause × Instance

def Passage.entry (p : Passage) : Entry := (p.cause, p.record.snapshot)

def accounts (past : List Stride) (k : CallId) : List Entry :=
  ((ledger past).filter (·.call == k)).map Passage.entry

inductive Reckons : Option Request → Except Failure Answer → List Entry → Prop where
  | failed {request : Option Request} {failure : Failure} : Reckons request (.error failure) []
  | registered {i j : Instance} (same : i.id = j.id) :
      Reckons (some (.register j)) (.ok (.instance i)) [(.registered, i)]
  | deregistered {i : Instance} {id : String} (own : i.id = id) :
      Reckons (some (.deregister id)) (.ok (.instance i)) [(.deregistered, i)]
  | heard {id : String} : Reckons (some (.heartbeat id)) (.ok .done) []
  | swept {entries : List Entry} (evicted : ∀ entry ∈ entries, entry.1 = .evicted) :
      Reckons (some .sweep) (.ok (.count entries.length)) entries
  | loaded {entries : List Entry} (loaded : ∀ entry ∈ entries, entry.1 = .loaded) :
      Reckons (some .bootstrap) (.ok (.count entries.length)) entries
  | started {answer : Answer} : Reckons (some .start) (.ok answer) []
  | shut : Reckons (some .shutdown) (.ok .done) []
  | reported : Reckons none (.ok .done) []

structure Takes (entries : List Entry) (round : Round) : Prop where
  evicted : ∀ entry ∈ entries, entry.1 = .evicted
  total : entries.length = round.total

inductive Stands : Option Request → Call → List Entry → Prop where
  | admitting {i : Instance} : Stands (some (.register i)) (.admitting i) []
  | saving {i j : Instance} (same : i.id = j.id) : Stands (some (.register j)) (.saving i) []
  | entering {i j : Instance} (same : i.id = j.id) : Stands (some (.register j)) (.entering i) []
  | quieting {id : String} {loop : Option Nat} :
      Stands (some (.deregister id)) (.quieting id loop) []
  | deleting {id : String} : Stands (some (.deregister id)) (.deleting id) []
  | leaving {id : String} : Stands (some (.deregister id)) (.leaving id) []
  | collecting {at_ : Timestamp} : Stands (some .sweep) (.collecting at_) []
  | hushing {loops : List Nat} {round : Round} {entries : List Entry}
      (takes : Takes entries round) : Stands (some .sweep) (.hushing loops round) entries
  | purging {round : Round} {entries : List Entry} (takes : Takes entries round) :
      Stands (some .sweep) (.purging round) entries
  | releasing {round : Round} {entries : List Entry} (takes : Takes entries round) :
      Stands (some .sweep) (.releasing round) entries
  | expiring {round : Round} {entries : List Entry} (takes : Takes entries round) :
      Stands (some .sweep) (.expiring round) entries
  | listing : Stands (some .bootstrap) .listing []
  | loading {stored : List Instance} {at_ : Timestamp} :
      Stands (some .bootstrap) (.loading stored at_) []
  | announcing {request : Option Request} {notices : List Notice} {answer : Answer}
      {entries : List Entry} (reckons : Reckons request (.ok answer) entries) :
      Stands request (.announcing notices answer) entries
  | launching : Stands (some .start) .launching []
  | draining : Stands (some .shutdown) .draining []
  | stilling {loops : List Nat} : Stands (some .shutdown) (.stilling loops) []
  | joining {waits : Bool} : Stands (some .shutdown) (.joining waits) []

theorem askedNext (past : List Stride) (s : Stride) (k : CallId) :
    asked? (past ++ [s]) k = (asked? past k).or (asked? [s] k) := by
  simp [asked?, Option.map_or]

theorem accountsNext (past : List Stride) (s : Stride) (k : CallId) :
    accounts (past ++ [s]) k = accounts past k ++ accounts [s] k := by
  simp [accounts, ledger]

structure Enters (past : List Stride) (s : Stride) (k : CallId) (request : Option Request)
    (entries : List Entry) : Prop where
  asks : asked? (past ++ [s]) k = request
  sums : accounts (past ++ [s]) k = entries
  others : ∀ j, j ≠ k →
    asked? (past ++ [s]) j = asked? past j ∧ accounts (past ++ [s]) j = accounts past j
  own : ∀ p ∈ s.passages, p.call = k

namespace Enters
variable {past : List Stride} {s : Stride} {k : CallId}

theorem asksNothing (asks : s.asked = none) (j : CallId) :
    asked? (past ++ [s]) j = asked? past j := by
  rw [askedNext]
  simp [asked?, asks]

theorem passages (asks : s.asked = none) (own : ∀ p ∈ s.passages, p.call = k) :
    Enters past s k (asked? past k) (accounts past k ++ s.passages.map Passage.entry) := by
  refine ⟨asksNothing asks k, ?_, fun j other => ⟨asksNothing asks j, ?_⟩, own⟩ <;>
    rw [accountsNext]
  · have mine : s.passages.filter (·.call == k) = s.passages :=
      List.filter_eq_self.mpr fun p mem => by simp [own p mem]
    simp [accounts, ledger, mine]
  · have none : s.passages.filter (·.call == j) = [] :=
      List.filter_eq_nil_iff.mpr fun p mem => by simp [own p mem, Ne.symm other]
    simp [accounts, ledger, none]

theorem nothing (asks : s.asked = none) (passes : s.passages = []) (k : CallId) :
    Enters past s k (asked? past k) (accounts past k) := by
  have enters : Enters past s k _ _ := .passages asks (by simp [passes])
  simpa [passes] using enters

theorem unasked (asks : s.asked = none) (passes : s.passages = [])
    (fresh : asked? past k = none ∧ accounts past k = []) : Enters past s k none [] := by
  have enters : Enters past s k _ _ := nothing asks passes k
  rwa [fresh.1, fresh.2] at enters

theorem request {request : Request} (asks : s.asked = some (k, request)) (passes : s.passages = [])
    (fresh : asked? past k = none ∧ accounts past k = []) :
    Enters past s k (some request) [] := by
  have same (j : CallId) : accounts (past ++ [s]) j = accounts past j := by
    rw [accountsNext]
    simp [accounts, ledger, passes]
  refine ⟨?_, (same k).trans fresh.2, fun j other => ⟨?_, same j⟩, by simp [passes]⟩ <;>
    rw [askedNext]
  · rw [fresh.1]
    simp [asked?, asks]
  · simp [asked?, asks, Ne.symm other]

end Enters

namespace Directory
variable {d e : Directory} {a : Action} {k : CallId} {c c' : Call} {past : List Stride} {s : Stride}
  {request : Option Request} {entries : List Entry} {result : Except Failure Answer}

structure Booked (past : List Stride) (d : Directory) : Prop where
  fresh : ∀ k, d.nextCall ≤ k → asked? past k = none ∧ accounts past k = []
  stands : ∀ x ∈ d.calls, Stands (asked? past x.1) x.2 (accounts past x.1)
  reckons : ∀ g ∈ d.endings, Reckons (asked? past g.call) g.result (accounts past g.call)
  finished : ∀ g ∈ d.endings, g.call < d.nextCall ∧ ∀ x ∈ d.calls, x.1 ≠ g.call
  once : (d.endings.map (·.call)).Nodup
  known : ∀ p ∈ ledger past, (∃ x ∈ d.calls, x.1 = p.call) ∨ ∃ g ∈ d.endings, g.call = p.call

theorem emptyBooked (settings : DirectorySettings) : Booked [] (empty settings) where
  fresh k _ := ⟨rfl, rfl⟩
  stands x mem := by cases mem
  reckons g mem := by cases mem
  finished g mem := by cases mem
  once := .nil
  known p mem := by cases mem

namespace Booked

theorem aside (h : Booked past d) (asks : s.asked = none) (passes : s.passages = [])
    (calls : e.calls = d.calls) (endings : e.endings = d.endings)
    (nextCall : e.nextCall = d.nextCall) : Booked (past ++ [s]) e := by
  have same (j : CallId) :
      asked? (past ++ [s]) j = asked? past j ∧ accounts (past ++ [s]) j = accounts past j :=
    have enters : Enters past s j _ _ := .nothing asks passes j
    ⟨enters.asks, enters.sums⟩
  refine ⟨fun k late => ?_, fun x mem => ?_, fun g mem => ?_, ?_, endings ▸ h.once, ?_⟩
  · rw [(same k).1, (same k).2]
    exact h.fresh k (nextCall ▸ late)
  · rw [(same _).1, (same _).2]
    exact h.stands x (calls ▸ mem)
  · rw [(same _).1, (same _).2]
    exact h.reckons g (endings ▸ mem)
  · rw [calls, endings, nextCall]
    exact h.finished
  · rw [ledgerNext, passes, List.append_nil, calls, endings]
    exact h.known

theorem through (h : Booked past d) (enters : Enters past s k request entries)
    (grows : d.nextCall ≤ e.nextCall) (named : k < e.nextCall)
    (calls : ∀ x ∈ e.calls, x ∈ d.calls ∧ x.1 ≠ k ∨ x.1 = k ∧ Stands request x.2 entries)
    (endings : ∀ g ∈ e.endings, g ∈ d.endings ∧ g.call ≠ k ∨
      g.call = k ∧ Reckons request g.result entries ∧ ∀ x ∈ e.calls, x.1 ≠ k)
    (once : (e.endings.map (·.call)).Nodup) (stays : ∀ x ∈ d.calls, x.1 ≠ k → x ∈ e.calls)
    (keeps : d.endings ⊆ e.endings)
    (there : k ∈ d.calls.map (·.1) ∨ s.passages ≠ [] →
      (∃ x ∈ e.calls, x.1 = k) ∨ ∃ g ∈ e.endings, g.call = k) : Booked (past ++ [s]) e := by
  refine ⟨fun j late => ?_, fun x mem => ?_, fun g mem => ?_, fun g mem => ?_, once, fun p mem => ?_⟩
  · have other := enters.others j (Nat.ne_of_gt (Nat.lt_of_lt_of_le named late))
    rw [other.1, other.2]
    exact h.fresh j (Nat.le_trans grows late)
  · rcases calls x mem with ⟨old, apart⟩ | ⟨rfl, stands⟩
    · rw [(enters.others x.1 apart).1, (enters.others x.1 apart).2]
      exact h.stands x old
    · rw [enters.asks, enters.sums]
      exact stands
  · rcases endings g mem with ⟨old, apart⟩ | ⟨rfl, reckons, _⟩
    · rw [(enters.others g.call apart).1, (enters.others g.call apart).2]
      exact h.reckons g old
    · rw [enters.asks, enters.sums]
      exact reckons
  · rcases endings g mem with ⟨old, apart⟩ | ⟨rfl, _, gone⟩
    · refine ⟨Nat.lt_of_lt_of_le (h.finished g old).1 grows, fun x hx => ?_⟩
      rcases calls x hx with ⟨known, _⟩ | ⟨same, _⟩
      · exact (h.finished g old).2 x known
      · exact same ▸ Ne.symm apart
    · exact ⟨named, gone⟩
  · rw [ledgerNext] at mem
    rcases List.mem_append.mp mem with old | new
    · rcases h.known p old with ⟨x, hx, same⟩ | ⟨g, hg, same⟩
      · by_cases own : x.1 = k
        · rw [← same, own]
          exact there (.inl (own ▸ List.mem_map_of_mem hx))
        · exact .inl ⟨x, stays x hx own, same⟩
      · exact .inr ⟨g, keeps hg, same⟩
    · rw [enters.own p new]
      exact there (.inr (List.ne_nil_of_mem new))

theorem opened (h : Booked past d) (lined : d.Lined)
    (enters : Enters past s d.nextCall request []) (calls : e.calls = d.calls ++ [(d.nextCall, c)])
    (endings : e.endings = d.endings) (nextCall : e.nextCall = d.nextCall + 1)
    (stands : Stands request c []) : Booked (past ++ [s]) e := by
  have own : (d.nextCall, c) ∈ e.calls := by rw [calls]; exact List.mem_append_right _ (by simp)
  refine h.through enters (nextCall ▸ Nat.le_succ _) (nextCall ▸ Nat.lt_succ_self _) ?_
    (fun g mem => ?_) (endings ▸ h.once) (fun x mem _ => ?_) (endings ▸ fun _ mem => mem)
    fun _ => .inl ⟨_, own, rfl⟩
  · rw [calls]
    exact eachOpened (fun x mem => .inl ⟨mem, Nat.ne_of_lt (lined.recent x mem)⟩) (.inr ⟨rfl, stands⟩)
  · rw [endings] at mem
    exact .inl ⟨mem, Nat.ne_of_lt (h.finished g mem).1⟩
  · rw [calls]
    exact List.mem_append_left _ mem

theorem answering (h : Booked past d) (enters : Enters past s k request entries)
    (grows : d.nextCall ≤ e.nextCall) (named : k < e.nextCall)
    (early : ∀ g ∈ d.endings, g.call ≠ k) (others : ∀ x ∈ e.calls, x ∈ d.calls ∧ x.1 ≠ k)
    (stays : ∀ x ∈ d.calls, x.1 ≠ k → x ∈ e.calls)
    (endings : e.endings = ⟨k, result⟩ :: d.endings) (reckons : Reckons request result entries) :
    Booked (past ++ [s]) e := by
  refine h.through enters grows named (fun x mem => .inl (others x mem)) ?_ ?_ stays
    (endings ▸ List.subset_cons_self _ _) fun _ => .inr ⟨_, endings ▸ List.mem_cons_self, rfl⟩
  · rw [endings]
    refine List.forall_mem_cons.mpr ⟨.inr ⟨rfl, reckons, fun x mem => (others x mem).2⟩, ?_⟩
    exact fun g mem => .inl ⟨mem, early g mem⟩
  · rw [endings]
    refine List.nodup_cons.mpr ⟨fun mem => ?_, h.once⟩
    obtain ⟨g, hg, same⟩ := List.mem_map.mp mem
    exact early g hg same

theorem answered (h : Booked past d) (lined : d.Lined)
    (enters : Enters past s d.nextCall request []) (calls : e.calls = d.calls)
    (endings : e.endings = ⟨d.nextCall, result⟩ :: d.endings)
    (nextCall : e.nextCall = d.nextCall + 1) (reckons : Reckons request result []) :
    Booked (past ++ [s]) e :=
  h.answering enters (nextCall ▸ Nat.le_succ _) (nextCall ▸ Nat.lt_succ_self _)
    (fun g mem => Nat.ne_of_lt (h.finished g mem).1)
    (fun x mem => ⟨calls ▸ mem, Nat.ne_of_lt (lined.recent x (calls ▸ mem))⟩)
    (fun _ mem _ => calls ▸ mem) endings reckons

theorem moved (h : Booked past d) (found : d.call? k = some c)
    (enters : Enters past s k request entries) (calls : e.calls = (d.moveTo k c').calls)
    (endings : e.endings = d.endings) (nextCall : e.nextCall = d.nextCall)
    (stands : Stands request c' entries) (lined : d.Lined) : Booked (past ++ [s]) e := by
  have mine := memOfCall found
  refine h.through enters (Nat.le_of_eq nextCall.symm) (nextCall ▸ lined.recent _ mine) ?_
    (fun g mem => ?_) (endings ▸ h.once) (fun x mem other => ?_) (endings ▸ fun _ mem => mem)
    fun _ => .inl ⟨(k, c'), by rw [calls]; exact memMoved found, rfl⟩
  · rw [calls]
    exact eachMoved (fun x mem apart => .inl ⟨mem, apart⟩) (.inr ⟨rfl, stands⟩)
  · rw [endings] at mem
    exact .inl ⟨mem, fun same => (h.finished g mem).2 _ mine same.symm⟩
  · rw [calls]
    exact List.mem_map.mpr ⟨x, mem, by simp [other]⟩

theorem ended (h : Booked past d) (found : d.call? k = some c)
    (enters : Enters past s k request entries) (calls : e.calls = d.calls.filter (·.1 != k))
    (endings : e.endings = ⟨k, result⟩ :: d.endings) (nextCall : e.nextCall = d.nextCall)
    (reckons : Reckons request result entries) (lined : d.Lined) : Booked (past ++ [s]) e := by
  have mine := memOfCall found
  refine h.answering enters (Nat.le_of_eq nextCall.symm) (nextCall ▸ lined.recent _ mine)
    (fun g mem same => (h.finished g mem).2 _ mine same.symm) ?_ (fun x mem other => ?_) endings
    reckons
  · rw [calls]
    exact eachLeft fun x mem apart => ⟨mem, apart⟩
  · rw [calls]
    exact List.mem_filter.mpr ⟨mem, by simpa using other⟩

theorem passed (h : Booked past d) (lined : d.Lined) (found : d.call? k = some c)
    (own : ∀ p ∈ (⟨d, .proceed k, e⟩ : Stride).passages, p.call = k)
    (calls : e.calls = (d.moveTo k c').calls) (endings : e.endings = d.endings)
    (nextCall : e.nextCall = d.nextCall)
    (turn : ∀ request entries, Stands request c entries →
      Stands request c' (entries ++ (⟨d, .proceed k, e⟩ : Stride).passages.map Passage.entry)) :
    Booked (past ++ [⟨d, .proceed k, e⟩]) e :=
  h.moved found (.passages rfl own) calls endings nextCall
    (turn _ _ (h.stands _ (memOfCall found))) lined

theorem settled (h : Booked past d) (lined : d.Lined) (found : d.call? k = some c)
    (own : ∀ p ∈ (⟨d, .proceed k, e⟩ : Stride).passages, p.call = k)
    (calls : e.calls = d.calls.filter (·.1 != k))
    (endings : e.endings = ⟨k, result⟩ :: d.endings) (nextCall : e.nextCall = d.nextCall)
    (turn : ∀ request entries, Stands request c entries → Reckons request result
      (entries ++ (⟨d, .proceed k, e⟩ : Stride).passages.map Passage.entry)) :
    Booked (past ++ [⟨d, .proceed k, e⟩]) e :=
  h.ended found (.passages rfl own) calls endings nextCall
    (turn _ _ (h.stands _ (memOfCall found))) lined

theorem along (h : Booked past d) (lined : d.Lined) (found : d.call? k = some c)
    (asks : s.asked = none) (passes : s.passages = [])
    (calls : e.calls = (d.moveTo k c').calls) (endings : e.endings = d.endings)
    (nextCall : e.nextCall = d.nextCall)
    (turn : ∀ request entries, Stands request c entries → Stands request c' entries) :
    Booked (past ++ [s]) e :=
  h.moved found (.nothing asks passes k) calls endings nextCall
    (turn _ _ (h.stands _ (memOfCall found))) lined

theorem closed (h : Booked past d) (lined : d.Lined) (found : d.call? k = some c)
    (asks : s.asked = none) (passes : s.passages = [])
    (calls : e.calls = d.calls.filter (·.1 != k))
    (endings : e.endings = ⟨k, result⟩ :: d.endings) (nextCall : e.nextCall = d.nextCall)
    (turn : ∀ request entries, Stands request c entries → Reckons request result entries) :
    Booked (past ++ [s]) e :=
  h.ended found (.nothing asks passes k) calls endings nextCall
    (turn _ _ (h.stands _ (memOfCall found))) lined

end Booked

theorem gainedEntries (found : d.call? k = some c) {cause : Cause} (acts : c.cause? = some cause)
    (arrives : cause.arrives = true) {came : List Instance}
    (gained : ((e.registry.without d.registry).map (·.snapshot)).Perm came) :
    ((⟨d, .proceed k, e⟩ : Stride).passages.map Passage.entry).Perm (came.map (cause, ·)) := by
  have entries := gained.map ((cause, ·) : Instance → Entry)
  rw [List.map_map] at entries
  rw [passagesOf found acts, Stride.passing, if_pos arrives, List.map_map]
  exact entries

theorem lostEntries (found : d.call? k = some c) {cause : Cause} (acts : c.cause? = some cause)
    (departs : cause.arrives = false) {went : List Instance}
    (lost : ((d.registry.without e.registry).map (·.snapshot)).Perm went) :
    ((⟨d, .proceed k, e⟩ : Stride).passages.map Passage.entry).Perm (went.map (cause, ·)) := by
  have entries := lost.map ((cause, ·) : Instance → Entry)
  rw [List.map_map] at entries
  rw [passagesOf found acts, Stride.passing, departs, List.map_map]
  exact entries

theorem asksReport (ofReport : a = .applyNext ∨ ∃ report, a = .applyDirect report)
    (e : Directory) : (⟨d, a, e⟩ : Stride).asked = none := by
  rcases ofReport with rfl | ⟨report, rfl⟩ <;> rfl

theorem passagesOwn (d e : Directory) (k : CallId) :
    ∀ p ∈ (⟨d, .proceed k, e⟩ : Stride).passages, p.call = k := by
  intro p mem
  simp only [Stride.passages] at mem
  split at mem
  · obtain ⟨x, _, rfl⟩ := List.mem_map.mp mem
    rfl
  · cases mem

namespace Booked

theorem begun {request : Request} (h : Booked past d) (lined : d.Lined)
    (next : d.step (.begin request) = some e) : Booked (past ++ [⟨d, .begin request, e⟩]) e := by
  have new := h.fresh d.nextCall (Nat.le_refl _)
  cases stepDeed next with
  | refused => exact h.answered lined (.request rfl rfl new) rfl rfl rfl .failed
  | heard => exact h.answered lined (.request rfl rfl new) rfl rfl rfl .heard
  | broke => exact h.answered lined (.request rfl rfl new) rfl rfl rfl .started
  | opened opens =>
    refine h.opened lined (.request rfl rfl new) rfl rfl rfl ?_
    cases opens with
    | register => exact .admitting
    | sweep => exact .collecting
    | bootstrap => exact .listing
  | removing => exact h.opened lined (.request rfl rfl new) rfl rfl rfl .quieting
  | starting => exact h.opened lined (.request rfl rfl new) rfl rfl rfl .launching
  | closing => exact h.opened lined (.request rfl rfl new) rfl rfl rfl .draining
  | passed ofReport | ignored ofReport | moved ofReport => simp at ofReport

theorem storeAnswered {failure : Option Failure} (h : Booked past d) (lined : d.Lined)
    (next : d.step (.settle k failure) = some e) :
    Booked (past ++ [⟨d, .settle k failure, e⟩]) e := by
  cases stepDeed next with
  | saved found =>
    exact h.along lined found rfl rfl rfl rfl rfl
      fun _ _ stands => by cases stands with | saving same => exact .entering same
  | deleted found =>
    exact h.along lined found rfl rfl rfl rfl rfl fun _ _ stands => by cases stands; exact .leaving
  | purged found =>
    exact h.along lined found rfl rfl rfl rfl rfl
      fun _ _ stands => by cases stands with | purging takes => exact .releasing takes
  | listed found =>
    exact h.along lined found rfl rfl rfl rfl rfl fun _ _ stands => by cases stands; exact .loading
  | unsaved found | unlisted found =>
    exact h.closed lined found rfl rfl rfl rfl rfl fun _ _ stands => by cases stands; exact .failed
  | passed ofReport | ignored ofReport | moved ofReport => simp at ofReport

theorem entered (h : Booked past d) (custody : d.Custody) {i : Instance}
    (found : d.call? k = some (.entering i))
    (right : SoundRecords (d.enter k i).registry.records (d.enter k i).registry.nextEpoch) :
    Booked (past ++ [⟨d, .proceed k, d.enter k i⟩]) (d.enter k i) := by
  have came := gainedEntries found rfl rfl
    (Gains.arrived (r := d.registry.release i.id) custody.sound right (commitGains custody found))
  refine h.passed custody.lined found (passagesOwn _ _ _) rfl rfl rfl fun _ _ stands => ?_
  rw [List.perm_singleton.mp came]
  cases stands with | entering same => exact .announcing (.registered same)

theorem loaded (h : Booked past d) (custody : d.Custody) {stored : List Instance} {at_ : Timestamp}
    (found : d.call? k = some (.loading stored at_))
    (right : SoundRecords (d.load k stored at_).registry.records
      (d.load k stored at_).registry.nextEpoch) :
    Booked (past ++ [⟨d, .proceed k, d.load k stored at_⟩]) (d.load k stored at_) := by
  have came := gainedEntries found rfl rfl
    ((Registry.loadGains d.registry at_ stored).arrived custody.sound right)
  refine h.passed custody.lined found (passagesOwn _ _ _) rfl rfl rfl fun _ _ stands => ?_
  cases stands with
  | loading =>
    have count := came.length_eq
    rw [List.length_map (f := ((Cause.loaded, ·) : Instance → Entry))] at count
    rw [List.nil_append, ← count]
    refine .announcing (.loaded fun entry mem => ?_)
    obtain ⟨_, _, rfl⟩ := List.mem_map.mp (came.subset mem)
    rfl

theorem sweptEntries (custody : d.Custody) {at_ : Timestamp} {took : List Expiry}
    (found : d.call? k = some (.collecting at_))
    (expires : d.registry.expire d.settings.heartbeatTimeout at_ = (e.registry, took))
    (right : SoundRecords e.registry.records e.registry.nextEpoch) :
    ((⟨d, .proceed k, e⟩ : Stride).passages.map Passage.entry).Perm
      ((took.map (·.snapshot)).map (.evicted, ·)) :=
  lostEntries found rfl rfl
    ((Registry.expireLoses custody.sound expires).1.departed custody.sound right)

theorem turned (h : Booked past d) (custody : d.Custody) (removing : d.Removing)
    (next : d.step (.proceed k) = some e) : Booked (past ++ [⟨d, .proceed k, e⟩]) e := by
  have lined := custody.lined
  have left := custody.sound
  have right := (custodyStep custody next).sound
  cases stepDeed next with
  | turnedAway found =>
    exact h.closed lined found rfl (passagesNone found rfl _) rfl rfl rfl
      fun _ _ stands => by cases stands; exact .failed
  | reserved found =>
    exact h.along lined found rfl (passagesNone found rfl _) rfl rfl rfl
      fun _ _ stands => by cases stands; exact .saving rfl
  | entered found => exact h.entered custody found right
  | quieted found =>
    exact h.along lined found rfl (passagesNone found rfl _) rfl rfl rfl
      fun _ _ stands => by cases stands; exact .deleting
  | left found live =>
    have went := lostEntries found rfl rfl
      ((Registry.removeLoses left live (Registry.leaveRecords live).1).departed left right)
    refine h.passed lined found (passagesOwn _ _ _) rfl rfl rfl fun _ _ stands => ?_
    rw [List.perm_singleton.mp went]
    cases stands with
    | leaving => exact .announcing (.deregistered (left.own _ _ live))
  | missed found gone =>
    have here := removing _ (List.mem_flatMap.mpr ⟨_, memOfCall found, List.mem_singleton_self _⟩)
    rw [Table.holdsIff, gone] at here
    cases here
  | foundNone found expires =>
    have went := sweptEntries custody found expires right
    refine h.settled lined found (passagesOwn _ _ _) rfl rfl rfl fun _ _ stands => ?_
    rw [List.perm_nil.mp went]
    have none : ∀ entry ∈ ([] : List Entry), entry.1 = .evicted := by simp
    cases stands
    exact .swept none
  | collected found expires takes =>
    have went := sweptEntries custody found expires right
    refine h.passed lined found (passagesOwn _ _ _) rfl rfl rfl fun _ _ stands => ?_
    cases stands with
    | collecting =>
      refine .hushing ⟨fun entry mem => ?_, ?_⟩
      · obtain ⟨_, _, rfl⟩ := List.mem_map.mp (went.subset mem)
        rfl
      · rw [List.nil_append, went.length_eq, List.length_map, takes]
        rfl
  | loaded found => exact h.loaded custody found right
  | hushed found =>
    exact h.along lined found rfl (passagesNone found rfl _) rfl rfl rfl
      fun _ _ stands => by cases stands with | hushing takes => exact .purging takes
  | releasing found =>
    exact h.along lined found rfl (passagesNone found rfl _) rfl rfl rfl
      fun _ _ stands => by cases stands with | releasing takes => exact .expiring takes
  | expiredLast found =>
    exact h.closed lined found rfl (passagesNone found rfl _) rfl rfl rfl
      fun _ _ stands => by
        cases stands with
        | expiring takes => rw [← takes.total]; exact .swept takes.evicted
  | expired found =>
    exact h.along lined found rfl (passagesNone found rfl _) rfl rfl rfl
      fun _ _ stands => by
        cases stands with | expiring takes => exact .purging ⟨takes.evicted, takes.total⟩
  | told found =>
    exact h.along lined found rfl (passagesNone found rfl _) rfl rfl rfl
      fun _ _ stands => by cases stands with | announcing reckons => exact .announcing reckons
  | silent found =>
    exact h.closed lined found rfl (passagesNone found rfl _) rfl rfl rfl
      fun _ _ stands => by cases stands with | announcing reckons => exact reckons
  | launched found =>
    exact h.closed lined found rfl (passagesNone found rfl _) rfl rfl rfl
      fun _ _ stands => by cases stands; exact .started
  | drained found =>
    exact h.along lined found rfl (passagesNone found rfl _) rfl rfl rfl
      fun _ _ stands => by cases stands; exact .stilling
  | stilled found =>
    exact h.along lined found rfl (passagesNone found rfl _) rfl rfl rfl
      fun _ _ stands => by cases stands; exact .joining
  | joined found =>
    exact h.closed lined found rfl (passagesNone found rfl _) rfl rfl rfl
      fun _ _ stands => by cases stands; exact .shut
  | passed ofReport | ignored ofReport | moved ofReport => simp at ofReport

end Booked

theorem bookedStep (custody : d.Custody) (removing : d.Removing) (h : Booked past d)
    (kept : a.abandons = false) (next : d.step a = some e) : Booked (past ++ [⟨d, a, e⟩]) e := by
  have lined := custody.lined
  have new := h.fresh d.nextCall (Nat.le_refl _)
  cases a with
  | begin request => exact h.begun lined next
  | proceed k => exact h.turned custody removing next
  | settle k failure => exact h.storeAnswered lined next
  | abandon k => cases kept
  | sweepTick =>
    cases stepDeed next with
    | ticked => exact h.opened lined (.request rfl rfl new) rfl rfl rfl .collecting
    | passed ofReport | ignored ofReport | moved ofReport => simp at ofReport
  | listed k stored =>
    cases stepDeed next with
    | given found =>
      exact h.along lined found rfl rfl rfl rfl rfl
        fun _ _ stands => by cases stands; exact .loading
    | passed ofReport | ignored ofReport | moved ofReport => simp at ofReport
  | _ =>
    cases stepDeed next with
    | passed ofReport | ignored ofReport =>
      exact h.aside (asksReport ofReport _) (passagesReport ofReport _) rfl rfl rfl
    | moved ofReport =>
      exact h.opened lined (.unasked (asksReport ofReport _) (passagesReport ofReport _) new) rfl
        rfl rfl (.announcing .reported)
    | _ => exact h.aside rfl rfl rfl rfl rfl

/-- The state of a run and its ledger agree. A registration, removal or expiry is under way from when
it has been let in until it has released its id again; after that it can only still be telling of it,
which one call does at a time. -/
structure Reconciled (past : List Stride) (d : Directory) : Prop where
  alone : (d.calls.flatMap (·.2.parks)).Nodup
  underWay : ∀ id, id ∈ d.registry.inFlight ↔ id ∈ d.calls.flatMap (·.2.parks)
  oneTells : ∀ x ∈ d.calls, ∀ y ∈ d.calls, x.2.announces = true → y.2.announces = true → x = y
  begun : ((arrivals (ledger past)).map (·.2)).Nodup
  endedOnce : (departures (ledger past)).Nodup
  evens : (d.registry.marks ++ departures (ledger past)).Perm (arrivals (ledger past))
  size : d.registry.size + tally .deregistered (ledger past) + tally .evicted (ledger past) =
    tally .registered (ledger past) + tally .loaded (ledger past)
  found : ∀ k id, d.call? k = some (.leaving id) → ∃ i, (d.registry.finishRemoval id).2 = some i
  known : ∀ p ∈ ledger past, (∃ x ∈ d.calls, x.1 = p.call) ∨ ∃ g ∈ d.endings, g.call = p.call
  stands : ∀ x ∈ d.calls, Stands (asked? past x.1) x.2 (accounts past x.1)
  answers : ∀ g ∈ d.endings, Reckons (asked? past g.call) g.result (accounts past g.call)
  answeredOnce : (d.endings.map (·.call)).Nodup

structure KeptBooks (past : List Stride) (d : Directory) : Prop where
  balanced : Balanced past d
  parked : d.Parked
  removing : d.Removing
  booked : Booked past d

theorem Lined.oneTells (lined : d.Lined) {x y : CallId × Call} (hx : x ∈ d.calls) (hy : y ∈ d.calls)
    (mine : x.2.announces = true) (theirs : y.2.announces = true) : x = y := by
  have same : x.1 = y.1 :=
    Option.some.inj ((lined.ordered x hx mine).symm.trans (lined.ordered y hy theirs))
  have left := callOfMem (k := x.1) (c := x.2) lined hx
  have right := callOfMem (k := y.1) (c := y.2) lined hy
  rw [same, right] at left
  exact Prod.ext same (Option.some.inj left).symm

theorem Removing.found (removing : d.Removing) {id : String}
    (found : d.call? k = some (.leaving id)) : ∃ i, (d.registry.finishRemoval id).2 = some i := by
  have here := removing id
    (List.mem_flatMap.mpr ⟨_, memOfCall found, List.mem_singleton_self _⟩)
  rw [Table.holdsIff, Option.isSome_iff_exists] at here
  obtain ⟨x, live⟩ := here
  have live : (d.registry.release id).records.get? id = some x := live
  exact ⟨x.snapshot, by simp [Registry.finishRemoval, live]⟩

theorem emptyKeptBooks (settings : DirectorySettings) : KeptBooks [] (empty settings) :=
  ⟨emptyBalanced settings, emptyParked settings, emptyRemoving settings, emptyBooked settings⟩

theorem keptBooksStep {s : Stride} (h : KeptBooks past s.before) (kept : s.action.abandons = false)
    (next : s.before.step s.action = some s.after) : KeptBooks (past ++ [s]) s.after := by
  have custody := h.balanced.custody
  exact ⟨balancedStep h.balanced next, parkedStep custody h.parked kept next,
    removingStep custody h.removing next, bookedStep custody h.removing h.booked kept next⟩

theorem reconciledSteps {settings : DirectorySettings} {actions : List Action}
    (run : (empty settings).steps actions = some d) (kept : ∀ a ∈ actions, a.abandons = false) :
    KeptBooks ((empty settings).trail actions) d :=
  trailKeeps (emptyKeptBooks settings) run fun s mem next _ h =>
    keptBooksStep h (kept s.action (trailActions mem)) next

/-- As long as no call is dropped, every registration of a run ends at most once, with one removal
that answers with it or as one of those that one sweep counts; a removal that was let in finds what
it removes; and what came, less what went, is what is live. -/
theorem registrationsReconcile {settings : DirectorySettings} {actions : List Action}
    (run : (empty settings).steps actions = some d) (kept : ∀ a ∈ actions, a.abandons = false) :
    Reconciled ((empty settings).trail actions) d := by
  obtain ⟨balanced, parked, removing, booked⟩ := reconciledSteps run kept
  have custody := balanced.custody
  have arrived : (arrivals (ledger ((empty settings).trail actions))).Nodup := balanced.once.of_map _
  exact {
    alone := custody.kept.once
    underWay := fun id => ⟨fun mem => List.mem_flatMap.mpr (parked id mem), custody.kept.inFlight id⟩
    oneTells := fun x hx y hy => custody.lined.oneTells hx hy
    begun := balanced.once
    endedOnce := (List.nodup_append.mp (balanced.evens.nodup_iff.mpr arrived)).2.1
    evens := balanced.evens
    size := balanced.size
    found := fun k id found => removing.found found
    known := booked.known
    stands := booked.stands
    answers := booked.reckons
    answeredOnce := booked.once }

def comings : List Action :=
  [.begin (.register (.fresh "a" "web" "h:1" .origin)), .proceed 0, .settle 0 none, .proceed 0,
    .begin (.register (.fresh "b" "web" "h:2" .origin)), .proceed 1, .settle 1 none,
    .proceed 0, .proceed 0, .proceed 1, .proceed 1, .proceed 1,
    .begin (.deregister "a"), .begin (.deregister "a"), .pass 100000, .begin .sweep, .proceed 4,
    .proceed 2, .settle 2 none, .proceed 2, .proceed 2, .proceed 2,
    .proceed 4, .settle 4 none, .proceed 4, .proceed 4]

theorem comingsReconcile :
    ∃ d, (empty Settings.standard.directory).steps comings = some d ∧
      tally .deregistered (ledger ((empty Settings.standard.directory).trail comings)) = 1 ∧
      tally .evicted (ledger ((empty Settings.standard.directory).trail comings)) = 1 ∧
      d.endings.map (·.call) = [4, 2, 3, 1, 0] ∧
      Reconciled ((empty Settings.standard.directory).trail comings) d := by
  have run : (empty Settings.standard.directory).steps comings = some _ := rfl
  exact ⟨_, run, by decide, by decide, by decide, registrationsReconcile run (by decide)⟩

end Directory
end ServiceDirectory
