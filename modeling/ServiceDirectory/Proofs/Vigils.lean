import ServiceDirectory.Proofs.Books
import ServiceDirectory.Proofs.Loops
import ServiceDirectory.Proofs.Tending

/-! The check loops that run, against the table that holds them and the calls that stop them. All of it
rests on loops being launched while no removal is under way: the launch looks at the table alone, and
who is about to be removed has no entry there any more. -/
namespace ServiceDirectory

def Call.stops : Call → List Nat
  | .quieting _ loop => loop.toList
  | .hushing loops _ => loops
  | .stilling loops => loops
  | _ => []

def Call.Due (past : List Stride) (d : Directory) (k : CallId) : Call → Prop
  | .quieting id loop => ∀ epoch ∈ loop, (d.registry.records.get? id).map (·.epoch) = some epoch
  | .hushing loops _ => ∀ epoch ∈ loops, ∃ p ∈ ledger past,
      p.call = k ∧ p.cause.arrives = false ∧ p.record.epoch = epoch
  | .draining => d.cancelled = true
  | .stilling _ => d.cancelled = true
  | _ => True

namespace Stride

def launches (s : Stride) : Bool :=
  match s.action with
  | .proceed k => s.before.call? k == some .launching
  | _ => false

/-- Nobody is about to be removed when the first loops are launched. -/
def LaunchesApart (s : Stride) : Prop :=
  s.launches = true → ∀ x ∈ s.before.calls, x.2.removes = []

instance (s : Stride) : Decidable s.LaunchesApart :=
  inferInstanceAs (Decidable (s.launches = true → ∀ x ∈ s.before.calls, x.2.removes = []))

end Stride

namespace Directory
variable {d e : Directory} {a : Action} {k : CallId} {c c' : Call} {past : List Stride}

structure Vigil (past : List Stride) (d : Directory) : Prop where
  tended : d.registry.Tended
  held : ∀ l ∈ d.loops, d.registry.Tends l.check.epoch ∨ ∃ x ∈ d.calls, l.check.epoch ∈ x.2.stops
  stopped : ∀ x ∈ d.calls, ∀ l ∈ d.loops, l.check.epoch ∈ x.2.stops → d.stopped l = true
  due : ∀ x ∈ d.calls, x.2.Due past d x.1
  lone : d.cancelled = false → (d.loops.map (·.check.epoch)).Nodup

theorem emptyVigil (settings : DirectorySettings) : Vigil [] (empty settings) where
  tended := Registry.emptyTended
  held l mem := by cases mem
  stopped x mem := by cases mem
  due x mem := by cases mem
  lone _ := .nil

theorem parkedEpochs (custody : d.Custody) (deed : Deed d a e) {x : CallId × Call}
    (mem : x ∈ d.calls) {id : String} (parks : id ∈ x.2.parks)
    (apart : ∀ j, a = .proceed j → x.1 ≠ j) :
    (e.registry.records.get? id).map (·.epoch) = (d.registry.records.get? id).map (·.epoch) := by
  have busy : id ∈ d.registry.inFlight :=
    custody.kept.inFlight id (List.mem_flatMap.mpr ⟨x, mem, parks⟩)
  have other {k : CallId} {c : Call} {target : String} (found : d.call? k = some c)
      (mine : target ∈ c.parks) (k_ : x.1 ≠ k) : id ≠ target := fun same =>
    parksApart custody mem (memOfCall found) k_ parks (same ▸ mine)
  have spared {timeout : Nat} {at_ : Timestamp} {s : Registry} {took : List Expiry}
      (expires : d.registry.expire timeout at_ = (s, took)) :
      s.records.get? id = d.registry.records.get? id := by
    have loses := (Registry.expireLoses custody.sound expires).1
    refine loses.others id fun gone => ?_
    obtain ⟨i, hi, rfl⟩ := List.mem_map.mp gone
    have out := Registry.expiredUnparked custody.sound timeout at_
    rw [expires] at out
    exact out i hi busy
  cases deed with
  | heard => exact Registry.touchEpochs _ _ _ _
  | @entered k i found =>
    have differs := other found (List.mem_singleton_self i.id) (apart _ rfl)
    exact congrArg _ (Table.getPutOther d.registry.records _ differs)
  | @left k target y found live =>
    have differs := other found (List.mem_singleton_self target) (apart _ rfl)
    have removed := Table.getRemove d.registry.records target id
    rw [if_neg differs, ← (Registry.leaveRecords live).1] at removed
    exact congrArg _ removed
  | foundNone found expires => exact congrArg _ (spared expires)
  | collected found expires => exact congrArg _ (spared expires)
  | @loaded k stored at_ found =>
    have gains := Registry.loadGains d.registry at_ stored
    refine congrArg _ (gains.others id fun came => ?_)
    obtain ⟨i, hi, rfl⟩ := List.mem_map.mp came
    exact (gains.fresh i hi).2 busy
  | passed => exact (Registry.passedEpochs _ _ _ _).1 id
  | moved ofReport live => exact Registry.putEpochs live _ id
  | reordered perm => exact congrArg _ (Table.getPerm custody.sound.distinct perm id)
  | @dropped k c => cases c.guarded? <;> rfl
  | _ => rfl

namespace Vigil

def Carried (past : List Stride) (d : Directory) (a : Action) (e : Directory)
    (x : CallId × Call) : Prop :=
  (x ∈ d.calls ∧ ∀ j, a = .proceed j → x.1 ≠ j) ∨
    (x.2.Due (past ++ [⟨d, a, e⟩]) e x.1 ∧
      ∀ l ∈ e.loops, l.check.epoch ∈ x.2.stops → e.stopped l = true)

theorem next (h : Vigil past d) (custody : d.Custody) (deed : Deed d a e)
    (cancelled : d.cancelled = true → e.cancelled = true) (tended : e.registry.Tended)
    (loops : ∀ l ∈ e.loops,
      (∃ old ∈ d.loops, old.check.epoch = l.check.epoch ∧
        (d.stopped old = true → e.stopped l = true)) ∨
      (e.registry.Tends l.check.epoch ∧
        ∀ x ∈ d.calls, l.check.epoch ∈ x.2.stops → e.stopped l = true))
    (table : ∀ epoch, d.registry.Tends epoch →
      e.registry.Tends epoch ∨ ∃ x ∈ e.calls, epoch ∈ x.2.stops)
    (stops : ∀ l ∈ e.loops, (∃ x ∈ d.calls, l.check.epoch ∈ x.2.stops) →
      ∃ x ∈ e.calls, l.check.epoch ∈ x.2.stops)
    (calls : ∀ x ∈ e.calls, Carried past d a e x)
    (lone : e.cancelled = false → (e.loops.map (·.check.epoch)).Nodup) :
    Vigil (past ++ [⟨d, a, e⟩]) e := by
  -- A loop was there or is new, and a call stands where it stood or has just moved.
  refine ⟨tended, fun l mem => ?_, fun x hx l mem own => ?_, fun x hx => ?_, lone⟩
  · rcases loops l mem with ⟨old, there, same, _⟩ | ⟨new, _⟩
    · rcases h.held old there with held | held
      · exact table _ (same ▸ held)
      · exact .inr (stops l mem (same ▸ held))
    · exact .inl new
  · rcases calls x hx with ⟨known, _⟩ | ⟨_, mine⟩
    · rcases loops l mem with ⟨old, there, same, stays⟩ | ⟨_, still⟩
      · exact stays (h.stopped x known old there (same ▸ own))
      · exact still x known own
    · exact mine l mem own
  · rcases calls x hx with ⟨known, apart⟩ | ⟨mine, _⟩
    · have due := h.due x known
      obtain ⟨j, call⟩ := x
      cases call with
      | quieting id loop =>
        intro epoch mem
        rw [parkedEpochs custody deed known (List.mem_singleton_self id) apart]
        exact due epoch mem
      | hushing loops round =>
        intro epoch mem
        obtain ⟨p, entered, rest⟩ := due epoch mem
        exact ⟨p, by rw [ledgerNext]; exact List.mem_append_left _ entered, rest⟩
      | draining => exact cancelled due
      | stilling loops => exact cancelled due
      | _ => trivial
    · exact mine

theorem inherited (h : Vigil past d) (custody : d.Custody) (deed : Deed d a e)
    (cancelled : d.cancelled = true → e.cancelled = true) (tended : e.registry.Tended)
    (heirs : Heirs d e)
    (table : ∀ epoch, d.registry.Tends epoch →
      e.registry.Tends epoch ∨ ∃ x ∈ e.calls, epoch ∈ x.2.stops)
    (stops : ∀ l ∈ d.loops, (∃ x ∈ d.calls, l.check.epoch ∈ x.2.stops) →
      ∃ x ∈ e.calls, l.check.epoch ∈ x.2.stops)
    (calls : ∀ x ∈ e.calls, Carried past d a e x) : Vigil (past ++ [⟨d, a, e⟩]) e := by
  refine h.next custody deed cancelled tended (fun l mem => .inl (heirs.own l mem)) table
    (fun l mem => ?_) calls fun runs => ?_
  · obtain ⟨old, there, same, _⟩ := heirs.own l mem
    exact same ▸ stops old there
  · have was : d.cancelled = false :=
      Bool.eq_false_iff.mpr (mt cancelled (Bool.eq_false_iff.mp runs))
    exact (h.lone was).sublist heirs.fewer

theorem aside (h : Vigil past d) (custody : d.Custody) (deed : Deed d a e)
    (waits : ∀ j, a ≠ .proceed j) (calls : e.calls = d.calls)
    (cancelled : e.cancelled = d.cancelled) (tended : e.registry.Tended) (heirs : Heirs d e)
    (keeps : ∀ epoch, d.registry.Tends epoch → e.registry.Tends epoch) :
    Vigil (past ++ [⟨d, a, e⟩]) e :=
  h.inherited custody deed (cancelled.trans ·) tended heirs
    (fun epoch there => .inl (keeps epoch there)) (fun l _ => by rw [calls]; exact id)
    (fun x mem => .inl ⟨calls ▸ mem, fun j same => absurd same (waits j)⟩)

theorem opened (h : Vigil past d) (custody : d.Custody) (deed : Deed d a e)
    (waits : ∀ j, a ≠ .proceed j) (calls : e.calls = d.calls ++ [(d.nextCall, c)])
    (due : c.Due (past ++ [⟨d, a, e⟩]) e d.nextCall)
    (cancelled : d.cancelled = true → e.cancelled = true) (tended : e.registry.Tended)
    (loops : e.loops = (d.cancelLoops c.stops).loops)
    (keeps : ∀ epoch, d.registry.Tends epoch → e.registry.Tends epoch ∨ epoch ∈ c.stops) :
    Vigil (past ++ [⟨d, a, e⟩]) e := by
  refine h.inherited custody deed cancelled tended (.cancelling c.stops loops cancelled)
    (fun epoch there => (keeps epoch there).imp_right fun out => ?_) (fun l _ => ?_) ?_
  · exact ⟨_, by rw [calls]; exact List.mem_append_right _ List.mem_cons_self, out⟩
  · rintro ⟨x, mem, own⟩
    exact ⟨x, by rw [calls]; exact List.mem_append_left _ mem, own⟩
  · rw [calls]
    refine eachOpened (fun x mem => .inl ⟨mem, fun j same => absurd same (waits j)⟩)
      (.inr ⟨due, fun l mem own => ?_⟩)
    simp [Directory.stopped, cancelledLoops (loops ▸ mem) own]

theorem moved (h : Vigil past d) (custody : d.Custody) (deed : Deed d a e)
    (turn : ∀ j, a = .proceed j → j = k) (found : d.call? k = some c)
    (calls : e.calls = (d.moveTo k c').calls) (still : ∀ epoch ∈ c.stops, d.loopRuns epoch = false)
    (due : c'.Due (past ++ [⟨d, a, e⟩]) e k) (cancelled : e.cancelled = d.cancelled)
    (tended : e.registry.Tended) (loops : e.loops = (d.cancelLoops c'.stops).loops)
    (keeps : ∀ epoch, d.registry.Tends epoch → e.registry.Tends epoch ∨ epoch ∈ c'.stops) :
    Vigil (past ++ [⟨d, a, e⟩]) e := by
  refine h.inherited custody deed (cancelled.trans ·) tended
    (.cancelling c'.stops loops (cancelled.trans ·))
    (fun epoch there => (keeps epoch there).imp_right fun out => ?_) (fun l mem => ?_) ?_
  · exact ⟨(k, c'), by rw [calls]; exact memMoved found, out⟩
  · rw [calls]
    refine someMoved (P := (l.check.epoch ∈ ·.stops)) custody.lined found fun mine => ?_
    have runs : d.loopRuns l.check.epoch = true := List.any_eq_true.mpr ⟨l, mem, by simp⟩
    rw [still _ mine] at runs
    cases runs
  · rw [calls]
    refine eachMoved (fun x mem apart => .inl ⟨mem, fun j same => turn j same ▸ apart⟩)
      (.inr ⟨due, fun l mem own => ?_⟩)
    simp [Directory.stopped, cancelledLoops (loops ▸ mem) own]

theorem left (h : Vigil past d) (custody : d.Custody) (deed : Deed d a e)
    (turn : ∀ j, a = .proceed j → j = k) (found : d.call? k = some c) (idle : c.stops = [])
    (calls : e.calls = d.calls.filter (·.1 != k)) (cancelled : e.cancelled = d.cancelled)
    (tended : e.registry.Tended) (loops : e.loops = d.loops)
    (keeps : ∀ epoch, d.registry.Tends epoch → e.registry.Tends epoch) :
    Vigil (past ++ [⟨d, a, e⟩]) e := by
  refine h.inherited custody deed (cancelled.trans ·) tended (.same loops (cancelled.trans ·))
    (fun epoch there => .inl (keeps epoch there)) (fun l _ => ?_) ?_
  · rw [calls]
    exact someLeft (P := (l.check.epoch ∈ ·.stops)) custody.lined found (by simp [idle])
  · rw [calls]
    exact eachLeft fun x mem apart => .inl ⟨mem, fun j same => turn j same ▸ apart⟩

theorem begun (h : Vigil past d) (custody : d.Custody) (deed : Deed d a e)
    {orders : List LoopOrder} (cancelled : e.cancelled = d.cancelled)
    (loops : e.loops = (d.startLoops orders).loops) (tended : e.registry.Tended)
    (keeps : ∀ epoch, d.registry.Tends epoch → e.registry.Tends epoch)
    (started : ∀ o ∈ orders, e.registry.Tends o.epoch)
    (new : ∀ o ∈ orders, d.cancelled = false →
      ¬d.registry.Tends o.epoch ∧ ∀ x ∈ d.calls, o.epoch ∉ x.2.stops)
    (distinct : (orders.map (·.epoch)).Nodup)
    (stops : ∀ epoch, (∃ x ∈ d.calls, epoch ∈ x.2.stops) → ∃ x ∈ e.calls, epoch ∈ x.2.stops)
    (calls : ∀ x ∈ e.calls, Carried past d a e x) : Vigil (past ++ [⟨d, a, e⟩]) e := by
  refine h.next custody deed (cancelled.trans ·) tended (fun l mem => ?_)
    (fun epoch there => .inl (keeps epoch there)) (fun l _ => stops _) calls fun runs => ?_
  · rw [loops] at mem
    rcases List.mem_append.mp mem with old | mem
    · refine .inl ⟨l, old, rfl, fun was => ?_⟩
      rwa [Directory.stopped, cancelled]
    · obtain ⟨o, order, rfl⟩ := List.mem_map.mp mem
      refine .inr ⟨started o order, fun x hx own => ?_⟩
      cases runs : d.cancelled with
      | true => simp [Directory.stopped, cancelled, runs]
      | false => exact absurd own ((new o order runs).2 x hx)
  · rw [cancelled] at runs
    rw [loops, startLoops, List.map_append, List.map_map]
    refine List.nodup_append.mpr ⟨h.lone runs, distinct, ?_⟩
    rintro _ old _ mem rfl
    obtain ⟨l, there, own⟩ := List.mem_map.mp old
    obtain ⟨o, order, same⟩ := List.mem_map.mp mem
    obtain ⟨untended, unstopped⟩ := new o order runs
    have same : l.check.epoch = o.epoch := own.trans same.symm
    rcases h.held l there with tends | ⟨x, hx, stops⟩
    · exact untended (same ▸ tends)
    · exact unstopped x hx (same ▸ stops)

theorem reason (h : Vigil past d) {x : CallId × Call} (mem : x ∈ d.calls) {epoch : Nat}
    (own : epoch ∈ x.2.stops) :
    (∃ id ∈ x.2.removes, (d.registry.records.get? id).map (·.epoch) = some epoch) ∨
    (∃ p ∈ ledger past, p.call = x.1 ∧ p.cause.arrives = false ∧ p.record.epoch = epoch) ∨
    (x.2 = .stilling x.2.stops ∧ d.cancelled = true) := by
  have due := h.due x mem
  obtain ⟨k, call⟩ := x
  cases call with
  | quieting id loop =>
    exact .inl ⟨id, List.mem_singleton_self id, due epoch (Option.mem_toList.mp own)⟩
  | hushing loops round => exact .inr (.inl (due epoch own))
  | stilling loops => exact .inr (.inr ⟨rfl, due⟩)
  | _ => cases own

theorem tendsEarly (h : Vigil past d) (custody : d.Custody) {epoch : Nat}
    (there : d.registry.Tends epoch) : epoch < d.registry.nextEpoch := by
  obtain ⟨id, found⟩ := there
  obtain ⟨x, live, rfl⟩ := Option.map_eq_some_iff.mp (h.tended id epoch found).2
  exact custody.sound.past id x live

theorem stopsEarly (h : Vigil past d) (balanced : Balanced past d) (runs : d.cancelled = false)
    {x : CallId × Call} (mem : x ∈ d.calls) {epoch : Nat} (own : epoch ∈ x.2.stops) :
    epoch < d.registry.nextEpoch := by
  rcases h.reason mem own with ⟨id, _, live⟩ | ⟨p, entered, _, departs, rfl⟩ | ⟨_, cancelled⟩
  · obtain ⟨y, found, rfl⟩ := Option.map_eq_some_iff.mp live
    exact balanced.custody.sound.past id y found
  · exact balanced.departedBefore entered departs
  · rw [runs] at cancelled
    cases cancelled

theorem arrived (h : Vigil past d) (balanced : Balanced past d) (deed : Deed d a e)
    {r : Registry} {orders : List LoopOrder} (starts : r.Starts e.registry orders)
    (supervised : r.supervised = d.registry.supervised)
    (nextEpoch : r.nextEpoch = d.registry.nextEpoch)
    (turn : ∀ j, a = .proceed j → j = k) (found : d.call? k = some c) (idle : c.stops = [])
    (calls : e.calls = (d.moveTo k c').calls) (rests : c'.stops = [])
    (due : c'.Due (past ++ [⟨d, a, e⟩]) e k) (cancelled : e.cancelled = d.cancelled)
    (loops : e.loops = (d.startLoops orders).loops) : Vigil (past ++ [⟨d, a, e⟩]) e := by
  refine h.begun balanced.custody deed cancelled loops starts.tended (fun epoch there => ?_)
    (fun o mem => (starts.started o mem).1) (fun o mem runs => ?_) starts.distinct
    (fun epoch => ?_) ?_
  · exact starts.keeps epoch (by rwa [Registry.Tends, supervised])
  · have late := (starts.started o mem).2.1
    rw [nextEpoch] at late
    exact ⟨fun there => Nat.not_lt.mpr late (h.tendsEarly balanced.custody there),
      fun x hx own => Nat.not_lt.mpr late (h.stopsEarly balanced runs hx own)⟩
  · rw [calls]
    exact someMoved (P := (epoch ∈ ·.stops)) balanced.custody.lined found (by simp [idle])
  · rw [calls]
    exact eachMoved (fun x mem apart => .inl ⟨mem, fun j same => turn j same ▸ apart⟩)
      (.inr ⟨due, by simp [rests]⟩)

end Vigil

theorem proceedsOwn (j : CallId) (same : Action.proceed k = .proceed j) : j = k :=
  (Action.proceed.inj same).symm

theorem reportWaits (ofReport : a = .applyNext ∨ ∃ report, a = .applyDirect report) (j : CallId) :
    a ≠ .proceed j := by
  rcases ofReport with rfl | ⟨report, rfl⟩ <;> nofun

theorem evictedLoops (past : List Stride) (custody : d.Custody) (tended : d.registry.Tended)
    {at_ : Timestamp} {s : Registry} {took : List Expiry}
    (found : d.call? k = some (.collecting at_))
    (expires : d.registry.expire d.settings.heartbeatTimeout at_ = (s, took))
    (next : d.step (.proceed k) = some e) (registry : e.registry = s) :
    ∀ epoch ∈ took.filterMap Expiry.loop, ∃ p ∈ ledger (past ++ [⟨d, .proceed k, e⟩]),
      p.call = k ∧ p.cause.arrives = false ∧ p.record.epoch = epoch := by
  subst registry
  intro epoch mem
  obtain ⟨x, gone, loop⟩ := List.mem_filterMap.mp mem
  have was := (Registry.expireTends custody.sound tended expires).2.2 x gone epoch loop
  have left := (Registry.expireLoses custody.sound expires).1.left _ (List.mem_map_of_mem gone)
  have without : (⟨x.snapshot, epoch⟩ : Record) ∈ d.registry.without e.registry :=
    (Registry.memWithout custody.sound (custodyStep custody next).sound _).mpr
      ⟨was, by rw [left]; nofun⟩
  refine ⟨⟨k, .evicted, ⟨x.snapshot, epoch⟩⟩, ?_, rfl, rfl, rfl⟩
  rw [ledgerNext, passagesOf found rfl]
  exact List.mem_append_right _ (List.mem_map_of_mem without)

theorem Vigil.launchesNew (h : Vigil past d) (balanced : Balanced past d)
    (none : ∀ x ∈ d.calls, x.2.removes = []) (runs : d.cancelled = false) {o : LoopOrder}
    (mem : o ∈ d.registry.run.2) :
    ¬d.registry.Tends o.epoch ∧ ∀ x ∈ d.calls, o.epoch ∉ x.2.stops := by
  obtain ⟨_, untended, id, live⟩ :=
    Registry.runStarted h.tended balanced.custody.sound.distinct balanced.apart o mem
  refine ⟨untended, fun x hx own => ?_⟩
  rcases h.reason hx own with ⟨_, removes, _⟩ | ⟨p, entered, _, departs, same⟩ | ⟨_, cancelled⟩
  · rw [none x hx] at removes
    cases removes
  · exact balanced.gone entered departs id (same ▸ live)
  · rw [runs] at cancelled
    cases cancelled

namespace Vigil

theorem asked {request : Request} (h : Vigil past d) (custody : d.Custody)
    (next : d.step (.begin request) = some e) : Vigil (past ++ [⟨d, .begin request, e⟩]) e := by
  have deed := stepDeed next
  have loops := (cancelNone d).symm
  cases stepDeed next with
  | @heard target =>
    have tended : (d.registry.touch target d.clock).Tended :=
      h.tended.same rfl (fun _ mem => mem) (Registry.touchEpochs d.registry target d.clock)
    exact h.aside custody deed nofun rfl rfl tended (.same rfl id) fun _ => id
  | opened opens =>
    cases opens <;> exact h.opened custody deed nofun rfl trivial id h.tended loops fun _ => .inl
  | @removing target =>
    refine h.opened custody deed nofun rfl (fun epoch loop => ?_) id (h.tended.removing target) rfl
      fun epoch there => ?_
    · exact (h.tended target epoch loop).2
    · obtain ⟨id, found⟩ := there
      by_cases own : id = target
      · exact .inr (Option.mem_toList.mpr (own ▸ found))
      · exact .inl ⟨id, ((Table.getRemove _ target id).trans (if_neg own)).trans found⟩
  | starting => exact h.opened custody deed nofun rfl trivial id h.tended loops fun _ => .inl
  | closing => exact h.opened custody deed nofun rfl rfl (fun _ => rfl) h.tended loops fun _ => .inl
  | refused | broke => exact h.aside custody deed nofun rfl rfl h.tended (.same rfl id) fun _ => id
  | passed ofReport | ignored ofReport | moved ofReport => simp at ofReport

theorem storeAnswered {failure : Option Failure} (h : Vigil past d) (custody : d.Custody)
    (next : d.step (.settle k failure) = some e) :
    Vigil (past ++ [⟨d, .settle k failure, e⟩]) e := by
  have deed := stepDeed next
  have loops := (cancelNone d).symm
  cases stepDeed next with
  | saved found | deleted found | purged found | listed found =>
    exact h.moved custody deed nofun found rfl nofun trivial rfl h.tended loops fun _ => .inl
  | unsaved found =>
    exact h.left custody deed nofun found rfl rfl rfl (h.tended.released _) rfl fun _ => id
  | unlisted found =>
    exact h.left custody deed nofun found rfl rfl rfl h.tended rfl fun _ => id
  | passed ofReport | ignored ofReport | moved ofReport => simp at ofReport

theorem parted (h : Vigil past d) (custody : d.Custody) {target : String} {x : Record}
    (found : d.call? k = some (.leaving target)) (live : d.registry.records.get? target = some x)
    (deed : Deed d (.proceed k) e) (registry : e.registry = (d.registry.finishRemoval target).1)
    (calls : e.calls = (d.moveTo k c').calls) (rests : c'.stops = [])
    (due : c'.Due (past ++ [⟨d, .proceed k, e⟩]) e k) (cancelled : e.cancelled = d.cancelled)
    (loops : e.loops = d.loops) : Vigil (past ++ [⟨d, .proceed k, e⟩]) e := by
  have busy : target ∈ d.registry.inFlight := custody.kept.inFlight target
    (List.mem_flatMap.mpr ⟨_, memOfCall found, List.mem_singleton_self target⟩)
  have tended : e.registry.Tended := registry ▸ h.tended.left live busy
  have same : e.loops = (d.cancelLoops c'.stops).loops := by
    rw [rests, loops]
    exact (cancelNone d).symm
  refine h.moved custody deed proceedsOwn found calls nofun due cancelled tended same
    fun epoch there => ?_
  obtain ⟨id, held⟩ := there
  refine .inl ⟨id, ?_⟩
  rw [registry, Registry.leaveSupervised live]
  exact held

-- Without `none` a record on its way out, not in the table any more, would get a loop again.
theorem launched (h : Vigil past d) (balanced : Balanced past d) (parked : d.Parked)
    (found : d.call? k = some .launching) (none : ∀ x ∈ d.calls, x.2.removes = [])
    (deed : Deed d (.proceed k) (d.launch k)) :
    Vigil (past ++ [⟨d, .proceed k, d.launch k⟩]) (d.launch k) := by
  have custody := balanced.custody
  have distinct := custody.sound.distinct
  have started := Registry.runStarted h.tended distinct balanced.apart
  exact h.begun custody deed rfl rfl
    (Registry.runTended h.tended distinct fun id x => parked.liveFree custody none)
    (fun epoch => Registry.runKeeps distinct) (fun o mem => (started o mem).1)
    (fun o mem runs => h.launchesNew balanced none runs mem)
    (Registry.runDistinct distinct balanced.apart)
    (fun epoch => someLeft (P := (epoch ∈ ·.stops)) custody.lined found (by simp [Call.stops]))
    (eachLeft fun x mem other => .inl ⟨mem, fun j same => proceedsOwn j same ▸ other⟩)

theorem turned (h : Vigil past d) (balanced : Balanced past d) (parked : d.Parked)
    (apart : (⟨d, .proceed k, e⟩ : Stride).LaunchesApart) (next : d.step (.proceed k) = some e) :
    Vigil (past ++ [⟨d, .proceed k, e⟩]) e := by
  have custody := balanced.custody
  have deed := stepDeed next
  have loops := (cancelNone d).symm
  cases stepDeed next with
  | @reserved _ i found free =>
    have tended := h.tended.parked ((Registry.freeIff d.registry i.id).mp free).1
    exact h.moved custody deed proceedsOwn found rfl nofun trivial rfl tended loops fun _ => .inl
  | @entered _ i found =>
    have starts := Registry.enterStarts (h.tended.released i.id) (commitFree custody found)
    exact h.arrived balanced deed starts rfl rfl proceedsOwn found rfl rfl rfl trivial rfl rfl
  | quieted found still =>
    exact h.moved custody deed proceedsOwn found rfl (by simpa [Call.stops] using still) trivial rfl
      h.tended loops fun _ => .inl
  | left found live => exact h.parted custody found live deed rfl rfl rfl trivial rfl rfl
  | foundNone found expires =>
    obtain ⟨tended, keeps, _⟩ := Registry.expireTends custody.sound h.tended expires
    exact h.left custody deed proceedsOwn found rfl rfl rfl tended loops.symm
      fun epoch there => (keeps epoch there).resolve_right nofun
  | collected found expires =>
    obtain ⟨tended, keeps, _⟩ := Registry.expireTends custody.sound h.tended expires
    have due := evictedLoops past custody h.tended found expires next rfl
    exact h.moved custody deed proceedsOwn found rfl nofun due rfl tended rfl keeps
  | hushed found still =>
    exact h.moved custody deed proceedsOwn found rfl still trivial rfl h.tended loops fun _ => .inl
  | releasing found =>
    exact h.moved custody deed proceedsOwn found rfl nofun trivial rfl (h.tended.released _) loops
      fun _ => .inl
  | @loaded _ stored at_ found =>
    have starts := Registry.loadStarts h.tended at_ stored
    exact h.arrived balanced deed starts rfl rfl proceedsOwn found rfl rfl rfl trivial rfl rfl
  | launched found =>
    exact h.launched balanced parked found (apart (by simp [Stride.launches, found])) deed
  | drained found =>
    have cancelled : d.cancelled = true := h.due _ (memOfCall found)
    refine h.moved custody deed proceedsOwn found rfl nofun cancelled rfl (.unsupervised d.registry)
      rfl fun epoch there => .inr ?_
    obtain ⟨id, held⟩ := there
    exact List.mem_map_of_mem (Table.memOfGet held)
  | stilled found still =>
    exact h.moved custody deed proceedsOwn found rfl still trivial rfl h.tended loops fun _ => .inl
  | expired found | told found =>
    exact h.moved custody deed proceedsOwn found rfl nofun trivial rfl h.tended loops fun _ => .inl
  | missed found =>
    exact h.left custody deed proceedsOwn found rfl rfl rfl (h.tended.released _) rfl fun _ => id
  | turnedAway found | expiredLast found | silent found | joined found =>
    exact h.left custody deed proceedsOwn found rfl rfl rfl h.tended rfl fun _ => id
  | passed ofReport | ignored ofReport | moved ofReport => simp at ofReport

theorem applied (h : Vigil past d) (custody : d.Custody)
    (ofReport : a = .applyNext ∨ ∃ report, a = .applyDirect report) (next : d.step a = some e) :
    Vigil (past ++ [⟨d, a, e⟩]) e := by
  have deed := stepDeed next
  have loops := (cancelNone d).symm
  cases stepDeed next with
  | @passed a reports target epoch at_ _ =>
    have supervised := Registry.passedSupervised d.registry target epoch at_
    have inFlight := passedInFlight d.registry target epoch at_
    have tended := h.tended.same supervised (fun id mem => inFlight ▸ mem)
      (Registry.passedEpochs d.registry target epoch at_).1
    refine h.aside custody deed (reportWaits ofReport) rfl rfl tended (.same rfl id)
      fun _ there => ?_
    obtain ⟨id, held⟩ := there
    exact ⟨id, (congrArg (·.get? id) supervised).trans held⟩
  | ignored =>
    exact h.aside custody deed (reportWaits ofReport) rfl rfl h.tended (.same rfl id) fun _ => id
  | @moved a reports target x i _ live =>
    have tended : ({ d.registry with
        records := d.registry.records.put target ⟨i, x.epoch⟩ }.bump i.name).Tended :=
      h.tended.same rfl (fun _ mem => mem) (Registry.putEpochs live i)
    exact h.opened custody deed (reportWaits ofReport) rfl trivial id tended loops fun _ => .inl
  | _ => simp at ofReport

theorem looped (h : Vigil past d) (custody : d.Custody) {epoch : Nat}
    (ofLoop : (∃ outcome, a = .beginProbe epoch outcome) ∨ a = .endProbe epoch ∨ a = .endLoop epoch)
    (next : d.step a = some e) : Vigil (past ++ [⟨d, a, e⟩]) e := by
  have deed := stepDeed next
  cases stepDeed next with
  | probing found runs begun =>
    have same := Health.CheckLoop.beginKeepsEpoch begun
    exact h.aside custody deed nofun rfl rfl h.tended (.put found runs same rfl rfl) fun _ => id
  | probed found runs ended =>
    have same := Health.CheckLoop.endKeepsEpoch ended
    exact h.aside custody deed nofun rfl rfl h.tended (.put found runs same rfl rfl) fun _ => id
  | ceased => exact h.aside custody deed nofun rfl rfl h.tended (.dropped _) fun _ => id
  | passed ofReport | ignored ofReport | moved ofReport =>
    rcases ofReport with rfl | ⟨report, rfl⟩ <;> simp at ofLoop
  | _ => simp at ofLoop

end Vigil

theorem vigilStep (balanced : Balanced past d) (parked : d.Parked) (h : Vigil past d)
    (kept : a.abandons = false) (apart : (⟨d, a, e⟩ : Stride).LaunchesApart)
    (next : d.step a = some e) : Vigil (past ++ [⟨d, a, e⟩]) e := by
  have custody := balanced.custody
  have deed := stepDeed next
  have loops := (cancelNone d).symm
  cases a with
  | begin request => exact h.asked custody next
  | proceed k => exact h.turned balanced parked apart next
  | settle k failure => exact h.storeAnswered custody next
  | abandon k => cases kept
  | sweepTick =>
    cases stepDeed next with
    | ticked => exact h.opened custody deed nofun rfl trivial id h.tended loops fun _ => .inl
    | passed ofReport | ignored ofReport | moved ofReport => simp at ofReport
  | listed k stored =>
    cases stepDeed next with
    | given found =>
      exact h.moved custody deed nofun found rfl nofun trivial rfl h.tended loops fun _ => .inl
    | passed ofReport | ignored ofReport | moved ofReport => simp at ofReport
  | applyNext => exact h.applied custody (.inl rfl) next
  | applyDirect report => exact h.applied custody (.inr ⟨report, rfl⟩) next
  | beginProbe epoch outcome => exact h.looped custody (.inl ⟨outcome, rfl⟩) next
  | endProbe epoch => exact h.looped custody (.inr (.inl rfl)) next
  | endLoop epoch => exact h.looped custody (.inr (.inr rfl)) next
  | reorder records =>
    cases stepDeed next with
    | reordered perm =>
      have tended : ({ d.registry with records } : Registry).Tended :=
        h.tended.same rfl (fun _ mem => mem)
          fun id => congrArg _ (Table.getPerm custody.sound.distinct perm id)
      exact h.aside custody deed nofun rfl rfl tended (.same rfl id) fun _ => id
    | passed ofReport | ignored ofReport | moved ofReport => simp at ofReport
  | _ =>
    cases stepDeed next with
    | passed ofReport | ignored ofReport | moved ofReport => simp at ofReport
    | _ => exact h.aside custody deed nofun rfl rfl h.tended (.same rfl id) fun _ => id

structure Silent (past : List Stride) (d : Directory) (epoch : Nat) : Prop where
  untended : ¬d.registry.Tends epoch
  probeless : ∀ outcome, d.step (.beginProbe epoch outcome) = none
  exited : (∀ s ∈ past, s.action ≠ .begin .shutdown) → d.loopRuns epoch = false

theorem askedBegun {request : Request} (asked : asked? past k = some request)
    (other : request ≠ .sweep) : ∃ s ∈ past, s.action = .begin request := by
  obtain ⟨⟨j, _⟩, found, rfl⟩ := Option.map_eq_some_iff.mp asked
  obtain ⟨s, mem, asks⟩ := List.mem_filterMap.mp (List.mem_of_find?_eq_some found)
  refine ⟨s, mem, ?_⟩
  simp only [Stride.asked] at asks
  split at asks
  · cases asks
    assumption
  · cases asks
    exact absurd rfl other
  · cases asks

theorem Vigil.silent (h : Vigil past d) (balanced : Balanced past d) (booked : Booked past d)
    {p : Passage} (mem : p ∈ ledger past) (departs : p.cause.arrives = false) {g : Ending}
    (ended : g ∈ d.endings) (own : p.call = g.call) : Silent past d p.record.epoch := by
  have untended : ¬d.registry.Tends p.record.epoch := by
    rintro ⟨id, found⟩
    exact balanced.gone mem departs id (h.tended id _ found).2
  -- Only the call that took the registration out stops its loop, and it is over.
  have shuts (x : CallId × Call) (hx : x ∈ d.calls) (stops : p.record.epoch ∈ x.2.stops) :
      x.2 = .stilling x.2.stops := by
    rcases h.reason hx stops with ⟨id, _, live⟩ | ⟨q, entered, mine, leaves, same⟩ | ⟨shut, _⟩
    · exact absurd live (balanced.gone mem departs id)
    · obtain rfl := balanced.departedOnce entered mem leaves departs same
      exact absurd (mine.symm.trans own) ((booked.finished g ended).2 x hx)
    · exact shut
  have stopper {l : RunningLoop} (there : l ∈ d.loops) (same : l.check.epoch = p.record.epoch) :
      ∃ x ∈ d.calls, l.check.epoch ∈ x.2.stops :=
    (h.held l there).resolve_left (same ▸ untended)
  refine ⟨untended, fun outcome => ?_, fun unshut => ?_⟩
  · cases found : d.loop? p.record.epoch with
    | none => simp [step, beginProbe, found]
    | some l =>
      have there := List.mem_of_find?_eq_some found
      obtain ⟨x, hx, stops⟩ := stopper there (by simpa using List.find?_some found)
      simp [step, beginProbe, found, h.stopped x hx l there stops]
  · refine Bool.eq_false_iff.mpr fun runs => ?_
    obtain ⟨l, there, same⟩ := List.any_eq_true.mp runs
    have same : l.check.epoch = p.record.epoch := by simpa using same
    obtain ⟨x, hx, stops⟩ := stopper there same
    have stands := booked.stands x hx
    rw [shuts x hx (same ▸ stops)] at stands
    generalize asked : asked? past x.1 = request, accounts past x.1 = entries at stands
    cases stands
    obtain ⟨s, inside, begun⟩ := askedBegun asked (by decide)
    exact unshut s inside begun

structure WellTended (past : List Stride) (d : Directory) : Prop where
  live : ∀ id epoch, d.registry.supervised.get? id = some epoch →
    (d.registry.records.get? id).map (·.epoch) = some epoch
  running : ∀ l ∈ d.loops, d.registry.Tends l.check.epoch ∨
    ∃ x ∈ d.calls, l.check.epoch ∈ x.2.stops ∧ d.stopped l = true
  lone : d.cancelled = false → (d.loops.map (·.check.epoch)).Nodup
  removed : ∀ g ∈ d.endings, ∀ id i, asked? past g.call = some (.deregister id) →
    g.result = .ok (.instance i) → ∃ p ∈ ledger past, p.call = g.call ∧
      p.entry = (.deregistered, i) ∧ Silent past d p.record.epoch
  evicted : ∀ g ∈ d.endings, ∀ p ∈ ledger past, p.call = g.call → p.cause = .evicted →
    Silent past d p.record.epoch

theorem vigilSteps {settings : DirectorySettings} {actions : List Action}
    (run : (empty settings).steps actions = some d) (kept : ∀ a ∈ actions, a.abandons = false)
    (apart : ∀ s ∈ (empty settings).trail actions, s.LaunchesApart) :
    KeptBooks ((empty settings).trail actions) d ∧ Vigil ((empty settings).trail actions) d := by
  have start : KeptBooks [] (empty settings) ∧ Vigil [] (empty settings) :=
    ⟨emptyKeptBooks settings, emptyVigil settings⟩
  refine trailKeeps (P := fun past d => KeptBooks past d ∧ Vigil past d) start run
    fun s mem next past ⟨books, vigil⟩ => ?_
  have stays := kept s.action (trailActions mem)
  exact ⟨keptBooksStep books stays next,
    vigilStep books.balanced books.parked vigil stays (apart s mem) next⟩

/-- As long as no call is dropped and none is removed while the first loops are launched, a removal or
sweep that has returned leaves no loop of what it has removed behind. -/
theorem loopsEndWithRegistrations {settings : DirectorySettings} {actions : List Action}
    (run : (empty settings).steps actions = some d) (kept : ∀ a ∈ actions, a.abandons = false)
    (apart : ∀ s ∈ (empty settings).trail actions, s.LaunchesApart) :
    WellTended ((empty settings).trail actions) d := by
  obtain ⟨⟨balanced, _, _, booked⟩, vigil⟩ := vigilSteps run kept apart
  refine ⟨fun id epoch found => (vigil.tended id epoch found).2, fun l mem => ?_, vigil.lone,
    fun g mem id i asks ok => ?_, fun g mem p entered own evicts => ?_⟩
  · refine (vigil.held l mem).imp_right ?_
    rintro ⟨x, hx, stops⟩
    exact ⟨x, hx, stops, vigil.stopped x hx l mem stops⟩
  · have reckons := booked.reckons g mem
    rw [asks, ok] at reckons
    generalize sums : accounts _ g.call = entries at reckons
    cases reckons
    have here : (Cause.deregistered, i) ∈ accounts ((empty settings).trail actions) g.call := by
      rw [sums]
      exact List.mem_singleton_self _
    obtain ⟨p, inside, same⟩ := List.mem_map.mp here
    obtain ⟨entered, own⟩ := List.mem_filter.mp inside
    have own : p.call = g.call := by simpa using own
    have departs : p.cause.arrives = false := by rw [(Prod.mk.inj same).1]; rfl
    exact ⟨p, entered, own, same, vigil.silent balanced booked entered departs mem own⟩
  · exact vigil.silent balanced booked entered (by rw [evicts]; rfl) mem own

def vigils : List Action :=
  [.begin .start, .proceed 0,
    .begin (.register (.fresh "a" "web" "h:1" .origin)), .proceed 1, .settle 1 none, .proceed 1,
    .beginProbe 1 .pass, .proceed 1, .proceed 1,
    .begin (.deregister "a"), .endLoop 1, .proceed 2, .settle 2 none, .proceed 2, .proceed 2,
    .proceed 2,
    .begin (.register (.fresh "b" "web" "h:2" .origin)), .proceed 3, .settle 3 none, .proceed 3,
    .proceed 3, .proceed 3, .pass 100000, .begin .sweep, .proceed 4,
    .endLoop 2, .proceed 4, .settle 4 none, .proceed 4, .proceed 4]

theorem vigilsEnd :
    ∃ d, (empty Settings.standard.directory).steps vigils = some d ∧
      departures (ledger ((empty Settings.standard.directory).trail vigils)) =
        [("a", 1), ("b", 2)] ∧
      d.endings.map (·.call) = [4, 3, 2, 1, 0] ∧
      WellTended ((empty Settings.standard.directory).trail vigils) d := by
  obtain ⟨d, run, ended⟩ : ∃ d,
      (empty Settings.standard.directory).steps vigils = some d ∧
        d.endings.map (·.call) = [4, 3, 2, 1, 0] := ⟨_, rfl, by decide +kernel⟩
  exact ⟨d, run, by decide +kernel, ended,
    loopsEndWithRegistrations run (by decide) (by decide +kernel)⟩

def overtaken : List Action :=
  [.begin (.register (.fresh "a" "web" "h:1" .origin)), .proceed 0, .settle 0 none, .proceed 0,
    .proceed 0, .proceed 0, .begin (.deregister "a"), .begin .start, .proceed 2,
    .proceed 1, .settle 1 none, .proceed 1, .proceed 1, .proceed 1]

theorem launchedLoopOutlives :
    ∃ d, (empty Settings.standard.directory).steps overtaken = some d ∧
      (∀ a ∈ overtaken, a.abandons = false) ∧
      departures (ledger ((empty Settings.standard.directory).trail overtaken)) =
        [("a", 1)] ∧
      d.calls = [] ∧ (∃ i, d.ending? 1 = some (.ok (.instance i))) ∧
      d.registry.records = [] ∧ d.registry.supervised = [("a", 1)] ∧ d.loopRuns 1 = true ∧
      (d.step (.beginProbe 1 .pass)).isSome = true ∧
      ¬WellTended ((empty Settings.standard.directory).trail overtaken) d := by
  obtain ⟨d, run, gone, calls, answer, records, supervised, loops, probes⟩ : ∃ d,
      (empty Settings.standard.directory).steps overtaken = some d ∧
      departures (ledger ((empty Settings.standard.directory).trail overtaken)) =
        [("a", 1)] ∧
      d.calls = [] ∧ (∃ i, d.ending? 1 = some (.ok (.instance i))) ∧
      d.registry.records = [] ∧ d.registry.supervised = [("a", 1)] ∧ d.loopRuns 1 = true ∧
      (d.step (.beginProbe 1 .pass)).isSome = true :=
    ⟨_, rfl, by decide +kernel, by decide +kernel, ⟨_, rfl⟩, by decide +kernel, by decide +kernel,
      by decide +kernel, by decide +kernel⟩
  refine ⟨d, run, by decide, gone, calls, answer, records, supervised, loops, probes, fun h => ?_⟩
  have live := h.live "a" 1 (by rw [supervised]; rfl)
  rw [records] at live
  cases live

end Directory
end ServiceDirectory
