import ServiceDirectory.Proofs.Manning
import ServiceDirectory.Proofs.Transcripts

/-! What holds calls up. The loops that a removal or a sweep waits for have been told to stop, and who
tells of a change of status waits for nobody. So a call gets on without time passing, unless it waits
for the store or for another numbered call. -/
namespace ServiceDirectory

def Call.awaits : Call → List Nat
  | .quieting _ loop => loop.toList
  | .hushing loops _ => loops
  | _ => []

namespace Directory
variable {d e : Directory} {a : Action} {k : CallId} {c : Call} {calls : List CallId}

structure Halting (d : Directory) : Prop where
  launches : ∀ x ∈ d.calls, x.2 = .launching → d.started = true ∧ d.registry.running = false
  once : ∀ x ∈ d.calls, ∀ y ∈ d.calls, x.2 = .launching → y.2 = .launching → x = y
  runs : d.registry.running = true → d.started = true
  idle : d.registry.running = false →
    (∀ id, d.registry.supervised.get? id = none) ∧ ∀ l, l ∉ d.loops
  early : ∀ id epoch, d.registry.supervised.get? id = some epoch → epoch < d.registry.nextEpoch
  waits : ∀ x ∈ d.calls, ∀ epoch ∈ x.2.awaits,
    d.registry.running = true ∧ epoch < d.registry.nextEpoch
  halted : ∀ x ∈ d.calls, ∀ l ∈ d.loops, l.check.epoch ∈ x.2.awaits → d.stopped l = true

theorem withStoreHalting (settings : DirectorySettings) (store : Table Instance) :
    (withStore settings store).Halting where
  launches x mem := by cases mem
  once x mem := by cases mem
  runs running := by cases running
  idle _ := ⟨fun _ => rfl, fun _ mem => by cases mem⟩
  early id epoch found := by cases found
  waits x mem := by cases mem
  halted x mem := by cases mem

namespace Halting

theorem next (h : d.Halting) (started : d.started = true → e.started = true)
    (running : e.registry.running = d.registry.running)
    (grows : d.registry.nextEpoch ≤ e.registry.nextEpoch)
    (entries : ∀ id epoch, e.registry.supervised.get? id = some epoch →
      d.registry.supervised.get? id = some epoch ∨
        (d.registry.running = true ∧ epoch < e.registry.nextEpoch))
    (loops : ∀ l ∈ e.loops, (∃ old ∈ d.loops, old.check.epoch = l.check.epoch ∧
        (d.stopped old = true → e.stopped l = true)) ∨
      (d.registry.running = true ∧ d.registry.nextEpoch ≤ l.check.epoch))
    (calls : ∀ x ∈ e.calls, x ∈ d.calls ∨ (x.2 ≠ .launching ∧ ∀ epoch ∈ x.2.awaits,
      (∃ id, d.registry.supervised.get? id = some epoch) ∧
        ∀ l ∈ e.loops, l.check.epoch = epoch → e.stopped l = true)) : e.Halting := by
  have old {x : CallId × Call} (mem : x ∈ e.calls) (launching : x.2 = .launching) : x ∈ d.calls :=
    (calls x mem).resolve_right fun new => new.1 launching
  refine ⟨fun x mem launching => ?_, fun x hx y hy launching too => ?_, fun runs => ?_,
    fun rests => ⟨fun id => ?_, fun l mem => ?_⟩, fun id epoch found => ?_,
    fun x mem epoch own => ?_, fun x mem l there own => ?_⟩
  · rw [running]
    exact (h.launches x (old mem launching) launching).imp_left started
  · exact h.once x (old hx launching) y (old hy too) launching too
  · exact started (h.runs (running ▸ runs))
  · rw [running] at rests
    by_contra found
    obtain ⟨epoch, found⟩ := Option.ne_none_iff_exists'.mp found
    rcases entries id epoch found with was | ⟨runs, _⟩
    · rw [(h.idle rests).1] at was
      cases was
    · rw [rests] at runs
      cases runs
  · rw [running] at rests
    rcases loops l mem with ⟨old, there, _⟩ | ⟨runs, _⟩
    · exact (h.idle rests).2 old there
    · rw [rests] at runs
      cases runs
  · rcases entries id epoch found with was | ⟨_, early⟩
    · exact Nat.lt_of_lt_of_le (h.early id epoch was) grows
    · exact early
  · rw [running]
    rcases calls x mem with old | ⟨_, new⟩
    · exact (h.waits x old epoch own).imp_right fun early => Nat.lt_of_lt_of_le early grows
    · obtain ⟨id, found⟩ := (new epoch own).1
      refine ⟨?_, Nat.lt_of_lt_of_le (h.early id epoch found) grows⟩
      by_contra rests
      rw [(h.idle (Bool.eq_false_iff.mpr rests)).1] at found
      cases found
  · rcases calls x mem with old | ⟨_, new⟩
    · -- A loop that is new is younger than what anybody waits for.
      rcases loops l there with ⟨was, inside, same, stops⟩ | ⟨_, late⟩
      · exact stops (h.halted x old was inside (same ▸ own))
      · exact absurd (h.waits x old _ own).2 (Nat.not_lt.mpr late)
    · exact (new _ own).2 l there rfl

theorem quiet (h : d.Halting) (started : d.started = true → e.started = true)
    (running : e.registry.running = d.registry.running)
    (nextEpoch : e.registry.nextEpoch = d.registry.nextEpoch)
    (entries : ∀ id epoch, e.registry.supervised.get? id = some epoch →
      d.registry.supervised.get? id = some epoch) (heirs : Heirs d e)
    (calls : d.Newly (fun c => c ≠ .launching ∧ c.awaits = []) e) : e.Halting := by
  refine h.next started running (Nat.le_of_eq nextEpoch.symm)
    (fun id epoch found => .inl (entries id epoch found)) (fun l mem => .inl (heirs.own l mem))
    fun x mem => (calls x mem).imp_right fun ⟨other, bare⟩ => ⟨other, fun epoch own => ?_⟩
  rw [bare] at own
  cases own

theorem stopping (h : d.Halting) {epochs : List Nat}
    (listed : ∀ epoch ∈ epochs, ∃ id, d.registry.supervised.get? id = some epoch)
    (started : e.started = d.started) (running : e.registry.running = d.registry.running)
    (nextEpoch : e.registry.nextEpoch = d.registry.nextEpoch)
    (entries : ∀ id epoch, e.registry.supervised.get? id = some epoch →
      d.registry.supervised.get? id = some epoch)
    (loops : e.loops = (d.cancelLoops epochs).loops) (cancelled : e.cancelled = d.cancelled)
    (calls : d.Newly (fun c => c ≠ .launching ∧ c.awaits = epochs) e) : e.Halting := by
  have heirs := Heirs.cancelling (d := d) epochs loops fun was => cancelled.trans was
  refine h.next (fun was => started.trans was) running (Nat.le_of_eq nextEpoch.symm)
    (fun id epoch found => .inl (entries id epoch found)) (fun l mem => .inl (heirs.own l mem))
    fun x mem => (calls x mem).imp_right fun ⟨other, same⟩ => ⟨other, fun epoch own => ?_⟩
  rw [same] at own
  refine ⟨listed epoch own, fun l there mine => ?_⟩
  rw [stopped, cancelledLoops (loops ▸ there) (mine.symm ▸ own), Bool.true_or]

theorem arriving (h : d.Halting) {r : Registry} {orders : List LoopOrder}
    (enlists : r.Enlists e.registry orders) (supervised : r.supervised = d.registry.supervised)
    (runs : r.running = d.registry.running) (nextEpoch : r.nextEpoch = d.registry.nextEpoch)
    (started : e.started = d.started) (loops : e.loops = (d.startLoops orders).loops)
    (cancelled : e.cancelled = d.cancelled)
    (calls : d.Newly (fun c => c ≠ .launching ∧ c.awaits = []) e) : e.Halting := by
  have idle (some : orders ≠ []) : d.registry.running = true := by
    by_contra rests
    exact some (enlists.idle (runs.trans (Bool.eq_false_iff.mpr rests))).2
  refine h.next (fun was => started.trans was) (enlists.running.trans runs)
    (nextEpoch ▸ enlists.grows) (fun id epoch found => ?_) (fun l mem => ?_)
    fun x mem => (calls x mem).imp_right fun ⟨other, bare⟩ => ⟨other, fun epoch own => ?_⟩
  · rw [← supervised]
    refine (enlists.entries id epoch found).imp_right fun ⟨late, early, _⟩ => ⟨?_, early⟩
    by_contra rests
    rw [(enlists.idle (runs.trans (Bool.eq_false_iff.mpr rests))).1, supervised,
      (h.idle (Bool.eq_false_iff.mpr rests)).1] at found
    cases found
  · rw [loops] at mem
    rcases List.mem_append.mp mem with old | new
    · exact .inl ⟨l, old, rfl, fun was => by rwa [stopped, cancelled]⟩
    · obtain ⟨o, order, rfl⟩ := List.mem_map.mp new
      exact .inr ⟨idle (List.ne_nil_of_mem order), nextEpoch ▸ (enlists.ordered o order).1⟩
  · rw [bare] at own
    cases own

end Halting

theorem Halting.starting (h : d.Halting) (first : d.started = false) (started : e.started = true)
    (registry : e.registry = d.registry) (loops : e.loops = d.loops)
    (calls : e.calls = d.calls ++ [(d.nextCall, .launching)]) : e.Halting := by
  have unlaunched (x : CallId × Call) (mem : x ∈ d.calls) : x.2 ≠ .launching := fun launching => by
    have already := (h.launches x mem launching).1
    rw [first] at already
    cases already
  have rests : d.registry.running = false := Bool.eq_false_iff.mpr fun runs => by
    have already := h.runs runs
    rw [first] at already
    cases already
  have idle := h.idle rests
  refine ⟨fun _ _ _ => ⟨started, registry ▸ rests⟩, ?_, fun _ => started, fun _ => ?_,
    registry ▸ h.early, ?_, fun x mem l there => ?_⟩
  · rw [calls]
    exact eachOpened (fun x hx y _ launching => absurd launching (unlaunched x hx))
      (eachOpened (fun y hy _ launching => absurd launching (unlaunched y hy)) fun _ _ => rfl)
  · rw [registry, loops]
    exact idle
  · rw [calls, registry]
    exact eachOpened h.waits nofun
  · exact absurd (loops ▸ there) (idle.2 l)

theorem Halting.launched (h : d.Halting) (custody : d.Custody) (found : d.call? k = some .launching) :
    (d.launch k).Halting := by
  have mine := memOfCall found
  obtain ⟨started, rests⟩ := h.launches _ mine rfl
  have unlaunched : ∀ x ∈ d.calls.filter (·.1 != k), x.2 ≠ .launching :=
    eachLeft fun x mem other own => other (congrArg Prod.fst (h.once x mem _ mine own rfl))
  have bare (x : CallId × Call) (mem : x ∈ d.calls) (epoch : Nat) : epoch ∉ x.2.awaits :=
    fun own => by
      have runs := (h.waits x mem epoch own).1
      rw [rests] at runs
      cases runs
  refine ⟨fun x mem launching => absurd launching (unlaunched x mem),
    fun x mem _ _ launching => absurd launching (unlaunched x mem), fun _ => started,
    (fun rests => by cases rests), fun id epoch there => ?_, ?_, ?_⟩
  · have table : (d.launch k).registry.supervised =
        Registry.putAll d.registry.supervised d.registry.untended := rfl
    rw [table] at there
    rcases Registry.putAllFound there with was | ⟨x, mem, rfl⟩
    · exact h.early id epoch was
    · exact custody.sound.past id x (Table.getOfMem custody.sound.distinct (List.mem_filter.mp mem).1)
  · exact eachLeft fun x mem _ epoch own => absurd own (bare x mem epoch)
  · exact eachLeft fun x mem _ l _ own => absurd own (bare x mem _)

theorem haltingStep (custody : d.Custody) (h : d.Halting) (next : d.step a = some e) : e.Halting := by
  cases stepDeed next with
  | opened opens =>
    exact h.quiet id rfl rfl (fun _ _ => id) (.same rfl id)
      (.opened rfl (by cases opens <;> exact ⟨nofun, rfl⟩))
  | removing =>
    refine h.stopping (fun epoch mem => ⟨_, Option.mem_toList.mp mem⟩) rfl rfl rfl
      (fun id epoch found => ?_) rfl rfl (.opened rfl ⟨nofun, rfl⟩)
    have found := (Table.getRemove d.registry.supervised _ id).symm.trans found
    split at found
    · cases found
    · exact found
  | starting first => exact h.starting first rfl rfl rfl rfl
  | broke => exact h.quiet (fun _ => rfl) rfl rfl (fun _ _ => id) (.same rfl id) (.same rfl)
  | closing =>
    exact h.quiet id rfl rfl (fun _ _ => id) (.same rfl fun _ => rfl) (.opened rfl ⟨nofun, rfl⟩)
  | ticked | moved =>
    exact h.quiet id rfl rfl (fun _ _ => id) (.same rfl id) (.opened rfl ⟨nofun, rfl⟩)
  | reserved | quieted | hushed | releasing | expired | told | stilled | saved | deleted | purged
  | listed | given =>
    exact h.quiet id rfl rfl (fun _ _ => id) (.same rfl id) (.moved rfl ⟨nofun, rfl⟩)
  | turnedAway | missed | expiredLast | silent | joined | unsaved | unlisted =>
    exact h.quiet id rfl rfl (fun _ _ => id) (.same rfl id) (.left rfl)
  | entered found =>
    exact h.arriving (Registry.enterEnlists (commitFree custody found)) rfl rfl rfl rfl rfl rfl
      (.moved rfl ⟨nofun, rfl⟩)
  | left found live =>
    exact h.quiet id (leaveRunning live) (Registry.leaveRecords live).2.2
      (fun id epoch found => Registry.leaveSupervised live ▸ found) (.same rfl id)
      (.moved rfl ⟨nofun, rfl⟩)
  | foundNone found expires =>
    have dismisses := expireDismisses custody expires
    exact h.quiet id dismisses.running (Registry.expireLoses custody.sound expires).2
      dismisses.entries (.cancelling [] rfl id) (.left rfl)
  | collected found expires =>
    have dismisses := expireDismisses custody expires
    refine h.stopping (fun epoch mem => ?_) rfl dismisses.running
      (Registry.expireLoses custody.sound expires).2 dismisses.entries rfl rfl
      (.moved rfl ⟨nofun, rfl⟩)
    obtain ⟨x, gone, loop⟩ := List.mem_filterMap.mp mem
    exact ⟨_, dismisses.loops x gone epoch loop⟩
  | loaded =>
    exact h.arriving (Registry.loadEnlists _ _ _) rfl rfl rfl rfl rfl rfl (.moved rfl ⟨nofun, rfl⟩)
  | launched found => exact h.launched custody found
  | drained =>
    exact h.quiet id rfl rfl (fun _ _ found => by cases found) (.cancelling _ rfl id)
      (.moved rfl ⟨nofun, rfl⟩)
  | @dropped k c =>
    cases c.guarded? <;> exact h.quiet id rfl rfl (fun _ _ => id) (.same rfl id) (.left rfl)
  | @passed a reports target epoch at_ =>
    have supervised := Registry.passedSupervised d.registry target epoch at_
    exact h.quiet id (passedRunning ..) (Registry.passedEpochs ..).2
      (fun id epoch found => supervised ▸ found) (.same rfl id) (.same rfl)
  | probing found runs begun =>
    have own := Health.CheckLoop.beginKeepsEpoch begun
    exact h.quiet id rfl rfl (fun _ _ => id) (.put found runs own rfl rfl) (.same rfl)
  | probed found runs ended =>
    have own := Health.CheckLoop.endKeepsEpoch ended
    exact h.quiet id rfl rfl (fun _ _ => id) (.put found runs own rfl rfl) (.same rfl)
  | ceased => exact h.quiet id rfl rfl (fun _ _ => id) (.dropped _) (.same rfl)
  | _ => exact h.quiet id rfl rfl (fun _ _ => id) (.same rfl id) (.same rfl)

def Orderly (d : Directory) : Prop :=
  ∀ j, d.order = some j → ∃ c, (j, c) ∈ d.calls ∧ c.announces = true

theorem withStoreOrderly (settings : DirectorySettings) (store : Table Instance) :
    (withStore settings store).Orderly := fun j holds => by cases holds

theorem orderlyStep (lined : d.Lined) (h : d.Orderly) (next : d.step a = some e) : e.Orderly := by
  obtain ⟨k, before, after, told, happens⟩ := stepTurns lined next
  obtain ⟨first, last, was, is⟩ := happens.calls
  intro j holds
  rw [happens.order, orderAfter] at holds
  split at holds
  · rename_i announces
    cases holds
    cases after with
    | none => cases announces
    | some c => exact ⟨c, by simp [is], announces⟩
  · split at holds
    · cases holds
    · rename_i quiet
      obtain ⟨c, mem, tells⟩ := h j holds
      have other : (j, c) ∉ before.toList.map (k, ·) := fun own => by
        obtain ⟨c', mine, same⟩ := List.mem_map.mp own
        cases same
        exact quiet (by simpa [Option.mem_toList.mp mine] using tells)
      refine ⟨c, ?_, tells⟩
      rw [was] at mem
      simp only [is, List.mem_append] at mem ⊢
      exact mem.imp_left fun mem => .inl (mem.resolve_right other)

theorem proceedsIf (found : d.call? k = some c) (can : (d.proceedWith k c).isSome = true) :
    (d.step (.proceed k)).isSome = true := by
  simpa [step, proceed, found] using can

theorem loopsEnd (loops : List Nat)
    (halted : ∀ l ∈ d.loops, l.check.epoch ∈ loops → d.stopped l = true) :
    ∃ ends rest, (∀ a ∈ ends, ∃ epoch, a = .endLoop epoch) ∧
      d.steps ends = some { d with loops := rest } ∧ rest ⊆ d.loops ∧
      ∀ l ∈ rest, l.check.epoch ∉ loops := by
  induction loops generalizing d with
  | nil => exact ⟨[], d.loops, nofun, rfl, fun _ mem => mem, fun _ _ => List.not_mem_nil⟩
  | cons epoch more ih =>
    have later (l : RunningLoop) (mem : l ∈ d.loops) (own : l.check.epoch ∈ more) :=
      halted l mem (List.mem_cons_of_mem _ own)
    cases found : d.loop? epoch with
    | none =>
      obtain ⟨ends, rest, hidden, run, fewer, ended⟩ := ih later
      refine ⟨ends, rest, hidden, run, fewer, fun l mem own => ?_⟩
      rcases List.mem_cons.mp own with mine | other
      · have none := List.find?_eq_none.mp found l (fewer mem)
        simp [mine] at none
      · exact ended l mem other
    | some l =>
      have own : l.check.epoch = epoch := by simpa using List.find?_some found
      have stops := halted l (List.mem_of_find?_eq_some found) (own ▸ List.mem_cons_self)
      have one : d.step (.endLoop epoch) = some (d.dropLoop epoch) := by
        simp [step, endLoop, found, stops]
      have left : ∀ l ∈ (d.dropLoop epoch).loops, l ∈ d.loops ∧ l.check.epoch ≠ epoch :=
        fun l mem => (List.mem_filter.mp mem).imp_right bne_iff_ne.mp
      obtain ⟨ends, rest, hidden, run, fewer, ended⟩ :=
        ih (d := d.dropLoop epoch) fun l mem own => later l (left l mem).1 own
      refine ⟨.endLoop epoch :: ends, rest, List.forall_mem_cons.mpr ⟨⟨epoch, rfl⟩, hidden⟩, ?_,
        fun l mem => (left l (fewer mem)).1, fun l mem own => ?_⟩
      · rw [steps, one, Option.bind_some, run]
        rfl
      · rcases List.mem_cons.mp own with mine | other
        · exact (left l (fewer mem)).2 mine
        · exact ended l mem other

theorem tellsAll {j : CallId} {notices : List Notice} {answer : Answer}
    (found : d.call? j = some (.announcing notices answer)) :
    ∃ tells e, (∀ a ∈ tells, a = .proceed j) ∧ d.steps tells = some e ∧ e.order = none ∧
      e.now = d.now ∧ e.skew = d.skew ∧ ∀ i ≠ j, e.call? i = d.call? i := by
  induction notices generalizing d with
  | nil =>
    have one : d.step (.proceed j) = some ({ d with order := none }.finish j (.ok answer)) := by
      simp [step, proceed, found, proceedWith, publishNext]
    refine ⟨[.proceed j], { d with order := none }.finish j (.ok answer), by simp,
      by rw [steps, one]; rfl, rfl, rfl, rfl, fun i other => ?_⟩
    exact (callLeft rfl i).trans (if_neg other)
  | cons n rest ih =>
    have one : d.step (.proceed j) =
        some ((d.publish (n.event d.clock)).moveTo j (.announcing rest answer)) := by
      simp [step, proceed, found, proceedWith, publishNext]
    have moved (i : CallId) :
        ((d.publish (n.event d.clock)).moveTo j (.announcing rest answer)).call? i =
          if i = j then some (.announcing rest answer) else d.call? i := callMoved found rfl i
    obtain ⟨tells, e, own, run, free, now, skew, others⟩ := ih ((moved j).trans (if_pos rfl))
    refine ⟨.proceed j :: tells, e, List.forall_mem_cons.mpr ⟨rfl, own⟩, ?_, free, now, skew,
      fun i other => (others i other).trans ((moved i).trans (if_neg other))⟩
    rw [steps, one, Option.bind_some, run]

end Directory
end ServiceDirectory
