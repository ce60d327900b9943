import ServiceDirectory.Proofs.Stories
import ServiceDirectory.Settings.Effective

/-! What a whole run publishes: the events about every id are a chronicle, and as long as nobody sets
the clock back their times never decrease. -/
namespace ServiceDirectory

structure Ordered (log : List Event) (t : Timestamp) : Prop where
  pairwise : log.Pairwise fun e f => e.stamp.nanos ≤ f.stamp.nanos
  bound : ∀ e ∈ log, e.stamp.nanos ≤ t.nanos

def Dated (log : List Event) (news : List Notice) (now : Timestamp) : Prop :=
  ∀ t : Timestamp, now.nanos ≤ t.nanos → Ordered (log ++ news.map (·.event t)) t

namespace Dated
variable {log : List Event} {news : List Notice} {now : Timestamp}

theorem later {clock : Timestamp} (h : Dated log news now) (passes : now.nanos ≤ clock.nanos) :
    Dated log news clock :=
  fun t after => h t (Int.le_trans passes after)

theorem past (h : Dated log [] now) : Ordered log now := by
  simpa using h now (Int.le_refl _)

theorem moment (h : Dated log [] now) {more : List Event} {t u : Timestamp}
    (same : ∀ e ∈ more, e.stamp = t) (after : now.nanos ≤ t.nanos) (until_ : t.nanos ≤ u.nanos) :
    Ordered (log ++ more) u where
  pairwise := by
    refine List.pairwise_append.mpr ⟨h.past.pairwise, ?_, fun e early f late => ?_⟩
    · exact List.pairwise_of_forall_mem_list fun e he f hf =>
        Int.le_of_eq (by rw [same e he, same f hf])
    · have earlier := h.past.bound e early
      rw [same f late]
      omega
  bound e mem := by
    rcases List.mem_append.mp mem with early | late
    · have earlier := h.past.bound e early
      omega
    · rw [same e late]
      exact until_

theorem plain (h : Dated log [] now) (fresh : ∀ n ∈ news, ∀ t, (n.event t).stamp = t) :
    Dated log news now := by
  intro t after
  refine h.moment (fun e mem => ?_) after (Int.le_refl _)
  obtain ⟨n, hn, rfl⟩ := List.mem_map.mp mem
  exact fresh n hn t

theorem tell {n : Notice} (h : Dated log (n :: news) now) :
    Dated (log ++ [n.event now]) news now := by
  intro t after
  have here := h now (Int.le_refl _)
  have there := h t after
  have waits (m : Notice) : (m.event now).stamp.nanos ≤ (m.event t).stamp.nanos := by
    cases m with
    | plain kind snapshot => exact after
    | stamped event => exact Int.le_refl _
  have hereParts := List.pairwise_append.mp here.pairwise
  have thereParts := List.pairwise_append.mp there.pairwise
  rw [List.append_assoc, List.singleton_append]
  refine ⟨List.pairwise_append.mpr ⟨hereParts.1, List.pairwise_cons.mpr ⟨fun f mem => ?_, ?_⟩,
    fun e early f mem => ?_⟩, fun e mem => ?_⟩
  · obtain ⟨m, hm, rfl⟩ := List.mem_map.mp mem
    have next := (List.pairwise_cons.mp hereParts.2.1).1 _ (List.mem_map_of_mem hm)
    exact Int.le_trans next (waits m)
  · exact (List.pairwise_cons.mp thereParts.2.1).2
  · rcases List.mem_cons.mp mem with rfl | mem
    · exact hereParts.2.2 e early _ List.mem_cons_self
    · exact thereParts.2.2 e early f (List.mem_cons_of_mem _ mem)
  · rcases List.mem_append.mp mem with early | mem
    · exact there.bound e (List.mem_append_left _ early)
    · rcases List.mem_cons.mp mem with rfl | mem
      · exact Int.le_trans (waits n) (there.bound _ (by simp))
      · exact there.bound e (List.mem_append_right _ (List.mem_cons_of_mem _ mem))

end Dated

section Turn
variable {r s : Registry} {now : Timestamp} {before after : Option Call} {told : List Event}

theorem turnQuiet (quiet : before.any Call.announces = false)
    (turn : Turn r now before s after told) : told = [] := by
  cases turn with
  | expired => cases quiet
  | told => cases quiet
  | _ => rfl

theorem turnDated {log : List Event} (h : Dated log (before.elim [] Call.news) now)
    (turn : Turn r now before s after told) :
    Dated (log ++ told) (after.elim [] Call.news) now := by
  cases turn with
  | along hands calm =>
    rw [quietNews hands.before] at h
    rw [quietNews hands.after, List.append_nil]
    exact h
  | @dropped c id parks holds quiet =>
    rw [quietNews (c := some c) quiet] at h
    rw [List.append_nil]
    exact h
  | @lost c admits quiet =>
    rw [quietNews (c := some c) quiet] at h
    rw [List.append_nil]
    exact h
  | entered i =>
    rw [List.append_nil]
    exact Dated.plain h fun n mem t => by cases List.mem_singleton.mp mem; rfl
  | left id live =>
    rw [List.append_nil]
    exact Dated.plain h fun n mem t => by cases List.mem_singleton.mp mem; rfl
  | loaded stored at_ =>
    rw [List.append_nil]
    refine Dated.plain h fun n mem t => ?_
    obtain ⟨i, _, rfl⟩ := List.mem_map.mp mem
    rfl
  | collected at_ timeout holds parks admits quiet =>
    rw [quietNews quiet, List.append_nil]
    exact h
  | expired round holds parks admits quiet =>
    rw [quietNews quiet]
    intro t after
    rw [List.map_nil, List.append_nil]
    exact Dated.moment h (fun e mem => by cases List.mem_singleton.mp mem; rfl) (Int.le_refl _) after
  | told n rest => exact Dated.tell h
  | moved live free differs later =>
    rw [List.append_nil]
    intro t after
    exact Dated.moment h (fun e mem => by cases List.mem_singleton.mp mem; rfl) (Int.le_refl _) after
  | _ => rw [List.append_nil]; exact h

end Turn

def Action.forward : Action → Bool
  | .setClock nanos => decide (0 ≤ nanos)
  | _ => true

namespace Directory
variable {d e : Directory} {k : CallId} {before after : Option Call} {told : List Event}

def news (d : Directory) : List Notice := d.calls.flatMap (·.2.news)

def story (d : Directory) : List Event := d.log.map Event.unstamped ++ d.news.map Notice.tale

theorem Happens.news (lined : d.Lined) (h : Happens d e k before after told) :
    (d.news = before.elim [] Call.news ∧ e.news = after.elim [] Call.news) ∨
      (told = [] ∧ before.elim [] Call.news = [] ∧ after.elim [] Call.news = [] ∧
        e.news = d.news) := by
  obtain ⟨first, last, was, is⟩ := h.calls
  have own (c : Option Call) : (c.toList.map (k, ·)).flatMap (fun x => x.2.news) =
      c.elim [] Call.news := by
    cases c <;> simp
  by_cases acts : before.any Call.announces = true ∨ after.any Call.announces = true
  · have none (calls : List (CallId × Call)) (within : ∀ x ∈ calls, x ∈ first ++ last) :
        calls.flatMap (fun x => x.2.news) = [] :=
      List.flatMap_eq_nil_iff.mpr fun x mem =>
        quietNews (c := some x.2) (h.quiet lined acts was x (within x mem))
    have early := none first fun x => List.mem_append_left _
    have late := none last fun x => List.mem_append_right _
    refine .inl ⟨?_, ?_⟩
    · rw [Directory.news, was, List.flatMap_append, List.flatMap_append, early, late, own]
      simp
    · rw [Directory.news, is, List.flatMap_append, List.flatMap_append, early, late, own]
      simp
  · rw [not_or, Bool.not_eq_true, Bool.not_eq_true] at acts
    refine .inr ⟨turnQuiet acts.1 h.turn, quietNews acts.1, quietNews acts.2, ?_⟩
    simp only [Directory.news, was, is, List.flatMap_append, own, quietNews acts.1,
      quietNews acts.2]

structure Accounted (d : Directory) : Prop where
  custody : d.Custody
  starting : ∀ i ∈ d.calls.flatMap (·.2.admits), i.status = .starting
  recounted : Recounted d.registry (d.calls.flatMap (·.2.parks)) (d.calls.flatMap (·.2.held)) d.story

theorem emptyAccounted (settings : DirectorySettings) : (empty settings).Accounted where
  custody := emptyCustody settings
  starting i mem := by cases mem
  recounted :=
    { live := fun id x found => by cases found
      taken := fun i mem => by cases mem
      closed := fun _ _ _ _ => rfl
      every := fun _ => ⟨none, rfl⟩ }

theorem accountedHappens (a : d.Accounted) (h : Happens d e k before after told) :
    e.Accounted := by
  obtain ⟨rest, was, is, known, _, quiet⟩ := h.others a.custody.lined
  have kept := a.custody.kept.perm (was.symm.flatMap_right _) (was.symm.flatMap_right _)
    (was.symm.flatMap_right _)
  have recounted := a.recounted.perm (was.symm.flatMap_right _) (was.symm.flatMap_right _)
  have starting (i : Instance)
      (mem : i ∈ (before.toList.map (k, ·) ++ rest).flatMap (·.2.admits)) : i.status = .starting :=
    a.starting i ((was.flatMap_right _).mem_iff.mpr mem)
  simp only [handsSplit] at kept recounted starting
  have own (i : Instance) (mem : i ∈ before.elim [] Call.admits) :=
    starting i (List.mem_append_left _ mem)
  refine ⟨custodyHappens a.custody h, fun i mem => ?_, ?_⟩
  · have mem := (is.flatMap_right _).mem_iff.mp mem
    rw [handsSplit] at mem
    rcases List.mem_append.mp mem with mine | theirs
    · exact turnAdmits own h.turn i mine
    · exact starting i (List.mem_append_right _ theirs)
  · -- The story splits at the pending tales of the call whose turn it is, if it has any.
    have turn (story : List Event) (tales : d.story = story ++ pendingTales before) :=
      turnRecounts a.custody.sound kept own (fun takes _ => heldWithin (quiet (.inr takes)))
        (tales ▸ recounted) h.turn
    have log : e.log.map Event.unstamped = d.log.map Event.unstamped ++ told.map Event.unstamped := by
      rw [h.log, List.map_append]
    refine Recounted.perm ?_ (is.flatMap_right _) (is.flatMap_right _)
    rw [handsSplit, handsSplit]
    rcases h.news a.custody.lined with ⟨old, new⟩ | ⟨silent, old, new, same⟩
    · rw [story, log, new]
      exact turn _ (by rw [story, old]; rfl)
    · have next := turn d.story (by rw [pendingTales, old]; simp)
      rw [pendingTales, new, silent] at next
      rw [story, log, same, silent]
      simpa [story] using next

theorem accountedSteps (a : d.Accounted) {actions : List Action} (run : d.steps actions = some e) :
    e.Accounted := by
  induction actions generalizing d with
  | nil => cases run; exact a
  | cons action rest ih =>
    obtain ⟨m, one, others⟩ := Option.bind_eq_some_iff.mp run
    obtain ⟨k, before, after, told, h⟩ := stepTurns a.custody.lined one
    exact ih (accountedHappens a h) others

structure SameTime (d e : Directory) : Prop where
  now : e.now = d.now
  skew : e.skew = d.skew

theorem SameTime.clock (h : SameTime d e) : e.clock = d.clock := by
  rw [Directory.clock, h.now, h.skew, Directory.clock]

theorem beginTime (d : Directory) (request : Request) : SameTime d (d.begin request) := by
  cases request <;>
    simp only [begin, beginRegister, beginDeregister, beginHeartbeat, beginStart] <;>
    repeat' split
  all_goals exact ⟨rfl, rfl⟩

theorem collectTime (d : Directory) (k : CallId) (at_ : Timestamp) :
    SameTime d (d.collect k at_) := by
  simp only [collect]
  split <;> exact ⟨rfl, rfl⟩

theorem proceedTime {c : Call} (next : d.proceedWith k c = some e) : SameTime d e := by
  cases c with
  | collecting at_ => cases next; exact collectTime d k at_
  | _ =>
    simp only [proceedWith, reserve, leave, publishExpired, publishNext] at next
    repeat' split at next
    all_goals cases next
    all_goals exact ⟨rfl, rfl⟩

theorem settleTime {failure : Option Failure} (next : d.settle k failure = some e) :
    SameTime d e := by
  simp only [settle, bind, Option.bind_eq_some_iff] at next
  obtain ⟨c, _, work, _, next⟩ := next
  split at next <;> cases next <;> split <;> exact ⟨rfl, rfl⟩

theorem applyTime {report : Health.Report} (next : d.applyReport report = some e) :
    SameTime d e := by
  simp only [applyReport] at next
  repeat' split at next
  all_goals cases next
  all_goals exact ⟨rfl, rfl⟩

theorem stepTime {a : Action} (passes : ∀ ms, a ≠ .pass ms) (sets : ∀ nanos, a ≠ .setClock nanos)
    (next : d.step a = some e) : SameTime d e := by
  cases a with
  | begin request => cases next; exact beginTime d request
  | proceed call =>
    obtain ⟨c, _, next⟩ := Option.bind_eq_some_iff.mp next
    exact proceedTime next
  | settle call failure => exact settleTime next
  | abandon call =>
    simp only [step, abandon, bind, Option.bind_eq_some_iff] at next
    obtain ⟨c, _, next⟩ := next
    split at next
    · cases next; exact ⟨rfl, rfl⟩
    · cases next
  | applyNext =>
    simp only [step, applyNext] at next
    split at next
    · cases next
    · split at next
      · have same := applyTime next
        exact ⟨same.now, same.skew⟩
      · cases next
  | applyDirect report => exact applyTime next
  | beginProbe epoch outcome =>
    simp only [step, beginProbe, bind, Option.bind_eq_some_iff] at next
    obtain ⟨l, _, next⟩ := next
    split at next
    · cases next
    · obtain ⟨check, _, next⟩ := Option.bind_eq_some_iff.mp next
      cases next
      exact ⟨rfl, rfl⟩
  | endProbe epoch =>
    simp only [step, endProbe, bind, Option.bind_eq_some_iff] at next
    obtain ⟨l, _, next⟩ := next
    split at next
    · cases next
    · obtain ⟨reports, _, next⟩ := Option.bind_eq_some_iff.mp next
      cases next
      exact ⟨rfl, rfl⟩
  | endLoop epoch =>
    simp only [step, endLoop, bind, Option.bind_eq_some_iff] at next
    obtain ⟨l, _, next⟩ := next
    split at next
    · cases next; exact ⟨rfl, rfl⟩
    · cases next
  | pass ms => exact absurd rfl (passes ms)
  | setClock nanos => exact absurd rfl (sets nanos)
  | _ =>
    simp only [step, endApplier, sweepTick, endSweeper, answerListing, reorder] at next
    repeat' split at next
    all_goals cases next
    all_goals exact ⟨rfl, rfl⟩

theorem stepClock {a : Action} (forward : a.forward = true) (next : d.step a = some e) :
    d.clock.nanos ≤ e.clock.nanos := by
  cases a with
  | pass ms =>
    cases next
    simp only [clock, Timestamp.ofMillis, Timestamp.ofNanos, Timestamp.perMilli]
    omega
  | setClock nanos =>
    cases next
    have ahead : 0 ≤ nanos := by simpa [Action.forward] using forward
    simp only [clock, Timestamp.ofNanos]
    omega
  | _ => exact Int.le_of_eq (congrArg _ (stepTime (by simp) (by simp) next).clock.symm)

theorem datedStep (lined : d.Lined) (dated : Dated d.log d.news d.clock) {a : Action}
    (forward : a.forward = true) (next : d.step a = some e) : Dated e.log e.news e.clock := by
  refine Dated.later ?_ (stepClock forward next)
  obtain ⟨k, before, after, told, h⟩ := stepTurns lined next
  rw [h.log]
  rcases h.news lined with ⟨old, new⟩ | ⟨silent, _, _, same⟩
  · rw [new]
    exact turnDated (old ▸ dated) h.turn
  · rw [silent, same, List.append_nil]
    exact dated

theorem datedSteps (c : d.Custody) (dated : Dated d.log d.news d.clock) {actions : List Action}
    (forward : ∀ a ∈ actions, a.forward = true) (run : d.steps actions = some e) :
    Dated e.log e.news e.clock := by
  induction actions generalizing d with
  | nil => cases run; exact dated
  | cons a rest ih =>
    obtain ⟨m, one, others⟩ := Option.bind_eq_some_iff.mp run
    exact ih (custodyStep c one) (datedStep c.lined dated (forward a List.mem_cons_self) one)
      (fun b mem => forward b (List.mem_cons_of_mem _ mem)) others

/-- However the calls of a run come in between each other, and whichever of them are dropped, the
events about an id are told registration by registration. With a clock that is never set back they
are told in order of time. -/
theorem publicationsAreChronicles {settings : DirectorySettings} {actions : List Action}
    (run : (empty settings).steps actions = some d) :
    (∀ id, ∃ last, Chronicle none (about id d.log) last) ∧
      ((∀ a ∈ actions, a.forward = true) →
        d.log.Pairwise fun e f => e.stamp.nanos ≤ f.stamp.nanos) := by
  constructor
  · intro id
    obtain ⟨last, whole⟩ := (accountedSteps (emptyAccounted settings) run).recounted.every id
    rw [story, aboutAppend, aboutUnstamped] at whole
    obtain ⟨now, told⟩ := whole.start
    exact ⟨now, Chronicle.unstamped.mp told⟩
  · intro forward
    have start : Dated (empty settings).log (empty settings).news (empty settings).clock :=
      fun t _ => ⟨.nil, fun e mem => by cases mem⟩
    have dated := datedSteps (emptyCustody settings) start forward run d.clock (Int.le_refl _)
    exact (List.pairwise_append.mp dated.pairwise).1

def lifetime : List Action :=
  [.begin (.register (.fresh "a" "web" "h:1" .origin)), .proceed 0, .settle 0 none, .proceed 0,
    .proceed 0, .proceed 0, .pass 5,
    .applyDirect (.transition "a" 1 .starting .up ⟨none, .origin⟩), .proceed 1, .proceed 1,
    .begin (.deregister "a"), .proceed 2, .settle 2 none, .proceed 2, .proceed 2]

theorem lifetimeTold :
    ∃ d, (empty Settings.standard.directory).steps lifetime = some d ∧
      d.log.map (·.kind) = [.registered, .statusChanged, .deregistered] ∧
      (∃ last, Chronicle none (about "a" d.log) last) ∧
      d.log.Pairwise fun e f => e.stamp.nanos ≤ f.stamp.nanos := by
  have run : (empty Settings.standard.directory).steps lifetime = some _ := rfl
  have told := publicationsAreChronicles run
  exact ⟨_, run, by decide, told.1 "a", told.2 (by decide)⟩

end Directory
end ServiceDirectory
