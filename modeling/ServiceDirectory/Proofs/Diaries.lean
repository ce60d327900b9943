import Mathlib.Data.List.Induction
import ServiceDirectory.Health.Watch
import ServiceDirectory.Proofs.Dispatches
import ServiceDirectory.Proofs.Streaks

/-! The life of one check loop, written down: when each probe was begun, what came of it, and what
was reported. Whoever holds the loop may cancel it, collect or close the reports between any two of
its acts; time passes only while it has nothing to do. -/
namespace ServiceDirectory.Health

namespace Script

def outcome (script : Script) (k : Nat) : Outcome := script[min k (script.length - 1)]?.getD .pass

def left (script : Script) (k : Nat) : Script := script.drop (min k (script.length - 1))

theorem drawLeft (script : Script) (k : Nat) :
    (script.left k).draw = (script.outcome k, script.left (k + 1)) := by
  unfold left outcome
  rcases Nat.lt_or_ge (k + 1) script.length with more | last
  · have here : min k (script.length - 1) = k := by omega
    have next : min (k + 1) (script.length - 1) = k + 1 := by omega
    have inside : k < script.length := by omega
    rw [here, next, List.drop_eq_getElem_cons inside, List.drop_eq_getElem_cons more]
    simp [draw, inside]
  · have here : min k (script.length - 1) = script.length - 1 := by omega
    have next : min (k + 1) (script.length - 1) = script.length - 1 := by omega
    rw [here, next]
    rcases script.length.eq_zero_or_pos with none | some
    · rw [List.length_eq_zero_iff.mp none]
      rfl
    · have inside : script.length - 1 < script.length := by omega
      have only : script.drop (script.length - 1) = [script[script.length - 1]] := by
        rw [List.drop_eq_getElem_cons inside, List.drop_of_length_le (by omega)]
      rw [only]
      simp [draw, inside]

end Script

section Results
variable (settings : LoopSettings) (script : Script)

def spent (o : Outcome) : Nat := min (o.delay.getD 0) settings.timeout

def resultOf (start : Nat) (o : Outcome) : ProbeResult :=
  ⟨(CheckLoop.bounded settings.timeout o).2, .ofMillis (start + spent settings o)⟩

def resultsOf (begun : List Nat) : List ProbeResult :=
  begun.mapIdx fun k start => resultOf settings start (script.outcome k)

variable {settings script}

theorem boundedSpent (o : Outcome) :
    (CheckLoop.bounded settings.timeout o).1 = spent settings o := by
  rw [CheckLoop.bounded, spent]
  by_cases late : settings.timeout < o.delay.getD 0
  · rw [if_pos late]
    exact (Nat.min_eq_right (Nat.le_of_lt late)).symm
  · rw [if_neg late]
    exact (Nat.min_eq_left (Nat.le_of_not_lt late)).symm

theorem resultPasses (start : Nat) (o : Outcome) : (resultOf settings start o).passed = true ↔
    o.failure = none ∧ o.delay.getD 0 ≤ settings.timeout := by
  rw [ProbeResult.passed, resultOf, CheckLoop.bounded]
  by_cases late : settings.timeout < o.delay.getD 0
  · simp [late]
  · simpa [late] using fun _ => Nat.le_of_not_lt late

theorem resultsNext (before : List Nat) (start : Nat) :
    resultsOf settings script (before ++ [start]) =
      resultsOf settings script before ++
        [resultOf settings start (script.outcome before.length)] := by
  simp [resultsOf]

end Results

section Told
variable (settings : LoopSettings) (id : String) (epoch : Nat)

def reportsOf (g : Gauge) (r : ProbeResult) : List Report :=
  (if r.passed && settings.reportPasses then [.passed id epoch r.observedAt] else []) ++
    match (g.observe settings.thresholds r.passed).next with
    | none => []
    | some status => [.transition id epoch g.status status r]

def told : Gauge → List ProbeResult → List Report
  | _, [] => []
  | g, r :: rest =>
    reportsOf settings id epoch g r ++ told (g.next settings.thresholds r.passed) rest

variable {settings id epoch}

theorem toldNext (g : Gauge) (before : List ProbeResult) (r : ProbeResult) :
    told settings id epoch g (before ++ [r]) = told settings id epoch g before ++
      reportsOf settings id epoch (g.after settings.thresholds (before.map (·.passed))) r := by
  induction before generalizing g with
  | nil => simp [told, Gauge.after]
  | cons first rest ih => simp [told, ih, Gauge.after]

def CheckLoop.gauge (l : CheckLoop) : Gauge := ⟨l.status, l.counters⟩

theorem observeTells (settings : LoopSettings) (r : ProbeResult) (l : CheckLoop) :
    l.observe settings r =
      ({ l with status := (l.gauge.next settings.thresholds r.passed).status,
                counters := (l.gauge.next settings.thresholds r.passed).counters },
        reportsOf settings l.id l.epoch l.gauge r) := by
  unfold CheckLoop.observe
  cases change : nextStatus l.status (l.counters.record r.passed) settings.thresholds <;>
    simp [reportsOf, Gauge.next, Gauge.observe, CheckLoop.gauge, change]

theorem toldLeads (g : Gauge) (results : List ProbeResult) :
    Leads g.status (moves (id, epoch) (told settings id epoch g results))
      (g.after settings.thresholds (results.map (·.passed))).status := by
  induction results using List.reverseRecOn with
  | nil => exact .here g.status
  | append_singleton before r ih =>
    let now := g.after settings.thresholds (before.map (·.passed))
    let l : CheckLoop := ⟨id, "", epoch, now.status, now.counters, .waiting 0⟩
    have leads := (observeLeads (observeTells settings r l).symm).2 ih
    rw [toldNext, moves, List.filterMap_append, List.map_append, List.map_singleton,
      Gauge.afterNext]
    exact leads

end Told

namespace SoloLoop

variable {s t : SoloLoop} {l : CheckLoop} {due ends : Nat} {failure : Option String}

def beginning (s : SoloLoop) (l : CheckLoop) (due : Nat) : SoloLoop :=
  let phase : LoopPhase := .probing (tickAfter s.settings.interval due s.now)
    (s.now + spent s.settings s.script.draw.1)
    (CheckLoop.bounded s.settings.timeout s.script.draw.1).2
  { s with loop := some { l with phase }, script := s.script.draw.2, probes := s.probes + 1 }

def observing (s : SoloLoop) (l : CheckLoop) (due : Nat) (failure : Option String) : SoloLoop :=
  let r : ProbeResult := ⟨failure, .ofMillis s.now⟩
  let g := l.gauge.next s.settings.thresholds r.passed
  let m : CheckLoop := ⟨l.id, l.endpoint, l.epoch, g.status, g.counters, .waiting due⟩
  let reports := reportsOf s.settings l.id l.epoch l.gauge r
  if s.listening then { s with loop := some m, sent := s.sent ++ reports }
  else { s with loop := if reports.isEmpty then some m else none }

theorem actCancelled (runs : s.loop = some l) (cancelled : s.cancelled = true) :
    s.act = some { s with loop := none } := by simp [act, runs, cancelled]

theorem actWaiting (ticks : s.settings.interval ≠ 0) (runs : s.loop = some l)
    (free : s.cancelled = false) (waits : l.phase = .waiting due) :
    s.act = if due ≤ s.now then some (s.beginning l due) else none := by
  by_cases come : due ≤ s.now <;>
    simp [act, runs, free, ticks, CheckLoop.endProbe, CheckLoop.beginProbe, waits, come, beginning,
      boundedSpent]

theorem actProbing (ticks : s.settings.interval ≠ 0) (runs : s.loop = some l)
    (free : s.cancelled = false) (probes : l.phase = .probing due ends failure) :
    s.act = if ends ≤ s.now then some (s.observing l due failure) else none := by
  by_cases come : ends ≤ s.now <;> cases listens : s.listening <;>
    simp [act, runs, free, ticks, CheckLoop.endProbe, CheckLoop.beginProbe, probes, come, observing,
      observeTells, CheckLoop.gauge, listens]

inductive Acts (s : SoloLoop) : SoloLoop → Prop where
  | stops {l : CheckLoop} (runs : s.loop = some l) (cancelled : s.cancelled = true) :
      Acts s { s with loop := none }
  | begins {l : CheckLoop} {due : Nat} (runs : s.loop = some l) (free : s.cancelled = false)
      (waits : l.phase = .waiting due) (come : due ≤ s.now) : Acts s (s.beginning l due)
  | observes {l : CheckLoop} {due ends : Nat} {failure : Option String} (runs : s.loop = some l)
      (free : s.cancelled = false) (probes : l.phase = .probing due ends failure)
      (come : ends ≤ s.now) : Acts s (s.observing l due failure)

theorem actIs (ticks : s.settings.interval ≠ 0) (next : s.act = some t) : Acts s t := by
  cases runs : s.loop with
  | none => simp [act, runs] at next
  | some l =>
    cases free : s.cancelled with
    | true =>
      rw [actCancelled runs free] at next
      cases next
      exact .stops runs free
    | false =>
      cases phase : l.phase with
      | waiting due =>
        rw [actWaiting ticks runs free phase] at next
        split at next
        · rename_i come
          cases next
          exact .begins runs free phase come
        · cases next
      | probing due ends failure =>
        rw [actProbing ticks runs free phase] at next
        split at next
        · rename_i come
          cases next
          exact .observes runs free phase come
        · cases next

inductive Happening where
  | act
  | wait (ms : Nat)
  | cancel
  | close
  | collect
  deriving DecidableEq, Repr

def meet (s : SoloLoop) : Happening → Option SoloLoop
  | .act => s.act
  | .wait ms =>
    if s.act.isNone && s.loop.all fun l => s.now + ms ≤ l.wakes then
      some { s with now := s.now + ms }
    else none
  | .cancel => some s.cancel
  | .close => some s.closeReports
  | .collect => some s.collect.2

end SoloLoop

/-- When probes were begun, what was observed of them and what was sent, each in order. -/
structure Diary where
  begun : List Nat
  observed : List ProbeResult
  sent : List Report
  deriving DecidableEq, Repr

namespace Diary

def blank : Diary := ⟨[], [], []⟩

def act (d : Diary) (s t : SoloLoop) : Diary :=
  if s.cancelled then d
  else match s.loop.map CheckLoop.phase with
    | some (.waiting _) => { d with begun := d.begun ++ [s.now] }
    | some (.probing _ _ failure) =>
      { d with
        observed := d.observed ++ [⟨failure, .ofMillis s.now⟩],
        sent := d.sent ++ t.sent.drop s.sent.length }
    | none => d

end Diary

structure Watched where
  solo : SoloLoop
  diary : Diary

namespace Watched
open SoloLoop (Happening)

def begin (settings : LoopSettings) (script : Script) (i : Instance) (epoch : Nat) : Watched :=
  ⟨.begin settings script i epoch, .blank⟩

def next (w : Watched) (h : Happening) : Option Watched :=
  (w.solo.meet h).map fun t => ⟨t, if h = .act then w.diary.act w.solo t else w.diary⟩

def after (w : Watched) : List Happening → Option Watched
  | [] => some w
  | h :: rest => (w.next h).bind (·.after rest)

end Watched

section Kept
variable (settings : LoopSettings) (script : Script) (i : Instance) (epoch : Nat)

def toldOf (results : List ProbeResult) : List Report :=
  told settings i.id epoch ⟨i.status, .zero⟩ results

structure Tracks (l : CheckLoop) (d : Diary) : Prop where
  owner : l.id = i.id
  registration : l.epoch = epoch
  gauge : l.gauge =
    Gauge.after settings.thresholds ⟨i.status, .zero⟩ (d.observed.map (·.passed))
  sent : d.sent = toldOf settings i epoch d.observed

inductive Stage (s : SoloLoop) (d : Diary) : Prop where
  | waits {l : CheckLoop} {due : Nat} (runs : s.loop = some l)
      (tracks : Tracks settings i epoch l d) (phase : l.phase = .waiting due)
      (observed : d.observed = resultsOf settings script d.begun)
      (past : ∀ k start, d.begun[k]? = some start →
        start + spent settings (script.outcome k) ≤ s.now)
  | probes {l : CheckLoop} {due : Nat} {before : List Nat} {start : Nat} (runs : s.loop = some l)
      (tracks : Tracks settings i epoch l d)
      (phase : l.phase = .probing due (start + spent settings (script.outcome before.length))
        (CheckLoop.bounded settings.timeout (script.outcome before.length)).2)
      (begun : d.begun = before ++ [start])
      (observed : d.observed = resultsOf settings script before)
      (past : ∀ k earlier, before[k]? = some earlier →
        earlier + spent settings (script.outcome k) ≤ start)
      (soon : s.now ≤ start + spent settings (script.outcome before.length))
  | ended (gone : s.loop = none)
      (observed : d.observed = resultsOf settings script d.begun ∨
        ∃ before start, d.begun = before ++ [start] ∧ d.observed = resultsOf settings script before)
      (why : s.cancelled = true ∧ d.sent = toldOf settings i epoch d.observed ∨
        s.listening = false ∧ ∃ front last, d.observed = front ++ [last] ∧
          d.sent = toldOf settings i epoch front ∧
            toldOf settings i epoch (front ++ [last]) ≠ toldOf settings i epoch front)

structure Kept (w : Watched) : Prop where
  set : w.solo.settings = settings
  drawn : w.solo.script = script.left w.solo.probes
  counted : w.diary.begun.length = w.solo.probes
  apart : ∀ k start later, w.diary.begun[k]? = some start → w.diary.begun[k + 1]? = some later →
    start + spent settings (script.outcome k) ≤ later
  stage : Stage settings script i epoch w.solo w.diary

variable {settings script i epoch} {s t : SoloLoop} {d : Diary}

theorem beginKept : Kept settings script i epoch (.begin settings script i epoch) where
  set := rfl
  drawn := by simp [Watched.begin, SoloLoop.begin, Script.left]
  counted := rfl
  apart := nofun
  stage := .waits rfl ⟨rfl, rfl, rfl, rfl⟩ rfl rfl nofun

theorem Stage.aside (h : Stage settings script i epoch s d) (loop : t.loop = s.loop)
    (later : s.now ≤ t.now) (soon : ∀ l, s.loop = some l → s.now = t.now ∨ t.now ≤ l.wakes)
    (cancelled : s.cancelled = true → t.cancelled = true)
    (listening : s.listening = false → t.listening = false) :
    Stage settings script i epoch t d := by
  cases h with
  | waits runs tracks phase observed past =>
    exact .waits (loop.trans runs) tracks phase observed fun k start mem =>
      Nat.le_trans (past k start mem) later
  | probes runs tracks phase begun observed past early =>
    refine .probes (loop.trans runs) tracks phase begun observed past ?_
    rcases soon _ runs with same | le
    · exact same ▸ early
    · simpa [CheckLoop.wakes, phase] using le
  | ended gone observed why =>
    exact .ended (loop.trans gone) observed
      (why.imp (And.imp_left cancelled) (And.imp_left listening))

theorem Stage.results (h : Stage settings script i epoch s d) :
    d.observed = resultsOf settings script d.begun ∨ ∃ before start,
      d.begun = before ++ [start] ∧ d.observed = resultsOf settings script before := by
  cases h with
  | waits _ _ _ observed => exact .inl observed
  | probes _ _ _ begun observed => exact .inr ⟨_, _, begun, observed⟩
  | ended _ observed => exact observed

theorem Stage.running (h : Stage settings script i epoch s d) {l : CheckLoop}
    (runs : s.loop = some l) : Tracks settings i epoch l d := by
  cases h with
  | waits own tracks | probes own tracks =>
    cases runs.symm.trans own
    exact tracks
  | ended gone => cases runs.symm.trans gone

theorem Stage.waiting (h : Stage settings script i epoch s d) {l : CheckLoop} {due : Nat}
    (runs : s.loop = some l) (phase : l.phase = .waiting due) : Tracks settings i epoch l d ∧
      d.observed = resultsOf settings script d.begun ∧ ∀ k start, d.begun[k]? = some start →
        start + spent settings (script.outcome k) ≤ s.now := by
  cases h with
  | waits own tracks _ observed past =>
    cases runs.symm.trans own
    exact ⟨tracks, observed, past⟩
  | probes own _ other =>
    cases runs.symm.trans own
    cases phase.symm.trans other
  | ended gone => cases runs.symm.trans gone

theorem Stage.probing (h : Stage settings script i epoch s d) {l : CheckLoop} {due ends : Nat}
    {failure : Option String} (runs : s.loop = some l)
    (phase : l.phase = .probing due ends failure) :
    Tracks settings i epoch l d ∧ ∃ before start, d.begun = before ++ [start] ∧
      d.observed = resultsOf settings script before ∧
      ends = start + spent settings (script.outcome before.length) ∧
      failure = (CheckLoop.bounded settings.timeout (script.outcome before.length)).2 ∧
      (∀ k earlier, before[k]? = some earlier →
        earlier + spent settings (script.outcome k) ≤ start) ∧ s.now ≤ ends := by
  cases h with
  | waits own _ other =>
    cases runs.symm.trans own
    cases phase.symm.trans other
  | probes own tracks same begun observed past soon =>
    cases runs.symm.trans own
    cases phase.symm.trans same
    exact ⟨tracks, _, _, begun, observed, rfl, rfl, past, soon⟩
  | ended gone => cases runs.symm.trans gone

theorem getNext {before : List Nat} {last start : Nat} {k : Nat}
    (found : (before ++ [last])[k]? = some start) :
    before[k]? = some start ∨ k = before.length ∧ start = last := by
  rcases Nat.lt_trichotomy k before.length with inside | rfl | beyond
  · rw [List.getElem?_append_left inside] at found
    exact .inl found
  · rw [List.getElem?_concat_length] at found
    exact .inr ⟨rfl, (Option.some.inj found).symm⟩
  · rw [List.getElem?_eq_none (by simp; omega)] at found
    cases found

theorem beginsKept (h : Kept settings script i epoch ⟨s, d⟩) {l : CheckLoop} {due : Nat}
    (runs : s.loop = some l) (waits : l.phase = .waiting due) :
    Kept settings script i epoch ⟨s.beginning l due, { d with begun := d.begun ++ [s.now] }⟩ := by
  obtain ⟨set, drawn, counted, apart, stage⟩ := h
  dsimp only at set drawn counted apart stage
  obtain ⟨tracks, observed, past⟩ := stage.waiting runs waits
  have draws : s.script.draw = (script.outcome d.begun.length, script.left (s.probes + 1)) := by
    rw [drawn, counted, Script.drawLeft]
  refine ⟨set, congrArg Prod.snd draws, by simp [SoloLoop.beginning, counted], ?_, ?_⟩
  · intro k start later found next
    rcases getNext found with mem | ⟨rfl, rfl⟩
    · rcases getNext next with mem' | ⟨_, rfl⟩
      · exact apart k start later mem mem'
      · exact past k start mem
    · rw [List.getElem?_eq_none (by simp)] at next
      cases next
  · have phase : ∀ later, LoopPhase.probing later (s.now + spent s.settings s.script.draw.1)
        (CheckLoop.bounded s.settings.timeout s.script.draw.1).2 =
          .probing later (s.now + spent settings (script.outcome d.begun.length))
            (CheckLoop.bounded settings.timeout (script.outcome d.begun.length)).2 :=
      fun _ => by rw [draws, set]
    exact .probes rfl ⟨tracks.owner, tracks.registration, tracks.gauge, tracks.sent⟩ (phase _) rfl
      observed past (Nat.le_add_right _ _)

theorem observedNow {before : List Nat} {start ends : Nat} {failure : Option String}
    (ended : ends = start + spent settings (script.outcome before.length))
    (why : failure = (CheckLoop.bounded settings.timeout (script.outcome before.length)).2)
    (now : s.now = ends) : resultsOf settings script (before ++ [start]) =
      resultsOf settings script before ++ [⟨failure, .ofMillis s.now⟩] := by
  rw [resultsNext, resultOf, why, now, ended]
  rfl

theorem observesKept (h : Kept settings script i epoch ⟨s, d⟩) {l : CheckLoop} {due ends : Nat}
    {failure : Option String} (runs : s.loop = some l)
    (probes : l.phase = .probing due ends failure) (come : ends ≤ s.now) :
    Kept settings script i epoch ⟨s.observing l due failure,
      { d with
        observed := d.observed ++ [⟨failure, .ofMillis s.now⟩],
        sent := d.sent ++ (s.observing l due failure).sent.drop s.sent.length }⟩ := by
  obtain ⟨set, drawn, counted, apart, stage⟩ := h
  dsimp only at set drawn counted apart stage
  subst set
  obtain ⟨tracks, before, start, begun, observed, ended, why, past, soon⟩ :=
    stage.probing runs probes
  have now : s.now = ends := Nat.le_antisymm soon come
  let r : ProbeResult := ⟨failure, .ofMillis s.now⟩
  let reports := reportsOf s.settings l.id l.epoch l.gauge r
  have results : d.observed ++ [r] = resultsOf s.settings script d.begun := by
    rw [begun, observedNow ended why now, observed]
  have tells : toldOf s.settings i epoch (d.observed ++ [r]) =
      toldOf s.settings i epoch d.observed ++ reports := by
    rw [toldOf, toldOf, toldNext, ← tracks.gauge, ← tracks.owner, ← tracks.registration]
  have gauge : l.gauge.next s.settings.thresholds r.passed =
      Gauge.after s.settings.thresholds ⟨i.status, .zero⟩ ((d.observed ++ [r]).map (·.passed)) := by
    rw [List.map_append, List.map_singleton, Gauge.afterNext, ← tracks.gauge]
  have finished : ∀ k earlier, d.begun[k]? = some earlier →
      earlier + spent s.settings (script.outcome k) ≤ s.now := by
    intro k earlier found
    rcases getNext (begun ▸ found) with mem | ⟨rfl, rfl⟩
    · exact Nat.le_trans (past k earlier mem) (by omega)
    · omega
  cases listens : s.listening with
  | true =>
    have same : s.observing l due failure = { s with
        loop := some ⟨l.id, l.endpoint, l.epoch,
          (l.gauge.next s.settings.thresholds r.passed).status,
          (l.gauge.next s.settings.thresholds r.passed).counters, .waiting due⟩,
        sent := s.sent ++ reports } := by simp [SoloLoop.observing, listens, r, reports]
    rw [same, List.drop_left]
    exact ⟨rfl, drawn, counted, apart, .waits rfl
      ⟨tracks.owner, tracks.registration, gauge,
        (congrArg (· ++ reports) tracks.sent).trans tells.symm⟩
      rfl results finished⟩
  | false =>
    have same : s.observing l due failure = { s with
        loop := if reports.isEmpty then some ⟨l.id, l.endpoint, l.epoch,
          (l.gauge.next s.settings.thresholds r.passed).status,
          (l.gauge.next s.settings.thresholds r.passed).counters, .waiting due⟩ else none } := by
      simp [SoloLoop.observing, listens, r, reports]
    rw [same, List.drop_length, List.append_nil]
    cases quiet : reports with
    | nil =>
      rw [quiet, List.append_nil] at tells
      exact ⟨rfl, drawn, counted, apart, .waits rfl
        ⟨tracks.owner, tracks.registration, gauge, tracks.sent.trans tells.symm⟩
        rfl results finished⟩
    | cons report more =>
      refine ⟨rfl, drawn, counted, apart, .ended rfl (.inl results)
        (.inr ⟨listens, d.observed, r, rfl, tracks.sent, fun none => ?_⟩)⟩
      rw [tells, quiet] at none
      simp at none

theorem actKept (ticks : settings.interval ≠ 0) (h : Kept settings script i epoch ⟨s, d⟩)
    (next : s.act = some t) : Kept settings script i epoch ⟨t, d.act s t⟩ := by
  cases SoloLoop.actIs (h.set ▸ ticks) next with
  | @stops l runs cancelled =>
    have sent := (h.stage.running runs).sent
    have same : d.act s { s with loop := none } = d := by simp [Diary.act, cancelled]
    exact same.symm ▸
      ⟨h.set, h.drawn, h.counted, h.apart, .ended rfl h.stage.results (.inl ⟨cancelled, sent⟩)⟩
  | @begins l due runs free waits come =>
    have same : d.act s (s.beginning l due) = { d with begun := d.begun ++ [s.now] } := by
      simp [Diary.act, free, runs, waits]
    exact same ▸ beginsKept h runs waits
  | @observes l due ends failure runs free probes come =>
    have same : d.act s (s.observing l due failure) = { d with
        observed := d.observed ++ [⟨failure, .ofMillis s.now⟩],
        sent := d.sent ++ (s.observing l due failure).sent.drop s.sent.length } := by
      simp [Diary.act, free, runs, probes]
    exact same ▸ observesKept h runs probes come

theorem nextKept (ticks : settings.interval ≠ 0) {w v : Watched} {h : SoloLoop.Happening}
    (kept : Kept settings script i epoch w) (next : w.next h = some v) :
    Kept settings script i epoch v := by
  obtain ⟨t, met, rfl⟩ := Option.map_eq_some_iff.mp next
  cases h with
  | act => exact actKept ticks kept met
  | wait ms =>
    simp only [SoloLoop.meet] at met
    split at met
    · rename_i idle
      cases met
      refine ⟨kept.set, kept.drawn, kept.counted, kept.apart,
        kept.stage.aside rfl (Nat.le_add_right _ ms) (fun l runs => .inr ?_) id id⟩
      rw [runs] at idle
      exact of_decide_eq_true ((Bool.and_eq_true_iff.mp idle).2)
    · cases met
  | cancel =>
    cases met
    exact ⟨kept.set, kept.drawn, kept.counted, kept.apart,
      kept.stage.aside rfl (Nat.le_refl _) (fun _ _ => .inl rfl) (fun _ => rfl) id⟩
  | close =>
    cases met
    exact ⟨kept.set, kept.drawn, kept.counted, kept.apart,
      kept.stage.aside rfl (Nat.le_refl _) (fun _ _ => .inl rfl) id fun _ => rfl⟩
  | collect =>
    cases met
    exact ⟨kept.set, kept.drawn, kept.counted, kept.apart,
      kept.stage.aside rfl (Nat.le_refl _) (fun _ _ => .inl rfl) id id⟩

theorem afterKept (ticks : settings.interval ≠ 0) {w v : Watched}
    {happenings : List SoloLoop.Happening} (kept : Kept settings script i epoch w)
    (run : w.after happenings = some v) : Kept settings script i epoch v := by
  induction happenings generalizing w with
  | nil => exact Option.some.inj run ▸ kept
  | cons h rest ih =>
    obtain ⟨m, first, later⟩ := Option.bind_eq_some_iff.mp run
    exact ih (nextKept ticks kept first) later

theorem cancelledNext {w v : Watched} {h : SoloLoop.Happening} (cancelled : w.solo.cancelled = true)
    (next : w.next h = some v) : v.solo.cancelled = true ∧ v.diary = w.diary := by
  obtain ⟨t, met, rfl⟩ := Option.map_eq_some_iff.mp next
  cases h with
  | act =>
    have same : w.diary.act w.solo t = w.diary := by simp [Diary.act, cancelled]
    cases runs : w.solo.loop with
    | none => simp [SoloLoop.meet, SoloLoop.act, runs] at met
    | some l =>
      cases (SoloLoop.actCancelled runs cancelled).symm.trans met
      exact ⟨cancelled, same⟩
  | wait ms =>
    simp only [SoloLoop.meet] at met
    split at met
    · cases met
      exact ⟨cancelled, rfl⟩
    · cases met
  | cancel => cases met; exact ⟨rfl, rfl⟩
  | close | collect => cases met; exact ⟨cancelled, rfl⟩

theorem cancelledSilent {w v : Watched} {happenings : List SoloLoop.Happening}
    (cancelled : w.solo.cancelled = true) (run : w.after happenings = some v) :
    v.diary = w.diary := by
  induction happenings generalizing w with
  | nil => exact Option.some.inj run ▸ rfl
  | cons h rest ih =>
    obtain ⟨m, first, later⟩ := Option.bind_eq_some_iff.mp run
    obtain ⟨stays, same⟩ := cancelledNext cancelled first
    exact (ih stays later).trans same

end Kept

namespace SoloLoop
variable {s t : SoloLoop}

def Happening.alone : Happening → Bool
  | .act => true
  | .wait _ => true
  | _ => false

def ticksLeft (now due : Nat) : Nat :=
  if now < due then 0 else if due + tickSlack < now then 2 else 2 * (now - due + 1)

def actsLeft (s : SoloLoop) : Nat :=
  match s.loop with
  | none => 0
  | some l =>
    if s.cancelled then 1
    else match l.phase with
      | .waiting due => ticksLeft s.now due
      | .probing due ends _ => if s.now < ends then 0 else 1 + ticksLeft s.now due

theorem actsFew (s : SoloLoop) : s.actsLeft ≤ actsPerInstant := by
  unfold actsLeft actsPerInstant ticksLeft tickSlack
  grind

theorem tickLater {period due now : Nat} (ticks : period ≠ 0) (come : due ≤ now) :
    1 + ticksLeft now (tickAfter period due now) < ticksLeft now due := by
  unfold ticksLeft tickAfter tickSlack
  grind

theorem actFewer (ticks : s.settings.interval ≠ 0) (next : s.act = some t) :
    t.actsLeft < s.actsLeft := by
  cases actIs ticks next with
  | stops runs cancelled => simp [actsLeft, runs, cancelled]
  | begins runs free waits come =>
    have later := tickLater ticks come
    simp only [actsLeft, beginning, runs, free, waits]
    grind
  | observes runs free probes come =>
    simp only [actsLeft, observing, runs, free, probes]
    grind

theorem actKeeps (ticks : s.settings.interval ≠ 0) (next : s.act = some t) :
    t.settings = s.settings ∧ t.now = s.now := by
  cases actIs ticks next with
  | stops | begins => exact ⟨rfl, rfl⟩
  | observes =>
    unfold observing
    dsimp only
    split <;> exact ⟨rfl, rfl⟩

theorem settleIdle {fuel : Nat} (ticks : s.settings.interval ≠ 0) (enough : s.actsLeft ≤ fuel) :
    (s.settle fuel).act = none := by
  induction fuel generalizing s with
  | zero =>
    cases next : s.act with
    | none => exact next
    | some t => exact absurd (actFewer ticks next) (by omega)
  | succ fuel ih =>
    cases next : s.act with
    | none => simp only [settle, next]
    | some t =>
      have fewer := actFewer ticks next
      simpa only [settle, next] using ih ((actKeeps ticks next).1 ▸ ticks) (by omega)

end SoloLoop

theorem Watched.afterAppend (w : Watched) (first later : List SoloLoop.Happening) :
    w.after (first ++ later) = (w.after first).bind (·.after later) := by
  induction first generalizing w with
  | nil => rfl
  | cons h rest ih =>
    rw [List.cons_append, after, after, Option.bind_assoc]
    exact congrArg _ (funext fun v => ih v)

namespace SoloLoop
variable {s t u : SoloLoop}

/-- Acts and time alone take the loop there. -/
def Comes (s t : SoloLoop) : Prop :=
  ∀ d, ∃ happenings e, (∀ h ∈ happenings, h.alone = true) ∧
    Watched.after ⟨s, d⟩ happenings = some ⟨t, e⟩

theorem Comes.here (s : SoloLoop) : Comes s s := fun d => ⟨[], d, nofun, rfl⟩

theorem Comes.trans (first : Comes s t) (later : Comes t u) : Comes s u := by
  intro d
  obtain ⟨some, e, alone, run⟩ := first d
  obtain ⟨more, f, also, runs⟩ := later e
  refine ⟨some ++ more, f, fun h mem => ?_, ?_⟩
  · exact (List.mem_append.mp mem).elim (alone h) (also h)
  · rw [Watched.afterAppend, run]
    exact runs

theorem Comes.one {h : Happening} (alone : h.alone = true) (met : s.meet h = some t) :
    Comes s t := by
  intro d
  refine ⟨[h], if h = .act then d.act s t else d, by simpa using alone, ?_⟩
  simp [Watched.after, Watched.next, met]

theorem settleComes (fuel : Nat) (s : SoloLoop) : Comes s (s.settle fuel) := by
  induction fuel generalizing s with
  | zero => exact .here s
  | succ fuel ih =>
    unfold settle
    split
    · rename_i t next
      exact (Comes.one (h := .act) rfl next).trans (ih t)
    · exact .here s

theorem settleKeeps (ticks : s.settings.interval ≠ 0) (fuel : Nat) :
    (s.settle fuel).settings = s.settings ∧ (s.settle fuel).now = s.now := by
  induction fuel generalizing s with
  | zero => exact ⟨rfl, rfl⟩
  | succ fuel ih =>
    unfold settle
    split
    · rename_i t next
      obtain ⟨settings, now⟩ := actKeeps ticks next
      obtain ⟨same, later⟩ := ih (settings ▸ ticks)
      exact ⟨same.trans settings, later.trans now⟩
    · exact ⟨rfl, rfl⟩

theorem waitComes {target : Nat} (idle : s.act = none) (later : s.now ≤ target)
    (early : ∀ l, s.loop = some l → target ≤ l.wakes) : Comes s { s with now := target } := by
  refine .one (h := .wait (target - s.now)) rfl ?_
  have arrives : s.now + (target - s.now) = target := by omega
  have ready : (s.act.isNone && s.loop.all fun l => decide (target ≤ l.wakes)) = true := by
    rw [idle]
    cases runs : s.loop with
    | none => rfl
    | some l => simpa using early l runs
  rw [meet, arrives, if_pos ready]

theorem idleWakes (ticks : s.settings.interval ≠ 0) (idle : s.act = none) {l : CheckLoop}
    (runs : s.loop = some l) : s.now < l.wakes := by
  cases free : s.cancelled with
  | true => cases (actCancelled runs free).symm.trans idle
  | false =>
    cases phase : l.phase with
    | waiting due =>
      rw [actWaiting ticks runs free phase] at idle
      simpa [CheckLoop.wakes, phase] using idle
    | probing due ends failure =>
      rw [actProbing ticks runs free phase] at idle
      simpa [CheckLoop.wakes, phase] using idle

theorem passComes {target fuel : Nat} (ticks : s.settings.interval ≠ 0) (idle : s.act = none)
    (later : s.now ≤ target) (enough : target - s.now < fuel) :
    Comes s (passTo target fuel s) ∧ (passTo target fuel s).now = target := by
  induction fuel generalizing s with
  | zero => omega
  | succ fuel ih =>
    unfold passTo
    split
    · rename_i gone
      exact ⟨waitComes idle later fun l runs => (by cases runs.symm.trans gone), rfl⟩
    · rename_i l runs
      have ahead := idleWakes ticks idle runs
      split
      · rename_i early
        let woken : SoloLoop := { s with now := max s.now l.wakes }
        have now : woken.now = l.wakes := Nat.max_eq_right (Nat.le_of_lt ahead)
        obtain ⟨settings, stays⟩ := settleKeeps (s := woken) ticks actsPerInstant
        have still := settleIdle (s := woken) ticks (actsFew woken)
        obtain ⟨comes, arrives⟩ := ih (s := woken.settle actsPerInstant) (settings ▸ ticks) still
          (by omega) (by omega)
        refine ⟨.trans ?_ ((settleComes actsPerInstant woken).trans comes), arrives⟩
        refine waitComes idle (Nat.le_max_left _ _) fun m also => ?_
        cases runs.symm.trans also
        omega
      · rename_i late
        refine ⟨waitComes idle later fun m also => ?_, rfl⟩
        cases runs.symm.trans also
        omega

theorem advanceComes (ticks : s.settings.interval ≠ 0) (ms : Nat) :
    Comes s (s.advance ms) ∧ (s.advance ms).now = s.now + ms := by
  obtain ⟨settings, now⟩ := settleKeeps ticks actsPerInstant
  have passes : Comes (s.settle actsPerInstant) (s.advance ms) ∧ (s.advance ms).now = s.now + ms :=
    passComes (settings ▸ ticks) (settleIdle ticks (actsFew s)) (by omega) (by omega)
  exact ⟨(settleComes actsPerInstant s).trans passes.1, passes.2⟩

end SoloLoop

section Kept
variable {settings : LoopSettings} {script : Script} {i : Instance} {epoch : Nat} {s : SoloLoop}
  {d : Diary}

theorem resultAt {begun : List Nat} {k : Nat} {r : ProbeResult}
    (found : (resultsOf settings script begun)[k]? = some r) :
    ∃ start, begun[k]? = some start ∧ r = resultOf settings start (script.outcome k) := by
  rw [resultsOf, List.getElem?_mapIdx] at found
  obtain ⟨start, mem, same⟩ := Option.map_eq_some_iff.mp found
  exact ⟨start, mem, same.symm⟩

theorem Stage.observedAt (h : Stage settings script i epoch s d) {k : Nat} {r : ProbeResult}
    (found : d.observed[k]? = some r) :
    ∃ start, d.begun[k]? = some start ∧ r = resultOf settings start (script.outcome k) := by
  rcases h.results with all | ⟨before, last, begun, observed⟩
  · exact resultAt (all ▸ found)
  · obtain ⟨start, mem, same⟩ := resultAt (observed ▸ found)
    have inside : k < before.length := (List.getElem?_eq_some_iff.mp mem).1
    exact ⟨start, begun ▸ (List.getElem?_append_left inside).trans mem, same⟩

theorem Stage.counts (h : Stage settings script i epoch s d) :
    d.observed.length ≤ d.begun.length ∧ d.begun.length ≤ d.observed.length + 1 := by
  rcases h.results with all | ⟨before, last, begun, observed⟩
  · rw [all]
    simp [resultsOf]
  · rw [begun, observed]
    simp [resultsOf]

theorem Stage.soon (h : Stage settings script i epoch s d) {l : CheckLoop} (runs : s.loop = some l)
    {start : Nat} (pending : d.begun[d.observed.length]? = some start) :
    s.now ≤ start + spent settings (script.outcome d.observed.length) := by
  cases h with
  | waits _ _ _ observed =>
    rw [List.getElem?_eq_none (by rw [observed]; simp [resultsOf])] at pending
    cases pending
  | @probes _ _ before last _ _ _ begun observed _ soon =>
    have size : d.observed.length = before.length := by rw [observed]; simp [resultsOf]
    rw [size, begun, List.getElem?_concat_length] at pending
    cases pending
    exact size ▸ soon
  | ended gone => cases runs.symm.trans gone

theorem Stage.sent (h : Stage settings script i epoch s d) :
    d.sent = toldOf settings i epoch d.observed ∧ (s.loop = none → s.cancelled = true) ∨
      s.loop = none ∧ s.listening = false ∧ ∃ front last, d.observed = front ++ [last] ∧
        d.sent = toldOf settings i epoch front ∧
          toldOf settings i epoch (front ++ [last]) ≠ toldOf settings i epoch front := by
  cases h with
  | waits runs tracks | probes runs tracks =>
    exact .inl ⟨tracks.sent, fun gone => (by cases runs.symm.trans gone)⟩
  | ended gone _ why => exact why.imp (fun ended => ⟨ended.2, fun _ => ended.1⟩) (⟨gone, ·⟩)

end Kept

/-- Whatever becomes of a check loop, and whenever: its probes follow one another and each is over
after its delay or the timeout, whichever is less, failed if that was the timeout. What was sent is
what the results observed are to be told as, in order; only a report that nobody could receive any
more is missing, and it ends the loop, as nothing else does but to be cancelled. A probe that is
under way then is never heard of. -/
theorem checkLoopsTell (settings : LoopSettings) (ticks : settings.interval ≠ 0) (script : Script)
    (i : Instance) (epoch : Nat) {happenings : List SoloLoop.Happening} {w : Watched}
    (run : (Watched.begin settings script i epoch).after happenings = some w) :
    (w.diary.begun.length = w.solo.probes ∧ w.diary.observed.length ≤ w.diary.begun.length ∧
      w.diary.begun.length ≤ w.diary.observed.length + 1) ∧
    (∀ k start next, w.diary.begun[k]? = some start → w.diary.begun[k + 1]? = some next →
      k < w.diary.observed.length ∧
        start + min ((script.outcome k).delay.getD 0) settings.timeout ≤ next) ∧
    (∀ k r, w.diary.observed[k]? = some r → ∃ start, w.diary.begun[k]? = some start ∧
      r.observedAt =
        .ofMillis (start + min ((script.outcome k).delay.getD 0) settings.timeout : Nat) ∧
      (r.passed = true ↔ (script.outcome k).failure = none ∧
        (script.outcome k).delay.getD 0 ≤ settings.timeout) ∧
      r.failure = if settings.timeout < (script.outcome k).delay.getD 0
        then some (CheckLoop.timeoutFailure settings.timeout) else (script.outcome k).failure) ∧
    (∀ start, w.solo.loop.isSome → w.diary.begun[w.diary.observed.length]? = some start →
      w.solo.now ≤ start +
        min ((script.outcome w.diary.observed.length).delay.getD 0) settings.timeout) ∧
    (w.diary.sent = toldOf settings i epoch w.diary.observed ∧
        (w.solo.loop = none → w.solo.cancelled = true) ∨
      w.solo.loop = none ∧ w.solo.listening = false ∧ ∃ front last,
        w.diary.observed = front ++ [last] ∧ w.diary.sent = toldOf settings i epoch front ∧
          toldOf settings i epoch (front ++ [last]) ≠ toldOf settings i epoch front) ∧
    (∃ status, Leads i.status (moves (i.id, epoch) w.diary.sent) status) ∧
    (w.solo.cancelled = true → ∀ more v, w.after more = some v → v.diary = w.diary) ∧
    ∀ ms, w.solo.Comes (w.solo.advance ms) ∧ (w.solo.advance ms).now = w.solo.now + ms := by
  have kept := afterKept ticks beginKept run
  have counts := kept.stage.counts
  refine ⟨⟨kept.counted, counts⟩,
    fun k start next found later => ⟨?_, kept.apart k start next found later⟩,
    fun k r found => ?_, fun start runs pending => ?_, kept.stage.sent, ?_,
    fun cancelled more v runs => cancelledSilent cancelled runs,
    fun ms => SoloLoop.advanceComes (kept.set ▸ ticks) ms⟩
  · have inside := (List.getElem?_eq_some_iff.mp later).1
    omega
  · obtain ⟨start, begun, rfl⟩ := kept.stage.observedAt found
    refine ⟨start, begun, rfl, resultPasses start _, ?_⟩
    rw [resultOf, CheckLoop.bounded]
    split <;> rfl
  · obtain ⟨l, runs⟩ := Option.isSome_iff_exists.mp runs
    exact kept.stage.soon runs pending
  · rcases kept.stage.sent with ⟨same, _⟩ | ⟨_, _, _, _, _, same, _⟩
    · exact ⟨_, by rw [same]; exact toldLeads ⟨i.status, .zero⟩ _⟩
    · exact ⟨_, by rw [same]; exact toldLeads ⟨i.status, .zero⟩ _⟩

theorem lateProbeTold :
    let settings : LoopSettings := ⟨100, 50, ⟨1, 1⟩, true⟩
    let i : Instance := .fresh "a" "web" "a:80" .origin
    settings.interval ≠ 0 ∧ ∃ w,
      (Watched.begin settings [⟨some 10, none⟩, ⟨some 60, none⟩] i 7).after
        [.act, .wait 10, .act, .wait 90, .act, .wait 50, .act, .cancel, .act] = some w ∧
      w.diary.begun = [0, 100] ∧ w.diary.observed.map (·.passed) = [true, false] ∧
      w.diary.sent.length = 3 ∧ w.diary.sent = toldOf settings i 7 w.diary.observed := by
  intro settings i
  have ran : ((Watched.begin settings [⟨some 10, none⟩, ⟨some 60, none⟩] i 7).after
      [.act, .wait 10, .act, .wait 90, .act, .wait 50, .act, .cancel, .act]).map
        (fun w => (w.diary.begun, w.diary.observed.map (·.passed), w.diary.sent.length,
          w.solo.listening)) = some ([0, 100], [true, false], 3, true) := by decide
  obtain ⟨w, run, same⟩ := Option.map_eq_some_iff.mp ran
  simp only [Prod.mk.injEq] at same
  obtain ⟨begun, passed, sent, listens⟩ := same
  have tells := (checkLoopsTell settings (by decide) _ i 7 run).2.2.2.2.1
  exact ⟨by decide, w, run, begun, passed, sent,
    (tells.resolve_right fun lost => by cases listens.symm.trans lost.2.1).1⟩

end ServiceDirectory.Health
