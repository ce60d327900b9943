import Mathlib.Logic.Relation
import ServiceDirectory.Proofs.Timeless

/-! Who is kept alive stays alive. From one tick to the next no more time goes by than the heartbeat
timeout, so that everybody has been heard of in time whenever a sweep begins, also those whose turn
in a round has still to come. -/
namespace ServiceDirectory

namespace Keeper
variable {k : Keeper} {ms : Nat}

theorem dueNext (todo : List Instance) (quick : k.period ≤ ms * 1000000) :
    k.due ≤ { k with ticks := k.ticks + 1, todo }.due ∧
      { k with ticks := k.ticks + 1, todo }.due ≤ k.due + ms := by
  simp only [due, Nat.add_mul, Nat.one_mul]
  omega

end Keeper

namespace Directory
variable {d e : Directory} {a : Action} {own : String → Prop} {id : String} {since : Int}

def instant (d : Directory) (at_ : Nat) : Int := (Timestamp.ofMillis at_).nanos + d.skew

theorem clockInstant (d : Directory) : d.clock.nanos = d.instant d.now := rfl

structure Guards (own : String → Prop) (d : Directory) : Prop where
  custody : d.Custody
  punctual : d.Punctual
  tidings : d.Tidings
  unmolested : ∀ id, own id → d.Unmolested id
  unexpired : ∀ id, own id → d.Unexpired id

theorem guardsStep (h : d.Guards own)
    (live : ∀ id, own id → ∃ x, d.registry.records.get? id = some x)
    (spares : ∀ id, own id → a ≠ .begin (.deregister id)) (sets : ∀ nanos, a ≠ .setClock nanos)
    (next : d.step a = some e) : e.Guards own where
  custody := custodyStep h.custody next
  punctual := punctualStep h.custody.lined h.punctual sets next
  tidings := tidingsStep h.custody.lined h.tidings next
  unmolested id mine := unmolestedStep h.custody.lined (h.unmolested id mine) (spares id mine) next
  unexpired id mine :=
    have ⟨_, live⟩ := live id mine
    unexpiredStep h.custody h.tidings (h.unexpired id mine) live next

end Directory

namespace Engine
variable {e : Engine} {k : Keeper}

inductive Next (own : String → Prop) (e f : Engine) : Prop where
  | acted {a : Action} (spares : ∀ id, own id → a ≠ .begin (.deregister id))
      (sets : ∀ nanos, a ≠ .setClock nanos) (stays : ∀ ms, a ≠ .pass ms)
      (step : e.directory.step a = some f.directory) (keeper : f.keeper = e.keeper)
  | aside (directory : f.directory = e.directory) (keeper : f.keeper = e.keeper)
  | tended (tends : e.keepAlive = some f)
  | passed {ms : Nat} (idle : e.keepAlive = none)
      (early : ∀ k, e.keeper = some k → k.waiting = none → e.now + ms ≤ k.due)
      (step : e.directory.step (.pass ms) = some f.directory) (keeper : f.keeper = e.keeper)

theorem keepAliveRests (keeper : e.keeper = some k) (free : k.waiting = none)
    (idle : e.keepAlive = none) : k.todo = [] ∧ e.now < k.due := by
  simp only [keepAlive, keeper, Option.bind_eq_bind, Option.bind_some, free] at idle
  split at idle
  · contradiction
  · rename_i i rest _ _
    have begun : (e.try_ (.begin (.heartbeat i.id))) =
      some (e.withDirectory (e.directory.begin (.heartbeat i.id))) := rfl
    rw [begun, Option.bind_some] at idle
    split at idle <;> cases idle
  · rename_i todo
    split at idle
    · cases idle
    · rename_i due
      exact ⟨todo, Nat.lt_of_not_le due⟩

end Engine

structure Keeper.Rounds (last : Nat) (k : Keeper) (d : Directory) : Prop where
  free : k.waiting = none
  begun : last ≤ d.now
  early : d.now ≤ k.due
  soon : k.due ≤ last + d.settings.heartbeatTimeout
  quick : k.period ≤ d.settings.heartbeatTimeout * 1000000
  among : k.todo ⊆ k.instances
  heard : ∀ i ∈ k.instances, d.HeardSince (d.instant last) i.id ∨ i ∈ k.todo ∧ last = d.now ∧
    d.HeardSince (d.clock.nanos - d.settings.heartbeatTimeout * Timestamp.perMilli) i.id

namespace Keeper.Rounds
variable {k : Keeper} {last : Nat} {d e : Directory} {a : Action} {own : String → Prop}
  {i : Instance} {rest : List Instance}

theorem live (h : k.Rounds last d) (mem : i ∈ k.instances) :
    ∃ x, d.registry.records.get? i.id = some x := by
  rcases h.heard i mem with ⟨x, live, _⟩ | ⟨_, _, x, live, _⟩ <;> exact ⟨x, live⟩

theorem clockSoon (h : k.Rounds last d) :
    d.clock.nanos ≤ d.instant last + d.settings.heartbeatTimeout * Timestamp.perMilli := by
  have le := Nat.le_trans h.early h.soon
  simp only [Directory.clockInstant, Directory.instant, Timestamp.ofMillis, Timestamp.ofNanos,
    Timestamp.perMilli]
  omega

theorem instantBefore (h : k.Rounds last d) : d.instant last ≤ d.clock.nanos := by
  have le := h.begun
  simp only [Directory.clockInstant, Directory.instant, Timestamp.ofMillis, Timestamp.ofNanos,
    Timestamp.perMilli]
  omega

theorem step (h : k.Rounds last d) (guards : d.Guards own) (mine : ∀ i ∈ k.instances, own i.id)
    (next : d.step a = some e) (skew : e.skew = d.skew) (begun : d.now ≤ e.now)
    (early : e.now ≤ k.due) (turn : k.todo ≠ [] → e.now = d.now) : k.Rounds last e := by
  have settings := Directory.stepSettings next
  have instant (at_ : Nat) : e.instant at_ = d.instant at_ := by
    rw [Directory.instant, skew, Directory.instant]
  refine ⟨h.free, Nat.le_trans h.begun begun, early, settings ▸ h.soon, settings ▸ h.quick, h.among,
    fun i mem => ?_⟩
  have unmolested := guards.unmolested i.id (mine i mem)
  rcases h.heard i mem with heard | ⟨waits, now, heard⟩
  · rw [instant]
    exact .inl (Directory.heardStep guards.custody heard unmolested guards.punctual h.clockSoon
      next)
  · have same := turn (List.ne_nil_of_mem waits)
    refine .inr ⟨waits, now.trans same.symm, ?_⟩
    rw [settings, Directory.clockInstant, instant, same]
    exact Directory.heardStep guards.custody heard unmolested guards.punctual
      (Int.le_of_eq (Int.sub_add_cancel _ _).symm) next

theorem heartbeat (h : k.Rounds last d) (guards : d.Guards own)
    (mine : ∀ i ∈ k.instances, own i.id) (todo : k.todo = i :: rest)
    (live : d.registry.records.holds i.id = true) :
    { k with todo := rest }.Rounds last (d.begin (.heartbeat i.id)) := by
  have time := Directory.beginTime d (.heartbeat i.id)
  have later := h.step guards mine (a := .begin (.heartbeat i.id)) rfl time.skew
    (Nat.le_of_eq time.now.symm) (time.now ▸ h.early) fun _ => time.now
  refine ⟨h.free, later.begun, later.early, later.soon, later.quick,
    fun j mem => h.among (todo ▸ List.mem_cons_of_mem _ mem), fun j mem => ?_⟩
  rcases later.heard j mem with heard | ⟨waits, now, heard⟩
  · exact .inl heard
  rw [todo] at waits
  rcases List.mem_cons.mp waits with rfl | waits
  · refine .inl ((Directory.heartbeatHeard live).earlier ?_)
    rw [Directory.instant, time.skew]
    exact h.instantBefore
  · exact .inr ⟨waits, now, heard⟩

theorem tick (h : k.Rounds last d) (todo : k.todo = []) (due : k.due ≤ d.now) :
    { k with ticks := k.ticks + 1, todo := k.instances }.Rounds d.now d := by
  have now : d.now = k.due := Nat.le_antisymm h.early due
  obtain ⟨grows, soon⟩ := dueNext k.instances h.quick
  refine ⟨h.free, Nat.le_refl _, now ▸ grows, now ▸ soon, h.quick, fun _ => id, fun i mem => ?_⟩
  rcases h.heard i mem with heard | ⟨waits, _⟩
  · refine .inr ⟨mem, rfl, heard.earlier ?_⟩
    have soon := h.clockSoon
    omega
  · rw [todo] at waits
    cases waits

end Keeper.Rounds

namespace Engine
variable {e f : Engine} {own : String → Prop}

structure Minds (own : String → Prop) (e : Engine) : Prop where
  guards : e.directory.Guards own
  rounds : ∃ k last, e.keeper = some k ∧ k.Rounds last e.directory ∧
    (∀ i ∈ k.instances, own i.id) ∧ ∀ id, own id → ∃ i ∈ k.instances, i.id = id

theorem Minds.live (h : e.Minds own) {id : String} (mine : own id) :
    ∃ x, e.directory.registry.records.get? id = some x := by
  obtain ⟨k, last, _, rounds, _, all⟩ := h.rounds
  obtain ⟨i, mem, rfl⟩ := all id mine
  exact rounds.live mem

theorem Minds.guarded (h : e.Minds own) {a : Action} {d : Directory}
    (spares : ∀ id, own id → a ≠ .begin (.deregister id)) (sets : ∀ nanos, a ≠ .setClock nanos)
    (step : e.directory.step a = some d) : d.Guards own :=
  Directory.guardsStep h.guards (fun _ => h.live) spares sets step

theorem mindsNext (h : e.Minds own) (next : Next own e f) : f.Minds own := by
  obtain ⟨k, last, keeper, rounds, mine, all⟩ := h.rounds
  cases next with
  | acted spares sets stays step same =>
    have time := Directory.stepTime stays sets step
    have later := rounds.step h.guards mine step time.skew (Nat.le_of_eq time.now.symm)
      (time.now ▸ rounds.early) fun _ => time.now
    exact ⟨h.guarded spares sets step, k, last, same.trans keeper, later, mine, all⟩
  | aside directory same =>
    exact ⟨directory ▸ h.guards, k, last, same.trans keeper, directory ▸ rounds, mine, all⟩
  | tended tends =>
    obtain ⟨k', is, tends⟩ := keepAliveTends tends
    cases keeper.symm.trans is
    cases tends with
    | awaited waits => cases rounds.free.symm.trans waits
    | @heard i rest _ todo live =>
      refine ⟨h.guarded (a := .begin (.heartbeat i.id)) ?_ ?_ rfl, _, last, rfl,
        rounds.heartbeat h.guards mine todo live, mine, all⟩ <;> intros <;> nofun
    | @missed i rest again _ todo gone =>
      obtain ⟨x, live⟩ := rounds.live (rounds.among (todo ▸ List.mem_cons_self))
      rw [Table.absentIff] at gone
      cases live.symm.trans gone
    | ticked _ todo due => exact ⟨h.guards, _, _, rfl, rounds.tick todo due, mine, all⟩
  | @passed ms idle early step same =>
    obtain ⟨todo, _⟩ := keepAliveRests keeper rounds.free idle
    have guards : f.directory.Guards own := h.guarded (by intros; nofun) (by intros; nofun) step
    have passed : { e.directory with now := e.directory.now + ms } = f.directory :=
      Option.some.inj step
    have skew : f.directory.skew = e.directory.skew := passed ▸ rfl
    have now : f.directory.now = e.directory.now + ms := passed ▸ rfl
    refine ⟨guards, k, last, same.trans keeper, rounds.step h.guards mine step skew ?_ ?_
      (fun waits => absurd todo waits), mine, all⟩
    · rw [now]
      exact Nat.le_add_right _ _
    · rw [now]
      exact early k keeper rounds.free

theorem mindsRun (h : e.Minds own) (run : Relation.ReflTransGen (Next own) e f) : f.Minds own := by
  induction run with
  | refl => exact h
  | tail _ next ih => exact mindsNext ih next

end Engine
end ServiceDirectory
