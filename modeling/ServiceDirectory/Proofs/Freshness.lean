import ServiceDirectory.Proofs.ResolveSteps
import ServiceDirectory.Proofs.RevisionHistory
import ServiceDirectory.Proofs.Selection

/-! What the cache and the resolves under way hold is either marked with a revision that has passed,
or it is what the directory lists now, up to when instances were last heard of. -/
namespace ServiceDirectory
open Resolve (Content Draw Entry Pursuit Query Shared Stage Strategy)

namespace Registry
variable {r s : Registry} {service : String} {revision : Nat} {fits : List Instance → Prop}

structure Shows (r : Registry) (service : String) (revision : Nat)
    (fits : List Instance → Prop) : Prop where
  past : revision ≤ r.revision service
  now : revision = r.revision service → fits (r.list service false)

theorem Shows.later (h : Shows r service revision fits) (since : Since r s) (numbered : r.Numbered)
    (left : SoundRecords r.records r.nextEpoch) (right : SoundRecords s.records s.nextEpoch)
    (alike : ∀ l m, Alike l m → fits l → fits m) : Shows s service revision fits where
  past := Nat.le_trans h.past (since.revisionLe numbered service)
  now same := by
    have stays : s.revision service = r.revision service :=
      Nat.le_antisymm (same ▸ h.past) (since.revisionLe numbered service)
    refine alike _ _ ?_ (h.now (same.trans stays))
    exact alikeOfStanding left right (since.standing numbered stays) false

end Registry

namespace Resolve

def Content.Fits (strategy : String) (live : List Instance) : Content → Prop
  | .candidates l => strategy ≠ Strategy.first.name ∧ Alike l live
  | .selected i =>
    strategy = Strategy.first.name ∧ ∃ j, lowestId live = some j ∧ i.sameButHeartbeat j

theorem Content.fitsAlike {c : Content} {strategy : String} {l m : List Instance}
    (alike : Alike l m) (h : c.Fits strategy l) : c.Fits strategy m := by
  cases c with
  | candidates live => exact ⟨h.1, h.2.next alike⟩
  | selected i =>
    obtain ⟨j, low, same⟩ := h.2
    obtain ⟨k, found, also⟩ := lowestAlike alike low
    exact ⟨h.1, k, found, Instance.sameTrans same also⟩

def Entry.Fits (r : Registry) (e : Entry) : Prop :=
  r.Shows e.service e.revision fun live => e.content.Fits e.strategy live

def Shared.Fits (r : Registry) (s : Shared) : Prop :=
  ∀ cache, s.cache = some cache → ∀ e ∈ cache.entries, e.Fits r

def Stage.Fits (r : Registry) (q : Query) : Stage → Prop
  | .fetch revision => revision ≤ r.revision q.service
  | .pickCached candidates => candidates ≠ []
  | .list revision => revision ≤ r.revision q.service
  | .choose revision live => r.Shows q.service revision (Alike live) ∧ q.candidates live ≠ []
  | .keep revision live pick =>
    r.Shows q.service revision (Alike live) ∧ pick ∈ live ∧
      (q.strategy = .first → q.filters = [] → lowestId live = some pick)
  | _ => True

structure Pursuit.Fits (r : Registry) (p : Pursuit) : Prop where
  own : p.query.strategy.builtIn = true
  stage : ∀ stage, p.moment = .trying stage → stage.Fits r p.query

section Later
variable {r s : Registry} (since : Registry.Since r s) (numbered : r.Numbered)
  (left : SoundRecords r.records r.nextEpoch) (right : SoundRecords s.records s.nextEpoch)
include since numbered left right

theorem Entry.fitsLater {e : Entry} (h : e.Fits r) : e.Fits s :=
  h.later since numbered left right fun _ _ alike => Content.fitsAlike alike

theorem Stage.fitsLater {q : Query} {stage : Stage} (h : stage.Fits r q) : stage.Fits s q := by
  have passes := since.revisionLe numbered q.service
  have live (l : List Instance) (revision : Nat)
      (shows_ : r.Shows q.service revision (Alike l)) : s.Shows q.service revision (Alike l) :=
    shows_.later since numbered left right fun _ _ alike shown => shown.next alike
  cases stage with
  | fetch revision => exact Nat.le_trans h passes
  | list revision => exact Nat.le_trans h passes
  | choose revision l => exact ⟨live l revision h.1, h.2⟩
  | keep revision l pick => exact ⟨live l revision h.1, h.2⟩
  | _ => exact h

end Later

section Step
variable {r : Registry} {now : Nat} {draw : Draw} {s : Shared} {q : Query} {stage : Stage}

theorem Query.usefulFits (r : Registry) (q : Query) (content : Option Content) {stage' : Stage}
    (next : q.useful content = .next stage') : stage'.Fits r q := by
  simp only [useful] at next
  split at next
  · split at next <;> cases next
    trivial
  · split at next <;> cases next
    · trivial
    · rename_i some_
      simpa [Stage.Fits] using some_
  · cases next
    trivial

theorem Query.fetchStage (q : Query) (revision now : Nat) (s : Shared) {stage' : Stage}
    (next : (q.fetch revision now s).1 = .next stage') : stage'.Fits r q := by
  simp only [fetch] at next
  split at next
  · exact usefulFits r q _ next
  · cases next
    trivial

theorem Query.contentFits {revision : Nat} {live : List Instance} {pick : Instance}
    {content : Content} (own : q.strategy.builtIn = true)
    (h : Stage.Fits r q (.keep revision live pick)) (kept : q.content? live pick = some content) :
    r.Shows q.service revision fun l => content.Fits q.strategy.name l := by
  obtain ⟨shown, _, low⟩ := h
  refine ⟨shown.past, fun same => ?_⟩
  have alike := shown.now same
  simp only [content?] at kept
  split at kept
  · rename_i loose
    cases kept
    refine ⟨fun name => ?_, alike⟩
    rw [(Strategy.stickyIff own).mpr name] at loose
    cases loose
  · rename_i sticky
    have name := (Strategy.stickyIff own).mp (by simpa using sticky)
    split at kept
    · rename_i free
      cases kept
      obtain ⟨j, found, also⟩ :=
        lowestAlike alike (low (Strategy.firstOfName own name) (List.isEmpty_iff.mp free))
      exact ⟨name, j, found, also⟩
    · cases kept

theorem Query.advanceStage (own : q.strategy.builtIn = true) (h : stage.Fits r q) {stage' : Stage}
    (next : (q.advance r now draw s stage).1 = .next stage') : stage'.Fits r q := by
  cases stage with
  | lookup =>
    simp only [advance, lookup] at next
    split at next <;> cases next
    · exact Nat.le_refl _
    · trivial
  | fetch revision => exact q.fetchStage revision now s next
  | pickCached candidates => cases next
  | snapshot => cases next; exact Nat.le_refl _
  | list revision =>
    simp only [advance] at next
    split at next <;> cases next
    rename_i some_
    exact ⟨⟨h, fun _ => .same _⟩, by simpa using some_⟩
  | choose revision live =>
    simp only [advance] at next
    split at next
    · cases next
    · rename_i chosen s' picked
      cases next
      have result := congrArg Prod.fst picked
      refine ⟨h.1, ?_, fun first free => ?_⟩
      · obtain ⟨i, mem, one⟩ : ∃ i ∈ q.candidates live,
            (q.strategy.select draw s.cursor (q.candidates live)).1 = .ok i :=
          Strategy.selectFinds own h.2
        cases one.symm.trans result
        exact List.mem_of_mem_filter mem
      · simp only [pick, first, Strategy.select, candidates, free, Filter.keepWithoutFilters]
          at result
        cases low : lowestId live with
        | none => simp [low, found] at result
        | some i => simpa [low, found] using result
  | keep revision live pick => cases next

end Step

namespace Pursuit
variable {p p' : Pursuit} {r : Registry} {now : Nat} {draw : Draw} {s s' : Shared}

theorem keepsFits (h : p.Fits r) {e : Entry} (keeps : p.Keeps now e) : e.Fits r := by
  obtain ⟨moment, kept⟩ := keeps
  exact Query.contentFits h.own (h.stage _ moment) kept

theorem takenFits (h : p.Fits r) (taken : Taken p r now draw s (.ahead p') s') : p'.Fits r := by
  cases taken with
  | next trying moved =>
    have fits := Query.advanceStage h.own (h.stage _ trying) (congrArg Prod.fst moved)
    exact ⟨h.own, fun stage same => by cases same; exact fits⟩
  | again trying moved delays anew =>
    exact ⟨h.own, fun stage same => by cases anew stage same; trivial⟩
  | rested => exact ⟨h.own, fun stage same => by cases same; trivial⟩

theorem beginFits {b : Resolve.Balancer} {settings : Resolve.ResolverSettings}
    {options : Resolve.ResolveOptions} {service : String} {jitter : Draw}
    (own : ∀ name s, b.strategies.get? name = some s → s.builtIn = true)
    (begun : begin b settings options service jitter now = .ok p) : p.Fits r := by
  obtain ⟨strategy, known, query, _, moment⟩ := beginCases begun
  refine ⟨query ▸ own _ strategy known, fun stage trying => ?_⟩
  cases moment.symm.trans trying
  trivial

end Pursuit
end Resolve

def BrokerAction.plain : BrokerAction → Bool
  | .addStrategy strategy => strategy.builtIn
  | _ => true

namespace Broker
variable {b c : Broker}

structure Fresh (b : Broker) : Prop where
  custody : b.directory.Custody
  numbered : b.directory.registry.Numbered
  strategies : ∀ name s, b.balancer.strategies.get? name = some s → s.builtIn = true
  shared : b.shared.Fits b.directory.registry
  pursuits : ∀ x ∈ b.pursuits, x.2.Fits b.directory.registry

theorem registerOwn {t : Resolve.Balancer} {strategy : Strategy}
    (own : ∀ name s, t.strategies.get? name = some s → s.builtIn = true)
    (builtIn : strategy.builtIn = true) :
    ∀ name s, (t.register strategy).strategies.get? name = some s → s.builtIn = true := by
  intro name s found
  simp only [Resolve.Balancer.register, Table.getPut] at found
  split at found
  · cases found; exact builtIn
  · exact own name s found

theorem newFresh (settings : DirectorySettings) (resolver : Resolve.ResolverSettings)
    (limits : Option (Nat × Nat)) :
    (new (.empty settings) resolver (limits.map fun l => .empty l.1 l.2)).Fresh where
  custody := Directory.emptyCustody settings
  numbered := Registry.emptyNumbered
  strategies := by
    have none : ∀ name s, (Table.get? ([] : Table Strategy) name) = some s → s.builtIn = true :=
      fun name s found => by cases found
    exact registerOwn (registerOwn (registerOwn (registerOwn none rfl) rfl) rfl) rfl
  shared cache found e mem := by
    obtain ⟨l, _, rfl⟩ := Option.map_eq_some_iff.mp found
    cases mem
  pursuits x mem := by cases mem

theorem busCustody {d : Directory} (h : d.Custody) (bus : EventBus) :
    { d with bus }.Custody :=
  ⟨⟨h.lined.distinct, h.lined.recent, h.lined.ordered⟩, h.sound, h.kept⟩

theorem stepDirectory {a : BrokerAction} (next : b.step a = some c) :
    (∃ action, b.directory.step action = some c.directory) ∨
      ∃ bus, c.directory = { b.directory with bus } := by
  cases a with
  | directory action =>
    obtain ⟨d, one, same⟩ := Option.bind_eq_some_iff.mp next
    cases same
    exact .inl ⟨action, one⟩
  | beginResolve service options jitter =>
    obtain ⟨pursuits, endings, rfl⟩ := beginAside next
    exact .inr ⟨b.directory.bus, rfl⟩
  | proceedResolve id draw =>
    obtain ⟨p, s, _, ⟨_, _, rfl⟩ | ⟨_, _, rfl⟩⟩ := proceedCases next
    · exact .inr ⟨b.directory.bus, rfl⟩
    · exact .inr ⟨b.directory.bus, rfl⟩
  | followNext watcher =>
    obtain ⟨bus, service, rfl⟩ := followCases next
    exact .inr ⟨bus, rfl⟩
  | _ => cases next; exact .inr ⟨_, rfl⟩

theorem stepStrategies {a : BrokerAction} (plain : a.plain = true)
    (own : ∀ name s, b.balancer.strategies.get? name = some s → s.builtIn = true)
    (next : b.step a = some c) :
    ∀ name s, c.balancer.strategies.get? name = some s → s.builtIn = true := by
  rcases stepTable next with ⟨s, rfl, same⟩ | ⟨_, same⟩
  · rw [same]
    exact registerOwn own plain
  · rw [same]
    exact own

theorem freshStep (f : b.Fresh) {a : BrokerAction} (plain : a.plain = true)
    (next : b.step a = some c) : c.Fresh := by
  obtain ⟨custody, numbered, since⟩ : c.directory.Custody ∧ c.directory.registry.Numbered ∧
      Registry.Since b.directory.registry c.directory.registry := by
    rcases stepDirectory next with ⟨action, one⟩ | ⟨bus, same⟩
    · have follows := Directory.stepFollows f.custody f.numbered one
      exact ⟨Directory.custodyStep f.custody one, follows.numbered, follows.since⟩
    · rw [same]
      exact ⟨busCustody f.custody bus, f.numbered, .same _⟩
  -- Everything left by the step fits the registry before it, and so the one after it.
  refine ⟨custody, numbered, stepStrategies plain f.strategies next, ?_, ?_⟩
  · intro cache found e mem
    have fits : e.Fits b.directory.registry := by
      rcases stepLeaves next found mem with ⟨cache, used, old⟩ | ⟨x, under, keeps⟩
      · exact f.shared cache used e old
      · exact Pursuit.keepsFits (f.pursuits x under) keeps
    exact Entry.fitsLater since f.numbered f.custody.sound custody.sound fits
  · intro x mem
    have fits : x.2.Fits b.directory.registry := by
      rcases stepPursuits next mem with old | ⟨options, service, jitter, _, _, begun⟩ | ahead
      · exact f.pursuits x old
      · exact Pursuit.beginFits f.strategies begun
      · obtain ⟨p, draw, s, _, was, taken⟩ := ahead
        exact Pursuit.takenFits (f.pursuits _ (pursuitMem was)) taken
    exact ⟨fits.own, fun stage trying =>
      Stage.fitsLater since f.numbered f.custody.sound custody.sound (fits.stage stage trying)⟩

theorem freshSteps (f : b.Fresh) {actions : List BrokerAction}
    (plain : ∀ a ∈ actions, a.plain = true) (run : b.steps actions = some c) : c.Fresh := by
  induction actions generalizing b with
  | nil => cases run; exact f
  | cons a rest ih =>
    obtain ⟨m, one, others⟩ := Option.bind_eq_some_iff.mp run
    exact ih (freshStep f (plain a List.mem_cons_self) one)
      (fun x mem => plain x (List.mem_cons_of_mem _ mem)) others

def standardStart : Broker :=
  .new (.empty Settings.standard.directory) Settings.standard.resolverSettings
    ((some (5000, 10000)).map fun l => .empty l.1 l.2)

def registered : List BrokerAction :=
  (Directory.admission ++ List.replicate 3 (Action.proceed 0)).map .directory

end Broker
end ServiceDirectory
