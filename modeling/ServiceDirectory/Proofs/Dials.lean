import Mathlib.Data.List.Forall2
import Mathlib.Data.List.Nodup
import ServiceDirectory.Proofs.Table
import ServiceDirectory.Settings.Convert
import ServiceDirectory.Settings.Layer
import ServiceDirectory.Settings.Read

/-! Records read from tables, in whatever order their entries stand and among whatever others: each
part is what its entry reads as, and is left as it was where there is no entry. -/
namespace ServiceDirectory.Settings
open Decode (Field Absence field)

structure Part (ρ : Type) where
  {α : Type}
  name : String
  read : Source → Except LoadError α
  get : ρ → α

variable {ρ : Type} {fields : List (Field Source LoadError ρ)} {parts : List (Part ρ)}

structure Keeps (parts : List (Part ρ)) (f : Field Source LoadError ρ) (part : Part ρ) : Prop where
  name : f.name = part.name
  free : f.absence ≠ .refused
  stores : ∀ s a x, part.read s = .ok a → ∃ y, f.store s x = .ok y ∧ part.get y = a ∧
    ∀ other ∈ parts, other.name ≠ part.name → other.get y = other.get x

structure Panel (fields : List (Field Source LoadError ρ)) (parts : List (Part ρ)) : Prop where
  keeps : List.Forall₂ (Keeps parts) fields parts
  distinct : (parts.map (·.name)).Nodup

theorem keepsField {α : Type} {name : String} {absence : Absence}
    {read : Source → Except LoadError α} {put : α → ρ → ρ} {get : ρ → α}
    (free : absence ≠ .refused) (taken : ∀ a x, get (put a x) = a)
    (frame : ∀ other ∈ parts, other.name ≠ name → ∀ a x, other.get (put a x) = other.get x) :
    Keeps parts (field name absence read put) ⟨name, read, get⟩ := by
  refine ⟨rfl, free, fun s a x reads => ⟨put a x, ?_, taken a x, fun other mem apart =>
    frame other mem apart a x⟩⟩
  have reads : read s = .ok a := reads
  simp only [field, reads, bind, Except.bind, pure, Except.pure]

theorem Panel.partOf (panel : Panel fields parts) {f : Field Source LoadError ρ}
    (mem : f ∈ fields) : ∃ part ∈ parts, Keeps parts f part := by
  have keeps := panel.keeps
  obtain ⟨n, here, rfl⟩ := List.mem_iff_getElem.mp mem
  have there : n < parts.length := keeps.length_eq ▸ here
  exact ⟨parts[n], List.getElem_mem there, keeps.get here there⟩

theorem Panel.fieldOf (panel : Panel fields parts) {part : Part ρ} (mem : part ∈ parts) :
    ∃ f ∈ fields, Keeps parts f part := by
  have keeps := panel.keeps
  obtain ⟨n, there, rfl⟩ := List.mem_iff_getElem.mp mem
  have here : n < fields.length := keeps.length_eq ▸ there
  exact ⟨fields[n], List.getElem_mem here, keeps.get here there⟩

theorem Panel.same (panel : Panel fields parts) {a b : Part ρ} (left : a ∈ parts)
    (right : b ∈ parts) (named : a.name = b.name) : a = b :=
  List.inj_on_of_nodup_map panel.distinct left right named

structure Taken (parts : List (Part ρ)) (entries : Table Source) (x y : ρ) : Prop where
  given : ∀ part ∈ parts, ∀ s, entries.get? part.name = some s → part.read s = .ok (part.get y)
  left : ∀ part ∈ parts, entries.get? part.name = none → part.get y = part.get x

theorem namedReads (panel : Panel fields parts) {entries : Table Source}
    (distinct : entries.Distinct)
    (reads : ∀ part ∈ parts, ∀ s, entries.get? part.name = some s → ∃ a, part.read s = .ok a)
    (x : ρ) : ∃ y, readNamed fields entries x = .ok y ∧ Taken parts entries x y := by
  induction entries generalizing x with
  | nil => exact ⟨x, rfl, ⟨nofun, fun _ _ _ => rfl⟩⟩
  | cons entry rest ih =>
    obtain ⟨key, s⟩ := entry
    obtain ⟨fresh, others⟩ := List.nodup_cons.mp distinct
    have missing : Table.get? rest key = none := by
      rw [← Table.absentIff, Table.holds, List.any_eq_false]
      exact fun other mem same => fresh (List.mem_map.mpr ⟨other, mem, beq_iff_eq.mp same⟩)
    have first : Table.get? ((key, s) :: rest) key = some s := by simp [Table.get?]
    have later {name : String} (other : name ≠ key) :
        Table.get? ((key, s) :: rest) name = Table.get? rest name := by
      simp [Table.get?, Ne.symm other]
    have restReads (part : Part ρ) (mem : part ∈ parts) (t : Source)
        (found : Table.get? rest part.name = some t) : ∃ a, part.read t = .ok a := by
      refine reads part mem t ?_
      rw [later fun same => by rw [same, missing] at found; cases found]
      exact found
    rw [readNamed]
    cases known : fields.find? (·.name == key) with
    | none =>
      obtain ⟨y, read, taken⟩ := ih others restReads x
      have alien (part : Part ρ) (mem : part ∈ parts) : part.name ≠ key := by
        obtain ⟨f, inside, keeps⟩ := panel.fieldOf mem
        have other := List.find?_eq_none.mp known f inside
        rwa [beq_iff_eq, keeps.name] at other
      refine ⟨y, read, fun part mem t found => ?_, fun part mem none => ?_⟩
      · exact taken.given part mem t ((later (alien part mem)).symm.trans found)
      · exact taken.left part mem ((later (alien part mem)).symm.trans none)
    | some f =>
      obtain ⟨part, mem, keeps⟩ := panel.partOf (List.mem_of_find?_eq_some known)
      have named : part.name = key :=
        keeps.name.symm.trans (beq_iff_eq.mp (List.find?_some known :))
      subst named
      obtain ⟨a, own⟩ := reads part mem s first
      obtain ⟨z, stored, got, frame⟩ := keeps.stores s a x own
      obtain ⟨y, read, taken⟩ := ih others restReads z
      refine ⟨y, ?_, fun other inside t found => ?_, fun other inside none => ?_⟩
      · simp only [stored, Except.mapError, bind, Except.bind, read]
      · by_cases same : other.name = part.name
        · cases panel.same inside mem same
          cases first.symm.trans found
          rw [taken.left _ mem missing, got]
          exact own
        · exact taken.given other inside t ((later same).symm.trans found)
      · have apart : other.name ≠ part.name := fun same => by
          rw [same, first] at none
          cases none
        rw [taken.left other inside ((later apart).symm.trans none), frame other inside apart]

theorem recordReads (panel : Panel fields parts) {entries : Table Source}
    (distinct : entries.Distinct)
    (reads : ∀ part ∈ parts, ∀ s, entries.get? part.name = some s → ∃ a, part.read s = .ok a)
    (kind : String) (start : ρ) (origin : Option String) :
    ∃ y, readRecord kind fields start (.table origin entries) = .ok y ∧
      Taken parts entries start y := by
  obtain ⟨y, read, taken⟩ := namedReads panel distinct reads start
  refine ⟨y, ?_, taken⟩
  have complete : fields.find? (fun f =>
      f.absence == .refused && !(entries.map (·.1)).contains f.name) = none := by
    refine List.find?_eq_none.mpr fun f mem => ?_
    obtain ⟨part, _, keeps⟩ := panel.partOf mem
    simp [keeps.free]
  simp only [readRecord, read, bind, Except.bind, complete]

inductive Kind where
  | number (limit : Nat)
  | flag
  | text

namespace Kind

abbrev Value : Kind → Type
  | number _ => Nat
  | flag => Bool
  | text => String

def read : (kind : Kind) → Source → Except LoadError kind.Value
  | number limit => readNatural limit
  | flag => readFlag
  | text => readText

def shows : (kind : Kind) → kind.Value → Scalar
  | number _, n => .integer n
  | flag, b => .flag b
  | text, s => .text s

def Fits : Kind → Scalar → Prop
  | number limit, .integer n => 0 ≤ n ∧ n ≤ limit
  | flag, .flag _ => True
  | text, .text _ => True
  | _, _ => False

instance (kind : Kind) (v : Scalar) : Decidable (kind.Fits v) :=
  match kind, v with
  | .number limit, .integer n => inferInstanceAs (Decidable (0 ≤ n ∧ n ≤ limit))
  | .flag, .flag _ | .text, .text _ => .isTrue trivial
  | .number _, .nil | .number _, .flag _ | .number _, .floating _ | .number _, .text _
  | .flag, .nil | .flag, .integer _ | .flag, .floating _ | .flag, .text _
  | .text, .nil | .text, .flag _ | .text, .integer _ | .text, .floating _ => .isFalse id

def Takes (kind : Kind) : Source → Prop
  | .scalar _ v => kind.Fits v
  | _ => False

instance (kind : Kind) (s : Source) : Decidable (kind.Takes s) :=
  match s with
  | .scalar _ v => inferInstanceAs (Decidable (kind.Fits v))
  | .table .. | .array .. => .isFalse id

theorem takesScalar {kind : Kind} {s : Source} (takes : kind.Takes s) :
    ∃ origin v, s = .scalar origin v ∧ kind.Fits v := by
  cases s with
  | scalar origin v => exact ⟨origin, v, rfl, takes⟩
  | _ => cases takes

theorem fitReads {kind : Kind} {v : Scalar} (fits : kind.Fits v) (origin : Option String) :
    ∃ a, kind.read (.scalar origin v) = .ok a ∧ kind.shows a = v := by
  cases kind with
  | number limit =>
    cases v with
    | integer n =>
      obtain ⟨natural, most⟩ := fits
      have small : n.toNat ≤ limit := by omega
      refine ⟨n.toNat, ?_, ?_⟩
      · simp only [read, readNatural, asNatural?, natural, if_true, small]
      · simp only [shows, Int.toNat_of_nonneg natural]
    | _ => cases fits
  | flag =>
    cases v with
    | flag b => exact ⟨b, rfl, rfl⟩
    | _ => cases fits
  | text =>
    cases v with
    | text s => exact ⟨s, rfl, rfl⟩
    | _ => cases fits

end Kind

structure Knob (ρ : Type) where
  name : String
  kind : Kind
  get : ρ → kind.Value

namespace Knob

def part (knob : Knob ρ) : Part ρ := ⟨knob.name, knob.kind.read, knob.get⟩

def shown (knob : Knob ρ) (r : ρ) : Scalar := knob.kind.shows (knob.get r)

end Knob

def Source.held : Source → Scalar
  | .scalar _ v => v
  | _ => .nil

def Fitted (knobs : List (Knob ρ)) (entries : Table Source) : Prop :=
  ∀ knob ∈ knobs, ∀ s, entries.get? knob.name = some s → knob.kind.Takes s

theorem knobsRead {knobs : List (Knob ρ)} (panel : Panel fields (knobs.map Knob.part))
    {entries : Table Source} (distinct : entries.Distinct) (fitted : Fitted knobs entries)
    (kind : String) (start : ρ) (origin : Option String) :
    ∃ y, readRecord kind fields start (.table origin entries) = .ok y ∧ ∀ knob ∈ knobs,
      knob.shown y = ((entries.get? knob.name).map Source.held).getD (knob.shown start) := by
  have reads : ∀ part ∈ knobs.map Knob.part, ∀ s, entries.get? part.name = some s →
      ∃ a, part.read s = .ok a := by
    intro part mem s found
    obtain ⟨knob, inside, rfl⟩ := List.mem_map.mp mem
    obtain ⟨from_, v, rfl, fits⟩ := Kind.takesScalar (fitted knob inside s found)
    obtain ⟨a, read, _⟩ := Kind.fitReads fits from_
    exact ⟨a, read⟩
  obtain ⟨y, read, taken⟩ := recordReads panel distinct reads kind start origin
  refine ⟨y, read, fun knob mem => ?_⟩
  have inside := List.mem_map_of_mem (f := Knob.part) mem
  cases found : entries.get? knob.name with
  | none => exact congrArg knob.kind.shows (taken.left knob.part inside found)
  | some s =>
    obtain ⟨from_, v, rfl, fits⟩ := Kind.takesScalar (fitted knob mem s found)
    obtain ⟨a, own, is⟩ := Kind.fitReads fits from_
    have got : knob.kind.read (.scalar from_ v) = .ok (knob.get y) :=
      taken.given knob.part inside _ found
    cases own.symm.trans got
    exact is

def discoveryKnobs : List (Knob DiscoverySection) := [
  ⟨"heartbeat_timeout_secs", .number Number.largest64, (·.heartbeatTimeoutSecs)⟩,
  ⟨"sweep_interval_secs", .number Number.largest64, (·.sweepIntervalSecs)⟩,
  ⟨"event_queue_capacity", .number Number.largest64, (·.eventQueueCapacity)⟩,
  ⟨"probe_refreshes_heartbeat", .flag, (·.probeRefreshesHeartbeat)⟩]

def healthKnobs : List (Knob HealthSection) := [
  ⟨"probe", .text, (·.probe)⟩,
  ⟨"http_path", .text, (·.httpPath)⟩,
  ⟨"probe_interval_ms", .number Number.largest64, (·.probeIntervalMs)⟩,
  ⟨"probe_timeout_ms", .number Number.largest64, (·.probeTimeoutMs)⟩,
  ⟨"success_threshold", .number Number.largest32, (·.successThreshold)⟩,
  ⟨"failure_threshold", .number Number.largest32, (·.failureThreshold)⟩]

def cacheKnobs : List (Knob CacheSection) := [
  ⟨"ttl_ms", .number Number.largest64, (·.ttlMs)⟩,
  ⟨"max_capacity", .number Number.largest64, (·.maxCapacity)⟩]

def resolverKnobs : List (Knob ResolverSection) := [
  ⟨"default_strategy", .text, (·.defaultStrategy)⟩,
  ⟨"timeout_ms", .number Number.largest64, (·.timeoutMs)⟩,
  ⟨"retries", .number Number.largest32, (·.retries)⟩,
  ⟨"retry_delay_ms", .number Number.largest64, (·.retryDelayMs)⟩,
  ⟨"retry_max_delay_ms", .number Number.largest64, (·.retryMaxDelayMs)⟩,
  ⟨"backoff", .text, (·.backoff)⟩]

theorem discoveryPanel :
    Panel (discoveryFields fromSource) (discoveryKnobs.map Knob.part) := by
  refine ⟨?_, by decide⟩
  refine
    .cons (keepsField (by decide) (fun _ _ => rfl) ?_) <|
    .cons (keepsField (by decide) (fun _ _ => rfl) ?_) <|
    .cons (keepsField (by decide) (fun _ _ => rfl) ?_) <|
    .cons (keepsField (by decide) (fun _ _ => rfl) ?_) .nil
  all_goals simp [discoveryKnobs, Knob.part]

theorem healthPanel : Panel (healthFields fromSource) (healthKnobs.map Knob.part) := by
  refine ⟨?_, by decide⟩
  refine
    .cons (keepsField (by decide) (fun _ _ => rfl) ?_) <|
    .cons (keepsField (by decide) (fun _ _ => rfl) ?_) <|
    .cons (keepsField (by decide) (fun _ _ => rfl) ?_) <|
    .cons (keepsField (by decide) (fun _ _ => rfl) ?_) <|
    .cons (keepsField (by decide) (fun _ _ => rfl) ?_) <|
    .cons (keepsField (by decide) (fun _ _ => rfl) ?_) .nil
  all_goals simp [healthKnobs, Knob.part]

theorem cachePanel : Panel (cacheFields fromSource) (cacheKnobs.map Knob.part) := by
  refine ⟨?_, by decide⟩
  refine
    .cons (keepsField (by decide) (fun _ _ => rfl) ?_) <|
    .cons (keepsField (by decide) (fun _ _ => rfl) ?_) .nil
  all_goals simp [cacheKnobs, Knob.part]

theorem resolverPanel : Panel (resolverFields fromSource) (resolverKnobs.map Knob.part) := by
  refine ⟨?_, by decide⟩
  refine
    .cons (keepsField (by decide) (fun _ _ => rfl) ?_) <|
    .cons (keepsField (by decide) (fun _ _ => rfl) ?_) <|
    .cons (keepsField (by decide) (fun _ _ => rfl) ?_) <|
    .cons (keepsField (by decide) (fun _ _ => rfl) ?_) <|
    .cons (keepsField (by decide) (fun _ _ => rfl) ?_) <|
    .cons (keepsField (by decide) (fun _ _ => rfl) ?_) .nil
  all_goals simp [resolverKnobs, Knob.part]

structure Home where
  {ρ : Type}
  name : String
  kind : String
  fields : List (Field Source LoadError ρ)
  knobs : List (Knob ρ)
  get : Settings → ρ
  panel : Panel fields (knobs.map Knob.part)

structure Dial where
  home : String
  name : String
  kind : Kind
  get : Settings → kind.Value

namespace Dial

def shown (d : Dial) (s : Settings) : Scalar := d.kind.shows (d.get s)

def within (d : Dial) (entries : Table Source) : Option Scalar :=
  (entries.get? d.home).bind fun s => (Table.get? s.entries d.name).map Source.held

end Dial

namespace Home

def part (home : Home) : Part Settings :=
  ⟨home.name, fromSource.record home.kind home.fields (home.get .standard), home.get⟩

def dial (home : Home) (knob : Knob home.ρ) : Dial :=
  ⟨home.name, knob.name, knob.kind, fun s => knob.get (home.get s)⟩

end Home

def homes : List Home := [
  ⟨"discovery", "DiscoveryConfig", _, discoveryKnobs, (·.discovery), discoveryPanel⟩,
  ⟨"health", "HealthConfig", _, healthKnobs, (·.health), healthPanel⟩,
  ⟨"cache", "CacheConfig", _, cacheKnobs, (·.cache), cachePanel⟩,
  ⟨"resolver", "ResolverConfig", _, resolverKnobs, (·.resolver), resolverPanel⟩]

def dials : List Dial := homes.flatMap fun home => home.knobs.map home.dial

theorem dialOf {d : Dial} (mem : d ∈ dials) :
    ∃ home ∈ homes, ∃ knob ∈ home.knobs, d = home.dial knob := by
  obtain ⟨home, inside, own⟩ := List.mem_flatMap.mp mem
  obtain ⟨knob, among, rfl⟩ := List.mem_map.mp own
  exact ⟨home, inside, knob, among, rfl⟩

def otherParts : List (Part Settings) := [
  ⟨"store", fromSource.record "StoreConfig" (storeFields fromSource) .standard, (·.store)⟩,
  ⟨"logging", fromSource.record "LoggingConfig" (loggingFields fromSource) .standard, (·.logging)⟩,
  ⟨"instances", fromSource.list (readInstance fromSource), (·.instances)⟩]

theorem settingsPanel :
    Panel (settingsFields fromSource) (homes.map Home.part ++ otherParts) := by
  refine ⟨?_, by decide⟩
  refine
    .cons (keepsField (by decide) (fun _ _ => rfl) ?_) <|
    .cons (keepsField (by decide) (fun _ _ => rfl) ?_) <|
    .cons (keepsField (by decide) (fun _ _ => rfl) ?_) <|
    .cons (keepsField (by decide) (fun _ _ => rfl) ?_) <|
    .cons (keepsField (by decide) (fun _ _ => rfl) ?_) <|
    .cons (keepsField (by decide) (fun _ _ => rfl) ?_) <|
    .cons (keepsField (by decide) (fun _ _ => rfl) ?_) .nil
  all_goals simp [homes, Home.part, otherParts]

structure Tidy (entries : Table Source) : Prop where
  distinct : entries.Distinct
  homes : ∀ home ∈ homes, ∀ s, entries.get? home.name = some s →
    ∃ origin fields, s = .table origin fields ∧ Table.Distinct fields ∧ Fitted home.knobs fields

variable {entries : Table Source}

theorem homeReads (tidy : Tidy entries) {home : Home} (mem : home ∈ homes) {s : Source}
    (found : entries.get? home.name = some s) :
    ∃ y, home.part.read s = .ok y ∧ ∀ knob ∈ home.knobs,
      knob.shown y = ((Table.get? s.entries knob.name).map Source.held).getD
        (knob.shown (home.get .standard)) := by
  obtain ⟨origin, fields, rfl, distinct, fitted⟩ := tidy.homes home mem s found
  exact knobsRead home.panel distinct fitted home.kind _ origin

theorem settingsReads (tidy : Tidy entries)
    (others : ∀ part ∈ otherParts, ∀ s, entries.get? part.name = some s →
      ∃ a, part.read s = .ok a) (origin : Option String) :
    ∃ t, readSettings fromSource (.table origin entries) = .ok t ∧
      ∀ d ∈ dials, d.shown t = (d.within entries).getD (d.shown .standard) := by
  have reads : ∀ part ∈ homes.map Home.part ++ otherParts, ∀ s,
      entries.get? part.name = some s → ∃ a, part.read s = .ok a := by
    intro part mem s found
    rcases List.mem_append.mp mem with dialled | other
    · obtain ⟨home, inside, rfl⟩ := List.mem_map.mp dialled
      obtain ⟨y, read, _⟩ := homeReads tidy inside found
      exact ⟨y, read⟩
    · exact others part other s found
  obtain ⟨t, read, taken⟩ :=
    recordReads settingsPanel tidy.distinct reads "Config" .standard origin
  refine ⟨t, read, fun d mem => ?_⟩
  obtain ⟨home, inside, knob, among, rfl⟩ := dialOf mem
  have part : home.part ∈ homes.map Home.part ++ otherParts :=
    List.mem_append_left _ (List.mem_map_of_mem inside)
  simp only [Dial.shown, Dial.within, Home.dial]
  cases found : entries.get? home.name with
  | none => exact congrArg knob.shown (taken.left _ part found)
  | some s =>
    obtain ⟨y, read, shown⟩ := homeReads tidy inside found
    cases read.symm.trans (taken.given _ part s found)
    exact shown knob among

end ServiceDirectory.Settings
