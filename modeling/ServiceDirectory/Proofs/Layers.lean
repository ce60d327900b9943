import ServiceDirectory.Proofs.Dials
import ServiceDirectory.Proofs.Digits
import ServiceDirectory.Proofs.Keys
import ServiceDirectory.Settings.Load

/-! Settings in layers: what the environment says of one counts, then what the file says, then its
default, each by itself. -/
namespace ServiceDirectory.Settings

def sections : List String := (homes.map Home.part ++ otherParts).map (·.name)

def Apart (key : String) : Prop := ∀ name ∈ sections, (pathOf key).head? ≠ some (.key name)

instance (key : String) : Decidable (Apart key) :=
  inferInstanceAs (Decidable (∀ name ∈ sections, (pathOf key).head? ≠ some (.key name)))

theorem sectionPath (name : String) (mem : name ∈ sections) : pathOf name = [.key name] := by
  have each : ∀ name ∈ sections, Word name.toList := by decide +kernel
  simpa only [String.ofList_toList] using wordPath (each name mem)

section
variable {entries : Table Source} {name : String} {s : Source}

theorem tidyPut (tidy : Tidy entries) (fits : ∀ home ∈ homes, home.name = name →
    ∃ origin fields, s = .table origin fields ∧ Table.Distinct fields ∧
      Fitted home.knobs fields) : Tidy (entries.put name s) := by
  refine ⟨Table.putDistinct tidy.distinct _ _, fun home mem t found => ?_⟩
  rw [Table.getPut] at found
  split at found
  · cases found
    exact fits home mem ‹_›
  · exact tidy.homes home mem t found

theorem withinPut (d : Dial) : d.within (entries.put name s) =
    if d.home = name then (Table.get? s.entries d.name).map Source.held else d.within entries := by
  rw [Dial.within, Table.getPut]
  split <;> rfl

theorem asideTidy (tidy : Tidy entries) (aside : ∀ home ∈ homes, home.name ≠ name) :
    Tidy (entries.put name s) :=
  tidyPut tidy fun home mem own => absurd own (aside home mem)

theorem asideWithin (aside : ∀ home ∈ homes, home.name ≠ name) {d : Dial} (mem : d ∈ dials) :
    d.within (entries.put name s) = d.within entries := by
  obtain ⟨home, inside, knob, _, rfl⟩ := dialOf mem
  exact (withinPut _).trans (if_neg (aside home inside))

theorem sameHome {home other : Home} (mem : home ∈ homes) (inside : other ∈ homes)
    (named : other.name = home.name) : other = home :=
  List.inj_on_of_nodup_map (f := Home.name) (by decide) inside mem named

theorem homeSection {home : Home} (mem : home ∈ homes) : home.name ∈ sections :=
  List.mem_map.mpr ⟨home.part, List.mem_append_left _ (List.mem_map_of_mem mem), rfl⟩

theorem otherApart {part : Part Settings} (mem : part ∈ otherParts) {home : Home}
    (inside : home ∈ homes) : part.name ≠ home.name := by
  have each : ∀ name ∈ otherParts.map (·.name), name ∉ homes.map (·.name) := by decide
  exact fun same => each _ (List.mem_map_of_mem mem) (same ▸ List.mem_map_of_mem inside)

theorem partSection {part : Part Settings} (mem : part ∈ otherParts) : part.name ∈ sections :=
  List.mem_map.mpr ⟨part, List.mem_append_right _ mem, rfl⟩

end

def Home.Fills (home : Home) : Source → Prop
  | .table _ fields =>
    ∀ knob ∈ home.knobs, ∀ entry ∈ fields, entry.1 = knob.name → knob.kind.Takes entry.2
  | _ => False

instance (home : Home) (s : Source) : Decidable (home.Fills s) :=
  match s with
  | .table _ fields => inferInstanceAs (Decidable
      (∀ knob ∈ home.knobs, ∀ entry ∈ fields, entry.1 = knob.name → knob.kind.Takes entry.2))
  | .scalar .. | .array .. => .isFalse id

/-- The sections with settings are in order, and no key leads into a section but its name. -/
structure Orderly (given : List (String × Source)) : Prop where
  fills : ∀ home ∈ homes, ∀ entry ∈ given, entry.1 = home.name → home.Fills entry.2
  apart : ∀ entry ∈ given, entry.1 ∈ sections ∨ Apart entry.1

instance (given : List (String × Source)) : Decidable (Orderly given) :=
  decidable_of_iff
    ((∀ home ∈ homes, ∀ entry ∈ given, entry.1 = home.name → home.Fills entry.2) ∧
      ∀ entry ∈ given, entry.1 ∈ sections ∨ Apart entry.1)
    ⟨fun h => ⟨h.1, h.2⟩, fun h => ⟨h.fills, h.apart⟩⟩

def Dial.given (d : Dial) (given : List (String × Source)) : Option Scalar :=
  ((given.filter (·.1 == d.home)).flatMap fun section_ =>
    section_.2.entries.filter (·.1 == d.name)).getLast?.map fun entry => entry.2.held

theorem Dial.givenCons (d : Dial) (key : String) (s : Source) (rest : List (String × Source)) :
    d.given ((key, s) :: rest) = (d.given rest).or
      (if d.home = key then (last? s.entries d.name).map Source.held else none) := by
  by_cases own : d.home = key
  · simp only [given, last?, own, List.filter_cons, beq_self_eq_true, if_true, List.flatMap_cons,
      List.getLast?_append]
    cases ((rest.filter (·.1 == key)).flatMap fun section_ =>
      section_.2.entries.filter (·.1 == d.name)).getLast? <;> simp [Function.comp_def]
  · simp [given, own, Ne.symm own]

theorem Orderly.tail {entry : String × Source} {rest : List (String × Source)}
    (orderly : Orderly (entry :: rest)) : Orderly rest :=
  ⟨fun home mem other inside => orderly.fills home mem other (List.mem_cons_of_mem _ inside),
    fun other inside => orderly.apart other (List.mem_cons_of_mem _ inside)⟩

theorem fillsTable {home : Home} {s : Source} (fills : home.Fills s) :
    ∃ origin fields, s = .table origin fields ∧ ∀ knob ∈ home.knobs, ∀ w,
      (knob.name, w) ∈ fields → knob.kind.Takes w := by
  cases s with
  | table origin fields =>
    exact ⟨origin, fields, rfl, fun knob mem w inside => fills knob mem _ inside rfl⟩
  | _ => cases fills

structure Home.Stands (home : Home) (entries existing : Table Source) : Prop where
  is : ((entries.get? home.name).getD .nothing).entries = existing
  lays : ∀ fields origin, ∃ from_, Source.overlay ((entries.get? home.name).getD .nothing)
    (.table origin fields) = Source.overlayEntries (.table from_ existing) fields
  distinct : existing.Distinct
  fitted : Fitted home.knobs existing
  within : ∀ knob, (home.dial knob).within entries = (existing.get? knob.name).map Source.held

theorem homeStands {entries : Table Source} (tidy : Tidy entries) {home : Home}
    (mem : home ∈ homes) : ∃ existing, home.Stands entries existing := by
  cases found : entries.get? home.name with
  | none =>
    refine ⟨[], by rw [found]; rfl, fun _ _ => ⟨none, by rw [found]; rfl⟩, List.nodup_nil, nofun,
      fun knob => ?_⟩
    simp only [Dial.within, Home.dial, found]
    rfl
  | some s =>
    obtain ⟨from_, existing, rfl, distinct, fitted⟩ := tidy.homes home mem s found
    refine ⟨existing, by rw [found]; rfl, fun _ _ => ⟨from_, by rw [found]; rfl⟩, distinct, fitted,
      fun knob => ?_⟩
    simp only [Dial.within, Home.dial, found]
    rfl

section
variable {entries : Table Source} {home : Home} {key : String} {s : Source}

theorem homePut (tidy : Tidy entries) (mem : home ∈ homes) {fields : Table Source}
    (distinct : fields.Distinct) (fitted : Fitted home.knobs fields) (origin : Option String) :
    Tidy (entries.put home.name (.table origin fields)) := by
  refine tidyPut tidy fun other among named => ?_
  obtain rfl : other = home := sameHome mem among named
  exact ⟨origin, fields, rfl, distinct, fitted⟩

def Lays (entries after : Table Source) (key : String) (s : Source) : Prop :=
  Tidy after ∧ ∀ d ∈ dials, d.within after =
    (if d.home = key then (last? s.entries d.name).map Source.held else none).or (d.within entries)

theorem homeLaid (tidy : Tidy entries) (mem : home ∈ homes) (fills : home.Fills s) :
    ∃ after, (Source.table none entries).set home.name s = .table none after ∧
      Lays entries after home.name s := by
  obtain ⟨origin, fields, rfl, fits⟩ := fillsTable fills
  obtain ⟨existing, stands⟩ := homeStands tidy mem
  obtain ⟨from_, laid⟩ := stands.lays fields origin
  obtain ⟨merged, is, apart, gets⟩ := overlayMerges from_ fields existing
  have here (knob : Knob home.ρ) (inside : knob ∈ home.knobs) :
      merged.get? knob.name = (last? fields knob.name).or (existing.get? knob.name) :=
    gets knob.name fun w among => by
      obtain ⟨from_, v, is, _⟩ := Kind.takesScalar (fits knob inside w among)
      exact ⟨from_, v, is⟩
  have fitted : Fitted home.knobs merged := fun knob among w found => by
    rw [here knob among] at found
    cases new : last? fields knob.name with
    | none => exact stands.fitted knob among w (by simpa [new] using found)
    | some v => exact fits knob among w (lastMem (by simpa [new] using found))
  have set : (Source.table none entries).set home.name (.table origin fields) =
      .table none (entries.put home.name (.table from_ merged)) := by
    rw [Source.set, sectionPath _ (homeSection mem)]
    simp only [Source.changeAt, Source.entries, laid, is]
  refine ⟨_, set, homePut tidy mem (apart stands.distinct) fitted from_, fun d inside => ?_⟩
  obtain ⟨other, among, knob, turned, rfl⟩ := dialOf inside
  rw [withinPut]
  by_cases same : other.name = home.name
  · obtain rfl : other = home := sameHome mem among same
    rw [stands.within knob]
    simp only [Home.dial, if_true, Source.entries, here knob turned, Option.map_or]
  · simp only [Home.dial, same, if_false, Option.none_or]

theorem asideLaid (tidy : Tidy entries) (aside : ∀ home ∈ homes, home.name ≠ key)
    (apart : key ∈ sections ∨ Apart key) :
    ∃ after, (Source.table none entries).set key s = .table none after ∧
      Lays entries after key s := by
  obtain ⟨name, t, head, is⟩ := setUnder none entries key s
  have elsewhere : ∀ home ∈ homes, home.name ≠ name := fun home mem same => by
    rcases apart with section_ | apart
    · rw [sectionPath key section_] at head
      cases head
      exact aside home mem same
    · exact apart home.name (homeSection mem) (same ▸ head)
  refine ⟨_, is, asideTidy tidy elsewhere, fun d mem => ?_⟩
  rw [asideWithin elsewhere mem]
  obtain ⟨home, inside, knob, _, rfl⟩ := dialOf mem
  have other : (home.dial knob).home ≠ key := aside home inside
  rw [if_neg other, Option.none_or]

theorem fileStep (tidy : Tidy entries) {rest : List (String × Source)}
    (orderly : Orderly ((key, s) :: rest)) :
    ∃ after, (Source.table none entries).set key s = .table none after ∧
      Lays entries after key s := by
  by_cases own : ∃ home ∈ homes, home.name = key
  · obtain ⟨home, mem, rfl⟩ := own
    exact homeLaid tidy mem (orderly.fills home mem _ List.mem_cons_self rfl)
  · exact asideLaid tidy (fun home mem same => own ⟨home, mem, same⟩)
      (orderly.apart _ List.mem_cons_self)

end

theorem fileLayered {given : List (String × Source)} (orderly : Orderly given)
    {entries : Table Source} (tidy : Tidy entries) :
    ∃ after, (Source.table none entries).layer given = .table none after ∧ Tidy after ∧
      ∀ d ∈ dials, d.within after = (d.given given).or (d.within entries) := by
  induction given generalizing entries with
  | nil => exact ⟨entries, rfl, tidy, fun _ _ => rfl⟩
  | cons entry rest ih =>
    obtain ⟨key, s⟩ := entry
    obtain ⟨middle, set, tidy, own⟩ := fileStep tidy orderly
    obtain ⟨after, layer, tidy, later⟩ := ih orderly.tail tidy
    refine ⟨after, ?_, tidy, fun d mem => ?_⟩
    · rw [← layer, ← set]
      rfl
    · rw [later d mem, own d mem, Dial.givenCons, Option.or_assoc]

inductive Means (text : String) : Scalar → Prop
  | number {n : Nat} (digits : Number.readNatural? text.toList = some n) (small : n < 2 ^ 63) :
      Means text (.integer n)
  | flag {b : Bool} (word : Text.lower text = toString b) : Means text (.flag b)

namespace Dial

def variable_ (d : Dial) : String := "meridian_" ++ d.home ++ "__" ++ d.name

/-- The variable is the setting's own and says what it can be. -/
structure SetBy (d : Dial) (given : String × String) : Prop where
  named : Text.lower given.1 = d.variable_
  means : ∃ v, Means given.2 v ∧ d.kind.Fits v

def said (d : Dial) (environment : List (String × String)) : Option String :=
  last? (environment.map fun given => (Text.lower given.1, given.2)) d.variable_

end Dial

def Alien (given : String × String) : Prop := ∀ key, variableKey? given.1 = some key → Apart key

theorem lowerDigit {c : Char} (digit : Number.isDigit c = true) : Text.lowerChar c = c := by
  obtain ⟨least, most⟩ := Number.digitRange digit
  have each : ∀ n < 58, 48 ≤ n → Text.lowerChar (Char.ofNat n) = Char.ofNat n := by decide +kernel
  have same := each c.toNat (by omega) least
  rwa [Char.ofNat_toNat] at same

theorem lowerDigits {text : String} (all : ∀ c ∈ text.toList, Number.isDigit c = true) :
    Text.lower text = text := by
  have same : text.toList.map Text.lowerChar = text.toList :=
    (List.map_congr_left fun c mem => lowerDigit (all c mem)).trans (List.map_id _)
  rw [Text.lower, same, String.ofList_toList]

theorem digitsNoWord {text word : String} (all : ∀ c ∈ text.toList, Number.isDigit c = true)
    (other : word.toList.all Number.isDigit = false) : (Text.lower text == word) = false := by
  rw [lowerDigits all, beq_eq_false_iff_ne]
  rintro rfl
  rw [List.all_eq_true.mpr all] at other
  cases other

theorem digitsSigned {cs : List Char} {n : Nat} (digits : Number.readNatural? cs = some n)
    (all : ∀ c ∈ cs, Number.isDigit c = true) (small : n < 2 ^ 63) :
    Number.readSigned64? cs = some (n : Int) := by
  have unsigned : Number.readInteger? cs = some (n : Int) := by
    unfold Number.readInteger?
    split
    · exact absurd (all '-' List.mem_cons_self) (by decide)
    · exact absurd (all '+' List.mem_cons_self) (by decide)
    · rw [digits]; rfl
  have fits : Number.fitsSigned64 n = true := by
    simp only [Number.fitsSigned64, Bool.and_eq_true, decide_eq_true_eq]
    omega
  simp [Number.readSigned64?, unsigned, fits]

theorem meansParsed {text : String} {v : Scalar} (means : Means text v) : parsed text = v := by
  cases means with
  | @number n digits small =>
    have all : ∀ c ∈ text.toList, Number.isDigit c = true := by
      unfold Number.readNatural? at digits
      split at digits
      · rename_i fine
        exact List.all_eq_true.mp (Bool.and_eq_true _ _ ▸ fine).2
      · cases digits
    have yes : (Text.lower text == "true") = false := digitsNoWord all rfl
    have no : (Text.lower text == "false") = false := digitsNoWord all rfl
    simp only [parsed, yes, no, Bool.false_eq_true, if_false, digitsSigned digits all small]
  | @flag b word =>
    cases b
    · have word : Text.lower text = "false" := word
      simp [parsed, word]
    · have word : Text.lower text = "true" := word
      simp [parsed, word]

theorem dialWords {d : Dial} (mem : d ∈ dials) : Word d.home.toList ∧ Word d.name.toList ∧
    '_' ∉ d.home.toList ∧ ¬['_', '_'] <:+: d.name.toList := by
  have each : ∀ words ∈ dials.map fun d => (d.home.toList, d.name.toList), Word words.1 ∧
      Word words.2 ∧ '_' ∉ words.1 ∧ ¬['_', '_'] <:+: words.2 := by decide +kernel
  exact each _ (List.mem_map_of_mem mem)

theorem variableLeads {d : Dial} (mem : d ∈ dials) {name : String}
    (named : Text.lower name = d.variable_) :
    ∃ key, variableKey? name = some key ∧ pathOf key = [.key d.home, .key d.name] := by
  obtain ⟨first, second, single, apart⟩ := dialWords mem
  have spelled : (Text.lower name).toList =
      variableStart ++ (d.home.toList ++ '_' :: '_' :: d.name.toList) := by
    rw [named, Dial.variable_, String.toList_append, String.toList_append, String.toList_append,
      List.append_assoc, List.append_assoc]
    rfl
  refine ⟨_, variableKeyIs single apart spelled, ?_⟩
  simpa only [String.ofList_toList] using dottedPath first second

theorem sameDial {d other : Dial} (mem : d ∈ dials) (inside : other ∈ dials)
    (named : other.variable_ = d.variable_) : other = d :=
  List.inj_on_of_nodup_map (f := Dial.variable_) (by decide +kernel) inside mem named

structure Laid (environment : List (String × String)) (entries after : Table Source) : Prop where
  tidy : Tidy after
  said : ∀ d ∈ dials, ∀ text, d.said environment = some text →
    ∃ v, Means text v ∧ d.within after = some v
  unsaid : ∀ d ∈ dials, d.said environment = none → d.within after = d.within entries
  others : ∀ part ∈ otherParts, after.get? part.name = entries.get? part.name

theorem saidCons (d : Dial) (name text : String) (rest : List (String × String)) :
    d.said ((name, text) :: rest) =
      (d.said rest).or (if d.variable_ = Text.lower name then some text else none) :=
  lastCons _ _ _ _

section
variable {entries middle after : Table Source} {environment : List (String × String)}
  {given : String × String} {d : Dial}

theorem sameKnob {home : Home} {knob other : Knob home.ρ} (mem : knob ∈ home.knobs)
    (inside : other ∈ home.knobs) (named : other.name = knob.name) : other = knob := by
  have distinct := home.panel.distinct
  rw [List.map_map] at distinct
  exact List.inj_on_of_nodup_map distinct inside mem named

def Home.turned (home : Home) (outer origin : Option String) (existing : Table Source)
    (knob : Knob home.ρ) (v : Scalar) : Source :=
  .table outer (existing.put knob.name (.scalar origin v))

variable {home : Home} {knob : Knob home.ρ} {existing : Table Source} {v : Scalar}
  {outer origin : Option String}

theorem turnedSet (stands : home.Stands entries existing) {key : String}
    (path : pathOf key = [.key home.name, .key knob.name]) (origin : Option String)
    (v : Scalar) : ∃ outer,
      (Source.table none entries).set key (.scalar origin v) =
        .table none (entries.put home.name (home.turned outer origin existing knob v)) := by
  have whole : (Source.table none entries).entries = entries := rfl
  simp only [Source.set, path, Source.changeAt, whole, stands.is, Source.overlay, Home.turned]
  exact ⟨_, rfl⟩

theorem turnedTidy (tidy : Tidy entries) (stands : home.Stands entries existing)
    (mem : home ∈ homes) (inside : knob ∈ home.knobs) (fits : knob.kind.Fits v) :
    Tidy (entries.put home.name (home.turned outer origin existing knob v)) := by
  refine homePut tidy mem (Table.putDistinct stands.distinct _ _) ?_ outer
  intro one turns w found
  rw [Table.getPut] at found
  split at found
  · rename_i same
    obtain rfl := sameKnob inside turns same
    cases found
    exact fits
  · exact stands.fitted one turns w found

theorem turnedWithin (stands : home.Stands entries existing) (mem : home ∈ homes)
    (inside : knob ∈ home.knobs) {d : Dial} (dial : d ∈ dials) :
    d.within (entries.put home.name (home.turned outer origin existing knob v)) =
      if d.variable_ = (home.dial knob).variable_ then some v else d.within entries := by
  obtain ⟨other, among, one, turns, rfl⟩ := dialOf dial
  have listed : home.dial knob ∈ dials :=
    List.mem_flatMap.mpr ⟨home, mem, List.mem_map_of_mem inside⟩
  rw [withinPut]
  by_cases named : other.name = home.name
  · obtain rfl : other = home := sameHome mem among named
    have own : (other.dial one).variable_ = (other.dial knob).variable_ ↔ one.name = knob.name :=
      ⟨fun same => congrArg Dial.name (sameDial listed dial same), fun same => by
        rw [sameKnob inside turns same]⟩
    simp only [own, stands.within]
    simp only [Home.dial, if_true, Home.turned, Source.entries, Table.getPut]
    split <;> rfl
  · have apart : (other.dial one).variable_ ≠ (home.dial knob).variable_ := fun same => named
      (congrArg Dial.home (sameDial listed dial same))
    rw [if_neg apart]
    exact if_neg named

theorem entryOf {name key : String} (keyed : variableKey? name = some key) (text : String) :
    environmentEntries [(name, text)] =
      [(key, .scalar (some environmentOrigin) (parsed text))] := by
  simp [environmentEntries, keyed]

theorem dialLaid (tidy : Tidy entries) (mem : d ∈ dials) (set : d.SetBy given) :
    ∃ after, (Source.table none entries).layer (environmentEntries [given]) = .table none after ∧
      Laid [given] entries after := by
  obtain ⟨name, text⟩ := given
  obtain ⟨key, keyed, path⟩ := variableLeads mem set.named
  obtain ⟨v, means, fits⟩ := set.means
  have named : Text.lower name = d.variable_ := set.named
  obtain ⟨home, inside, knob, turns, rfl⟩ := dialOf mem
  obtain ⟨existing, stands⟩ := homeStands tidy inside
  obtain ⟨outer, is⟩ := turnedSet stands path (some environmentOrigin) v
  have alone (e : Dial) : e.said [(name, text)] =
      if e.variable_ = (home.dial knob).variable_ then some text else none := by
    rw [saidCons, named]
    rfl
  have entry := entryOf keyed text
  rw [meansParsed means] at entry
  refine ⟨_, (congrArg _ entry).trans is, turnedTidy tidy stands inside turns fits,
    fun e dial said heard => ?_, fun e dial silent => ?_, fun part other => ?_⟩
  · rw [alone] at heard
    rw [turnedWithin stands inside turns dial]
    split at heard
    · rename_i own
      cases heard
      exact ⟨v, means, if_pos own⟩
    · cases heard
  · rw [alone] at silent
    rw [turnedWithin stands inside turns dial]
    split at silent
    · cases silent
    · exact if_neg ‹_›
  · rw [Table.getPut, if_neg]
    exact otherApart other inside

theorem alienLaid (tidy : Tidy entries) (alien : Alien given) :
    ∃ after, (Source.table none entries).layer (environmentEntries [given]) = .table none after ∧
      Laid [given] entries after := by
  obtain ⟨name, text⟩ := given
  have silent (e : Dial) (dial : e ∈ dials) : e.said [(name, text)] = none := by
    rw [saidCons, if_neg]
    · rfl
    · intro own
      obtain ⟨key, keyed, path⟩ := variableLeads dial own.symm
      obtain ⟨home, inside, knob, _, rfl⟩ := dialOf dial
      exact alien key keyed home.name (homeSection inside) (by rw [path]; rfl)
  cases keyed : variableKey? name with
  | none =>
    have entry : environmentEntries [(name, text)] = [] := by simp [environmentEntries, keyed]
    refine ⟨entries, by rw [entry]; rfl, tidy, fun e dial said heard => ?_, fun _ _ _ => rfl,
      fun _ _ => rfl⟩
    cases (silent e dial).symm.trans heard
  | some key =>
    obtain ⟨under, s, head, is⟩ :=
      setUnder none entries key (.scalar (some environmentOrigin) (parsed text))
    have elsewhere (place : String) (section_ : place ∈ sections) : place ≠ under := fun same =>
      alien key keyed place section_ (same ▸ head)
    have aside (home : Home) (inside : home ∈ homes) : home.name ≠ under :=
      elsewhere _ (homeSection inside)
    refine ⟨_, (congrArg _ (entryOf keyed text)).trans is, asideTidy tidy aside,
      fun e dial said heard => ?_, fun e dial _ => asideWithin aside dial, fun part other => ?_⟩
    · cases (silent e dial).symm.trans heard
    · rw [Table.getPut, if_neg (elsewhere _ (partSection other))]

theorem Laid.next (first : Laid [given] entries middle) (rest : Laid environment middle after) :
    Laid (given :: environment) entries after := by
  obtain ⟨name, text⟩ := given
  have split (e : Dial) : e.said ((name, text) :: environment) =
      (e.said environment).or (e.said [(name, text)]) := by
    rw [saidCons, saidCons e name text []]
    rfl
  refine ⟨rest.tidy, fun e dial said heard => ?_, fun e dial silent => ?_, fun part other =>
    (rest.others part other).trans (first.others part other)⟩
  · rw [split] at heard
    cases later : e.said environment with
    | some text =>
      rw [later] at heard
      cases heard
      exact rest.said e dial _ later
    | none =>
      rw [later, Option.none_or] at heard
      obtain ⟨v, means, holds⟩ := first.said e dial said heard
      exact ⟨v, means, (rest.unsaid e dial later).trans holds⟩
  · rw [split, Option.or_eq_none_iff] at silent
    exact (rest.unsaid e dial silent.1).trans (first.unsaid e dial silent.2)

theorem environmentLaid (tidy : Tidy entries)
    (fine : ∀ given ∈ environment, (∃ d ∈ dials, d.SetBy given) ∨ Alien given) :
    ∃ after, (Source.table none entries).layer (environmentEntries environment) =
      .table none after ∧ Laid environment entries after := by
  induction environment generalizing entries with
  | nil =>
    have silent (e : Dial) : e.said [] = none := rfl
    refine ⟨entries, rfl, tidy, fun e _ said heard => ?_, fun _ _ _ => rfl, fun _ _ => rfl⟩
    cases (silent e).symm.trans heard
  | cons given rest ih =>
    obtain ⟨middle, set, first⟩ : ∃ middle, (Source.table none entries).layer
        (environmentEntries [given]) = .table none middle ∧ Laid [given] entries middle := by
      rcases fine given List.mem_cons_self with ⟨d, mem, set⟩ | alien
      · exact dialLaid tidy mem set
      · exact alienLaid tidy alien
    obtain ⟨after, layer, later⟩ := ih first.tidy fun other mem =>
      fine other (List.mem_cons_of_mem _ mem)
    refine ⟨after, ?_, first.next later⟩
    have parts : environmentEntries (given :: rest) =
        environmentEntries [given] ++ environmentEntries rest :=
      List.filterMap_append (l := [given])
    rw [parts, Source.layer, List.foldl_append]
    exact (congrArg (fun s => Source.layer s (environmentEntries rest)) set).trans layer

end

inductive Opens (files : Files) : Option String → List (String × Source) → Prop
  | none : Opens files none []
  | file {path : String} {given : List (String × Source)}
      (read : fileEntries files path = .ok given) : Opens files (some path) given

theorem layersOf {files : Files} {path : Option String} {given : List (String × Source)}
    (opens : Opens files path given) (environment : List (String × String)) :
    layers files path environment =
      .ok ((Source.emptyTable.layer given).layer (environmentEntries environment)) := by
  cases opens with
  | none => rfl
  | file read => simp [layers, read, bind, Except.bind, pure, Except.pure]

/-- Settings load from any file whose sections are tables with settings of their kinds, under any
environment with settings written out. Each setting is what its variable means, or else what the
file has for it, or else its default, whatever there is for the others. -/
theorem settingsLayered {files : Files} {path : Option String} {given : List (String × Source)}
    {environment : List (String × String)} (opens : Opens files path given)
    (orderly : Orderly given)
    (others : ∀ part ∈ otherParts, ∀ s,
      Table.get? (Source.emptyTable.layer given).entries part.name = some s →
        ∃ a, part.read s = .ok a)
    (fine : ∀ given ∈ environment, (∃ d ∈ dials, d.SetBy given) ∨ Alien given) :
    ∃ s, load files path environment = .ok s ∧ ∀ d ∈ dials,
      (∀ text, d.said environment = some text → Means text (d.shown s)) ∧
        (d.said environment = none → d.shown s = (d.given given).getD (d.shown .standard)) := by
  have bare : Tidy [] := ⟨List.nodup_nil, fun _ _ _ absent => by cases absent⟩
  obtain ⟨filed, file, tidy, holds⟩ := fileLayered orderly bare
  obtain ⟨after, layer, laid⟩ := environmentLaid tidy fine
  have file : Source.emptyTable.layer given = .table none filed := file
  rw [file] at others
  obtain ⟨s, read, shows⟩ := settingsReads laid.tidy (fun part mem t found =>
    others part mem t ((laid.others part mem).symm.trans found)) none
  refine ⟨s, ?_, fun d mem => ⟨fun text heard => ?_, fun silent => ?_⟩⟩
  · rw [load, layersOf opens, file, layer]
    exact read
  · obtain ⟨v, means, has⟩ := laid.said d mem text heard
    rw [shows d mem, has]
    exact means
  · have none : d.within [] = Option.none := rfl
    rw [shows d mem, laid.unsaid d mem silent, holds d mem, none, Option.or_none]

def tunedFiles : Files :=
  ⟨[("/etc/tuned.toml", "[cache]\nttl_ms = 1\nmax_capacity = 2\n\n" ++
    "[discovery]\nprobe_refreshes_heartbeat = true\n")], []⟩

def tunedVariables : List (String × String) :=
  [("HOME", "/root"), ("MERIDIAN_CACHE__TTL_MS", "0750"),
    ("MERIDIAN_DISCOVERY__PROBE_REFRESHES_HEARTBEAT", "False"),
    ("MERIDIAN_HEALTH__SUCCESS_THRESHOLD", "4")]

theorem tunedFine :
    ∀ given ∈ tunedVariables, (∃ d ∈ dials, d.SetBy given) ∨ Alien given := by
  have among (n : Nat) (d : Dial) (place : dials[n]? = some d) : d ∈ dials :=
    List.mem_of_getElem? place
  have home : Alien ("HOME", "/root") := fun key keyed => by
    have none : variableKey? "HOME" = none := by decide
    cases none.symm.trans keyed
  simp only [tunedVariables, List.forall_mem_cons]
  refine ⟨.inr home, .inl ⟨_, among 10 _ rfl, ?_⟩, .inl ⟨_, among 3 _ rfl, ?_⟩,
    .inl ⟨_, among 8 _ rfl, ?_⟩, nofun⟩
  · exact ⟨by decide, _, .number (n := 750) rfl (by decide), by decide⟩
  · exact ⟨by decide, _, .flag (b := false) (by decide), by decide⟩
  · exact ⟨by decide, _, .number (n := 4) rfl (by decide), by decide⟩

theorem tunedLayered :
    ∃ given s, Opens tunedFiles (some "/etc/tuned.toml") given ∧ Orderly given ∧
      load tunedFiles (some "/etc/tuned.toml") tunedVariables = .ok s ∧ s.cache = ⟨750, 2⟩ ∧
      s.discovery = ⟨90, 15, 1024, false⟩ ∧ s.health.successThreshold = 4 ∧
      ∀ d ∈ dials, (∀ text, d.said tunedVariables = some text → Means text (d.shown s)) ∧
        (d.said tunedVariables = none → d.shown s = (d.given given).getD (d.shown .standard)) := by
  have reads : (fileEntries tunedFiles "/etc/tuned.toml").toOption.any (fun given =>
      Orderly given && otherParts.all fun part =>
        (Table.get? (Source.emptyTable.layer given).entries part.name).isNone) = true := by
    decide +kernel
  have loads : (load tunedFiles (some "/etc/tuned.toml") tunedVariables).toOption.map
      (fun s => (s.cache, s.discovery, s.health.successThreshold)) =
        some (⟨750, 2⟩, ⟨90, 15, 1024, false⟩, 4) := by decide +kernel
  cases read : fileEntries tunedFiles "/etc/tuned.toml" with
  | error e => rw [read] at reads; cases reads
  | ok given =>
    simp only [read, Except.toOption, Option.any_some, Bool.and_eq_true, decide_eq_true_eq,
      List.all_eq_true, Option.isNone_iff_eq_none] at reads
    obtain ⟨s, loaded, shows⟩ := settingsLayered (.file read) reads.1
      (fun part mem t found => by cases (reads.2 part mem).symm.trans found) tunedFine
    simp only [loaded, Except.toOption, Option.map_some, Option.some.injEq, Prod.mk.injEq] at loads
    exact ⟨given, s, .file read, reads.1, loaded, loads.1, loads.2.1, loads.2.2, shows⟩

end ServiceDirectory.Settings
