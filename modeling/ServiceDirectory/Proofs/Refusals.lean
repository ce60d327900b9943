import ServiceDirectory.Proofs.Startup

/-! What is refused as invalid: a registration with an id, an endpoint or a name of nothing but
blanks, and nothing else. Settings may name an instance so, though never with an empty text. -/
namespace ServiceDirectory

/-- A text that is asked for is there, but has only blanks. -/
structure Settings.ConfiguredInstance.Blank (c : Settings.ConfiguredInstance) : Prop where
  text : Text.blank c.id = true ∨ Text.blank c.endpoint = true ∨ Text.blank c.name = true

theorem Registry.objectionIff {i : Instance} : objection? i ≠ none ↔
    Text.blank i.id = true ∨ Text.blank i.endpoint = true ∨ Text.blank i.name = true := by
  rw [ne_eq, objectionNone]
  constructor
  · intro unfit
    by_contra fine
    simp only [not_or, Bool.not_eq_true] at fine
    exact unfit ⟨fine.1, fine.2.1, fine.2.2⟩
  · rintro (blank | blank | blank) ⟨id, endpoint, name⟩
    · exact Bool.false_ne_true (id.symm.trans blank)
    · exact Bool.false_ne_true (endpoint.symm.trans blank)
    · exact Bool.false_ne_true (name.symm.trans blank)

theorem Settings.ConfiguredInstance.objectedIff {c : Settings.ConfiguredInstance}
    (named : c.id ≠ "") (host : String) (choices : List Nat) (now : Timestamp) :
    Registry.objection? (Daemon.staticInstance c host choices now) ≠ none ↔ c.Blank := by
  have same := staticParticulars named host choices now
  have id : (Daemon.staticInstance c host choices now).id = c.id := congrArg Particulars.id same
  have endpoint : (Daemon.staticInstance c host choices now).endpoint = c.endpoint :=
    congrArg Particulars.endpoint same
  have name : (Daemon.staticInstance c host choices now).name = c.name :=
    congrArg Particulars.name same
  rw [Registry.objectionIff, id, endpoint, name]
  exact ⟨.mk, Blank.text⟩

namespace Directory
variable {d e : Directory} {a : Action} {k : CallId} {request : Request} {actions : List Action}

def Faultless (actions : List Action) : Prop :=
  ∀ k failure, .settle k (some failure) ∈ actions → failure.kind ≠ .invalid

theorem ownFaultless (all : ∀ a ∈ actions, a.own = true) : Faultless actions := by
  intro k failure mem invalid
  have store : failure.kind = .store := by simpa [Action.own] using all _ mem
  cases store.symm.trans invalid

theorem overStays (lined : d.Lined) (begun : k < d.nextCall) (gone : d.call? k = none)
    (next : d.step a = some e) :
    k < e.nextCall ∧ e.call? k = none ∧ e.ending? k = d.ending? k := by
  obtain ⟨j, before, after, result, told, runs⟩ := stepRuns lined next
  have other : k ≠ j := by
    rintro rfl
    cases runs.was.symm.trans gone
    exact Nat.lt_irrefl _ (runs.course.fresh rfl ▸ begun)
  exact ⟨Nat.lt_of_lt_of_le begun runs.grows, (runs.calls k).trans ((if_neg other).trans gone),
    (runs.ending k).trans (if_neg other)⟩

theorem objectedEnds (custody : d.Custody) {i : Instance} {failure : Failure}
    (why : Registry.objection? i = some failure)
    (run : (d.begin (.register i)).steps actions = some e) :
    e.ending? d.nextCall = some (.error failure) := by
  have answers : d.begin (.register i) = d.answer (.error failure) := by
    simp [begin, beginRegister, why]
  have gone : (d.answer (.error failure)).call? d.nextCall = none := callNone custody.lined
  have ended : (d.answer (.error failure)).ending? d.nextCall = some (.error failure) := by
    simp [answer, ending?]
  have begun : (d.answer (.error failure)).Custody :=
    answers ▸ custodyStep custody (a := .begin _) rfl
  rw [answers] at run
  refine (trailHolds (P := fun m => m.Custody ∧ d.nextCall < m.nextCall ∧
    m.call? d.nextCall = none ∧ m.ending? d.nextCall = some (.error failure))
    ⟨begun, Nat.lt_succ_self _, gone, ended⟩ run fun _ _ next kept => ?_).2.2.2
  obtain ⟨custody, begun, gone, ended⟩ := kept
  obtain ⟨still, left, same⟩ := overStays custody.lined begun gone next
  exact ⟨custodyStep custody next, still, left, same.trans ended⟩

theorem courseInvalid {before after : Option Call} {failure : Failure} {told : List Event}
    (course : Course d a k before after (some (.error failure)) told)
    (invalid : failure.kind = .invalid) :
    (∃ i, a = .begin (.register i) ∧ Registry.objection? i ≠ none) ∨
      a = .settle k (some failure) := by
  cases course with
  | refused why =>
    cases why with
    | @objected i _ why => exact .inl ⟨i, rfl, why ▸ nofun⟩
    | shut | unknown | unheard | started => cases invalid
  | turnedAway | missed => cases invalid
  | unsaved => exact .inr rfl
  | unlisted => exact .inr rfl

def Unfaulted (k : CallId) (d : Directory) : Prop :=
  ∀ failure, d.ending? k = some (.error failure) → failure.kind ≠ .invalid

theorem unfaultedStep (lined : d.Lined) (h : d.Unfaulted k)
    (objected : ∀ i, a = .begin (.register i) → Registry.objection? i ≠ none → k ≠ d.nextCall)
    (settled : ∀ failure, a = .settle k (some failure) → failure.kind ≠ .invalid)
    (next : d.step a = some e) : e.Unfaulted k := by
  obtain ⟨j, before, after, result, told, runs⟩ := stepRuns lined next
  intro failure ended invalid
  rw [runs.ending] at ended
  split at ended
  · rename_i turn
    subst turn
    cases result with
    | none => exact h failure ended invalid
    | some result =>
      cases ended
      rcases courseInvalid runs.course invalid with ⟨i, rfl, why⟩ | settles
      · have fresh : before = none := by
          cases before with
          | none => rfl
          | some c => cases runs.course.about nofun
        exact objected i rfl why (runs.course.fresh fresh)
      · exact settled failure settles invalid
  · exact h failure ended invalid

theorem beginNext (next : d.step (.begin request) = some e) : e.nextCall = d.nextCall + 1 := by
  cases stepDeed next with
  | passed ofReport | ignored ofReport => rcases ofReport with same | ⟨_, same⟩ <;> cases same
  | _ => rfl

theorem invalidObjected (custody : d.Custody) (known : d.Known)
    (run : (d.begin request).steps actions = some e) (faultless : Faultless actions)
    {failure : Failure} (ended : e.ending? d.nextCall = some (.error failure))
    (invalid : failure.kind = .invalid) :
    ∃ i, request = .register i ∧ Registry.objection? i ≠ none := by
  by_contra fine
  have first : d.step (.begin request) = some (d.begin request) := rfl
  have unended : d.Unfaulted d.nextCall := fun failure ended => by
    obtain ⟨g, mem, _⟩ := Option.map_eq_some_iff.mp ended
    have own : g.call = d.nextCall := by simpa using List.find?_some mem
    exact absurd (known.endings g (List.mem_of_find?_eq_some mem)) (own ▸ Nat.lt_irrefl _)
  have begun : d.nextCall < (d.begin request).nextCall :=
    beginNext first ▸ Nat.lt_succ_self _
  have opened : (d.begin request).Unfaulted d.nextCall := by
    refine unfaultedStep custody.lined unended (fun i same why => ?_)
      (fun _ same => by cases same) first
    cases same
    exact absurd ⟨i, rfl, why⟩ fine
  refine (trailHolds (P := fun m => m.Custody ∧ d.nextCall < m.nextCall ∧ m.Unfaulted d.nextCall)
    ⟨custodyStep custody first, begun, opened⟩ run fun s mem next ⟨custody, begun, unfaulted⟩ =>
      ⟨custodyStep custody next, ?_, ?_⟩).2.2 failure ended invalid
  · obtain ⟨_, _, _, _, _, runs⟩ := stepRuns custody.lined next
    exact Nat.lt_of_lt_of_le begun runs.grows
  · exact unfaultedStep custody.lined unfaulted (fun _ _ _ => Nat.ne_of_lt begun)
      (fun failure same => faultless _ failure (same ▸ trailActions mem)) next

end Directory

namespace Daemon
variable {d d' m : Daemon} {host : String} {choices : List Nat} {request : Request}
  {instances : List Instance} {store : Table Instance}

structure Regular (d : Daemon) : Prop where
  custody : d.engine.directory.Custody
  known : d.engine.directory.Known
  unkept : d.engine.keeper = none

theorem regularLed {requests : Request → Prop} (h : d.Regular) (unkept : d'.engine.keeper = none)
    (leads : d.engine.directory.Reaches requests d'.engine.directory) : d'.Regular :=
  have ⟨custody, known⟩ := leads.keeps (P := fun m => m.Custody ∧ m.Known) ⟨h.custody, h.known⟩
    fun _ next ⟨custody, known⟩ =>
      ⟨Directory.custodyStep custody next, Directory.knownStep custody.lined known next⟩
  ⟨custody, known, unkept⟩

theorem regularUnstarted (unstarted : d.Unstarted store) : d.Regular where
  custody := unstarted.directory ▸ Directory.withStoreCustody _ _
  known := unstarted.directory ▸ Directory.withStoreKnown _ _
  unkept := unstarted.unkept

theorem callInvalid (regular : d.Regular) {failure : Failure}
    (came : d.call request = (d', some (.error failure))) (invalid : failure.kind = .invalid) :
    ∃ i, request = .register i ∧ Registry.objection? i ≠ none := by
  obtain ⟨_, _, first, rest, e, own, run, ended, _⟩ := callAlone regular.unkept came
  exact Directory.invalidObjected regular.custody regular.known run
    (Directory.ownFaultless fun a mem => own a (List.mem_append_left _ mem)) ended invalid

theorem callObjected (regular : d.Regular) {i : Instance} {failure : Failure}
    {result : Except Failure Answer} (why : Registry.objection? i = some failure)
    (came : d.call (.register i) = (d', some result)) : result = .error failure := by
  obtain ⟨_, _, first, rest, e, _, run, ended, _⟩ := callAlone regular.unkept came
  exact Option.some.inj (ended.symm.trans (Directory.objectedEnds regular.custody why run))

theorem registersFine (regular : d.Regular) (registers : Registers d instances d') :
    ∀ i ∈ instances, Registry.objection? i = none := by
  induction registers with
  | nil => exact nofun
  | @cons d m d' i rest result came well later ih =>
    intro j mem
    obtain ⟨_, unkept, calls⟩ := callAlone regular.unkept came
    have after : m.Regular := regularLed regular unkept (calls.leads (fun _ => True) trivial)
    rcases List.mem_cons.mp mem with rfl | mem
    · cases why : Registry.objection? j with
      | none => rfl
      | some failure =>
        have taken := well failure (callObjected regular why came)
        cases (Directory.objectionInvalid why).symm.trans taken
    · exact ih after j mem

theorem startFails {e : DaemonError} (failed : d.start host choices = (d', .error e))
    {context : Option String} {cause : Failure} (is : e = .failure context cause) :
    (∃ n, d.call .bootstrap = (n, some (.error cause))) ∨
    (∃ n loaded, d.call .bootstrap = (n, some (.ok loaded)) ∧
      ∃ m, n.call .start = (m, some (.error cause))) ∨
    ∃ m front i rest n, Runs d m ∧ m.configured host choices = front ++ i :: rest ∧
      Registers m front n ∧ n.call (.register i) = (d', some (.error cause)) ∧
        context = some ("Failed to register static instance " ++ i.id) := by
  subst is
  unfold start at failed
  split at failed
  · rename_i failure load
    cases failed
    unfold Daemon.load at load
    split at load <;> cases load
    rename_i called
    exact .inl ⟨_, called⟩
  rename_i loaded count load
  obtain ⟨answer, boots⟩ := loadIs load
  split at failed
  · cases failed
  · rename_i called
    cases failed
    exact .inr (.inl ⟨_, _, boots, _, called⟩)
  rename_i running begun run
  dsimp only at failed
  split at failed
  · rename_i registered
    cases failed
    obtain ⟨front, i, rest, n, is, registers, thwarts⟩ := registerAllFails registered
    cases thwarts with
    | failure called => exact .inr (.inr ⟨_, front, i, rest, n, ⟨_, _, _, _, boots, run, rfl⟩, is,
        registers, called, rfl⟩)
  · cases failed

theorem staticInvalidIff {c : Settings.ConfiguredInstance} (named : c.id ≠ "") {now : Timestamp}
    {settings : DirectorySettings} {actions more : List Action} {e f : Directory}
    {result : Except Failure Answer}
    (run : (Directory.withStore settings store).steps actions = some e)
    (later : (e.begin (.register (staticInstance c host choices now))).steps more = some f)
    (faultless : Directory.Faultless more) (ended : f.ending? e.nextCall = some result) :
    (∃ failure, result = .error failure ∧ failure.kind = .invalid) ↔ c.Blank := by
  have objected := Settings.ConfiguredInstance.objectedIff named host choices now
  obtain ⟨custody, known⟩ := Directory.trailHolds (P := fun m => m.Custody ∧ m.Known)
    ⟨Directory.withStoreCustody settings store, Directory.withStoreKnown settings store⟩ run
    fun _ _ next ⟨custody, known⟩ =>
      ⟨Directory.custodyStep custody next, Directory.knownStep custody.lined known next⟩
  constructor
  · rintro ⟨failure, rfl, invalid⟩
    obtain ⟨i, same, why⟩ := Directory.invalidObjected custody known later faultless ended invalid
    cases same
    exact objected.mp why
  · intro blank
    obtain ⟨failure, why⟩ := Option.ne_none_iff_exists'.mp (objected.mpr blank)
    have ends := Directory.objectedEnds custody why later
    exact ⟨failure, Option.some.inj (ended.symm.trans ends), Directory.objectionInvalid why⟩

theorem startInvalid (named : ∀ c ∈ d.settings.instances, c.id ≠ "")
    (unstarted : d.Unstarted store) {context : Option String} {cause : Failure}
    (failed : d.start host choices = (d', .error (.failure context cause)))
    (invalid : cause.kind = .invalid) : ∃ c ∈ d.settings.instances, c.Blank ∧
      context = some ("Failed to register static instance " ++ c.id) := by
  have regular := regularUnstarted unstarted
  rcases startFails failed rfl with ⟨n, boots⟩ | ⟨n, loaded, boots, m, starts⟩ |
    ⟨m, front, i, rest, n, running, is, registers, refused, rfl⟩
  · obtain ⟨i, same, _⟩ := callInvalid regular boots invalid
    cases same
  · obtain ⟨_, unkept, calls⟩ := callAlone regular.unkept boots
    have ready := regularLed regular unkept (calls.leads (fun _ => True) trivial)
    obtain ⟨i, same, _⟩ := callInvalid ready starts invalid
    cases same
  · obtain ⟨settings, unkept, begins⟩ := running.leads unstarted.unkept []
    obtain ⟨_, free, goes⟩ := registers.leads unkept
    have ready := regularLed (regularLed regular unkept begins) free goes
    obtain ⟨j, same, why⟩ := callInvalid ready refused invalid
    cases same
    have among : i ∈ m.configured host choices := by simp [is]
    obtain ⟨c, mem, rfl⟩ := List.mem_map.mp among
    rw [settings] at mem
    have own : (staticInstance c host choices m.engine.clock).id = c.id :=
      congrArg Particulars.id (staticParticulars (named c mem) host choices m.engine.clock)
    have blank := (Settings.ConfiguredInstance.objectedIff (named c mem) _ _ _).mp why
    exact ⟨c, mem, blank, own ▸ rfl⟩

theorem startedUnblank (named : ∀ c ∈ d.settings.instances, c.id ≠ "")
    (unstarted : d.Unstarted store) (started : d.start host choices = (d', .ok ())) :
    ∀ c ∈ d.settings.instances, ¬c.Blank := by
  intro c mem blank
  obtain ⟨m, n, running, registers, rfl⟩ := startIs started
  obtain ⟨settings, unkept, begins⟩ := running.leads unstarted.unkept []
  have fine := registersFine (regularLed (regularUnstarted unstarted) unkept begins) registers
  have among : staticInstance c host choices m.engine.clock ∈ m.configured host choices :=
    List.mem_map_of_mem (settings ▸ mem)
  exact (Settings.ConfiguredInstance.objectedIff (named c mem) _ _ _).mpr blank (fine _ among)

/-- A registration of what is configured is refused as invalid just if one of its texts is blank. A
start is refused as invalid only for such an instance, and does not succeed with one. -/
theorem onlyBlanksRefused (valid : d.settings.valid = true) (unstarted : d.Unstarted store) :
    (∀ c ∈ d.settings.instances, ∀ host choices now settings stored actions more e f result,
      (Directory.withStore settings stored).steps actions = some e →
      (e.begin (.register (staticInstance c host choices now))).steps more = some f →
      Directory.Faultless more → f.ending? e.nextCall = some result →
        ((∃ failure, result = .error failure ∧ failure.kind = .invalid) ↔ c.Blank)) ∧
    ∀ host choices d',
      (∀ context cause, d.start host choices = (d', .error (.failure context cause)) →
        cause.kind = .invalid → ∃ c ∈ d.settings.instances, c.Blank ∧
          context = some ("Failed to register static instance " ++ c.id)) ∧
      (d.start host choices = (d', .ok ()) → ∀ c ∈ d.settings.instances, ¬c.Blank) := by
  have named : ∀ c ∈ d.settings.instances, c.id ≠ "" :=
    fun c mem => ((Settings.validIff.mp valid).instances c mem).id
  constructor
  · intro c mem host choices now settings stored actions more e f result run later
    exact staticInvalidIff (named c mem) run later
  · intro host choices d'
    exact ⟨fun context cause => startInvalid named unstarted, startedUnblank named unstarted⟩

def blanked : Daemon := madeOver (configuring [named "a" "h:1", named " " "h:2"]) [] []

theorem blankedRefused : blanked.settings.valid = true ∧ blanked.Unstarted [] ∧
    (blanked.start "host" []).2 =
      .error (.failure (some "Failed to register static instance  ")
        ⟨.invalid, "instance id must not be empty"⟩) ∧
    ∃ c ∈ blanked.settings.instances, c.Blank := by
  have valid : blanked.settings.valid = true := by decide
  have unstarted : blanked.Unstarted [] := ⟨rfl, rfl⟩
  have refused : (blanked.start "host" []).2 =
      .error (.failure (some "Failed to register static instance  ")
        ⟨.invalid, "instance id must not be empty"⟩) := by decide +kernel
  obtain ⟨c, mem, blank, _⟩ := ((onlyBlanksRefused valid unstarted).2 "host" []
    (blanked.start "host" []).1).1 _ _ (Prod.ext rfl refused) rfl
  exact ⟨valid, unstarted, refused, c, mem, blank⟩

theorem blankIdPassesCheck :
    ∃ d, Daemon.new (configuring [named " " "127.0.0.1:9"]) = .ok d ∧
      (configuring [named " " "127.0.0.1:9"]).valid = true ∧
      ∃ context cause, (d.start "host" []).2 = .error (.failure context cause) ∧
        cause.kind = .invalid :=
  ⟨_, rfl, by decide, some "Failed to register static instance  ",
    ⟨.invalid, "instance id must not be empty"⟩, by decide +kernel, rfl⟩

end Daemon
end ServiceDirectory
