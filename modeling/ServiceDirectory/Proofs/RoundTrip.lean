import ServiceDirectory.Json.Records
import ServiceDirectory.Proofs.Moments
import ServiceDirectory.Proofs.Slots
import ServiceDirectory.Proofs.Spelling

/-! Instances and events come back from their JSON as they were, and an instance also from JSON that
is ordered or spaced otherwise, holds more, or leaves out what has a default. -/
namespace ServiceDirectory

structure Instance.Writable (i : Instance) : Prop where
  weight : i.weight ≤ Number.largest32
  metadata : i.metadata.Distinct
  registered : i.registeredAt.Charted
  heard : i.lastHeartbeat.Charted

structure Event.Writable (e : Event) : Prop where
  snapshot : e.snapshot.Writable
  stamp : e.stamp.Charted

namespace Instance

def optional : List String := ["version", "weight", "tags", "metadata", "status"]

/-- As it is read when these fields are left out. -/
def without (left : List String) (i : Instance) : Instance := { i with
  version := if "version" ∈ left then "" else i.version
  weight := if "weight" ∈ left then 1 else i.weight
  tags := if "tags" ∈ left then [] else i.tags
  metadata := if "metadata" ∈ left then [] else i.metadata
  status := if "status" ∈ left then .starting else i.status }

theorem withoutNone (i : Instance) : i.without [] = i := by
  simp [without]

end Instance

namespace Json
open Decode (Field field)

def stampShown (t : Timestamp) (d : Draft) : Prop := t.Charted ∧ d = .string t.text

def statusShown (s : Status) (d : Draft) : Prop := d = .string s.name

def eventKindShown (k : EventKind) (d : Draft) : Prop := d = .string k.name

theorem stampReads {t : Timestamp} {d : Draft} (shown : stampShown t d) : readStamp d = .ok t := by
  obtain ⟨charted, rfl⟩ := shown
  simp [readStamp, Timestamp.textReads charted]

theorem statusReads {s : Status} {d : Draft} (shown : statusShown s d) : readStatus d = .ok s := by
  rw [show d = .string s.name from shown]
  simp [readStatus, readNameOf, readVariant, Status.nameDetermines]

theorem eventKindReads {k : EventKind} {d : Draft} (shown : eventKindShown k d) :
    readEventKind d = .ok k := by
  rw [show d = .string k.name from shown]
  simp [readEventKind, readNameOf, readVariant, EventKind.nameDetermines]

def instanceSlots : List (Slot Instance) := [
  .must "id" (·.id) textShown,
  .must "name" (·.name) textShown,
  .may "version" (·.version) textShown,
  .must "endpoint" (·.endpoint) textShown,
  .may "weight" (·.weight) (naturalShown Number.largest32),
  .may "tags" (·.tags) (listShown textShown),
  .may "metadata" (·.metadata) tableShown,
  .may "status" (·.status) statusShown,
  .must "registered_at" (·.registeredAt) stampShown,
  .must "last_heartbeat" (·.lastHeartbeat) stampShown]

theorem instanceLays : Lays instanceFields instanceSlots := by
  have texts (s : String) (d : Draft) (shown : textShown s d) : ofText.text d = .ok s :=
    textReads shown
  refine ⟨?_, by decide, fun i j same => ?_⟩
  · refine
      .cons (storesField (by decide) texts (fun _ _ => rfl) ?_) <|
      .cons (storesField (by decide) texts (fun _ _ => rfl) ?_) <|
      .cons (storesField (by decide) texts (fun _ _ => rfl) ?_) <|
      .cons (storesField (by decide) texts (fun _ _ => rfl) ?_) <|
      .cons (storesField (by decide) (fun _ _ => naturalReads "u32") (fun _ _ => rfl) ?_) <|
      .cons (storesField (by decide) (fun _ _ => listReads texts) (fun _ _ => rfl) ?_) <|
      .cons (storesField (by decide) (fun _ _ => tableReads) (fun _ _ => rfl) ?_) <|
      .cons (storesField (by decide) (fun _ _ => statusReads) (fun _ _ => rfl) ?_) <|
      .cons (storesField (by decide) (fun _ _ => stampReads) (fun _ _ => rfl) ?_) <|
      .cons (storesField (by decide) (fun _ _ => stampReads) (fun _ _ => rfl) ?_) .nil
    all_goals simp [instanceSlots, Slot.must, Slot.may]
  · simp only [instanceSlots, Slot.must, Slot.may, List.forall_mem_cons] at same
    cases i
    cases j
    simp_all

theorem instanceReads {i : Instance} {d : Draft}
    (shown : recordShown instanceSlots blankInstance i d) : readInstanceDraft d = .ok i :=
  recordShownReads instanceLays _ _ shown

def eventSlots : List (Slot Event) := [
  .must "kind" (·.kind) eventKindShown,
  .must "instance" (·.snapshot) (recordShown instanceSlots blankInstance),
  .may "previous_status" (·.previous) (optionShown statusShown),
  .must "timestamp" (·.stamp) stampShown]

theorem eventLays : Lays eventFields eventSlots := by
  have statuses (s : Status) (d : Draft) (shown : statusShown s d) : readStatus d = .ok s :=
    statusReads shown
  refine ⟨?_, by decide, fun i j same => ?_⟩
  · refine
      .cons (storesField (by decide) (fun _ _ => eventKindReads) (fun _ _ => rfl) ?_) <|
      .cons (storesField (by decide) (fun _ _ => instanceReads) (fun _ _ => rfl) ?_) <|
      .cons (storesField (by decide) (fun _ _ => optionReads statuses) (fun _ _ => rfl) ?_) <|
      .cons (storesField (by decide) (fun _ _ => stampReads) (fun _ _ => rfl) ?_) .nil
    all_goals simp [eventSlots, Slot.must, Slot.may]
  · simp only [eventSlots, Slot.must, Slot.may, List.forall_mem_cons] at same
    cases i
    cases j
    simp_all

theorem eventReads {e : Event} {d : Draft}
    (shown : recordShown eventSlots (.plain .registered blankInstance .origin) e d) :
    readEventDraft d = .ok e :=
  recordShownReads eventLays _ _ shown

theorem textsShown (texts : List String) : listShown textShown texts (.ofValue (.texts texts)) := by
  refine ⟨_, rfl, ?_⟩
  induction texts with
  | nil => exact .nil
  | cons text rest ih => exact .cons rfl ih

theorem ofTable (t : Table String) : Draft.ofFields (t.map fun (k, v) => (k, .string v)) =
    t.map fun (k, v) => (some k, Draft.string v) := by
  induction t with
  | nil => rfl
  | cons entry rest ih => simp [Draft.ofFields, Draft.ofValue, ih]

theorem instanceEncodes {i : Instance} (writable : i.Writable) :
    List.Forall₂ (Encodes i) (instanceValue i).members instanceSlots := by
  have weight : naturalShown Number.largest32 i.weight (.ofValue (.ofNat i.weight)) :=
    ⟨writable.weight, rfl⟩
  have metadata : tableShown i.metadata (.ofValue (tableValue i.metadata)) :=
    ⟨i.metadata, (Table.ofDistinct writable.metadata).symm,
      by rw [tableValue, Draft.ofValue, ofTable]⟩
  exact .cons ⟨rfl, rfl⟩ <| .cons ⟨rfl, rfl⟩ <| .cons ⟨rfl, rfl⟩ <| .cons ⟨rfl, rfl⟩ <|
    .cons ⟨rfl, weight⟩ <| .cons ⟨rfl, textsShown i.tags⟩ <| .cons ⟨rfl, metadata⟩ <|
    .cons ⟨rfl, rfl⟩ <| .cons ⟨rfl, writable.registered, rfl⟩ <|
    .cons ⟨rfl, writable.heard, rfl⟩ .nil

theorem textsExact (texts : List String) : ExactItems (texts.map .string) := by
  induction texts with
  | nil => trivial
  | cons text rest ih => exact ⟨trivial, ih⟩

theorem tableExact (t : Table String) : ExactFields (t.map fun (k, v) => (k, .string v)) := by
  induction t with
  | nil => trivial
  | cons entry rest ih => exact ⟨trivial, ih⟩

theorem instanceExact {i : Instance} (writable : i.Writable) : (instanceValue i).Exact := by
  have weight : Fits i.weight := by
    have most := writable.weight
    simp only [Number.largest32] at most
    constructor <;> omega
  exact ⟨trivial, trivial, trivial, trivial, weight, textsExact i.tags, tableExact i.metadata,
    trivial, trivial, trivial, trivial⟩

theorem eventExact {e : Event} (writable : e.Writable) : (eventValue e).Exact := by
  have previous : (Value.ofOption (fun s => .string s.name) e.previous).Exact := by
    cases e.previous <;> trivial
  exact ⟨trivial, instanceExact writable.snapshot, previous, trivial, trivial⟩

theorem instanceGives {i : Instance} (writable : i.Writable) {left : List String}
    {entries : Entries} (few : left ⊆ Instance.optional)
    (excerpt : Excerpt (instanceValue i).members left entries)
    (passable : ∀ entry ∈ entries, Passable entry) :
    Gives instanceSlots blankInstance (i.without left) entries := by
  refine excerptGives (instanceEncodes writable) (by decide) excerpt passable ?_ ?_
  · simp only [instanceSlots, Slot.must, Slot.may, List.forall_mem_cons]
    simp +contextual [Instance.without]
  · have needed (name : String) (apart : name ∉ Instance.optional) :
        name ∉ left := fun out => apart (few out)
    simp only [instanceSlots, Slot.must, Slot.may, List.forall_mem_cons]
    simp +contextual [Instance.without, blankInstance, Instance.fresh, needed, Instance.optional]

theorem excerptWhole (members : List (String × Value)) :
    Excerpt members [] (Draft.ofFields members) :=
  ⟨[], by simp, List.forall_mem_nil _⟩

theorem instanceTold {i : Instance} (writable : i.Writable) {left : List String} {text : String}
    {entries : Entries} (few : left ⊆ Instance.optional)
    (tells : Tells text (.object entries none))
    (excerpt : Excerpt (instanceValue i).members left entries) :
    readInstance text = .ok (i.without left) := by
  rw [readInstance, tellsRead tells]
  exact instanceReads ⟨entries, rfl, instanceGives writable few excerpt (tellsMembers tells)⟩

theorem eventShown {e : Event} (writable : e.Writable) :
    Gives eventSlots (.plain .registered blankInstance .origin) e
      (Draft.ofFields (eventValue e).members) := by
  have snapshot : recordShown instanceSlots blankInstance e.snapshot
      (.ofValue (instanceValue e.snapshot)) := by
    refine ⟨_, rfl, ?_⟩
    have gives := instanceGives writable.snapshot (List.nil_subset _) (excerptWhole _)
      (tellsMembers (renderTells (instanceExact writable.snapshot)))
    rwa [Instance.withoutNone] at gives
  have previous : optionShown statusShown e.previous
      (.ofValue (.ofOption (fun s => .string s.name) e.previous)) := by
    cases e.previous with
    | none => rfl
    | some status => exact ⟨by simp [Value.ofOption, Draft.ofValue], rfl⟩
  have encodes : List.Forall₂ (Encodes e) (eventValue e).members eventSlots :=
    .cons ⟨rfl, rfl⟩ <| .cons ⟨rfl, snapshot⟩ <| .cons ⟨rfl, previous⟩ <|
      .cons ⟨rfl, writable.stamp, rfl⟩ .nil
  exact excerptGives encodes (by decide) (excerptWhole _)
    (tellsMembers (renderTells (eventExact writable))) (fun _ _ _ => rfl) (by simp)

/-- White space, escapes and the order of an object's members do not matter, and neither does what
else it holds, as long as it is JSON. The order of metadata is kept. -/
theorem recordsSurviveJson :
    (∀ i : Instance, i.Writable → readInstance (render (instanceValue i)) = .ok i) ∧
      (∀ e : Event, e.Writable → readEvent (render (eventValue e)) = .ok e) ∧
      ∀ i : Instance, i.Writable → ∀ left ⊆ Instance.optional,
        ∀ text entries, Tells text (.object entries none) →
          Excerpt (instanceValue i).members left entries →
            readInstance text = .ok (i.without left) := by
  refine ⟨fun i writable => ?_, fun e writable => ?_, fun i writable left few text entries tells
    excerpt => instanceTold writable few tells excerpt⟩
  · have told := instanceTold writable (List.nil_subset _) (renderTells (instanceExact writable))
      (excerptWhole _)
    rwa [Instance.withoutNone] at told
  · rw [readEvent, tellsRead (renderTells (eventExact writable))]
    exact eventReads ⟨_, rfl, eventShown writable⟩

def rareInstance : Instance :=
  ⟨"a", "wéb\n\"1\"", "2", "h:1", 3, ["x"], [("k", "v")], .up, ⟨1483228800500000000, true⟩,
    ⟨317231234567000000005, false⟩⟩

theorem rareWritable : rareInstance.Writable :=
  ⟨by decide, by unfold Table.Distinct; decide, ⟨by decide, by decide, by decide⟩,
    ⟨by decide, by decide, by decide⟩⟩

def rareEvent : Event := .statusChange rareInstance .down rareInstance.registeredAt

def spareObject : Value :=
  .object (("more", .array [.null]) ::
    (instanceValue rareInstance).members.filter fun m => !Instance.optional.contains m.1)

theorem rareSurvives :
    readInstance (render (instanceValue rareInstance)) = .ok rareInstance ∧
      readEvent (render (eventValue rareEvent)) = .ok rareEvent ∧
      readInstance (render spareObject) = .ok (rareInstance.without Instance.optional) := by
  obtain ⟨instances, events, excerpts⟩ := recordsSurviveJson
  have spareExact : spareObject.Exact :=
    ⟨⟨trivial, trivial⟩, trivial, trivial, trivial, trivial, trivial, trivial⟩
  refine ⟨instances _ rareWritable, events _ ⟨rareWritable, rareWritable.registered⟩,
    excerpts _ rareWritable Instance.optional (List.Subset.refl _) _ _ (renderTells spareExact) ?_⟩
  refine ⟨[(some "more", .array [.null] none)], (List.perm_append_singleton _ _).symm, ?_⟩
  decide

end Json
end ServiceDirectory
