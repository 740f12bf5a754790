import TypedRecord.Proofs.RoundTrip
import TypedRecord.Proofs.TypedEntities

/-!
# Reading over the wire and reading in memory

A mapping can be read into an entity as it stands, or written by a codec, decoded and read then. A
codec gives the normal form of the mapping back, and a typed entity is read from it as from the
mapping itself. Main statement: where a mapping is read into a typed entity and a codec writes it,
within its bounds, reading the bytes leaves the same entity, unless a number of the mapping is not
read back from its JSON text.
-/
namespace TypedRecord

/-- A value goes through a format for what reads it when every property of a typed entity that is
read from the value is read from its normal form, with the same outcome. That outcome is typed
again. -/
def WireFormat.Transits (format : WireFormat) (value : Value) : Prop :=
  ∀ (name : String) (object final : Object), object.Typed → name ∈ object.type.properties →
    Object.readValue name object value = .complete final →
      Object.readValue name object (value.normal format) = .complete final ∧ final.Typed ∧
        final.type = object.type

namespace Object

variable {format : WireFormat} {name : String} {object final : Object}

/-- Plain content is loaded from the normal form of a value that it is loaded from. -/
theorem load_normal_of_complete {content : Content} (typed : object.Typed)
    (named : name ∈ object.type.properties)
    (held : object.cell? .wire name = some (.plain content)) {value : Value}
    (read : object.load name content value = .complete final) :
    object.load name content (value.normal format) = .complete final ∧ final.Typed ∧
      final.type = object.type := by
  have contentTyped : content.form.isTyped = true := typed_of_cell? named object typed held
  rw [load, Progress.ofStep_eq_complete] at read
  cases loading : content.load name value with
  | error error => simp [loading, Except.map] at read
  | ok loaded =>
    rw [loading] at read
    cases read
    refine ⟨?_, ?_, type_setCell _ _ _ _⟩
    · rw [load, Content.load_normal_of_load contentTyped loading]
      rfl
    · refine typed.setCell name ?_
      rw [Cell.Typed, Content.form_of_load loading]
      exact contentTyped

/-- A mapping of values that go through a format goes through it. -/
theorem read_normal_of_complete {data : Mapping}
    (inner : ∀ entry ∈ data, format.Transits entry.2) (typed : object.Typed)
    (read : object.read data = .complete final) :
    object.read (Entries.mapValues (Value.normal format) data) = .complete final ∧ final.Typed ∧
      final.type = object.type := by
  -- The type stays, so every step is one for a property of a typed entity.
  have agree : ∀ property ∈ object.type.properties, ∀ state next,
      state.Typed ∧ state.type = object.type → readEntry property state data = .complete next →
        readEntry property state (Entries.mapValues (Value.normal format) data) =
            .complete next ∧ next.Typed ∧ next.type = object.type := by
    rintro property member state next ⟨stateTyped, sameType⟩ started
    rw [readEntry_eq] at started ⊢
    rw [Entries.find?_mapValues]
    cases found : Entries.find? data property with
    | none =>
      rw [found] at started
      cases started
      exact ⟨rfl, stateTyped, sameType⟩
    | some value =>
      rw [found] at started
      obtain ⟨same, nextTyped, nextType⟩ := inner _ (Entries.mem_of_find? found) property
        state next stateTyped (sameType ▸ member) started
      exact ⟨same, nextTyped, nextType.trans sameType⟩
  exact Progress.each_eq_complete_of_steps agree ⟨typed, rfl⟩ read

end Object

namespace WireFormat

open Object

variable {format : WireFormat}

/-- A mapping goes through a format for the entity that it is read into when its values do. -/
theorem readValue_map_normal {data : Mapping} (inner : ∀ entry ∈ data, format.Transits entry.2)
    {name : String} {object final : Object} {cell : Cell} (typed : object.Typed)
    (named : name ∈ object.type.properties) (held : object.cell? .wire name = some cell)
    (notPlain : ∀ content, cell ≠ .plain content)
    (read : readValue name object (.map data) = .complete final) :
    readValue name object ((Value.map data).normal format) = .complete final ∧ final.Typed ∧
      final.type = object.type := by
  rw [Value.normal_map]
  cases inside : object.nested? cell with
  | none =>
    cases cell with
    | plain content => exact absurd rfl (notPlain content)
    | entity _ _ | vacant _ =>
      simp only [readValue, held, inside] at read ⊢
      cases read
      exact ⟨rfl, typed, rfl⟩
  | some target =>
    obtain ⟨declared, nested⟩ := target
    rw [readValue_nested held inside] at read ⊢
    obtain ⟨result, done, rfl⟩ := Progress.map_eq_complete.mp read
    have nestedTyped := typed_of_nested? typed named held inside
    obtain ⟨same, resultTyped, -⟩ :=
      read_normal_of_complete inner nestedTyped (Progress.within_eq_complete.mp done)
    refine ⟨?_, typed.setCell name resultTyped, type_setCell _ _ _ _⟩
    exact Progress.map_eq_complete.mpr ⟨result, Progress.within_eq_complete.mpr same, rfl⟩

/-- A value that is not null goes through a format when the values under its keys do, if it is a
mapping. -/
theorem transits_of_present {value : Value} (present : value.isNull = false)
    (inner : ∀ data, value = .map data → ∀ entry ∈ data, format.Transits entry.2) :
    format.Transits value := by
  intro name object final typed named read
  cases held : object.cell? .wire name with
  | none =>
    rw [readValue_of_eq_none held] at read ⊢
    cases read
    exact ⟨rfl, typed, rfl⟩
  | some cell =>
    cases cell with
    | plain content =>
      rw [readValue_plain held present] at read
      rw [readValue_plain held (value.isNull_normal.trans present)]
      exact load_normal_of_complete typed named held read
    | entity _ _ | vacant _ =>
      cases value with
      | null => simp [Value.isNull] at present
      | map data => exact readValue_map_normal (inner data rfl) typed named held (by simp) read
      | _ => simp [readValue, held, Progress.stop, Progress.complete] at read

/-- Every value goes through every format. -/
theorem transits (value : Value) : format.Transits value := by
  induction value using Value.induction with
  | null =>
    intro name object final typed _ read
    rw [readValue] at read
    cases read
    exact ⟨by rw [Value.normal, readValue], typed, rfl⟩
  | map data ih =>
    refine transits_of_present rfl fun other same => ?_
    cases same
    exact ih
  | _ =>
    refine transits_of_present rfl fun other same => ?_
    cases same

end WireFormat

namespace Object

/-- A mapping with one entry leaves every other property alone. -/
theorem each_readEntry_of_notMem {name : String} {value : Value} (object : Object)
    {properties : List String} (absent : name ∉ properties) :
    Progress.each properties (fun state property => readEntry property state [(name, value)])
      object = .complete object := by
  induction properties with
  | nil => rfl
  | cons property rest ih =>
    obtain ⟨different, later⟩ := List.ne_and_not_mem_of_not_mem_cons absent
    refine Progress.each_cons_eq_complete.mpr ⟨object, ?_, ih later⟩
    rw [readEntry, if_neg different, readEntry]

/-- A mapping with one entry is read at the property of its key. -/
theorem read_single {object final : Object} {name : String} {value : Value}
    (distinct : object.type.properties.Nodup) (named : name ∈ object.type.properties)
    (loaded : readValue name object value = .complete final) :
    object.read [(name, value)] = .complete final := by
  rw [read]
  generalize object.type.properties = properties at distinct named ⊢
  induction properties with
  | nil => exact absurd named List.not_mem_nil
  | cons property rest ih =>
    obtain ⟨fresh, restDistinct⟩ := List.nodup_cons.mp distinct
    rcases List.mem_cons.mp named with rfl | later
    · refine Progress.each_cons_eq_complete.mpr ⟨final, ?_, each_readEntry_of_notMem final fresh⟩
      rw [readEntry, if_pos rfl, loaded]
    · have different : name ≠ property := fun same => fresh (same ▸ later)
      refine Progress.each_cons_eq_complete.mpr ⟨object, ?_, ih restDistinct later⟩
      rw [readEntry, if_neg different, readEntry]

/-- A number is read into a column of numbers as itself. -/
theorem read_number {object : Object} {name : String} {old : Double}
    (distinct : object.type.properties.Nodup) (named : name ∈ object.type.properties)
    (held : object.cell? .wire name = some (.plain (.scalar .double old))) (number : Double) :
    object.read [(name, .float number)] =
      .complete (object.setCell .wire name (.plain (.scalar .double number))) := by
  refine read_single distinct named ?_
  rw [readValue_plain held rfl]
  rfl

/-- A number that goes through JSON is read into a column of numbers as itself exactly when its text
is read as the number. -/
theorem readBytes_number_iff {object : Object} {name : String} {old number : Double}
    {codec : Codec} {payload : List UInt8} (json : codec.format = .json)
    (distinct : object.type.properties.Nodup) (named : name ∈ object.type.properties)
    (held : object.cell? .wire name = some (.plain (.scalar .double old)))
    (written : codec.encode (.map [(name, .float number)]) = .ok payload)
    (fits : payload.length ≤ codec.maxBytes) :
    object.readBytes codec payload =
        .complete (object.setCell .wire name (.plain (.scalar .double number))) ↔
      number.ReadsBack := by
  obtain ⟨format, maxBytes⟩ := codec
  cases json
  obtain ⟨none, rfl⟩ := Codec.encode_json_eq_ok_iff.mp written
  have finite : number.isFinite = true :=
    Value.firstNonFinite?_eq_none_iff.mp none number (.entry (.head _) (.self _))
  obtain ⟨again, reread, decoded⟩ := WireFormat.decodeJson_number name finite
  rw [Double.ReadsBack, reread, Option.some.injEq, readBytes, recordOfBytes, Codec.decode,
    if_neg (Nat.not_lt_of_le fits), WireFormat.decode, decoded]
  cases againFinite : again.isFinite with
  | true =>
    show object.read [(name, .float again)] = _ ↔ again = number
    rw [read_number distinct named held again]
    constructor
    · intro same
      have cells := congrArg (fun progress => progress.state.cell? .wire name) same
      have present : (object.cell? .wire name).isSome := by rw [held]; rfl
      simpa [Progress.complete, cell?_setCell_self _ _ _ _ present] using cells
    · rintro rfl
      rfl
  | false =>
    refine iff_of_false (fun read => ?_) fun same => ?_
    · exact Option.some_ne_none _ (congrArg Progress.stopped read)
    · rw [← same, againFinite] at finite
      cases finite

/-- A mapping that is read into an entity without untyped properties, and that a codec writes within
its bounds, is read out of the bytes with the same outcome, in JSON when its numbers are read back
from their texts: whatever else the codec makes of its values, no coercion that succeeded is lost or
comes to something else. A number that is not read back is lost on every property of numbers. -/
theorem readBytes_of_read (codec : Codec) {object : Object} (typed : object.Typed) :
    (∀ (data : Mapping) (final : Object) (payload : List UInt8), (Value.map data).InMemory →
      object.read data = .complete final → codec.encode (.map data) = .ok payload →
        payload.length ≤ codec.maxBytes → (Value.map data).levels codec.format ≤ 127 →
          (codec.format = .json → (Value.map data).ReadsBack) →
            object.readBytes codec payload = .complete final) ∧
    ∀ (name : String) (old number : Double) (payload : List UInt8), codec.format = .json →
      object.type.properties.Nodup → name ∈ object.type.properties →
        object.cell? .wire name = some (.plain (.scalar .double old)) →
          codec.encode (.map [(name, .float number)]) = .ok payload →
            payload.length ≤ codec.maxBytes →
              ∃ final, object.read [(name, .float number)] = .complete final ∧
                (object.readBytes codec payload = .complete final ↔ number.ReadsBack) := by
  constructor
  · intro data final payload held read written fits shallow readable
    have decoded := Codec.decode_of_encode held readable written fits shallow
    rw [Value.normal_map] at decoded
    obtain ⟨same, -⟩ := @read_normal_of_complete codec.format object final data
      (fun entry _ => WireFormat.transits entry.2) typed read
    simp only [readBytes, recordOfBytes, decoded]
    exact same
  · intro name old number payload json distinct named held written fits
    exact ⟨_, read_number distinct named held number,
      readBytes_number_iff json distinct named held written fits⟩

/-- A request with values that JSON writes as other ones: a timestamp, blobs and an unsigned
integer, some of them under keys that no trip has. -/
def requested : Mapping :=
  [("At", .timestamp ⟨-5⟩), ("Note", .blob [7]),
    ("Stop", .map [("Marks", .list [.blob [1, 2], .null, .list [.uint 3]])])]

/-- A trip is read out of the JSON bytes of a request as out of the request itself. -/
theorem readBytes_of_read_trip :
    ∃ payload, (Codec.mk .json payload.length).encode (.map requested) = .ok payload ∧
      (trip ⟨9⟩ []).readBytes ⟨.json, payload.length⟩ payload =
        .complete (trip ⟨-5⟩ [some [1, 2], none, some [3]]) := by
  have written : ∀ maxBytes, (Codec.mk .json maxBytes).encode (.map requested) =
      .ok (Utf8.encode (Value.map requested).toTerm.render) := fun _ => rfl
  have typed : (trip ⟨9⟩ []).Typed :=
    ⟨⟨fun _ => rfl, fun _ => ⟨trivial, trivial, fun _ => rfl, trivial⟩, trivial⟩, trivial, trivial⟩
  have held : (Value.map requested).InMemory := by
    constructor
    · exact ⟨by decide, trivial, trivial,
        ⟨by decide, ⟨trivial, trivial, ⟨trivial, trivial⟩, trivial⟩, trivial⟩, trivial⟩
    · have first : (Value.blob [7]).Addressable := show 1 ≤ Cbor.maxRoom by decide
      have second : (Value.blob [1, 2]).Addressable := show 2 ≤ Cbor.maxRoom by decide
      have marks : (Value.list [.blob [1, 2], .null, .list [.uint 3]]).Addressable :=
        ⟨by decide, second, trivial, ⟨by decide, trivial, trivial⟩, trivial⟩
      exact ⟨by decide, by decide, trivial, by decide, first, by decide,
        ⟨by decide, by decide, marks, trivial⟩, trivial⟩
  have read : (trip ⟨9⟩ []).read requested =
      .complete (trip ⟨-5⟩ [some [1, 2], none, some [3]]) := rfl
  have shallow : (Value.map requested).levels .json ≤ 127 := by decide
  have readable : (Value.map requested).ReadsBack :=
    (Json.Term.valueWithin?_toTerm_iff held.sorted rfl shallow).mp rfl
  exact ⟨_, written _, (readBytes_of_read _ typed).1 requested _ _ held read (written _)
    (Nat.le_refl _) shallow fun _ => readable⟩

/-- A gauge at a level. -/
def gauge (level : Double) : Object :=
  .mk ⟨"Gauge", "Gauge", true, some ["Level"], none, false⟩
    [("Level", .plain (.scalar .double level))] [] []

/-- A gauge at the largest number below one is at one when that number went through JSON. -/
theorem gauge_level_drifts :
    (gauge Binary.zero).read [("Level", .float .belowOne)] = .complete (gauge .belowOne) ∧
    (Codec.standard .json).encode (.map [("Level", .float .belowOne)]) =
      .ok (Utf8.encode "\x7b\"Level\":0.9999999999999999\x7d") ∧
    (gauge Binary.zero).readBytes (Codec.standard .json)
        (Utf8.encode "\x7b\"Level\":0.9999999999999999\x7d") =
      .complete (gauge (Binary.ofInt 1)) ∧
    Double.belowOne ≠ Binary.ofInt 1 := by
  have text : (Value.map [("Level", .float .belowOne)]).toTerm.render =
      "\x7b\"Level\":0.9999999999999999\x7d" := by decide +kernel
  refine ⟨rfl, by rw [← text]; rfl, ?_, by decide +kernel⟩
  obtain ⟨again, reread, decoded⟩ :=
    WireFormat.decodeJson_number "Level" (by decide : Double.belowOne.isFinite = true)
  rw [Double.reread?_belowOne, Option.some.injEq] at reread
  subst reread
  have fits : ¬ (Codec.standard .json).maxBytes <
      (Utf8.encode "\x7b\"Level\":0.9999999999999999\x7d").length := by decide +kernel
  rw [text, if_pos (by decide +kernel)] at decoded
  simp only [readBytes, recordOfBytes, Codec.decode, if_neg fits]
  rw [Codec.standard, WireFormat.decode, decoded]
  rfl

end Object

end TypedRecord
