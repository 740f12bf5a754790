import TypedRecord.Proofs.Cbor.RoundTrip
import TypedRecord.Proofs.Json.RoundTrip
import TypedRecord.Proofs.Shapes

/-!
# Entities through bytes

An entity that is written and read into another one of its shape leaves that one equal to it in
every property, whatever the other one held before. Writing takes the value of every property out of
its column, the codec gives the normal form of the record back, and reading loads every property of
it, from the plain ones inside nested entities outwards.
-/
namespace TypedRecord

/-- What a codec agrees to decode of what it wrote is the normal form of the value, in JSON of a
value that reads back. -/
theorem Codec.decode_of_encode {codec : Codec} {value : Value} {payload : List UInt8}
    (held : value.InMemory) (readable : codec.format = .json → value.ReadsBack)
    (written : codec.encode value = .ok payload) (fits : payload.length ≤ codec.maxBytes)
    (shallow : value.levels codec.format ≤ 127) :
    codec.decode payload = .ok (value.normal codec.format) := by
  obtain ⟨format, maxBytes⟩ := codec
  cases format with
  | cbor =>
    cases written
    have read : WireFormat.cbor.decode value.toCbor = .ok (value.normal .cbor) := by
      rw [Value.levels_cbor] at shallow
      exact Cbor.decode_toCbor held shallow
    rw [decode, if_neg (Nat.not_lt_of_le fits), read]
  | json =>
    obtain ⟨finite, rfl⟩ := encode_json_eq_ok_iff.mp written
    exact (decode_toTerm_iff held.sorted finite shallow fits).mpr (readable rfl)

/-! ### Records -/

/-- The value of a property of a record is the one that travels. -/
theorem Mapping.find?_ofProperties {properties : List String} (distinct : properties.Nodup)
    (values : List (String × Option Value)) {name : String} (member : name ∈ properties) :
    Entries.find? (Mapping.ofProperties properties values) name =
      (Entries.find? values name).join := by
  have keys : (Entries.keys (properties.filterMap fun name =>
      (Entries.find? values name).join.map fun value => (name, value))).Nodup := by
    rw [Entries.keys_filterMap]
    exact distinct.filter _
  rw [Mapping.ofProperties, Entries.find?_ofList keys,
    Entries.find?_filterMap fun name => (Entries.find? values name).join, if_pos member]

/-- The values of columns that travel, one by one. -/
theorem Cell.columnWireValues_eq_mapValues (columns : List (String × Cell)) :
    Cell.columnWireValues columns = Entries.mapValues Cell.wireValue? columns := by
  induction columns with
  | nil => rfl
  | cons column rest ih => simp only [columnWireValues, ih, Entries.mapValues, List.map_cons]

namespace Object

mutual

/-- The value of a name that travels is that of its column. -/
theorem find?_wireValues (name : String) : ∀ object : Object,
    Entries.find? object.wireValues name = (object.cell? .wire name).map Cell.wireValue?
  | .mk type columns mixins hidden => by
    rw [wireValues, Entries.find?_append, Entries.find?_append, find?_mixedWireValues name mixins,
      Cell.columnWireValues_eq_mapValues, Cell.columnWireValues_eq_mapValues,
      Entries.find?_mapValues, Entries.find?_mapValues, cell?, Option.map_or, Option.map_or]
    rfl

/-- The value of a name that travels out of mixed in entities is that of its column. -/
theorem find?_mixedWireValues (name : String) : ∀ mixins : List Object,
    Entries.find? (mixedWireValues mixins) name =
      (mixedCell? .wire name mixins).map Cell.wireValue?
  | [] => rfl
  | object :: rest => by
    rw [mixedWireValues, Entries.find?_append, find?_wireValues name object,
      find?_mixedWireValues name rest, mixedCell?, Option.map_or]

end

/-- The value of a property of the record of an entity. -/
theorem find?_record {object : Object} (distinct : object.type.properties.Nodup) {name : String}
    (member : name ∈ object.type.properties) {cell : Cell}
    (held : object.cell? .wire name = some cell) :
    Entries.find? object.record name = cell.wireValue? := by
  rw [record, Mapping.find?_ofProperties distinct _ member, find?_wireValues, held, Option.map_some,
    Option.join_some]

/-- What an entity is written as is what the codec makes of its record. -/
theorem encode_of_toBytes {object : Object} {codec : Codec} {payload : List UInt8}
    (written : object.toBytes codec = .ok payload) :
    codec.encode (.map object.record) = .ok payload := by
  cases encoded : codec.encode (.map object.record) with
  | ok bytes =>
    simp only [toBytes, encoded, Except.ok.injEq] at written
    rw [written]
  | error error => simp [toBytes, encoded] at written

/-! ### Reading -/

/-- An entry is read when the mapping has one of its name. -/
theorem readEntry_eq (name : String) (object : Object) (data : Mapping) :
    readEntry name object data = match Entries.find? data name with
      | some value => readValue name object value
      | none => .complete object := by
  induction data with
  | nil => rw [readEntry, Entries.find?]
  | cons entry rest ih =>
    obtain ⟨key, value⟩ := entry
    rw [readEntry, Entries.find?]
    by_cases same : key = name
    · simp only [if_pos same]
    · simp only [if_neg same, ih]

/-- No value is read where there is no column. -/
theorem readValue_of_eq_none {name : String} {object : Object}
    (absent : object.cell? .wire name = none) (value : Value) :
    readValue name object value = .complete object := by
  cases value with
  | null => rw [readValue]
  | _ => simp only [readValue, absent]

/-- A value that is not null is loaded into plain content. -/
theorem readValue_plain {name : String} {object : Object} {content : Content}
    (held : object.cell? .wire name = some (.plain content)) {value : Value}
    (present : value.isNull = false) :
    readValue name object value = object.load name content value := by
  cases value with
  | null => simp [Value.isNull] at present
  | map entries => simp only [readValue, held]
  | _ => simp only [readValue, held]

/-- A mapping is read into the entity that a column leads to. -/
theorem readValue_nested {name : String} {object nested : Object} {cell : Cell}
    {declared : Declared} (held : object.cell? .wire name = some cell)
    (inside : object.nested? cell = some (declared, nested)) (data : Mapping) :
    readValue name object (.map data) =
      ((nested.read data).within name).map fun nested =>
        object.setCell .wire name (.entity declared nested) := by
  cases cell with
  | plain content => simp [nested?] at inside
  | entity _ _ | vacant _ =>
    simp only [readValue, held, inside]
    rfl

/-- A mapping is read into the entity that is there. -/
theorem readValue_entity {name : String} {object nested : Object} {declared : Declared}
    (held : object.cell? .wire name = some (.entity declared nested)) (data : Mapping) :
    readValue name object (.map data) =
      ((nested.read data).within name).map fun nested =>
        object.setCell .wire name (.entity declared nested) :=
  readValue_nested held rfl data

/-- Work that replaces the column of one property after another leaves each of them as its own step
made it, and every other column as it was. -/
theorem each_setCell {fields : List (String × WireShape)} (distinct : (fields.map Prod.fst).Nodup)
    {step : Object → String → Progress Object} {good : String × WireShape → Cell → Prop}
    {start : Object}
    (stepped : ∀ field ∈ fields, ∀ state : Object,
      state.cell? .wire field.1 = start.cell? .wire field.1 →
        (state.cell? .wire field.1).isSome ∧ ∃ cell, good field cell ∧
          step state field.1 = .complete (state.setCell .wire field.1 cell))
    (state : Object)
    (same : ∀ field ∈ fields, state.cell? .wire field.1 = start.cell? .wire field.1) :
    ∃ result, Progress.each (fields.map Prod.fst) step state = .complete result ∧
      (∀ field ∈ fields, ∃ cell, result.cell? .wire field.1 = some cell ∧ good field cell) ∧
      ∀ other, other ∉ fields.map Prod.fst →
        result.cell? .wire other = state.cell? .wire other := by
  induction fields generalizing state with
  | nil => exact ⟨state, rfl, by simp, fun _ _ => rfl⟩
  | cons field rest ih =>
    obtain ⟨fresh, restDistinct⟩ := List.nodup_cons.mp distinct
    obtain ⟨firstStep, restSteps⟩ := List.forall_mem_cons.mp stepped
    obtain ⟨firstSame, restSame⟩ := List.forall_mem_cons.mp same
    obtain ⟨held, cell, isGood, first⟩ := firstStep state firstSame
    -- The properties still to come have other names, so they hold what they held at the start.
    have unseen : ∀ other ∈ rest, (state.setCell .wire field.1 cell).cell? .wire other.1 =
        start.cell? .wire other.1 := by
      intro other member
      have different : field.1 ≠ other.1 := fun equal =>
        fresh (List.mem_map.mpr ⟨other, member, equal.symm⟩)
      rw [cell?_setCell_of_ne .wire cell different, restSame other member]
    obtain ⟨result, complete, restGood, kept⟩ := ih restDistinct restSteps
      (state.setCell .wire field.1 cell) unseen
    refine ⟨result, Progress.each_cons_eq_complete.mpr ⟨_, first, complete⟩, ?_, ?_⟩
    · intro other member
      rcases List.mem_cons.mp member with rfl | later
      · refine ⟨cell, ?_, isGood⟩
        rw [kept other.1 fresh, cell?_setCell_self .wire other.1 cell state held]
      · exact restGood other later
    · intro other absent
      rw [List.map_cons, List.mem_cons, not_or] at absent
      rw [kept other absent.2, cell?_setCell_of_ne .wire cell (Ne.symm absent.1)]

end Object

namespace WireShape

open Object

variable {format : WireFormat}

/-- What a shape promises of reading: a column that fits is replaced by what the column that was
written is after it went through the format. -/
def Reads (format : WireFormat) (shape : WireShape) : Prop :=
  ∀ sent current : Cell, shape.Fits sent → shape.Fits current → ∃ value received,
    sent.wireValue? = some value ∧ shape.Restores format sent received ∧
      ∀ (name : String) (object : Object), object.cell? .wire name = some current →
        readValue name object (value.normal format) = .complete (object.setCell .wire name received)

/-- Plain content that travels is read. -/
theorem reads_plain {form : Form} (travels : form.travels = true) : (plain form).Reads format := by
  intro sent current sentFits currentFits
  cases sent with
  | entity _ _ | vacant _ => exact sentFits.elim
  | plain content =>
    cases current with
    | entity _ _ | vacant _ => exact currentFits.elim
    | plain old =>
      have sameForm : content.form = form := sentFits
      have oldForm : old.form = form := currentFits
      subst sameForm
      refine ⟨content.toValue, .plain (content.normal format), rfl, rfl, fun name object held => ?_⟩
      rw [readValue_plain held (Content.isNull_normal_toValue travels), load,
        Content.load_normal oldForm travels]
      rfl

/-- An entity is read in every property when every property is. -/
theorem reads_fields {fields : List (String × WireShape)} (distinct : (fields.map Prod.fst).Nodup)
    (each : ∀ field ∈ fields, field.2.Reads format) {source target : Object}
    (sourceType : source.type.properties = fields.map Prod.fst)
    (targetType : target.type.properties = fields.map Prod.fst)
    (sourceFits : FitsFields fields source) (targetFits : FitsFields fields target) :
    ∃ result, target.read (Entries.mapValues (Value.normal format) source.record) =
        .complete result ∧
      RestoresFields format fields source result ∧
      ∀ name, name ∉ fields.map Prod.fst → result.cell? .wire name = target.cell? .wire name := by
  -- The step of a property looks only at its own column, which still is that of the target.
  have sourceHolds := fitsFields_iff.mp sourceFits
  have targetHolds := fitsFields_iff.mp targetFits
  have stepped : ∀ field ∈ fields, ∀ state : Object,
      state.cell? .wire field.1 = target.cell? .wire field.1 →
        (state.cell? .wire field.1).isSome ∧ ∃ received,
          (∃ sent, source.cell? .wire field.1 = some sent ∧
            field.2.Restores format sent received) ∧
          readEntry field.1 state (Entries.mapValues (Value.normal format) source.record) =
            .complete (state.setCell .wire field.1 received) := by
    intro field member state same
    obtain ⟨sent, sentHeld, sentFits⟩ := sourceHolds field member
    obtain ⟨current, currentHeld, currentFits⟩ := targetHolds field member
    obtain ⟨value, received, travels, restores, reads⟩ :=
      each field member sent current sentFits currentFits
    have named : field.1 ∈ source.type.properties := by
      rw [sourceType]
      exact List.mem_map.mpr ⟨field, member, rfl⟩
    have entry := find?_record (sourceType ▸ distinct) named sentHeld
    have stateHeld : state.cell? .wire field.1 = some current := same.trans currentHeld
    refine ⟨by rw [stateHeld]; rfl, received, ⟨sent, sentHeld, restores⟩, ?_⟩
    rw [readEntry_eq, Entries.find?_mapValues, entry, travels, Option.map_some]
    exact reads field.1 state stateHeld
  obtain ⟨result, complete, restored, kept⟩ := @each_setCell fields distinct
    (fun state property =>
      readEntry property state (Entries.mapValues (Value.normal format) source.record))
    (fun field received => ∃ sent, source.cell? .wire field.1 = some sent ∧
      field.2.Restores format sent received) target stepped target fun _ _ => rfl
  refine ⟨result, ?_, restoresFields_iff.mpr ?_, kept⟩
  · rw [Object.read, targetType]
    exact complete
  · intro field member
    obtain ⟨received, receivedHeld, sent, sentHeld, restores⟩ := restored field member
    exact ⟨sent, received, sentHeld, receivedHeld, restores⟩

/-- Every well-formed shape is read. -/
theorem reads_of_wellFormed {shape : WireShape} (wellFormed : shape.WellFormed) :
    shape.Reads format := by
  induction shape using WireShape.induction with
  | plain form => exact reads_plain wellFormed
  | object fields ih =>
    obtain ⟨distinct, inner⟩ := wellFormed
    have each := fun field member => ih field member (wellFormedFields_iff.mp inner field member)
    intro sent current sentFits currentFits
    cases sent with
    | plain _ | vacant _ => exact sentFits.elim
    | entity declared source =>
      cases current with
      | plain _ | vacant _ => exact currentFits.elim
      | entity currentDeclared target =>
        obtain ⟨result, complete, restored, -⟩ :=
          reads_fields distinct each sentFits.1 currentFits.1 sentFits.2 currentFits.2
        refine ⟨.map source.record, .entity currentDeclared result, rfl, restored, ?_⟩
        intro name object held
        rw [Value.normal_map, readValue_entity held, complete]
        rfl

end WireShape

namespace Object

/-- An entity that is written, in either format and within the bounds of the codec, is read into any
entity of the same shape: that one becomes equal to it in every property, and columns that are no
properties stay as they were. In JSON this takes every number of the record to be read back from its
text. -/
theorem readBytes_toBytes (codec : Codec) {fields : List (String × WireShape)}
    {source target : Object} (wellFormed : (WireShape.object fields).WellFormed)
    (sourceType : source.type.properties = fields.map Prod.fst)
    (targetType : target.type.properties = fields.map Prod.fst)
    (sourceFits : WireShape.FitsFields fields source)
    (targetFits : WireShape.FitsFields fields target)
    (held : (Value.map source.record).InMemory)
    (readable : codec.format = .json → (Value.map source.record).ReadsBack)
    {payload : List UInt8} (written : source.toBytes codec = .ok payload)
    (fits : payload.length ≤ codec.maxBytes)
    (shallow : (Value.map source.record).levels codec.format ≤ 127) :
    ∃ result, target.readBytes codec payload = .complete result ∧
      WireShape.RestoresFields codec.format fields source result ∧
      ∀ name, name ∉ fields.map Prod.fst → result.cell? .wire name = target.cell? .wire name := by
  have decoded := Codec.decode_of_encode held readable (encode_of_toBytes written) fits shallow
  have inner := WireShape.wellFormedFields_iff.mp wellFormed.2
  have each := fun field member =>
    @WireShape.reads_of_wellFormed codec.format _ (inner field member)
  obtain ⟨result, complete, restored, kept⟩ :=
    WireShape.reads_fields wellFormed.1 each sourceType targetType sourceFits targetFits
  refine ⟨result, ?_, restored, kept⟩
  rw [Value.normal_map] at decoded
  simp only [readBytes, recordOfBytes, decoded]
  exact complete

/-- A trip at a time, with the marks of its stop in a hidden column of a nested entity. -/
def trip (time : Timestamp) (marks : List (Option (List UInt8))) : Object :=
  .mk ⟨"Trip", "Trip", true, some ["At", "Stop"], none, false⟩
    [("At", .plain (.scalar .timestamp time)),
      ("Stop", .entity ⟨"Stop", "Stop", .value⟩
        (.mk ⟨"Stop", "Stop", true, some ["Marks"], none, false⟩ [] []
          [("Marks", .plain (.array (.option .bytes) marks))]))] [] []

/-- The properties of a trip. -/
def tripFields : List (String × WireShape) :=
  [("At", .plain (.scalar .timestamp)),
    ("Stop", .object [("Marks", .plain (.array (.option .bytes)))])]

/-- A trip is read out of its JSON bytes into another one. -/
theorem readBytes_toBytes_trip :
    ∃ payload result,
      (trip ⟨-5⟩ [some [1, 2], none]).toBytes ⟨.json, payload.length⟩ = .ok payload ∧
      (trip ⟨9⟩ [some []]).readBytes ⟨.json, payload.length⟩ payload = .complete result ∧
      WireShape.RestoresFields .json tripFields (trip ⟨-5⟩ [some [1, 2], none]) result := by
  have written : ∀ maxBytes, (trip ⟨-5⟩ [some [1, 2], none]).toBytes ⟨.json, maxBytes⟩ =
      .ok (Utf8.encode (Value.map (trip ⟨-5⟩ [some [1, 2], none]).record).toTerm.render) :=
    fun _ => rfl
  have held : (Value.map (trip ⟨-5⟩ [some [1, 2], none]).record).InMemory := by
    constructor
    · exact ⟨by decide, trivial, ⟨by decide, ⟨trivial, trivial, trivial⟩, trivial⟩, trivial⟩
    · have blob : (Value.blob [1, 2]).Addressable := show 2 ≤ Cbor.maxRoom by decide
      exact ⟨by decide, by decide, trivial, by decide,
        ⟨by decide, by decide, ⟨by decide, ⟨blob, trivial, trivial⟩⟩, trivial⟩, trivial⟩
  have wellFormed : (WireShape.object tripFields).WellFormed :=
    ⟨by decide, rfl, ⟨by decide, rfl, trivial⟩, trivial⟩
  have fitting : ∀ time marks, WireShape.FitsFields tripFields (trip time marks) :=
    fun time marks => ⟨⟨_, rfl, rfl⟩, ⟨_, rfl, rfl, ⟨_, rfl, rfl⟩, trivial⟩, trivial⟩
  have shallow : (Value.map (trip ⟨-5⟩ [some [1, 2], none]).record).levels .json ≤ 127 := by decide
  have readable : (Value.map (trip ⟨-5⟩ [some [1, 2], none]).record).ReadsBack :=
    (Json.Term.valueWithin?_toTerm_iff held.sorted rfl shallow).mp rfl
  obtain ⟨result, complete, restored, -⟩ := readBytes_toBytes _ wellFormed rfl rfl
    (fitting ⟨-5⟩ [some [1, 2], none]) (fitting ⟨9⟩ [some []]) held (fun _ => readable) (written _)
    (Nat.le_refl _) shallow
  exact ⟨_, result, written _, complete, restored⟩

end Object

end TypedRecord
