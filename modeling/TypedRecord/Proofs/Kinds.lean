import TypedRecord.Entity.Content
import TypedRecord.Proofs.Binary
import TypedRecord.Proofs.Normal

/-!
# Kinds through a format

Data of a kind goes through a format as the normal form of its value, and the coercion of the kind
undoes what the normal form did: a timestamp is made of its count again, a small unsigned integer of
a signed one, bytes of a list of their numbers, and a 32-bit number of the 64-bit one it was written
as. Only a kind that holds values of any type keeps the normal form.
-/
namespace TypedRecord

namespace Kind

variable {format : WireFormat}

/-- What data of a kind is after it went through a format. -/
def normal (format : WireFormat) : (kind : Kind) → kind.Carrier → kind.Carrier
  | .map, entries => Entries.mapValues (Value.normal format) entries
  | .any, value => value.normal format
  | .maps, items => items.map (Entries.mapValues (Value.normal format))
  | .option inner, data => data.map (inner.normal format)
  | _, data => data

/-- Whether the kind has no data whose value is null. -/
def tellsNone : Kind → Bool
  | .any => false
  | .option _ => false
  | _ => true

/-- Whether data of the kind can be told from its value: where there may be none, the kind inside
has no data whose value is null. -/
def isElement : Kind → Bool
  | .option inner => inner.tellsNone
  | _ => true

/-- A signed integer of 32 bits is read back from the 64-bit one that stands for it. -/
theorem toInt32?_int (number : Int32) :
    (Value.int (Int64.ofInt number.toInt)).toInt32? = some number := by
  have low := number.le_toInt
  have high := number.toInt_lt
  have same : (Int64.ofInt number.toInt).toInt = number.toInt :=
    Int64.toInt_ofInt_of_le (by omega) (by omega)
  rw [Value.toInt32?, Value.toInt64?, Option.bind_some, same, int32?_toInt]

/-- An unsigned integer is read back from its normal form. -/
theorem toUInt64?_normal (number : UInt64) :
    ((Value.uint number).normal format).toUInt64? = some number := by
  rw [Value.normal]
  split
  · next small =>
    have same : (Int64.ofInt number.toNat).toInt = number.toNat :=
      Int64.toInt_ofInt_of_le (by omega) (by omega)
    rw [Value.toUInt64?, same, uint64?_toNat]
  · rfl

/-- An unsigned integer of 32 bits is read back from the normal form of the 64-bit one that stands
for it. -/
theorem toUInt32?_normal (number : UInt32) :
    ((Value.uint (UInt64.ofNat number.toNat)).normal format).toUInt32? = some number := by
  have bound := number.toNat_lt
  have same : (UInt64.ofNat number.toNat).toNat = number.toNat :=
    UInt64.toNat_ofNat_of_lt' (by rw [UInt64.size]; omega)
  rw [Value.toUInt32?, toUInt64?_normal, Option.bind_some, same, uint32?_toNat]

/-- A byte is read back from the integer of its number. -/
theorem toByte?_int (byte : UInt8) :
    (Value.int (Int64.ofInt byte.toNat)).toByte? = some byte := by
  have bound := byte.toNat_lt
  have same : (Int64.ofInt byte.toNat).toInt = byte.toNat :=
    Int64.toInt_ofInt_of_le (by omega) (by omega)
  have unsigned : (UInt64.ofNat byte.toNat).toNat = byte.toNat :=
    UInt64.toNat_ofNat_of_lt' (by rw [UInt64.size]; omega)
  rw [Value.toByte?, Value.toUInt64?, same, uint64?_eq_some (by omega), Option.bind_some, unsigned,
    uint8?_toNat]

/-- Items are read one by one. -/
theorem mapM_map {α β γ : Type} {items : List α} {write : α → β} {read : β → Option γ}
    {change : α → γ} (each : ∀ item, read (write item) = some (change item)) :
    (items.map write).mapM read = some (items.map change) := by
  induction items with
  | nil => rfl
  | cons item rest ih => simp [List.mapM_cons, each, ih]

/-- A blob is read back from its normal form. -/
theorem toBytes?_normal (bytes : List UInt8) :
    ((Value.blob bytes).normal format).toBytes? = some bytes := by
  cases format with
  | cbor => rfl
  | json =>
    rw [Value.normal, Value.toBytes?, mapM_map toByte?_int, List.map_id']

/-- A 32-bit number is read back from the 64-bit one that stands for it. -/
theorem toSingle?_float (number : Single) :
    (Value.float number.convert).toSingle? = some number := by
  obtain ⟨back, finite⟩ := Binary.convert_convert BinaryFormat.single_widens_double number
  simp only [Value.toSingle?, Value.toDouble?, back, finite]
  cases number.isFinite <;> rfl

/-- Data of a kind that tells none has a value whose normal form is not null. -/
theorem isNull_normal_toValue {kind : Kind} (tells : kind.tellsNone = true) (data : kind.Carrier) :
    ((kind.toValue data).normal format).isNull = false := by
  have uint : ∀ number, ((Value.uint number).normal format).isNull = false := by
    intro number
    rw [Value.normal]
    split <;> rfl
  cases kind with
  | any | option _ => simp [tellsNone] at tells
  | uint32 | uint64 => exact uint _
  | bytes => cases format <;> rfl
  | bool | int32 | int64 | single | double | text | timestamp | map | texts | maps => rfl

/-- Data of a kind that tells none is read back from the normal form of its value. -/
theorem ofValue?_of_tellsNone {kind : Kind} (tells : kind.tellsNone = true) (data : kind.Carrier) :
    kind.ofValue? ((kind.toValue data).normal format) = some (kind.normal format data) := by
  cases kind with
  | any | option _ => simp [tellsNone] at tells
  | bool | int64 | double | text | timestamp => rfl
  | int32 => exact toInt32?_int data
  | uint32 => exact toUInt32?_normal data
  | uint64 => exact toUInt64?_normal data
  | single => exact toSingle?_float data
  | bytes => exact toBytes?_normal data
  | map =>
    rw [toValue, Value.normal_map]
    rfl
  | texts =>
    have items : ∀ text : String, ((Value.text text).normal format).asText? = some text :=
      fun _ => rfl
    rw [toValue, Value.texts, Value.normal_list, List.map_map, ofValue?, Value.asList?,
      Option.bind_some]
    exact (mapM_map items).trans (by rw [List.map_id']; rfl)
  | maps =>
    have items : ∀ entries : Mapping, ((Value.map entries).normal format).asMap? =
        some (Entries.mapValues (Value.normal format) entries) := by
      intro entries
      rw [Value.normal_map]
      rfl
    rw [toValue, Value.maps, Value.normal_list, List.map_map, ofValue?, Value.asList?,
      Option.bind_some]
    exact mapM_map items

/-- Data of a kind is read back from the normal form of its value. -/
theorem ofValue?_normal_toValue {kind : Kind} (element : kind.isElement = true)
    (data : kind.Carrier) :
    kind.ofValue? ((kind.toValue data).normal format) = some (kind.normal format data) := by
  by_cases tells : kind.tellsNone = true
  · exact ofValue?_of_tellsNone tells data
  · cases kind with
    | any => rfl
    | option inner =>
      have inside : inner.tellsNone = true := element
      cases data with
      | none => rfl
      | some data =>
        rw [toValue, ofValue?, isNull_normal_toValue inside, if_neg Bool.false_ne_true,
          ofValue?_of_tellsNone inside]
        rfl
    | _ => exact absurd rfl tells

/-! ### Loading -/

/-- Items are loaded when the first is read and the others are loaded. -/
theorem loadItems_cons_eq_ok {kind : Kind} {name : String} {position : Nat} {item : Value}
    {rest : List Value} {loaded : List kind.Carrier} :
    kind.loadItems name position (item :: rest) = .ok loaded ↔ ∃ data others,
      kind.ofValue? item = some data ∧ kind.loadItems name (position + 1) rest = .ok others ∧
        loaded = data :: others := by
  rw [loadItems]
  cases kind.ofValue? item with
  | none => simp
  | some data =>
    cases kind.loadItems name (position + 1) rest with
    | error error => simp [Except.map]
    | ok others => simp [Except.map, eq_comm]

/-- Entries are loaded when the value of the first is read and the others are loaded. -/
theorem loadEntries_cons_eq_ok {kind : Kind} {name key : String} {value : Value} {rest : Mapping}
    {loaded : Entries kind.Carrier} :
    kind.loadEntries name ((key, value) :: rest) = .ok loaded ↔ ∃ data others,
      kind.ofValue? value = some data ∧ kind.loadEntries name rest = .ok others ∧
        loaded = (key, data) :: others := by
  rw [loadEntries]
  cases kind.ofValue? value with
  | none => simp
  | some data =>
    cases kind.loadEntries name rest with
    | error error => simp [Except.map]
    | ok others => simp [Except.map, eq_comm]

end Kind

/-- The form of plain content, which loading never changes. -/
inductive Form where
  /-- Data of a kind. -/
  | scalar (kind : Kind)
  /-- Data of a kind in order. -/
  | array (kind : Kind)
  /-- Data of a kind under keys. -/
  | table (kind : Kind)

namespace Form

/-- Whether fields of a single datum of the kind travel. -/
def isAccessor : Kind → Bool
  | .text | .int32 | .int64 | .single | .double | .bool | .bytes | .timestamp => true
  | _ => false

/-- Whether content of the form travels: a single datum of a kind with an accessor, or any number of
data that can be told from their values. -/
def travels : Form → Bool
  | .scalar kind => isAccessor kind
  | .array kind => kind.isElement
  | .table kind => kind.isElement

end Form

namespace Content

variable {format : WireFormat}

/-- The form of content. -/
def form : Content → Form
  | .scalar kind _ => .scalar kind
  | .array kind _ => .array kind
  | .table kind _ => .table kind

/-- What content is after it went through a format. -/
def normal (format : WireFormat) : Content → Content
  | .scalar kind data => .scalar kind (kind.normal format data)
  | .array kind items => .array kind (items.map (kind.normal format))
  | .table kind entries => .table kind (Entries.mapValues (kind.normal format) entries)

/-- A single datum is loaded when the value is read as one. -/
theorem load_scalar_eq_ok {kind : Kind} {name : String} {value : Value} {loaded : Content}
    {old : kind.Carrier} :
    (scalar kind old).load name value = .ok loaded ↔
      ∃ data, kind.ofValue? value = some data ∧ loaded = .scalar kind data := by
  rw [load]
  cases kind.ofValue? value with
  | none => simp
  | some data => simp [eq_comm]

/-- An array is loaded when the value is a list with items that are loaded. -/
theorem load_array_eq_ok {kind : Kind} {name : String} {value : Value} {loaded : Content}
    {old : List kind.Carrier} :
    (array kind old).load name value = .ok loaded ↔ ∃ items data,
      value = .list items ∧ kind.loadItems name 0 items = .ok data ∧
        loaded = .array kind data := by
  cases value with
  | list items =>
    rw [load]
    cases inner : kind.loadItems name 0 items with
    | error error => simp [inner, Except.map]
    | ok data => simp [inner, Except.map, eq_comm]
  | _ => simp [load]

/-- A table is loaded when the value is a map with entries that are loaded. -/
theorem load_table_eq_ok {kind : Kind} {name : String} {value : Value} {loaded : Content}
    {old : List (String × kind.Carrier)} :
    (table kind old).load name value = .ok loaded ↔ ∃ entries data,
      value = .map entries ∧ kind.loadEntries name entries = .ok data ∧
        loaded = .table kind data := by
  cases value with
  | map entries =>
    rw [load]
    cases inner : kind.loadEntries name entries with
    | error error => simp [inner, Except.map]
    | ok data => simp [inner, Except.map, eq_comm]
  | _ => simp [load]

/-- Content of one form takes the same values. -/
theorem load_congr {first second : Content} (form : first.form = second.form) (name : String)
    (value : Value) : first.load name value = second.load name value := by
  cases first <;> cases second <;> cases form <;> rfl

/-- A kind with an accessor tells none. -/
theorem tellsNone_of_isAccessor {kind : Kind} (accessor : Form.isAccessor kind = true) :
    kind.tellsNone = true := by
  cases kind <;> first | rfl | exact absurd accessor Bool.false_ne_true

/-- Content that travels is never written as null. -/
theorem isNull_normal_toValue {content : Content} (travels : content.form.travels = true) :
    (content.toValue.normal format).isNull = false := by
  cases content with
  | scalar kind data => exact Kind.isNull_normal_toValue (tellsNone_of_isAccessor travels) data
  | array kind items => rfl
  | table kind entries => rfl

/-- Items are loaded from the normal forms of their values. -/
theorem loadItems_normal {kind : Kind} (element : kind.isElement = true) (name : String)
    (position : Nat) (items : List kind.Carrier) :
    kind.loadItems name position ((items.map kind.toValue).map (Value.normal format)) =
      .ok (items.map (kind.normal format)) := by
  induction items generalizing position with
  | nil => rfl
  | cons item rest ih =>
    exact Kind.loadItems_cons_eq_ok.mpr
      ⟨_, _, Kind.ofValue?_normal_toValue element item, ih (position + 1), rfl⟩

/-- Entries are loaded from the normal forms of their values. -/
theorem loadEntries_normal {kind : Kind} (element : kind.isElement = true) (name : String)
    (entries : Entries kind.Carrier) :
    kind.loadEntries name
        (Entries.mapValues (Value.normal format) (Entries.mapValues kind.toValue entries)) =
      .ok (Entries.mapValues (kind.normal format) entries) := by
  induction entries with
  | nil => rfl
  | cons entry rest ih =>
    exact Kind.loadEntries_cons_eq_ok.mpr
      ⟨_, _, Kind.ofValue?_normal_toValue element entry.2, ih, rfl⟩

/-- Content that travels is loaded from the normal form of its value, whatever content of its form
was there. -/
theorem load_normal {content current : Content} (same : current.form = content.form)
    (travels : content.form.travels = true) (name : String) :
    current.load name (content.toValue.normal format) = .ok (content.normal format) := by
  rw [load_congr same]
  cases content with
  | scalar kind data =>
    have tells := tellsNone_of_isAccessor travels
    exact load_scalar_eq_ok.mpr ⟨_, Kind.ofValue?_of_tellsNone tells data, rfl⟩
  | array kind items =>
    exact load_array_eq_ok.mpr
      ⟨_, _, Value.normal_list _, loadItems_normal travels name 0 items, rfl⟩
  | table kind entries =>
    exact load_table_eq_ok.mpr
      ⟨_, _, Value.normal_map _, loadEntries_normal travels name entries, rfl⟩

end Content

end TypedRecord
