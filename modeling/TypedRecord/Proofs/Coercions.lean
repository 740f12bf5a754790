import TypedRecord.Proofs.Kinds

/-!
# Coercions through a format

A format turns a value into its normal form, which is another value for a timestamp, a small
unsigned integer and, in JSON, a blob. A coercion that reads a value reads its normal form as the
same data: no coercion but that to a timestamp takes a timestamp, and that one takes a count as
well; every one that takes an unsigned integer takes a signed one; and bytes are made of a list of
their numbers. Kinds that keep a value or a mapping as it stands are left out, since they keep the
normal form instead.
-/
namespace TypedRecord

variable {format : WireFormat}

/-- A way to read values lasts through a format when it reads the normal form of each value that it
reads as the same data. -/
def WireFormat.Keeps {α : Type} (format : WireFormat) (read : Value → Option α) : Prop :=
  ∀ value data, read value = some data → read (value.normal format) = some data

namespace Value

/-- The normal form of a value is null when the value is. -/
theorem isNull_normal (value : Value) : (value.normal format).isNull = value.isNull := by
  cases value with
  | uint number =>
    rw [normal]
    split <;> rfl
  | blob bytes => cases format <;> rfl
  | _ => rfl

/-- An unsigned integer is the same signed one in its normal form, or none. -/
theorem toInt64?_normal_uint (number : UInt64) :
    ((Value.uint number).normal format).toInt64? = (Value.uint number).toInt64? := by
  rw [normal]
  split
  · next small => exact (int64?_eq_some (by omega) (by omega)).symm
  · rfl

/-- An unsigned integer is the same number in its normal form. -/
theorem toDouble?_normal_uint (number : UInt64) :
    ((Value.uint number).normal format).toDouble? = (Value.uint number).toDouble? := by
  rw [normal]
  split
  · next small =>
    have same : (Int64.ofInt number.toNat).toInt = number.toNat :=
      Int64.toInt_ofInt_of_le (by omega) (by omega)
    rw [toDouble?, toDouble?, same]
  · rfl

end Value

namespace WireFormat.Keeps

open Value

variable {α β : Type} {read : Value → Option α}

/-- Data that is read further is read further from the normal form. -/
theorem bind (keeps : format.Keeps read) (next : α → Option β) :
    format.Keeps fun value => (read value).bind next := by
  intro value data found
  obtain ⟨middle, first, second⟩ := Option.bind_eq_some_iff.mp found
  exact Option.bind_eq_some_iff.mpr ⟨middle, keeps value middle first, second⟩

/-- Items are read from their normal forms. -/
theorem mapM (keeps : format.Keeps read) {items : List Value} {data : List α}
    (found : items.mapM read = some data) :
    (items.map (Value.normal format)).mapM read = some data := by
  induction items generalizing data with
  | nil => exact found
  | cons item rest ih =>
    rw [List.mapM_cons] at found
    obtain ⟨first, here, later⟩ := Option.bind_eq_some_iff.mp found
    obtain ⟨others, there, both⟩ := Option.bind_eq_some_iff.mp later
    rw [List.map_cons, List.mapM_cons, keeps item first here, ih there]
    exact both

/-- A list is read from the normal forms of its items. -/
theorem items (keeps : format.Keeps read) :
    format.Keeps fun value => value.asList?.bind fun items => items.mapM read := by
  intro value data found
  cases value with
  | list items =>
    rw [normal_list]
    exact keeps.mapM found
  | _ => simp [asList?] at found

/-- Data that may be missing is missing from the normal form as well. -/
theorem option (keeps : format.Keeps read) :
    format.Keeps fun value => if value.isNull then some none else (read value).map some := by
  intro value data found
  simp only [isNull_normal] at found ⊢
  by_cases null : value.isNull
  · simpa only [null, if_true] using found
  · simp only [null] at found ⊢
    obtain ⟨inner, here, rfl⟩ := Option.map_eq_some_iff.mp found
    simp only [keeps value inner here]
    rfl

/-- Texts are read from their normal forms. -/
theorem asText? : format.Keeps Value.asText? := by
  intro value data found
  cases value with
  | text content => exact found
  | _ => simp [Value.asText?] at found

/-- Truth values are read from their normal forms. -/
theorem toBool? : format.Keeps Value.toBool? := by
  intro value data found
  cases value with
  | bool truth => exact found
  | text content => exact found
  | _ => simp [Value.toBool?] at found

/-- Signed integers are read from their normal forms. -/
theorem toInt64? : format.Keeps Value.toInt64? := by
  intro value data found
  cases value with
  | int number => exact found
  | uint number => rw [toInt64?_normal_uint, found]
  | float number => exact found
  | _ => simp [Value.toInt64?] at found

/-- Unsigned integers are read from their normal forms. -/
theorem toUInt64? : format.Keeps Value.toUInt64? := by
  intro value data found
  cases value with
  | int number => exact found
  | uint number => rw [Kind.toUInt64?_normal, ← found, Value.toUInt64?]
  | float number => exact found
  | _ => simp [Value.toUInt64?] at found

/-- Numbers are read from their normal forms. -/
theorem toDouble? : format.Keeps Value.toDouble? := by
  intro value data found
  cases value with
  | int number => exact found
  | uint number => rw [toDouble?_normal_uint, found]
  | float number => exact found
  | _ => simp [Value.toDouble?] at found

/-- Numbers of 32 bits are read from their normal forms. -/
theorem toSingle? : format.Keeps Value.toSingle? := by
  intro value data found
  cases wide : value.toDouble? with
  | none => simp [Value.toSingle?, wide] at found
  | some number =>
    rw [Value.toSingle?, wide] at found
    rw [Value.toSingle?, toDouble? value number wide]
    exact found

/-- Bytes are read from their normal forms. -/
theorem toBytes? : format.Keeps Value.toBytes? := by
  intro value data found
  cases value with
  | blob bytes => rw [Kind.toBytes?_normal, ← found, Value.toBytes?]
  | text content => exact found
  | list items =>
    have byte : format.Keeps toByte? := toUInt64?.bind fun number => uint8? number.toNat
    rw [normal_list]
    exact byte.mapM found
  | _ => simp [Value.toBytes?] at found

/-- Timestamps are read from their normal forms. -/
theorem toTimestamp? : format.Keeps Value.toTimestamp? := by
  intro value data found
  cases value with
  | timestamp time => exact found
  | int millis => exact found
  | uint millis =>
    have same : ((Value.uint millis).normal format).toTimestamp? =
        ((Value.uint millis).normal format).toInt64?.map Timestamp.mk := by
      rw [normal]
      split <;> rfl
    rw [same, toInt64?_normal_uint]
    exact found
  | text content => exact found
  | _ => simp [Value.toTimestamp?] at found

end WireFormat.Keeps

namespace Kind

/-- Whether the kind asks for a representation of its own, and does not keep a value or a mapping as
it stands. -/
def isTyped : Kind → Bool
  | .any | .map | .maps => false
  | .option inner => inner.isTyped
  | _ => true

/-- Data of a typed kind is read from the normal form of a value that it is read from. -/
theorem keeps_ofValue? {kind : Kind} (typed : kind.isTyped = true) :
    format.Keeps kind.ofValue? := by
  induction kind with
  | bool => exact .toBool?
  | int32 => exact WireFormat.Keeps.toInt64?.bind fun number => int32? number.toInt
  | int64 => exact .toInt64?
  | uint32 => exact WireFormat.Keeps.toUInt64?.bind fun number => uint32? number.toNat
  | uint64 => exact .toUInt64?
  | single => exact .toSingle?
  | double => exact .toDouble?
  | text => exact .asText?
  | timestamp => exact .toTimestamp?
  | bytes => exact .toBytes?
  | texts => exact WireFormat.Keeps.asText?.items
  | option inner ih => exact (ih typed).option
  | map | any | maps => exact absurd typed Bool.false_ne_true

/-- Items are loaded from the normal forms of those that they are loaded from. -/
theorem loadItems_normal_of_loadItems {kind : Kind} (typed : kind.isTyped = true) {name : String}
    {position : Nat} {items : List Value} {loaded : List kind.Carrier}
    (read : kind.loadItems name position items = .ok loaded) :
    kind.loadItems name position (items.map (Value.normal format)) = .ok loaded := by
  induction items generalizing position loaded with
  | nil => exact read
  | cons item rest ih =>
    obtain ⟨data, others, first, later, rfl⟩ := loadItems_cons_eq_ok.mp read
    exact loadItems_cons_eq_ok.mpr
      ⟨data, others, keeps_ofValue? typed item data first, ih later, rfl⟩

/-- Entries are loaded from the normal forms of those that they are loaded from. -/
theorem loadEntries_normal_of_loadEntries {kind : Kind} (typed : kind.isTyped = true)
    {name : String} {entries : Mapping} {loaded : Entries kind.Carrier}
    (read : kind.loadEntries name entries = .ok loaded) :
    kind.loadEntries name (Entries.mapValues (Value.normal format) entries) = .ok loaded := by
  induction entries generalizing loaded with
  | nil => exact read
  | cons entry rest ih =>
    obtain ⟨data, others, first, later, rfl⟩ := loadEntries_cons_eq_ok.mp read
    exact loadEntries_cons_eq_ok.mpr
      ⟨data, others, keeps_ofValue? typed entry.2 data first, ih later, rfl⟩

end Kind

/-- Whether content of the form is of a typed kind. -/
def Form.isTyped : Form → Bool
  | .scalar kind | .array kind | .table kind => kind.isTyped

namespace Content

variable {kind : Kind} {name : String} {value : Value} {loaded : Content}

/-- Content of a typed kind is loaded from the normal form of a value that it is loaded from. -/
theorem load_normal_of_load {content : Content} (typed : content.form.isTyped = true)
    (read : content.load name value = .ok loaded) :
    content.load name (value.normal format) = .ok loaded := by
  cases content with
  | scalar kind old =>
    obtain ⟨data, found, rfl⟩ := load_scalar_eq_ok.mp read
    exact load_scalar_eq_ok.mpr ⟨data, Kind.keeps_ofValue? typed value data found, rfl⟩
  | array kind old =>
    obtain ⟨items, data, rfl, inner, rfl⟩ := load_array_eq_ok.mp read
    exact load_array_eq_ok.mpr ⟨_, data, Value.normal_list items,
      Kind.loadItems_normal_of_loadItems typed inner, rfl⟩
  | table kind old =>
    obtain ⟨entries, data, rfl, inner, rfl⟩ := load_table_eq_ok.mp read
    exact load_table_eq_ok.mpr ⟨_, data, Value.normal_map entries,
      Kind.loadEntries_normal_of_loadEntries typed inner, rfl⟩

/-- Loading does not change the form. -/
theorem form_of_load {content : Content} (read : content.load name value = .ok loaded) :
    loaded.form = content.form := by
  cases content with
  | scalar kind old =>
    obtain ⟨_, _, rfl⟩ := load_scalar_eq_ok.mp read
    rfl
  | array kind old =>
    obtain ⟨_, _, _, _, rfl⟩ := load_array_eq_ok.mp read
    rfl
  | table kind old =>
    obtain ⟨_, _, _, _, rfl⟩ := load_table_eq_ok.mp read
    rfl

end Content

end TypedRecord
