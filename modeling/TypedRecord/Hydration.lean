import TypedRecord.Registry
import TypedRecord.Settings

/-!
# Hydration

A hydrator assigns the fields of an entity by name from a mapping. The keys are renamed once, at the
start. Then each entry in the order of the keys is processed, if its key has a processor, skipped
when it is null, and assigned to the column of its name. A column that holds an entity gets a new
one, built through the registry by the name of the declared type and hydrated from the entry, which
has to be a map; nothing of the entity that was there remains. The levels that may still be opened
are counted down, so nesting is bounded whatever the entry holds.
-/
namespace TypedRecord

/-- What becomes of a value before it is assigned under a key. -/
abbrev Processor := String → Value → Except Error Value

/-- All that hydration depends on. -/
structure Hydrator where
  /-- The types that nested entities are built from. -/
  registry : Registry
  /-- How keys are renamed. -/
  rules : Rules
  /-- The processors of the keys that have one, at any level. -/
  processors : Entries Processor
  /-- The settings. -/
  settings : Settings

namespace Hydrator

/-- A hydrator that renames and processes nothing, with the default settings. -/
def ofRegistry (registry : Registry) : Hydrator := ⟨registry, [], [], .standard⟩

/-- A mapping with its keys renamed. -/
def rename (hydrator : Hydrator) (values : Mapping) : Mapping :=
  if hydrator.rules.isEmpty then values else hydrator.rules.apply values

/-- The value that is assigned under a key. -/
def process (hydrator : Hydrator) (key : String) (raw : Value) : Except Error Value :=
  match Entries.find? hydrator.processors key with
  | some processor => processor key raw
  | none => .ok raw

/-- A new entity of a registered name, with the values of a mapping assigned by `assign`. -/
def buildWith (hydrator : Hydrator) (assign : Object → Mapping → Progress Object) (name : String)
    (values : Mapping) : Except Error Object :=
  match hydrator.registry.create name with
  | .error error => .error error
  | .ok blank =>
    if blank.type.hydratable then (assign blank values).result
    else .error (.refuse (.notHydratable name))

/-- The entity that a value becomes in a column of a declared type, built by `build`. -/
def nest (build : String → Mapping → Except Error Object) (declared : Declared) (key : String) :
    Value → Except Error Object
  | .map entries => match build declared.name entries with
    | .error error => .error (error.within key)
    | .ok object => object.downcast key declared
  | other => .error (.mismatch (.property key) "map" other.typeName)

/-- What a column holds once a value is assigned to it. -/
def assignCell (build : String → Mapping → Except Error Object) (key : String) (value : Value) :
    Cell → Except Error Cell
  | .plain content => (content.load key value).map .plain
  | .entity declared _ => (nest build declared key value).map (.entity declared)
  | .vacant declared => (nest build declared key value).map (.entity declared)

/-- An entity with a processed value assigned under a key. -/
def assignValue (hydrator : Hydrator) (build : String → Mapping → Except Error Object)
    (object : Object) (key : String) (value : Value) : Progress Object :=
  if value.isNull then .complete object
  else match object.cell? .table key with
    | none =>
      if hydrator.settings.ignoreUnknown then .complete object
      else .stop object (.refuse (.unknownField key))
    | some cell =>
      .ofStep object ((assignCell build key value cell).map fun cell =>
        object.setCell .table key cell)

/-- An entity with an entry of a mapping assigned. -/
def assignEntry (hydrator : Hydrator) (build : String → Mapping → Except Error Object)
    (object : Object) (entry : String × Value) : Progress Object :=
  match hydrator.process entry.1 entry.2 with
  | .error error => .stop object error
  | .ok value => hydrator.assignValue build object entry.1 value

/-- An entity with the entries of a mapping assigned in order, where so many levels may be opened.
-/
def assign (hydrator : Hydrator) (levels : Nat) (object : Object) (values : Mapping) :
    Progress Object :=
  match levels with
  | 0 => .stop object (.refuse (.tooDeep hydrator.settings.maxDepth))
  | levels + 1 =>
    let build := hydrator.buildWith fun blank inner => hydrator.assign levels blank inner
    Progress.each values (hydrator.assignEntry build) object

/-- The levels that may be opened, the outermost included. -/
def levels (hydrator : Hydrator) : Nat := hydrator.settings.maxDepth + 1

/-- An entity hydrated in place: an error leaves what was assigned before it. -/
def hydrate (hydrator : Hydrator) (object : Object) (values : Mapping) : Progress Object :=
  hydrator.assign hydrator.levels object (hydrator.rename values)

/-- An entity hydrated whole: an error leaves it as it was. -/
def setFields (hydrator : Hydrator) (object : Object) (values : Mapping) : Progress Object :=
  (hydrator.hydrate object values).allOrNothing object

/-- A mapping without the keys that an update never overwrites. -/
def unprotected (hydrator : Hydrator) (values : Mapping) : Mapping :=
  hydrator.settings.protectedFields.foldl Entries.erase values

/-- An entity hydrated whole from a mapping without the protected keys. -/
def setValues (hydrator : Hydrator) (object : Object) (values : Mapping) : Progress Object :=
  hydrator.setFields object (hydrator.unprotected values)

/-- A new entity of a registered name, hydrated. -/
def create (hydrator : Hydrator) (name : String) (values : Mapping) : Except Error Object :=
  hydrator.buildWith (hydrator.assign hydrator.levels) name (hydrator.rename values)

end Hydrator

end TypedRecord
