import TypedRecord.Error
import TypedRecord.Renaming.Rules

/-!
# Documents of renaming rules

A document is a mapping from keys to texts and maps. A text renames, and a map declares the rules
for the keys inside. In a map that stands inside a document, one reserved key holds the name of the
container itself. Keys are read in their order and the first that cannot be read is the error.
-/
namespace TypedRecord.Rules

/-- The key that holds the name of the container itself. -/
def containerKey : String := "__key"

/-- The name a map gives its own container. -/
def containerName (key : String) (entries : Mapping) : Except Error (Option String) :=
  match Entries.find? entries containerKey with
  | none => .ok none
  | some (.text name) => .ok (some name)
  | some other => .error (.refuse (.badContainerName key other.typeName))

mutual

/-- The rules with what a value declares at a key. -/
def declare (rules : Rules) (key : String) : Value → Except Error Rules
  | .text target => .ok (rules.rename key target)
  | .map entries => match containerName key entries with
    | .error error => .error error
    | .ok name => match declareInner [] entries with
      | .error error => .error error
      | .ok inner => .ok (rules.merge key name inner)
  | other => .error (.refuse (.badRule key other.typeName))

/-- The rules with what the entries of a map inside a document declare. -/
def declareInner (rules : Rules) : List (String × Value) → Except Error Rules
  | [] => .ok rules
  | (key, value) :: rest =>
    if key = containerKey then declareInner rules rest
    else match declare rules key value with
      | .error error => .error error
      | .ok rules => declareInner rules rest

end

/-- The rules with what the entries of a document declare. -/
def declareAll (rules : Rules) : List (String × Value) → Except Error Rules
  | [] => .ok rules
  | (key, value) :: rest => match declare rules key value with
    | .error error => .error error
    | .ok rules => declareAll rules rest

/-- The rules of a document. -/
def ofDocument (document : Mapping) : Except Error Rules := declareAll [] document

end TypedRecord.Rules
