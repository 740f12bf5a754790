import TypedRecord.Value.Path

/-!
# Renaming rules

A rule says what becomes of the value under one key: its new name, which may be a path, and the
rules for the keys inside it. Rules are declared at paths; a declaration at a path of several
segments belongs to the nested rules of the first one and leaves its siblings alone.
-/
namespace TypedRecord

/-- What becomes of the value under a key. -/
inductive Rule where
  /-- A new name, and the rules for the keys inside. -/
  | mk (rename : Option String) (nested : List (String × Rule))

/-- The rules of the keys that have one. -/
abbrev Rules := Entries Rule

namespace Rule

/-- The new name. -/
def rename : Rule → Option String
  | mk rename _ => rename

/-- The rules for the keys inside. -/
def nested : Rule → Rules
  | mk _ nested => nested

/-- A rule that changes nothing. -/
def keep : Rule := mk none []

end Rule

namespace Rules

/-- The rule of a key, which changes nothing when there is none. -/
def rule (rules : Rules) (key : String) : Rule := (Entries.find? rules key).getD .keep

/-- The rules with the rule at a path of segments changed. -/
def update (rules : Rules) (first : String) (others : List String) (change : Rule → Rule) : Rules :=
  match others with
  | [] => Entries.insert rules first (change (rules.rule first))
  | next :: rest =>
    let held := rules.rule first
    Entries.insert rules first (.mk held.rename (update held.nested next rest change))

/-- The rules with the rule at a dotted path changed. -/
def updatePath (rules : Rules) (path : String) (change : Rule → Rule) : Rules :=
  let (first, others) := Path.segments path
  rules.update first others change

/-- The rules with a new name for the value at a dotted path. -/
def rename (rules : Rules) (path target : String) : Rules :=
  rules.updatePath path fun held => .mk (some target) held.nested

/-- The rules with more rules for the keys inside the value at a dotted path. A rule that was there
for one of the keys is replaced, and so is the name of the value if a new one is given. -/
def merge (rules : Rules) (path : String) (name : Option String) (inner : Rules) : Rules :=
  rules.updatePath path fun held =>
    .mk (name.or held.rename) (Entries.overlay held.nested inner)

/-- The rules with the whole rule of a key replaced. The key is not a path. -/
def nest (rules : Rules) (key : String) (name : Option String) (inner : Rules) : Rules :=
  Entries.insert rules key (.mk name inner)

end Rules

end TypedRecord
