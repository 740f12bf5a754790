import TypedRecord.Renaming.Rules

/-!
# Applying renaming rules

Every entry of a mapping moves to a target path, its new name or else its own key, and the moved
entries are put into an empty mapping in the order of the keys they came from. Nested rules change
the value of an entry when it is a map; no other value is changed.
-/
namespace TypedRecord

/-- The mapping with values put at dotted paths in order. -/
def Mapping.ofPaths (entries : List (String × Value)) : Mapping :=
  entries.foldl (fun mapping entry => mapping.insertPath entry.1 entry.2) []

namespace Rules

/-- The path that the value under a key moves to. -/
def target (rules : Rules) (key : String) : String := (rules.rule key).rename.getD key

mutual

/-- A value with rules applied to its keys, when it is a map and there are rules. -/
def applyInside (rules : Rules) : Value → Value
  | .map entries => .map (if rules.isEmpty then entries else Mapping.ofPaths (moved rules entries))
  | value => value

/-- The values of a mapping with the paths they move to. -/
def moved (rules : Rules) : List (String × Value) → List (String × Value)
  | [] => []
  | (key, value) :: rest =>
    (rules.target key, applyInside (rules.rule key).nested value) :: moved rules rest

end

/-- A mapping with its keys renamed. -/
def apply (rules : Rules) (data : Mapping) : Mapping := Mapping.ofPaths (rules.moved data)

end Rules

end TypedRecord
