import TypedRecord.Value.Basic

/-!
# Dotted paths

A path is a text cut at its dots. Insertion at a path walks into the maps on the way and makes the
ones that are missing; whatever else stands on the way is replaced by a map.
-/
namespace TypedRecord

namespace Path

/-- The segment at the front of a text up to the first dot, and the segments after it. -/
def split : List Char → List Char × List (List Char)
  | [] => ([], [])
  | c :: rest =>
    let (first, others) := split rest
    if c = '.' then ([], first :: others) else (c :: first, others)

/-- The segments between the dots of a text; there is always a first one. -/
def segments (path : String) : String × List String :=
  let (first, others) := split path.toList
  (String.ofList first, others.map String.ofList)

end Path

namespace Mapping

/-- The mapping with a value at the end of a path of segments. -/
def insertAt (mapping : Mapping) (first : String) (others : List String) (value : Value) :
    Mapping :=
  match others with
  | [] => Entries.insert mapping first value
  | next :: rest =>
    let inner : Mapping := match Entries.find? mapping first with
      | some (.map entries) => entries
      | _ => []
    Entries.insert mapping first (.map (insertAt inner next rest value))

/-- The mapping with a value at a dotted path. -/
def insertPath (mapping : Mapping) (path : String) (value : Value) : Mapping :=
  let (first, others) := Path.segments path
  mapping.insertAt first others value

end Mapping

end TypedRecord
