/-!
# Timestamps

A timestamp counts the milliseconds since the first instant of 1970 in universal time. Zero is that
instant, and also what an audit field holds before anything is stamped.
-/
namespace TypedRecord

/-- Milliseconds since the first instant of 1970. -/
structure Timestamp where
  /-- The signed count of milliseconds. -/
  millis : Int64
deriving DecidableEq, Repr, Inhabited

namespace Timestamp

/-- The first instant of 1970. -/
def epoch : Timestamp := ⟨0⟩

/-- Whether this is the first instant of 1970. -/
def isEpoch (time : Timestamp) : Bool := time.millis = 0

/-- Whether a timestamp is not after another one. -/
def precedes (time other : Timestamp) : Bool := time.millis ≤ other.millis

/-- Timestamps in order. -/
def sort (times : List Timestamp) : List Timestamp := times.mergeSort precedes

/-- The nearest timestamp to an integer count of milliseconds. -/
def saturating (millis : Int) : Timestamp :=
  ⟨Int64.ofInt (max (-2 ^ 63) (min millis (2 ^ 63 - 1)))⟩

/-- A timestamp of whole seconds; a count out of range becomes the nearest timestamp. -/
def ofSeconds (seconds : Int64) : Timestamp := saturating (seconds.toInt * 1000)

end Timestamp

end TypedRecord
