/-!
# Blobs

A blob is a run of bytes that is never taken for anything else. It is shown by its length only.
Blobs are ordered by their first different byte, and a blob comes before those it is the beginning
of.
-/
namespace TypedRecord

/-- A run of bytes. -/
abbrev Blob := List UInt8

namespace Blob

/-- What is shown of a blob. -/
def summary (blob : Blob) : String := "[blob (" ++ toString blob.length ++ " bytes)]"

/-- Whether a blob comes before another one or is equal to it. -/
def precedes : Blob → Blob → Bool
  | [], _ => true
  | _ :: _, [] => false
  | first :: firsts, second :: seconds =>
    first < second || first == second && precedes firsts seconds

/-- Blobs in order. -/
def sort (blobs : List Blob) : List Blob := blobs.mergeSort precedes

end Blob

end TypedRecord
