import TypedRecord.Report

/-!
# Reports have a single path

Wrapping works on the text of a path alone, and decides by its first letter whether a dot stands
before it. A relation says what the text is to be, and a second writing of paths takes the same
decision from the segments. Every step of wrapping keeps the cause one level deep, below a path that
is spelled as the relation asks, and so does every run of steps. Main statement: a report that was
wrapped has one context around its cause, and it tells what the error with the same segments tells.
-/
namespace TypedRecord

namespace Segment

variable {rest segments : List Segment} {path : String}

/-- A text spells a path when the texts of the segments stand in it one after another, with a dot
before the rest of the path exactly where that does not start with a bracket. -/
inductive Spells : List Segment → String → Prop where
  /-- The last segment stands alone. -/
  | last (segment : Segment) : Spells [segment] segment.text
  /-- A dot stands before a rest that does not start with a bracket. -/
  | dotted {rest : List Segment} {path : String} (segment : Segment) (spelled : Spells rest path)
    (unbracketed : path.toList.head? ≠ some '[') :
    Spells (segment :: rest) (segment.text ++ "." ++ path)
  /-- A rest that starts with a bracket follows at once. -/
  | bracketed {rest : List Segment} {path : String} (segment : Segment)
    (spelled : Spells rest path) (bracketed : path.toList.head? = some '[') :
    Spells (segment :: rest) (segment.text ++ path)

/-- Whether a path starts with a bracket, by its segments: an index does, and a name tells it by its
first letter, or leaves it to the segments after it when it has none. -/
def opens : List Segment → Bool
  | [] => false
  | .index _ :: _ => true
  | .field name :: rest => if name = "" then opens rest else name.toList.head? = some '['

/-- What stands between a segment and the rest of its path. -/
def mark (rest : List Segment) : String := if rest = [] ∨ opens rest then "" else "."

/-- The text of a path, with the dots decided by the segments. -/
def spelling : List Segment → String
  | [] => ""
  | first :: rest => first.text ++ mark rest ++ spelling rest

/-- An index stands in brackets. -/
theorem text_index (position : Nat) :
    (index position).text = "[" ++ toString position ++ "]" := rfl

/-- The text of a segment and what follows it start with a bracket as the segments do, when what
follows does as the later segments do. -/
theorem head?_text_append_iff (segment : Segment) {after : String}
    (alike : after.toList.head? = some '[' ↔ opens rest) :
    (segment.text ++ after).toList.head? = some '[' ↔ opens (segment :: rest) := by
  rw [String.toList_append, List.head?_append]
  cases segment with
  | index position => simp [text_index, opens]
  | field name =>
    by_cases blank : name = ""
    · -- an empty name shows the first letter of what follows it
      simpa [text, opens, blank] using alike
    · have letters : name.toList ≠ [] := fun none => blank (String.toList_eq_nil_iff.mp none)
      obtain ⟨first, others, written⟩ := List.exists_cons_of_ne_nil letters
      simp [text, opens, blank, written]

namespace Spells

/-- A spelled path starts with a bracket exactly when its segments do. -/
theorem head?_eq_iff (spelled : Spells segments path) :
    path.toList.head? = some '[' ↔ opens segments := by
  induction spelled with
  | last segment =>
    rw [← segment.text.append_empty]
    exact head?_text_append_iff segment (by simp [opens])
  | dotted segment spelled unbracketed ih =>
    rw [String.append_assoc]
    refine head?_text_append_iff segment ?_
    rw [← ih, iff_false_right unbracketed, String.toList_append]
    simp
  | bracketed segment spelled bracketed ih => exact head?_text_append_iff segment ih

/-- No text spells a path without segments. -/
theorem ne_nil (spelled : Spells segments path) : segments ≠ [] := by
  cases spelled <;> exact List.cons_ne_nil _ _

/-- A spelled path is the one that the segments decide. -/
theorem eq_spelling (spelled : Spells segments path) : path = spelling segments := by
  induction spelled with
  | last segment => simp [spelling, mark]
  | dotted segment spelled unbracketed ih =>
    have closed := mt spelled.head?_eq_iff.mpr unbracketed
    rw [spelling, mark, if_neg (not_or.mpr ⟨spelled.ne_nil, closed⟩), ← ih]
  | bracketed segment spelled bracketed ih =>
    have opened := spelled.head?_eq_iff.mp bracketed
    rw [spelling, mark, if_pos (.inr opened), ← ih, String.append_empty]

/-- A segment is joined to a spelled path. -/
theorem join (segment : Segment) (spelled : Spells rest path) :
    Spells (segment :: rest) (Report.join segment.text path) := by
  rw [Report.join]
  split
  next bracketed => exact .bracketed segment spelled bracketed
  next unbracketed => exact .dotted segment spelled unbracketed

end Spells

/-- The text of a path spells it. -/
theorem spells_pathText (first : Segment) (rest : List Segment) :
    Spells (first :: rest) (first.pathText rest) := by
  induction rest generalizing first with
  | nil => exact .last first
  | cons second rest ih => exact (ih second).join first

end Segment

open Segment

namespace Report

variable {cause : Cause} {segments : List Segment} {report : Report}

/-- A report tells a cause below segments when it is the cause itself, and there are none, or has
one path, which spells them, around the cause. -/
inductive Tells (cause : Cause) : List Segment → Report → Prop where
  /-- A cause by itself. -/
  | bare : Tells cause [] (.bare cause)
  /-- A cause below a path. -/
  | context {segments : List Segment} {path : String} (spelled : Spells segments path) :
    Tells cause segments (.context path (.bare cause))

namespace Tells

/-- A step of wrapping puts its segment in front of the others. -/
theorem wrap (tells : Tells cause segments report) (segment : Segment) :
    Tells cause (segment :: segments) (report.wrap segment) := by
  cases tells with
  | bare => exact .context (.last segment)
  | context spelled => exact .context (spelled.join segment)

/-- A run of steps puts their segments in front, the last one first. -/
theorem wraps (tells : Tells cause segments report) (calls : List Segment) :
    Tells cause (calls.reverse ++ segments) (report.wraps calls) := by
  -- on the calls: each of them comes before the segments that are there when it is made
  induction calls generalizing segments report with
  | nil => exact tells
  | cons call later ih =>
    rw [List.reverse_cons, List.append_assoc]
    exact ih (tells.wrap call)

/-- Below segments there is a context. -/
theorem exists_context (tells : Tells cause segments report) (below : segments ≠ []) :
    ∃ path, Spells segments path ∧ report = .context path (.bare cause) := by
  cases tells with
  | bare => exact absurd rfl below
  | context spelled => exact ⟨_, spelled, rfl⟩

end Tells

end Report

namespace Error

/-- The error below one more segment. -/
def below (error : Error) : Segment → Error
  | .field name => error.within name
  | .index position => error.withinItem position

/-- A report tells all that an error tells. -/
structure ReportedBy (error : Error) (report : Report) : Prop where
  /-- The kind. -/
  kind : report.kind = error.kind
  /-- The text of the path. -/
  path : report.path? = error.pathText?
  /-- The cause, however deep it is. -/
  leaf : report.leaf = .bare error.cause
  /-- The cause as what is below the path. -/
  source : report.source? = error.source?.map .bare
  /-- The wording. -/
  message : report.message = error.message

/-- The path of an error is told by its report. -/
theorem tells_report (error : Error) : Report.Tells error.cause error.path error.report := by
  obtain ⟨path, cause⟩ := error
  induction path with
  | nil => exact .bare
  | cons first rest ih => exact ih.wrap first

/-- An error is reported by whatever tells its cause below its path. -/
theorem reportedBy_of_tells {error : Error} {report : Report}
    (tells : Report.Tells error.cause error.path report) : error.ReportedBy report := by
  obtain ⟨path, cause⟩ := error
  cases tells with
  | bare => exact ⟨rfl, rfl, rfl, rfl, rfl⟩
  | context spelled =>
    cases path with
    | nil => exact absurd rfl spelled.ne_nil
    | cons first rest =>
      -- both texts are the one that the segments decide
      obtain rfl := spelled.eq_spelling.trans (spells_pathText first rest).eq_spelling.symm
      exact ⟨rfl, rfl, rfl, rfl, rfl⟩

/-- An error is reported by its report. -/
theorem reportedBy_report (error : Error) : error.ReportedBy error.report :=
  reportedBy_of_tells error.tells_report

/-- A segment that is put above an error is put above its report. -/
theorem report_below (error : Error) (segment : Segment) :
    (error.below segment).report = error.report.wrap segment := by
  cases segment <;> rfl

/-- Segments that are put above an error are put above its report. -/
theorem report_foldl_below (error : Error) (calls : List Segment) :
    (calls.foldl below error).report = error.report.wraps calls := by
  induction calls generalizing error with
  | nil => rfl
  | cons call later ih =>
    rw [List.foldl_cons, ih, report_below]
    rfl

end Error

namespace Report

/-- A cause that was wrapped is reported by a single context around it. Its path lists the segments
from the last call to the first, with a dot before the rest of the path exactly where the rest does
not start with a bracket, which the segments decide. The report is of the cause and of its kind, it
is worded by the path and the cause, and it is the report of the error below the same segments,
which tells nothing else. -/
theorem single_context_of_wraps (cause : Cause) {calls : List Segment} (called : calls ≠ []) :
    (∃ path, Spells calls.reverse path ∧ path = spelling calls.reverse ∧
      (bare cause).wraps calls = .context path (.bare cause) ∧
      ((bare cause).wraps calls).path? = some path ∧
      ((bare cause).wraps calls).message = path ++ ": " ++ cause.message) ∧
    ((bare cause).wraps calls).leaf = .bare cause ∧
    ((bare cause).wraps calls).source? = some (.bare cause) ∧
    ((bare cause).wraps calls).kind = cause.kind ∧
    (calls.foldl Error.below cause.error).report = (bare cause).wraps calls ∧
    (calls.foldl Error.below cause.error).ReportedBy ((bare cause).wraps calls) := by
  have tells := (Tells.bare : Tells cause [] _).wraps calls
  rw [List.append_nil] at tells
  obtain ⟨path, spelled, wrapped⟩ := tells.exists_context (mt List.reverse_eq_nil_iff.mp called)
  have reported := cause.error.report_foldl_below calls
  refine ⟨⟨path, spelled, spelled.eq_spelling, wrapped, ?_, ?_⟩, ?_, ?_, ?_, reported, ?_⟩
  · rw [wrapped, path?]
  · rw [wrapped]
    rfl
  · rw [wrapped, leaf, leaf]
  · rw [wrapped, source?]
  · rw [wrapped, kind, kind]
  · have same := (calls.foldl Error.below cause.error).reportedBy_report
    rwa [reported] at same

/-- A property in an item of a list, with a name that starts with a bracket and one that is empty on
the way. -/
def nestedCalls : List Segment :=
  [.field "[raw]", .index 2, .field "", .field "Children", .field "Root"]

/-- A mismatch below these segments has a single path, with one dot. -/
theorem single_context_of_wraps_nested :
    nestedCalls ≠ [] ∧
      (bare (.mismatch (.property "Age") "int" "text")).wraps nestedCalls =
        .context "Root.Children[2][raw]" (.bare (.mismatch (.property "Age") "int" "text")) ∧
      ((bare (.mismatch (.property "Age") "int" "text")).wraps nestedCalls).message =
        "Root.Children[2][raw]: type mismatch for 'Age': expected int, found text" ∧
      ((bare (.mismatch (.property "Age") "int" "text")).wraps nestedCalls).kind =
        .typeMismatch := by
  have called : nestedCalls ≠ [] := List.cons_ne_nil _ _
  obtain ⟨⟨path, -, spelled, wrapped, -, worded⟩, -, -, kind, -⟩ :=
    single_context_of_wraps (.mismatch (.property "Age") "int" "text") called
  have written : spelling nestedCalls.reverse = "Root.Children[2][raw]" := by decide
  rw [spelled, written] at wrapped worded
  exact ⟨called, wrapped, worded.trans (by decide), kind⟩

end Report

end TypedRecord
