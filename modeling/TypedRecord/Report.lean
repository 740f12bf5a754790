import TypedRecord.Error

/-!
# Reports

A report is an error the way it is handed on: a cause, or the text of a path in front of another
report. Wrapping puts a segment in front of the path that a report has, and only a report without a
path gets a new one. The report of an error is its cause, wrapped in the segments of its path from
the innermost to the outermost.
-/
namespace TypedRecord

/-- An error as it is handed on. -/
inductive Report where
  /-- A cause by itself. -/
  | bare (cause : Cause)
  /-- A report below a path, of which only the text is kept. -/
  | context (path : String) (source : Report)
deriving DecidableEq

namespace Report

/-- A text in front of the text of a path. A dot stands between them unless the path starts with a
bracket. -/
def join (front path : String) : String :=
  if path.toList.head? = some '[' then front ++ path else front ++ "." ++ path

/-- The report below one more segment. -/
def wrap : Report → Segment → Report
  | .bare cause, segment => .context segment.text (.bare cause)
  | .context path source, segment => .context (join segment.text path) source

/-- The report below segments that are put in front of it one after another. -/
def wraps (report : Report) (calls : List Segment) : Report := calls.foldl wrap report

/-- The kind of the report, looked up through every path. -/
def kind : Report → ErrorKind
  | .bare cause => cause.kind
  | .context _ source => source.kind

/-- The text of the path, when there is one. -/
def path? : Report → Option String
  | .bare _ => none
  | .context path _ => some path

/-- The innermost report. -/
def leaf : Report → Report
  | .bare cause => .bare cause
  | .context _ source => source.leaf

/-- The report below the path, when there is a path. -/
def source? : Report → Option Report
  | .bare _ => none
  | .context _ source => some source

/-- The wording of the report: its path, a colon and the wording of what is below it. -/
def message : Report → String
  | .bare cause => cause.message
  | .context path source => s!"{path}: {source.message}"

end Report

/-- The error as it is handed on. -/
def Error.report (error : Error) : Report :=
  error.path.foldr (fun segment report => report.wrap segment) (.bare error.cause)

end TypedRecord
