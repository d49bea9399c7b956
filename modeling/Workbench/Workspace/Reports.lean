import Workbench.UriMap
import Workbench.EditorDiagnostic

/-!
**Diagnostic reports.**

A report is what was found in a document when someone asked. Reports are numbered as they are made, and the
last one of a document is kept until the document is invalidated, so that whoever asks again and names the
number can be told that nothing has changed. This is the cache of a `DiagnosticsProvider`.
-/

namespace Workbench

/-- A numbered list of diagnostics. -/
structure Report where
  number : Nat
  items : List EditorDiagnostic
deriving DecidableEq, Repr

/-- The text under which a report is known to those who asked. -/
def Report.id (r : Report) : String := r.number.repr

/-- The reports that still hold, and the number of reports made so far. -/
structure Reports where
  cached : UriMap Report := .empty
  made : Nat := 0

namespace Reports

/-- Makes a report of a document and keeps it (`get_diagnostics`). -/
def make (r : Reports) (uri : DocumentUri) (items : List EditorDiagnostic) : Reports × Report :=
  let report : Report := { number := r.made + 1, items }
  ({ cached := r.cached.insert uri report, made := r.made + 1 }, report)

/-- Forgets the reports of some documents (`on_update`). -/
def evict (r : Reports) (uris : List DocumentUri) : Reports :=
  { r with cached := r.cached.eraseAll uris }

end Reports

/-- The answer to a request for a report. -/
inductive ReportAnswer where
  | full (report : Report)
  /-- The report that the request named still holds. -/
  | unchanged (id : String)
deriving DecidableEq, Repr

/-- Answers a request that names an earlier report with a report that holds. -/
def ReportAnswer.of (previous : Option String) (report : Report) : ReportAnswer :=
  if previous = some report.id then .unchanged report.id else .full report

end Workbench
