import Workbench.Diagnostic
import Workbench.Text.Lines
import Workbench.Url

/-!
**Diagnostics as an editor shows them.**

An editor wants positions in place of offsets, and URLs in place of addresses. The text of the document
itself is at hand, so its own places get positions; a related place in another document keeps its URL and is
shown at the start of that document. A related place whose address is no absolute URL cannot be shown and is
dropped. This is how `to_lsp_diagnostic` shows a diagnostic.
-/

namespace Workbench

/-- A related place as an editor shows it. -/
structure EditorRelated where
  uri : String
  range : Text.PositionRange
  message : String
deriving DecidableEq, Repr

structure EditorDiagnostic where
  range : Text.PositionRange
  severity : Severity
  message : String
  code : Option String
  tags : List DiagnosticTag
  related : List EditorRelated
deriving DecidableEq, Repr

/-- The number of a severity in the editor protocol (`to_lsp_severity`). -/
def Severity.number : Severity → Nat
  | .error => 1
  | .warning => 2
  | .information => 3
  | .hint => 4

/-- The number of a tag in the editor protocol. -/
def DiagnosticTag.number : DiagnosticTag → Nat
  | .unnecessary => 1
  | .deprecated => 2

namespace EditorDiagnostic

/-- Who all diagnostics are said to come from. -/
def source : String := "tessel"

/-- Shows a place related to a diagnostic of the document `uri`. -/
def ofRelated? (uri : DocumentUri) (cs : List Char) (info : RelatedInformation) :
    Option EditorRelated :=
  (Url.parse? info.uri).map fun url => {
    uri := url.render
    range := if info.uri = uri then Text.positionRangeOf cs info.range else default
    message := info.message }

/-- Shows a diagnostic of the document `uri`, whose characters are `cs` (`to_lsp_diagnostic`). -/
def ofDiagnostic (uri : DocumentUri) (cs : List Char) (d : Diagnostic) : EditorDiagnostic where
  range := Text.positionRangeOf cs d.range
  severity := d.severity
  message := d.message
  code := d.code
  tags := d.tags
  related := d.related.filterMap (ofRelated? uri cs)

end EditorDiagnostic

end Workbench
