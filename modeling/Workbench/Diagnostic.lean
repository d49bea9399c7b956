import Workbench.Ast

/-!
**Diagnostics.**

A diagnostic is a message about a stretch of a document, with a severity and, if the author wants, a
code, tags and related places.
-/

namespace Workbench

/-- How much a diagnostic matters, in increasing order. -/
inductive Severity where
  | hint
  | information
  | warning
  | error
deriving DecidableEq, Repr

namespace Severity

def all : List Severity := [hint, information, warning, error]

def label : Severity → String
  | hint => "hint"
  | information => "info"
  | warning => "warning"
  | error => "error"

end Severity

inductive DiagnosticTag where
  | unnecessary
  | deprecated
deriving DecidableEq, Repr

namespace DiagnosticTag

def all : List DiagnosticTag := [unnecessary, deprecated]

def label : DiagnosticTag → String
  | unnecessary => "unnecessary"
  | deprecated => "deprecated"

end DiagnosticTag

/-- A place that helps to understand a diagnostic. -/
structure RelatedInformation where
  uri : DocumentUri
  range : TextRange
  message : String
deriving DecidableEq, Repr

structure Diagnostic where
  severity : Severity
  message : String
  range : TextRange
  code : Option String := none
  tags : List DiagnosticTag := []
  related : List RelatedInformation := []
deriving DecidableEq, Repr

namespace Diagnostic

/-- The diagnostic as an error (`escalate_to_error`). -/
def escalate (d : Diagnostic) : Diagnostic := { d with severity := .error }

/-- The diagnostic with a warning raised to an error. -/
def raiseWarning (d : Diagnostic) : Diagnostic :=
  if d.severity = .warning then d.escalate else d

def render (d : Diagnostic) : String :=
  d.range.render ++ ": " ++ d.severity.label ++ ": " ++ d.message ++
    (match d.code with
    | some code => " [" ++ code ++ "]"
    | none => "")

/-- The range of a diagnostic on a node: that of a property if one is given and has text, else that of the
node (`DiagnosticInfo`). -/
def rangeOn (a : Ast) (id : NodeId) (property : Option String) (index : Option Nat) : TextRange :=
  ((property.bind (a.propertyRange? id · index)).or (a.range? id)).getD default

end Diagnostic

/-! ### Codes -/

namespace DiagnosticCode

def lexing : String := "lexing-error"
def parsing : String := "parsing-error"
def linking : String := "linking-error"
def checkFailed : String := "validation-check-failed"
def limitExceeded : String := "diagnostic-limit-exceeded"

end DiagnosticCode

end Workbench
