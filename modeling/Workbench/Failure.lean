/-!
**Failures.**

A failure stops the construction of a language or a setting. It says which part failed and why, and
may carry an offset and a context: what was being done when it arose. Contexts are added from the
inside out.
-/

namespace Workbench

/-- The part of the system that failed. -/
inductive FailureKind where
  | grammar
  | types
  | config
  | limit
  | io
deriving DecidableEq, Repr

namespace FailureKind

def all : List FailureKind := [grammar, types, config, limit, io]

def label : FailureKind → String
  | grammar => "GrammarError"
  | types => "TypeError"
  | config => "ConfigError"
  | limit => "LimitError"
  | io => "IOError"

end FailureKind

/-- A failure with what is known about where it arose (`TesselError`). -/
structure Failure where
  kind : FailureKind
  message : String
  offset : Option Nat := none
  context : Option String := none
deriving DecidableEq, Repr

namespace Failure

/-- Puts `outer` in front of the contexts already known (`add_context`). An empty context says nothing. -/
def addContext (outer : String) (f : Failure) : Failure :=
  if outer.isEmpty then f
  else
    { f with
      context := some <|
        match f.context with
        | some inner => outer ++ "; " ++ inner
        | none => outer }

/-- The text shown for a failure: its kind and its message. -/
def render (f : Failure) : String :=
  f.kind.label ++ ": " ++ f.message

end Failure

end Workbench
