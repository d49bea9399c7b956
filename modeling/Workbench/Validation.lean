import Workbench.Cancellation
import Workbench.Diagnostic
import Workbench.Parser

/-!
**Validation.**

Checks are registered for a type and all types below it, or for all types. Validation lists the errors of
the lexer and the parser, then walks the tree, parents first, and runs on each node the checks that are
registered for its type and switched on. A check that breaks down is itself reported. The number of
diagnostics is bounded; what goes beyond the bound is left out and that is reported once. A
`ValidationRegistry` holds the checks, and a `ValidationRunner` runs them.
-/

namespace Workbench

/-- Slow checks run only on demand. -/
inductive CheckCategory where
  | fast
  | slow
deriving DecidableEq, Repr

def CheckCategory.label : CheckCategory → String
  | .fast => "fast"
  | .slow => "slow"

/-- What a check did on a node. -/
structure CheckOutcome where
  reports : List Diagnostic := []
  /-- Why the check broke down, if it did; the reports made before it did stay. -/
  breakdown : Option String := none
  /-- Whether the check made the token of the validation fire. -/
  cancels : Bool := false

/-- A check, run on one node of a linked tree at a time (`ValidationCheck`). -/
structure Check where
  id : String
  description : String := ""
  category : CheckCategory := .fast
  run : Ast → DocumentUri → NodeId → CheckOutcome

/-! ### Registration -/

/-- A check with the type below which it applies, if it does not apply to all. -/
structure Registration where
  type : Option TypeId
  check : Check

/-- The checks of a language (`ValidationRegistry`). -/
structure Registry where
  types : TypeHierarchy
  registrations : List Registration

namespace Registry

def empty (types : TypeHierarchy) : Registry := ⟨types, []⟩

/-- Registers a check for a type and the types below it. -/
def register (r : Registry) (typeName : String) (check : Check) : Except Failure Registry :=
  match r.types.id? typeName with
  | some type => .ok { r with registrations := r.registrations ++ [⟨some type, check⟩] }
  | none => .error { kind := .types, message := "unknown type '" ++ typeName ++ "'" }

/-- Registers a check for all types (`register_for_all`). -/
def registerForAll (r : Registry) (check : Check) : Registry :=
  { r with registrations := r.registrations ++ [⟨none, check⟩] }

/-- Whether a registration concerns a type. -/
def concerns (r : Registry) (type : TypeId) (registration : Registration) : Bool :=
  match registration.type with
  | some declared => r.types.isSubtype type declared
  | none => decide (type < r.types.size)

/-- The checks for a type, in the order of their registration (`checks_for`). -/
def checksFor (r : Registry) (type : TypeId) : List Check :=
  (r.registrations.filter (r.concerns type)).map (·.check)

/-- The number of checks over all types. -/
def size (r : Registry) : Nat := (r.types.ids.flatMap r.checksFor).length

end Registry

/-! ### Options -/

/-- How a single check is run. -/
structure CheckSetting where
  enabled : Bool := true
  /-- Whether warnings become errors. -/
  escalated : Bool := false
deriving DecidableEq, Repr

/-- How many diagnostics are reported unless another bound is set. -/
def defaultMaxDiagnostics : Nat := 10000

structure ValidationOptions where
  categories : List CheckCategory := [.fast]
  stopAfterLexErrors : Bool := false
  stopAfterParseErrors : Bool := false
  maxDiagnostics : Nat := defaultMaxDiagnostics
  /-- Settings of single checks; the first one for an id counts. -/
  settings : List (String × CheckSetting) := []
deriving DecidableEq, Repr

namespace ValidationOptions

/-- The default options with all categories (`all_categories`). -/
def allCategories : ValidationOptions := { categories := [.fast, .slow] }

def settingOf (o : ValidationOptions) (id : String) : CheckSetting :=
  (o.settings.lookup id).getD {}

/-- Switches a check off (`disable_check`). -/
def disable (o : ValidationOptions) (id : String) : ValidationOptions :=
  { o with settings := (id, { enabled := false }) :: o.settings }

/-- Switches a check on and makes its warnings errors (`set_check_error`). -/
def escalate (o : ValidationOptions) (id : String) : ValidationOptions :=
  { o with settings := (id, { escalated := true }) :: o.settings }

/-- Whether a check is run (`includes`). -/
def runs (o : ValidationOptions) (check : Check) : Bool :=
  o.categories.contains check.category && (o.settingOf check.id).enabled

end ValidationOptions

/-! ### Running checks -/

namespace Validation

/-- The diagnostics of the lexer. -/
def ofLexErrors (errors : List LexError) : List Diagnostic :=
  errors.map fun e =>
    { severity := .error, message := e.message, range := e.range, code := some DiagnosticCode.lexing }

/-- The diagnostics of the parser. -/
def ofParseErrors (errors : List ParseError) : List Diagnostic :=
  errors.map fun e =>
    { severity := .error, message := e.message, range := e.range
      code := some DiagnosticCode.parsing }

/-- The diagnostic of a check that broke down. -/
def ofBreakdown (a : Ast) (id : NodeId) (reason : String) : Diagnostic :=
  { severity := .error
    message := "An error occurred during validation: " ++ reason
    range := (a.range? id).getD default
    code := some DiagnosticCode.checkFailed }

/-- The diagnostics that come out of one run of a check: its breakdown, then its reports. -/
def emitted (o : ValidationOptions) (a : Ast) (id : NodeId) (check : Check)
    (outcome : CheckOutcome) : List Diagnostic :=
  let reports :=
    if (o.settingOf check.id).escalated then outcome.reports.map Diagnostic.raiseWarning
    else outcome.reports
  (outcome.breakdown.map (ofBreakdown a id)).toList ++ reports

/-- What the checks of some nodes have yielded. -/
structure Yield where
  diagnostics : List Diagnostic := []
  /-- Whether there was more than there is room for. -/
  exceeded : Bool := false

/-- Runs checks on a node as long as there is room for what they yield. Also tells whether one of
them made the token fire. -/
def checkNode (o : ValidationOptions) (a : Ast) (uri : DocumentUri) (id : NodeId) :
    Nat → List Check → Yield × Bool
  | _, [] => ({}, false)
  | room, check :: rest =>
    let outcome := check.run a uri id
    let found := emitted o a id check outcome
    if room < found.length then ({ diagnostics := found.take room, exceeded := true }, outcome.cancels)
    else
      let (more, cancels) := checkNode o a uri id (room - found.length) rest
      ({ more with diagnostics := found ++ more.diagnostics }, outcome.cancels || cancels)

/-- Runs the checks on some nodes, with a reading of the token before each. -/
def checkNodes (r : Registry) (o : ValidationOptions) (a : Ast) (uri : DocumentUri) :
    Nat → List NodeId → Cancellable Yield
  | _, [] => return {}
  | room, id :: rest => do
    Cancellable.checkpoint
    let type := ((a.node? id).map (·.type)).getD 0
    let (found, cancels) := checkNode o a uri id room ((r.checksFor type).filter o.runs)
    if cancels then Cancellable.fire
    if found.exceeded then return found
    let more ← checkNodes r o a uri (room - found.diagnostics.length) rest
    return { more with diagnostics := found.diagnostics ++ more.diagnostics }

/-- The diagnostic that tells that others were left out. -/
def limitDiagnostic (o : ValidationOptions) (a : Ast) : Diagnostic :=
  { severity := .warning
    message :=
      "Diagnostic limit of " ++ toString o.maxDiagnostics ++
        " exceeded. Further diagnostics have been suppressed."
    range := (a.range? a.root).getD default
    code := some DiagnosticCode.limitExceeded }

/-- Validates a linked tree (`validate`). -/
def validate (r : Registry) (parsed : ParseResult) (uri : DocumentUri) (o : ValidationOptions) :
    Cancellable (List Diagnostic) := do
  let lexing := ofLexErrors parsed.lexErrors
  if o.stopAfterLexErrors && !lexing.isEmpty then return lexing
  let parsing := ofParseErrors parsed.parseErrors
  let errors := lexing ++ parsing
  if o.stopAfterParseErrors && !parsing.isEmpty then return errors
  let room := o.maxDiagnostics - errors.length
  let found ← checkNodes r o parsed.ast uri room parsed.ast.preorder
  let note := if found.exceeded then [limitDiagnostic o parsed.ast] else []
  return errors ++ found.diagnostics ++ note

def hasErrors (diagnostics : List Diagnostic) : Bool :=
  diagnostics.any (·.severity = .error)

end Validation

end Workbench
