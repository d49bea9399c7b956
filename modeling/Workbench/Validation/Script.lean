import Workbench.Validation

/-!
**Scripted checks.**

A check given by a list of actions, carried out in order on each node: reporting, breaking down, or making
the token of the validation fire. An action may be confined to nodes of a certain name. It does what a
function given to `register_fn` may do.
-/

namespace Workbench

/-- What an action does. -/
inductive ScriptStep where
  /-- Ends the check. Without a reason that can be put in words it is an unknown breakdown. -/
  | breakDown (reason : Option String)
  | cancel
  | report (severity : Severity) (message : String) (property : Option String)
      (index : Option Nat) (code : Option String) (tags : List DiagnosticTag)
      (related : List RelatedInformation)
  | nothing
deriving DecidableEq, Repr

/-- A step, and the name a node must have for it. -/
structure ScriptAction where
  name : Option String
  step : ScriptStep
deriving DecidableEq, Repr

namespace ScriptAction

/-- Whether an action applies to a node. -/
def applies (a : Ast) (id : NodeId) (action : ScriptAction) : Bool :=
  match action.name with
  | some name => a.nameOf? id == some name
  | none => true

/-- Carries out actions on a node. -/
def runAll (a : Ast) (id : NodeId) : List ScriptAction → CheckOutcome
  | [] => {}
  | action :: rest =>
    if action.applies a id then
      match action.step with
      | .breakDown reason => { breakdown := some (reason.getD "unknown panic") }
      | .cancel => { runAll a id rest with cancels := true }
      | .report severity message property index code tags related =>
        let after := runAll a id rest
        let range := Diagnostic.rangeOn a id property index
        let report : Diagnostic := { severity, message, range, code, tags, related }
        { after with reports := report :: after.reports }
      | .nothing => runAll a id rest
    else runAll a id rest

end ScriptAction

/-- The check that carries out actions. -/
def Check.scripted (id : String) (category : CheckCategory) (actions : List ScriptAction) : Check where
  id := id
  category := category
  run a _ node := ScriptAction.runAll a node actions

end Workbench
