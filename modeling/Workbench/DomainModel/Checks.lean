import Workbench.DomainModel.Grammar
import Workbench.Validation.Checks

/-!
**Checks on domain models.**

Names of types start with a capital, no class inherits from itself, no default divides by zero, and
datatypes that nothing refers to are pointed out. All of these look only at the document itself: a
reference into another document ends the search.
-/

namespace Workbench.DomainModel

/-! ### Expressions -/

/-- The value of an expression to a depth of `fuel` (`evaluate`). Incomplete expressions and divisions by
zero have none. -/
def evaluateFrom (a : Ast) : Nat → NodeId → Option Float
  | 0, _ => none
  | fuel + 1, id => do
    let node ← a.node? id
    if a.typeName id = "NumberLiteral" then node.number? "value"
    else if a.typeName id = "Binary" then
      let left ← evaluateFrom a fuel (← node.child? "left")
      let right ← evaluateFrom a fuel (← node.child? "right")
      match ← node.text? "op" with
      | "+" => return left + right
      | "-" => return left - right
      | "*" => return left * right
      | "/" => if right != 0.0 then return left / right else none
      | _ => none
    else none

/-- The value of an expression. -/
def evaluate (a : Ast) (id : NodeId) : Option Float := evaluateFrom a a.nodes.size id

/-! ### Targets in the document -/

/-- The node a description stands for, if it is in the document `uri` with the tree `a` (`local_target`). -/
def localNode? (a : Ast) (uri : DocumentUri) (d : Description) : Option NodeId :=
  if d.uri = uri ∧ d.node < a.nodes.size then some d.node else none

/-- The super class of a class, if it is in the same document. -/
def superClass? (a : Ast) (uri : DocumentUri) (id : NodeId) : Option NodeId := do
  let node ← a.node? id
  let reference ← a.reference? (← node.reference? "superClass")
  localNode? a uri (← reference.target?)

/-- Whether following super classes from `current` leads to `start`, before it leads to a class seen
on the way. -/
def leadsTo (a : Ast) (uri : DocumentUri) (start : NodeId) : Nat → List NodeId → NodeId → Bool
  | 0, _, _ => false
  | fuel + 1, seen, current =>
    match superClass? a uri current with
    | none => false
    | some target =>
      if target = start then true
      else if seen.contains target then false
      else leadsTo a uri start fuel (target :: seen) target

/-- Whether a class inherits from itself (`inheritance_cycle`). No walk without a repetition is longer than
the number of nodes. -/
def inheritsItself (a : Ast) (uri : DocumentUri) (id : NodeId) : Bool :=
  leadsTo a uri id (a.nodes.size + 1) [id] id

/-! ### Checks -/

/-- Whether a name starts with a small letter. Names in a domain model are ASCII. -/
def startsSmall (name : String) : Bool :=
  name.toList.head?.any Char.isLower

def capitalizedName : Check where
  id := "capitalized-name"
  run a _ id :=
    { reports :=
        if (a.nameOf? id).any startsSmall then
          [{ severity := .warning
             message := "Type name should start with a capital."
             range := Diagnostic.rangeOn a id (some "name") none
             code := some "capitalized-name" }]
        else [] }

def inheritanceCycle : Check where
  id := "inheritance-cycle"
  run a uri id :=
    { reports :=
        if inheritsItself a uri id then
          [{ severity := .error
             message :=
               "Cycle in the inheritance hierarchy of '" ++ (a.nameOf? id).getD "" ++ "'."
             range := Diagnostic.rangeOn a id (some "superClass") none
             code := some "inheritance-cycle" }]
        else [] }

/-- Whether a node is a division whose divisor is zero (`division_by_zero`). -/
def dividesByZero (a : Ast) (id : NodeId) : Bool :=
  a.text? id "op" == some "/" &&
    (((a.node? id).bind (·.child? "right")).bind (evaluate a)).any (· == 0.0)

def divisionByZero : Check where
  id := "division-by-zero"
  run a _ id :=
    { reports :=
        if dividesByZero a id then
          [{ severity := .error
             message := "Division by zero."
             range := Diagnostic.rangeOn a id (some "right") none
             code := some "division-by-zero" }]
        else [] }

/-- Whether a reference of the document points to a node of it. -/
def isReferredTo (a : Ast) (uri : DocumentUri) (id : NodeId) : Bool :=
  a.placed.any fun (_, r) => r.target?.bind (localNode? a uri) == some id

def unusedDatatype : Check where
  id := "unused-datatype"
  category := .slow
  run a uri id :=
    { reports :=
        if isReferredTo a uri id then []
        else
          [{ severity := .hint
             message := "Datatype '" ++ (a.nameOf? id).getD "" ++ "' is never used."
             range := Diagnostic.rangeOn a id (some "name") none
             code := some "unused-datatype"
             tags := [.unnecessary] }] }

/-- The checks on domain models, in order (`register`). -/
def registry : Registry where
  types := types
  registrations := [
    ⟨some modelType, .uniqueNames "elements"⟩,
    ⟨some packageType, .uniqueNames "elements"⟩,
    ⟨some classType, .uniqueNames "members"⟩,
    ⟨some typeType, capitalizedName⟩,
    ⟨some classType, inheritanceCycle⟩,
    ⟨some binaryType, divisionByZero⟩,
    ⟨some dataTypeType, unusedDatatype⟩,
    ⟨none, .referencesResolved⟩]

end Workbench.DomainModel
