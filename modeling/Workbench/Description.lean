import Workbench.Text.Range
import Workbench.TypeHierarchy
import Workbench.Value

/-!
**Descriptions of named nodes.**

A description is what one document knows of a named node of another, or of its own: the name, the type, and
where the node is. Cross-references are resolved to descriptions, never to nodes, so that they may point
into a document that is not at hand. An `AstNodeDescription` is all that a linker or an index gets to see of
a node.
-/

namespace Workbench

/-- The address of a document. -/
abbrev DocumentUri := String

/-- A named node, seen from anywhere (`AstNodeDescription`). -/
structure Description where
  name : String
  type : TypeId
  uri : DocumentUri
  node : NodeId
  /-- Where the name stands in its document. -/
  nameRange : Option TextRange
deriving DecidableEq, Repr

/-- What became of a cross-reference. -/
inductive Resolution where
  | resolved (target : Description)
  | unresolved (message : String)
deriving DecidableEq, Repr

namespace Resolution

def target? : Resolution → Option Description
  | resolved target => some target
  | unresolved _ => none

def isResolved (r : Resolution) : Bool := r.target?.isSome

end Resolution

end Workbench
