import Workbench.Ast
import Workbench.Cancellation

/-!
**Scopes.**

Two things are computed from a finished tree before any reference is linked: the *exports*, which
other documents may link to, and the *local scopes*: for every node, the named nodes directly below
it. Neither looks at references.

By default a document exports the named nodes directly below its root. This is what a
`DefaultScopeComputation` computes, with the names of a `DefaultNameProvider`.
-/

namespace Workbench

/-- For every node, the descriptions that are visible below it (`LocalScopes`). Entries are kept in the
order in which they were added. -/
structure LocalScopes where
  entries : List (NodeId × Description)
deriving DecidableEq, Repr

namespace LocalScopes

def empty : LocalScopes := ⟨[]⟩

instance : Inhabited LocalScopes := ⟨empty⟩

/-- The descriptions at a node. -/
def get (s : LocalScopes) (container : NodeId) : List Description :=
  s.entries.filterMap fun (c, d) => if c = container then some d else none

def add (s : LocalScopes) (container : NodeId) (d : Description) : LocalScopes :=
  ⟨s.entries ++ [(container, d)]⟩

/-- The number of nodes that have descriptions. -/
def size (s : LocalScopes) : Nat := (s.entries.map (·.1)).eraseDups.length

end LocalScopes

namespace Ast

/-- Where the name of a node stands; the whole node if it has no name text of its own (`name_range`). -/
def nameRange? (a : Ast) (id : NodeId) : Option TextRange :=
  (a.propertyRange? id "name" none).or (a.range? id)

/-- Describes a node under a name. -/
def describeAs (a : Ast) (uri : DocumentUri) (name : String) (id : NodeId) : Option Description :=
  (a.node? id).map fun node =>
    { name, type := node.type, uri, node := id, nameRange := a.nameRange? id }

/-- Describes a node under its own name, if it has one (`describe`). -/
def describe (a : Ast) (uri : DocumentUri) (id : NodeId) : Option Description :=
  (a.nameOf? id).bind (a.describeAs uri · id)

end Ast

namespace Scope

open Cancellable

/-- The named nodes directly below the root (`compute_exports`). -/
def directExports (a : Ast) (uri : DocumentUri) : Cancellable (List Description) := do
  checkpoint
  return (a.contents a.root).filterMap (a.describe uri)

/-- The entry of a node in the scope of its container. -/
def localEntry (a : Ast) (uri : DocumentUri) (id : NodeId) : Option (NodeId × Description) := do
  let container ← a.container? id
  let description ← a.describe uri id
  return (container, description)

/-- The entries of some nodes, with a reading of the token before each. -/
def localEntries (a : Ast) (uri : DocumentUri) :
    List NodeId → Cancellable (List (NodeId × Description))
  | [] => return []
  | id :: rest => do
    checkpoint
    let entries ← localEntries a uri rest
    return (localEntry a uri id).toList ++ entries

/-- The named nodes of the tree, each in the scope of its container (`compute_local_scopes`). -/
def directLocal (a : Ast) (uri : DocumentUri) : Cancellable LocalScopes := do
  let entries ← localEntries a uri a.preorder
  return ⟨entries⟩

end Scope

end Workbench
