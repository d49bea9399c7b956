import Workbench.Description
import Workbench.SourceTree

/-!
**Abstract trees.**

The nodes and cross-references of one document, in the order in which they were made. A node owns the
nodes that its properties hold, and each of these knows the place where it is held. Nodes that were
replaced while the tree was built stay in the list but hang nowhere.

Walks along children and along containers are bounded by the number of nodes, which no path through a tree
exceeds. Nodes are read as by a `NodeRef`, and walked as by `stream_ast` and `root_of`.
-/

namespace Workbench

/-- Where a node or reference is held: by which node, in which feature, and at which item of a
list. -/
structure Place where
  holder : NodeId
  feature : String
  index : Option Nat
deriving DecidableEq, Repr

/-- A node of a tree. -/
structure AstNode where
  type : TypeId
  place : Option Place := none
  source : Option SourceTree := none
  properties : Properties := .empty
deriving Repr, Inhabited

/-- A cross-reference: a text that names a node of some type. -/
structure Reference where
  text : String
  target : TypeId
  source : SourceTree
  place : Option Place := none
  resolution : Option Resolution := none
deriving Repr, Inhabited

namespace Reference

def isLinked (r : Reference) : Bool := r.resolution.isSome

def target? (r : Reference) : Option Description := r.resolution.bind (·.target?)

def isResolved (r : Reference) : Bool := r.target?.isSome

end Reference

/-- The tree of a document. -/
structure Ast where
  types : TypeHierarchy
  nodes : Array AstNode
  references : Array Reference
  source : SourceTree
  root : NodeId
deriving Repr, Inhabited

/-! ### Properties of a node -/

namespace AstNode

def get? (n : AstNode) (property : String) : Option Value := n.properties.get? property

def text? (n : AstNode) (property : String) : Option String :=
  (n.get? property).bind Value.text?

/-- The texts in a list property (`strings`). -/
def texts (n : AstNode) (property : String) : List String :=
  (((n.get? property).bind Value.list?).getD []).filterMap Value.text?

def number? (n : AstNode) (property : String) : Option Float :=
  (n.get? property).bind Value.number?

/-- A truth value; false if it was never set. -/
def bool (n : AstNode) (property : String) : Bool :=
  ((n.get? property).bind Value.bool?).getD false

def child? (n : AstNode) (property : String) : Option NodeId :=
  (n.get? property).bind Value.node?

/-- The nodes in a property, be it a list or a single node. -/
def children (n : AstNode) (property : String) : List NodeId :=
  ((n.get? property).map Value.nodes).getD []

def reference? (n : AstNode) (property : String) : Option RefId :=
  (n.get? property).bind Value.reference?

/-- All nodes held by the properties, in order (`contents`). -/
def contents (n : AstNode) : List NodeId := n.properties.nodes

/-- All references held by the properties, in order (`references`). -/
def references (n : AstNode) : List RefId := n.properties.references

/-! ### Text of a node -/

def range? (n : AstNode) : Option TextRange := n.source.map SourceTree.range

/-- The text from which the node was built. -/
def sourceText (n : AstNode) : String := (n.source.map SourceTree.text).getD ""

/-- The range of the text assigned to a property; `index` picks one of several (`property_range`). -/
def propertyRange? (n : AstNode) (property : String) (index : Option Nat) : Option TextRange := do
  let source ← n.source
  let found ← (source.assignedTo property)[index.getD 0]?
  return found.range

end AstNode

namespace Ast

/-! ### Nodes -/

def node? (a : Ast) (id : NodeId) : Option AstNode := a.nodes[id]?

def typeName (a : Ast) (id : NodeId) : String :=
  match a.node? id with
  | some n => a.types.name n.type
  | none => "<unknown>"

/-- Whether a node's type is `type` or below it (`is_instance`). -/
def isInstance (a : Ast) (id : NodeId) (type : TypeId) : Bool :=
  match a.node? id with
  | some n => a.types.isSubtype n.type type
  | none => false

/-- Whether a node's type is the one of that name or below it (`is_a`). -/
def isA (a : Ast) (id : NodeId) (typeName : String) : Bool :=
  match a.types.id? typeName with
  | some type => a.isInstance id type
  | none => false

def text? (a : Ast) (id : NodeId) (property : String) : Option String :=
  (a.node? id).bind (·.text? property)

/-- The name of a node. -/
def nameOf? (a : Ast) (id : NodeId) : Option String := a.text? id "name"

def children (a : Ast) (id : NodeId) (property : String) : List NodeId :=
  ((a.node? id).map (·.children property)).getD []

def contents (a : Ast) (id : NodeId) : List NodeId :=
  ((a.node? id).map (·.contents)).getD []

def range? (a : Ast) (id : NodeId) : Option TextRange :=
  (a.node? id).bind (·.range?)

def propertyRange? (a : Ast) (id : NodeId) (property : String) (index : Option Nat) :
    Option TextRange :=
  (a.node? id).bind (·.propertyRange? property index)

/-- The node that holds a node (`container`). -/
def container? (a : Ast) (id : NodeId) : Option NodeId :=
  ((a.node? id).bind (·.place)).map (·.holder)

/-! ### Walks -/

/-- A node and what is below it, to a depth of `fuel`, parents first (`stream_ast`). -/
def preorderFrom (a : Ast) : Nat → NodeId → List NodeId
  | 0, _ => []
  | fuel + 1, id => id :: (a.contents id).flatMap (preorderFrom a fuel)

/-- All nodes of the tree, parents first, children in the order of the properties. -/
def preorder (a : Ast) : List NodeId := a.preorderFrom a.nodes.size a.root

/-- A node and its containers, at most `fuel` of them, innermost first. -/
def ancestorsFrom (a : Ast) : Nat → NodeId → List NodeId
  | 0, _ => []
  | fuel + 1, id =>
    id :: (match a.container? id with
      | some holder => ancestorsFrom a fuel holder
      | none => [])

/-- A node and its containers, innermost first. -/
def ancestors (a : Ast) (id : NodeId) : List NodeId := a.ancestorsFrom a.nodes.size id

/-- The outermost container of a node (`root_of`). -/
def rootOf (a : Ast) (id : NodeId) : NodeId := (a.ancestors id).getLastD id

/-! ### References -/

def reference? (a : Ast) (id : RefId) : Option Reference := a.references[id]?

/-- The references that some node holds or held, in the order in which they were made (`references`). -/
def placed (a : Ast) : List (RefId × Reference) :=
  a.references.toList.zipIdx.filterMap fun (r, id) => if r.place.isSome then some (id, r) else none

/-- Forgets all resolutions (`unlink_all`). -/
def unlink (a : Ast) : Ast :=
  { a with references := a.references.map fun r => { r with resolution := none } }

/-! ### Offsets -/

/-- The node at an offset: the owner of the visible token there (`node_at_offset`). -/
def nodeAt? (a : Ast) (offset : Nat) : Option NodeId := a.source.nodeAt? offset

/-- The first reference whose text contains an offset, its end included (`reference_at`). -/
def referenceAt? (a : Ast) (offset : Nat) : Option RefId :=
  (a.placed.find? fun (_, r) => r.source.range.contains offset).map (·.1)

end Ast

end Workbench
