import Workbench.Grammar

/-!
**Concrete trees.**

The source tree of a document while it grows, and as it is kept: a list of nodes that know each other by
their numbers. A leaf holds a token, hidden or not. A composite lists what one rule invocation has taken
(`add_composite`, `add_leaf`); when the invocation is over it gets its range, or is detached from the
composite around it if it has stayed empty (`close`). A tree-rewriting action moves all that a composite
lists into a new one below it (`wrap_children`).
-/

namespace Workbench

/-- The number of a node in a concrete tree. -/
abbrev CstId := Nat

/-- A token, or what one rule invocation has taken. -/
inductive CstKind where
  | leaf (token : TokenKind) (image : String) (hidden : Bool)
  | composite (rule : Option RuleId) (children : List CstId)
deriving DecidableEq, Repr, Inhabited

/-- A node of a concrete tree. -/
structure CstNode where
  kind : CstKind
  parent : Option CstId
  /-- For composites, this spans the visible leaves only. -/
  range : TextRange
  /-- The node of the abstract tree that was built from the composite. -/
  ast : Option NodeId := none
  /-- The feature to which the node was assigned. -/
  feature : Option String
deriving DecidableEq, Repr, Inhabited

namespace CstNode

def isLeaf (n : CstNode) : Bool :=
  match n.kind with
  | .leaf .. => true
  | .composite .. => false

def isHidden (n : CstNode) : Bool :=
  match n.kind with
  | .leaf _ _ hidden => hidden
  | .composite .. => false

def children (n : CstNode) : List CstId :=
  match n.kind with
  | .leaf .. => []
  | .composite _ children => children

/-- Changes what a composite lists. -/
def list (f : List CstId → List CstId) (n : CstNode) : CstNode :=
  match n.kind with
  | .leaf .. => n
  | .composite rule children => { n with kind := .composite rule (f children) }

/-- Puts a node below another parent. -/
def moveTo (parent : Option CstId) (n : CstNode) : CstNode := { n with parent }

/-- Whether a node counts for the range of the composite around it. -/
def isSubstantial (n : CstNode) : Bool :=
  !(n.isHidden || (!n.isLeaf && n.range.isEmpty))

end CstNode

/-- A concrete tree. The root is listed nowhere. -/
structure Cst where
  nodes : Array CstNode
  root : CstId
deriving Repr, Inhabited

namespace Cst

/-- The tree of a document of which nothing has been read yet. -/
def new (entry : RuleId) : Cst where
  nodes := #[{ kind := .composite (some entry) [], parent := none, range := default, feature := none }]
  root := 0

def node? (a : Cst) (id : CstId) : Option CstNode := a.nodes[id]?

/-- Changes one node. -/
def update (a : Cst) (id : CstId) (f : CstNode → CstNode) : Cst :=
  { a with nodes := a.nodes.modify id f }

/-! ### Adding nodes -/

/-- Adds a node at the end of what `parent` lists (`push_child`). -/
def pushChild (a : Cst) (parent : CstId) (n : CstNode) : Cst × CstId :=
  let id := a.nodes.size
  (({ a with nodes := a.nodes.push n }).update parent (·.list (· ++ [id])), id)

/-- Adds a token (`add_leaf`). -/
def addLeaf (a : Cst) (parent : CstId) (token : Token) (feature : Option String) : Cst × CstId :=
  a.pushChild parent {
    kind := .leaf token.kind token.image token.kind.isHidden
    parent := some parent
    range := token.range
    feature }

/-- Opens a composite. If it stays empty, it lies at `offset` (`add_composite`). -/
def addComposite (a : Cst) (parent : CstId) (rule : Option RuleId) (feature : Option String)
    (offset : Nat) : Cst × CstId :=
  a.pushChild parent {
    kind := .composite rule []
    parent := some parent
    range := .empty offset
    feature }

/-! ### Closing composites -/

/-- Extends a range by that of a node, if the node counts. -/
def coverWith (a : Cst) (range : Option TextRange) (child : CstId) : Option TextRange :=
  match a.node? child with
  | none => range
  | some n =>
    if n.isSubstantial then
      match range with
      | some r => some (r.cover n.range)
      | none => some n.range
    else range

/-- The range of the nodes that count, if there are any. -/
def coverOf (a : Cst) (children : List CstId) : Option TextRange :=
  children.foldl a.coverWith none

/-- Gives a composite its range, or detaches it if it lists nothing; `false` means that it was detached
(`close`). -/
def close (a : Cst) (id : CstId) : Cst × Bool :=
  match a.node? id with
  | none => (a, false)
  | some n =>
    if n.children.isEmpty && id != a.root then
      let a :=
        match n.parent with
        | some parent => a.update parent (·.list (·.filter (· != id)))
        | none => a
      (a.update id (·.moveTo none), false)
    else
      match a.coverOf n.children with
      | some range => (a.update id ({ · with range }), true)
      | none => (a, true)

/-- Moves all that `parent` lists into a new composite, which is then all that it lists
(`wrap_children`). -/
def wrapChildren (a : Cst) (parent : CstId) (feature : Option String) : Cst × Option CstId :=
  match (a.node? parent).map CstNode.kind with
  | some (.composite rule (first :: rest)) =>
    let id := a.nodes.size
    let offset := ((a.node? first).map fun n => n.range.start).getD 0
    let a := a.update parent (·.list fun _ => [])
    let a := (first :: rest).foldl (fun a child => a.update child (·.moveTo (some id))) a
    let (a, _) := a.pushChild parent {
      kind := .composite rule (first :: rest)
      parent := some parent
      range := .empty offset
      feature }
    ((a.close id).1, some id)
  | _ => (a, none)

/-! ### Links to the abstract tree -/

/-- Tells a composite which node was built from it. -/
def setAst (a : Cst) (id : CstId) (ast : Option NodeId) : Cst :=
  a.update id ({ · with ast })

/-- The root covers the whole text (`set_root_range`). -/
def setRootRange (a : Cst) (range : TextRange) : Cst :=
  a.update a.root ({ · with range })

end Cst

end Workbench
