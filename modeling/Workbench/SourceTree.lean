import Workbench.Grammar

/-!
**Source trees.**

A source tree keeps every token of a text, white space and comments included, grouped by the rule
invocations that took them. A branch may be owned by the node that was built from it, and a leaf or branch
remembers the feature to which it was assigned; so the text of a node or of one of its properties can be
found again. It is what a `Cst` shows below its root.
-/

namespace Workbench

/-- A token, or the tokens of one rule invocation. -/
inductive SourceTree where
  | leaf (token : Token) (feature : Option String)
  | branch (rule : RuleId) (feature : Option String) (range : TextRange) (owner : Option NodeId)
      (children : List SourceTree)
deriving Repr, Inhabited

namespace SourceTree

def range : SourceTree → TextRange
  | leaf token _ => token.range
  | branch _ _ range _ _ => range

def feature : SourceTree → Option String
  | leaf _ feature => feature
  | branch _ feature _ _ _ => feature

/-- The node built from the tree. -/
def owner : SourceTree → Option NodeId
  | leaf _ _ => none
  | branch _ _ _ owner _ => owner

def children : SourceTree → List SourceTree
  | leaf _ _ => []
  | branch _ _ _ _ children => children

/-- Gives a branch another owner. -/
def withOwner (owner : Option NodeId) : SourceTree → SourceTree
  | leaf token feature => leaf token feature
  | branch rule feature range _ children => branch rule feature range owner children

/-! ### Closing branches -/

/-- Whether a tree counts for the range of the branch around it: hidden tokens and branches without
extent do not. -/
def isSubstantial : SourceTree → Bool
  | leaf token _ => token.isVisible
  | branch _ _ range _ _ => !range.isEmpty

/-- The range that covers the given trees, `fallback` if there are none. -/
def coverAll (fallback : TextRange) : List SourceTree → TextRange
  | [] => fallback
  | t :: rest => rest.foldl (fun r u => r.cover u.range) t.range

/-- A finished branch (`close`). Its range covers the children that count; without such children it is
empty, at `offset`. -/
def close (rule : RuleId) (feature : Option String) (offset : Nat) (children : List SourceTree) :
    SourceTree :=
  branch rule feature (coverAll (.empty offset) (children.filter isSubstantial)) none children

/-! ### Leaves -/

mutual

/-- The tokens below a tree, in order (`leaves`). -/
def leaves : SourceTree → List Token
  | leaf token _ => [token]
  | branch _ _ _ _ children => leavesOf children

/-- The tokens below some trees, in order. -/
def leavesOf : List SourceTree → List Token
  | [] => []
  | t :: rest => leaves t ++ leavesOf rest

end

/-- The text below a tree. -/
def text (t : SourceTree) : String :=
  String.join (t.leaves.map (·.image))

/-! ### Looking up offsets -/

/-- Whether a visible token lies at an offset. A token without text lies at its own offset. -/
def tokenAt (offset : Nat) (t : Token) : Bool :=
  t.isVisible && decide (t.offset ≤ offset) && decide (offset < max t.stop (t.offset + 1))

mutual

/-- The first visible token at an offset, with the nearest owner above it; `above` is the owner that
surrounds the tree (`leaf_at`). -/
def findAt (offset : Nat) (above : Option NodeId) : SourceTree → Option (Token × Option NodeId)
  | leaf token _ => if tokenAt offset token then some (token, above) else none
  | branch _ _ _ owner children => findAtOf offset (owner.or above) children

/-- The first visible token at an offset below some trees. -/
def findAtOf (offset : Nat) (above : Option NodeId) :
    List SourceTree → Option (Token × Option NodeId)
  | [] => none
  | t :: rest => (findAt offset above t).or (findAtOf offset above rest)

end

/-- The visible token at an offset. -/
def tokenAt? (t : SourceTree) (offset : Nat) : Option Token :=
  (t.findAt offset none).map (·.1)

/-- The node that owns the visible token at an offset (`owning_ast_node`). -/
def nodeAt? (t : SourceTree) (offset : Nat) : Option NodeId :=
  (t.findAt offset none).bind (·.2)

/-! ### Looking up features -/

mutual

/-- A tree assigned to the feature itself, or the trees below it that are and belong to no other
node. -/
def withFeature (feature : String) : SourceTree → List SourceTree
  | leaf token assigned => if assigned = some feature then [leaf token assigned] else []
  | branch rule assigned range owner children =>
    if assigned = some feature then [branch rule assigned range owner children]
    else if owner.isSome then []
    else withFeatureOf feature children

/-- The trees below some trees that are assigned to the feature and belong to no other node. -/
def withFeatureOf (feature : String) : List SourceTree → List SourceTree
  | [] => []
  | t :: rest => withFeature feature t ++ withFeatureOf feature rest

end

/-- The trees below a tree that were assigned to a feature of the tree's own node, in order
(`find_for_feature`). -/
def assignedTo (t : SourceTree) (feature : String) : List SourceTree :=
  withFeatureOf feature t.children

end SourceTree

end Workbench
