/-!
**Property values.**

A property of a node holds a text, a number, a truth value, a node, a cross-reference, or a list of these.
The properties of a node are kept in the order in which they were first given a value. A name is given a
value by `set`, and a further one by `append`.
-/

namespace Workbench

/-- A node of a tree, by its place in the tree's list of nodes. -/
abbrev NodeId := Nat

/-- A cross-reference of a tree, by its place in the tree's list of references. -/
abbrev RefId := Nat

/-- The value of a property. -/
inductive Value where
  | text (s : String)
  | number (x : Float)
  | bool (b : Bool)
  | node (id : NodeId)
  | reference (id : RefId)
  | list (items : List Value)
deriving Repr, Inhabited

namespace Value

def text? : Value → Option String
  | text s => some s
  | _ => none

def number? : Value → Option Float
  | number x => some x
  | _ => none

def bool? : Value → Option Bool
  | bool b => some b
  | _ => none

def node? : Value → Option NodeId
  | node id => some id
  | _ => none

def reference? : Value → Option RefId
  | reference id => some id
  | _ => none

def list? : Value → Option (List Value)
  | list items => some items
  | _ => none

/-- The name of the kind of value. -/
def kindLabel : Value → String
  | text _ => "string"
  | number _ => "number"
  | bool _ => "bool"
  | node _ => "node"
  | reference _ => "reference"
  | list _ => "array"

/-- The nodes that a value holds directly: itself, or the items of a list. -/
def nodes : Value → List NodeId
  | node id => [id]
  | list items => items.filterMap node?
  | _ => []

/-- The references that a value holds directly: itself, or the items of a list. -/
def references : Value → List RefId
  | reference id => [id]
  | list items => items.filterMap reference?
  | _ => []

end Value

/-- Named values in the order in which the names first came up. -/
structure Properties where
  entries : List (String × Value)
deriving Repr, Inhabited

namespace Properties

def empty : Properties := ⟨[]⟩

def get? (p : Properties) (name : String) : Option Value :=
  p.entries.lookup name

def contains (p : Properties) (name : String) : Bool :=
  p.entries.any (·.1 == name)

/-- Changes the first value of the name by `f`; gives a new name the value `fresh`. -/
def upsert (name : String) (f : Value → Value) (fresh : Value) :
    List (String × Value) → List (String × Value)
  | [] => [(name, fresh)]
  | (n, v) :: rest =>
    if n == name then (n, f v) :: rest else (n, v) :: upsert name f fresh rest

/-- Gives a name a value, in the place of its value so far (`set`). -/
def set (p : Properties) (name : String) (value : Value) : Properties :=
  ⟨upsert name (fun _ => value) value p.entries⟩

/-- Appends to the list under a name (`append`). A single value becomes the first item of a list. -/
def append (p : Properties) (name : String) (value : Value) : Properties :=
  ⟨upsert name
    (fun
      | .list items => .list (items ++ [value])
      | previous => .list [previous, value])
    (.list [value]) p.entries⟩

/-- The entries without the first one of the name. -/
def erase (p : Properties) (name : String) : Properties :=
  ⟨p.entries.eraseP (·.1 == name)⟩

/-- Fills a gap with one entry of another map: a name that is absent is added, two lists are joined
with the other one in front, and in all other cases the present value stays. -/
def fill (p : Properties) (entry : String × Value) : Properties :=
  ⟨upsert entry.1
    (fun
      | .list mine =>
        match entry.2 with
        | .list theirs => .list (theirs ++ mine)
        | _ => .list mine
      | mine => mine)
    entry.2 p.entries⟩

/-- Fills the gaps of `p` with the entries of `other` (`merge_without_override`). -/
def fillFrom (p other : Properties) : Properties :=
  other.entries.foldl fill p

/-- All nodes held by the values, in order. -/
def nodes (p : Properties) : List NodeId :=
  p.entries.flatMap (·.2.nodes)

/-- All references held by the values, in order. -/
def references (p : Properties) : List RefId :=
  p.entries.flatMap (·.2.references)

end Properties

end Workbench
