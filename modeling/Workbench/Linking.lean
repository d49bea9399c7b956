import Workbench.Scope

/-!
**Linking.**

A reference is resolved by walking from the node that holds it out through its containers: the first
description with the right name and a fitting type in the nearest scope that has one wins. If no scope
has one, the exports of all documents are asked; of several, the one of the smallest address wins, so
the order in which documents are listed does not matter.

A reference keeps what it was resolved to until the tree is unlinked. This is how `DefaultLinker` resolves
and links.
-/

namespace Workbench

/-- Where names are looked up (`LinkContext`). -/
structure LinkContext where
  locals : LocalScopes
  /-- The exported descriptions of a name. -/
  exported : String → List Description

/-- How many references were resolved and how many were not. -/
structure LinkStats where
  resolved : Nat := 0
  unresolved : Nat := 0
deriving DecidableEq, Repr

namespace Linking

/-- Whether a description answers a reference (`matches`). -/
def fits (types : TypeHierarchy) (name : String) (target : TypeId) (d : Description) : Bool :=
  d.name == name && types.isSubtype d.type target

/-- The first description of the smallest address. -/
def smallest : List Description → Option Description
  | [] => none
  | d :: rest =>
    some (rest.foldl (fun best d => if d.uri < best.uri then d else best) d)

/-- The descriptions of a name in a list (`lookup`). -/
def named (descriptions : List Description) (name : String) : List Description :=
  descriptions.filter (·.name == name)

/-- The nearest local description that answers a reference. -/
def nearest? (a : Ast) (r : Reference) (locals : LocalScopes) : Option Description :=
  match r.place with
  | none => none
  | some place =>
    (a.ancestors place.holder).findSome? fun container =>
      (locals.get container).find? (fits a.types r.text r.target)

/-- What is said of a reference that nothing answers. -/
def unresolvedMessage (types : TypeHierarchy) (r : Reference) : String :=
  "Could not resolve reference to " ++ types.name r.target ++ " named '" ++ r.text ++ "'."

/-- Resolves a reference (`resolve`). -/
def resolve (a : Ast) (r : Reference) (cx : LinkContext) : Resolution :=
  match nearest? a r cx.locals with
  | some found => .resolved found
  | none =>
    match smallest ((cx.exported r.text).filter (fits a.types r.text r.target)) with
    | some found => .resolved found
    | none => .unresolved (unresolvedMessage a.types r)

/-- Stores what a reference is resolved to, unless it has been linked before (`target`). -/
def linkOne (cx : LinkContext) (a : Ast) (id : RefId) : Ast :=
  match a.reference? id with
  | none => a
  | some r =>
    if r.isLinked then a
    else
      let linked := { r with resolution := some (resolve a r cx) }
      { a with references := a.references.setIfInBounds id linked }

/-- What a reference is resolved to. -/
def resolutionOf? (a : Ast) (id : RefId) : Option Resolution :=
  (a.reference? id).bind (·.resolution)

/-- A tree after an attempt to link it. If the token fired, some references may be linked. -/
structure Linked where
  ast : Ast
  outcome : Except Cancelled (LinkStats × Cancellation)

/-- Links references one by one, with a reading of the token before each. -/
def linkEach (cx : LinkContext) : List RefId → Ast → LinkStats → Cancellation → Linked
  | [], a, stats, token => ⟨a, .ok (stats, token)⟩
  | id :: rest, a, stats, token =>
    match Cancellable.checkpoint token with
    | .error e => ⟨a, .error e⟩
    | .ok ((), token) =>
      let a := linkOne cx a id
      let stats :=
        if (resolutionOf? a id).any (·.isResolved) then
          { stats with resolved := stats.resolved + 1 }
        else { stats with unresolved := stats.unresolved + 1 }
      linkEach cx rest a stats token

/-- Links all references that a node holds (`link`). -/
def link (cx : LinkContext) (a : Ast) (token : Cancellation) : Linked :=
  linkEach cx (a.placed.map (·.1)) a {} token

end Linking

end Workbench
