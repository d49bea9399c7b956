import Workbench.Scope

/-!
**Scopes of languages with packages.**

A language with packages exports the types in its packages under their qualified names: the names of the
packages around them, from the outside in, and their own name, separated by points. A qualified name can be
used everywhere in its own document. This is what a `DomainModelScopeComputation` computes.
-/

namespace Workbench.Scope

open Cancellable

/-- Puts a name into a package (`qualify`). -/
def qualify (package name : String) : String :=
  if package.isEmpty then name else package ++ "." ++ name

/-- The exported types at and below an element that stands in a package (`collect`). An element without a
name is passed over, with all that is in it. -/
def packageExports (a : Ast) (uri : DocumentUri) :
    Nat → String → NodeId → Cancellable (List Description)
  | 0, _, _ => return []
  | fuel + 1, package, id => do
    checkpoint
    match a.nameOf? id with
    | none => return []
    | some name =>
      let qualified := qualify package name
      if a.isA id "PackageDeclaration" then
        let nested ← (a.children id "elements").mapM (packageExports a uri fuel qualified)
        return nested.flatten
      else if a.isA id "Type" then
        return (a.describeAs uri qualified id).toList
      else return []

/-- The types of a document under their qualified names (`compute_exports`). -/
def qualifiedExports (a : Ast) (uri : DocumentUri) : Cancellable (List Description) := do
  let found ← (a.children a.root "elements").mapM (packageExports a uri a.nodes.size "")
  return found.flatten

/-- The default scopes, and the qualified names of nested types at the root (`compute_local_scopes`). -/
def qualifiedLocal (a : Ast) (uri : DocumentUri) : Cancellable LocalScopes := do
  let scopes ← directLocal a uri
  let exports ← qualifiedExports a uri
  let nested := exports.filter (·.name.toList.contains '.')
  return ⟨scopes.entries ++ nested.map (a.root, ·)⟩

end Workbench.Scope
