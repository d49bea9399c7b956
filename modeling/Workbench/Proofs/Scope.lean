import Workbench.Proofs.Ast
import Workbench.Scope.Scoping

/-!
**Scopes of a tree.**

By default a document exports the named nodes right below its root, and a node of the tree has the named
nodes right below it in its scope.
-/

namespace Workbench

namespace Scope

open Cancellable

variable (a : Ast) (uri : DocumentUri)

/-- The named nodes right below a node. -/
def below (a : Ast) (uri : DocumentUri) (id : NodeId) : List Description :=
  (a.contents id).filterMap (a.describe uri)

theorem ensures_directExports_eq : Ensures (directExports a uri) (· = below a uri a.root) :=
  Ensures.bind (p := fun _ => True) (fun _ _ _ _ => trivial) fun _ _ => ensures_pure rfl

theorem ensures_localEntries_eq (ids : List NodeId) :
    Ensures (localEntries a uri ids) (· = ids.filterMap (localEntry a uri)) := by
  induction ids with
  | nil => exact ensures_pure rfl
  | cons id rest ih =>
    refine Ensures.bind (p := fun _ => True) (fun _ _ _ _ => trivial) fun _ _ => ?_
    refine ih.bind fun entries eq => ensures_pure ?_
    rw [eq, List.filterMap_cons]
    cases localEntry a uri id <;> rfl

/-- In a tree, a node has the named nodes right below it in its scope, in their order. -/
theorem get_localEntries (rooted : a.Rooted) {id : NodeId}
    (reachable : a.Reachable id) :
    LocalScopes.get ⟨a.preorder.filterMap (localEntry a uri)⟩ id = below a uri id := by
  have entry : ∀ x, ((localEntry a uri x).bind fun e => if e.1 = id then some e.2 else none) =
      if decide (a.container? x = some id) = true then a.describe uri x else none := by
    intro x
    unfold localEntry
    cases a.container? x with
    | none => simp
    | some c =>
      cases a.describe uri x with
      | none => simp
      | some d => simp
  rw [LocalScopes.get, List.filterMap_filterMap, below, ← rooted.filter_preorder reachable,
    List.filterMap_filter]
  exact congrArg (List.filterMap · a.preorder) (funext entry)

theorem ensures_directLocal_eq :
    Ensures (directLocal a uri) (· = ⟨a.preorder.filterMap (localEntry a uri)⟩) :=
  (ensures_localEntries_eq a uri a.preorder).bind fun _ eq => ensures_pure (by rw [eq])

end Scope

end Workbench
