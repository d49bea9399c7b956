import Workbench.Proofs.Scope.Laws

/-!
**Ways to compute scopes.**

A language says how it computes scopes (`compute_exports`, `compute_local_scopes`), and with that under which
names nodes are found. It is free in this as long as the exports of a document are its own, and neither what
references were resolved to nor the moment when the token fires makes a difference to what is computed.
-/

namespace Workbench.Scope

open Cancellable

/-- How a language computes its scopes. -/
structure Scoping where
  exports : Ast → DocumentUri → Cancellable (List Description)
  localScopes : Ast → DocumentUri → Cancellable LocalScopes
  /-- A document exports what is its own. -/
  uri_exports : ∀ a uri, Ensures (exports a uri) fun ds => ∀ d ∈ ds, d.uri = uri
  /-- No look at what references are resolved to. -/
  exports_unlink : ∀ a uri, exports a.unlink uri = exports a uri
  localScopes_unlink : ∀ a uri, localScopes a.unlink uri = localScopes a uri
  /-- A token stops the computation, or it makes no difference. -/
  steady_exports : ∀ a uri, Steady (exports a uri)
  steady_localScopes : ∀ a uri, Steady (localScopes a uri)
  /-- The computation is stopped by nothing else. -/
  ends_exports : ∀ a uri, Ends (exports a uri)
  ends_localScopes : ∀ a uri, Ends (localScopes a uri)

namespace Scoping

/-- The named nodes right below the root are exported, and every named node is in the scope of its container
(`DefaultScopeComputation`). -/
def direct : Scoping where
  exports := directExports
  localScopes := directLocal
  uri_exports a uri token ds rest ok d mem := (ensures_directExports a uri token ds rest ok d mem).uri
  exports_unlink _ _ := rfl
  localScopes_unlink := directLocal_unlink
  steady_exports := steady_directExports
  steady_localScopes := steady_directLocal
  ends_exports := ends_directExports
  ends_localScopes := ends_directLocal

/-- Types are exported under their qualified names, and these names are in scope everywhere in their own
document, too (`DomainModelScopeComputation`). -/
def qualified : Scoping where
  exports := qualifiedExports
  localScopes := qualifiedLocal
  uri_exports a uri token ds rest ok d mem := (ensures_qualifiedExports a uri token ds rest ok d mem).uri
  exports_unlink := qualifiedExports_unlink
  localScopes_unlink := qualifiedLocal_unlink
  steady_exports := steady_qualifiedExports
  steady_localScopes := steady_qualifiedLocal
  ends_exports := ends_qualifiedExports
  ends_localScopes := ends_qualifiedLocal

end Scoping

end Workbench.Scope
