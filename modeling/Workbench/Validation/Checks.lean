import Workbench.Validation

/-!
**Checks for any language.**

Sibling declarations have distinct names, and references that were linked have been resolved.
-/

namespace Workbench.Check

/-- Named nodes in one property of a node have distinct names (`UniqueNames`). All nodes that share a name
are reported. -/
def uniqueNames (property : String) : Check where
  id := "unique-names-" ++ property
  description := "Check that sibling declarations have distinct names"
  run a _ id :=
    let children := a.children id property
    let names := children.filterMap a.nameOf?
    { reports := children.filterMap fun child => do
        let name ← a.nameOf? child
        guard (1 < names.count name)
        return {
          severity := .error
          message := "Duplicate " ++ a.typeName child ++ " '" ++ name ++ "'."
          range := Diagnostic.rangeOn a child (some "name") none
          code := some "duplicate-name" } }

/-- Every linked reference of a node is resolved (`ReferencesResolved`). -/
def referencesResolved : Check where
  id := "references-resolved"
  description := "Report references that could not be resolved"
  run a _ id :=
    let references := (((a.node? id).map (·.references)).getD []).filterMap a.reference?
    { reports := references.filterMap fun r =>
        match r.resolution, r.place with
        | some (.unresolved message), some place =>
          some {
            severity := .error
            message
            range := Diagnostic.rangeOn a id (some place.feature) place.index
            code := some DiagnosticCode.linking }
        | _, _ => none }

end Workbench.Check
