import Workbench.EditorDiagnostic
import Workbench.Language

/-!
**Documents of a workspace.**

A document is built in five phases: it is parsed, its exports are put into the index, its local scopes
are computed, its references are linked, and it is validated. `Progress` holds the products of the
phases that are done, so that a document has no product of a phase it has not been through.

There are two ways back. A change of the text drops every product. A change elsewhere that may let
references resolve differently only drops what comes from linking: the resolutions and the diagnostics. The
fields that a `Document` really keeps, and the steps that set them, are those of `Recorded.Document`.
-/

namespace Workbench

/-- How far a document is built. -/
inductive DocumentState where
  | changed
  | parsed
  | indexed
  | scoped
  | linked
  | validated
deriving DecidableEq, Repr

namespace DocumentState

def all : List DocumentState := [.changed, .parsed, .indexed, .scoped, .linked, .validated]

/-- The place of a state in the order of building. -/
def rank : DocumentState → Nat
  | .changed => 0
  | .parsed => 1
  | .indexed => 2
  | .scoped => 3
  | .linked => 4
  | .validated => 5

instance : LE DocumentState := ⟨fun a b => a.rank ≤ b.rank⟩

instance : LT DocumentState := ⟨fun a b => a.rank < b.rank⟩

instance (a b : DocumentState) : Decidable (a ≤ b) := inferInstanceAs (Decidable (a.rank ≤ b.rank))

instance (a b : DocumentState) : Decidable (a < b) := inferInstanceAs (Decidable (a.rank < b.rank))

def label : DocumentState → String
  | .changed => "changed"
  | .parsed => "parsed"
  | .indexed => "indexed"
  | .scoped => "scoped"
  | .linked => "linked"
  | .validated => "validated"

end DocumentState

/-- A phase of a build. -/
inductive Phase where
  | parse
  | index
  | scope
  | link
  | validate
deriving DecidableEq, Repr

namespace Phase

/-- The phases in the order in which they run. -/
def all : List Phase := [.parse, .index, .scope, .link, .validate]

/-- The state in which a document is ready for a phase. -/
def source : Phase → DocumentState
  | .parse => .changed
  | .index => .parsed
  | .scope => .indexed
  | .link => .scoped
  | .validate => .linked

/-- The state to which a phase takes a document. -/
def target : Phase → DocumentState
  | .parse => .parsed
  | .index => .indexed
  | .scope => .scoped
  | .link => .linked
  | .validate => .validated

end Phase

/-- What has been built of a document. In `scoped`, some references may be linked already, if linking
was interrupted. -/
inductive Progress where
  | changed
  | parsed (result : ParseResult)
  | indexed (result : ParseResult) (exports : List Description)
  | scoped (result : ParseResult) (exports : List Description) (locals : LocalScopes)
  | linked (result : ParseResult) (exports : List Description) (locals : LocalScopes)
  | validated (result : ParseResult) (exports : List Description) (locals : LocalScopes)
      (diagnostics : List Diagnostic)

namespace Progress

def state : Progress → DocumentState
  | .changed => .changed
  | .parsed .. => .parsed
  | .indexed .. => .indexed
  | .scoped .. => .scoped
  | .linked .. => .linked
  | .validated .. => .validated

def result? : Progress → Option ParseResult
  | .changed => none
  | .parsed result => some result
  | .indexed result _ => some result
  | .scoped result _ _ => some result
  | .linked result _ _ => some result
  | .validated result _ _ _ => some result

def exports : Progress → List Description
  | .changed => []
  | .parsed _ => []
  | .indexed _ exports => exports
  | .scoped _ exports _ => exports
  | .linked _ exports _ => exports
  | .validated _ exports _ _ => exports

def locals : Progress → LocalScopes
  | .scoped _ _ locals => locals
  | .linked _ _ locals => locals
  | .validated _ _ locals _ => locals
  | _ => .empty

def diagnostics : Progress → List Diagnostic
  | .validated _ _ _ diagnostics => diagnostics
  | _ => []

/-- Drops what comes from linking (`unlink`). A document that has not been linked stays as it is. -/
def unlink : Progress → Progress
  | .linked result exports locals => .scoped result.unlink exports locals
  | .validated result exports locals _ => .scoped result.unlink exports locals
  | p => p

end Progress

/-- A document of a workspace. -/
structure Document where
  version : Int
  text : String
  progress : Progress := .changed

namespace Document

def state (d : Document) : DocumentState := d.progress.state

def byteSize (d : Document) : Nat := d.text.utf8ByteSize

/-- The references of the document, as far as it is parsed. -/
def references (d : Document) : List Reference :=
  match d.progress.result? with
  | some result => result.ast.placed.map (·.2)
  | none => []

/-- Whether some linked reference has no target (`has_unresolved_references`). -/
def hasUnresolved (d : Document) : Bool :=
  d.references.any fun r => r.isLinked && !r.isResolved

/-- Whether some reference leads into one of the documents `uris` (`references_into`). -/
def refersInto (d : Document) (uris : List DocumentUri) : Bool :=
  d.references.any fun r => r.target?.any fun target => uris.contains target.uri

/-- Whether a change of the documents `touched` may let references of this one resolve differently:
it has been linked, and a reference leads into one of them or had no target. -/
def isAffectedBy (d : Document) (touched : List DocumentUri) : Bool :=
  decide (DocumentState.scoped < d.state) && (d.refersInto touched || d.hasUnresolved)

/-- Drops every product (`reset`). -/
def reset (d : Document) : Document := { d with progress := .changed }

/-- Drops what comes from linking. -/
def unlink (d : Document) : Document := { d with progress := d.progress.unlink }

/-- The diagnostics as an editor shows them (`document_diagnostics`). -/
def editorDiagnostics (d : Document) (uri : DocumentUri) : List EditorDiagnostic :=
  d.progress.diagnostics.map (EditorDiagnostic.ofDiagnostic uri d.text.toList)

end Document

end Workbench
