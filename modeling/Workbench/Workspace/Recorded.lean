import Workbench.Workspace

/-!
**Documents as they are kept.**

A document keeps its state and the products of its phases in fields of their own. A phase computes a product
and sets one field (`set_parsed`, `set_exports`, `set_local_scopes`, `set_diagnostics`), and the state is
moved on after that (`advance`); going back clears fields one by one (`reset`, `unlink`, `clear_links`).
Nothing in the fields keeps a product from standing in a state that does not have it: it is the steps that
see to it. What is kept is told by the progress of the document, which has the products of a state only.
-/

namespace Workbench.Recorded

/-- A document with its products, each in a field. -/
structure Document where
  version : Int
  text : String
  state : DocumentState := .changed
  parsed : Option ParseResult := none
  exports : List Description := []
  locals : LocalScopes := .empty
  diagnostics : List Diagnostic := []

namespace Document

variable (d : Document)

/-- The references of the document, as far as it is parsed. -/
def references : List Reference :=
  match d.parsed with
  | some result => result.ast.placed.map (·.2)
  | none => []

/-- Whether some linked reference has no target (`has_unresolved_references`). -/
def hasUnresolved : Bool := d.references.any fun r => r.isLinked && !r.isResolved

/-- Whether some reference leads into one of the documents `uris` (`references_into`). -/
def refersInto (uris : List DocumentUri) : Bool :=
  d.references.any fun r => r.target?.any fun target => uris.contains target.uri

/-! ### Going back -/

/-- Drops every product. -/
def reset : Document :=
  { d with state := .changed, parsed := none, exports := [], locals := .empty, diagnostics := [] }

/-- Drops all resolutions, in any state. -/
def clearLinks : Document := { d with parsed := d.parsed.map ParseResult.unlink }

/-- Drops what comes from linking. A document that has not been linked stays as it is. -/
def unlink : Document :=
  if d.state ≤ .scoped then d
  else { d.clearLinks with diagnostics := [], state := .scoped }

/-- Replaces the text. -/
def setText (version : Int) (text : String) : Document := { d with version, text }.reset

/-- Edits the text (`apply_changes`). -/
def applyChanges (version : Int) (edits : List Text.Edit) : Document :=
  { d with version, text := edits.foldl (fun text (e : Text.Edit) => e.apply text) d.text }.reset

/-! ### Going on -/

def setParsed (result : ParseResult) : Document := { d with parsed := some result }

def setExports (exports : List Description) : Document := { d with exports }

def setLocals (locals : LocalScopes) : Document := { d with locals }

def setDiagnostics (diagnostics : List Diagnostic) : Document := { d with diagnostics }

def advance (state : DocumentState) : Document := { d with state }

/-- The diagnostics as an editor shows them. -/
def editorDiagnostics (uri : DocumentUri) : List EditorDiagnostic :=
  d.diagnostics.map (EditorDiagnostic.ofDiagnostic uri d.text.toList)

end Document

/-- A workspace of such documents. -/
structure Workspace where
  language : Language
  options : ValidationOptions := {}
  documents : UriMap Document := .empty
  index : UriMap (List Description) := .empty
  generation : Nat := 0
  fired : Bool := false
  shutDown : Bool := false

namespace Workspace

/-- The indexed descriptions of a name. -/
def exported (w : Workspace) (name : String) : List Description :=
  w.index.values.flatMap (Linking.named · name)

/-! ### Invalidation -/

/-- Resets a document that has changed, and takes its exports out of the index. -/
def forget (w : Workspace) (uri : DocumentUri) : Workspace :=
  { w with documents := w.documents.modify uri Document.reset, index := w.index.erase uri }

/-- Removes a document. -/
def remove (w : Workspace) (uri : DocumentUri) : Workspace :=
  { w with documents := w.documents.erase uri, index := w.index.erase uri }

/-- Unlinks a document that may now resolve differently, and makes a note of it. -/
def relink (touched : List DocumentUri) (relinked : Workspace × List DocumentUri) (uri : DocumentUri) :
    Workspace × List DocumentUri :=
  let (w, noted) := relinked
  if touched.contains uri then (w, noted)
  else
    match w.documents.get? uri with
    | none => (w, noted)
    | some d =>
      if DocumentState.scoped < d.state && (d.refersInto touched || d.hasUnresolved) then
        ({ w with documents := w.documents.modify uri Document.unlink }, noted ++ [uri])
      else (w, noted)

/-- Resets the documents `changed`, removes the documents `deleted`, and goes through all others to unlink
those that may now resolve differently (`invalidate`). -/
def invalidate (w : Workspace) (changed deleted : List DocumentUri) : Workspace × Invalidation :=
  let w := changed.foldl forget w
  let w := deleted.foldl remove w
  let touched := changed ++ deleted
  let (w, relinked) := if touched.isEmpty then (w, []) else w.documents.keys.foldl (relink touched) (w, [])
  (w, { changed := changed ++ relinked, deleted })

/-! ### Changes of texts -/

/-- Changes the text of a document, and stops the current build (`apply`). -/
def apply (w : Workspace) (uri : DocumentUri) (change : Change) : Except BuildError (Workspace × Invalidation) :=
  match change, w.documents.get? uri with
  | .set version text, some d =>
    .ok ({ w with
      fired := true
      documents := w.documents.insert uri (d.setText version text) }.invalidate [uri] [])
  | .set version text, none =>
    .ok ({ w with fired := true, documents := w.documents.insert uri { version, text } }.invalidate [uri] [])
  | .edit version edits, some d =>
    .ok ({ w with
      fired := true
      documents := w.documents.insert uri (d.applyChanges version edits) }.invalidate [uri] [])
  | .edit _ _, none => .error .documentNotFound

/-! ### Builds -/

/-- Begins a build. -/
def begin (w : Workspace) (changed deleted : List DocumentUri) : Except BuildError (Workspace × Invalidation) :=
  if w.shutDown then .error .cancelled
  else .ok ({ w with generation := w.generation + 1, fired := false }.invalidate changed deleted)

/-- Stops the current build, and refuses all later ones. -/
def shutdown (w : Workspace) : Workspace := { w with shutDown := true, fired := true }

/-- Whether the token of a generation has fired. -/
def hasFired (w : Workspace) (generation : Nat) : Bool := w.fired || generation != w.generation

/-- What a phase leaves: the index, the document, and whether it was stopped. -/
structure Run where
  index : UriMap (List Description)
  document : Document
  stopped : Bool := false

/-- Carries out a phase for a document, field by field (`run_phase`). It reads `token` on the way. -/
def runPhase (w : Workspace) (options : ValidationOptions) (phase : Phase) (uri : DocumentUri) (d : Document)
    (token : Cancellation) : Run :=
  match phase with
  | .parse => ⟨w.index, d.setParsed (w.language.parse d.text), false⟩
  | .index =>
    let computed :=
      match d.parsed with
      | some parsed => w.language.exports parsed.ast uri token
      | none => .ok ([], token)
    match computed with
    | .ok (exports, _) => ⟨w.index.insert uri exports, d.setExports exports, false⟩
    | .error _ => ⟨w.index, d, true⟩
  | .scope =>
    match d.parsed with
    | none => ⟨w.index, d, false⟩
    | some parsed =>
      match w.language.localScopes parsed.ast uri token with
      | .ok (locals, _) => ⟨w.index, d.setLocals locals, false⟩
      | .error _ => ⟨w.index, d, true⟩
  | .link =>
    -- an interrupted link may have left some references linked
    let d := d.clearLinks
    match d.parsed with
    | none => ⟨w.index, d, false⟩
    | some parsed =>
      let linked := Linking.link { locals := d.locals, exported := w.exported } parsed.ast token
      let d := d.setParsed { parsed with ast := linked.ast }
      match linked.outcome with
      | .ok _ => ⟨w.index, d, false⟩
      | .error _ => ⟨w.index, d, true⟩
  | .validate =>
    let computed :=
      match d.parsed with
      | some parsed => w.language.validate parsed uri options token
      | none => .ok ([], token)
    match computed with
    | .ok (diagnostics, _) => ⟨w.index, d.setDiagnostics diagnostics, false⟩
    | .error _ => ⟨w.index, d, true⟩

/-- Takes a document through a phase, if it is ready for it. Its state moves on if nothing has stopped the
phase. -/
def visit (w : Workspace) (options : ValidationOptions) (phase : Phase) (uri : DocumentUri)
    (token : Cancellation) : Workspace × Workbench.Workspace.Visit :=
  match w.documents.get? uri with
  | none => (w, .passed)
  | some d =>
    if d.state = phase.source then
      let ran := w.runPhase options phase uri d token
      let kept (d : Document) : Workspace :=
        { w with index := ran.index, documents := w.documents.insert uri d }
      if ran.stopped then (kept ran.document, .cancelled)
      else (kept (ran.document.advance phase.target), .advanced)
    else (w, .passed)

end Workspace

/-- Starts to build what is in a workspace now, under the token of a generation. -/
def startBuild (w : Workspace) (generation : Nat) : Build where
  generation := generation
  options := w.options
  agenda := Build.agendaOf w.documents.keys

/-- Carries out the first task of a build (`build`). -/
def stepBuild (b : Build) (w : Workspace) (token : Cancellation) : Workspace × BuildStep :=
  match b.agenda with
  | [] => (w, .complete)
  | .finish phase :: agenda => (w, .ended phase b.advanced { b with agenda, advanced := [] })
  | .visit phase uri :: agenda =>
    if w.hasFired b.generation then (w, .cancelled)
    else
      match w.visit b.options phase uri token with
      | (w, .advanced) => (w, .continues { b with agenda, advanced := b.advanced ++ [uri] })
      | (w, .passed) => (w, .continues { b with agenda })
      | (w, .cancelled) => (w, .cancelled)

end Workbench.Recorded
