import Workbench.UriMap
import Workbench.Workspace.Document

/-!
**Workspaces.**

A workspace holds documents and the index of what they export, and takes the documents through the
phases of a build. Every phase is carried out document by document; between any two of them the
workspace may change, so a build works under a token: its generation. A change of a text fires the
token of the current generation, and a new build opens a new generation. Either way a build that runs
under an older token stops at its next document.

A change of some documents is passed on to the documents that may now resolve differently
(`Workspace.invalidate`): those are unlinked, and the next build links them again. The operations are those
of a `DocumentBuilder`: `apply`, `invalidate`, `run_update`, `build` and `run_phase`.
-/

namespace Workbench

/-- Why a document was not built as far as it was wanted. -/
inductive BuildError where
  | cancelled
  | documentNotFound
  /-- No build is on its way any more. -/
  | interrupted
deriving DecidableEq, Repr

def BuildError.message : BuildError → String
  | .cancelled => "operation cancelled"
  | .documentNotFound => "document not found"
  | .interrupted => "document build was interrupted"

/-- A new text of a document (`DocumentChange`). -/
inductive Change where
  /-- Replaces the text; a document that is not there is created. -/
  | set (version : Int) (text : String)
  /-- Edits the text of a document that is there. -/
  | edit (version : Int) (edits : List Text.Edit)
deriving DecidableEq, Repr

/-- What has been invalidated: the documents that changed or were unlinked, and those deleted. -/
structure Invalidation where
  changed : List DocumentUri
  deleted : List DocumentUri
deriving DecidableEq, Repr

/-- All addresses that an invalidation concerns. -/
def Invalidation.touched (i : Invalidation) : List DocumentUri := i.changed ++ i.deleted

structure Workspace where
  language : Language
  options : ValidationOptions := {}
  documents : UriMap Document := .empty
  /-- The exports of the documents that are indexed. -/
  index : UriMap (List Description) := .empty
  /-- The number of builds begun so far; the last one is current. -/
  generation : Nat := 0
  /-- Whether the token of the current generation has fired. -/
  fired : Bool := false
  shutDown : Bool := false

namespace Workspace

/-- The state of a document. -/
def state? (w : Workspace) (uri : DocumentUri) : Option DocumentState :=
  (w.documents.get? uri).map (·.state)

/-- The indexed descriptions of a name (`lookup`). -/
def exported (w : Workspace) (name : String) : List Description :=
  w.index.values.flatMap (Linking.named · name)

/-- The indexed exports of a document. -/
def exportsOf (w : Workspace) (uri : DocumentUri) : List Description :=
  (w.index.get? uri).getD []

/-- The number of indexed descriptions. -/
def indexSize (w : Workspace) : Nat := w.index.values.flatten.length

/-- The documents into which references of a document lead. -/
def dependencies (w : Workspace) (d : Document) : List DocumentUri :=
  w.documents.keys.filter fun uri => d.refersInto [uri]

/-! ### Invalidation -/

/-- The documents that a change of others lets resolve differently. -/
def affected (documents : UriMap Document) (touched : List DocumentUri) : List DocumentUri :=
  if touched.isEmpty then []
  else
    (documents.entries.filter fun (uri, d) =>
      !touched.contains uri && d.isAffectedBy touched).map (·.1)

/-- Resets the documents `changed`, removes the documents `deleted`, and unlinks every document that may now
resolve differently (`invalidate`). -/
def invalidate (w : Workspace) (changed deleted : List DocumentUri) : Workspace × Invalidation :=
  let documents :=
    (w.documents.map fun uri d => if changed.contains uri then d.reset else d).eraseAll deleted
  let unlinked := affected documents (changed ++ deleted)
  ({ w with
      documents := documents.map fun uri d => if unlinked.contains uri then d.unlink else d
      index := w.index.eraseAll (changed ++ deleted) },
    { changed := changed ++ unlinked, deleted })

/-! ### Changes of texts -/

/-- The document after a change, if the change can be made. -/
def changed? (d : Option Document) : Change → Option Document
  | .set version text => some { version, text }
  | .edit version edits =>
    d.map fun d => { version, text := edits.foldl (fun text e => e.apply text) d.text }

/-- Changes the text of a document (`apply`). The current build is stopped; the document is not rebuilt. -/
def apply (w : Workspace) (uri : DocumentUri) (change : Change) :
    Except BuildError (Workspace × Invalidation) :=
  match changed? (w.documents.get? uri) change with
  | none => .error .documentNotFound
  | some d =>
    .ok (invalidate { w with fired := true, documents := w.documents.insert uri d } [uri] [])

/-! ### Builds -/

/-- Begins a build: opens a new generation, and invalidates what changed and what was deleted
(`run_update`). A workspace that is shut down begins no build. -/
def begin (w : Workspace) (changed deleted : List DocumentUri) :
    Except BuildError (Workspace × Invalidation) :=
  if w.shutDown then .error .cancelled
  else .ok (invalidate { w with generation := w.generation + 1, fired := false } changed deleted)

/-- Stops the current build, and refuses all later ones. -/
def shutdown (w : Workspace) : Workspace := { w with shutDown := true, fired := true }

/-- Whether the token of a generation has fired. -/
def hasFired (w : Workspace) (generation : Nat) : Bool :=
  w.fired || generation != w.generation

/-- What became of a document that a phase came to. -/
inductive Visit where
  | advanced
  /-- The document was not in the state from which the phase starts, or not there. -/
  | passed
  | cancelled
deriving DecidableEq, Repr

/-- What a phase makes of the products of a document, given the exports of all documents (`run_phase`). It
reads `token` on the way; an interrupted phase may leave some references linked. -/
def advance (w : Workspace) (options : ValidationOptions) (uri : DocumentUri) (text : String)
    (phase : Phase) (progress : Progress) (token : Cancellation) : Progress × Visit :=
  match phase, progress with
  | .parse, .changed => (.parsed (w.language.parse text), .advanced)
  | .index, .parsed result =>
    match w.language.exports result.ast uri token with
    | .ok (exports, _) => (.indexed result exports, .advanced)
    | .error _ => (progress, .cancelled)
  | .scope, .indexed result exports =>
    match w.language.localScopes result.ast uri token with
    | .ok (locals, _) => (.scoped result exports locals, .advanced)
    | .error _ => (progress, .cancelled)
  | .link, .scoped result exports locals =>
    let linked := Linking.link { locals, exported := w.exported } result.ast.unlink token
    let result := { result with ast := linked.ast }
    match linked.outcome with
    | .ok _ => (.linked result exports locals, .advanced)
    | .error _ => (.scoped result exports locals, .cancelled)
  | .validate, .linked result exports locals =>
    match w.language.validate result uri options token with
    | .ok (diagnostics, _) => (.validated result exports locals diagnostics, .advanced)
    | .error _ => (progress, .cancelled)
  | _, _ => (progress, .passed)

/-- Takes a document through a phase, if it is ready for it. A document that is indexed puts its
exports into the index. -/
def visit (w : Workspace) (options : ValidationOptions) (phase : Phase) (uri : DocumentUri)
    (token : Cancellation) : Workspace × Visit :=
  match w.documents.get? uri with
  | none => (w, .passed)
  | some d =>
    match w.advance options uri d.text phase d.progress token with
    | (_, .passed) => (w, .passed)
    | (progress, visit) =>
      let w := { w with documents := w.documents.insert uri { d with progress } }
      match phase, visit with
      | .index, .advanced => ({ w with index := w.index.insert uri progress.exports }, visit)
      | _, _ => (w, visit)

end Workspace

/-! ### Steps of a build -/

/-- One step of a build. -/
inductive Task where
  /-- Takes a document through a phase. -/
  | visit (phase : Phase) (uri : DocumentUri)
  /-- Ends a phase. -/
  | finish (phase : Phase)
deriving DecidableEq, Repr

/-- A build on its way (`build`). It keeps the addresses and options of the workspace as they were when it
started. -/
structure Build where
  generation : Nat
  options : ValidationOptions
  agenda : List Task
  /-- The documents that the phase under way has advanced. -/
  advanced : List DocumentUri := []

/-- What a step of a build leads to. -/
inductive BuildStep where
  | continues (next : Build)
  /-- A phase ended, which has advanced the documents `uris`. -/
  | ended (phase : Phase) (uris : List DocumentUri) (next : Build)
  | cancelled
  | complete

namespace Build

/-- Every phase for all documents before the next phase. -/
def agendaOf (uris : List DocumentUri) : List Task :=
  Phase.all.flatMap fun phase => uris.map (.visit phase) ++ [.finish phase]

/-- Starts to build what is in a workspace now, under the token of a generation. -/
def start (w : Workspace) (generation : Nat) : Build where
  generation := generation
  options := w.options
  agenda := agendaOf w.documents.keys

/-- Carries out the first task of the agenda (`build`). The token of the build is read before each document,
and `token` is what the phase itself reads. -/
def step (b : Build) (w : Workspace) (token : Cancellation) : Workspace × BuildStep :=
  match b.agenda with
  | [] => (w, .complete)
  | .finish phase :: agenda => (w, .ended phase b.advanced { b with agenda, advanced := [] })
  | .visit phase uri :: agenda =>
    if w.hasFired b.generation then (w, .cancelled)
    else
      match w.visit b.options phase uri token with
      | (w, .advanced) => (w, .continues { b with agenda, advanced := b.advanced ++ [uri] })
      | (w, .passed) => (w, .continues { b with agenda })
      | (w, .cancelled) => (w, .cancelled)

end Build

end Workbench
