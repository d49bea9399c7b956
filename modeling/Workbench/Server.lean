import Workbench.Disk
import Workbench.DomainModel
import Workbench.Session
import Workbench.Settings

/-!
**An editor server.**

A server keeps a session of the domain model language in step with an editor: it takes over the texts
of open documents, rebuilds the workspace, and answers requests. Opening, saving and closing rebuild
at once; a change while typing schedules a build, so that the build waits for a pause.

Files that change outside the editor are read again from disk. The requests are those that a
`TesselLanguageServer` answers.
-/

namespace Workbench

/-- What a server sends without being asked. -/
inductive Message where
  /-- Shows an error to the user. -/
  | showError (text : String)
  /-- Replaces the diagnostics shown for a document. -/
  | publish (url : Url) (version : Option Int) (items : List EditorDiagnostic)
deriving DecidableEq, Repr

/-- What happened to a file. -/
inductive FileEvent where
  | written
  | deleted
deriving DecidableEq, Repr

/-- Why a request was refused. -/
inductive RequestError where
  | cancelled
  | contentModified
deriving DecidableEq, Repr

namespace RequestError

/-- The number of an error in the editor protocol. -/
def code : RequestError → Int
  | .cancelled => -32800
  | .contentModified => -32801

def message : RequestError → String
  | .cancelled => "request cancelled"
  | .contentModified => "document changed during the request"

end RequestError

/-- A place in a document. -/
structure Location where
  url : Url
  range : Text.PositionRange
deriving DecidableEq, Repr

structure Server where
  settings : Settings
  session : Session
  disk : Disk := {}
  /-- What was sent and not yet delivered. -/
  outbox : List Message := []

namespace Server

/-! ### What a server is -/

def name : String := "tessel-lsp"

def version : String := "1.0.0"

/-- A server started with some options. -/
def start (options : Option OptionValue) : Server :=
  let settings := Settings.ofOptions options
  { settings
    session := {
      workspace := { language := DomainModel.language, options := settings.validationOptions } } }

/-! ### Messages -/

def send (s : Server) (m : Message) : Server := { s with outbox := s.outbox ++ [m] }

/-- The message that publishes the diagnostics of a document that is validated (`publish_diagnostics`). -/
def publication? (w : Workspace) (uri : DocumentUri) : Option Message := do
  let url ← Url.parse? uri
  let d ← w.documents.get? uri
  if d.state = .validated then
    return .publish url (some d.version) (d.editorDiagnostics uri)
  else none

/-- The documents that were validated, by what the listeners heard. -/
def validated (events : List Event) : List DocumentUri :=
  events.flatMap fun
    | .phase .validate uris => uris
    | _ => []

/-- Takes over a session. If the settings say so, the diagnostics of every document that was
validated are published. -/
def takeOver (s : Server) (session : Session) : Server :=
  let (session, events) := session.takeEvents
  let messages :=
    if s.settings.pushDiagnostics then
      (validated events).filterMap (publication? session.workspace)
    else []
  { s with session, outbox := s.outbox ++ messages }

/-- Takes the messages sent since the last time. -/
def takeMessages (s : Server) : Server × List Message := ({ s with outbox := [] }, s.outbox)

/-! ### Documents -/

def tooLargeText (size limit : Nat) : String :=
  "Document too large: " ++ size.repr ++ " bytes exceeds maximum of " ++ limit.repr ++ " bytes (" ++
    (limit / (1024 * 1024)).repr ++ " MB)"

def isTooLarge (s : Server) (text : String) : Bool :=
  decide (s.settings.maxDocumentSize < text.utf8ByteSize)

/-- Tells the user that a text is too large (`reject_too_large`). -/
def refuse (s : Server) (text : String) : Server :=
  s.send (.showError (tooLargeText text.utf8ByteSize s.settings.maxDocumentSize))

/-- Changes the text of a document, and builds nothing. -/
def apply (s : Server) (uri : DocumentUri) (change : Change) : Server × Except BuildError Nat :=
  let (session, outcome) := s.session.apply uri change
  (s.takeOver session, outcome)

/-- Builds the workspace without the documents `deleted` (`rebuild`). -/
def rebuild (s : Server) (deleted : List DocumentUri) : Server :=
  s.takeOver (s.session.update [] deleted).1

/-- The version of a document; `0` if it is not there. -/
def versionOf (s : Server) (uri : DocumentUri) : Int :=
  ((s.session.workspace.documents.get? uri).map (·.version)).getD 0

/-- The editor opened a document (`did_open`). -/
def opened (s : Server) (url : Url) (version : Int) (text : String) : Server :=
  if s.isTooLarge text then s.refuse text
  else (s.apply url.uri (.set version text)).1.rebuild []

/-- The editor changed a document (`did_change`). A change of a document that is not there is ignored. -/
def changed (s : Server) (url : Url) (version : Int) (edits : List Text.Edit) : Server :=
  match s.apply url.uri (.edit version edits) with
  | (s, .ok _) => s.takeOver (s.session.schedule s.settings.debounceMs)
  | (s, .error _) => s

/-- The editor saved a document, and may have sent its text (`did_save`). -/
def saved (s : Server) (url : Url) : Option String → Server
  | some text =>
    if s.isTooLarge text then s.refuse text
    else (s.apply url.uri (.set (s.versionOf url.uri) text)).1.rebuild []
  | none => s.rebuild []

/-- The editor closed a document (`did_close`). It leaves the workspace, and nothing is shown for it any
more. -/
def closed (s : Server) (url : Url) : Server :=
  (s.rebuild [url.uri]).send (.publish url none [])

/-! ### Files -/

/-- The text of the file that a URL names. -/
def read? (s : Server) (url : Url) : Option String := url.localPath?.bind s.disk.read?

def writeFile (s : Server) (path text : String) : Server := { s with disk := s.disk.write path text }

def deleteFile (s : Server) (path : String) : Server := { s with disk := s.disk.delete path }

/-- What came of looking at files. -/
structure Reloading where
  server : Server
  reloaded : Bool := false
  deleted : List DocumentUri := []

/-- Looks at a file after an event: notes a deletion, or reads the text again. -/
def reload (r : Reloading) (url : Url) : FileEvent → Reloading
  | .deleted =>
    if r.server.session.workspace.documents.contains url.uri then
      { r with deleted := r.deleted ++ [url.uri] }
    else r
  | .written =>
    if r.server.session.workspace.language.handles url.uri then
      match r.server.read? url with
      | none => r
      | some text =>
        if r.server.isTooLarge text then { r with server := r.server.refuse text }
        else
          let change := Change.set (r.server.versionOf url.uri) text
          { r with server := (r.server.apply url.uri change).1, reloaded := true }
    else r

/-- Files changed outside the editor (`did_change_watched_files`). -/
def watched (s : Server) (events : List (Url × FileEvent)) : Server :=
  let r := events.foldl (fun r (url, e) => reload r url e) ({ server := s } : Reloading)
  if r.reloaded || !r.deleted.isEmpty then r.server.rebuild r.deleted else r.server

/-! ### Requests -/

/-- Lets time pass. -/
def sleep (s : Server) (ms : Nat) : Server := s.takeOver (s.session.sleep ms)

def shutdown (s : Server) : Server := s.takeOver s.session.shutdown

/-- Reports the diagnostics of a document; none, if it is not there (`diagnostic`). -/
def diagnostics (s : Server) (url : Url) (previous : Option String) :
    Server × Except RequestError (Option ReportAnswer) :=
  let (session, outcome) := s.session.pull url.uri previous none
  let answer :=
    match outcome with
    | .ok answer => .ok (some answer)
    | .error .documentNotFound => .ok none
    | .error .cancelled => .error .cancelled
    | .error .interrupted => .error .contentModified
  (s.takeOver session, answer)

/-- The declaration to which the reference at a position leads (`target_at`). -/
def targetAt? (w : Workspace) (uri : DocumentUri) (p : Text.Position) : Option Description := do
  let d ← w.documents.get? uri
  if d.state < .linked then none
  let result ← d.progress.result?
  let id ← result.ast.referenceAt? (Text.offsetOf d.text.toList p)
  let reference ← result.ast.reference? id
  reference.target?

/-- Where a declaration stands now (`location_of`). -/
def locationOf? (w : Workspace) (target : Description) : Option Location := do
  let url ← Url.parse? target.uri
  let d ← w.documents.get? target.uri
  return { url, range := (target.nameRange.map (Text.positionRangeOf d.text.toList)).getD default }

/-- Where the declaration stands to which the reference at a position leads (`goto_definition`). -/
def definition? (s : Server) (url : Url) (p : Text.Position) : Option Location :=
  (targetAt? s.session.workspace url.uri p).bind (locationOf? s.session.workspace)

end Server

end Workbench
