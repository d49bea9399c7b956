import Workbench.Linking
import Workbench.Scope.Scoping
import Workbench.Text.Lowercase
import Workbench.Validation

/-!
**Languages.**

A language bundles a lexer, a parser, a way to compute scopes and a set of checks, each of them its own; there
is one linker for all languages (`DefaultLinker`). `Language.analyze` takes a single text through all of them:
parse, scope, link, validate. A reference that no local scope answers is looked up among the document's own
exports together with what other documents export.
-/

namespace Workbench

structure Language where
  id : String
  extensions : List String
  /-- How a text is cut into tokens. Nothing is asked of it (`TokenSource`). -/
  lexer : String → LexResult
  parser : Parser
  scoping : Scope.Scoping
  registry : Registry

/-- All that is found out about a text. -/
structure Analysis where
  parsed : ParseResult
  exports : List Description
  locals : LocalScopes
  diagnostics : List Diagnostic

namespace Language

/-- The id of a language that is given none. -/
def defaultId (grammar : Grammar) : String := Text.lowercase grammar.name

/-- Builds a language (`build`). A grammar that cannot be parsed with is refused. Without a lexer of its own,
the language has the one for the keywords of its grammar. -/
def build (grammar : Grammar) (limits : Limits) (id : Option String) (extensions : List String)
    (scoping : Scope.Scoping) (registry : Registry) (lexer : Option (String → LexResult) := none) :
    Except Failure Language :=
  match Parser.new grammar limits with
  | .error fault =>
    .error (fault.toFailure.addContext ("while building language '" ++ grammar.name ++ "'"))
  | .ok parser =>
    .ok {
      id := id.getD (defaultId grammar)
      extensions
      lexer := lexer.getD parser.tokenize
      parser
      scoping
      registry }

/-- Whether a document belongs to the language, by the end of its address (`handles`). -/
def handles (l : Language) (uri : DocumentUri) : Bool :=
  l.extensions.any fun e => ("." ++ e).toList.isSuffixOf uri.toList

def parse (l : Language) (text : String) : ParseResult := l.parser.parse (l.lexer text)

def exports (l : Language) (a : Ast) (uri : DocumentUri) : Cancellable (List Description) :=
  l.scoping.exports a uri

def localScopes (l : Language) (a : Ast) (uri : DocumentUri) : Cancellable LocalScopes :=
  l.scoping.localScopes a uri

/-- Links a parsed text. -/
def link (cx : LinkContext) (parsed : ParseResult) : Cancellable ParseResult := fun token =>
  let linked := Linking.link cx parsed.ast token
  match linked.outcome with
  | .error e => .error e
  | .ok (_, token) => .ok ({ parsed with ast := linked.ast }, token)

def validate (l : Language) (parsed : ParseResult) (uri : DocumentUri) (o : ValidationOptions) :
    Cancellable (List Diagnostic) :=
  Validation.validate l.registry parsed uri o

/-- Takes a text through all phases (`analyze`). `exported` gives what other documents export under a name. -/
def analyze (l : Language) (uri : DocumentUri) (text : String)
    (exported : String → List Description) (o : ValidationOptions) : Cancellable Analysis := do
  let parsed := l.parse text
  Cancellable.checkpoint
  let exports ← l.exports parsed.ast uri
  let locals ← l.localScopes parsed.ast uri
  let cx : LinkContext := {
    locals
    exported := fun name => Linking.named exports name ++ exported name }
  let parsed ← link cx parsed
  let diagnostics ← l.validate parsed uri o
  return { parsed, exports, locals, diagnostics }

end Language

end Workbench
