import Workbench.Ast
import Workbench.Grammar.Lookahead
import Workbench.Parser.Stream

/-!
**Parse states.**

A parser works on one rule invocation at a time. The *frame* of an invocation holds what it has built
so far: the object of a parser rule, or the text of a data-type rule, and the source trees of the
tokens taken. The nodes, references and errors of the document are shared by all invocations.

After an error the parser is *recovering*: it reports nothing more until a token matches. The steps are
those of a `Run`, each as one function on states.
-/

namespace Workbench

/-- Bounds on what a parser takes on. -/
structure Limits where
  maxRuleDepth : Nat := 512
  maxTokens : Nat := 10000000
deriving DecidableEq, Repr

/-- As good as no bounds: the largest number of 64 bits for each (`unlimited`). -/
def Limits.unlimited : Limits := ⟨Nat.pow 2 64 - 1, Nat.pow 2 64 - 1⟩

/-! ### Errors -/

/-- What went wrong at a token. -/
inductive ParseProblem where
  | missingKeyword (text : String)
  | missingToken (rule : String)
  | noAlternative (expected : FirstSet)
  | trailingInput
  | tooDeep (limit : Nat)
  | tooManyTokens (limit : Nat)
deriving DecidableEq, Repr

/-- A problem with the place where it was found. -/
structure ParseError where
  problem : ParseProblem
  range : TextRange
  /-- The text of the token found, if there was one. -/
  token : Option String
  /-- The rule under way. -/
  rule : Option String
deriving DecidableEq, Repr

namespace ParseError

/-- The token found, in words (`found`). -/
def found (e : ParseError) : String :=
  match e.token with
  | some image => "`" ++ image ++ "`"
  | none => "end of file"

def message (e : ParseError) : String :=
  match e.problem with
  | .missingKeyword text => "Expecting keyword '" ++ text ++ "' but found " ++ e.found ++ "."
  | .missingToken rule => "Expecting token of type '" ++ rule ++ "' but found " ++ e.found ++ "."
  | .noAlternative expected =>
    "Expecting one of " ++ expected.render ++ " but found " ++ e.found ++ "."
  | .trailingInput => "Expecting end of file but found " ++ e.found ++ "."
  | .tooDeep limit => "Maximum rule nesting depth of " ++ toString limit ++ " exceeded"
  | .tooManyTokens limit => "Document exceeds the maximum of " ++ toString limit ++ " tokens"

end ParseError

/-- Turns of a run that leave no trace in its result: that the depth limit was met, and the cases
that a checked grammar rules out. -/
inductive Incident where
  | depthLimit
  | unknownRule
  | strayCrossRef
  | unassignable
  | assignmentOutsideObject
  | adoptionOutsideObject
  | actionOutsideObject
  | nodeAsReferenceText
deriving DecidableEq, Repr

/-! ### Frames and states -/

/-- A node under construction (`Object`). -/
structure Object where
  /-- Declared by the rule, or learnt from an action or a call. -/
  type : Option TypeId
  properties : Properties := .empty
  /-- The place in the list of nodes that the object takes over. -/
  slot : Option NodeId := none
  /-- Whether an action has settled the type. -/
  retagged : Bool := false
deriving Repr, Inhabited

/-- What a rule invocation builds (`Frame`). -/
inductive Content where
  | object (o : Object)
  | text (s : String)
deriving Repr, Inhabited

/-- A rule invocation under way. -/
structure Frame where
  rule : RuleId
  content : Content
  children : Array SourceTree := #[]
deriving Repr, Inhabited

/-- The frame of a rule that is about to run. -/
def Frame.enter (id : RuleId) (kind : RuleKind) : Frame :=
  match kind with
  | .parser returns => { rule := id, content := .object { type := returns } }
  | _ => { rule := id, content := .text "" }

/-- What does not change during a run. -/
structure Plan where
  grammar : Grammar
  lookahead : Lookahead
  limits : Limits
  /-- The offset just after the last token of the input. -/
  textEnd : Nat

/-- What changes during a run (`Run`). -/
structure State where
  stream : TokenStream
  frame : Frame
  nodes : Array AstNode := #[]
  references : Array Reference := #[]
  errors : Array ParseError := #[]
  recovering : Bool := false
  incidents : List Incident := []

namespace State

def note (incident : Incident) (s : State) : State :=
  { s with incidents := incident :: s.incidents }

/-- Adds trees to the invocation under way. -/
def attach (trees : List SourceTree) (s : State) : State :=
  { s with frame := { s.frame with children := s.frame.children ++ trees.toArray } }

/-! ### Tokens -/

/-- Takes the next visible token, and the hidden ones in front of it (`consume`). -/
def consume (feature : Option String) (s : State) : State × Option Token :=
  match s.stream.next? with
  | none => (s, none)
  | some (hidden, token, rest) =>
    let trees := hidden.map (SourceTree.leaf · none) ++ [SourceTree.leaf token feature]
    (({ s with stream := rest }).attach trees, some token)

/-- The hidden tokens at the end of the input join the invocation under way (`flush_hidden`). -/
def flushHidden (s : State) : State :=
  s.attach (s.stream.hiddenFront.map (SourceTree.leaf · none))

/-! ### Reporting -/

/-- The range of the next visible token (`current_range`). -/
def currentRange (plan : Plan) (s : State) : TextRange :=
  match s.stream.peek? with
  | some token => token.range
  | none => .empty plan.textEnd

def nextOffset (plan : Plan) (s : State) : Nat :=
  match s.stream.peek? with
  | some token => token.offset
  | none => plan.textEnd

/-- Records an error at the next visible token (`push_error`). -/
def record (plan : Plan) (problem : ParseProblem) (s : State) : State :=
  let error : ParseError := {
    problem
    range := s.currentRange plan
    token := s.stream.peek?.map (·.image)
    rule := plan.grammar.rules[s.frame.rule]?.map (·.name) }
  { s with errors := s.errors.push error }

/-- Records an error, unless it follows from one already recorded (`error`). -/
def raise (plan : Plan) (problem : ParseProblem) (s : State) : State :=
  if s.recovering then s else s.record plan problem

/-- Records that none of the expected tokens was found, and starts recovering (`report`). -/
def report (plan : Plan) (expected : FirstSet) (s : State) : State :=
  { s.raise plan (.noAlternative expected) with recovering := true }

/-! ### Matching -/

/-- Takes a token that is accepted. If the next one is not, an error is recorded; a single unexpected
token in front of an accepted one is skipped, and otherwise the token is taken to be missing. -/
def expect (plan : Plan) (accepts : Token → Bool) (problem : ParseProblem)
    (feature : Option String) (s : State) : State × Option Token :=
  if s.stream.peek?.any accepts then ({ s with recovering := false }).consume feature
  else
    let s := s.raise plan problem
    if s.stream.second?.any accepts then
      ({ (s.consume none).1 with recovering := false }).consume feature
    else ({ s with recovering := true }, none)

def expectKeyword (plan : Plan) (text : String) (feature : Option String) (s : State) :
    State × Option Token :=
  s.expect plan (·.isKeyword text) (.missingKeyword text) feature

/-- Takes a token of the kind of the terminal rule named `rule` (`terminal`). -/
def expectKind (plan : Plan) (kind : TokenKind) (rule : String) (feature : Option String)
    (s : State) : State × Option Token :=
  s.expect plan (·.kind == kind) (.missingToken rule) feature

/-! ### Building -/

/-- Adds to the text of a data-type rule. Objects collect no text. -/
def collect (text : String) (s : State) : State :=
  match s.frame.content with
  | .text acc => { s with frame := { s.frame with content := .text (acc ++ text) } }
  | .object _ => s

/-- Changes a feature of the object under construction (`assign`). -/
def assign (feature : String) (op : AssignOp) (value : Value) (s : State) : State :=
  match s.frame.content with
  | .text _ => s.note .assignmentOutsideObject
  | .object o =>
    let properties :=
      match op with
      | .set => o.properties.set feature value
      | .flag => o.properties.set feature (.bool true)
      | .append => o.properties.append feature value
    { s with frame := { s.frame with content := .object { o with properties } } }

/-- The properties of a finished node: lists and truth values that its type declares are there even
if the input did not set them. -/
def withDefaults (types : TypeHierarchy) (type : TypeId) (properties : Properties) : Properties :=
  (types.allProperties type).foldl (fun acc (name, kind) =>
    if acc.contains name then acc
    else
      match kind with
      | .array => acc.set name (.list [])
      | .bool => acc.set name (.bool false)
      | .value => acc) properties

/-- Tells the node or reference in a value where it is held. -/
def hold (place : Place) (value : Value) (s : State) : State :=
  match value with
  | .node id =>
    { s with nodes := s.nodes.modify id fun n => { n with place := some place } }
  | .reference id =>
    { s with references := s.references.modify id fun r => { r with place := some place } }
  | _ => s

/-- Tells all nodes and references in a property where they are held. -/
def holdEntry (holder : NodeId) (s : State) (entry : String × Value) : State :=
  match entry.2 with
  | .list items =>
    items.zipIdx.foldl (fun s (item, i) => s.hold ⟨holder, entry.1, some i⟩ item) s
  | value => s.hold ⟨holder, entry.1, none⟩ value

/-- Finishes a node of a known type, in the place of `slot` or as a new one (`construct_typed`). -/
def construct (plan : Plan) (type : TypeId) (properties : Properties) (slot : Option NodeId)
    (source : Option SourceTree) (s : State) : State × NodeId :=
  let properties := withDefaults plan.grammar.types type properties
  let id := slot.getD s.nodes.size
  let node : AstNode := { type, properties, source := source.map (·.withOwner (some id)) }
  let nodes :=
    match slot with
    | some slot => s.nodes.setIfInBounds slot node
    | none => s.nodes.push node
  (properties.entries.foldl (holdEntry id) { s with nodes }, id)

/-- Finishes an object (`construct`). One that never learnt its type is dropped. -/
def constructObject (plan : Plan) (o : Object) (source : Option SourceTree) (s : State) :
    State × Option NodeId :=
  match o.type with
  | none => (s, none)
  | some type =>
    let (s, id) := s.construct plan type o.properties o.slot source
    (s, some id)

/-- Makes a finished node the object under construction (`adopt`). It keeps what was collected before: gaps
are filled, lists are joined with the earlier items in front. -/
def adopt (id : NodeId) (s : State) : State :=
  match s.frame.content, s.nodes[id]? with
  | .object o, some node =>
    let object : Object := {
      o with
      type := some node.type
      properties := node.properties.fillFrom o.properties
      slot := some id }
    { s with
      frame := { s.frame with content := .object object }
      nodes := s.nodes.setIfInBounds id { node with properties := .empty, source := none } }
  | _, _ => s.note .adoptionOutsideObject

/-- Gives the object under construction a type, unless an action has done so before (`action`). -/
def retag (type : TypeId) (s : State) : State :=
  match s.frame.content with
  | .text _ => s.note .actionOutsideObject
  | .object o =>
    if o.retagged then s
    else
      let object := { o with type := some type, retagged := true }
      { s with frame := { s.frame with content := .object object } }

/-- Puts all trees of the invocation under way into one branch (`wrap_children`). -/
def wrapChildren (feature : String) (frame : Frame) : Option SourceTree :=
  match frame.children.toList with
  | [] => none
  | t :: rest => some (.close frame.rule (some feature) t.range.start (t :: rest))

/-- Finishes the object under construction and starts a new one that holds it (`action`). -/
def wrap (plan : Plan) (type : TypeId) (feature : String) (op : AssignOp) (s : State) : State :=
  match s.frame.content with
  | .text _ => s.note .actionOutsideObject
  | .object o =>
    let wrapped := wrapChildren feature s.frame
    let (s, built) := s.constructObject plan o wrapped
    let frame : Frame := {
      s.frame with
      content := .object { type := some type, retagged := true }
      children :=
        match wrapped with
        | none => s.frame.children
        | some tree => #[match built with | some id => tree.withOwner (some id) | none => tree] }
    let s := { s with frame }
    match built with
    | some id => s.assign feature op (.node id)
    | none => s

end State

end Workbench
