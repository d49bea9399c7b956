import Workbench.Cst
import Workbench.Parser

/-!
**The parser on its arenas.**

The parser as it keeps its data: the composites, the frames and the rules of all invocations under way lie
on stacks, and the concrete tree, the nodes and the references are lists in which everything is known by
its number. A composite is opened below the one under way before its rule runs, so tokens never move to
another list, except by a tree-rewriting action; and a node knows its composite, as the composite knows its
node.

The interpreter takes the same steps on one frame and on source trees that are values. Both read the same
grammar, and they come to the same tree.
-/

namespace Workbench

namespace Engine

/-- A node of the abstract tree, with the number of its composite. -/
structure Node where
  type : TypeId
  place : Option Place := none
  cst : Option CstId := none
  properties : Properties := .empty
deriving Repr, Inhabited

/-- A reference, with the number of the leaf or composite that is its text. -/
structure Ref where
  text : String
  target : TypeId
  place : Option Place := none
  cst : Option CstId := none
deriving Repr, Inhabited

/-- What changes during a run (`Run`). -/
structure Run where
  stream : TokenStream
  cst : Cst
  composites : List CstId
  frames : List Content
  rules : List RuleId
  nodes : Array Node := #[]
  references : Array Ref := #[]
  errors : Array ParseError := #[]
  recovering : Bool := false

namespace Run

/-! ### Tokens -/

/-- The composite under way (`current_composite`). -/
def top (r : Run) : CstId := r.composites.headD r.cst.root

def addLeaf (token : Token) (feature : Option String) (r : Run) : Run :=
  { r with cst := (r.cst.addLeaf r.top token feature).1 }

/-- The hidden tokens in front of the next visible one become leaves (`flush_hidden`). -/
def flushHidden (r : Run) : Run :=
  r.stream.hiddenFront.foldl (fun r token => r.addLeaf token none) r

/-- Takes the next visible token, and the hidden ones in front of it (`consume`). -/
def consume (feature : Option String) (r : Run) : Run × Option (Token × CstId) :=
  match r.stream.next? with
  | none => (r, none)
  | some (_, token, rest) =>
    let r := r.flushHidden
    let leaf := r.cst.nodes.size
    ({ r.addLeaf token feature with stream := rest }, some (token, leaf))

/-! ### Reporting -/

/-- The range of the next visible token (`current_range`). -/
def currentRange (plan : Plan) (r : Run) : TextRange :=
  match r.stream.peek? with
  | some token => token.range
  | none => .empty plan.textEnd

/-- The offset of the next visible token (`next_offset`). -/
def nextOffset (plan : Plan) (r : Run) : Nat :=
  match r.stream.peek? with
  | some token => token.offset
  | none => plan.textEnd

/-- Records an error at the next visible token (`push_error`). -/
def record (plan : Plan) (problem : ParseProblem) (r : Run) : Run :=
  let error : ParseError := {
    problem
    range := r.currentRange plan
    token := r.stream.peek?.map (·.image)
    rule := r.rules.head?.bind fun id => plan.grammar.rules[id]?.map (·.name) }
  { r with errors := r.errors.push error }

/-- Records an error, unless it follows from one already recorded (`error`). -/
def raise (plan : Plan) (problem : ParseProblem) (r : Run) : Run :=
  if r.recovering then r else r.record plan problem

/-- Records that none of the expected tokens was found, and starts recovering (`report`). -/
def report (plan : Plan) (expected : FirstSet) (r : Run) : Run :=
  { r.raise plan (.noAlternative expected) with recovering := true }

/-! ### Matching -/

/-- Takes a token that is accepted, skips a single one in front of it, or takes it to be missing
(`keyword`, `terminal`). -/
def expect (plan : Plan) (accepts : Token → Bool) (problem : ParseProblem) (feature : Option String)
    (r : Run) : Run × Option (Token × CstId) :=
  if r.stream.peek?.any accepts then ({ r with recovering := false }).consume feature
  else
    let r := r.raise plan problem
    if r.stream.second?.any accepts then
      ({ (r.consume none).1 with recovering := false }).consume feature
    else ({ r with recovering := true }, none)

def expectKeyword (plan : Plan) (text : String) (feature : Option String) (r : Run) :
    Run × Option (Token × CstId) :=
  r.expect plan (·.isKeyword text) (.missingKeyword text) feature

def expectKind (plan : Plan) (kind : TokenKind) (rule : String) (feature : Option String) (r : Run) :
    Run × Option (Token × CstId) :=
  r.expect plan (·.kind == kind) (.missingToken rule) feature

/-! ### Building -/

/-- Adds to the text under construction, if there is one. -/
def collect (text : String) (r : Run) : Run :=
  match r.frames with
  | .text acc :: rest => { r with frames := .text (acc ++ text) :: rest }
  | _ => r

/-- Changes a feature of the object under construction, if there is one (`assign`). -/
def assign (feature : String) (op : AssignOp) (value : Value) (r : Run) : Run :=
  match r.frames with
  | .object o :: rest =>
    let properties :=
      match op with
      | .set => o.properties.set feature value
      | .flag => o.properties.set feature (.bool true)
      | .append => o.properties.append feature value
    { r with frames := .object { o with properties } :: rest }
  | _ => r

/-- Tells the node or reference in a value where it is held. -/
def hold (place : Place) (value : Value) (r : Run) : Run :=
  match value with
  | .node id => { r with nodes := r.nodes.modify id fun n => { n with place := some place } }
  | .reference id =>
    { r with references := r.references.modify id fun q => { q with place := some place } }
  | _ => r

/-- Tells all nodes and references in a property where they are held. -/
def holdEntry (holder : NodeId) (r : Run) (entry : String × Value) : Run :=
  match entry.2 with
  | .list items => items.zipIdx.foldl (fun r (item, i) => r.hold ⟨holder, entry.1, some i⟩ item) r
  | value => r.hold ⟨holder, entry.1, none⟩ value

/-- Finishes a node of a known type, in the place of `slot` or as a new one. The node and its composite
learn of each other (`construct_typed`). -/
def construct (plan : Plan) (type : TypeId) (properties : Properties) (slot : Option NodeId)
    (composite : Option CstId) (r : Run) : Run × NodeId :=
  let properties := State.withDefaults plan.grammar.types type properties
  let id := slot.getD r.nodes.size
  let node : Node := { type, properties, cst := composite }
  let nodes :=
    match slot with
    | some slot => r.nodes.setIfInBounds slot node
    | none => r.nodes.push node
  let r := properties.entries.foldl (holdEntry id) { r with nodes }
  let cst :=
    match composite with
    | some c => r.cst.setAst c (some id)
    | none => r.cst
  ({ r with cst }, id)

/-- Finishes an object. One that never learnt its type is dropped (`construct`). -/
def constructObject (plan : Plan) (o : Object) (composite : Option CstId) (r : Run) :
    Run × Option NodeId :=
  match o.type with
  | none => (r, none)
  | some type =>
    let (r, id) := r.construct plan type o.properties o.slot composite
    (r, some id)

/-- Makes a finished node the object under construction. Its composite forgets it: the one of the caller
will own the node from now on (`adopt`). -/
def adopt (id : NodeId) (r : Run) : Run :=
  match r.frames, r.nodes[id]? with
  | .object o :: rest, some node =>
    let object : Object := {
      o with
      type := some node.type
      properties := node.properties.fillFrom o.properties
      slot := some id }
    { r with
      frames := .object object :: rest
      nodes := r.nodes.setIfInBounds id { node with properties := .empty, cst := none }
      cst :=
        match node.cst with
        | some c => r.cst.setAst c none
        | none => r.cst }
  | _, _ => r

/-- Gives the object under construction a type, unless an action has done so before (`action`). -/
def retag (type : TypeId) (r : Run) : Run :=
  match r.frames with
  | .object o :: rest =>
    if o.retagged then r
    else { r with frames := .object { o with type := some type, retagged := true } :: rest }
  | _ => r

/-- Finishes the object under construction, with a composite of its own around all leaves of the
invocation, and starts a new one that holds it (`action`). -/
def wrap (plan : Plan) (type : TypeId) (feature : String) (op : AssignOp) (r : Run) : Run :=
  match r.frames with
  | .object previous :: rest =>
    let (cst, inner) := r.cst.wrapChildren r.top (some feature)
    let restarted := { r with
      cst
      frames := .object { type := some type, retagged := true } :: rest }
    let (r, built) := restarted.constructObject plan previous inner
    match built with
    | some id => r.assign feature op (.node id)
    | none => r
  | _ => r

end Run

/-! ### Choices and repetitions -/

/-- The run after an element, and what was expected if no alternative was viable. -/
structure Outcome where
  run : Run
  stuck : Option FirstSet := none

/-- How rules are invoked: what comes of it is the value and the composite of the invocation. -/
abbrev Invocation := RuleId → Option String → Run → Run × Option (RuleValue × CstId)

/-- Whether the next visible token is one with which the element goes on (`predicts`). -/
def ready (plan : Plan) (e : Element) (r : Run) : Bool :=
  r.stream.peek?.any (plan.lookahead.predicts e)

/-- The first alternative that goes on with the next token, else the first that can match nothing
(`choose`). -/
def choose (plan : Plan) (items : List Element) (r : Run) : Option Nat :=
  (items.findIdx? (ready plan · r)).or (items.findIdx? plan.lookahead.nullable)

/-- Repeats `body` as long as it can start. Every turn has to take a token. -/
def turns (plan : Plan) (canStart : Run → Bool) (body : Run → Outcome) : Nat → Run → Outcome
  | 0, r => { run := r }
  | fuel + 1, r =>
    if canStart r then
      let out := body r
      let progress : Bool := decide (out.run.stream.count < r.stream.count)
      match out.stuck with
      | some expected =>
        if progress then turns plan canStart body fuel (out.run.report plan expected) else out
      | none => if progress then turns plan canStart body fuel out.run else out
    else { run := r }

/-- Runs `body` as often as the cardinality and the input allow (`repeat`). -/
def repeated (plan : Plan) (cardinality : Cardinality) (canStart : Run → Bool) (body : Run → Outcome)
    (r : Run) : Outcome :=
  match cardinality with
  | .optional => if canStart r then body r else { run := r }
  | .zeroOrMore => turns plan canStart body r.stream.count r
  | .oneOrMore =>
    let out := body r
    if out.stuck.isSome then out
    else if out.run.stream.count < r.stream.count then
      turns plan canStart body out.run.stream.count out.run
    else out

/-! ### Calls -/

/-- Calls a rule; with an assignment, its value goes to the feature (`call`). -/
def call (plan : Plan) (invoke : Invocation) (id : RuleId) (target : Option (String × AssignOp))
    (r : Run) : Run :=
  match plan.grammar.rules[id]? with
  | none => r
  | some rule =>
    match rule.kind with
    | .terminal token value =>
      let (r, taken) := r.expectKind plan token rule.name (target.map (·.1))
      match taken, target with
      | none, _ => r
      | some (t, _), some (feature, op) => r.assign feature op (value.convert t.image)
      | some (t, _), none => r.collect (value.convertText t.image)
    | _ =>
      let (r, result) := invoke id (target.map (·.1)) r
      match result, target with
      | none, _ => r
      | some (.node n, _), some (feature, op) => r.assign feature op (.node n)
      | some (.value v, _), some (feature, op) => r.assign feature op v
      | some (.node n, _), none => r.adopt n
      | some (.value v, _), none => r.collect v.asText

/-- Makes a reference to a node of type `target` and assigns it. -/
def makeReference (feature : String) (op : AssignOp) (target : TypeId) (text : String) (cst : CstId)
    (r : Run) : Run :=
  let id := r.references.size
  ({ r with references := r.references.push { text, target, cst := some cst } }).assign feature op
    (.reference id)

/-- Takes the text of a cross-reference by the rule `id` (`cross_reference`). -/
def crossReference (plan : Plan) (invoke : Invocation) (feature : String) (op : AssignOp)
    (target : TypeId) (id : RuleId) (r : Run) : Run :=
  match plan.grammar.rules[id]? with
  | none => r
  | some rule =>
    match rule.kind with
    | .terminal token value =>
      let (r, taken) := r.expectKind plan token rule.name (some feature)
      match taken with
      | none => r
      | some (t, leaf) => makeReference feature op target (value.convertText t.image) leaf r
    | _ =>
      let (r, result) := invoke id (some feature) r
      match result with
      | some (.value v, composite) => makeReference feature op target v.asText composite r
      | _ => r

/-! ### Elements -/

mutual

/-- Runs an element of a rule body (`run`). -/
def run (plan : Plan) (invoke : Invocation) : Element → Run → Outcome
  | .keyword text, r =>
    let (r, taken) := r.expectKeyword plan text none
    { run := if taken.isSome then r.collect text else r }
  | .call id, r => { run := call plan invoke id none r }
  | .assign feature op value, r => runAssigned plan invoke feature op value r
  | .crossRef _ _, r => { run := r }
  | .action type none, r => { run := r.retag type }
  | .action type (some (feature, op)), r => { run := r.wrap plan type feature op }
  | .group items, r => runAll plan invoke items r
  | .alternatives items, r =>
    match choose plan items r with
    | some i => runNth plan invoke items i r
    | none => { run := r, stuck := some (plan.lookahead.first (.alternatives items)) }
  | .repetition cardinality item, r =>
    repeated plan cardinality (ready plan item) (run plan invoke item) r

/-- Runs the items of a group one after the other, up to one that gets stuck. -/
def runAll (plan : Plan) (invoke : Invocation) : List Element → Run → Outcome
  | [], r => { run := r }
  | item :: rest, r =>
    let out := run plan invoke item r
    if out.stuck.isSome then out else runAll plan invoke rest out.run

/-- Runs the alternative of the given number. -/
def runNth (plan : Plan) (invoke : Invocation) : List Element → Nat → Run → Outcome
  | [], _, r => { run := r }
  | item :: _, 0, r => run plan invoke item r
  | _ :: rest, i + 1, r => runNth plan invoke rest i r

/-- Runs the value of an assignment (`assignment`). -/
def runAssigned (plan : Plan) (invoke : Invocation) (feature : String) (op : AssignOp) :
    Element → Run → Outcome
  | .keyword text, r =>
    let (r, taken) := r.expectKeyword plan text (some feature)
    { run := if taken.isSome then r.assign feature op (.text text) else r }
  | .call id, r => { run := call plan invoke id (some (feature, op)) r }
  | .crossRef target id, r => { run := crossReference plan invoke feature op target id r }
  | .alternatives items, r =>
    match choose plan items r with
    | some i => runAssignedNth plan invoke feature op items i r
    | none => { run := r, stuck := some (plan.lookahead.first (.alternatives items)) }
  -- a checked grammar assigns nothing else
  | _, r => { run := r }

/-- Runs the alternative of the given number as the value of an assignment. -/
def runAssignedNth (plan : Plan) (invoke : Invocation) (feature : String) (op : AssignOp) :
    List Element → Nat → Run → Outcome
  | [], _, r => { run := r }
  | item :: _, 0, r => runAssigned plan invoke feature op item r
  | _ :: rest, i + 1, r => runAssignedNth plan invoke feature op rest i r

end

/-- Runs an element and reports it if it gets stuck. -/
def runReported (plan : Plan) (invoke : Invocation) (e : Element) (r : Run) : Run :=
  let out := run plan invoke e r
  match out.stuck with
  | some expected => out.run.report plan expected
  | none => out.run

/-! ### Rules -/

/-- Opens a composite and a frame for a rule. -/
def enter (plan : Plan) (id : RuleId) (kind : RuleKind) (feature : Option String) (r : Run) : Run :=
  let (cst, composite) := r.cst.addComposite r.top (some id) feature (r.nextOffset plan)
  { r with
    cst
    composites := composite :: r.composites
    frames := (Frame.enter id kind).content :: r.frames
    rules := id :: r.rules }

/-- Leaves a rule: closes its composite and finishes what it has built. An invocation whose composite is
detached has no value. -/
def leave (plan : Plan) (kind : RuleKind) (r : Run) : Run × Option (RuleValue × CstId) :=
  match r.composites, r.frames with
  | composite :: composites, content :: frames =>
    let (cst, kept) := r.cst.close composite
    let r := { r with cst, composites, frames, rules := r.rules.tail }
    if kept then
      match content, kind with
      | .object o, _ =>
        let (r, built) := r.constructObject plan o (some composite)
        (r, built.map fun n => (.node n, composite))
      | .text text, .dataType value => (r, some (.value (value.ofCollected text), composite))
      | .text _, _ => (r, none)
    else (r, none)
  | _, _ => (r, none)

/-- Invokes a rule, if not too many are under way (`invoke_rule`). -/
def invoke (plan : Plan) : Nat → Invocation
  | 0, _, _, r => (r, none)
  | fuel + 1, id, feature, r =>
    if plan.limits.maxRuleDepth ≤ r.rules.length then
      ({ r.raise plan (.tooDeep plan.limits.maxRuleDepth) with recovering := true }, none)
    else
      match plan.grammar.rules[id]? with
      | none => (r, none)
      | some rule =>
        leave plan rule.kind
          (runReported plan (invoke plan fuel) rule.body (enter plan id rule.kind feature r))

/-! ### Documents -/

/-- Skips tokens up to one with which the entry rule can start; if nothing was taken before, at least
one token. -/
def skip (plan : Plan) : Nat → Bool → Run → Run
  | 0, _, r => r
  | fuel + 1, stalled, r =>
    if r.stream.count = 0 || (!stalled && ready plan plan.grammar.entryRule.body r) then r
    else skip plan fuel false (r.consume none).1

/-- Runs the body of the entry rule until the input is used up (`parse_entry`). -/
def runEntry (plan : Plan) (invoke : Invocation) : Nat → Run → Run
  | 0, r => r
  | fuel + 1, r =>
    let ran := runReported plan invoke plan.grammar.entryRule.body r
    if ran.stream.count = 0 then ran
    else
      let stalled : Bool := ran.stream.count == r.stream.count
      let failed := ran.record plan .trailingInput
      let skipped := skip plan failed.stream.count stalled failed
      let resumed := { skipped with recovering := false }
      if resumed.stream.count = 0 then resumed else runEntry plan invoke fuel resumed

/-- The two trees of a document, which know each other by numbers. -/
structure Tree where
  nodes : Array Node
  references : Array Ref
  cst : Cst
  root : NodeId

/-- Finishes the root node and with it the tree. -/
def finish (plan : Plan) (r : Run) : Tree :=
  let r := r.flushHidden
  let r := { r with cst := r.cst.setRootRange (TextRange.of 0 plan.textEnd) }
  let object :=
    match r.frames with
    | .object o :: _ => o
    | _ => { type := none }
  let type := object.type.getD plan.grammar.entryType
  let (r, root) := r.construct plan type object.properties object.slot (some r.cst.root)
  { nodes := r.nodes, references := r.references, cst := r.cst, root }

/-- Parses tokens (`parse`): the trees of the document, and the errors. -/
def parse (p : Parser) (lexed : LexResult) : Tree × List ParseError :=
  let (tokens, cut) := Parser.cutAfter p.limits.maxTokens lexed.tokens
  let plan : Plan := {
    grammar := p.grammar
    lookahead := p.lookahead
    limits := p.limits
    textEnd := (lexed.tokens.getLast?.map Token.stop).getD 0 }
  let cst := Cst.new p.grammar.entry
  let start : Run := {
    stream := .of tokens
    cst
    composites := [cst.root]
    frames := [.object { type := some p.grammar.entryType }]
    rules := [p.grammar.entry]
    errors := (cut.toList.map (Parser.cutError p.limits.maxTokens)).toArray }
  -- one level more than can be reached: the limit is met first
  let ended := runEntry plan (invoke plan (p.limits.maxRuleDepth + 1)) (start.stream.count + 1) start
  (finish plan ended, ended.errors.toList)

end Engine

end Workbench
