import Workbench.Parser.State
import Workbench.Token.Lexer

/-!
**The parser.**

The parser interprets a grammar over the tokens of a document and builds the tree and its source tree
in one pass. It always yields a tree: missing tokens are taken as present, single unexpected tokens
are skipped, a rule without a viable alternative is given up, and input left at the end is skipped up
to a token with which the entry rule can start again.

The interpreter is built in three layers, each by recursion on what it works on, so that no bound has to be
guessed: a rule invocation recurs on the depth still allowed, an element on its structure, and a repetition
on the number of visible tokens that are left, since every turn has to take one. Each layer takes the steps
of its function (`invoke_rule`, `run`, `repeat`); the same steps on stacks and lists of numbered nodes are
those of `Engine`.
-/

namespace Workbench

/-- The result of running an element: the new state, and what was expected if no alternative was
viable. -/
structure Outcome where
  state : State
  stuck : Option FirstSet := none

/-- What a finished rule stands for (`RuleValue`). -/
inductive RuleValue where
  | node (id : NodeId)
  | value (v : Value)
deriving Repr

/-- The result of a rule invocation: the state back in the calling frame, the source tree of the
invocation unless it took no token, and what the rule stands for. -/
structure Invoked where
  state : State
  tree : Option SourceTree := none
  value : Option RuleValue := none

/-- How rules are invoked from an element. -/
abbrev Invocation := RuleId → Option String → State → Invoked

namespace Interpreter

/-! ### Choices -/

/-- Whether the next visible token is one with which the element goes on (`predicts`). -/
def ready (plan : Plan) (e : Element) (s : State) : Bool :=
  s.stream.peek?.any (plan.lookahead.predicts e)

/-- The alternative to run: the first that goes on with the next token, else the first that can match
nothing (`choose`). -/
def choose (plan : Plan) (items : List Element) (s : State) : Option Nat :=
  (items.findIdx? (ready plan · s)).or (items.findIdx? plan.lookahead.nullable)

/-! ### Repetitions -/

/-- Repeats `body` as long as it can start. A turn that gets stuck after it has taken a token is
given up and reported; one that takes no token ends the repetition. -/
def turns (plan : Plan) (canStart : State → Bool) (body : State → Outcome) : Nat → State → Outcome
  | 0, s => { state := s }
  | fuel + 1, s =>
    if canStart s then
      let out := body s
      let progress : Bool := decide (out.state.stream.count < s.stream.count)
      match out.stuck with
      | some expected =>
        if progress then turns plan canStart body fuel (out.state.report plan expected) else out
      | none => if progress then turns plan canStart body fuel out.state else out
    else { state := s }

/-- Runs `body` as often as the cardinality and the input allow (`repeat`). -/
def repeated (plan : Plan) (cardinality : Cardinality) (canStart : State → Bool)
    (body : State → Outcome) (s : State) : Outcome :=
  match cardinality with
  | .optional => if canStart s then body s else { state := s }
  | .zeroOrMore => turns plan canStart body s.stream.count s
  | .oneOrMore =>
    let out := body s
    if out.stuck.isSome then out
    else if out.state.stream.count < s.stream.count then
      turns plan canStart body out.state.stream.count out.state
    else out

/-! ### Calls -/

/-- Calls a rule; with an assignment, its value goes to the feature (`call`). Without one, a node becomes
the object under construction, and a text is added to the text under construction. -/
def call (plan : Plan) (invoke : Invocation) (id : RuleId) (target : Option (String × AssignOp))
    (s : State) : State :=
  match plan.grammar.rules[id]? with
  | none => s.note .unknownRule
  | some rule =>
    match rule.kind with
    | .terminal token value =>
      let (s, taken) := s.expectKind plan token rule.name (target.map (·.1))
      match taken, target with
      | none, _ => s
      | some t, some (feature, op) => s.assign feature op (value.convert t.image)
      | some t, none => s.collect (value.convertText t.image)
    | _ =>
      let out := invoke id (target.map (·.1)) s
      match out.value, target with
      | none, _ => out.state.attach out.tree.toList
      | some (.node n), some (feature, op) =>
        (out.state.attach out.tree.toList).assign feature op (.node n)
      | some (.value v), some (feature, op) =>
        (out.state.attach out.tree.toList).assign feature op v
      | some (.node n), none =>
        (out.state.attach (out.tree.toList.map (·.withOwner none))).adopt n
      | some (.value v), none => (out.state.attach out.tree.toList).collect v.asText

/-- Makes a reference to a node of type `target` and assigns it. -/
def makeReference (feature : String) (op : AssignOp) (target : TypeId) (text : String)
    (source : SourceTree) (s : State) : State :=
  let id := s.references.size
  ({ s with references := s.references.push { text, target, source } }).assign feature op
    (.reference id)

/-- Takes the text of a cross-reference by the rule `id` (`cross_reference`). -/
def crossReference (plan : Plan) (invoke : Invocation) (feature : String) (op : AssignOp)
    (target : TypeId) (id : RuleId) (s : State) : State :=
  match plan.grammar.rules[id]? with
  | none => s.note .unknownRule
  | some rule =>
    match rule.kind with
    | .terminal token value =>
      let (s, taken) := s.expectKind plan token rule.name (some feature)
      match taken with
      | none => s
      | some t =>
        makeReference feature op target (value.convertText t.image) (.leaf t (some feature)) s
    | _ =>
      let out := invoke id (some feature) s
      let attached := out.state.attach out.tree.toList
      match out.value, out.tree with
      | some (.value v), some tree => makeReference feature op target v.asText tree attached
      | some (.node _), _ => attached.note .nodeAsReferenceText
      | _, _ => attached

/-! ### Elements -/

mutual

/-- Runs an element of a rule body (`run`). -/
def run (plan : Plan) (invoke : Invocation) : Element → State → Outcome
  | .keyword text, s =>
    let (s, taken) := s.expectKeyword plan text none
    { state := if taken.isSome then s.collect text else s }
  | .call id, s => { state := call plan invoke id none s }
  | .assign feature op value, s => runAssigned plan invoke feature op value s
  | .crossRef _ _, s => { state := s.note .strayCrossRef }
  | .action type none, s => { state := s.retag type }
  | .action type (some (feature, op)), s => { state := s.wrap plan type feature op }
  | .group items, s => runAll plan invoke items s
  | .alternatives items, s =>
    match choose plan items s with
    | some i => runNth plan invoke items i s
    | none => { state := s, stuck := some (plan.lookahead.first (.alternatives items)) }
  | .repetition cardinality item, s =>
    repeated plan cardinality (ready plan item) (run plan invoke item) s

/-- Runs the items of a group one after the other, up to one that gets stuck. -/
def runAll (plan : Plan) (invoke : Invocation) : List Element → State → Outcome
  | [], s => { state := s }
  | item :: rest, s =>
    let out := run plan invoke item s
    if out.stuck.isSome then out else runAll plan invoke rest out.state

/-- Runs the alternative of the given number. -/
def runNth (plan : Plan) (invoke : Invocation) : List Element → Nat → State → Outcome
  | [], _, s => { state := s }
  | item :: _, 0, s => run plan invoke item s
  | _ :: rest, i + 1, s => runNth plan invoke rest i s

/-- Runs the value of an assignment (`assignment`). -/
def runAssigned (plan : Plan) (invoke : Invocation) (feature : String) (op : AssignOp) :
    Element → State → Outcome
  | .keyword text, s =>
    let (s, taken) := s.expectKeyword plan text (some feature)
    { state := if taken.isSome then s.assign feature op (.text text) else s }
  | .call id, s => { state := call plan invoke id (some (feature, op)) s }
  | .crossRef target id, s => { state := crossReference plan invoke feature op target id s }
  | .alternatives items, s =>
    match choose plan items s with
    | some i => runAssignedNth plan invoke feature op items i s
    | none => { state := s, stuck := some (plan.lookahead.first (.alternatives items)) }
  | _, s => { state := s.note .unassignable }

/-- Runs the alternative of the given number as the value of an assignment. -/
def runAssignedNth (plan : Plan) (invoke : Invocation) (feature : String) (op : AssignOp) :
    List Element → Nat → State → Outcome
  | [], _, s => { state := s }
  | item :: _, 0, s => runAssigned plan invoke feature op item s
  | _ :: rest, i + 1, s => runAssignedNth plan invoke feature op rest i s

end

/-- Runs an element and reports it if it gets stuck. -/
def runReported (plan : Plan) (invoke : Invocation) (e : Element) (s : State) : State :=
  let out := run plan invoke e s
  match out.stuck with
  | some expected => out.state.report plan expected
  | none => out.state

/-! ### Rules -/

/-- Leaves a rule: gives back the frame of the caller and finishes what the rule has built (`invoke_rule`).
An invocation that took no token leaves nothing behind. -/
def leave (plan : Plan) (id : RuleId) (kind : RuleKind) (feature : Option String) (offset : Nat)
    (caller : Frame) (s : State) : Invoked :=
  let frame := s.frame
  let s := { s with frame := caller }
  if frame.children.isEmpty then { state := s }
  else
    let tree := SourceTree.close id feature offset frame.children.toList
    match frame.content, kind with
    | .object o, _ =>
      let (s, built) := s.constructObject plan o (some tree)
      match built with
      | some n => { state := s, tree := some (tree.withOwner (some n)), value := some (.node n) }
      | none => { state := s, tree := some tree }
    | .text text, .dataType value =>
      { state := s, tree := some tree, value := some (.value (value.ofCollected text)) }
    | .text _, _ => { state := s, tree := some tree }

/-- Invokes a rule, if the nesting is not too deep (`invoke_rule`). -/
def invoke (plan : Plan) : Nat → Invocation
  | 0, _, _, s =>
    { state :=
        { s.raise plan (.tooDeep plan.limits.maxRuleDepth) with recovering := true }.note
          .depthLimit }
  | depth + 1, id, feature, s =>
    match plan.grammar.rules[id]? with
    | none => { state := s.note .unknownRule }
    | some rule =>
      let entered := { s with frame := Frame.enter id rule.kind }
      leave plan id rule.kind feature (s.nextOffset plan) s.frame
        (runReported plan (invoke plan depth) rule.body entered)

/-! ### Documents -/

/-- Skips tokens up to one with which the entry rule can start; if nothing was taken before, at least
one token. -/
def skip (plan : Plan) : Nat → Bool → State → State
  | 0, _, s => s
  | fuel + 1, stalled, s =>
    if s.stream.count = 0 || (!stalled && ready plan plan.grammar.entryRule.body s) then s
    else skip plan fuel false (s.consume none).1

/-- Runs the body of the entry rule until the input is used up (`parse_entry`). -/
def runEntry (plan : Plan) (invoke : Invocation) : Nat → State → State
  | 0, s => s
  | fuel + 1, s =>
    let ran := runReported plan invoke plan.grammar.entryRule.body s
    if ran.stream.count = 0 then ran
    else
      let stalled : Bool := ran.stream.count == s.stream.count
      let failed := ran.record plan .trailingInput
      let skipped := skip plan failed.stream.count stalled failed
      let resumed := { skipped with recovering := false }
      if resumed.stream.count = 0 then resumed else runEntry plan invoke fuel resumed

end Interpreter

/-- A grammar that can be parsed with. -/
structure Parser where
  grammar : Grammar
  limits : Limits
  lookahead : Lookahead
  lookahead_eq : lookahead = Lookahead.of grammar
  not_leftRecursive : lookahead.leftRecursive? grammar = none

/-- What became of a document's tokens. -/
structure ParseResult where
  ast : Ast
  lexErrors : List LexError
  parseErrors : List ParseError
  incidents : List Incident

def ParseResult.hasErrors (r : ParseResult) : Bool :=
  !r.lexErrors.isEmpty || !r.parseErrors.isEmpty

/-- The result with no reference linked. -/
def ParseResult.unlink (r : ParseResult) : ParseResult := { r with ast := r.ast.unlink }

namespace Parser

/-- Prepares a grammar for parsing. Left-recursive rules are refused. -/
def new (grammar : Grammar) (limits : Limits) : Except GrammarFault Parser :=
  let lookahead := Lookahead.of grammar
  match h : lookahead.leftRecursive? grammar with
  | some rule => .error (.leftRecursive rule.name)
  | none => .ok ⟨grammar, limits, lookahead, rfl, h⟩

/-- The tokens in front of the visible token that comes after `limit` visible ones, and that token if
there is one. -/
def cutAfter : Nat → List Token → List Token × Option Token
  | _, [] => ([], none)
  | limit, t :: rest =>
    if t.isHidden then
      let (kept, cut) := cutAfter limit rest
      (t :: kept, cut)
    else
      match limit with
      | 0 => ([], some t)
      | limit + 1 =>
        let (kept, cut) := cutAfter limit rest
        (t :: kept, cut)

/-- The error for tokens that were cut off. -/
def cutError (limit : Nat) (cut : Token) : ParseError :=
  { problem := .tooManyTokens limit, range := cut.range, token := none, rule := none }

/-- Finishes the root node and with it the tree. -/
def finish (plan : Plan) (s : State) : State × Ast :=
  let s := s.flushHidden
  let tree :=
    SourceTree.branch s.frame.rule none (TextRange.of 0 plan.textEnd) none s.frame.children.toList
  let object :=
    match s.frame.content with
    | .object o => o
    | .text _ => { type := none }
  let type := object.type.getD plan.grammar.entryType
  let (s, root) := s.construct plan type object.properties object.slot (some tree)
  (s, {
    types := plan.grammar.types
    nodes := s.nodes
    references := s.references
    source := tree.withOwner (some root)
    root })

/-- Parses tokens (`parse`). The entry rule counts as one level of nesting. -/
def parse (p : Parser) (lexed : LexResult) : ParseResult :=
  let (tokens, cut) := cutAfter p.limits.maxTokens lexed.tokens
  let plan : Plan := {
    grammar := p.grammar
    lookahead := p.lookahead
    limits := p.limits
    textEnd := (lexed.tokens.getLast?.map Token.stop).getD 0 }
  let start : State := {
    stream := .of tokens
    frame := { rule := p.grammar.entry, content := .object { type := some p.grammar.entryType } }
    errors := (cut.toList.map (cutError p.limits.maxTokens)).toArray }
  let ended :=
    Interpreter.runEntry plan (Interpreter.invoke plan (p.limits.maxRuleDepth - 1))
      (start.stream.count + 1) start
  let (ended, ast) := finish plan ended
  { ast
    lexErrors := lexed.errors
    parseErrors := ended.errors.toList
    incidents := ended.incidents }

/-- The tokens of a text. -/
def tokenize (p : Parser) (text : String) : LexResult :=
  Lexer.tokenize p.grammar.keywords text

/-- Parses a text (`parse_text`). -/
def parseText (p : Parser) (text : String) : ParseResult :=
  p.parse (p.tokenize text)

end Parser

end Workbench
