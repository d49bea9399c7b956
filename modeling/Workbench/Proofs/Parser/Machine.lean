import Workbench.Proofs.Parser.Runs

/-!
**The parser on its stacks.**

The interpreter hands the frame of the invocation under way from step to step and keeps the frames of the
callers by recursion. A parser without such recursion keeps them on stacks: one for the rules, one for
what the invocations build, and one for their source trees. This is that parser, and it is a suspicious
one: before every step it looks whether its stacks are equally high and not empty, whether every rule
that it looks up exists, and whether what it is about to do is possible at all. Otherwise it stops with a
breach.
-/

namespace Workbench

/-- What a parser has to be prepared for if its grammar is not checked. -/
inductive Breach where
  /-- The stacks are not equally high, or there is nothing on them. -/
  | unevenStacks
  | unknownRule (id : RuleId)
  /-- A cross-reference is run that is not the value of an assignment. -/
  | strayCrossRef
  | unassignable
  /-- An assignment, an action or an adoption where a text is under construction. -/
  | outsideObject
  | unknownNode (id : NodeId)
  | nodeAsReferenceText
deriving DecidableEq, Repr

/-- What changes during a parse, with one entry on each stack for every invocation under way (`Run`). -/
structure Machine where
  rules : List RuleId
  contents : List Content
  branches : List (Array SourceTree)
  stream : TokenStream
  nodes : Array AstNode := #[]
  references : Array Reference := #[]
  errors : Array ParseError := #[]
  recovering : Bool := false
  incidents : List Incident := []

/-- The machine before the start, with nothing on its stacks. -/
def Machine.empty (stream : TokenStream) (errors : Array ParseError) : Machine where
  rules := []
  contents := []
  branches := []
  stream := stream
  errors := errors

/-- The machine in a state, with the frames of the callers below. -/
def Machine.of (s : State) (below : List Frame) : Machine where
  rules := s.frame.rule :: below.map (·.rule)
  contents := s.frame.content :: below.map (·.content)
  branches := s.frame.children :: below.map (·.children)
  stream := s.stream
  nodes := s.nodes
  references := s.references
  errors := s.errors
  recovering := s.recovering
  incidents := s.incidents

namespace Element

mutual

/-- The rules that an element mentions. -/
def mentioned : Element → List RuleId
  | keyword _ | action _ _ => []
  | call id | crossRef _ id => [id]
  | assign _ _ value => mentioned value
  | group items | alternatives items => mentionedIn items
  | repetition _ item => mentioned item

/-- The rules that the elements of a list mention. -/
def mentionedIn : List Element → List RuleId
  | [] => []
  | item :: rest => mentioned item ++ mentionedIn rest

end

end Element

/-- A computation on the stacks that stops at the first breach. -/
abbrev Guarded := StateT Machine (Except Breach)

namespace Guarded

variable {α : Type}

/-! ### Stacks -/

/-- What is on top of the stacks. They must be equally high and not empty, and the rule must exist. -/
def view (plan : Plan) : Guarded State := fun m =>
  match m.rules, m.contents, m.branches with
  | rule :: rules, content :: contents, children :: branches =>
    if rules.length = contents.length ∧ contents.length = branches.length then
      if rule < plan.grammar.rules.size then
        .ok ({
          stream := m.stream
          frame := { rule, content, children }
          nodes := m.nodes
          references := m.references
          errors := m.errors
          recovering := m.recovering
          incidents := m.incidents }, m)
      else .error (.unknownRule rule)
    else .error .unevenStacks
  | _, _, _ => .error .unevenStacks

/-- Replaces what is on top of the stacks. -/
def put (s : State) : Guarded Unit := fun m =>
  .ok ((), {
    rules := s.frame.rule :: m.rules.tail
    contents := s.frame.content :: m.contents.tail
    branches := s.frame.children :: m.branches.tail
    stream := s.stream
    nodes := s.nodes
    references := s.references
    errors := s.errors
    recovering := s.recovering
    incidents := s.incidents })

/-- Puts a frame on the stacks. -/
def push (frame : Frame) : Guarded Unit := fun m =>
  .ok ((), {
    m with
    rules := frame.rule :: m.rules
    contents := frame.content :: m.contents
    branches := frame.children :: m.branches })

/-- Takes a frame off the stacks. -/
def pop (plan : Plan) : Guarded Frame := do
  let s ← view plan
  fun m =>
    .ok (s.frame, {
      m with
      rules := m.rules.tail
      contents := m.contents.tail
      branches := m.branches.tail })

/-! ### Steps -/

/-- Carries out a step of the invocation on top. -/
def step (plan : Plan) (f : State → State × α) : Guarded α := do
  let s ← view plan
  put (f s).1
  return (f s).2

def change (plan : Plan) (f : State → State) : Guarded Unit := step plan fun s => (f s, ())

def ask (plan : Plan) (f : State → α) : Guarded α := step plan fun s => (s, f s)

/-- Changes the object under construction, which must be on top. -/
def onObject (plan : Plan) (f : State → State) : Guarded Unit := do
  let s ← view plan
  match s.frame.content with
  | .object _ => put (f s)
  | .text _ => throw .outsideObject

/-- Makes a finished node, which must exist, the object under construction (`adopt`). -/
def adopt (plan : Plan) (id : NodeId) : Guarded Unit := do
  let s ← view plan
  if id < s.nodes.size then onObject plan (·.adopt id) else throw (.unknownNode id)

/-- Looks a rule up, which must exist. -/
def lookUp (plan : Plan) (id : RuleId) : Guarded Rule :=
  match plan.grammar.rules[id]? with
  | some rule => return rule
  | none => throw (.unknownRule id)

/-- Asks what is ahead in view of an element, all rules of which must exist. -/
def foresee (plan : Plan) (e : Element) (f : State → α) : Guarded α :=
  match e.mentioned.find? fun id => decide (plan.grammar.rules.size ≤ id) with
  | some id => throw (.unknownRule id)
  | none => ask plan f

/-! ### Repetitions -/

def turns (plan : Plan) (canStart : Guarded Bool) (body : Guarded (Option FirstSet)) :
    Nat → Guarded (Option FirstSet)
  | 0 => return none
  | fuel + 1 => do
    if ← canStart then
      let before ← ask plan (·.stream.count)
      let stuck ← body
      let after ← ask plan (·.stream.count)
      match stuck with
      | some expected =>
        if after < before then
          change plan (·.report plan expected)
          turns plan canStart body fuel
        else return some expected
      | none => if after < before then turns plan canStart body fuel else return none
    else return none

def repeated (plan : Plan) (cardinality : Cardinality) (canStart : Guarded Bool)
    (body : Guarded (Option FirstSet)) : Guarded (Option FirstSet) :=
  match cardinality with
  | .optional => do if ← canStart then body else return none
  | .zeroOrMore => do turns plan canStart body (← ask plan (·.stream.count))
  | .oneOrMore => do
    let before ← ask plan (·.stream.count)
    let stuck ← body
    let after ← ask plan (·.stream.count)
    if stuck.isSome then return stuck
    else if after < before then turns plan canStart body after
    else return none

/-! ### Calls -/

/-- How rules are invoked on the stacks: what comes of it is the tree and the value. -/
abbrev Call := RuleId → Option String → Guarded (Option SourceTree × Option RuleValue)

/-- Takes the token of a terminal rule. -/
def take (plan : Plan) (token : TokenKind) (value : ValueKind) (name : String)
    (target : Option (String × AssignOp)) : Guarded Unit := do
  let taken ← step plan (·.expectKind plan token name (target.map (·.1)))
  match taken, target with
  | none, _ => return
  | some t, some (feature, op) => onObject plan (·.assign feature op (value.convert t.image))
  | some t, none => change plan (·.collect (value.convertText t.image))

/-- Keeps what came of an invocation. -/
def keep (plan : Plan) (tree : Option SourceTree) (value : Option RuleValue)
    (target : Option (String × AssignOp)) : Guarded Unit :=
  match value, target with
  | none, _ => change plan (·.attach tree.toList)
  | some (.node n), some (feature, op) => do
    change plan (·.attach tree.toList)
    onObject plan (·.assign feature op (.node n))
  | some (.value v), some (feature, op) => do
    change plan (·.attach tree.toList)
    onObject plan (·.assign feature op v)
  | some (.node n), none => do
    change plan (·.attach (tree.toList.map (·.withOwner none)))
    adopt plan n
  | some (.value v), none => do
    change plan (·.attach tree.toList)
    change plan (·.collect v.asText)

def call (plan : Plan) (invoke : Call) (id : RuleId) (target : Option (String × AssignOp)) :
    Guarded Unit := do
  let rule ← lookUp plan id
  match rule.kind with
  | .terminal token value => take plan token value rule.name target
  | _ =>
    let (tree, value) ← invoke id (target.map (·.1))
    keep plan tree value target

/-- Takes the token of a terminal rule as the text of a reference. -/
def takeText (plan : Plan) (feature : String) (op : AssignOp) (target : TypeId) (token : TokenKind)
    (value : ValueKind) (name : String) : Guarded Unit := do
  let taken ← step plan (·.expectKind plan token name (some feature))
  match taken with
  | none => return
  | some t =>
    onObject plan (Interpreter.makeReference feature op target (value.convertText t.image)
      (.leaf t (some feature)))

/-- Keeps what came of an invocation as the text of a reference. -/
def keepText (plan : Plan) (feature : String) (op : AssignOp) (target : TypeId)
    (tree : Option SourceTree) (value : Option RuleValue) : Guarded Unit := do
  change plan (·.attach tree.toList)
  match value, tree with
  | some (.value v), some tree =>
    onObject plan (Interpreter.makeReference feature op target v.asText tree)
  | some (.node _), _ => throw .nodeAsReferenceText
  | _, _ => return

def crossReference (plan : Plan) (invoke : Call) (feature : String) (op : AssignOp) (target : TypeId)
    (id : RuleId) : Guarded Unit := do
  let rule ← lookUp plan id
  match rule.kind with
  | .terminal token value => takeText plan feature op target token value rule.name
  | _ =>
    let (tree, value) ← invoke id (some feature)
    keepText plan feature op target tree value

/-! ### Elements -/

mutual

def run (plan : Plan) (invoke : Call) : Element → Guarded (Option FirstSet)
  | .keyword text => do
    let taken ← step plan (·.expectKeyword plan text none)
    if taken.isSome then change plan (·.collect text)
    return none
  | .call id => do
    call plan invoke id none
    return none
  | .assign feature op value => runAssigned plan invoke feature op value
  | .crossRef _ _ => throw .strayCrossRef
  | .action type none => do
    onObject plan (·.retag type)
    return none
  | .action type (some (feature, op)) => do
    onObject plan (·.wrap plan type feature op)
    return none
  | .group items => runAll plan invoke items
  | .alternatives items => do
    let chosen ← foresee plan (.alternatives items) (Interpreter.choose plan items)
    match chosen with
    | some i => runNth plan invoke items i
    | none => return some (plan.lookahead.first (.alternatives items))
  | .repetition cardinality item =>
    repeated plan cardinality (foresee plan item (Interpreter.ready plan item)) (run plan invoke item)

def runAll (plan : Plan) (invoke : Call) : List Element → Guarded (Option FirstSet)
  | [] => return none
  | item :: rest => do
    let stuck ← run plan invoke item
    if stuck.isSome then return stuck else runAll plan invoke rest

def runNth (plan : Plan) (invoke : Call) : List Element → Nat → Guarded (Option FirstSet)
  | [], _ => return none
  | item :: _, 0 => run plan invoke item
  | _ :: rest, i + 1 => runNth plan invoke rest i

def runAssigned (plan : Plan) (invoke : Call) (feature : String) (op : AssignOp) :
    Element → Guarded (Option FirstSet)
  | .keyword text => do
    let taken ← step plan (·.expectKeyword plan text (some feature))
    if taken.isSome then onObject plan (·.assign feature op (.text text))
    return none
  | .call id => do
    call plan invoke id (some (feature, op))
    return none
  | .crossRef target id => do
    crossReference plan invoke feature op target id
    return none
  | .alternatives items => do
    let chosen ← foresee plan (.alternatives items) (Interpreter.choose plan items)
    match chosen with
    | some i => runAssignedNth plan invoke feature op items i
    | none => return some (plan.lookahead.first (.alternatives items))
  | _ => throw .unassignable

def runAssignedNth (plan : Plan) (invoke : Call) (feature : String) (op : AssignOp) :
    List Element → Nat → Guarded (Option FirstSet)
  | [], _ => return none
  | item :: _, 0 => runAssigned plan invoke feature op item
  | _ :: rest, i + 1 => runAssignedNth plan invoke feature op rest i

end

def runReported (plan : Plan) (invoke : Call) (e : Element) : Guarded Unit := do
  let stuck ← run plan invoke e
  match stuck with
  | some expected => change plan (·.report plan expected)
  | none => return

/-! ### Rules and documents -/

/-- Takes the frame of a rule off the stacks and finishes what the rule has built. -/
def leave (plan : Plan) (id : RuleId) (kind : RuleKind) (feature : Option String) (offset : Nat) :
    Guarded (Option SourceTree × Option RuleValue) := do
  let frame ← pop plan
  step plan fun s =>
    let out := Interpreter.leave plan id kind feature offset s.frame { s with frame }
    (out.state, (out.tree, out.value))

/-- Invokes a rule in a frame of its own, if the nesting is not too deep (`invoke_rule`). -/
def invoke (plan : Plan) : Nat → Call
  | 0, id, _ => do
    let _ ← lookUp plan id
    change plan fun s =>
      { s.raise plan (.tooDeep plan.limits.maxRuleDepth) with recovering := true }.note .depthLimit
    return (none, none)
  | depth + 1, id, feature => do
    let rule ← lookUp plan id
    let offset ← ask plan (·.nextOffset plan)
    push (Frame.enter id rule.kind)
    runReported plan (invoke plan depth) rule.body
    leave plan id rule.kind feature offset

def skip (plan : Plan) (entry : Element) : Nat → Bool → Guarded Unit
  | 0, _ => return
  | fuel + 1, stalled => do
    let left ← ask plan (·.stream.count)
    let starts ← foresee plan entry (Interpreter.ready plan entry)
    if left = 0 || (!stalled && starts) then return
    else
      change plan fun s => (s.consume none).1
      skip plan entry fuel false

def runEntry (plan : Plan) (invoke : Call) (entry : Element) : Nat → Guarded Unit
  | 0 => return
  | fuel + 1 => do
    let before ← ask plan (·.stream.count)
    runReported plan invoke entry
    let after ← ask plan (·.stream.count)
    if after = 0 then return
    else
      change plan (·.record plan .trailingInput)
      skip plan entry after (after == before)
      change plan fun s => { s with recovering := false }
      let left ← ask plan (·.stream.count)
      if left = 0 then return else runEntry plan invoke entry fuel

/-- Enters the entry rule and runs it to the end of the input (`parse_entry`). -/
def document (p : Parser) (plan : Plan) : Guarded State := do
  let entry ← lookUp plan p.grammar.entry
  push { rule := p.grammar.entry, content := .object { type := some p.grammar.entryType } }
  let count ← ask plan (·.stream.count)
  runEntry plan (invoke plan (p.limits.maxRuleDepth - 1)) entry.body (count + 1)
  view plan

/-- Parses tokens, from empty stacks on. -/
def parse (p : Parser) (lexed : LexResult) : Except Breach ParseResult := do
  let plan := p.planFor lexed
  let (ended, _) ← document p plan (.empty (p.opened lexed).stream (p.opened lexed).errors)
  let (ended, ast) := Parser.finish plan ended
  return {
    ast
    lexErrors := lexed.errors
    parseErrors := ended.errors.toList
    incidents := ended.incidents }

end Guarded

end Workbench
