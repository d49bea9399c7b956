import Workbench.Grammar.FirstSet

/-!
**One-token lookahead.**

Which elements can match nothing, and which tokens can start an element. Both are first found for the
rules, as least solutions of the equations that the rule bodies give, and then read off for any
element. A solution is reached by as many rounds as there are rules: a derivation that needs more
rule calls than that repeats a rule, and the part between can be left out.

A rule that can call itself before any token has been taken is left-recursive; a parser that works from the
top down cannot run it. That the sweeps of `compute` over its tables and the search of
`check_left_recursion` on its stack come to the same is proved apart from here.
-/

namespace Workbench

namespace Element

mutual

/-- Whether an element can match nothing, given the rules that can (`nullable`). -/
def nullable (N : RuleId → Bool) : Element → Bool
  | keyword _ => false
  | call id | crossRef _ id => N id
  | assign _ _ value => nullable N value
  | action _ _ => true
  | group items => allNullable N items
  | alternatives items => anyNullable N items
  | repetition cardinality item =>
    match cardinality with
    | .optional | .zeroOrMore => true
    | .oneOrMore => nullable N item

/-- Whether all elements can match nothing. -/
def allNullable (N : RuleId → Bool) : List Element → Bool
  | [] => true
  | item :: rest => nullable N item && allNullable N rest

/-- Whether one of the elements can match nothing. -/
def anyNullable (N : RuleId → Bool) : List Element → Bool
  | [] => false
  | item :: rest => nullable N item || anyNullable N rest

end

mutual

/-- The tokens that can start an element, given the nullable rules `N` and the starting tokens `F` of each
rule (`collect_first`). -/
def first (N : RuleId → Bool) (F : RuleId → FirstSet) : Element → FirstSet
  | keyword text => .ofKeyword text
  | call id | crossRef _ id => F id
  | assign _ _ value => first N F value
  | action _ _ => .empty
  | group items => firstOfGroup N F items
  | alternatives items => firstOfAny N F items
  | repetition _ item => first N F item

/-- The starting tokens of a group: those of its items up to the first that cannot be empty. -/
def firstOfGroup (N : RuleId → Bool) (F : RuleId → FirstSet) : List Element → FirstSet
  | [] => .empty
  | item :: rest =>
    if nullable N item then (first N F item).union (firstOfGroup N F rest) else first N F item

/-- The starting tokens of all elements together. -/
def firstOfAny (N : RuleId → Bool) (F : RuleId → FirstSet) : List Element → FirstSet
  | [] => .empty
  | item :: rest => (first N F item).union (firstOfAny N F rest)

end

mutual

/-- Whether the token is one with which the element goes on, given the nullable rules `N` and what a call of
each rule accepts as its first token (`predicts`). -/
def predicts (N : RuleId → Bool) (P : RuleId → Token → Bool) (t : Token) : Element → Bool
  | keyword text => t.isKeyword text
  | call id | crossRef _ id => P id t
  | assign _ _ value => predicts N P t value
  | action _ _ => false
  | group items => predictsGroup N P t items
  | alternatives items => predictsAny N P t items
  | repetition _ item => predicts N P t item

/-- Whether one of the items up to the first that cannot be empty goes on with the token. -/
def predictsGroup (N : RuleId → Bool) (P : RuleId → Token → Bool) (t : Token) :
    List Element → Bool
  | [] => false
  | item :: rest => predicts N P t item || (nullable N item && predictsGroup N P t rest)

/-- Whether one of the elements goes on with the token. -/
def predictsAny (N : RuleId → Bool) (P : RuleId → Token → Bool) (t : Token) :
    List Element → Bool
  | [] => false
  | item :: rest => predicts N P t item || predictsAny N P t rest

end

mutual

/-- The rules called in an element before any token has been taken (`leftmost_calls`). -/
def leftCalls (N : RuleId → Bool) (isTerminal : RuleId → Bool) : Element → List RuleId
  | call id | crossRef _ id => if isTerminal id then [] else [id]
  | assign _ _ value => leftCalls N isTerminal value
  | group items => leftCallsOfGroup N isTerminal items
  | alternatives items => leftCallsOfAny N isTerminal items
  | repetition _ item => leftCalls N isTerminal item
  | keyword _ | action _ _ => []

/-- The rules called in a group before any token has been taken. -/
def leftCallsOfGroup (N : RuleId → Bool) (isTerminal : RuleId → Bool) :
    List Element → List RuleId
  | [] => []
  | item :: rest =>
    if nullable N item then leftCalls N isTerminal item ++ leftCallsOfGroup N isTerminal rest
    else leftCalls N isTerminal item

/-- The rules called in one of the elements before any token has been taken. -/
def leftCallsOfAny (N : RuleId → Bool) (isTerminal : RuleId → Bool) :
    List Element → List RuleId
  | [] => []
  | item :: rest => leftCalls N isTerminal item ++ leftCallsOfAny N isTerminal rest

end

end Element

/-- Applies a step `n` times. -/
def rounds {α : Type} (step : α → α) : Nat → α → α
  | 0, a => a
  | n + 1, a => rounds step n (step a)

/-- What is known of the rules of a grammar. -/
structure Lookahead where
  /-- The token kind of each terminal rule. -/
  terminals : Array (Option TokenKind)
  /-- Whether each rule can match nothing. Terminal rules cannot. -/
  nullableRules : Array Bool
  /-- The tokens that can start each rule. Terminal rules have none here. -/
  firstSets : Array FirstSet

namespace Lookahead

/-! ### Rules -/

def terminal? (la : Lookahead) (id : RuleId) : Option TokenKind := la.terminals[id]?.join

def ruleNullable (la : Lookahead) (id : RuleId) : Bool := la.nullableRules[id]?.getD false

/-- The tokens that can start a call of a rule. -/
def callFirst (la : Lookahead) (id : RuleId) : FirstSet :=
  match la.terminal? id with
  | some kind => .ofKind kind
  | none => la.firstSets[id]?.getD .empty

/-- Whether a call of a rule goes on with the token. -/
def callPredicts (la : Lookahead) (id : RuleId) (t : Token) : Bool :=
  match la.terminal? id with
  | some kind => t.kind == kind
  | none => (la.firstSets[id]?.getD .empty).contains t

/-! ### Elements -/

def nullable (la : Lookahead) (e : Element) : Bool := e.nullable la.ruleNullable

def first (la : Lookahead) (e : Element) : FirstSet := e.first la.ruleNullable la.callFirst

def predicts (la : Lookahead) (e : Element) (t : Token) : Bool :=
  e.predicts la.ruleNullable la.callPredicts t

/-! ### Solving the equations -/

/-- One round for the nullable rules. -/
def nullableRound (g : Grammar) (N : Array Bool) : Array Bool :=
  g.rules.map fun r => r.kind.terminal?.isNone && r.body.nullable (fun id => N[id]?.getD false)

/-- One round for the starting tokens. -/
def firstRound (g : Grammar) (la : Lookahead) : Lookahead :=
  { la with
    firstSets := g.rules.map fun r =>
      if r.kind.terminal?.isSome then .empty else la.first r.body }

/-- The lookahead of a grammar (`compute`). -/
def of (g : Grammar) : Lookahead :=
  let n := g.rules.size
  rounds (firstRound g) n {
    terminals := g.rules.map (·.kind.terminal?)
    nullableRules := rounds (nullableRound g) n (Array.replicate n false)
    firstSets := Array.replicate n .empty }

/-! ### Left recursion -/

/-- The rules that a rule calls before any token has been taken. -/
def leftCalls (g : Grammar) (la : Lookahead) (id : RuleId) : List RuleId :=
  match g.rules[id]? with
  | none => []
  | some rule =>
    if rule.kind.terminal?.isSome then []
    else rule.body.leftCalls la.ruleNullable (fun id => (la.terminal? id).isSome)

/-- One more step along left calls. -/
def extendCalls (g : Grammar) (la : Lookahead) (reached : List RuleId) : List RuleId :=
  reached.foldl (fun acc id =>
    (leftCalls g la id).foldl (fun acc id => if acc.contains id then acc else acc ++ [id]) acc)
    reached

/-- Whether a rule can call itself, in one or more steps, before any token has been taken. -/
def isLeftRecursive (g : Grammar) (la : Lookahead) (id : RuleId) : Bool :=
  (rounds (extendCalls g la) g.rules.size (leftCalls g la id)).contains id

/-- The first left-recursive rule (`check_left_recursion`). -/
def leftRecursive? (g : Grammar) (la : Lookahead) : Option Rule :=
  g.rules.toList.zipIdx.findSome? fun (rule, id) =>
    if isLeftRecursive g la id then some rule else none

end Lookahead

end Workbench
