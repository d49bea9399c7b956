import Workbench.Parser

/-!
**What a run can do.**

A run of the parser is made of a few kinds of steps, whatever the grammar and the input are: it takes a
token, reports an error, builds a part of the current object, or calls a rule, which is a run of its own
in a frame of its own. A relation of states that all steps respect holds from the start of a run to its end
(`Respects.run`). One such relation, `Reaches`, lists the steps: every run of an element, of a rule and of the
whole document is a sequence of them, so what each step preserves holds after every run.
-/

namespace Workbench

/-- The values that tokens and data-type rules stand for: texts and numbers. -/
def Value.IsPlain : Value → Prop
  | .text _ | .number _ => True
  | _ => False

namespace Interpreter

/-- What the caller can do with the result of an invocation. -/
inductive Returns (out : Invoked) : State → Prop where
  | keep : Returns out (out.state.attach out.tree.toList)
  | assign {n : NodeId} (value : out.value = some (.node n)) (feature : String) (op : AssignOp) :
    Returns out ((out.state.attach out.tree.toList).assign feature op (.node n))
  | adopt {n : NodeId} (value : out.value = some (.node n)) :
    Returns out ((out.state.attach (out.tree.toList.map (·.withOwner none))).adopt n)
  | refer {tree : SourceTree} (took : out.tree = some tree) (feature : String) (op : AssignOp)
    (target : TypeId) (text : String) :
    Returns out (makeReference feature op target text tree (out.state.attach [tree]))

/-- The states that a run can reach from a state in the frame of one invocation. -/
inductive Reaches (plan : Plan) : State → State → Prop where
  | refl {s : State} : Reaches plan s s
  | trans {s t u : State} : Reaches plan s t → Reaches plan t u → Reaches plan s u
  | note {s : State} (incident : Incident) : Reaches plan s (s.note incident)
  | record {s : State} (problem : ParseProblem) : Reaches plan s (s.record plan problem)
  /-- An error that starts recovering. While recovering, it leaves no trace. -/
  | fail {s : State} (problem : ParseProblem) :
    Reaches plan s { s.raise plan problem with recovering := true }
  | settle {s : State} : Reaches plan s { s with recovering := false }
  | consume {s : State} (feature : Option String) : Reaches plan s (s.consume feature).1
  | collect {s : State} (text : String) : Reaches plan s (s.collect text)
  | assign {s : State} {value : Value} (plain : value.IsPlain) (feature : String) (op : AssignOp) :
    Reaches plan s (s.assign feature op value)
  | refer {s : State} (feature : String) (op : AssignOp) (target : TypeId) (text : String)
    (token : Token) :
    Reaches plan s (makeReference feature op target text (.leaf token (some feature)) s)
  | retag {s : State} (type : TypeId) : Reaches plan s (s.retag type)
  | wrap {s : State} (type : TypeId) (feature : String) (op : AssignOp) :
    Reaches plan s (s.wrap plan type feature op)
  | call {s ended t : State} {id : RuleId} {rule : Rule} {feature : Option String} {offset : Nat}
    (known : plan.grammar.rules[id]? = some rule)
    (inner : Reaches plan { s with frame := Frame.enter id rule.kind } ended)
    (back : Returns (leave plan id rule.kind feature offset s.frame ended) t) : Reaches plan s t

/-- What an invocation can answer: it refuses to run the rule, or runs it in a frame of its own and
leaves it. -/
inductive Answers (plan : Plan) (s : State) : Invoked → Prop where
  | refused {t : State} (reached : Reaches plan s t) : Answers plan s { state := t }
  | left {ended : State} {id : RuleId} {rule : Rule} {feature : Option String} {offset : Nat}
    (known : plan.grammar.rules[id]? = some rule)
    (inner : Reaches plan { s with frame := Frame.enter id rule.kind } ended) :
    Answers plan s (leave plan id rule.kind feature offset s.frame ended)

variable {plan : Plan} {invoke : Invocation} {s : State}

/-! ### Results of invocations -/

@[simp] theorem attach_nil (s : State) : s.attach [] = s := by
  simp [State.attach]

theorem isPlain_convert (kind : ValueKind) (image : String) : (kind.convert image).IsPlain := by
  cases kind with
  | number =>
    unfold ValueKind.convert ValueKind.numberOrText
    dsimp only
    split <;> trivial
  | _ => trivial

theorem isPlain_ofCollected (kind : ValueKind) (text : String) :
    (kind.ofCollected text).IsPlain := by
  cases kind with
  | number =>
    unfold ValueKind.ofCollected ValueKind.numberOrText
    dsimp only
    split <;> trivial
  | _ => trivial

theorem isPlain_of_leave {id : RuleId} {kind : RuleKind} {feature : Option String} {offset : Nat}
    {caller : Frame} {v : Value}
    (h : (leave plan id kind feature offset caller s).value = some (.value v)) : v.IsPlain := by
  unfold leave at h
  dsimp only at h
  split at h
  · cases h
  · split at h
    · split at h <;> cases h
    · simp only [Option.some.injEq, RuleValue.value.injEq] at h
      subst h
      exact isPlain_ofCollected _ _
    · cases h

namespace Answers

variable {out : Invoked}

theorem isPlain (h : Answers plan s out) {v : Value} (value : out.value = some (.value v)) :
    v.IsPlain := by
  cases h with
  | refused => cases value
  | left known inner => exact isPlain_of_leave value

/-- Whatever the caller does with an answer, it does along a run. -/
theorem reaches {t : State} (h : Answers plan s out) (back : Returns out t) : Reaches plan s t := by
  cases h with
  | refused reached =>
    cases back with
    | keep => simpa using reached
    | assign value => cases value
    | adopt value => cases value
    | refer took => cases took
  | left known inner => exact .call known inner back

end Answers

/-- Invocations that run rules as the interpreter does. -/
def Proper (plan : Plan) (invoke : Invocation) : Prop :=
  ∀ id feature s, Answers plan s (invoke id feature s)

/-! ### Tokens and errors -/

theorem reaches_raise (problem : ParseProblem) : Reaches plan s (s.raise plan problem) := by
  unfold State.raise
  split
  · exact .refl
  · exact .record problem

theorem reaches_report (expected : FirstSet) : Reaches plan s (s.report plan expected) :=
  .fail _

theorem reaches_expect (plan : Plan) (s : State) (accepts : Token → Bool) (problem : ParseProblem)
    (feature : Option String) : Reaches plan s (s.expect plan accepts problem feature).1 := by
  unfold State.expect
  dsimp only
  split
  · exact Reaches.settle.trans (.consume feature)
  · split
    · have skipped : Reaches plan s ((s.raise plan problem).consume none).1 :=
        (reaches_raise problem).trans (.consume none)
      exact skipped.trans (Reaches.settle.trans (.consume feature))
    · exact .fail problem

/-! ### Relations along a run -/

/-- A relation of states that every step of a run respects, where an invocation with all that its caller
does with the answer is one step. -/
structure Respects (plan : Plan) (invoke : Invocation) (R : State → State → Prop) : Prop where
  refl : ∀ s, R s s
  trans : ∀ {s t u}, R s t → R t u → R s u
  note : ∀ s incident, R s (s.note incident)
  report : ∀ s expected, R s (s.report plan expected)
  keyword : ∀ s text feature, R s (s.expectKeyword plan text feature).1
  terminal : ∀ s token rule feature, R s (s.expectKind plan token rule feature).1
  collect : ∀ s text, R s (s.collect text)
  assign : ∀ s {value : Value}, value.IsPlain → ∀ feature op, R s (s.assign feature op value)
  refer : ∀ s feature op target text token,
    R s (makeReference feature op target text (.leaf token (some feature)) s)
  retag : ∀ s type, R s (s.retag type)
  wrap : ∀ s type feature op, R s (s.wrap plan type feature op)
  returned : ∀ id feature s {t}, Returns (invoke id feature s) t → R s t
  plain : ∀ id feature s {v}, (invoke id feature s).value = some (.value v) → v.IsPlain

section Loops

variable {R : State → State → Prop} {canStart : State → Bool} {body : State → Outcome}

theorem related_turns (refl : ∀ s, R s s) (trans : ∀ {s t u}, R s t → R t u → R s u)
    (report : ∀ s expected, R s (s.report plan expected)) (hbody : ∀ s, R s (body s).state)
    (fuel : Nat) (s : State) : R s (turns plan canStart body fuel s).state := by
  induction fuel generalizing s with
  | zero => exact refl s
  | succ fuel ih =>
    unfold turns
    dsimp only
    split
    · split
      · split
        · exact trans (trans (hbody s) (report _ _)) (ih _)
        · exact hbody s
      · split
        · exact trans (hbody s) (ih _)
        · exact hbody s
    · exact refl s

theorem related_repeated (refl : ∀ s, R s s) (trans : ∀ {s t u}, R s t → R t u → R s u)
    (report : ∀ s expected, R s (s.report plan expected)) (hbody : ∀ s, R s (body s).state)
    (cardinality : Cardinality) (s : State) :
    R s (repeated plan cardinality canStart body s).state := by
  cases cardinality with
  | optional =>
    unfold repeated
    dsimp only
    split
    · exact hbody s
    · exact refl s
  | zeroOrMore => exact related_turns refl trans report hbody _ s
  | oneOrMore =>
    unfold repeated
    dsimp only
    split
    · exact hbody s
    · split
      · exact trans (hbody s) (related_turns refl trans report hbody _ _)
      · exact hbody s

end Loops

namespace Respects

variable {R : State → State → Prop}

theorem call (h : Respects plan invoke R) (id : RuleId) (target : Option (String × AssignOp)) (s : State) :
    R s (Interpreter.call plan invoke id target s) := by
  unfold Interpreter.call
  split
  · exact h.note s _
  · next rule _ =>
    split
    · next token value _ =>
      dsimp only
      have taken := h.terminal s token rule.name (target.map (·.1))
      split
      · exact taken
      · exact h.trans taken (h.assign _ (isPlain_convert _ _) _ _)
      · exact h.trans taken (h.collect _ _)
    · have kept := h.returned id (target.map (·.1)) s .keep
      dsimp only
      split
      · exact kept
      · next value => exact h.returned _ _ _ (.assign value _ _)
      · next value => exact h.trans kept (h.assign _ (h.plain _ _ _ value) _ _)
      · next value => exact h.returned _ _ _ (.adopt value)
      · exact h.trans kept (h.collect _ _)

theorem crossReference (h : Respects plan invoke R) (feature : String) (op : AssignOp) (target : TypeId)
    (id : RuleId) (s : State) : R s (Interpreter.crossReference plan invoke feature op target id s) := by
  unfold Interpreter.crossReference
  split
  · exact h.note s _
  · next rule _ =>
    split
    · next token value _ =>
      dsimp only
      have taken := h.terminal s token rule.name (some feature)
      split
      · exact taken
      · exact h.trans taken (h.refer _ _ _ _ _ _)
    · have kept := h.returned id (some feature) s .keep
      dsimp only
      split
      · next took =>
        rw [took]
        exact h.returned _ _ _ (.refer took _ _ _ _)
      · exact h.trans kept (h.note _ _)
      · exact kept

mutual

/-- What every step of a run respects holds from its start to its end. -/
theorem run (h : Respects plan invoke R) :
    ∀ (e : Element) (s : State), R s (Interpreter.run plan invoke e s).state
  | .keyword text, s => by
    rw [Interpreter.run]
    have taken := h.keyword s text none
    dsimp only
    split
    · exact h.trans taken (h.collect _ _)
    · exact taken
  | .call id, s => by
    rw [Interpreter.run]
    exact h.call id none s
  | .assign feature op value, s => by
    rw [Interpreter.run]
    exact h.runAssigned feature op value s
  | .crossRef _ _, s => by
    rw [Interpreter.run]
    exact h.note s _
  | .action type none, s => by
    rw [Interpreter.run]
    exact h.retag s type
  | .action type (some (feature, op)), s => by
    rw [Interpreter.run]
    exact h.wrap s type feature op
  | .group items, s => by
    rw [Interpreter.run]
    exact h.runAll items s
  | .alternatives items, s => by
    rw [Interpreter.run]
    split
    · exact h.runNth items _ s
    · exact h.refl s
  | .repetition cardinality item, s => by
    rw [Interpreter.run]
    exact related_repeated h.refl h.trans h.report (h.run item) cardinality s

theorem runAll (h : Respects plan invoke R) :
    ∀ (items : List Element) (s : State), R s (Interpreter.runAll plan invoke items s).state
  | [], s => by
    rw [Interpreter.runAll]
    exact h.refl s
  | item :: rest, s => by
    have ran := h.run item s
    rw [Interpreter.runAll]
    split
    · exact ran
    · exact h.trans ran (h.runAll rest _)

theorem runNth (h : Respects plan invoke R) :
    ∀ (items : List Element) (i : Nat) (s : State), R s (Interpreter.runNth plan invoke items i s).state
  | [], _, s => by
    rw [Interpreter.runNth]
    exact h.refl s
  | item :: _, 0, s => by
    rw [Interpreter.runNth]
    exact h.run item s
  | _ :: rest, i + 1, s => by
    rw [Interpreter.runNth]
    exact h.runNth rest i s

theorem runAssigned (h : Respects plan invoke R) (feature : String) (op : AssignOp) :
    ∀ (e : Element) (s : State), R s (Interpreter.runAssigned plan invoke feature op e s).state
  | .keyword text, s => by
    rw [Interpreter.runAssigned]
    have taken := h.keyword s text (some feature)
    dsimp only
    split
    · have plain : (Value.text text).IsPlain := trivial
      exact h.trans taken (h.assign _ plain _ _)
    · exact taken
  | .call id, s => by
    rw [Interpreter.runAssigned]
    exact h.call id _ s
  | .crossRef target id, s => by
    rw [Interpreter.runAssigned]
    exact h.crossReference feature op target id s
  | .alternatives items, s => by
    rw [Interpreter.runAssigned]
    split
    · exact h.runAssignedNth feature op items _ s
    · exact h.refl s
  | .assign .., s => by
    simp only [Interpreter.runAssigned]
    exact h.note s _
  | .action .., s => by
    simp only [Interpreter.runAssigned]
    exact h.note s _
  | .group _, s => by
    simp only [Interpreter.runAssigned]
    exact h.note s _
  | .repetition .., s => by
    simp only [Interpreter.runAssigned]
    exact h.note s _

theorem runAssignedNth (h : Respects plan invoke R) (feature : String) (op : AssignOp) :
    ∀ (items : List Element) (i : Nat) (s : State),
      R s (Interpreter.runAssignedNth plan invoke feature op items i s).state
  | [], _, s => by
    rw [Interpreter.runAssignedNth]
    exact h.refl s
  | item :: _, 0, s => by
    rw [Interpreter.runAssignedNth]
    exact h.runAssigned feature op item s
  | _ :: rest, i + 1, s => by
    rw [Interpreter.runAssignedNth]
    exact h.runAssignedNth feature op rest i s

end

theorem runReported (h : Respects plan invoke R) (e : Element) (s : State) :
    R s (Interpreter.runReported plan invoke e s) := by
  have ran := h.run e s
  unfold Interpreter.runReported
  dsimp only
  split
  · exact h.trans ran (h.report _ _)
  · exact ran

end Respects

/-! ### Elements -/

theorem respects_reaches (hinvoke : Proper plan invoke) : Respects plan invoke (Reaches plan) where
  refl _ := .refl
  trans := .trans
  note _ := .note
  report _ := reaches_report
  keyword s _ := reaches_expect plan s _ _
  terminal s _ _ := reaches_expect plan s _ _
  collect _ := .collect
  assign _ _ plain := .assign plain
  refer _ feature op target text token := .refer feature op target text token
  retag _ := .retag
  wrap _ := .wrap
  returned id feature s _ := (hinvoke id feature s).reaches
  plain id feature s _ := (hinvoke id feature s).isPlain

theorem reaches_turns {canStart : State → Bool} {body : State → Outcome}
    (hbody : ∀ s, Reaches plan s (body s).state) (fuel : Nat) (s : State) :
    Reaches plan s (turns plan canStart body fuel s).state :=
  related_turns (fun _ => .refl) .trans (fun _ => reaches_report) hbody fuel s

theorem exists_rule {id : RuleId} (faultless : Element.callFault plan.grammar.rules id = none) :
    ∃ rule, plan.grammar.rules[id]? = some rule := by
  unfold Element.callFault at faultless
  split at faultless
  · next bound => exact ⟨_, Array.getElem?_eq_getElem bound⟩
  · cases faultless

theorem reaches_run (hinvoke : Proper plan invoke) (e : Element) (s : State) :
    Reaches plan s (run plan invoke e s).state :=
  (respects_reaches hinvoke).run e s

theorem reaches_runAll (hinvoke : Proper plan invoke) (items : List Element) (s : State) :
    Reaches plan s (runAll plan invoke items s).state :=
  (respects_reaches hinvoke).runAll items s

theorem reaches_runReported (hinvoke : Proper plan invoke) (e : Element) (s : State) :
    Reaches plan s (runReported plan invoke e s) :=
  (respects_reaches hinvoke).runReported e s

/-! ### Rules and documents -/

theorem proper_invoke (depth : Nat) : Proper plan (Interpreter.invoke plan depth) := by
  induction depth with
  | zero =>
    intro id feature s
    rw [Interpreter.invoke]
    exact .refused ((Reaches.fail _).trans (.note _))
  | succ depth ih =>
    intro id feature s
    rw [Interpreter.invoke]
    split
    · exact .refused (.note _)
    · next rule known => exact .left known (reaches_runReported ih rule.body _)

theorem reaches_skip (plan : Plan) (fuel : Nat) (stalled : Bool) (s : State) :
    Reaches plan s (skip plan fuel stalled s) := by
  induction fuel generalizing stalled s with
  | zero => exact .refl
  | succ fuel ih =>
    rw [skip]
    split
    · exact .refl
    · exact (Reaches.consume none).trans (ih false _)

theorem reaches_runEntry (hinvoke : Proper plan invoke) (fuel : Nat) (s : State) :
    Reaches plan s (runEntry plan invoke fuel s) := by
  induction fuel generalizing s with
  | zero => exact .refl
  | succ fuel ih =>
    have ran := reaches_runReported hinvoke plan.grammar.entryRule.body s
    rw [runEntry]
    dsimp only
    split
    · exact ran
    · have failed := ran.trans (.record .trailingInput)
      split
      · exact (failed.trans (reaches_skip plan _ _ _)).trans .settle
      · exact ((failed.trans (reaches_skip plan _ _ _)).trans .settle).trans (ih _)

end Interpreter

/-! ### Parses -/

namespace Parser

/-- What does not change while a list of tokens is parsed. -/
def planFor (p : Parser) (lexed : LexResult) : Plan where
  grammar := p.grammar
  lookahead := p.lookahead
  limits := p.limits
  textEnd := (lexed.tokens.getLast?.map Token.stop).getD 0

/-- The state in which a parse starts. -/
def opened (p : Parser) (lexed : LexResult) : State where
  stream := .of (cutAfter p.limits.maxTokens lexed.tokens).1
  frame := { rule := p.grammar.entry, content := .object { type := some p.grammar.entryType } }
  errors :=
    ((cutAfter p.limits.maxTokens lexed.tokens).2.toList.map (cutError p.limits.maxTokens)).toArray

/-- The state in which the entry rule has been run to the end of the input. -/
def ended (p : Parser) (lexed : LexResult) : State :=
  Interpreter.runEntry (p.planFor lexed)
    (Interpreter.invoke (p.planFor lexed) (p.limits.maxRuleDepth - 1))
    ((p.opened lexed).stream.count + 1) (p.opened lexed)

theorem parse_eq (p : Parser) (lexed : LexResult) :
    p.parse lexed = {
      ast := (finish (p.planFor lexed) (p.ended lexed)).2
      lexErrors := lexed.errors
      parseErrors := (finish (p.planFor lexed) (p.ended lexed)).1.errors.toList
      incidents := (finish (p.planFor lexed) (p.ended lexed)).1.incidents } := rfl

theorem reaches_ended (p : Parser) (lexed : LexResult) :
    Interpreter.Reaches (p.planFor lexed) (p.opened lexed) (p.ended lexed) :=
  Interpreter.reaches_runEntry (Interpreter.proper_invoke _) _ _

end Parser

end Workbench
